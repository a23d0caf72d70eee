import NoobKernel.Mm.Boot
import NoobKernel.Mm.SlabLocks

set_option autoImplicit false

/-! # The invariant of a cache

A slab of a cache is on `slabs_full` when its bitmap has no clear bit and on `slabs_partial`
otherwise, and the counters of slab and cache count the clear bits (`CacheOk`). The objects whose
bit is set are in use (`InUse`); taking an object from a cache and putting it back change
this for that object alone.
-/

namespace NoobKernel.Mm

open Misc Exec

variable {E R : Type}

/-! ## Objects of a blob -/

/-- The number of objects of a slab for objects of a size. -/
def slabCapacity (size : Nat) : Nat := objectNum (cacheAllocSize size)

/-- Where the objects of such a slab begin. -/
def slabStart (size : Nat) : Nat := slabOffset (slabCapacity size) (cacheObjSize size)

/-- The address of an object of the slab `s`. -/
def objectAt (size s i : Nat) : Nat := s + (slabStart size + i * cacheAllocSize size)

/-- Slabs for objects of the size have objects, and each begins in its blob. -/
structure Usable (size : Nat) : Prop where
  alloc_pos : 0 < cacheAllocSize size
  capacity_pos : 0 < slabCapacity size
  begins : slabStart size + (slabCapacity size - 1) * cacheAllocSize size < SLAB_BLOB_SIZE

instance (size : Nat) : Decidable (Usable size) :=
  decidable_of_iff (0 < cacheAllocSize size ∧ 0 < slabCapacity size
      ∧ slabStart size + (slabCapacity size - 1) * cacheAllocSize size < SLAB_BLOB_SIZE)
    ⟨fun h => ⟨h.1, h.2.1, h.2.2⟩, fun h => ⟨h.alloc_pos, h.capacity_pos, h.begins⟩⟩

/-- All classes of `kmalloc` are usable, those whose last object leaves the blob as well. -/
theorem usable_classes : ∀ size ∈ MEM_OBJ_SIZES, Usable size := by decide

/-- The masks round up by less than the alignment. -/
theorem ALIGN_UP_le (x : Nat) {n : Nat} (hn : 0 < n) : ALIGN_UP x n ≤ x + (n - 1) := by
  have hmask : (x + mask n) % 2 ^ 64 = (x + (n - 1)) % 2 ^ 64 := by
    rw [mask]
    omega
  rw [ALIGN_UP, hmask]
  exact Nat.and_le_left.trans (Nat.mod_le _ _)

/-- A size that is not `0` and leaves room for header and bitmap is usable. -/
theorem usable_of_le {size : Nat} (hpos : 0 < size) (hle : size ≤ 65472) : Usable size := by
  have halloc : cacheAllocSize size = (size + 7) / 8 * 8 := by
    rw [cacheAllocSize, ALIGN_UP_eight]
    omega
  have hobj : cacheObjSize size = size := Nat.mod_eq_of_lt (by omega)
  have hcap : slabCapacity size = 523833 / (8 * cacheAllocSize size + 1) := by
    rw [slabCapacity, objectNum_eq (by omega)]
  have hone : 1 ≤ slabCapacity size := by
    rw [hcap, Nat.one_le_div_iff (by omega)]
    omega
  refine ⟨by omega, hone, ?_⟩
  have hroom : slabCapacity size * (8 * cacheAllocSize size + 1) ≤ 523833 := by
    rw [hcap]
    exact Nat.div_mul_le_self _ _
  have hstart : slabStart size ≤ 56 + (slabCapacity size + 7) / 8 + (size - 1) := by
    have hbitmap := slabBitmapSize_eq (objectNum_le (cacheAllocSize size))
    rw [slabStart, slabOffset, hobj, sizeofSlab, slabCapacity, hbitmap]
    exact (Nat.mod_le _ _).trans (ALIGN_UP_le _ hpos)
  have hblob : SLAB_BLOB_SIZE = 65536 := rfl
  have hobjects : (slabCapacity size - 1) * cacheAllocSize size
      = slabCapacity size * cacheAllocSize size - cacheAllocSize size := by
    rw [Nat.sub_mul, Nat.one_mul]
  have hfirst : cacheAllocSize size ≤ slabCapacity size * cacheAllocSize size :=
    Nat.le_mul_of_pos_left _ hone
  have hexpand : slabCapacity size * (8 * cacheAllocSize size + 1)
      = 8 * (slabCapacity size * cacheAllocSize size) + slabCapacity size := by ring
  omega
theorem slabCapacity_lt (size : Nat) : slabCapacity size < 2 ^ 32 :=
  Nat.lt_of_le_of_lt (objectNum_le _) (by decide)

namespace Usable

variable {size s s' i i' : Nat}

theorem object_lt (us : Usable size) (hi : i < slabCapacity size) :
    slabStart size + i * cacheAllocSize size < SLAB_BLOB_SIZE := by
  have hle : i * cacheAllocSize size ≤ (slabCapacity size - 1) * cacheAllocSize size :=
    Nat.mul_le_mul_right _ (Nat.le_sub_one_of_lt hi)
  exact Nat.lt_of_le_of_lt (Nat.add_le_add_left hle _) us.begins

theorem slabObject_eq (us : Usable size) (hi : i < slabCapacity size) :
    slabObject (slabStart size) i (cacheAllocSize size)
      = slabStart size + i * cacheAllocSize size := by
  have hlt := us.object_lt hi
  have hblob : SLAB_BLOB_SIZE < 2 ^ 32 := by decide
  rw [slabObject, Nat.mod_eq_of_lt (by omega)]

/-- An object leads back to its slab. -/
theorem align_down (us : Usable size) (hs : SLAB_BLOB_SIZE ∣ s) (hi : i < slabCapacity size)
    (hmem : objectAt size s i < 2 ^ 64) : SLAB_ALIGN_DOWN (objectAt size s i) = s := by
  have hblob : SLAB_BLOB_SIZE = 2 ^ 16 := rfl
  have hlt := us.object_lt hi
  obtain ⟨q, rfl⟩ := hs
  rw [hblob] at hlt hmem ⊢
  rw [SLAB_ALIGN_DOWN, hblob, ALIGN_DOWN_two_pow hmem (by decide), objectAt,
    Nat.mul_add_div (by decide), Nat.div_eq_of_lt hlt, Nat.add_zero, Nat.mul_comm]

theorem object_mem (us : Usable size) (hi : i < slabCapacity size) :
    s ≤ objectAt size s i ∧ objectAt size s i < s + SLAB_BLOB_SIZE :=
  ⟨Nat.le_add_right _ _, Nat.add_lt_add_left (us.object_lt hi) s⟩

/-- Objects of one slab are told apart by their index. -/
theorem objectAt_inj (us : Usable size) (h : objectAt size s i = objectAt size s i') : i = i' := by
  have hmul : i * cacheAllocSize size = i' * cacheAllocSize size := by
    rw [objectAt, objectAt] at h
    omega
  exact Nat.eq_of_mul_eq_mul_right us.alloc_pos hmul

theorem objectAt_inj_slab (us : Usable size) (hs : SLAB_BLOB_SIZE ∣ s) (hs' : SLAB_BLOB_SIZE ∣ s')
    (hi : i < slabCapacity size) (hi' : i' < slabCapacity size)
    (h : objectAt size s i = objectAt size s' i') : s = s' ∧ i = i' := by
  have hslab : s = s' := by
    obtain ⟨q, rfl⟩ := hs
    obtain ⟨q', rfl⟩ := hs'
    have hlt := us.object_lt hi
    have hlt' := us.object_lt hi'
    rw [objectAt, objectAt] at h
    have hq : q = q' := by
      have hdiv := congrArg (· / SLAB_BLOB_SIZE) h
      simpa [Nat.mul_add_div (show SLAB_BLOB_SIZE > 0 by decide), Nat.div_eq_of_lt hlt,
        Nat.div_eq_of_lt hlt'] using hdiv
    rw [hq]
  subst hslab
  exact ⟨rfl, us.objectAt_inj h⟩

end Usable

/-! ## The invariant -/

/-- All slabs that hold objects. -/
def KmemCache.slabs (kmem : KmemCache) : List Nat := kmem.slabsFull ++ kmem.slabsPartial

/-- A slab of the cache `c`, which has objects of a size. -/
structure SlabOk (size c : Nat) (slab : Slab) : Prop where
  kmem : slab.kmem = c
  magic : slab.magic = SLAB_MAGIC
  total : slab.total = slabCapacity size
  offset : slab.offset = slabStart size
  len : slab.bm.len = slabCapacity size
  free : slab.free = slab.bm.clearCount

/-- **The invariant of a cache** with the slab headers that lie at the addresses of `slabs`. -/
structure CacheOk (size c : Nat) (kmem : KmemCache) (slabs : Nat → Slab) : Prop where
  objSize : kmem.objSize = cacheObjSize size
  allocSize : kmem.allocSize = cacheAllocSize size
  low : kmem.low = slabCapacity size
  parked : kmem.slabsFree = []
  nodup : kmem.slabs.Nodup
  aligned : ∀ s ∈ kmem.slabs, SLAB_BLOB_SIZE ∣ s
  slab : ∀ s ∈ kmem.slabs, SlabOk size c (slabs s)
  full : ∀ s ∈ kmem.slabsFull, (slabs s).free = 0
  avail : ∀ s ∈ kmem.slabsPartial, (slabs s).free ≠ 0
  free : kmem.free = (kmem.slabs.map fun s => (slabs s).free).sum
  total : kmem.total = (kmem.slabs.map fun s => (slabs s).total).sum

/-- The address is that of an object of the cache that is not free. -/
def InUse (size : Nat) (kmem : KmemCache) (slabs : Nat → Slab) (x : Nat) : Prop :=
  ∃ s ∈ kmem.slabs, ∃ i < slabCapacity size, x = objectAt size s i ∧ (slabs s).bm.bit i = true

namespace SlabOk

variable {size c : Nat} {slab : Slab}

theorem free_le (h : SlabOk size c slab) : slab.free ≤ slabCapacity size := by
  rw [h.free, ← h.len]
  exact Bitmap.clearCount_le _

theorem free_lt (h : SlabOk size c slab) : slab.free < 2 ^ 32 :=
  Nat.lt_of_le_of_lt h.free_le (slabCapacity_lt size)

/-- The first clear bit of a slab with free objects. -/
theorem first (h : SlabOk size c slab) (hfree : slab.free ≠ 0) :
    slab.bm.findNextClear 0 < slabCapacity size
      ∧ slab.bm.bit (slab.bm.findNextClear 0) = false := by
  have hex : ∃ j < slab.bm.len, slab.bm.bit j = false := by
    refine Bitmap.exists_clear ?_
    rw [← h.free]
    exact Nat.pos_of_ne_zero hfree
  obtain ⟨⟨hclear, -⟩, hlt⟩ := Bitmap.findNextClear_zero hex
  rw [h.len] at hlt
  exact ⟨hlt, hclear⟩

end SlabOk

/-! ## One object -/

namespace Slab

/-- `slab_alloc` of the object `i`. -/
def take (i : Nat) (slab : Slab) : Slab :=
  { slab with free := slab.free - 1, bm := slab.bm.set i }

/-- `slab_free` of the object `i`. -/
def put (i : Nat) (slab : Slab) : Slab :=
  { slab with free := slab.free + 1, bm := slab.bm.clear i }

end Slab

namespace SlabOk

variable {size c i : Nat} {slab : Slab}

theorem take (h : SlabOk size c slab) (hi : i < slabCapacity size)
    (hbit : slab.bm.bit i = false) : SlabOk size c (slab.take i) where
  kmem := h.kmem
  magic := h.magic
  total := h.total
  offset := h.offset
  len := (Bitmap.set_len _ _).trans h.len
  free := by
    have hcount := Bitmap.clearCount_set (h.len.symm ▸ hi) hbit
    show slab.free - 1 = (slab.bm.set i).clearCount
    rw [h.free, ← hcount, Nat.add_sub_cancel]

theorem put (h : SlabOk size c slab) (hi : i < slabCapacity size)
    (hbit : slab.bm.bit i = true) : SlabOk size c (slab.put i) where
  kmem := h.kmem
  magic := h.magic
  total := h.total
  offset := h.offset
  len := (Bitmap.clear_len _ _).trans h.len
  free := by
    have hcount := Bitmap.clearCount_clear (h.len.symm ▸ hi) hbit
    show slab.free + 1 = (slab.bm.clear i).clearCount
    rw [h.free, ← hcount]

theorem take_bit (h : SlabOk size c slab) (hi : i < slabCapacity size) (j : Nat) :
    (slab.take i).bm.bit j = (slab.bm.bit j || decide (j = i)) :=
  Bitmap.bit_set (h.len.symm ▸ hi) j

theorem put_bit (h : SlabOk size c slab) (hi : i < slabCapacity size) (j : Nat) :
    (slab.put i).bm.bit j = (slab.bm.bit j && !decide (j = i)) :=
  Bitmap.bit_clear (h.len.symm ▸ hi) j

/-- A slab with an object in use is not empty. -/
theorem free_lt_of_bit (h : SlabOk size c slab) (hi : i < slabCapacity size)
    (hbit : slab.bm.bit i = true) : slab.free < slabCapacity size := by
  have hput := (h.put hi hbit).free_le
  exact hput

/-- The header that `slab_init` writes. -/
theorem new (size c : Nat) {kmem : KmemCache} (hobj : kmem.objSize = cacheObjSize size)
    (halloc : kmem.allocSize = cacheAllocSize size) : SlabOk size c (newSlab c kmem) := by
  unfold newSlab
  rw [hobj, halloc]
  exact ⟨rfl, rfl, rfl, rfl, rfl, (Bitmap.clearCount_zero _).symm⟩

theorem free_newSlab (c : Nat) {kmem : KmemCache} (halloc : kmem.allocSize = cacheAllocSize size) :
    (newSlab c kmem).free = slabCapacity size := by
  show objectNum kmem.allocSize = objectNum (cacheAllocSize size)
  rw [halloc]

end SlabOk

/-! ## The lists of a cache -/

theorem sum_map_update {l : List Nat} {s : Nat} (hnd : l.Nodup) (hs : s ∈ l) (g : Slab → Nat)
    (slabs : Nat → Slab) (v : Slab) :
    (l.map fun x => g (Function.update slabs s v x)).sum + g (slabs s)
      = (l.map fun x => g (slabs x)).sum + g v := by
  have hrest : ((l.erase s).map fun x => g (Function.update slabs s v x))
      = (l.erase s).map fun x => g (slabs x) := by
    refine List.map_congr_left fun x hx => ?_
    rw [Function.update_of_ne (hnd.mem_erase_iff.mp hx).1]
  have hnew := List.sum_map_erase (fun x => g (Function.update slabs s v x)) hs
  have hold := List.sum_map_erase (fun x => g (slabs x)) hs
  rw [hrest, Function.update_self] at hnew
  omega

namespace KmemCache

variable {kmem : KmemCache} {s : Nat}

/-- The cache without an object of the slab `s`, which is the `last` one. -/
def taken (s : Nat) (last : Bool) (kmem : KmemCache) : KmemCache :=
  { (if last then addFull s (kmem.unlink s) else kmem) with free := kmem.free - 1 }

/-- The cache with an object of the slab `s` back, the first one if `s` was full. -/
def putBack (s : Nat) (first : Bool) (kmem : KmemCache) : KmemCache :=
  { (if first then addPartial s (kmem.unlink s) else kmem) with free := kmem.free + 1 }

theorem not_mem_full (hnd : kmem.slabs.Nodup) (hs : s ∈ kmem.slabsPartial) : s ∉ kmem.slabsFull :=
  fun hmem => (List.nodup_append.mp hnd).2.2 s hmem s hs rfl

theorem not_mem_slabsPartial (hnd : kmem.slabs.Nodup) (hs : s ∈ kmem.slabsFull) :
    s ∉ kmem.slabsPartial :=
  fun hmem => (List.nodup_append.mp hnd).2.2 s hs s hmem rfl

theorem taken_last_full (hnd : kmem.slabs.Nodup) (hs : s ∈ kmem.slabsPartial) :
    (kmem.taken s true).slabsFull = s :: kmem.slabsFull := by
  show s :: kmem.slabsFull.erase s = _
  rw [List.erase_of_not_mem (not_mem_full hnd hs)]

theorem putBack_first_list (hnd : kmem.slabs.Nodup) (hs : s ∈ kmem.slabsFull) :
    (kmem.putBack s true).slabsPartial = s :: kmem.slabsPartial := by
  show s :: kmem.slabsPartial.erase s = _
  rw [List.erase_of_not_mem (not_mem_slabsPartial hnd hs)]

theorem mem_taken_full (hnd : kmem.slabs.Nodup) (hs : s ∈ kmem.slabsPartial) {last : Bool} {x : Nat}
    (hx : x ∈ (kmem.taken s last).slabsFull) :
    (x = s ∧ last = true) ∨ (x ≠ s ∧ x ∈ kmem.slabsFull) := by
  have hnot := not_mem_full hnd hs
  have hne : ∀ {y}, y ∈ kmem.slabsFull → y ≠ s := fun hy heq => hnot (heq ▸ hy)
  cases last with
  | false => exact Or.inr ⟨hne hx, hx⟩
  | true =>
      rw [taken_last_full hnd hs] at hx
      rcases List.mem_cons.mp hx with rfl | hx
      · exact Or.inl ⟨rfl, rfl⟩
      · exact Or.inr ⟨hne hx, hx⟩

theorem mem_taken_partial (hnd : kmem.slabs.Nodup) {last : Bool} {x : Nat}
    (hx : x ∈ (kmem.taken s last).slabsPartial) :
    x ∈ kmem.slabsPartial ∧ (x = s → last = false) := by
  cases last with
  | false => exact ⟨hx, fun _ => rfl⟩
  | true =>
      have hx' : x ∈ kmem.slabsPartial.erase s := hx
      rw [(List.nodup_append.mp hnd).2.1.mem_erase_iff] at hx'
      exact ⟨hx'.2, fun heq => absurd heq hx'.1⟩

theorem mem_putBack_partial (hnd : kmem.slabs.Nodup) {first : Bool}
    (hfirst : first = true ↔ s ∈ kmem.slabsFull) {x : Nat}
    (hx : x ∈ (kmem.putBack s first).slabsPartial) : x = s ∨ x ∈ kmem.slabsPartial := by
  cases first with
  | false => exact Or.inr hx
  | true =>
      rw [putBack_first_list hnd (hfirst.mp rfl)] at hx
      exact List.mem_cons.mp hx

theorem mem_putBack_full (hnd : kmem.slabs.Nodup) {first : Bool}
    (hfirst : first = true ↔ s ∈ kmem.slabsFull) {x : Nat}
    (hx : x ∈ (kmem.putBack s first).slabsFull) : x ≠ s ∧ x ∈ kmem.slabsFull := by
  cases first with
  | false =>
      refine ⟨?_, hx⟩
      rintro rfl
      exact absurd (hfirst.mpr hx) Bool.false_ne_true
  | true =>
      have hx' : x ∈ kmem.slabsFull.erase s := hx
      rwa [(List.nodup_append.mp hnd).1.mem_erase_iff] at hx'

/-- Taking an object leaves the sizes, the flags and `slabs_free` alone. -/
theorem taken_same (kmem : KmemCache) (s : Nat) (last : Bool) :
    (kmem.taken s last).objSize = kmem.objSize ∧ (kmem.taken s last).allocSize = kmem.allocSize
      ∧ (kmem.taken s last).low = kmem.low ∧ (kmem.taken s last).total = kmem.total
      ∧ (kmem.taken s last).free = kmem.free - 1
      ∧ (kmem.taken s last).locked = kmem.locked
      ∧ (kmem.taken s last).expanding = kmem.expanding
      ∧ (kmem.slabsFree = [] → (kmem.taken s last).slabsFree = []) := by
  cases last with
  | false => exact ⟨rfl, rfl, rfl, rfl, rfl, rfl, rfl, id⟩
  | true => exact ⟨rfl, rfl, rfl, rfl, rfl, rfl, rfl, fun h => by simp [taken, addFull, unlink, h]⟩

theorem putBack_same (kmem : KmemCache) (s : Nat) (first : Bool) :
    (kmem.putBack s first).objSize = kmem.objSize
      ∧ (kmem.putBack s first).allocSize = kmem.allocSize
      ∧ (kmem.putBack s first).low = kmem.low ∧ (kmem.putBack s first).total = kmem.total
      ∧ (kmem.putBack s first).free = kmem.free + 1
      ∧ (kmem.putBack s first).locked = kmem.locked
      ∧ (kmem.putBack s first).expanding = kmem.expanding
      ∧ (kmem.slabsFree = [] → (kmem.putBack s first).slabsFree = []) := by
  cases first with
  | false => exact ⟨rfl, rfl, rfl, rfl, rfl, rfl, rfl, id⟩
  | true =>
      exact ⟨rfl, rfl, rfl, rfl, rfl, rfl, rfl, fun h => by simp [putBack, addPartial, unlink, h]⟩

theorem taken_perm (hnd : kmem.slabs.Nodup) (hs : s ∈ kmem.slabsPartial) (last : Bool) :
    (kmem.taken s last).slabs.Perm kmem.slabs := by
  cases last with
  | false => exact .refl _
  | true =>
      rw [slabs, taken_last_full hnd hs]
      exact List.perm_middle.symm.trans ((List.perm_cons_erase hs).symm.append_left _)

theorem putBack_perm (hnd : kmem.slabs.Nodup) (hs : s ∈ kmem.slabsFull) (first : Bool) :
    (kmem.putBack s first).slabs.Perm kmem.slabs := by
  cases first with
  | false => exact .refl _
  | true =>
      rw [slabs, putBack_first_list hnd hs]
      exact List.perm_middle.trans ((List.perm_cons_erase hs).symm.append_right _)

end KmemCache

namespace CacheOk

variable {size c : Nat} {kmem kmem' : KmemCache} {slabs slabs' : Nat → Slab} {s i : Nat}

/-- The lock of a cache is no part of what it holds. -/
theorem setLocked (h : CacheOk size c kmem slabs) (b : Bool) :
    CacheOk size c (kmem.setLocked b) slabs :=
  ⟨h.objSize, h.allocSize, h.low, h.parked, h.nodup, h.aligned, h.slab, h.full, h.avail, h.free,
    h.total⟩

/-- Only the headers of its slabs matter to a cache. -/
theorem congr (h : CacheOk size c kmem slabs) (heq : ∀ s ∈ kmem.slabs, slabs' s = slabs s) :
    CacheOk size c kmem slabs' where
  objSize := h.objSize
  allocSize := h.allocSize
  low := h.low
  parked := h.parked
  nodup := h.nodup
  aligned := h.aligned
  slab s hs := by
    rw [heq s hs]
    exact h.slab s hs
  full s hs := by
    rw [heq s (List.mem_append_left _ hs)]
    exact h.full s hs
  avail s hs := by
    rw [heq s (List.mem_append_right _ hs)]
    exact h.avail s hs
  free := by
    rw [h.free]
    exact congrArg List.sum (List.map_congr_left fun s hs => by rw [heq s hs])
  total := by
    rw [h.total]
    exact congrArg List.sum (List.map_congr_left fun s hs => by rw [heq s hs])

/-- The slab `s` gets another header, and moves to the list that fits it. -/
theorem update (h : CacheOk size c kmem slabs) (hs : s ∈ kmem.slabs) {v : Slab}
    (hv : SlabOk size c v) (hobj : kmem'.objSize = kmem.objSize)
    (halloc : kmem'.allocSize = kmem.allocSize) (hlow : kmem'.low = kmem.low)
    (hparked : kmem'.slabsFree = []) (hperm : kmem'.slabs.Perm kmem.slabs)
    (hfull : ∀ x ∈ kmem'.slabsFull, if x = s then v.free = 0 else x ∈ kmem.slabsFull)
    (havail : ∀ x ∈ kmem'.slabsPartial, if x = s then v.free ≠ 0 else x ∈ kmem.slabsPartial)
    (hfree : kmem'.free + (slabs s).free = kmem.free + v.free)
    (htotal : kmem'.total = kmem.total) :
    CacheOk size c kmem' (Function.update slabs s v) where
  objSize := hobj.trans h.objSize
  allocSize := halloc.trans h.allocSize
  low := hlow.trans h.low
  parked := hparked
  nodup := hperm.nodup_iff.mpr h.nodup
  aligned x hx := h.aligned x (hperm.mem_iff.mp hx)
  slab x hx := by
    by_cases heq : x = s
    · rw [heq, Function.update_self]
      exact hv
    · rw [Function.update_of_ne heq]
      exact h.slab x (hperm.mem_iff.mp hx)
  -- the lists are about the headers: only that of `s` has changed
  full x hx := by
    have hx' := hfull x hx
    by_cases heq : x = s
    · rw [if_pos heq] at hx'
      rw [heq, Function.update_self]
      exact hx'
    · rw [if_neg heq] at hx'
      rw [Function.update_of_ne heq]
      exact h.full x hx'
  avail x hx := by
    have hx' := havail x hx
    by_cases heq : x = s
    · rw [if_pos heq] at hx'
      rw [heq, Function.update_self]
      exact hx'
    · rw [if_neg heq] at hx'
      rw [Function.update_of_ne heq]
      exact h.avail x hx'
  free := by
    have hsum := sum_map_update h.nodup hs Slab.free slabs v
    rw [(hperm.map _).sum_eq]
    have := h.free
    omega
  total := by
    have hsum := sum_map_update h.nodup hs Slab.total slabs v
    have hold := (h.slab s hs).total
    have hnew := hv.total
    rw [(hperm.map _).sum_eq, htotal]
    have := h.total
    omega

/-- A free object of a slab on `slabs_partial` is taken. -/
theorem take (h : CacheOk size c kmem slabs) (hs : s ∈ kmem.slabsPartial)
    (hi : i < slabCapacity size) (hbit : (slabs s).bm.bit i = false) :
    CacheOk size c (kmem.taken s (decide ((slabs s).free = 1)))
      (Function.update slabs s ((slabs s).take i)) := by
  have hmem : s ∈ kmem.slabs := List.mem_append_right _ hs
  have hpos := h.avail s hs
  have hle : (slabs s).free ≤ kmem.free := by
    rw [h.free]
    exact List.le_sum_of_mem (List.mem_map_of_mem hmem)
  have hcount : kmem.free - 1 + (slabs s).free = kmem.free + ((slabs s).free - 1) := by omega
  obtain ⟨hobj, halloc, hlow, htotal, hfree, -, -, hparked⟩ :=
    KmemCache.taken_same kmem s (decide ((slabs s).free = 1))
  refine h.update hmem ((h.slab s hmem).take hi hbit) hobj halloc hlow (hparked h.parked)
    (KmemCache.taken_perm h.nodup hs _) ?_ ?_ (by rw [hfree]; exact hcount) htotal
  · intro x hx
    rcases KmemCache.mem_taken_full h.nodup hs hx with ⟨rfl, hlast⟩ | ⟨hne, hx⟩
    · rw [if_pos rfl]
      exact Nat.sub_eq_zero_of_le (of_decide_eq_true hlast).le
    · rwa [if_neg hne]
  · intro x hx
    obtain ⟨hx, hlast⟩ := KmemCache.mem_taken_partial h.nodup hx
    split
    · rename_i heq
      have hne := of_decide_eq_false (hlast heq)
      show (slabs s).free - 1 ≠ 0
      omega
    · exact hx

theorem mem_full_iff (h : CacheOk size c kmem slabs) (hs : s ∈ kmem.slabs) :
    s ∈ kmem.slabsFull ↔ (slabs s).free = 0 := by
  refine ⟨h.full s, fun hzero => ?_⟩
  exact (List.mem_append.mp hs).resolve_right fun hs => h.avail s hs hzero

theorem putBack_perm (h : CacheOk size c kmem slabs) (hs : s ∈ kmem.slabs) :
    (kmem.putBack s (decide ((slabs s).free = 0))).slabs.Perm kmem.slabs := by
  by_cases hfull : s ∈ kmem.slabsFull
  · exact KmemCache.putBack_perm h.nodup hfull _
  · rw [decide_eq_false fun hzero => hfull ((h.mem_full_iff hs).mpr hzero)]
    exact .refl _

/-- An object in use is put back. -/
theorem put (h : CacheOk size c kmem slabs) (hs : s ∈ kmem.slabs) (hi : i < slabCapacity size)
    (hbit : (slabs s).bm.bit i = true) :
    CacheOk size c (kmem.putBack s (decide ((slabs s).free = 0)))
      (Function.update slabs s ((slabs s).put i)) := by
  have hfirst : decide ((slabs s).free = 0) = true ↔ s ∈ kmem.slabsFull :=
    decide_eq_true_iff.trans (h.mem_full_iff hs).symm
  have hcount : kmem.free + 1 + (slabs s).free = kmem.free + ((slabs s).free + 1) := by omega
  obtain ⟨hobj, halloc, hlow, htotal, hfree, -, -, hparked⟩ :=
    KmemCache.putBack_same kmem s (decide ((slabs s).free = 0))
  refine h.update hs ((h.slab s hs).put hi hbit) hobj halloc hlow (hparked h.parked)
    (h.putBack_perm hs) ?_ ?_
    (by rw [hfree]; exact hcount) htotal
  · intro x hx
    obtain ⟨hne, hx⟩ := KmemCache.mem_putBack_full h.nodup hfirst hx
    rwa [if_neg hne]
  · intro x hx
    split
    · exact Nat.succ_ne_zero _
    · rename_i hne
      exact (KmemCache.mem_putBack_partial h.nodup hfirst hx).resolve_left hne

/-- A cache that has just been initialised has no slabs. -/
theorem init (size c : Nat) (slabs : Nat → Slab) :
    CacheOk size c (kmemCacheInit size) slabs := by
  have hnil : (kmemCacheInit size).slabs = [] := rfl
  refine ⟨rfl, rfl, rfl, rfl, ?_, ?_, ?_, ?_, ?_, ?_, ?_⟩
  · rw [hnil]
    exact List.nodup_nil
  · rw [hnil]
    exact fun s hs => absurd hs List.not_mem_nil
  · rw [hnil]
    exact fun s hs => absurd hs List.not_mem_nil
  · exact fun s hs => absurd hs List.not_mem_nil
  · exact fun s hs => absurd hs List.not_mem_nil
  · rw [hnil]
    rfl
  · rw [hnil]
    rfl

/-- A slab more, with no object in use. -/
theorem grow (h : CacheOk size c kmem slabs) (us : Usable size) (hs : s ∉ kmem.slabs)
    (hdvd : SLAB_BLOB_SIZE ∣ s) {v : Slab} (hv : SlabOk size c v)
    (hempty : v.free = slabCapacity size) :
    CacheOk size c { kmem with
        slabsPartial := kmem.slabsPartial ++ [s]
        total := kmem.total + v.total
        free := kmem.free + v.free } (Function.update slabs s v) := by
  have hslabs : ∀ x ∈ kmem.slabs, Function.update slabs s v x = slabs x := by
    intro x hx
    refine Function.update_of_ne ?_ _ _
    rintro rfl
    exact hs hx
  -- the cache as it was, with the state of the new slab written beside its own
  have hold := h.congr hslabs
  have happend : kmem.slabsFull ++ (kmem.slabsPartial ++ [s]) = kmem.slabs ++ [s] :=
    (List.append_assoc _ _ _).symm
  have hself : Function.update slabs s v s = v := Function.update_self _ _ _
  have hcases : ∀ x, x ∈ kmem.slabsFull ++ (kmem.slabsPartial ++ [s]) → x ∈ kmem.slabs ∨ x = s := by
    intro x hx
    rw [happend, List.mem_append, List.mem_singleton] at hx
    exact hx
  refine ⟨h.objSize, h.allocSize, h.low, h.parked, ?_, ?_, ?_, hold.full, ?_, ?_, ?_⟩
  · show (kmem.slabsFull ++ (kmem.slabsPartial ++ [s])).Nodup
    rw [happend]
    exact h.nodup.append (List.nodup_singleton s) (List.disjoint_singleton.mpr hs)
  · intro x hx
    rcases hcases x hx with hx | rfl
    · exact h.aligned x hx
    · exact hdvd
  · intro x hx
    rcases hcases x hx with hx | rfl
    · exact hold.slab x hx
    · rw [hself]
      exact hv
  · intro x hx
    rcases List.mem_append.mp hx with hx | hx
    · exact hold.avail x hx
    · rw [List.mem_singleton.mp hx, hself, hempty]
      exact us.capacity_pos.ne'
  · show kmem.free + v.free = ((kmem.slabsFull ++ (kmem.slabsPartial ++ [s])).map _).sum
    rw [happend, List.map_append, List.sum_append, hold.free]
    simp
  · show kmem.total + v.total = ((kmem.slabsFull ++ (kmem.slabsPartial ++ [s])).map _).sum
    rw [happend, List.map_append, List.sum_append, hold.total]
    simp

end CacheOk

/-! ## Objects in use -/

namespace InUse

variable {size c : Nat} {kmem kmem' : KmemCache} {slabs slabs' : Nat → Slab} {s i x : Nat}

theorem congr (h : InUse size kmem slabs x) (hmem : ∀ s ∈ kmem.slabs, s ∈ kmem'.slabs)
    (heq : ∀ s ∈ kmem.slabs, slabs' s = slabs s) : InUse size kmem' slabs' x := by
  obtain ⟨s, hs, i, hi, hx, hbit⟩ := h
  exact ⟨s, hmem s hs, i, hi, hx, by rw [heq s hs]; exact hbit⟩

/-- The address of an object of a slab is in use exactly when its bit is set. -/
theorem object_iff (us : Usable size) (ok : CacheOk size c kmem slabs) (hs : s ∈ kmem.slabs)
    (hi : i < slabCapacity size) :
    InUse size kmem slabs (objectAt size s i) ↔ (slabs s).bm.bit i = true := by
  constructor
  · rintro ⟨s', hs', i', hi', heq, hbit⟩
    obtain ⟨rfl, rfl⟩ := us.objectAt_inj_slab (ok.aligned s hs) (ok.aligned s' hs') hi hi' heq
    exact hbit
  · exact fun hbit => ⟨s, hs, i, hi, rfl, hbit⟩

/-- Only the object `i` of the slab `s` changes. -/
theorem update_iff (hperm : kmem'.slabs.Perm kmem.slabs) {v : Slab}
    (hv : ∀ j, j ≠ i → v.bm.bit j = (slabs s).bm.bit j) (hne : x ≠ objectAt size s i) :
    InUse size kmem' (Function.update slabs s v) x ↔ InUse size kmem slabs x := by
  have hbits : ∀ s' j, s' ∈ kmem.slabs → x = objectAt size s' j →
      (Function.update slabs s v s').bm.bit j = (slabs s').bm.bit j := by
    rintro s' j hs' hx
    by_cases heq : s' = s
    · subst heq
      rw [Function.update_self]
      refine hv j fun hj => hne ?_
      rw [hx, hj]
    · rw [Function.update_of_ne heq]
  constructor
  · rintro ⟨s', hs', j, hj, hx, hbit⟩
    rw [hbits s' j (hperm.mem_iff.mp hs') hx] at hbit
    exact ⟨s', hperm.mem_iff.mp hs', j, hj, hx, hbit⟩
  · rintro ⟨s', hs', j, hj, hx, hbit⟩
    rw [← hbits s' j hs' hx] at hbit
    exact ⟨s', hperm.mem_iff.mpr hs', j, hj, hx, hbit⟩

end InUse

/-! ## Runs -/

namespace Kernel

/-- `k` after the object `i` of the slab `s` has been allocated from the cache `c`. -/
def takeObject (k : Kernel E) (c s i : Nat) : Kernel E :=
  { k with
    caches := Function.update k.caches c
      ((k.caches c).taken s (decide ((k.slabs s).free = 1)))
    slabs := Function.update k.slabs s ((k.slabs s).take i) }

/-- `k` after the object `i` of the slab `s` has been freed. -/
def putObject (k : Kernel E) (c s i : Nat) : Kernel E :=
  { k with
    caches := Function.update k.caches c
      ((k.caches c).putBack s (decide ((k.slabs s).free = 0)))
    slabs := Function.update k.slabs s ((k.slabs s).put i) }

end Kernel

section Runs

variable {size c s i : Nat} {k : Kernel E} {warnf : Mem E R Unit}

theorem linked_of_mem {kmem : KmemCache} (hs : s ∈ kmem.slabs) : kmem.linked s = true := by
  rw [KmemCache.linked, Bool.or_eq_true, Bool.or_eq_true]
  refine Or.inl ?_
  rcases List.mem_append.mp hs with hs | hs
  · exact Or.inl (List.contains_iff_mem.mpr hs)
  · exact Or.inr (List.contains_iff_mem.mpr hs)

theorem listMoveIf_bind {α : Type} {b : Bool} {add : Nat → KmemCache → KmemCache}
    (hs : s ∈ (k.caches c).slabs) (f : Unit → Mem E R α) :
    (listMoveIf b c s add >>= f) k
      = f () (k.updateCache c fun kmem => if b then add s (kmem.unlink s) else kmem) := by
  cases b with
  | false =>
      have hsame : k.updateCache c (fun kmem => kmem) = k := by
        rw [Kernel.updateCache, Function.update_eq_self]
      show ((pure () : Mem E R Unit) >>= f) k = f () (k.updateCache c fun kmem => kmem)
      rw [hsame, pure_bind_apply]
  | true =>
      have hmove : (listMove c s add : Mem E R Unit) k
          = .ok () (k.updateCache c fun kmem => add s (kmem.unlink s)) [] := by
        rw [listMove, read_bind_apply, if_pos (linked_of_mem hs), modify_apply]
      show (listMove c s add >>= f) k = _
      rw [bind_ok hmove, Outcome.after_nil]
      rfl

/-- **`slab_alloc`** of a slab with a free object takes the first one. -/
theorem slabAlloc_apply (us : Usable size) (ok : CacheOk size c (k.caches c) k.slabs)
    (hs : s ∈ (k.caches c).slabs) (hfree : (k.slabs s).free ≠ 0) :
    (slabAlloc s : Mem E R Nat) k
      = .ok (objectAt size s ((k.slabs s).bm.findNextClear 0))
          { k with
            caches := Function.update k.caches c
              (if (k.slabs s).free = 1 then .addFull s ((k.caches c).unlink s) else k.caches c)
            slabs := Function.update k.slabs s
              ((k.slabs s).take ((k.slabs s).bm.findNextClear 0)) } [] := by
  have slab := ok.slab s hs
  have hlt := slab.free_lt
  have hfirst := (slab.first hfree).1
  have hidx : (k.slabs s).bm.findNextClear 0 % 2 ^ 32 = (k.slabs s).bm.findNextClear 0 :=
    Nat.mod_eq_of_lt (hfirst.trans (slabCapacity_lt size))
  have hdec : ((k.slabs s).free + (2 ^ 32 - 1)) % 2 ^ 32 = (k.slabs s).free - 1 := by omega
  have hlast : decide ((k.slabs s).free - 1 = 0) = decide ((k.slabs s).free = 1) :=
    decide_eq_decide.mpr (by omega)
  rw [slabAlloc, modify_bind_apply, read_bind_apply]
  -- `k₁` is the state in which `free` has been counted down
  generalize hk : k.updateSlab s (fun slab =>
    { slab with free := (slab.free + (2 ^ 32 - 1)) % 2 ^ 32 }) = k₁
  have hslab : k₁.slabs s = { k.slabs s with free := (k.slabs s).free - 1 } := by
    rw [← hk, ← hdec]
    exact Function.update_self _ _ _
  have hcaches : k₁.caches = k.caches := by rw [← hk]; rfl
  rw [hslab]
  dsimp only
  rw [hlast, slab.kmem, hidx, slab.len, slab.offset]
  rw [listMoveIf_bind (by rw [hcaches]; exact hs), if_neg hfirst.ne, modify_bind_apply, hcaches,
    ok.allocSize, us.slabObject_eq hfirst, pure_apply, ← hk]
  simp only [Kernel.updateCache, Kernel.updateSlab, Function.update_self, Function.update_idem,
    hdec, decide_eq_true_eq]
  rfl

variable (warnf) in
/-- **The rest of `kmem_cache_alloc_nolock`** takes the first free object of the first slab on
`slabs_partial`, if the cache has one. -/
theorem kmemCacheTake_apply (us : Usable size) (ok : CacheOk size c (k.caches c) k.slabs)
    (hfree : (k.caches c).free ≠ 0) : ∃ s rest, (k.caches c).slabsPartial = s :: rest
      ∧ kmemCacheTake warnf c k = .ok (objectAt size s ((k.slabs s).bm.findNextClear 0))
          (k.takeObject c s ((k.slabs s).bm.findNextClear 0)) [] := by
  have hpartial : (k.caches c).slabsPartial ≠ [] := by
    intro hnil
    refine hfree ?_
    rw [ok.free, KmemCache.slabs, hnil, List.append_nil]
    refine List.sum_eq_zero fun n hn => ?_
    obtain ⟨s, hs, rfl⟩ := List.mem_map.mp hn
    exact ok.full s hs
  obtain ⟨s, rest, hlist⟩ := List.exists_cons_of_ne_nil hpartial
  have hs : s ∈ (k.caches c).slabsPartial := by
    rw [hlist]
    exact List.mem_cons_self
  have halloc := slabAlloc_apply (R := R) us ok (List.mem_append_right _ hs) (ok.avail s hs)
  refine ⟨s, rest, hlist, ?_⟩
  rw [kmemCacheTake, read_bind_apply, if_neg hfree, hlist, firstEntry, pure_bind_apply,
    bind_ok halloc, Outcome.after_nil, modify_bind_apply, pure_apply]
  simp only [Kernel.updateCache, Kernel.takeObject, KmemCache.taken, Function.update_self,
    Function.update_idem, decide_eq_true_eq]
  split <;> rfl

theorem kmemCacheTake_empty (hfree : (k.caches c).free = 0) :
    kmemCacheTake warnf c k = (warnf >>= fun _ => pure 0) k := by
  rw [kmemCacheTake, read_bind_apply, if_pos hfree]

/-- The index that `slab_free` computes for an object. -/
theorem objectIndex_object (us : Usable size) (hi : i < slabCapacity size) :
    divu32 ((objectAt size s i - s) % 2 ^ 32 - slabStart size) (cacheAllocSize size) = i
      ∧ slabStart size ≤ (objectAt size s i - s) % 2 ^ 32 := by
  have hlt := us.object_lt hi
  have hblob : SLAB_BLOB_SIZE < 2 ^ 32 := by decide
  rw [objectAt, Nat.add_sub_cancel_left, Nat.mod_eq_of_lt (by omega), Nat.add_sub_cancel_left,
    divu32, if_neg us.alloc_pos.ne', Nat.mul_div_cancel _ us.alloc_pos]
  exact ⟨rfl, Nat.le_add_right _ _⟩

variable (warnf) in
/-- **`slab_free`** of an object in use clears its bit. -/
theorem kmemCacheFreeNolock_apply (us : Usable size) (ok : CacheOk size c (k.caches c) k.slabs)
    (hs : s ∈ (k.caches c).slabs) (hi : i < slabCapacity size)
    (hbit : (k.slabs s).bm.bit i = true) (hmem : objectAt size s i < 2 ^ 64) :
    kmemCacheFreeNolock warnf c (objectAt size s i) k = .ok () (k.putObject c s i) [] := by
  have slab := ok.slab s hs
  have hlt := slab.free_lt_of_bit hi hbit
  have hcap := slabCapacity_lt size
  obtain ⟨hindex, hoffset⟩ := objectIndex_object (s := s) us hi
  have hget : (k.slabs s).bm.get i = true := by
    rw [Bitmap.get, if_neg (by rw [slab.len]; exact Nat.not_le.mpr hi)]
    exact hbit
  have hcount : ((k.slabs s).free + 1) % 2 ^ 32 = (k.slabs s).free + 1 :=
    Nat.mod_eq_of_lt (by omega)
  have hput : (slabPut s i : Mem E R Unit) k
      = .ok () { k with
          caches := Function.update k.caches c
            (if (k.slabs s).free = 0 then .addPartial s ((k.caches c).unlink s) else k.caches c)
          slabs := Function.update k.slabs s ((k.slabs s).put i) } [] := by
    rw [slabPut, read_bind_apply, if_neg (by rw [slab.total]; exact hlt.ne), slab.kmem,
      listMoveIf_bind hs, modify_apply]
    simp only [Kernel.updateCache, Kernel.updateSlab, hcount, decide_eq_true_eq]
    rfl
  -- none of the checks of `slab_free` strikes: magic, offset, index and bit are right
  have hfree : slabFree warnf (objectAt size s i) k = (slabPut s i : Mem E R Unit) k := by
    rw [slabFree]
    simp only [read_bind_apply]
    rw [us.align_down (ok.aligned s hs) hi hmem, if_neg (not_not.mpr slab.magic), slab.offset,
      if_neg (Nat.not_lt.mpr hoffset), slab.kmem, ok.allocSize, hindex, slab.total,
      if_neg (Nat.not_le.mpr hi), hget, if_neg (by decide)]
  rw [kmemCacheFreeNolock, bind_ok (hfree.trans hput), Outcome.after_nil, modify_apply]
  simp only [Kernel.updateCache, Kernel.putObject, KmemCache.putBack, Function.update_self,
    Function.update_idem, decide_eq_true_eq]
  split <;> rfl

end Runs

end NoobKernel.Mm
