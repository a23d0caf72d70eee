import NoobKernel.Mm.HeapChoice
import NoobKernel.Mm.HeapRun

set_option autoImplicit false

/-! # When `krealloc` returns its argument

`krealloc` frees the old memory before it allocates, so it returns its argument where the allocator
hands out what it has just got back (`Reissued`): an object if it is the next free one of its class; a
block for a size of the same order, for a smaller one that no smaller free blocks serve, and for a
larger one if the block is the beginning of the only run that merging can make. Where the state says
what is handed out at all (`Settled`), these are the only cases (`HeapInv.krealloc_moves`).
-/

namespace NoobKernel.Mm

open Misc Exec
open Dyadic hiding Mem

variable {E : Type} {lay : Layout} {h : Heap E} {k : Kernel E} {A : List Block}
  {c s i r ptr size : Nat}

/-! ## The cases -/

/-- The object is the one that its cache hands out after it has been freed: the slab of the object
comes first, and the objects before it are in use. The cache of the `mem_block`s must not be short of
objects. -/
structure NextFree (k : Kernel E) (c ptr : Nat) : Prop where
  enough : c ≠ memBlockPool ∨ (k.caches c).low ≤ (k.caches c).free + 1
  first : (k.slabs (SLAB_ALIGN_DOWN ptr)).free = 0
    ∨ (k.caches c).slabsPartial.head? = some (SLAB_ALIGN_DOWN ptr)
  before : ∀ i, objectAt (classSize c) (SLAB_ALIGN_DOWN ptr) i < ptr →
    (k.slabs (SLAB_ALIGN_DOWN ptr)).bm.bit i = true

/-- The free blocks after the block has been freed. -/
def freedBlocks (k : Kernel E) (b : Block) : List Block := b :: freeBlocks k

/-- Nothing is asked for, or the allocator hands out the memory again that it has just got back. -/
inductive Reissued (h : Heap E) (ptr size : Nat) : Prop
  | nothing (zero : size = 0)
  | block {o : Nat} (mem : (ptr, o) ∈ h.blocks) (lo : KALLOC_MAX_MEM_OBJ_SIZE < size)
      (hi : size ≤ BUDDY_BLOB_SIZE) (same : size2order size = o)
  | part {o : Nat} (mem : (ptr, o) ∈ h.blocks) (lo : KALLOC_MAX_MEM_OBJ_SIZE < size)
      (hi : size ≤ BUDDY_BLOB_SIZE) (less : size2order size < o)
      (stock : AtHand (o - size2order size + 1) h.kernel)
      (none : ∀ a, ¬Covered PAGE_SHIFT (freeBlocks h.kernel) o (a, size2order size))
  | whole {o : Nat} (mem : (ptr, o) ∈ h.blocks) (lo : KALLOC_MAX_MEM_OBJ_SIZE < size)
      (hi : size ≤ BUDDY_BLOB_SIZE) (more : o < size2order size) (stock : AtHand 1 h.kernel)
      (run : Covered PAGE_SHIFT (freedBlocks h.kernel (ptr, o)) (size2order size)
        (ptr, size2order size))
      (only : ∀ a, Covered PAGE_SHIFT (freedBlocks h.kernel (ptr, o)) (size2order size + 1)
        (a, size2order size) → a = ptr)
  | object {c : Nat} (mem : (c, ptr) ∈ h.objects) (pos : size ≠ 0)
      (hi : size ≤ KALLOC_MAX_MEM_OBJ_SIZE) (same : size2index size = c)
      (next : NextFree h.kernel c ptr)

/-- The buddy system does not need itself for a `mem_block` on the way, and where a block is wanted
for a larger size than before, merging can make no more than one. -/
structure Settled (h : Heap E) (ptr size : Nat) : Prop where
  object : (memBlockPool, ptr) ∈ h.objects → size2index size = memBlockPool →
    (h.kernel.caches memBlockPool).low ≤ (h.kernel.caches memBlockPool).free + 1
  memBlock : ∀ o, (ptr, o) ∈ h.blocks → size2index size = memBlockPool → AtHand 2 h.kernel
  /-- the object of a new slab may lie where the block lay, if both are of one page -/
  page : ∀ o, (ptr, o) ∈ h.blocks → classSize (size2index size) = PAGE_SIZE → o = 0 →
    (h.kernel.caches (size2index size)).slabsPartial ≠ []
  part : ∀ o, (ptr, o) ∈ h.blocks → KALLOC_MAX_MEM_OBJ_SIZE < size → size2order size < o →
    AtHand (o - size2order size + 1) h.kernel
  whole : ∀ o, (ptr, o) ∈ h.blocks → size ≤ BUDDY_BLOB_SIZE → o < size2order size →
    AtHand 1 h.kernel
      ∧ (Covered PAGE_SHIFT (freedBlocks h.kernel (ptr, o)) (size2order size)
          (ptr, size2order size) →
        ∀ a, Covered PAGE_SHIFT (freedBlocks h.kernel (ptr, o)) (size2order size + 1)
          (a, size2order size) → a = ptr)

/-! ## Objects -/

theorem HeapInv.live_ne (inv : HeapInv lay h) (hlive : h.Live ptr) : ptr ≠ 0 := by
  obtain ⟨A, good⟩ := inv.good
  have hbase : 0 < lay.BUDDY_SYSTEM_BASE := by
    have hle := (Nat.le_add_right lay.EARLY_HEAP_BASE EARLY_HEAP_SIZE).trans
      lay.EARLY_HEAP_END_le_BASE
    exact (EARLY_HEAP_BASE_pos lay).trans_le hle
  rcases hlive with hmem | hmem
  · obtain ⟨o, ho, rfl⟩ := List.mem_map.mp hmem
    obtain ⟨hc, huse⟩ := good.owns.clients.object o ho
    exact (hbase.trans_le (good.owns.heap.object_region hc huse).1).ne'
  · obtain ⟨b, hb, rfl⟩ := List.mem_map.mp hmem
    exact (hbase.trans_le (inv.handedOut hb).region.1).ne'

/-- The first clear bit after an object has been freed is its own if and only if those before it are
in use. -/
theorem put_first_iff {slab : Slab} (h : SlabOk size c slab) (hi : i < slabCapacity size)
    (hbit : slab.bm.bit i = true) :
    (slab.put i).bm.findNextClear 0 = i ↔ ∀ j < i, slab.bm.bit j = true := by
  have hput := h.put hi hbit
  have hclear : (slab.put i).bm.bit i = false := by
    rw [h.put_bit hi, decide_eq_true rfl, Bool.not_true, Bool.and_false]
  obtain ⟨⟨hfound, hleast⟩, -⟩ :=
    Bitmap.findNextClear_zero ⟨i, by rw [hput.len]; exact hi, hclear⟩
  constructor
  · intro heq j hj
    have hset := hleast j (hj.trans_eq heq.symm)
    rw [h.put_bit hi, Bool.and_eq_true] at hset
    exact hset.1
  · intro hbefore
    rcases Nat.lt_trichotomy ((slab.put i).bm.findNextClear 0) i with hlt | heq | hgt
    · rw [h.put_bit hi, hbefore _ hlt, decide_eq_false hlt.ne] at hfound
      cases hfound
    · exact heq
    · rw [hleast i hgt] at hclear
      cases hclear

/-- **After an object has been freed**, its cache hands it out if and only if its slab comes first and
the objects before it are in use. -/
theorem putObject_first_iff (us : Usable (classSize c))
    (ok : CacheOk (classSize c) c (k.caches c) k.slabs) (hs : s ∈ (k.caches c).slabs)
    (hi : i < slabCapacity (classSize c)) (hbit : (k.slabs s).bm.bit i = true)
    (hfirst : FirstObject (k.putObject c s i) c r) : r = objectAt (classSize c) s i
      ↔ ((k.slabs s).free = 0 ∨ (k.caches c).slabsPartial.head? = some s)
        ∧ ∀ j < i, (k.slabs s).bm.bit j = true := by
  have ok₁ : CacheOk (classSize c) c ((k.putObject c s i).caches c) (k.putObject c s i).slabs := by
    rw [putObject_cache]
    exact ok.put hs hi hbit
  have hs₁ : s ∈ ((k.putObject c s i).caches c).slabs := by
    rw [putObject_cache]
    exact (ok.putBack_perm hs).mem_iff.mpr hs
  have hhas : s ∈ ((k.putObject c s i).caches c).slabsPartial := by
    refine (List.mem_append.mp hs₁).resolve_left fun hfull => ?_
    have hzero := ok₁.full s hfull
    rw [putObject_slab] at hzero
    exact Nat.succ_ne_zero _ hzero
  -- a full slab goes to the front of `slabs_partial`, any other stays where it is
  have hhead : ((k.putObject c s i).caches c).slabsPartial.head? = some s
      ↔ (k.slabs s).free = 0 ∨ (k.caches c).slabsPartial.head? = some s := by
    rw [putObject_cache]
    by_cases hfull : (k.slabs s).free = 0
    · rw [decide_eq_true hfull]
      exact iff_of_true rfl (Or.inl hfull)
    · rw [decide_eq_false hfull]
      exact ⟨Or.inr, fun h => h.resolve_left hfull⟩
  rw [← hhead]
  cases hfirst with
  | null none =>
      obtain ⟨-, -, -, -, hcount, -, -, -⟩ :=
        KmemCache.putBack_same (k.caches c) s (decide ((k.slabs s).free = 0))
      rw [putObject_cache, hcount] at none
      exact absurd none (Nat.succ_ne_zero _)
  | grown full =>
      rw [full] at hhas
      cases hhas
  | listed list object =>
      rename_i s' rest
      rw [list, List.head?_cons, Option.some_inj]
      have hmem : s' ∈ ((k.putObject c s i).caches c).slabsPartial := by
        rw [list]
        exact List.mem_cons_self
      have hs' : s' ∈ ((k.putObject c s i).caches c).slabs := List.mem_append_right _ hmem
      have hidx := ((ok₁.slab s' hs').first (ok₁.avail s' hmem)).1
      rw [object]
      constructor
      · intro heq
        obtain ⟨rfl, hindex⟩ := us.objectAt_inj_slab (ok₁.aligned s' hs') (ok.aligned s hs) hidx hi heq
        rw [putObject_slab] at hindex
        exact ⟨rfl, (put_first_iff (ok.slab s' hs) hi hbit).mp hindex⟩
      · rintro ⟨rfl, hbefore⟩
        rw [putObject_slab, (put_first_iff (ok.slab s' hs) hi hbit).mpr hbefore]

/-- **An object, for a size of its class.** -/
theorem HeapInv.krealloc_same_class (inv : HeapInv lay h) (ho : (c, ptr) ∈ h.objects)
    (hpos : size ≠ 0) (hmax : size ≤ KALLOC_MAX_MEM_OBJ_SIZE) (hclass : size2index size = c)
    (hready : c ≠ memBlockPool ∨ (h.kernel.caches c).low ≤ (h.kernel.caches c).free + 1) :
    Yields (heldPolicy lay) (Kalloc.krealloc quiet (kernelOps lay) ptr size h.kernel) fun r _ =>
      r = ptr ↔ NextFree h.kernel c ptr := by
  obtain ⟨A, good⟩ := inv.good
  have heap := good.owns.heap
  have hc : c < (holding h.objects h.blocks).classes := (good.owns.clients.object _ ho).1
  have huse : ObjectInUse h.kernel c ptr := (good.owns.clients.object _ ho).2
  have us := heap.usable hc
  have ok := heap.cache c hc
  have hroute := heap.kfree_object hc huse quiet (kernelOps lay)
  have hmem := region_lt (heap.object_region hc huse).2
  obtain ⟨s, hs, i, hi, rfl, hbit⟩ := huse
  have hrun := hroute.trans (kmemCacheFree_apply us ok hs hi hbit hmem (heap.locked c))
  have hfreed := inv.kfree (Or.inl (List.mem_map_of_mem ho))
  rw [hrun] at hfreed
  have hinv : HeapInv lay (({ h with kernel := h.kernel.putObject c s i } : Heap E).drop
      (objectAt (classSize c) s i)) := (hfreed fun ev hev => by cases hev).2
  rw [Heap.drop_kernel] at hinv
  obtain ⟨A₁, good₁⟩ := hinv.good
  have halign := us.align_down (ok.aligned s hs) hi hmem
  have hready₁ : size2index size ≠ memBlockPool
      ∨ ((h.kernel.putObject c s i).caches (size2index size)).low
        ≤ ((h.kernel.putObject c s i).caches (size2index size)).free := by
    obtain ⟨-, -, hlow, -, hcount, -, -, -⟩ :=
      KmemCache.putBack_same (h.kernel.caches c) s (decide ((h.kernel.slabs s).free = 0))
    rw [hclass, putObject_cache, hlow, hcount]
    exact hready
  rw [Kalloc.krealloc, bind_ok hrun, Outcome.after_nil]
  refine (kmalloc_first rfl rfl (fun _ _ => id) (fun _ => rfl) (thawed _ _ _) hpos hmax hready₁
    good₁).mono fun r _ hfirst => ?_
  rw [hclass] at hfirst
  rw [putObject_first_iff us ok hs hi hbit hfirst]
  constructor
  · rintro ⟨hfront, hbefore⟩
    refine ⟨hready, by rw [halign]; exact hfront, fun j hj => ?_⟩
    rw [halign] at hj ⊢
    have hlt := Nat.lt_of_add_lt_add_left (Nat.lt_of_add_lt_add_left hj)
    exact hbefore j (Nat.lt_of_mul_lt_mul_right hlt)
  · rintro ⟨-, hfront, hbefore⟩
    rw [halign] at hfront hbefore
    refine ⟨hfront, fun j hj => hbefore j ?_⟩
    exact Nat.add_lt_add_left
      (Nat.add_lt_add_left (Nat.mul_lt_mul_of_pos_right hj us.alloc_pos) _) _

/-- While an object is freed, its slab stays with its cache. -/
theorem HeapInv.kfree_home (inv : HeapInv lay h) (ho : (c, ptr) ∈ h.objects) :
    c < KALLOC_MEM_POOL_NUM ∧ ∃ s, SLAB_BLOB_SIZE ∣ s ∧ (s ≤ ptr ∧ ptr < s + SLAB_BLOB_SIZE)
      ∧ Yields (heldPolicy lay) (Mm.kfree quiet (kernelOps lay) ptr h.kernel) fun _ k =>
        ∃ A objects, HeapGood lay { holding objects h.blocks with
          homes := [(c, s)]
          fits := fun _ _ => True } k A [] := by
  obtain ⟨A, good⟩ := inv.good
  obtain ⟨hc, huse⟩ := good.owns.clients.object _ ho
  obtain ⟨s, hs, hdvd, hmem⟩ := good.owns.heap.object_slab hc huse
  refine ⟨hc, s, hdvd, hmem, ?_⟩
  have hgood := good.of_owns ⟨rfl, rfl, rfl, rfl, rfl⟩ (good.owns.forget.home hs)
  refine (kfree_object_spec (List.perm_cons_erase ho) (thawed h.objects h.blocks c) hgood).mono ?_
  rintro - k ⟨-, hgood'⟩
  exact ⟨A, _, hgood'⟩

/-- **An object, for a size of another class**: the slab of the object is none of that class. -/
theorem HeapInv.krealloc_other_class (inv : HeapInv lay h) (ho : (c, ptr) ∈ h.objects)
    (hpos : size ≠ 0) (hmax : size ≤ KALLOC_MAX_MEM_OBJ_SIZE) (hclass : size2index size ≠ c) :
    Yields (heldPolicy lay) (Kalloc.krealloc quiet (kernelOps lay) ptr size h.kernel) fun r _ =>
      r ≠ ptr := by
  have hptr := inv.live_ne (Or.inl (List.mem_map_of_mem ho))
  obtain ⟨hc, s, hdvd, hmem, hfree⟩ := inv.kfree_home ho
  refine Yields.bind hfree ?_
  rintro - k ⟨A, objects, good⟩
  refine (kmalloc_object (P := { holding objects h.blocks with
    homes := [(c, s)]
    fits := fun _ _ => True }) rfl rfl (fun _ _ _ => trivial) (fun _ hq => absurd hq List.not_mem_nil)
    hpos hmax good).mono ?_
  rintro r k' ⟨-, A', -, hsome⟩ rfl
  have ok := (hsome hptr trivial).owns.heap
  obtain ⟨hc', huse⟩ := (hsome hptr trivial).owns.clients.object _ List.mem_cons_self
  obtain ⟨s', hs', hdvd', hmem'⟩ := ok.object_slab hc' huse
  obtain rfl := HeapOk.blob_eq_of_mem hdvd hdvd' hmem hmem'
  exact hclass (owned_unique ok.distinct hc' hc hs' (ok.homes (c, s) List.mem_cons_self))

/-- **An object, for a size of no class.** -/
theorem HeapInv.krealloc_no_class (inv : HeapInv lay h) (ho : (c, ptr) ∈ h.objects)
    (hlo : KALLOC_MAX_MEM_OBJ_SIZE < size) :
    Yields (heldPolicy lay) (Kalloc.krealloc quiet (kernelOps lay) ptr size h.kernel) fun r _ =>
      r ≠ ptr := by
  have hptr := inv.live_ne (Or.inl (List.mem_map_of_mem ho))
  obtain ⟨hc, s, -, hmem, hfree⟩ := inv.kfree_home ho
  refine Yields.bind hfree ?_
  rintro - k ⟨A, objects, good⟩
  rw [Mm.kmalloc, if_neg (Nat.ne_zero_of_lt hlo), if_neg (Nat.not_le.mpr hlo)]
  split
  · rename_i hhi
    refine (buddyAlloc_heap rfl rfl (fun _ _ _ => trivial) hlo.le hhi good).mono ?_
    rintro r k' ⟨-, A', -, hsome⟩ rfl
    have hgood := hsome hptr
    have ok := hgood.owns.heap
    refine ok.block_apart hgood.inv List.mem_cons_self
      (HeapOk.mem_owned hc (ok.homes (c, s) List.mem_cons_self)) r hmem (mem_start _)
  · exact Yields.pure hptr.symm

/-! ## Blocks -/

theorem kmalloc_large (hlo : KALLOC_MAX_MEM_OBJ_SIZE < size) (hhi : size ≤ BUDDY_BLOB_SIZE) :
    Mm.kmalloc quiet (kernelOps lay) size k = buddyAlloc (kernelOps lay) size k := by
  have hmax : size ≤ PAGE_SIZE <<< BUDDY_MAX_ORDER := hhi
  rw [Mm.kmalloc, if_neg (Nat.ne_zero_of_lt hlo), if_neg (Nat.not_le.mpr hlo), if_pos hmax]

theorem slabStart_page : ∀ c < KALLOC_MEM_POOL_NUM, PAGE_SIZE ∣ slabStart (classSize c) →
    classSize c = PAGE_SIZE ∧ ¬PAGE_SIZE <<< 1 ∣ slabStart (classSize c) := by decide

/-- A new slab begins with an object at a block if the objects and the block are of one page. -/
theorem slabStart_aligned {o : Nat} (hc : c < KALLOC_MEM_POOL_NUM) (hblob : SLAB_BLOB_SIZE ∣ s)
    (haligned : PAGE_SIZE <<< o ∣ s + slabStart (classSize c)) : classSize c = PAGE_SIZE ∧ o = 0 := by
  have hstart : ∀ n ≤ o, PAGE_SIZE <<< n ∣ SLAB_BLOB_SIZE →
      PAGE_SIZE <<< n ∣ slabStart (classSize c) := fun n hle hslab => by
    have hbelow : PAGE_SIZE <<< n ∣ s + slabStart (classSize c) := by
      rw [← size_eq] at haligned ⊢
      exact (size_dvd hle).trans haligned
    exact (Nat.dvd_add_right (hslab.trans hblob)).mp hbelow
  obtain ⟨hsize, htwo⟩ := slabStart_page c hc (hstart 0 (Nat.zero_le _) (by decide))
  refine ⟨hsize, Nat.eq_zero_of_not_pos fun hpos => htwo (hstart 1 hpos (by decide))⟩

theorem memBlockPool_lt : memBlockPool < KALLOC_MEM_POOL_NUM := by decide

theorem held_handed (good : HeapGood lay (holding h.objects h.blocks) h.kernel A []) {b : Block}
    (hb : b ∈ h.blocks) : b ∈ A :=
  good.owns.heap.handed.mem_iff.mpr (List.mem_append_right _ hb)

section

variable (inv : HeapInv lay h) {b : Block} (hb : b ∈ h.blocks)
include inv hb

/-- **`kfree`** makes the block the first of its list. -/
theorem HeapInv.kfree_first : Yields (heldPolicy lay) (Mm.kfree quiet (kernelOps lay) b.1 h.kernel)
    fun _ k => HeapInv lay { h.drop b.1 with kernel := k }
      ∧ ∃ q rest, k.buddyFreeList b.2 = q :: rest ∧ k.memBlock q = b.1 := by
  obtain ⟨A, good⟩ := inv.good
  have hrelists := buddyFree_relists lay.region (kernelOps_spec rfl rfl fun _ _ => id)
    (held_handed good hb) good inv.unlocked
  rw [← good.owns.heap.kfree_block good.inv hb quiet (kernelOps lay)] at hrelists
  refine ((inv.kfree (Or.inr (List.mem_map_of_mem hb))).and hrelists).mono ?_
  rintro - k ⟨hinv, -, ⟨q, k₁, log, -, -, hlisted⟩, -⟩
  rw [Heap.drop_kernel] at hinv
  exact ⟨hinv, q, hlisted.first⟩

/-- With `mem_block`s at hand it changes no other free block. -/
theorem HeapInv.kfree_blocks {n : Nat} (hstock : AtHand (n + 1) h.kernel) :
    Yields (heldPolicy lay) (Mm.kfree quiet (kernelOps lay) b.1 h.kernel)
      fun _ k => AtHand n k ∧ (freeBlocks k).Perm (freedBlocks h.kernel b) := by
  obtain ⟨A, good⟩ := inv.good
  have hblocks := buddyFree_blocks (kernelOps_spec rfl rfl fun _ _ => id)
    (kernelOps_supply memBlockPool_lt rfl) (held_handed good hb) good inv.unlocked hstock
  rw [← good.owns.heap.kfree_block good.inv hb quiet (kernelOps lay)] at hblocks
  exact hblocks.mono fun _ k h => ⟨h.1, h.2.2⟩

section

variable (hlo : KALLOC_MAX_MEM_OBJ_SIZE < size) (hhi : size ≤ BUDDY_BLOB_SIZE)
include hlo hhi

/-- **A block, for a size of its order.** -/
theorem HeapInv.krealloc_same_order (horder : size2order size = b.2) :
    Yields (heldPolicy lay) (Kalloc.krealloc quiet (kernelOps lay) b.1 size h.kernel) fun r _ =>
      r = b.1 := by
  refine Yields.bind (inv.kfree_first hb) ?_
  rintro - k ⟨hinv, q, rest, hlist, hstart⟩
  refine (hinv.kmalloc size).mono_ok fun r k' log hrun _ => ?_
  have halloc := (kmalloc_large hlo hhi).symm.trans hrun
  rw [← hstart]
  exact buddyAlloc_first hlo.le hhi (by rw [horder]; exact hlist) halloc

/-- **A block, for a size of a smaller order.** -/
theorem HeapInv.krealloc_part_iff (hless : size2order size < b.2)
    (hstock : AtHand (b.2 - size2order size + 1) h.kernel) :
    Yields (heldPolicy lay) (Kalloc.krealloc quiet (kernelOps lay) b.1 size h.kernel) fun r _ =>
      r = b.1 ↔ ∀ a, ¬Covered PAGE_SHIFT (freeBlocks h.kernel) b.2 (a, size2order size) := by
  refine Yields.bind ((inv.kfree_first hb).and (inv.kfree_blocks hb hstock)) ?_
  rintro - k ⟨⟨hinv, q, rest, hlist, hstart⟩, hstock', hblocks⟩
  obtain ⟨A, good⟩ := hinv.good
  have hpart := buddyAlloc_part_iff (kernelOps_spec rfl rfl fun _ _ => id) hlo.le hhi good
    (kernelOps_supply memBlockPool_lt rfl) hlist hless hstock'
  refine ((kmalloc_large hlo hhi).symm ▸ hpart).mono fun r _ hiff => ?_
  rw [← hstart, hiff]
  refine forall_congr' fun a => not_congr ⟨fun hcover => hcover.of_subset fun f hf hlt => ?_,
    fun hcover => hcover.of_subset fun f hf _ => ?_⟩
  · -- the block itself is too large to belong to a cover
    refine (List.mem_cons.mp (hblocks.mem_iff.mp hf)).resolve_left ?_
    rintro rfl
    exact lt_irrefl _ hlt
  · exact hblocks.mem_iff.mpr (List.mem_cons_of_mem _ hf)

/-- **A block, for a size of a larger order.** -/
theorem HeapInv.krealloc_whole (hstock : AtHand 1 h.kernel)
    (hrun : Covered PAGE_SHIFT (freedBlocks h.kernel b) (size2order size) (b.1, size2order size))
    (honly : ∀ a, Covered PAGE_SHIFT (freedBlocks h.kernel b) (size2order size + 1)
      (a, size2order size) → a = b.1) :
    Yields (heldPolicy lay) (Kalloc.krealloc quiet (kernelOps lay) b.1 size h.kernel) fun r _ =>
      r = b.1 := by
  refine Yields.bind ((inv.kfree_first hb).and (inv.kfree_blocks hb hstock)) ?_
  rintro - k ⟨⟨hinv, -⟩, -, hblocks⟩
  obtain ⟨A, good⟩ := hinv.good
  have hwhole := buddyAlloc_whole (kernelOps_spec rfl rfl fun _ _ => id) hlo.le hhi good
    (hrun.of_subset fun f hf _ => hblocks.mem_iff.mpr hf)
    fun a hcover => honly a (hcover.of_subset fun f hf _ => hblocks.mem_iff.mp hf)
  exact (kmalloc_large hlo hhi).symm ▸ hwhole

/-- Only a block that is the beginning of a run is handed out for a size of a larger order. -/
theorem HeapInv.krealloc_covered (hmore : b.2 < size2order size) (hstock : AtHand 1 h.kernel) :
    Yields (heldPolicy lay) (Kalloc.krealloc quiet (kernelOps lay) b.1 size h.kernel) fun r _ =>
      r = b.1 → Covered PAGE_SHIFT (freedBlocks h.kernel b) (size2order size)
        (b.1, size2order size) := by
  refine Yields.bind ((inv.kfree_first hb).and (inv.kfree_blocks hb hstock)) ?_
  rintro - k ⟨⟨hinv, -⟩, -, hblocks⟩
  obtain ⟨A, good⟩ := hinv.good
  have hcovered := buddyAlloc_covered (kernelOps_spec rfl rfl fun _ _ => id) hlo.le hhi good
    (hblocks.mem_iff.mpr List.mem_cons_self) hmore
  refine ((kmalloc_large hlo hhi).symm ▸ hcovered).mono fun r _ h hr => ?_
  exact (h hr).of_subset fun f hf _ => hblocks.mem_iff.mp hf

end

/-- **`kfree`** of a block leaves the other caches alone. -/
theorem HeapInv.kfree_frozen (hc : c < KALLOC_MEM_POOL_NUM) (hpool : c ≠ memBlockPool) :
    Yields (heldPolicy lay) (Mm.kfree quiet (kernelOps lay) b.1 h.kernel)
      fun _ k => Frozen.Kept ⟨c, h.kernel.caches c, h.kernel.slabs⟩ KALLOC_MEM_POOL_NUM k := by
  obtain ⟨A, good⟩ := inv.good
  have hself : Frozen.Kept ⟨c, h.kernel.caches c, h.kernel.slabs⟩ KALLOC_MEM_POOL_NUM h.kernel :=
    ⟨hc, hpool, rfl, fun _ _ => rfl⟩
  have hgood := good.of_owns ⟨rfl, rfl, rfl, rfl, rfl⟩
    (good.owns.freeze (F := [⟨c, h.kernel.caches c, h.kernel.slabs⟩]) fun q hq => by
      rw [List.mem_singleton.mp hq]
      exact hself)
  have hfree := buddyFree_heap (P := { holding h.objects h.blocks with
    frozen := [⟨c, h.kernel.caches c, h.kernel.slabs⟩] }) rfl rfl (fun _ _ => id)
    (List.perm_cons_erase hb) hgood inv.unlocked
  rw [← good.owns.heap.kfree_block good.inv hb quiet (kernelOps lay)] at hfree
  refine hfree.mono ?_
  rintro - k ⟨-, A', hgood'⟩
  exact hgood'.owns.heap.frozen _ List.mem_cons_self

/-- **A block, for a size of a class**: the objects lie in other slabs, or at the beginning of a new
one, where the objects of one page alone begin with a page. -/
theorem HeapInv.krealloc_class (hpos : size ≠ 0) (hmax : size ≤ KALLOC_MAX_MEM_OBJ_SIZE)
    (hstock : size2index size = memBlockPool → AtHand 2 h.kernel)
    (hpage : classSize (size2index size) = PAGE_SIZE → b.2 = 0 →
      (h.kernel.caches (size2index size)).slabsPartial ≠ []) :
    Yields (heldPolicy lay) (Kalloc.krealloc quiet (kernelOps lay) b.1 size h.kernel) fun r _ =>
      r ≠ b.1 := by
  have hptr := inv.live_ne (Or.inr (List.mem_map_of_mem hb))
  have haligned := (inv.handedOut hb).aligned
  have hclass := size2index_lt size
  generalize hc : size2index size = c at hstock hpage hclass
  -- the cache is as before, or has objects enough
  have hready : Yields (heldPolicy lay) (Mm.kfree quiet (kernelOps lay) b.1 h.kernel) fun _ k =>
      (c = memBlockPool → (k.caches c).low ≤ (k.caches c).free)
        ∧ (c ≠ memBlockPool → (k.caches c).slabsPartial = (h.kernel.caches c).slabsPartial) := by
    by_cases hpool : c = memBlockPool
    · refine (inv.kfree_blocks hb (hstock hpool)).mono fun _ k hk => ⟨fun _ => ?_, absurd hpool⟩
      rw [hpool]
      exact Nat.le_of_succ_le_succ hk.1.enough
    · refine (inv.kfree_frozen hb hclass hpool).mono fun _ k hkept => ⟨fun h => absurd h hpool, ?_⟩
      have hkmem : k.caches c = _ := hkept.kmem
      rw [hkmem]
      exact fun _ => rfl
  refine Yields.bind ((inv.kfree_first hb).and hready) ?_
  rintro - k ⟨⟨hinv, q, rest, hlist, hstart⟩, henough, hsame⟩
  obtain ⟨A, good⟩ := hinv.good
  have hfree : (b.1, b.2) ∈ freeBlocks k := by
    rw [← hstart]
    exact good.inv.free_of_list (by rw [hlist]; exact List.mem_cons_self)
  refine (kmalloc_first rfl rfl (fun _ _ => id) (fun _ => rfl) (thawed _ _ _) hpos hmax ?_
    good).mono ?_
  · rw [hc]
    exact (em (c = memBlockPool)).symm.imp_right henough
  rintro r - hfirst rfl
  rw [hc] at hfirst
  have ok := good.owns.heap
  cases hfirst with
  | null none object => exact hptr object
  | listed list object =>
      rename_i s rest'
      have hmem : s ∈ (k.caches c).slabsPartial := by
        rw [list]
        exact List.mem_cons_self
      have hs : s ∈ (k.caches c).slabs := List.mem_append_right _ hmem
      have hidx := (((ok.cache c hclass).slab s hs).first ((ok.cache c hclass).avail s hmem)).1
      have hblob := (ok.usable hclass).object_mem (s := s) hidx
      rw [← object] at hblob
      have hA : (s, SLAB_ORDER) ∈ A := ok.handed.mem_iff.mpr
        (List.mem_append_left _ (List.mem_map_of_mem (HeapOk.mem_owned hclass hs)))
      exact (List.pairwise_append.mp good.inv.tiles.apart).2.2 _ hfree _ hA b.1 (mem_start _) hblob
  | grown full blob object =>
      rename_i s
      rw [objectAt, Nat.zero_mul, Nat.add_zero] at object
      rw [object] at haligned
      obtain ⟨hsize, hzero⟩ := slabStart_aligned hclass blob haligned
      refine hpage hsize hzero (hsame ?_ ▸ full)
      rintro rfl
      exact absurd hsize (by decide)

end

/-! ## `krealloc` -/

/-- **Where the memory is handed out again**, `krealloc` returns the pointer it was given. -/
theorem HeapInv.krealloc_reissued (inv : HeapInv lay h) (hlive : h.Live ptr)
    (reissued : Reissued h ptr size) :
    Yields (heldPolicy lay) (Kalloc.krealloc quiet (kernelOps lay) ptr size h.kernel) fun r _ =>
      (size = 0 ∧ r = 0) ∨ r = ptr := by
  cases reissued with
  | nothing zero =>
      refine Yields.bind (inv.kfree hlive) fun _ k _ => ?_
      rw [kmalloc_null (Or.inl zero)]
      exact Yields.ok (Or.inl ⟨zero, rfl⟩)
  | block mem lo hi same =>
      exact (inv.krealloc_same_order mem lo hi same).mono fun _ _ hr => Or.inr hr
  | part mem lo hi less stock none =>
      exact (inv.krealloc_part_iff mem lo hi less stock).mono fun _ _ hr => Or.inr (hr.mpr none)
  | whole mem lo hi more stock run only =>
      exact (inv.krealloc_whole mem lo hi stock run only).mono fun _ _ hr => Or.inr hr
  | object mem pos hi same next =>
      exact (inv.krealloc_same_class mem pos hi same next.enough).mono fun _ _ hr =>
        Or.inr (hr.mpr next)

/-- **Elsewhere in settled states** it returns other memory, or none. -/
theorem HeapInv.krealloc_moves (inv : HeapInv lay h) (hlive : h.Live ptr)
    (settled : Settled h ptr size) (moved : ¬Reissued h ptr size) :
    Yields (heldPolicy lay) (Kalloc.krealloc quiet (kernelOps lay) ptr size h.kernel) fun r _ =>
      r ≠ ptr := by
  have hptr := inv.live_ne hlive
  have hpos : size ≠ 0 := fun hzero => moved (.nothing hzero)
  rcases hlive with hmem | hmem
  · obtain ⟨⟨c, ptr⟩, mem, rfl⟩ := List.mem_map.mp hmem
    rcases Nat.lt_or_ge KALLOC_MAX_MEM_OBJ_SIZE size with hlo | hmax
    · exact inv.krealloc_no_class mem hlo
    · by_cases same : size2index size = c
      · have hready : c ≠ memBlockPool
            ∨ (h.kernel.caches c).low ≤ (h.kernel.caches c).free + 1 := by
          refine (em (c = memBlockPool)).symm.imp_right fun hpool => ?_
          rw [hpool] at mem same ⊢
          exact settled.object mem same
        exact (inv.krealloc_same_class mem hpos hmax same hready).mono fun _ _ hiff hr =>
          moved (.object mem hpos hmax same (hiff.mp hr))
      · exact inv.krealloc_other_class mem hpos hmax same
  · obtain ⟨⟨ptr, o⟩, mem, rfl⟩ := List.mem_map.mp hmem
    rcases Nat.lt_or_ge KALLOC_MAX_MEM_OBJ_SIZE size with hlo | hmax
    · rcases Nat.lt_or_ge BUDDY_BLOB_SIZE size with hnone | hhi
      · refine Yields.bind (inv.kfree (Or.inr hmem)) fun _ k _ => ?_
        rw [kmalloc_null (Or.inr hnone)]
        exact Yields.ok hptr.symm
      · rcases Nat.lt_trichotomy (size2order size) o with less | same | more
        · have stock := settled.part o mem hlo less
          exact (inv.krealloc_part_iff mem hlo hhi less stock).mono fun _ _ hiff hr =>
            moved (.part mem hlo hhi less stock (hiff.mp hr))
        · exact absurd (.block mem hlo hhi same) moved
        · obtain ⟨stock, only⟩ := settled.whole o mem hhi more
          exact (inv.krealloc_covered mem hlo hhi more stock).mono fun _ _ hrun hr =>
            moved (.whole mem hlo hhi more stock (hrun hr) (only (hrun hr)))
    · exact inv.krealloc_class mem hpos hmax (settled.memBlock o mem) (settled.page o mem)

end NoobKernel.Mm
