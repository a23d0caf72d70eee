import NoobKernel.Mm.SlabCaches

set_option autoImplicit false

/-! # What a call does to the slab caches

An object that is taken or freed, a new slab and a new cache keep the invariant of the caches
(`Served`), and what is done under the lock of a cache does so too (`underLock_spec`). The locks
that waiting calls have taken stay held (`Waiting`).
-/

namespace NoobKernel.Mm

open Misc Exec

variable {E R : Type}

/-! ## Changes of the kernel -/

/-- The caches differ in their flags at most. -/
def Kernel.Reflagged (k k' : Kernel E) : Prop :=
  k'.slabs = k.slabs ∧ ∀ c, ∃ locked expanding,
    k'.caches c = { k.caches c with locked := locked, expanding := expanding }

/-- The same locks are held. -/
def Kernel.SameLocks (k k' : Kernel E) : Prop :=
  ∀ c, (k'.caches c).locked = (k.caches c).locked

theorem CacheOk.reflag {size c : Nat} {kmem : KmemCache} {slabs : Nat → Slab}
    (h : CacheOk size c kmem slabs) (locked expanding : Bool) :
    CacheOk size c { kmem with locked := locked, expanding := expanding } slabs :=
  ⟨h.objSize, h.allocSize, h.low, h.parked, h.nodup, h.aligned, h.slab, h.full, h.avail, h.free,
    h.total⟩

theorem Kernel.Reflagged.updateCache {k : Kernel E} {c : Nat} {f : KmemCache → KmemCache}
    (h : ∃ locked expanding, f (k.caches c)
      = { k.caches c with locked := locked, expanding := expanding }) :
    k.Reflagged (k.updateCache c f) := by
  refine ⟨rfl, fun c' => ?_⟩
  by_cases heq : c' = c
  · subst heq
    rw [updateCache_self]
    exact h
  · exact ⟨_, _, Function.update_of_ne heq _ _⟩

namespace Caches

variable {h : Caches E} {c s i size : Nat} {k : Kernel E}

namespace Stocked

theorem reflag (st : Stocked h) (hsame : h.kernel.Reflagged k) :
    Stocked { h with kernel := k } := by
  refine ⟨st.usable, fun c size hsize => ?_, fun c size hsize => ?_, st.owner, st.region⟩
  · show CacheOk size c (k.caches c) k.slabs
    obtain ⟨l, e, heq⟩ := hsame.2 c
    rw [heq, hsame.1]
    exact (st.cache c size hsize).reflag l e
  · show (k.caches c).slabs.Perm _
    obtain ⟨l, e, heq⟩ := hsame.2 c
    rw [heq]
    exact st.made c size hsize

/-- Another record for a cache and another header for one of its slabs. -/
theorem assign (st : Stocked h) (hsize : h.size c = some size)
    (hs : s ∈ (h.kernel.caches c).slabs) {kmem : KmemCache} {v : Slab}
    (hcache : CacheOk size c kmem (Function.update h.kernel.slabs s v))
    (hperm : kmem.slabs.Perm (h.kernel.caches c).slabs) :
    Stocked { h with kernel := h.kernel.assignSlab c s kmem v } := by
  refine ⟨st.usable, fun c' size' hsize' => ?_, fun c' size' hsize' => ?_, st.owner, st.region⟩
  · show CacheOk size' c' ((h.kernel.assignSlab c s kmem v).caches c')
      (h.kernel.assignSlab c s kmem v).slabs
    by_cases heq : c' = c
    · subst heq
      obtain rfl := Option.some.inj (hsize.symm.trans hsize')
      rw [assign_cache_self]
      exact hcache
    · rw [assign_cache_of_ne heq]
      refine (st.cache c' size' hsize').congr fun s' hs' => ?_
      exact assign_slab_of_ne (st.slab_ne hsize hs hsize' heq hs')
  · show ((h.kernel.assignSlab c s kmem v).caches c').slabs.Perm (h.slabsOf c')
    by_cases heq : c' = c
    · subst heq
      rw [assign_cache_self]
      exact hperm.trans (st.made c' size' hsize')
    · rw [assign_cache_of_ne heq]
      exact st.made c' size' hsize'

end Stocked

namespace Served

theorem reflag (sv : Served h) (hsame : h.kernel.Reflagged k) :
    Served { h with kernel := k } := by
  refine ⟨sv.toStocked.reflag hsame, fun x => (sv.live x).trans ?_, sv.nodup⟩
  refine exists_congr fun c => exists_congr fun size => and_congr_right fun _ => ?_
  have hslabs : (k.caches c).slabs = (h.kernel.caches c).slabs := by
    obtain ⟨l, e, heq⟩ := hsame.2 c
    rw [heq]
    rfl
  show _ ↔ InUse size (k.caches c) k.slabs x
  rw [hsame.1]
  constructor
  · exact fun huse => huse.congr (fun s hs => hslabs ▸ hs) fun _ _ => rfl
  · exact fun huse => huse.congr (fun s hs => hslabs ▸ hs) fun _ _ => rfl

/-- Only the object `i` of the slab `s` comes into use or goes out of use. -/
theorem assign (sv : Served h) (hsize : h.size c = some size)
    (hs : s ∈ (h.kernel.caches c).slabs) (hi : i < slabCapacity size) {kmem : KmemCache} {v : Slab}
    (hcache : CacheOk size c kmem (Function.update h.kernel.slabs s v))
    (hperm : kmem.slabs.Perm (h.kernel.caches c).slabs)
    (hbits : ∀ j, j ≠ i → v.bm.bit j = (h.kernel.slabs s).bm.bit j) {live : List Nat}
    (hnodup : live.Nodup) (hobject : objectAt size s i ∈ live ↔ v.bm.bit i = true)
    (hlive : ∀ x, x ≠ objectAt size s i → (x ∈ live ↔ x ∈ h.live)) :
    Served { h with kernel := h.kernel.assignSlab c s kmem v, live := live } := by
  have st := sv.toStocked.assign hsize hs hcache hperm
  have hself : ((h.kernel.assignSlab c s kmem v).caches c).slabs = kmem.slabs := by
    rw [assign_cache_self]
  refine ⟨⟨st.usable, st.cache, st.made, st.owner, st.region⟩, fun x => ?_, hnodup⟩
  -- of the object itself the bit decides; all others are in use as before
  by_cases hx : x = objectAt size s i
  · rw [hx, hobject]
    have hiff := st.object_iff hsize (hself ▸ hperm.mem_iff.mpr hs) hi
    have hslab : (h.kernel.assignSlab c s kmem v).slabs s = v := Function.update_self _ _ _
    rw [hslab] at hiff
    exact hiff.symm
  · rw [hlive x hx, sv.live]
    refine exists_congr fun c' => exists_congr fun size' => and_congr_right fun hsize' => ?_
    show _ ↔ InUse size' ((h.kernel.assignSlab c s kmem v).caches c') _ x
    by_cases heq : c' = c
    · subst heq
      obtain rfl := Option.some.inj (hsize.symm.trans hsize')
      rw [assign_cache_self]
      exact (InUse.update_iff hperm hbits hx).symm
    · have hsame : ∀ s' ∈ (h.kernel.caches c').slabs,
          (h.kernel.assignSlab c s kmem v).slabs s' = h.kernel.slabs s' :=
        fun s' hs' => assign_slab_of_ne (sv.slab_ne hsize hs hsize' heq hs')
      rw [assign_cache_of_ne heq]
      constructor
      · exact fun huse => huse.congr (fun _ hs' => hs') hsame
      · exact fun huse => huse.congr (fun _ hs' => hs') fun s' hs' => (hsame s' hs').symm

end Served

end Caches

/-! ## What the calls do to the caches -/

theorem Kernel.SameLocks.assign {k : Kernel E} {c s : Nat} {kmem : KmemCache} {v : Slab}
    (h : kmem.locked = (k.caches c).locked) : k.SameLocks (k.assignSlab c s kmem v) :=
  assign_field (g := KmemCache.locked) h

namespace Caches

namespace Served

variable {h : Caches E} {c s i size x : Nat}

/-- **An object is taken** from a cache with free objects. -/
theorem take (sv : Served h) (warnf : Mem E R Unit) (hsize : h.size c = some size)
    (hfree : (h.kernel.caches c).free ≠ 0) :
    ∃ mem k, kmemCacheTake warnf c h.kernel = .ok mem k [] ∧ h.kernel.SameLocks k
      ∧ Served (give mem { h with kernel := k }) := by
  have us := sv.usable c size hsize
  have ok := sv.cache c size hsize
  obtain ⟨s, rest, hlist, hrun⟩ := kmemCacheTake_apply warnf us ok hfree
  have hpartial : s ∈ (h.kernel.caches c).slabsPartial := by
    rw [hlist]
    exact List.mem_cons_self
  have hs : s ∈ (h.kernel.caches c).slabs := List.mem_append_right _ hpartial
  have slab := ok.slab s hs
  obtain ⟨hi, hclear⟩ := slab.first (ok.avail s hpartial)
  generalize (h.kernel.slabs s).bm.findNextClear 0 = i at hrun hi hclear
  have hpos : objectAt size s i ≠ 0 := by
    have hstart : 0 < PM_START := by decide
    exact (Nat.lt_of_lt_of_le hstart (sv.object_lt hsize hs hi).1).ne'
  -- the bit of the object is clear, so nobody has it
  have hnew : objectAt size s i ∉ h.live := by
    rw [sv.live, sv.object_iff hsize hs hi, hclear]
    exact Bool.false_ne_true
  refine ⟨_, _, hrun, .assign ?_, ?_⟩
  · exact (KmemCache.taken_same _ s (decide ((h.kernel.slabs s).free = 1))).2.2.2.2.2.1
  · rw [give, if_neg hpos]
    refine sv.assign hsize hs hi (ok.take hpartial hi hclear)
      (KmemCache.taken_perm ok.nodup hpartial _) (fun j hj => ?_) (sv.nodup.cons hnew) ?_
      fun x hx => ?_
    · rw [slab.take_bit hi, decide_eq_false hj, Bool.or_false]
    · rw [slab.take_bit hi, decide_eq_true rfl, Bool.or_true]
      exact iff_of_true List.mem_cons_self rfl
    · rw [List.mem_cons]
      exact or_iff_right hx

/-- **An object in use is freed.** -/
theorem freeNolock (sv : Served h) (warnf : Mem E R Unit) (hsize : h.size c = some size)
    (hs : s ∈ (h.kernel.caches c).slabs) (hi : i < slabCapacity size)
    (hbit : (h.kernel.slabs s).bm.bit i = true) :
    ∃ k, kmemCacheFreeNolock warnf c (objectAt size s i) h.kernel = .ok () k []
      ∧ h.kernel.SameLocks k ∧ Served (drop (objectAt size s i) { h with kernel := k }) := by
  have ok := sv.cache c size hsize
  have slab := ok.slab s hs
  have hend : PM_END < 2 ^ 64 := by decide
  have hrun := kmemCacheFreeNolock_apply warnf (sv.usable c size hsize) ok hs hi hbit
    ((sv.object_lt hsize hs hi).2.trans hend)
  refine ⟨_, hrun, .assign ?_, ?_⟩
  · exact (KmemCache.putBack_same _ s (decide ((h.kernel.slabs s).free = 0))).2.2.2.2.2.1
  · refine sv.assign hsize hs hi (ok.put hs hi hbit) (ok.putBack_perm hs) (fun j hj => ?_)
      (sv.nodup.erase _) ?_ fun x hx => ?_
    · rw [slab.put_bit hi, decide_eq_false hj, Bool.not_false, Bool.and_true]
    · rw [slab.put_bit hi, decide_eq_true rfl, Bool.not_true, Bool.and_false]
      exact iff_of_false sv.nodup.not_mem_erase Bool.false_ne_true
    · exact List.mem_erase_of_ne hx

end Served

namespace Stocked

variable {h : Caches E} {c s size : Nat}

theorem blob_fresh (st : Stocked h) (blob : h.Blob s) {c' size' : Nat}
    (hsize' : h.size c' = some size') : s ∉ (h.kernel.caches c').slabs :=
  fun hs => blob.fresh (List.mem_map_of_mem (st.mem_blobs hsize' hs))

theorem addSlab (st : Stocked h) (hsize : h.size c = some size) (blob : h.Blob s)
    (pages : Nat → Page) :
    Stocked { h with kernel := h.kernel.addSlab c s pages, blobs := (c, s) :: h.blobs } := by
  have ok := st.cache c size hsize
  refine ⟨st.usable, fun c' size' hsize' => ?_, fun c' size' hsize' => ?_, ?_, ?_⟩
  · -- the blob is new, so no slab of another cache is written
    show CacheOk size' c' ((h.kernel.addSlab c s pages).caches c')
      (h.kernel.addSlab c s pages).slabs
    by_cases heq : c' = c
    · subst heq
      obtain rfl := Option.some.inj (hsize.symm.trans hsize')
      rw [addSlab_cache_self]
      exact ok.grow (st.usable c' size hsize) (st.blob_fresh blob hsize) blob.aligned
        (SlabOk.new _ _ ok.objSize ok.allocSize) (SlabOk.free_newSlab _ ok.allocSize)
    · rw [addSlab_cache_of_ne heq]
      refine (st.cache c' size' hsize').congr fun s' hs' => addSlab_slab_of_ne ?_
      rintro rfl
      exact st.blob_fresh blob hsize' hs'
  · show ((h.kernel.addSlab c s pages).caches c').slabs.Perm
      ((((c, s) :: h.blobs).filter fun b => b.1 = c').map Prod.snd)
    rw [List.filter_cons]
    by_cases heq : c = c'
    · subst heq
      rw [if_pos (decide_eq_true rfl), addSlab_slabs]
      exact List.perm_append_comm.trans ((st.made c size' hsize').cons s)
    · rw [if_neg (by simpa using heq), addSlab_cache_of_ne (Ne.symm heq)]
      exact st.made c' size' hsize'
  · intro b hb
    rcases List.mem_cons.mp hb with rfl | hb
    · exact fun hnone => Option.some_ne_none _ (hsize.symm.trans hnone)
    · exact st.owner b hb
  · intro b hb
    rcases List.mem_cons.mp hb with rfl | hb
    · exact ⟨blob.start_le, blob.le_end⟩
    · exact st.region b hb

end Stocked

namespace Served

variable {h : Caches E} {c s size : Nat}

/-- No object of a new slab is in use. -/
theorem addSlab (sv : Served h) (hsize : h.size c = some size) (blob : h.Blob s)
    (pages : Nat → Page) :
    Served { h with kernel := h.kernel.addSlab c s pages, blobs := (c, s) :: h.blobs } := by
  refine ⟨sv.toStocked.addSlab hsize blob pages, fun x => (sv.live x).trans ?_, sv.nodup⟩
  refine exists_congr fun c' => exists_congr fun size' => and_congr_right fun hsize' => ?_
  -- the slabs of a cache are the old ones, and the new one in its own cache
  have hmem : ∀ s', s' ∈ ((h.kernel.addSlab c s pages).caches c').slabs
      ↔ s' ∈ (h.kernel.caches c').slabs ∨ (c' = c ∧ s' = s) := by
    intro s'
    by_cases heq : c' = c
    · subst heq
      rw [addSlab_slabs, List.mem_append, List.mem_singleton, and_iff_right rfl]
    · rw [addSlab_cache_of_ne heq, or_iff_left fun h => heq h.1]
  have hold : ∀ s' ∈ (h.kernel.caches c').slabs,
      (h.kernel.addSlab c s pages).slabs s' = h.kernel.slabs s' := by
    intro s' hs'
    refine addSlab_slab_of_ne ?_
    rintro rfl
    exact sv.blob_fresh blob hsize' hs'
  constructor
  · exact fun huse => huse.congr (fun s' hs' => (hmem s').mpr (Or.inl hs')) hold
  · rintro ⟨s', hs', i, hi, hx, hbit⟩
    rcases (hmem s').mp hs' with hs' | ⟨-, rfl⟩
    · refine ⟨s', hs', i, hi, hx, ?_⟩
      rw [← hold s' hs']
      exact hbit
    · have hself : (h.kernel.addSlab c s' pages).slabs s' = newSlab c (h.kernel.caches c) :=
        Function.update_self _ _ _
      -- the bitmap of the new slab is clear
      have hclear : (newSlab c (h.kernel.caches c)).bm.bit i = false := by
        rw [Bitmap.bit_eq]
        exact BitVec.getLsbD_zero
      have hset : ((h.kernel.addSlab c s' pages).slabs s').bm.bit i = true := hbit
      rw [hself, hclear] at hset
      cases hset

/-- **A block becomes a slab** of the cache. -/
theorem grow (sv : Served h) (hsize : h.size c = some size) (blob : h.Blob s) :
    ∃ k : Kernel E, h.kernel.SameLocks k ∧ (k.caches c).free ≠ 0
      ∧ Served { h with kernel := k, blobs := (c, s) :: h.blobs }
      ∧ ∀ {α : Type} (f : Unit → Mem E R α),
          (slabInit c s >>= fun _ => countSlab c s >>= f) h.kernel = f () k := by
  have ok := sv.cache c size hsize
  have hcount : SLAB_BLOB_SIZE / PAGE_SIZE * PAGE_SIZE = SLAB_BLOB_SIZE := rfl
  obtain ⟨pages, hrun, -⟩ := slabInitPages_apply (R := R) (n := SLAB_BLOB_SIZE / PAGE_SIZE)
    (Dvd.dvd.trans (by decide) blob.aligned) blob.start_le (by rw [hcount]; exact blob.le_end)
    h.kernel
  refine ⟨h.kernel.addSlab c s pages, addSlab_field (g := KmemCache.locked) fun _ _ _ _ => rfl,
    ?_, sv.addSlab hsize blob pages, slabInit_bind hrun⟩
  have hnum := SlabOk.free_newSlab c ok.allocSize
  have hpos := (sv.usable c size hsize).capacity_pos
  rw [addSlab_cache_self]
  show (h.kernel.caches c).free + (newSlab c (h.kernel.caches c)).free ≠ 0
  omega

end Served

end Caches

/-- **A cache is initialised**, for the first time. -/
theorem Caches.Served.init {h : Caches E} {c size : Nat} (sv : Served h) (us : Usable size)
    (hnew : h.size c = none) :
    Served { h with
      size := Function.update h.size c (some size)
      kernel := h.kernel.updateCache c fun _ => kmemCacheInit size } := by
  have hself : (h.kernel.updateCache c fun _ => kmemCacheInit size).caches c = kmemCacheInit size :=
    updateCache_self _ _ _
  have hne : ∀ c', c' ≠ c → (h.kernel.updateCache c fun _ => kmemCacheInit size).caches c'
      = h.kernel.caches c' := fun c' heq => Function.update_of_ne heq _ _
  -- what is said of every cache is said of the new one and of the old ones
  have hcases : ∀ {P : Nat → Nat → Prop}, P c size → (∀ c' size', c' ≠ c →
      h.size c' = some size' → P c' size') → ∀ c' size',
      Function.update h.size c (some size) c' = some size' → P c' size' := by
    intro P hc hother c' size' hsize'
    by_cases heq : c' = c
    · subst heq
      rw [Function.update_self] at hsize'
      obtain rfl := Option.some.inj hsize'
      exact hc
    · rw [Function.update_of_ne heq] at hsize'
      exact hother c' size' heq hsize'
  -- the lists of the cache are reset: no slab is lost, since none has been made for it
  have hnone : h.slabsOf c = [] := by
    refine List.eq_nil_iff_forall_not_mem.mpr fun s hs => ?_
    exact sv.owner (c, s) (mem_slabsOf.mp hs) hnew
  refine ⟨⟨?_, ?_, ?_, fun b hb => ?_, sv.region⟩, fun x => (sv.live x).trans ?_, sv.nodup⟩
  · exact hcases us fun c' size' _ hsize' => sv.usable c' size' hsize'
  · refine hcases (P := fun c' size' => CacheOk size' c' _ _) ?_ fun c' size' heq hsize' => ?_
    · rw [hself]
      exact CacheOk.init size c _
    · rw [hne c' heq]
      exact sv.cache c' size' hsize'
  · refine hcases (P := fun c' _ => List.Perm (KmemCache.slabs _) (h.slabsOf c')) ?_
      fun c' size' heq hsize' => ?_
    · rw [hself, hnone]
      exact List.Perm.refl []
    · rw [hne c' heq]
      exact sv.made c' size' hsize'
  · show Function.update h.size c (some size) b.1 ≠ none
    by_cases heq : b.1 = c
    · rw [heq, Function.update_self]
      exact Option.some_ne_none size
    · rw [Function.update_of_ne heq]
      exact sv.owner b hb
  · constructor
    · rintro ⟨c', size', hsize', huse⟩
      have heq : c' ≠ c := by
        rintro rfl
        exact Option.some_ne_none _ (hsize'.symm.trans hnew)
      refine ⟨c', size', (Function.update_of_ne heq _ _).trans hsize', ?_⟩
      show InUse size' ((h.kernel.updateCache c fun _ => kmemCacheInit size).caches c') _ x
      rw [hne c' heq]
      exact huse
    · rintro ⟨c', size', hsize', huse⟩
      refine hcases (P := fun c' size' => InUse size'
        ((h.kernel.updateCache c fun _ => kmemCacheInit size).caches c') h.kernel.slabs x →
        h.ObjectInUse x) ?_ ?_ c' size' hsize' huse
      · rw [hself]
        rintro ⟨s, hs, -⟩
        exact absurd hs List.not_mem_nil
      · intro c' size' heq hsize' huse
        rw [hne c' heq] at huse
        exact ⟨c', size', hsize', huse⟩

/-! ## Under the lock of a cache -/

section Locks

variable {α : Type} {k k' : Kernel E} {c : Nat}

theorem Kernel.SameLocks.refl (k : Kernel E) : k.SameLocks k := fun _ => rfl

theorem Kernel.SameLocks.trans {k₁ : Kernel E} (h : k.SameLocks k₁) (h' : k₁.SameLocks k') :
    k.SameLocks k' := fun c => (h' c).trans (h c)

theorem reflagged_setLocked (k : Kernel E) (c : Nat) (b : Bool) :
    k.Reflagged (k.updateCache c (.setLocked b)) := .updateCache ⟨b, _, rfl⟩

theorem reflagged_setExpanding (k : Kernel E) (c : Nat) (b : Bool) :
    k.Reflagged (k.updateCache c (.setExpanding b)) := .updateCache ⟨_, b, rfl⟩

theorem sameLocks_setExpanding (k : Kernel E) (c : Nat) (b : Bool) :
    k.SameLocks (k.updateCache c (.setExpanding b)) := by
  intro c'
  by_cases heq : c' = c
  · subst heq
    rw [updateCache_self]
    rfl
  · exact congrArg KmemCache.locked (Function.update_of_ne heq _ _)

theorem grows_setLocked (k : Kernel E) (c : Nat) (b : Bool) (c' : Nat) :
    ((k.updateCache c (.setLocked b)).caches c').grows = (k.caches c').grows := by
  by_cases heq : c' = c
  · subst heq
    rw [updateCache_self]
    rfl
  · exact congrArg KmemCache.grows (Function.update_of_ne heq _ _)

theorem locked_setLocked (k : Kernel E) (c : Nat) (b : Bool) (c' : Nat) :
    ((k.updateCache c (.setLocked b)).caches c').locked
      = if c' = c then b else (k.caches c').locked := by
  by_cases heq : c' = c
  · subst heq
    rw [updateCache_self, if_pos rfl]
    rfl
  · rw [if_neg heq]
    exact congrArg KmemCache.locked (Function.update_of_ne heq _ _)

/-- After `enterCache` the lock is held, and it has been taken unless it was. -/
theorem enterCache_spec (k : Kernel E) (c : Nat) : ∃ k', (enterCache c : Mem E R Bool) k
      = .ok (!(k.caches c).locked) k' [] ∧ k.Reflagged k'
      ∧ (∀ c', (k'.caches c').grows = (k.caches c').grows)
      ∧ ∀ c', (k'.caches c').locked = if c' = c then true else (k.caches c').locked := by
  cases hlocked : (k.caches c).locked with
  | true =>
      refine ⟨k, enterCache_held hlocked, ⟨rfl, fun c' => ⟨_, _, rfl⟩⟩,
        fun _ => rfl, fun c' => ?_⟩
      split
      · rename_i heq
        rw [heq, hlocked]
      · rfl
  | false =>
      exact ⟨_, enterCache_free hlocked, reflagged_setLocked k c true, grows_setLocked k c true,
        locked_setLocked k c true⟩

/-- A lock that has been taken is released. -/
theorem leaveCache_spec (taken : Bool) (hheld : taken = true → (k.caches c).locked = true) :
    ∃ k', (leaveCache taken c : Mem E R Unit) k = .ok () k' [] ∧ k.Reflagged k'
      ∧ ∀ c', (k'.caches c').locked
          = if taken = true ∧ c' = c then false else (k.caches c').locked := by
  cases taken with
  | false => exact ⟨k, rfl, ⟨rfl, fun c' => ⟨_, _, rfl⟩⟩, fun c' => by
      rw [if_neg fun h => Bool.false_ne_true h.1]⟩
  | true =>
      refine ⟨_, ?_, reflagged_setLocked k c false, fun c' => ?_⟩
      · rw [leaveCache, if_pos rfl, unlockCache, read_bind_apply, if_pos (hheld rfl), modify_apply]
      · rw [locked_setLocked]
        simp only [true_and]

/-- What runs under the lock of a cache. -/
def underLock (c : Nat) (x : Mem E R α) : Mem E R α := do
  let taken ← enterCache c
  let a ← x
  leaveCache taken c
  pure a

theorem underLock_eq (c : Nat) (x : Mem E R α) : underLock c x = (do
    let k ← read
    if (k.caches c).locked then x
    else do
      lockCache c
      let a ← x
      unlockCache c
      pure a) := by
  funext k
  rw [underLock, read_bind_apply]
  cases hlocked : (k.caches c).locked with
  | true =>
      rw [if_pos rfl, bind_ok (enterCache_held hlocked), Outcome.after_nil]
      simp only [leaveCache, if_neg Bool.false_ne_true, pure_bind, bind_pure]
  | false =>
      rw [if_neg Bool.false_ne_true, bind_ok (enterCache_free hlocked), Outcome.after_nil,
        bind_ok (lockCache_apply hlocked), Outcome.after_nil]
      rfl

/-- What keeps the locks and does not depend on flags does the same under the lock. -/
theorem underLock_spec {x : Mem E R α} {Q : α → Kernel E → Prop}
    (hflags : ∀ a k k', Q a k → k.Reflagged k' → Q a k')
    (hx : ∀ k₁, k.Reflagged k₁ → (∀ c, (k₁.caches c).grows = (k.caches c).grows) → ∃ a k₂,
      x k₁ = .ok a k₂ [] ∧ k₁.SameLocks k₂ ∧ Q a k₂) :
    ∃ a k', underLock c x k = .ok a k' [] ∧ k.SameLocks k' ∧ Q a k' := by
  obtain ⟨k₁, henter, hflag₁, hgrows, hlocks₁⟩ := enterCache_spec (R := R) k c
  obtain ⟨a, k₂, hrun, hlocks₂, hQ⟩ := hx k₁ hflag₁ hgrows
  have hheld : (!(k.caches c).locked) = true → (k₂.caches c).locked = true := by
    intro _
    rw [hlocks₂ c, hlocks₁ c, if_pos rfl]
  obtain ⟨k₃, hleave, hflag₃, hlocks₃⟩ := leaveCache_spec (R := R) _ hheld
  refine ⟨a, k₃, ?_, fun c' => ?_, hflags a k₂ k₃ hQ hflag₃⟩
  · rw [underLock, bind_ok henter, Outcome.after_nil, bind_ok hrun, Outcome.after_nil,
      bind_ok hleave, Outcome.after_nil, pure_apply]
  · rw [hlocks₃ c', hlocks₂ c', hlocks₁ c']
    by_cases heq : c' = c
    · subst heq
      cases (k.caches c').locked <;> simp
    · rw [if_neg fun h => heq h.2, if_neg heq]

end Locks

/-! ## One call -/

namespace Caches

variable {h : Caches E} {c s size x : Nat} {ops : MetaOps E R}

theorem run_bind {α β : Type} {x : Mem E R α} {f : α → Exec (Caches E) R Fault β} {a : α}
    {k : Kernel E} (hx : x h.kernel = .ok a k []) :
    (Caches.run x >>= f) h = f a { h with kernel := k } := by
  have hrun : Caches.run x h = .ok a { h with kernel := k } [] := by
    rw [Caches.run, zoom, hx]
  rw [bind_ok hrun, Outcome.after_nil]

theorem give_kernel (mem : Nat) (h : Caches E) (k : Kernel E) :
    give mem { h with kernel := k } = { give mem h with kernel := k } := by
  unfold give
  split <;> rfl

@[simp] theorem give_state (mem : Nat) (h : Caches E) : (give mem h).kernel = h.kernel := by
  unfold give
  split <;> rfl

@[simp] theorem give_size (mem : Nat) (h : Caches E) : (give mem h).size = h.size := by
  unfold give
  split <;> rfl

@[simp] theorem give_pending (mem : Nat) (h : Caches E) : (give mem h).pending = h.pending := by
  unfold give
  split <;> rfl

/-- A call waits that has taken the lock of its cache, if it was not held. -/
theorem Waiting.wait (wt : Waiting h) {p : Pending} {k : Kernel E} (hknown : h.size p.cache ≠ none)
    (hlock : ∀ c, p.lock = some c → (h.kernel.caches c).locked = false ∧ (k.caches c).locked = true)
    (hlocks : ∀ c, (h.kernel.caches c).locked = true → (k.caches c).locked = true) :
    Waiting (wait p { h with kernel := k }) := by
  have hcases : ∀ c ∈ (p :: h.pending).filterMap Pending.lock,
      p.lock = some c ∨ c ∈ h.pending.filterMap Pending.lock := by
    intro c hc
    obtain ⟨q, hq, hqlock⟩ := List.mem_filterMap.mp hc
    rcases List.mem_cons.mp hq with rfl | hq
    · exact Or.inl hqlock
    · exact Or.inr (List.mem_filterMap.mpr ⟨q, hq, hqlock⟩)
  refine ⟨fun q hq => ?_, ?_, fun c hc => ?_⟩
  · rcases List.mem_cons.mp hq with rfl | hq
    · exact hknown
    · exact wt.known q hq
  · show ((p :: h.pending).filterMap Pending.lock).Nodup
    cases hp : p.lock with
    | none =>
        rw [List.filterMap_cons_none hp]
        exact wt.once
    | some c =>
        rw [List.filterMap_cons_some hp]
        refine wt.once.cons fun hc => ?_
        exact Bool.false_ne_true ((hlock c hp).1.symm.trans (wt.held c hc))
  · rcases hcases c hc with hp | hc
    · exact (hlock c hp).2
    · exact hlocks c (wt.held c hc)

/-- The innermost call goes on and releases the lock it has taken. -/
theorem Waiting.resume (wt : Waiting h) {p : Pending} {rest : List Pending}
    (hpending : h.pending = p :: rest) {h' : Caches E} (hpending' : h'.pending = rest)
    (hsize : h'.size = h.size) (hlocks : ∀ c, p.lock ≠ some c →
      (h'.kernel.caches c).locked = (h.kernel.caches c).locked) : Waiting h' := by
  have hsub : ∀ c ∈ rest.filterMap Pending.lock, c ∈ h.pending.filterMap Pending.lock := by
    intro c hc
    obtain ⟨q, hq, hqlock⟩ := List.mem_filterMap.mp hc
    rw [hpending]
    exact List.mem_filterMap.mpr ⟨q, List.mem_cons_of_mem _ hq, hqlock⟩
  have honce := wt.once
  rw [hpending] at honce
  refine ⟨fun q hq => ?_, ?_, fun c hc => ?_⟩
  · rw [hpending'] at hq
    rw [hsize]
    exact wt.known q (hpending ▸ List.mem_cons_of_mem _ hq)
  · rw [hpending']
    exact honce.sublist ((List.sublist_cons_self p rest).filterMap _)
  · rw [hpending'] at hc
    rw [hlocks c ?_]
    · exact wt.held c (hsub c hc)
    · intro hp
      rw [List.filterMap_cons_some hp] at honce
      exact (List.nodup_cons.mp honce).1 hc

/-- A cache that is initialised is none that a call waits for. -/
theorem Waiting.init (wt : Waiting h) (size : Nat) (hnew : h.size c = none) : Waiting { h with
    size := Function.update h.size c (some size)
    kernel := h.kernel.updateCache c fun _ => kmemCacheInit size } := by
  refine ⟨fun p hp => ?_, wt.once, fun c' hc' => ?_⟩
  · have hne : p.cache ≠ c := by
      rintro rfl
      exact wt.known p hp hnew
    show Function.update h.size c (some size) p.cache ≠ none
    rw [Function.update_of_ne hne]
    exact wt.known p hp
  · obtain ⟨p, hp, hplock⟩ := List.mem_filterMap.mp hc'
    have hne : c' ≠ c := by
      rintro rfl
      rw [← Pending.cache_of_lock hplock] at hnew
      exact wt.known p hp hnew
    show ((h.kernel.updateCache c fun _ => kmemCacheInit size).caches c').locked = true
    rw [Kernel.updateCache]
    dsimp only
    rw [Function.update_of_ne hne]
    exact wt.held c' hc'

theorem Waiting.mono {h' : Caches E} (wt : Waiting h) (hpending : h'.pending = h.pending)
    (hsize : h'.size = h.size) (hlocks : ∀ c, (h.kernel.caches c).locked = true →
      (h'.kernel.caches c).locked = true) : Waiting h' := by
  refine ⟨?_, ?_, ?_⟩
  · rw [hpending, hsize]
    exact wt.known
  · rw [hpending]
    exact wt.once
  · rw [hpending]
    exact fun c hc => hlocks c (wt.held c hc)

theorem Waiting.congr {h' : Caches E} (wt : Waiting h) (hpending : h'.pending = h.pending)
    (hsize : h'.size = h.size) (hlocks : h.kernel.SameLocks h'.kernel) : Waiting h' :=
  wt.mono hpending hsize fun c hheld => (hlocks c).trans hheld

namespace Served

theorem give_reflag {mem : Nat} {k : Kernel E} (hgiven : Served (give mem h))
    (hflags : h.kernel.Reflagged k) : Served (give mem { h with kernel := k }) := by
  rw [give_kernel]
  refine hgiven.reflag ?_
  rw [give_state]
  exact hflags

/-- **`kmem_cache_alloc_nolock`** after the check of the reserve: an object, or `NULL` when there
is none. -/
theorem serve (sv : Served h) (hsize : h.size c = some size) :
    ∃ mem k, (kmemCacheTake quiet c : Mem E R Nat) h.kernel = .ok mem k [] ∧ h.kernel.SameLocks k
      ∧ Served (give mem { h with kernel := k }) := by
  by_cases hfree : (h.kernel.caches c).free = 0
  · refine ⟨0, h.kernel, ?_, Kernel.SameLocks.refl _, ?_⟩
    · rw [kmemCacheTake_empty hfree, quiet, pure_bind_apply, pure_apply]
    · rw [give, if_pos rfl]
      exact sv
  · exact sv.take quiet hsize hfree

/-- A cache that needs no slab goes on without one. -/
theorem allocNolock_eq (sv : Served h) (hsize : h.size c = some size)
    (hgrows : (h.kernel.caches c).grows = false) :
    kmemCacheAllocNolock quiet ops c h.kernel = kmemCacheTake quiet c h.kernel := by
  have hparked := (sv.cache c size hsize).parked
  have hnot : ¬((h.kernel.caches c).expanding = false
      ∧ (h.kernel.caches c).free < (h.kernel.caches c).low) := by
    intro hlow
    exact Bool.false_ne_true (hgrows.symm.trans (KmemCache.grows_iff.mpr ⟨hlow, hparked⟩))
  rw [kmemCacheAllocNolock, read_bind_apply, if_neg hnot]

/-- **`kmem_cache_alloc`** of a cache that needs no slab. -/
theorem alloc (sv : Served h) (ops : MetaOps E R) (hsize : h.size c = some size)
    (hgrows : (h.kernel.caches c).grows = false) :
    ∃ mem k, kmemCacheAlloc quiet ops (some c) h.kernel = .ok mem k []
      ∧ h.kernel.SameLocks k ∧ Served (give mem { h with kernel := k }) := by
  have hunder : kmemCacheAlloc quiet ops (some c)
      = underLock c (kmemCacheAllocNolock quiet ops c) := (underLock_eq c _).symm
  rw [hunder]
  refine underLock_spec (Q := fun mem k => Served (give mem { h with kernel := k }))
    (fun mem k k' hgiven hflags => ?_) fun k₁ hflags hsame => ?_
  · exact give_reflag (h := { h with kernel := k }) hgiven hflags
  · have hsv := sv.reflag hflags
    obtain ⟨mem, k₂, hrun, hlocks, hserved⟩ := hsv.serve (R := R) hsize
    exact ⟨mem, k₂, (hsv.allocNolock_eq hsize ((hsame c).trans hgrows)).trans hrun, hlocks, hserved⟩

/-- The slab of an object in use leads to its cache. -/
theorem slab_kmem (sv : Served h) (hsize : h.size c = some size)
    (hs : s ∈ (h.kernel.caches c).slabs) {i : Nat} (hi : i < slabCapacity size) :
    (h.kernel.slabs (SLAB_ALIGN_DOWN (objectAt size s i))).kmem = c := by
  have ok := sv.cache c size hsize
  have hend : PM_END < 2 ^ 64 := by decide
  rw [(sv.usable c size hsize).align_down (ok.aligned s hs) hi
    ((sv.object_lt hsize hs hi).2.trans hend)]
  exact (ok.slab s hs).kmem

/-- **`kmem_cache_free`** of a live object. -/
theorem free (sv : Served h) (hx : x ∈ h.live) :
    ∃ k, (kmemCacheFree quiet x : Mem E R Unit) h.kernel = .ok () k [] ∧ h.kernel.SameLocks k
      ∧ Served (drop x { h with kernel := k }) := by
  obtain ⟨c, size, hsize, s, hs, i, hi, rfl, hbit⟩ := (sv.live x).mp hx
  have hunder : (kmemCacheFree quiet (objectAt size s i) : Mem E R Unit) h.kernel
      = underLock c (kmemCacheFreeNolock quiet c (objectAt size s i)) h.kernel := by
    rw [kmemCacheFree, read_bind_apply, sv.slab_kmem hsize hs hi, underLock_eq, read_bind_apply]
    simp only [bind_pure_unit]
  rw [hunder]
  -- under the lock only flags differ, so the object is still the one of the bit
  have hspec : ∀ k₁, h.kernel.Reflagged k₁ →
      (∀ c, (k₁.caches c).grows = (h.kernel.caches c).grows) → ∃ a k₂,
      kmemCacheFreeNolock (R := R) quiet c (objectAt size s i) k₁ = .ok a k₂ []
        ∧ k₁.SameLocks k₂ ∧ Served (drop (objectAt size s i) { h with kernel := k₂ }) := by
    intro k₁ hflags _
    have hsv := sv.reflag hflags
    have hslabs : s ∈ (k₁.caches c).slabs := by
      obtain ⟨l, e, heq⟩ := hflags.2 c
      rw [heq]
      exact hs
    have hbit' : (k₁.slabs s).bm.bit i = true := by
      rw [hflags.1]
      exact hbit
    obtain ⟨k₂, hrun, hlocks, hdropped⟩ := hsv.freeNolock quiet hsize hslabs hi hbit'
    exact ⟨(), k₂, hrun, hlocks, hdropped⟩
  obtain ⟨_, k, hrun, hlocks, hdropped⟩ := underLock_spec (c := c)
    (Q := fun _ k => Served (drop (objectAt size s i) { h with kernel := k }))
    (fun _ k k' hdropped hflags => hdropped.reflag hflags) hspec
  exact ⟨k, hrun, hlocks, hdropped⟩

end Served

end Caches

namespace Caches

variable {h : Caches E} {c s size : Nat}

/-- The slabs after `buddy_alloc` has returned `s` to a call for the cache `c`. -/
def blobsWith (h : Caches E) (c s : Nat) : List (Nat × Nat) :=
  if s = 0 then h.blobs else (c, s) :: h.blobs

namespace Served

theorem congr_pending (sv : Served h) (l : List Pending) : Served { h with pending := l } :=
  ⟨⟨sv.usable, sv.cache, sv.made, sv.owner, sv.region⟩, sv.live, sv.nodup⟩

theorem give_congr_pending {mem : Nat} (hgiven : Served (give mem h)) (l : List Pending) :
    Served (give mem { h with pending := l }) := by
  have hcongr := hgiven.congr_pending l
  unfold give at hcongr ⊢
  split
  · rename_i hnull
    rwa [if_pos hnull] at hcongr
  · rename_i hmem
    rwa [if_neg hmem] at hcongr

/-- **`kmem_cache_alloc_nolock`** after `buddy_alloc`. -/
theorem grown (sv : Served h) (hsize : h.size c = some size) (hs : s = 0 ∨ h.Blob s) :
    ∃ mem k, (kmemCacheGrown quiet c s : Mem E R Nat) h.kernel = .ok mem k []
      ∧ h.kernel.SameLocks k
      ∧ Served (give mem { h with kernel := k, blobs := h.blobsWith c s }) := by
  have hidle := sv.reflag (reflagged_setExpanding h.kernel c false)
  have hlocks := sameLocks_setExpanding h.kernel c false
  rw [kmemCacheGrown, setExpanding, modify_bind_apply, blobsWith]
  by_cases hnull : s = 0
  · rw [if_pos hnull, if_pos hnull, read_bind_apply]
    obtain ⟨mem, k, hrun, hlocks', hserved⟩ := hidle.serve (R := R) hsize
    refine ⟨mem, k, ?_, hlocks.trans hlocks', hserved⟩
    split
    · exact hrun
    · rename_i hempty
      rw [← hrun, kmemCacheTake_empty (Nat.eq_zero_of_not_pos hempty)]
  · rw [if_neg hnull, if_neg hnull]
    have blob : Blob { h with kernel := h.kernel.updateCache c (.setExpanding false) } s := by
      have hblob := hs.resolve_left hnull
      exact ⟨hblob.aligned, hblob.start_le, hblob.le_end, hblob.fresh⟩
    obtain ⟨k₁, hlocks₁, hfree, hgrown, hinit⟩ := hidle.grow (R := R) hsize blob
    obtain ⟨mem, k, hrun, hlocks', hserved⟩ := hgrown.take (quiet (R := R)) hsize hfree
    exact ⟨mem, k, (hinit _).trans hrun, (hlocks.trans hlocks₁).trans hlocks', hserved⟩

/-- **`kmem_cache_init`** after `buddy_alloc`. -/
theorem initGrown (sv : Served h) (hsize : h.size c = some size) (hs : s = 0 ∨ h.Blob s) :
    ∃ ret k, (kmemCacheInitGrown c s : Mem E R Int) h.kernel = .ok ret k []
      ∧ h.kernel.SameLocks k ∧ Served { h with kernel := k, blobs := h.blobsWith c s } := by
  rw [kmemCacheInitGrown, blobsWith]
  by_cases hnull : s = 0
  · rw [if_pos hnull, if_pos hnull]
    exact ⟨_, h.kernel, rfl, Kernel.SameLocks.refl _, sv⟩
  · rw [if_neg hnull, if_neg hnull]
    obtain ⟨k, hlocks, -, hgrown, hinit⟩ := sv.grow (R := R) hsize (hs.resolve_left hnull)
    exact ⟨0, k, (hinit _).trans (pure_apply _ _), hlocks, hgrown⟩

/-- **`kmem_cache_alloc`** after `buddy_alloc`. -/
theorem allocGrown (sv : Served h) (hsize : h.size c = some size) (hs : s = 0 ∨ h.Blob s)
    {taken : Bool} (hheld : taken = true → (h.kernel.caches c).locked = true) :
    ∃ mem k, (kmemCacheAllocGrown quiet c taken s : Mem E R Nat) h.kernel = .ok mem k []
      ∧ (∀ c', (k.caches c').locked
          = if taken = true ∧ c' = c then false else (h.kernel.caches c').locked)
      ∧ Served (give mem { h with kernel := k, blobs := h.blobsWith c s }) := by
  obtain ⟨mem, k₁, hrun, hlocks₁, hserved⟩ := sv.grown (R := R) hsize hs
  obtain ⟨k, hleave, hflags, hlocks⟩ := leaveCache_spec (R := R) taken (c := c)
    (k := k₁) fun htaken => (hlocks₁ c).trans (hheld htaken)
  refine ⟨mem, k, ?_, fun c' => ?_, ?_⟩
  · rw [kmemCacheAllocGrown, bind_ok hrun, Outcome.after_nil, bind_ok hleave, Outcome.after_nil,
      pure_apply]
  · rw [hlocks c', hlocks₁ c']
  · exact give_reflag (h := { h with kernel := k₁, blobs := h.blobsWith c s }) hserved hflags

end Served

end Caches

end NoobKernel.Mm
