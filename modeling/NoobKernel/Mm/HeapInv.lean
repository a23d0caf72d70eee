import NoobKernel.Mm.BuddyRun
import NoobKernel.Mm.SlabInv

set_option autoImplicit false

/-! # The invariant of the heap

The caches of `kmalloc` and the buddy system together. A page has `PM_SLAB` exactly when it lies in
a slab of one of the caches; the slabs and the blocks of the users are what the buddy system has
handed out; the `mem_block`s of the buddy system are objects in use or lie in the early heap
(`HeapOwns`). As a contract for the buddy system (`heapContract`) this is what `kmalloc` keeps while
the buddy system calls it, and what the buddy system keeps while `kmalloc` calls it.
-/

namespace NoobKernel.Mm

open Misc Exec
open Dyadic hiding Mem

variable {E R : Type}

/-- The size of the objects of a class. -/
def classSize (c : Nat) : Nat := MEM_OBJ_SIZES.getD c 0

/-- The order of a slab. -/
def SLAB_ORDER : Nat := 4

theorem size2order_slab : size2order SLAB_BLOB_SIZE = SLAB_ORDER := by decide

theorem usable_class {c : Nat} (hc : c < KALLOC_MEM_POOL_NUM) : Usable (classSize c) := by
  refine usable_classes _ ?_
  have hlen : c < MEM_OBJ_SIZES.length := hc
  rw [classSize, List.getD_eq_getElem _ _ hlen]
  exact List.getElem_mem hlen

/-- The slabs of the first `n` caches. -/
def ownedBlobs (k : Kernel E) (n : Nat) : List Nat :=
  (List.range n).flatMap fun c => (k.caches c).slabs

theorem mem_ownedBlobs {k : Kernel E} {n s : Nat} :
    s ∈ ownedBlobs k n ↔ ∃ c < n, s ∈ (k.caches c).slabs := by
  simp only [ownedBlobs, List.mem_flatMap, List.mem_range]

/-- The address is that of an object in use of the class. -/
def ObjectInUse (k : Kernel E) (c x : Nat) : Prop := InUse (classSize c) (k.caches c) k.slabs x

/-- A cache as it is at some moment, with the headers of its slabs. -/
structure Frozen where
  cache : Nat
  kmem : KmemCache
  slabs : Nat → Slab

/-- The cache is as it was, apart from its flags. It is not the cache of the `mem_block`s, which the
buddy system changes. -/
structure Frozen.Kept (q : Frozen) (n : Nat) (k : Kernel E) : Prop where
  cache_lt : q.cache < n
  pool : q.cache ≠ memBlockPool
  kmem : k.caches q.cache = { q.kmem with
    locked := (k.caches q.cache).locked
    expanding := (k.caches q.cache).expanding }
  slabs : ∀ s ∈ q.kmem.slabs, k.slabs s = q.slabs s

theorem Frozen.Kept.slabs_eq {q : Frozen} {n : Nat} {k : Kernel E} (h : q.Kept n k) :
    (k.caches q.cache).slabs = q.kmem.slabs := by
  rw [h.kmem]
  rfl

theorem Frozen.Kept.congr {q : Frozen} {n : Nat} {k k' : Kernel E} (h : q.Kept n k)
    (hcaches : k'.caches = k.caches) (hslabs : k'.slabs = k.slabs) : q.Kept n k' := by
  refine ⟨h.cache_lt, h.pool, ?_, ?_⟩
  · rw [hcaches]
    exact h.kmem
  · rw [hslabs]
    exact h.slabs

/-- What a moment of a run fixes: the classes that are initialised, the flags of the caches, and
what the users of the heap hold. -/
structure Holding where
  classes : Nat
  inited : Bool
  locked : Nat → Bool
  expanding : Nat → Bool
  /-- classes and addresses of the objects -/
  objects : List (Nat × Nat)
  blocks : List Block
  /-- what is known of the objects that have been handed out, by class and address -/
  fits : Nat → Nat → Prop
  /-- slabs with the classes they have been made for -/
  homes : List (Nat × Nat)
  /-- caches that nobody uses for the time being -/
  frozen : List Frozen

/-- The cache may change. -/
def Holding.Thawed (P : Holding) (c : Nat) : Prop := ∀ q ∈ P.frozen, q.cache ≠ c

/-- The caches, their slabs and the flags of the pages. -/
structure HeapOk (lay : Layout) (P : Holding) (k : Kernel E) (A : List Block) : Prop where
  classes_le : P.classes ≤ KALLOC_MEM_POOL_NUM
  inited : k.kallocInited = P.inited
  brk_ge : lay.EARLY_HEAP_BASE ≤ k.earlyBrk
  brk_le : k.earlyBrk ≤ lay.EARLY_HEAP_END
  brk_slot : sizeofMemBlock ∣ k.earlyBrk - lay.EARLY_HEAP_BASE
  cache : ∀ c < P.classes, CacheOk (classSize c) c (k.caches c) k.slabs
  locked : ∀ c, (k.caches c).locked = P.locked c
  expanding : ∀ c, (k.caches c).expanding = P.expanding c
  handed : A.Perm ((ownedBlobs k P.classes).map (fun s => (s, SLAB_ORDER)) ++ P.blocks)
  distinct : (ownedBlobs k P.classes).Nodup
  region : ∀ s ∈ ownedBlobs k P.classes,
    lay.BUDDY_SYSTEM_BASE ≤ s ∧ s + SLAB_BLOB_SIZE ≤ Layout.BUDDY_SYSTEM_END
  slab : ∀ a, PAGE_SIZE ∣ a → PM_START ≤ a → ((k.page a).flags &&& PM_SLAB ≠ 0 ↔
    ∃ s ∈ ownedBlobs k P.classes, s ≤ a ∧ a < s + SLAB_BLOB_SIZE)
  buddy : ∀ a, PageIn lay.BUDDY_SYSTEM_BASE Layout.BUDDY_SYSTEM_END a →
    (k.page a).flags &&& PM_BUDDY ≠ 0
  homes : ∀ o ∈ P.homes, o.2 ∈ (k.caches o.1).slabs
  frozen : ∀ q ∈ P.frozen, q.Kept P.classes k

/-- The objects of the buddy system (`M`) and of the users are in use, and no two are the same. -/
structure Clients (lay : Layout) (P : Holding) (k : Kernel E) (M : List Nat) : Prop where
  mem : ∀ p ∈ M, (lay.EARLY_HEAP_BASE ≤ p ∧ p < k.earlyBrk)
    ∨ (memBlockPool < P.classes ∧ ObjectInUse k memBlockPool p)
  object : ∀ o ∈ P.objects, o.1 < P.classes ∧ ObjectInUse k o.1 o.2
  apart : ∀ o ∈ P.objects, o.2 ∉ M
  nodup : (P.objects.map Prod.snd).Nodup
  slot : ∀ p ∈ M, p < lay.EARLY_HEAP_END → sizeofMemBlock ∣ p - lay.EARLY_HEAP_BASE
  memFits : ∀ p ∈ M, lay.EARLY_HEAP_END ≤ p → P.fits memBlockPool p
  objectFits : ∀ o ∈ P.objects, P.fits o.1 o.2

/-- **The heap**, while the buddy system has handed out `A` and uses the `mem_block`s `M`. -/
structure HeapOwns (lay : Layout) (P : Holding) (k : Kernel E) (A : List Block) (M : List Nat) :
    Prop where
  heap : HeapOk lay P k A
  clients : Clients lay P k M

variable {lay : Layout} {P : Holding} {k k' : Kernel E} {A : List Block} {M M' : List Nat}

/-! ## The contract -/

/-- The kernels agree on the slab allocator and the flags of the pages. -/
structure HeapSame (k k' : Kernel E) : Prop where
  flags : ∀ i, (k'.pages i).flags = (k.pages i).flags
  earlyBrk : k'.earlyBrk = k.earlyBrk
  kallocInited : k'.kallocInited = k.kallocInited
  caches : k'.caches = k.caches
  slabs : k'.slabs = k.slabs

theorem RestSame.heapSame (h : RestSame k k') : HeapSame k k' :=
  ⟨h.flags, h.earlyBrk, h.kallocInited, h.caches, h.slabs⟩

theorem HeapSame.page (h : HeapSame k k') (a : Nat) : (k'.page a).flags = (k.page a).flags :=
  h.flags _

theorem HeapOk.congr (h : HeapSame k k') (ok : HeapOk lay P k A) : HeapOk lay P k' A := by
  have hblobs : ownedBlobs k' P.classes = ownedBlobs k P.classes := by
    rw [ownedBlobs, ownedBlobs, h.caches]
  refine ⟨ok.classes_le, h.kallocInited.trans ok.inited, ?_, ?_, ?_, ?_, ?_, ?_, ?_, ?_, ?_, ?_, ?_,
    ?_, ?_⟩
  · rw [h.earlyBrk]
    exact ok.brk_ge
  · rw [h.earlyBrk]
    exact ok.brk_le
  · rw [h.earlyBrk]
    exact ok.brk_slot
  · rw [h.caches, h.slabs]
    exact ok.cache
  · rw [h.caches]
    exact ok.locked
  · rw [h.caches]
    exact ok.expanding
  · rw [hblobs]
    exact ok.handed
  · rw [hblobs]
    exact ok.distinct
  · rw [hblobs]
    exact ok.region
  · intro a hdvd ha
    rw [h.page, hblobs]
    exact ok.slab a hdvd ha
  · intro a ha
    rw [h.page]
    exact ok.buddy a ha
  · rw [h.caches]
    exact ok.homes
  · exact fun q hq => (ok.frozen q hq).congr h.caches h.slabs

theorem Clients.congr (h : HeapSame k k') (cl : Clients lay P k M) : Clients lay P k' M := by
  have huse : ∀ c x, ObjectInUse k c x → ObjectInUse k' c x := by
    intro c x hx
    rw [ObjectInUse, h.caches, h.slabs]
    exact hx
  refine ⟨fun p hp => ?_, fun o ho => ?_, cl.apart, cl.nodup, cl.slot, cl.memFits, cl.objectFits⟩
  · rw [h.earlyBrk]
    exact (cl.mem p hp).imp_right fun hmem => ⟨hmem.1, huse _ _ hmem.2⟩
  · exact ⟨(cl.object o ho).1, huse _ _ (cl.object o ho).2⟩

theorem Clients.subset (hsub : M' ⊆ M) (cl : Clients lay P k M) : Clients lay P k M' :=
  ⟨fun p hp => cl.mem p (hsub hp), cl.object, fun o ho hmem => cl.apart o ho (hsub hmem), cl.nodup,
    fun p hp => cl.slot p (hsub hp), fun p hp => cl.memFits p (hsub hp), cl.objectFits⟩

theorem HeapOwns.congr (h : HeapSame k k') (own : HeapOwns lay P k A M) : HeapOwns lay P k' A M :=
  ⟨own.heap.congr h, own.clients.congr h⟩

/-- The objects of the users are no part of the state of the heap. -/
theorem HeapOk.withObjects (ok : HeapOk lay P k A) (objects : List (Nat × Nat)) :
    HeapOk lay { P with objects := objects } k A :=
  ⟨ok.classes_le, ok.inited, ok.brk_ge, ok.brk_le, ok.brk_slot, ok.cache, ok.locked, ok.expanding, ok.handed,
    ok.distinct, ok.region, ok.slab, ok.buddy, ok.homes, ok.frozen⟩

/-- The heap as the rest of the kernel around the buddy system. -/
def heapContract (E : Type) (lay : Layout) (P : Holding) : Contract E where
  Owns := HeapOwns lay P
  Grows A A' := A ⊆ A'
  rest h howns := howns.congr h.heapSame
  subset hsub howns := ⟨howns.heap, howns.clients.subset hsub⟩
  refl := List.Subset.refl
  trans h h' := List.Subset.trans h h'
  mono h := h

/-! ## Slabs of different caches -/

theorem owned_unique {n c c' s : Nat} (hnd : (ownedBlobs k n).Nodup) (hc : c < n) (hc' : c' < n)
    (hs : s ∈ (k.caches c).slabs) (hs' : s ∈ (k.caches c').slabs) : c = c' := by
  by_contra hne
  have hpair := (List.nodup_flatMap.mp hnd).2
  have hsymm : Std.Symm (Function.onFun List.Disjoint fun c => (k.caches c).slabs) :=
    ⟨fun _ _ h => h.symm⟩
  have hdisj := hpair.forall (List.mem_range.mpr hc) (List.mem_range.mpr hc') hne
  exact hdisj hs hs'

/-- The slabs of one cache are reordered, or it gets the slabs `l`. -/
theorem ownedBlobs_perm {n c : Nat} {l : List Nat} (hc : c < n)
    (hperm : (k'.caches c).slabs.Perm (l ++ (k.caches c).slabs))
    (hother : ∀ c', c' ≠ c → (k'.caches c').slabs = (k.caches c').slabs) :
    (ownedBlobs k' n).Perm (l ++ ownedBlobs k n) := by
  induction n with
  | zero => exact absurd hc (Nat.not_lt_zero c)
  | succ n ih =>
      have hunfold : ∀ k : Kernel E, ownedBlobs k (n + 1) = ownedBlobs k n ++ (k.caches n).slabs := by
        intro k
        simp [ownedBlobs, List.range_succ]
      rw [hunfold, hunfold]
      rcases Nat.lt_succ_iff_lt_or_eq.mp hc with hlt | rfl
      · rw [hother n hlt.ne', ← List.append_assoc]
        exact (ih hlt).append_right _
      · have hbelow : ownedBlobs k' c = ownedBlobs k c := by
          refine List.flatMap_congr fun c' hc' => hother c' ?_
          exact (List.mem_range.mp hc').ne
        rw [hbelow]
        refine (hperm.append_left _).trans ?_
        rw [← List.append_assoc, ← List.append_assoc]
        exact List.perm_append_comm.append_right _

namespace HeapOk

variable {c c' s x : Nat}

theorem mem_owned (hc : c < P.classes) (hs : s ∈ (k.caches c).slabs) :
    s ∈ ownedBlobs k P.classes := mem_ownedBlobs.mpr ⟨c, hc, hs⟩

theorem usable (ok : HeapOk lay P k A) (hc : c < P.classes) : Usable (classSize c) :=
  usable_class (Nat.lt_of_lt_of_le hc ok.classes_le)

/-- An object in use lies in a slab of its class. -/
theorem object_slab (ok : HeapOk lay P k A) (hc : c < P.classes) (hx : ObjectInUse k c x) :
    ∃ s ∈ (k.caches c).slabs, SLAB_BLOB_SIZE ∣ s ∧ s ≤ x ∧ x < s + SLAB_BLOB_SIZE := by
  obtain ⟨s, hs, i, hi, rfl, -⟩ := hx
  exact ⟨s, hs, (ok.cache c hc).aligned s hs, (ok.usable hc).object_mem hi⟩

theorem object_region (ok : HeapOk lay P k A) (hc : c < P.classes) (hx : ObjectInUse k c x) :
    lay.BUDDY_SYSTEM_BASE ≤ x ∧ x < Layout.BUDDY_SYSTEM_END := by
  obtain ⟨s, hs, -, hle, hlt⟩ := ok.object_slab hc hx
  have hregion := ok.region s (mem_owned hc hs)
  exact ⟨hregion.1.trans hle, Nat.lt_of_lt_of_le hlt hregion.2⟩

/-- Objects in use do not lie in the early heap. -/
theorem object_not_early (ok : HeapOk lay P k A) (hc : c < P.classes) (hx : ObjectInUse k c x) :
    k.earlyBrk ≤ x :=
  (ok.brk_le.trans lay.EARLY_HEAP_END_le_BASE).trans (ok.object_region hc hx).1

theorem blob_eq_of_mem {s s' x : Nat} (hs : SLAB_BLOB_SIZE ∣ s) (hs' : SLAB_BLOB_SIZE ∣ s')
    (hx : s ≤ x ∧ x < s + SLAB_BLOB_SIZE) (hx' : s' ≤ x ∧ x < s' + SLAB_BLOB_SIZE) : s = s' := by
  have hblob : SLAB_BLOB_SIZE = 65536 := rfl
  obtain ⟨q, rfl⟩ := hs
  obtain ⟨q', rfl⟩ := hs'
  rw [hblob] at *
  omega

/-- An object has one class. -/
theorem object_class (ok : HeapOk lay P k A) (hc : c < P.classes) (hc' : c' < P.classes)
    (hx : ObjectInUse k c x) (hx' : ObjectInUse k c' x) : c = c' := by
  obtain ⟨s, hs, hdvd, hmem⟩ := ok.object_slab hc hx
  obtain ⟨s', hs', hdvd', hmem'⟩ := ok.object_slab hc' hx'
  obtain rfl := blob_eq_of_mem hdvd hdvd' hmem hmem'
  exact owned_unique ok.distinct hc hc' hs hs'

end HeapOk

/-! ## Changes of one slab -/

/-- `k` with another record for a cache and another header for a slab. -/
def Kernel.assignSlab (k : Kernel E) (c s : Nat) (kmem : KmemCache) (slab : Slab) : Kernel E :=
  { k with
    caches := Function.update k.caches c kmem
    slabs := Function.update k.slabs s slab }

section Assign

variable {c s : Nat} {kmem : KmemCache} {v : Slab}

theorem assign_cache_of_ne {c' : Nat} (h : c' ≠ c) :
    (k.assignSlab c s kmem v).caches c' = k.caches c' := Function.update_of_ne h _ _

theorem assign_cache_self : (k.assignSlab c s kmem v).caches c = kmem := Function.update_self _ _ _

theorem assign_slab_of_ne {s' : Nat} (h : s' ≠ s) :
    (k.assignSlab c s kmem v).slabs s' = k.slabs s' := Function.update_of_ne h _ _

/-- One cache changes: what it keeps of its flags, all caches keep. -/
theorem assign_field {T : Type} {g : KmemCache → T} (h : g kmem = g (k.caches c)) (c' : Nat) :
    g ((k.assignSlab c s kmem v).caches c') = g (k.caches c') := by
  by_cases heq : c' = c
  · rw [heq, assign_cache_self, h]
  · rw [assign_cache_of_ne heq]

theorem HeapOk.slab_ne (ok : HeapOk lay P k A) (hc : c < P.classes) (hs : s ∈ (k.caches c).slabs)
    {c' s' : Nat} (hc' : c' < P.classes) (hne : c' ≠ c) (hs' : s' ∈ (k.caches c').slabs) :
    s' ≠ s := by
  rintro rfl
  exact hne (owned_unique ok.distinct hc' hc hs' hs)

theorem HeapOk.assign (ok : HeapOk lay P k A) (hc : c < P.classes) (hthaw : P.Thawed c)
    (hs : s ∈ (k.caches c).slabs) (hcache : CacheOk (classSize c) c kmem (Function.update k.slabs s v))
    (hperm : kmem.slabs.Perm (k.caches c).slabs) (hlocked : kmem.locked = (k.caches c).locked)
    (hexp : kmem.expanding = (k.caches c).expanding) :
    HeapOk lay P (k.assignSlab c s kmem v) A := by
  -- the lists of the cache hold the same slabs in another order
  have hblobs : (ownedBlobs (k.assignSlab c s kmem v) P.classes).Perm
      (ownedBlobs k P.classes) := by
    refine ownedBlobs_perm (l := []) hc ?_ fun c' hne => ?_
    · rw [assign_cache_self]
      exact hperm
    · rw [assign_cache_of_ne hne]
  refine ⟨ok.classes_le, ok.inited, ok.brk_ge, ok.brk_le, ok.brk_slot, ?_, ?_, ?_, ?_, ?_, ?_, ?_,
    ok.buddy, ?_, ?_⟩
  · intro c' hc'
    by_cases heq : c' = c
    · subst heq
      rw [assign_cache_self]
      exact hcache
    · rw [assign_cache_of_ne heq]
      refine (ok.cache c' hc').congr fun s' hs' => ?_
      exact assign_slab_of_ne (ok.slab_ne hc hs hc' heq hs')
  · intro c'
    rw [assign_field (g := KmemCache.locked) hlocked]
    exact ok.locked c'
  · intro c'
    rw [assign_field (g := KmemCache.expanding) hexp]
    exact ok.expanding c'
  · exact ok.handed.trans ((hblobs.map _).symm.append_right _)
  · exact hblobs.nodup_iff.mpr ok.distinct
  · intro s' hs'
    exact ok.region s' (hblobs.mem_iff.mp hs')
  · intro a hdvd ha
    refine (ok.slab a hdvd ha).trans ?_
    exact exists_congr fun s' => and_congr_left fun _ => hblobs.mem_iff.symm
  · intro o ho
    by_cases heq : o.1 = c
    · rw [heq, assign_cache_self]
      exact hperm.mem_iff.mpr (heq ▸ ok.homes o ho)
    · rw [assign_cache_of_ne heq]
      exact ok.homes o ho
  · intro q hq
    have kept := ok.frozen q hq
    have hne := hthaw q hq
    refine ⟨kept.cache_lt, kept.pool, ?_, fun s' hs' => ?_⟩
    · rw [assign_cache_of_ne hne]
      exact kept.kmem
    · rw [assign_slab_of_ne (ok.slab_ne hc hs kept.cache_lt hne (kept.slabs_eq ▸ hs'))]
      exact kept.slabs s' hs'

/-- Only the object `i` of the slab `s` comes into use or goes out of use. -/
theorem HeapOk.inUse_assign (ok : HeapOk lay P k A) (hc : c < P.classes)
    (hs : s ∈ (k.caches c).slabs) (hperm : kmem.slabs.Perm (k.caches c).slabs) {i : Nat}
    (hv : ∀ j, j ≠ i → v.bm.bit j = (k.slabs s).bm.bit j) {c' x : Nat} (hc' : c' < P.classes)
    (hne : x ≠ objectAt (classSize c) s i) :
    ObjectInUse (k.assignSlab c s kmem v) c' x ↔ ObjectInUse k c' x := by
  by_cases heq : c' = c
  · subst heq
    rw [ObjectInUse, assign_cache_self]
    exact InUse.update_iff hperm hv hne
  · have hsame : ∀ s' ∈ (k.caches c').slabs, (k.assignSlab c s kmem v).slabs s' = k.slabs s' :=
      fun s' hs' => assign_slab_of_ne (ok.slab_ne hc hs hc' heq hs')
    rw [ObjectInUse, assign_cache_of_ne heq]
    constructor
    · exact fun h => h.congr (fun _ hs' => hs') fun s' hs' => (hsame s' hs').symm
    · exact fun h => h.congr (fun _ hs' => hs') hsame

end Assign

/-! ## Flags of caches -/

namespace HeapOwns

/-- The flags `locked` and `expanding` are no part of the rest of the invariant. -/
theorem reflag (own : HeapOwns lay P k A M) (caches : Nat → KmemCache)
    (heq : ∀ c, caches c = { k.caches c with
      locked := (caches c).locked
      expanding := (caches c).expanding }) :
    HeapOwns lay { P with
      locked := fun c => (caches c).locked
      expanding := fun c => (caches c).expanding } { k with caches := caches } A M := by
  have hslabs : ∀ c, (caches c).slabs = (k.caches c).slabs := by
    intro c
    rw [heq c]
    rfl
  have hblobs : ownedBlobs { k with caches := caches } P.classes = ownedBlobs k P.classes :=
    List.flatMap_congr fun c _ => hslabs c
  have huse : ∀ c x, ObjectInUse k c x → ObjectInUse { k with caches := caches } c x := by
    intro c x hx
    exact hx.congr (fun s hs => (hslabs c).symm ▸ hs) fun _ _ => rfl
  have ok := own.heap
  refine ⟨⟨ok.classes_le, ok.inited, ok.brk_ge, ok.brk_le, ok.brk_slot, ?_, fun _ => rfl, fun _ => rfl, ?_, ?_,
    ?_, ?_, ok.buddy, ?_, ?_⟩, fun p hp => ?_, fun o ho => ?_, own.clients.apart, own.clients.nodup,
    own.clients.slot, own.clients.memFits, own.clients.objectFits⟩
  · intro c hc
    -- the fields that the invariant of a cache reads are those of the old cache
    have hcache := ok.cache c hc
    show CacheOk (classSize c) c (caches c) k.slabs
    rw [heq c]
    exact ⟨hcache.objSize, hcache.allocSize, hcache.low, hcache.parked, hcache.nodup,
      hcache.aligned, hcache.slab, hcache.full, hcache.avail, hcache.free, hcache.total⟩
  · rw [hblobs]
    exact ok.handed
  · rw [hblobs]
    exact ok.distinct
  · rw [hblobs]
    exact ok.region
  · rw [hblobs]
    exact ok.slab
  · intro o ho
    show o.2 ∈ (caches o.1).slabs
    rw [hslabs]
    exact ok.homes o ho
  · intro q hq
    have kept := ok.frozen q hq
    refine ⟨kept.cache_lt, kept.pool, ?_, kept.slabs⟩
    show caches q.cache = _
    rw [heq, kept.kmem]
  · exact (own.clients.mem p hp).imp_right fun hmem => ⟨hmem.1, huse _ _ hmem.2⟩
  · exact ⟨(own.clients.object o ho).1, huse _ _ (own.clients.object o ho).2⟩

theorem setLocked (own : HeapOwns lay P k A M) (c : Nat) (b : Bool) :
    HeapOwns lay { P with locked := Function.update P.locked c b }
      (k.updateCache c (.setLocked b)) A M := by
  have hflags := own.reflag (Function.update k.caches c (.setLocked b (k.caches c))) fun c' => by
      by_cases heq : c' = c
      · rw [heq, Function.update_self]
        rfl
      · rw [Function.update_of_ne heq]
  have hlocked : (fun c' => (Function.update k.caches c (.setLocked b (k.caches c)) c').locked)
      = Function.update P.locked c b := by
    funext c'
    by_cases heq : c' = c
    · rw [heq, Function.update_self, Function.update_self]
      rfl
    · rw [Function.update_of_ne heq, Function.update_of_ne heq, own.heap.locked]
  have hexp : (fun c' => (Function.update k.caches c (.setLocked b (k.caches c)) c').expanding)
      = P.expanding := by
    funext c'
    rw [← own.heap.expanding]
    exact updateCache_field (f := .setLocked b) (g := KmemCache.expanding) (fun _ => rfl) k c c'
  rw [hlocked, hexp] at hflags
  exact hflags

theorem setExpanding (own : HeapOwns lay P k A M) (c : Nat) (b : Bool) :
    HeapOwns lay { P with expanding := Function.update P.expanding c b }
      (k.updateCache c (.setExpanding b)) A M := by
  have hflags := own.reflag (Function.update k.caches c (.setExpanding b (k.caches c))) fun c' => by
      by_cases heq : c' = c
      · rw [heq, Function.update_self]
        rfl
      · rw [Function.update_of_ne heq]
  have hexp : (fun c' =>
        (Function.update k.caches c (.setExpanding b (k.caches c)) c').expanding)
      = Function.update P.expanding c b := by
    funext c'
    by_cases heq : c' = c
    · rw [heq, Function.update_self, Function.update_self]
      rfl
    · rw [Function.update_of_ne heq, Function.update_of_ne heq, own.heap.expanding]
  have hlocked : (fun c' =>
        (Function.update k.caches c (.setExpanding b (k.caches c)) c').locked) = P.locked := by
    funext c'
    rw [← own.heap.locked]
    exact updateCache_field (f := .setExpanding b) (g := KmemCache.locked) (fun _ => rfl) k c c'
  rw [hlocked, hexp] at hflags
  exact hflags

/-- A lock taken and given back. -/
theorem relock {c : Nat} (own : HeapOwns lay { P with locked := Function.update P.locked c true } k A M)
    (hfree : P.locked c = false) : HeapOwns lay P (k.updateCache c (.setLocked false)) A M := by
  have hback := own.setLocked c false
  have hlocked : Function.update (Function.update P.locked c true) c false = P.locked := by
    rw [Function.update_idem, ← hfree, Function.update_eq_self]
  simp only at hback
  rwa [hlocked] at hback

theorem reexpand {c : Nat}
    (own : HeapOwns lay { P with expanding := Function.update P.expanding c true } k A M)
    (hfree : P.expanding c = false) :
    HeapOwns lay P (k.updateCache c (.setExpanding false)) A M := by
  have hback := own.setExpanding c false
  have hexp : Function.update (Function.update P.expanding c true) c false = P.expanding := by
    rw [Function.update_idem, ← hfree, Function.update_eq_self]
  simp only at hback
  rwa [hexp] at hback

/-- Other caches are watched, which are as they have been found. -/
theorem freeze (own : HeapOwns lay P k A M) {F : List Frozen} (hF : ∀ q ∈ F, q.Kept P.classes k) :
    HeapOwns lay { P with frozen := F } k A M := by
  have ok := own.heap
  have cl := own.clients
  exact ⟨⟨ok.classes_le, ok.inited, ok.brk_ge, ok.brk_le, ok.brk_slot, ok.cache, ok.locked,
    ok.expanding, ok.handed, ok.distinct, ok.region, ok.slab, ok.buddy, ok.homes, hF⟩, cl.mem,
    cl.object, cl.apart, cl.nodup, cl.slot, cl.memFits, cl.objectFits⟩

/-- A slab is watched, which stays with its cache. -/
theorem home (own : HeapOwns lay P k A M) {c s : Nat} (hs : s ∈ (k.caches c).slabs) :
    HeapOwns lay { P with homes := (c, s) :: P.homes } k A M := by
  have ok := own.heap
  have cl := own.clients
  refine ⟨⟨ok.classes_le, ok.inited, ok.brk_ge, ok.brk_le, ok.brk_slot, ok.cache, ok.locked,
    ok.expanding, ok.handed, ok.distinct, ok.region, ok.slab, ok.buddy, ?_, ok.frozen⟩, cl.mem,
    cl.object, cl.apart, cl.nodup, cl.slot, cl.memFits, cl.objectFits⟩
  intro o ho
  rcases List.mem_cons.mp ho with rfl | ho
  · exact hs
  · exact ok.homes o ho

/-! ## Objects taken and freed -/

/-- **An object is taken from a cache that has one.** It is used by nobody. -/
theorem take (own : HeapOwns lay P k A M) {c : Nat} (hc : c < P.classes) (hthaw : P.Thawed c)
    (hfree : (k.caches c).free ≠ 0) (warnf : Mem E R Unit) :
    ∃ r k', kmemCacheTake warnf c k = .ok r k' [] ∧ BuddySame k k' ∧ HeapOwns lay P k' A M
      ∧ ObjectInUse k' c r ∧ r ∉ M ∧ ∀ o ∈ P.objects, o.2 ≠ r := by
  have us := own.heap.usable hc
  have ok := own.heap.cache c hc
  obtain ⟨s, rest, hlist, hrun⟩ := kmemCacheTake_apply warnf us ok hfree
  have hpartial : s ∈ (k.caches c).slabsPartial := by
    rw [hlist]
    exact List.mem_cons_self
  have hs : s ∈ (k.caches c).slabs := List.mem_append_right _ hpartial
  have slab := ok.slab s hs
  obtain ⟨hi, hclear⟩ := slab.first (ok.avail s hpartial)
  generalize (k.slabs s).bm.findNextClear 0 = i at hrun hi hclear
  have hperm := KmemCache.taken_perm ok.nodup hpartial (decide ((k.slabs s).free = 1))
  obtain ⟨-, -, -, -, -, hlocked, hexp, -⟩ :=
    KmemCache.taken_same (k.caches c) s (decide ((k.slabs s).free = 1))
  have hbits : ∀ j, j ≠ i → ((k.slabs s).take i).bm.bit j = (k.slabs s).bm.bit j := by
    intro j hj
    rw [slab.take_bit hi, decide_eq_false hj, Bool.or_false]
  have hother : ∀ {c' x : Nat}, c' < P.classes → x ≠ objectAt (classSize c) s i →
      (ObjectInUse (k.takeObject c s i) c' x ↔ ObjectInUse k c' x) := fun hc' hne =>
    own.heap.inUse_assign hc hs hperm hbits hc' hne
  -- an object in use is not the one that is free
  have hnew : ¬ObjectInUse k c (objectAt (classSize c) s i) := by
    intro huse
    rw [ObjectInUse, InUse.object_iff us ok hs hi, hclear] at huse
    cases huse
  have hgot : ObjectInUse (k.takeObject c s i) c (objectAt (classSize c) s i) := by
    refine ⟨s, ?_, i, hi, rfl, ?_⟩
    · have hself : (k.takeObject c s i).caches c
          = (k.caches c).taken s (decide ((k.slabs s).free = 1)) := Function.update_self _ _ _
      rw [hself]
      exact hperm.mem_iff.mpr hs
    · have hself : (k.takeObject c s i).slabs s = (k.slabs s).take i := Function.update_self _ _ _
      rw [hself, slab.take_bit hi, decide_eq_true rfl, Bool.or_true]
  have hfresh : ∀ {c' x : Nat}, c' < P.classes → ObjectInUse k c' x →
      x ≠ objectAt (classSize c) s i := by
    rintro c' x hc' hx rfl
    have hmem := us.object_mem (s := s) hi
    obtain ⟨s', hs', hdvd', hmem'⟩ := own.heap.object_slab hc' hx
    obtain rfl := HeapOk.blob_eq_of_mem (ok.aligned s hs) hdvd' hmem hmem'
    obtain rfl := owned_unique own.heap.distinct hc hc' hs hs'
    exact hnew hx
  refine ⟨_, _, hrun, ⟨rfl, rfl, rfl, rfl, rfl⟩,
    ⟨own.heap.assign hc hthaw hs (ok.take hpartial hi hclear) hperm hlocked hexp, ?_⟩, hgot, ?_, ?_⟩
  · refine ⟨fun p hp => ?_, fun o ho => ?_, own.clients.apart, own.clients.nodup,
    own.clients.slot, own.clients.memFits, own.clients.objectFits⟩
    · exact (own.clients.mem p hp).imp_right fun hmem =>
        ⟨hmem.1, (hother hmem.1 (hfresh hmem.1 hmem.2)).mpr hmem.2⟩
    · have hobj := own.clients.object o ho
      exact ⟨hobj.1, (hother hobj.1 (hfresh hobj.1 hobj.2)).mpr hobj.2⟩
  · intro hp
    rcases own.clients.mem _ hp with hearly | hmem
    · have hregion := own.heap.region s (HeapOk.mem_owned hc hs)
      have hle := (own.heap.brk_le.trans lay.EARLY_HEAP_END_le_BASE).trans hregion.1
      have hlt := hearly.2
      rw [objectAt] at hlt
      omega
    · exact hfresh hmem.1 hmem.2 rfl
  · intro o ho
    have hobj := own.clients.object o ho
    exact hfresh hobj.1 hobj.2

theorem freeNolock (own : HeapOwns lay P k A M) {c x : Nat} (hc : c < P.classes)
    (hthaw : P.Thawed c) (hx : ObjectInUse k c x) (hM : x ∉ M) (hobj : ∀ o ∈ P.objects, o.2 ≠ x)
    (warnf : Mem E R Unit) : ∃ k', kmemCacheFreeNolock warnf c x k = .ok () k' []
      ∧ BuddySame k k' ∧ HeapOwns lay P k' A M := by
  have us := own.heap.usable hc
  have ok := own.heap.cache c hc
  have hregion := own.heap.object_region hc hx
  obtain ⟨s, hs, i, hi, rfl, hbit⟩ := hx
  have slab := ok.slab s hs
  have hmem : objectAt (classSize c) s i < 2 ^ 64 := by
    have hend : Layout.BUDDY_SYSTEM_END < 2 ^ 64 := by
      rw [Layout.BUDDY_SYSTEM_END_eq]
      decide
    exact hregion.2.trans hend
  have hrun := kmemCacheFreeNolock_apply warnf us ok hs hi hbit hmem
  have hperm : ((k.caches c).putBack s (decide ((k.slabs s).free = 0))).slabs.Perm
      (k.caches c).slabs := ok.putBack_perm hs
  obtain ⟨-, -, -, -, -, hlocked, hexp, -⟩ :=
    KmemCache.putBack_same (k.caches c) s (decide ((k.slabs s).free = 0))
  have hbits : ∀ j, j ≠ i → ((k.slabs s).put i).bm.bit j = (k.slabs s).bm.bit j := by
    intro j hj
    rw [slab.put_bit hi, decide_eq_false hj, Bool.not_false, Bool.and_true]
  -- no other object changes hands
  have hother : ∀ {c' x : Nat}, c' < P.classes → x ≠ objectAt (classSize c) s i →
      (ObjectInUse (k.putObject c s i) c' x ↔ ObjectInUse k c' x) := fun hc' hne =>
    own.heap.inUse_assign hc hs hperm hbits hc' hne
  refine ⟨_, hrun, ⟨rfl, rfl, rfl, rfl, rfl⟩,
    ⟨own.heap.assign hc hthaw hs (ok.put hs hi hbit) hperm hlocked hexp, ?_⟩⟩
  refine ⟨fun p hp => ?_, fun o ho => ?_, own.clients.apart, own.clients.nodup,
    own.clients.slot, own.clients.memFits, own.clients.objectFits⟩
  · have hne : p ≠ objectAt (classSize c) s i := by
      rintro rfl
      exact hM hp
    exact (own.clients.mem p hp).imp_right fun hmem => ⟨hmem.1, (hother hmem.1 hne).mpr hmem.2⟩
  · have hmem := own.clients.object o ho
    exact ⟨hmem.1, (hother hmem.1 (hobj o ho)).mpr hmem.2⟩

/-- The slab of an object in use leads to its cache. -/
theorem slab_kmem (own : HeapOwns lay P k A M) {c x : Nat} (hc : c < P.classes)
    (hx : ObjectInUse k c x) : (k.slabs (SLAB_ALIGN_DOWN x)).kmem = c := by
  have hregion := own.heap.object_region hc hx
  obtain ⟨s, hs, i, hi, rfl, hbit⟩ := hx
  have ok := own.heap.cache c hc
  have hend : Layout.BUDDY_SYSTEM_END < 2 ^ 64 := by
    rw [Layout.BUDDY_SYSTEM_END_eq]
    decide
  rw [(own.heap.usable hc).align_down (ok.aligned s hs) hi (hregion.2.trans hend)]
  exact (ok.slab s hs).kmem

/-- **An object in use is freed**, under the lock of its cache or taking it. -/
theorem free (own : HeapOwns lay P k A M) {c x : Nat} (hc : c < P.classes)
    (hthaw : P.Thawed c) (hx : ObjectInUse k c x) (hM : x ∉ M) (hobj : ∀ o ∈ P.objects, o.2 ≠ x)
    (warnf : Mem E R Unit) : ∃ k', kmemCacheFree warnf x k = .ok () k' []
      ∧ BuddySame k k' ∧ HeapOwns lay P k' A M := by
  have hkmem := own.slab_kmem hc hx
  by_cases hlocked : (k.caches c).locked = true
  · obtain ⟨k', hrun, hsame, hown⟩ := own.freeNolock hc hthaw hx hM hobj warnf
    refine ⟨k', ?_, hsame, hown⟩
    rw [kmemCacheFree, read_bind_apply, hkmem, if_pos hlocked, hrun]
  · have hunlocked : (k.caches c).locked = false := Bool.eq_false_iff.mpr hlocked
    have hP : P.locked c = false := by rw [← own.heap.locked, hunlocked]
    have hx' : ObjectInUse (k.updateCache c (.setLocked true)) c x := by
      refine hx.congr (fun s hs => ?_) fun _ _ => rfl
      rw [updateCache_self]
      exact hs
    obtain ⟨k₁, hrun, hsame, hown⟩ :=
      (own.setLocked c true).freeNolock hc hthaw hx' hM hobj warnf
    have hheld : (k₁.caches c).locked = true := by
      rw [hown.heap.locked]
      exact Function.update_self _ _ _
    refine ⟨_, ?_, ?_, hown.relock hP⟩
    · rw [kmemCacheFree, read_bind_apply, hkmem, if_neg hlocked, bind_ok (lockCache_apply hunlocked),
        Outcome.after_nil, bind_ok hrun, Outcome.after_nil, unlockCache, read_bind_apply,
        if_pos hheld, modify_apply]
    · exact ⟨hsame.freeList, hsame.memBlock, hsame.freePages, hsame.locked, hsame.pages⟩

end HeapOwns

/-! ## New slabs -/

/-- `page->flags |= PM_SLAB`. -/
def Page.markSlab (page : Page) : Page := { page with flags := page.flags ||| PM_SLAB }

theorem markSlab_slab (page : Page) : page.markSlab.flags &&& PM_SLAB ≠ 0 := by
  have habsorb : (page.flags ||| PM_SLAB) &&& PM_SLAB = PM_SLAB := by
    ext i hi
    simp only [BitVec.getElem_and, BitVec.getElem_or]
    cases page.flags[i] <;> cases PM_SLAB[i] <;> rfl
  show (page.flags ||| PM_SLAB) &&& PM_SLAB ≠ 0
  rw [habsorb]
  decide

theorem markSlab_buddy (page : Page) : page.markSlab.flags &&& PM_BUDDY = page.flags &&& PM_BUDDY := by
  have hdistrib : (page.flags ||| PM_SLAB) &&& PM_BUDDY
      = (page.flags &&& PM_BUDDY) ||| (PM_SLAB &&& PM_BUDDY) := by
    ext i hi
    simp only [BitVec.getElem_and, BitVec.getElem_or]
    cases page.flags[i] <;> cases PM_SLAB[i] <;> cases PM_BUDDY[i] <;> rfl
  have hzero : PM_SLAB &&& PM_BUDDY = 0 := by decide
  show (page.flags ||| PM_SLAB) &&& PM_BUDDY = _
  rw [hdistrib, hzero]
  exact BitVec.or_zero

/-- The loop of `slab_init` marks the pages from `p` on. -/
theorem slabInitPages_apply {n p : Nat} (hp : PAGE_SIZE ∣ p) (hstart : PM_START ≤ p)
    (hend : p + n * PAGE_SIZE ≤ PM_END) (k : Kernel E) :
    ∃ pages, (slabInitPages n p : Mem E R Unit) k = .ok () { k with pages := pages } []
      ∧ ∀ a, PAGE_SIZE ∣ a → PM_START ≤ a → ({ k with pages := pages } : Kernel E).page a
        = if p ≤ a ∧ a < p + n * PAGE_SIZE then (k.page a).markSlab else k.page a := by
  have hpos : 0 < PAGE_SIZE := by decide
  induction n generalizing p k with
  | zero =>
      refine ⟨k.pages, rfl, fun a _ _ => ?_⟩
      rw [if_neg (by omega)]
  | succ n ih =>
      rw [Nat.succ_mul] at hend
      obtain ⟨pages, hrun, hpages⟩ := ih (hp.add (dvd_refl _)) (by omega) (by omega)
        (k.setPage p (k.page p).markSlab)
      refine ⟨pages, ?_, fun a hdvd ha => ?_⟩
      · have hmark := modifyPage_apply (R := R) hstart (by omega) Page.markSlab k
        rw [slabInitPages]
        show (modifyPage p Page.markSlab >>= fun _ => slabInitPages n (p + PAGE_SIZE)) k = _
        rw [bind_ok hmark, Outcome.after_nil, hrun]
        rfl
      · refine (hpages a hdvd ha).trans ?_
        by_cases heq : a = p
        · subst heq
          rw [if_neg (by omega), if_pos (by rw [Nat.succ_mul]; omega), page_setPage_self]
        · rw [page_setPage_of_ne k _ hstart ha hp hdvd heq]
          -- the page after `p` is a page away
          have hnext : p ≤ a → p + PAGE_SIZE ≤ a := by
            intro hle
            obtain ⟨x, rfl⟩ := hp
            obtain ⟨y, rfl⟩ := hdvd
            have hxy : x < y := by
              refine lt_of_le_of_ne (Nat.le_of_mul_le_mul_left hle hpos) ?_
              rintro rfl
              exact heq rfl
            rw [← Nat.mul_succ]
            exact Nat.mul_le_mul_left _ hxy
          have hiff : (p + PAGE_SIZE ≤ a ∧ a < p + PAGE_SIZE + n * PAGE_SIZE)
              ↔ (p ≤ a ∧ a < p + (n + 1) * PAGE_SIZE) := by
            rw [Nat.succ_mul]
            constructor
            · rintro ⟨h₁, h₂⟩
              omega
            · rintro ⟨h₁, h₂⟩
              have := hnext h₁
              omega
          simp only [hiff]

/-- `k` with a new slab of the cache `c`, counted, and these pages. -/
def Kernel.addSlab (k : Kernel E) (c blob : Nat) (pages : Nat → Page) : Kernel E :=
  { k with
    pages := pages
    caches := Function.update k.caches c { k.caches c with
      slabsPartial := (k.caches c).slabsPartial ++ [blob]
      total := (k.caches c).total + (newSlab c (k.caches c)).total
      free := (k.caches c).free + (newSlab c (k.caches c)).free }
    slabs := Function.update k.slabs blob (newSlab c (k.caches c)) }

theorem slabInit_bind {α : Type} {c blob : Nat} {pages : Nat → Page}
    (hpages : (slabInitPages (SLAB_BLOB_SIZE / PAGE_SIZE) blob : Mem E R Unit) k
      = .ok () { k with pages := pages } []) (f : Unit → Mem E R α) :
    (slabInit c blob >>= fun _ => countSlab c blob >>= f) k = f () (k.addSlab c blob pages) := by
  have hinit : (slabInit c blob : Mem E R Unit) k = .ok () { k with
      pages := pages
      caches := Function.update k.caches c { k.caches c with
        slabsPartial := (k.caches c).slabsPartial ++ [blob] }
      slabs := Function.update k.slabs blob (newSlab c (k.caches c)) } [] := by
    rw [slabInit, bind_ok hpages, Outcome.after_nil, modify_bind_apply, modify_apply]
    rfl
  rw [bind_ok hinit, Outcome.after_nil, countSlab, modify_bind_apply]
  simp only [Kernel.updateCache, Kernel.addSlab, Function.update_self, Function.update_idem]

section AddSlab

variable {S : List Entry} {c blob : Nat} {pages : Nat → Page}

theorem addSlab_cache_self : (k.addSlab c blob pages).caches c = { k.caches c with
    slabsPartial := (k.caches c).slabsPartial ++ [blob]
    total := (k.caches c).total + (newSlab c (k.caches c)).total
    free := (k.caches c).free + (newSlab c (k.caches c)).free } := Function.update_self _ _ _

theorem addSlab_cache_of_ne {c' : Nat} (h : c' ≠ c) :
    (k.addSlab c blob pages).caches c' = k.caches c' := Function.update_of_ne h _ _

theorem addSlab_slab_of_ne {s : Nat} (h : s ≠ blob) :
    (k.addSlab c blob pages).slabs s = k.slabs s := Function.update_of_ne h _ _

/-- Another slab of the cache is no change to its flags. -/
theorem addSlab_field {T : Type} {g : KmemCache → T}
    (h : ∀ kmem l t f, g { kmem with slabsPartial := l, total := t, free := f } = g kmem)
    (c' : Nat) : g ((k.addSlab c blob pages).caches c') = g (k.caches c') := by
  by_cases heq : c' = c
  · rw [heq, addSlab_cache_self]
    exact h _ _ _ _
  · rw [addSlab_cache_of_ne heq]

theorem addSlab_slabs : ((k.addSlab c blob pages).caches c).slabs = (k.caches c).slabs ++ [blob] := by
  rw [addSlab_cache_self]
  exact (List.append_assoc _ _ _).symm

theorem addSlab_blobs {n : Nat} (hc : c < n) :
    (ownedBlobs (k.addSlab c blob pages) n).Perm (blob :: ownedBlobs k n) := by
  refine ownedBlobs_perm (l := [blob]) hc ?_ fun c' h => by rw [addSlab_cache_of_ne h]
  rw [addSlab_slabs]
  exact List.perm_append_comm

/-- A block that the buddy system hands out is no slab yet. -/
theorem HeapOk.new_blob (ok : HeapOk lay P k A)
    (inv : BuddyInv lay.BUDDY_SYSTEM_BASE Layout.BUDDY_SYSTEM_END k ((blob, SLAB_ORDER) :: A) S) :
    blob ∉ ownedBlobs k P.classes := by
  intro hblob
  have hin : (blob, SLAB_ORDER) ∈ A :=
    ok.handed.mem_iff.mpr (List.mem_append_left _ (List.mem_map_of_mem hblob))
  exact (List.nodup_cons.mp (List.nodup_append.mp inv.records.tiles.nodup).2.1).1 hin

/-- Objects in use stay so. -/
theorem HeapOk.inUse_addSlab (hnot : blob ∉ ownedBlobs k P.classes) {c' x : Nat}
    (hc' : c' < P.classes) (hx : ObjectInUse k c' x) :
    ObjectInUse (k.addSlab c blob pages) c' x := by
  have hne : ∀ s ∈ (k.caches c').slabs, s ≠ blob := by
    rintro s hs rfl
    exact hnot (HeapOk.mem_owned hc' hs)
  refine hx.congr (fun s hs => ?_) fun s hs => addSlab_slab_of_ne (hne s hs)
  by_cases heq : c' = c
  · subst heq
    rw [addSlab_slabs]
    exact List.mem_append_left _ hs
  · rw [addSlab_cache_of_ne heq]
    exact hs

theorem HeapOk.cache_addSlab (ok : HeapOk lay P k A) (hnot : blob ∉ ownedBlobs k P.classes)
    (hdvd : SLAB_BLOB_SIZE ∣ blob) {c' : Nat} (hc' : c' < P.classes) :
    CacheOk (classSize c') c' ((k.addSlab c blob pages).caches c')
      (k.addSlab c blob pages).slabs := by
  have hcache := ok.cache c' hc'
  by_cases heq : c' = c
  · subst heq
    rw [addSlab_cache_self]
    refine hcache.grow (ok.usable hc') (fun hs => hnot (HeapOk.mem_owned hc' hs)) hdvd
      (SlabOk.new _ _ hcache.objSize hcache.allocSize) (SlabOk.free_newSlab _ hcache.allocSize)
  · rw [addSlab_cache_of_ne heq]
    refine hcache.congr fun s hs => addSlab_slab_of_ne ?_
    rintro rfl
    exact hnot (HeapOk.mem_owned hc' hs)

/-- **A block of the order of a slab becomes a slab** of the cache `c`. -/
theorem addSlab_owns (own : HeapOwns lay P k A M)
    (inv : BuddyInv lay.BUDDY_SYSTEM_BASE Layout.BUDDY_SYSTEM_END k ((blob, SLAB_ORDER) :: A) S)
    (hc : c < P.classes) (hthaw : P.Thawed c) (hpages : ∀ a, PAGE_SIZE ∣ a → PM_START ≤ a →
      ({ k with pages := pages } : Kernel E).page a
        = if blob ≤ a ∧ a < blob + SLAB_BLOB_SIZE then (k.page a).markSlab else k.page a) :
    HeapOwns lay P (k.addSlab c blob pages) ((blob, SLAB_ORDER) :: A) M := by
  have ok := own.heap
  have hmem : (blob, SLAB_ORDER) ∈ (entries k ++ S).map Entry.block ++ (blob, SLAB_ORDER) :: A := by
    simp
  have hdvd : SLAB_BLOB_SIZE ∣ blob := inv.records.aligned hmem
  have hbounds : lay.BUDDY_SYSTEM_BASE ≤ blob ∧ blob + SLAB_BLOB_SIZE ≤ Layout.BUDDY_SYSTEM_END :=
    inv.records.tiles.bounds hmem
  have hnot := ok.new_blob inv
  have hblobs : (ownedBlobs (k.addSlab c blob pages) P.classes).Perm
      (blob :: ownedBlobs k P.classes) := addSlab_blobs hc
  have hpage : ∀ a, (k.addSlab c blob pages).page a = ({ k with pages := pages } : Kernel E).page a :=
    fun _ => rfl
  refine ⟨⟨ok.classes_le, ok.inited, ok.brk_ge, ok.brk_le, ok.brk_slot,
      fun c' hc' => ok.cache_addSlab hnot hdvd hc', fun c' => ?_, fun c' => ?_, ?_, ?_, ?_, ?_, ?_,
      fun o ho => ?_, fun q hq => ?_⟩,
    fun p hp => ?_, fun o ho => ?_, own.clients.apart, own.clients.nodup,
    own.clients.slot, own.clients.memFits, own.clients.objectFits⟩
  · rw [addSlab_field (g := KmemCache.locked) fun _ _ _ _ => rfl]
    exact ok.locked c'
  · rw [addSlab_field (g := KmemCache.expanding) fun _ _ _ _ => rfl]
    exact ok.expanding c'
  · exact (ok.handed.cons _).trans
      ((hblobs.map fun s => (s, SLAB_ORDER)).symm.append_right P.blocks)
  · exact hblobs.nodup_iff.mpr (List.nodup_cons.mpr ⟨hnot, ok.distinct⟩)
  · intro s hs
    rcases List.mem_cons.mp (hblobs.mem_iff.mp hs) with rfl | hs
    · exact hbounds
    · exact ok.region s hs
  · -- the marked pages are those of the old slabs and of the new one
    intro a ha hstart
    have hor : (∃ s ∈ ownedBlobs (k.addSlab c blob pages) P.classes, s ≤ a ∧ a < s + SLAB_BLOB_SIZE)
        ↔ (blob ≤ a ∧ a < blob + SLAB_BLOB_SIZE)
          ∨ ∃ s ∈ ownedBlobs k P.classes, s ≤ a ∧ a < s + SLAB_BLOB_SIZE := by
      simp only [hblobs.mem_iff, List.mem_cons, exists_eq_or_imp]
    rw [hpage, hpages a ha hstart, hor]
    split
    · rename_i hin
      exact iff_of_true (markSlab_slab _) (Or.inl hin)
    · rename_i hout
      rw [ok.slab a ha hstart]
      exact ⟨Or.inr, fun h => h.resolve_left hout⟩
  · intro a ha
    rw [hpage, hpages a ha.1 (lay.region.bounds ha).1]
    split
    · rw [markSlab_buddy]
      exact ok.buddy a ha
    · exact ok.buddy a ha
  · by_cases heq : o.1 = c
    · rw [heq, addSlab_slabs]
      exact List.mem_append_left _ (heq ▸ ok.homes o ho)
    · rw [addSlab_cache_of_ne heq]
      exact ok.homes o ho
  · have kept := ok.frozen q hq
    have hne := hthaw q hq
    refine ⟨kept.cache_lt, kept.pool, ?_, fun s hs => ?_⟩
    · rw [addSlab_cache_of_ne hne]
      exact kept.kmem
    · rw [addSlab_slab_of_ne]
      · exact kept.slabs s hs
      · rintro rfl
        exact hnot (HeapOk.mem_owned kept.cache_lt (kept.slabs_eq ▸ hs))
  · exact (own.clients.mem p hp).imp_right fun h => ⟨h.1, HeapOk.inUse_addSlab hnot h.1 h.2⟩
  · have hobj := own.clients.object o ho
    exact ⟨hobj.1, HeapOk.inUse_addSlab hnot hobj.1 hobj.2⟩

/-- `slab_init` of a block that the buddy system has just handed out, and the count of its
objects. -/
theorem slabInit_good (own : HeapOwns lay P k A (ptrs k S))
    (inv : BuddyInv lay.BUDDY_SYSTEM_BASE Layout.BUDDY_SYSTEM_END k ((blob, SLAB_ORDER) :: A) S)
    (hc : c < P.classes) (hthaw : P.Thawed c) : ∃ pages, SLAB_BLOB_SIZE ∣ blob
      ∧ Good (heapContract E lay P) lay.BUDDY_SYSTEM_BASE Layout.BUDDY_SYSTEM_END
          (k.addSlab c blob pages) ((blob, SLAB_ORDER) :: A) S
      ∧ ∀ {α : Type} (f : Unit → Mem E R α),
          (slabInit c blob >>= fun _ => countSlab c blob >>= f) k
            = f () (k.addSlab c blob pages) := by
  have hmem : (blob, SLAB_ORDER) ∈ (entries k ++ S).map Entry.block ++ (blob, SLAB_ORDER) :: A := by
    simp
  have hdvd : SLAB_BLOB_SIZE ∣ blob := inv.records.aligned hmem
  have hbounds : lay.BUDDY_SYSTEM_BASE ≤ blob ∧ blob + SLAB_BLOB_SIZE ≤ Layout.BUDDY_SYSTEM_END :=
    inv.records.tiles.bounds hmem
  have hcount : SLAB_BLOB_SIZE / PAGE_SIZE * PAGE_SIZE = SLAB_BLOB_SIZE := rfl
  obtain ⟨pages, hrun, hpages⟩ := slabInitPages_apply (R := R) (n := SLAB_BLOB_SIZE / PAGE_SIZE)
    (Dvd.dvd.trans (by decide) hdvd) (lay.region.start_le.trans hbounds.1)
    (by rw [hcount]; exact hbounds.2.trans lay.region.le_end) k
  rw [hcount] at hpages
  refine ⟨pages, hdvd, ⟨?_, addSlab_owns own inv hc hthaw hpages⟩, fun f => slabInit_bind hrun f⟩
  refine inv.of_pages (fun a ha => ?_) rfl rfl rfl
  have hpage : (k.addSlab c blob pages).page a = ({ k with pages := pages } : Kernel E).page a := rfl
  rw [hpage, hpages a ha.1 (lay.region.bounds ha).1]
  split
  · exact ⟨rfl, rfl⟩
  · exact ⟨rfl, rfl⟩

end AddSlab

/-! ## The heap and the buddy system -/

theorem Good.of_owns {S : List Entry} {P' : Holding} (good : Good (heapContract E lay P)
      lay.BUDDY_SYSTEM_BASE Layout.BUDDY_SYSTEM_END k A S) (same : BuddySame k k')
    (own : HeapOwns lay P' k' A (ptrs k S)) :
    Good (heapContract E lay P') lay.BUDDY_SYSTEM_BASE Layout.BUDDY_SYSTEM_END k' A S := by
  refine ⟨good.inv.of_same same, ?_⟩
  rw [ptrs_congr same]
  exact own

end NoobKernel.Mm
