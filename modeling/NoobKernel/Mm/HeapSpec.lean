import NoobKernel.Mm.HeapInv

set_option autoImplicit false

/-! # What the functions of the heap do

`kmem_cache_alloc` and `kmem_cache_free` keep the heap as it is for the buddy system, so they meet
its obligations for the allocator of its own `mem_block`s. An allocation from `split_blocks` may
enter the buddy system again, with a block off its list; this is safe unless the block and its buddy
would be merged (`Reentry.Collides`). The nesting ends after two levels, since a cache that expands
is not expanded again.
-/

namespace NoobKernel.Mm

open Misc Exec
open Dyadic hiding Mem

variable {E R : Type} {lay : Layout} {P : Holding} {k k' : Kernel E} {A : List Block}
  {S : List Entry} {pol : Policy R Fault} {ops : MetaOps E R} {c : Nat}

/-- The buddy system of a layout, with the heap around it. -/
abbrev HeapGood (lay : Layout) (P : Holding) (k : Kernel E) (A : List Block) (S : List Entry) : Prop :=
  Good (heapContract E lay P) lay.BUDDY_SYSTEM_BASE Layout.BUDDY_SYSTEM_END k A S

/-- The obligations of an allocator of `mem_block`s with the heap around it. -/
abbrev HeapOps (pol : Policy R Fault) (lay : Layout) (P : Holding) (S : List Entry)
    (ops : MetaOps E R) : Prop :=
  OpsSpec pol (heapContract E lay P) lay.BUDDY_SYSTEM_BASE Layout.BUDDY_SYSTEM_END S ops

/-- The lock of the buddy system is as it was, and the blocks handed out before are still so. -/
def Kept (lay : Layout) (P : Holding) (S : List Entry) (k : Kernel E) (A : List Block)
    (k' : Kernel E) : Prop :=
  k'.buddyLocked = k.buddyLocked ∧ ∃ A', A ⊆ A' ∧ HeapGood lay P k' A' S

/-- The object is new: neither the buddy system nor a user of the heap has it. -/
structure FreshObject (P : Holding) (S : List Entry) (c r : Nat) (k : Kernel E) : Prop where
  inUse : ObjectInUse k c r
  mem : r ∉ ptrs k S
  objects : ∀ o ∈ P.objects, o.2 ≠ r

/-! ## Allocating from a cache -/

/-- **A cache that is short of objects** gets a slab, if the buddy system has one. Up to then the
caches `F` stay as they are (`k₁`). -/
theorem kmemCacheRefill_grows {F : List Frozen} (hc : c < P.classes) (hthaw : P.Thawed c)
    (good : HeapGood lay P k A S) (hexp : P.expanding c = false)
    (hF : ∀ q ∈ F, q.Kept P.classes k) (hsub : P.frozen ⊆ F)
    (spec : HeapOps pol lay
      { P with frozen := F, expanding := Function.update P.expanding c true } S ops)
    (hguard : k.buddyFreeList SLAB_ORDER ≠ [] ∨ Guard A S SLAB_ORDER) :
    Yields pol (kmemCacheRefill quiet ops c k) fun refilled k' => Kept lay P S k A k'
      ∧ (refilled = false → (k'.caches c).free = 0)
      ∧ ∃ k₁ A₁, HeapOwns lay { P with frozen := F } k₁ A₁ (ptrs k₁ S)
        ∧ (k' = k₁ ∨ ∃ blob pages, SLAB_BLOB_SIZE ∣ blob ∧ blob ∉ ownedBlobs k₁ P.classes
          ∧ k' = k₁.addSlab c blob pages) := by
  have hparked := (good.owns.heap.cache c hc).parked
  have hsame : BuddySame k (k.updateCache c (.setExpanding true)) := ⟨rfl, rfl, rfl, rfl, rfl⟩
  have hgood := good.of_owns hsame ((good.owns.freeze hF).setExpanding c true)
  rw [kmemCacheRefill, read_bind_apply, hparked]
  show Yields pol ((modify _ >>= _ : Mem E R Bool) k) _
  rw [modify_bind_apply]
  -- while the buddy system works, the flag `expanding` keeps the cache out of here
  refine Yields.bind (buddyAlloc_spec lay.region spec (by decide) (by decide) hgood
    (by rw [size2order_slab]; exact hguard)) ?_
  rintro r k₁ ⟨hlocked, A₁, hgrows, howns, hres⟩
  show Yields pol ((modify _ >>= _ : Mem E R Bool) k₁) _
  rw [modify_bind_apply]
  have hsame₁ : BuddySame k₁ (k₁.updateCache c (.setExpanding false)) := ⟨rfl, rfl, rfl, rfl, rfl⟩
  have hfrozen := howns.reexpand (P := { P with frozen := F }) hexp
  rw [← ptrs_congr hsame₁] at hfrozen
  have howns₁ := hfrozen.freeze (F := P.frozen) fun q hq => hfrozen.heap.frozen q (hsub hq)
  rcases hres with ⟨rfl, hinv, -⟩ | ⟨hr, hinv⟩
  · have hkept : Kept lay P S k A (k₁.updateCache c (.setExpanding false)) :=
      ⟨hlocked, A₁, hgrows, hinv.of_same hsame₁, howns₁⟩
    rw [if_pos rfl, read_bind_apply]
    split
    · exact Yields.pure ⟨hkept, fun h => (Bool.false_ne_true h.symm).elim, _, _, hfrozen, Or.inl rfl⟩
    · rename_i hfree
      exact Yields.bind (Yields.pure ⟨hkept, fun _ => Nat.eq_zero_of_not_pos hfree, _, _, hfrozen,
        Or.inl rfl⟩) fun _ _ h => Yields.pure h
  · rw [if_neg hr]
    rw [size2order_slab] at hinv
    have hinv₁ := hinv.of_same hsame₁
    obtain ⟨pages, hdvd, hgood₂, hrun⟩ := slabInit_good (R := R) howns₁ hinv₁ hc hthaw
    rw [hrun]
    exact Yields.pure ⟨⟨hlocked, _, List.subset_cons_of_subset _ hgrows, hgood₂⟩,
      fun h => (Bool.false_ne_true h.symm).elim, _, _, hfrozen,
      Or.inr ⟨r, pages, hdvd, howns₁.heap.new_blob hinv₁, rfl⟩⟩

theorem kmemCacheRefill_spec (hc : c < P.classes) (hthaw : P.Thawed c) (good : HeapGood lay P k A S)
    (hexp : P.expanding c = false)
    (spec : HeapOps pol lay { P with expanding := Function.update P.expanding c true } S ops)
    (hguard : k.buddyFreeList SLAB_ORDER ≠ [] ∨ Guard A S SLAB_ORDER) :
    Yields pol (kmemCacheRefill quiet ops c k) fun _ k' => Kept lay P S k A k' :=
  (kmemCacheRefill_grows hc hthaw good hexp good.owns.heap.frozen (List.Subset.refl _) spec
    hguard).mono fun _ _ h => h.1

theorem Kept.refl (good : HeapGood lay P k A S) : Kept lay P S k A k :=
  ⟨rfl, A, List.Subset.refl A, good⟩

theorem Kept.trans {k₁ k₂ : Kernel E} {A₁ : List Block} (hlocked : k₁.buddyLocked = k.buddyLocked)
    (hsub : A ⊆ A₁) (h : Kept lay P S k₁ A₁ k₂) : Kept lay P S k A k₂ := by
  obtain ⟨hlocked₂, A₂, hsub₂, hgood⟩ := h
  exact ⟨hlocked₂.trans hlocked, A₂, List.Subset.trans hsub hsub₂, hgood⟩

/-- The result of an allocation from a cache. -/
def Served (lay : Layout) (P : Holding) (S : List Entry) (c : Nat) (k : Kernel E) (A : List Block)
    (r : Nat) (k' : Kernel E) : Prop :=
  Kept lay P S k A k' ∧ (r ≠ 0 → FreshObject P S c r k')

theorem kmemCacheTake_spec (hc : c < P.classes) (hthaw : P.Thawed c) (good : HeapGood lay P k A S) :
    Yields pol (kmemCacheTake quiet c k) (Served lay P S c k A) := by
  by_cases hfree : (k.caches c).free = 0
  · rw [kmemCacheTake_empty hfree]
    exact Yields.bind (Yields.pure (Kept.refl good)) fun _ _ h =>
      Yields.pure ⟨h, fun hne => absurd rfl hne⟩
  · obtain ⟨r, k₁, hrun, hsame, howns, huse, hmem, hobj⟩ := good.owns.take hc hthaw hfree quiet
    rw [hrun]
    have hgood := good.of_owns hsame howns
    refine Yields.ok ⟨⟨hsame.locked, A, List.Subset.refl A, hgood⟩, fun _ => ⟨huse, ?_, hobj⟩⟩
    rw [ptrs_congr hsame]
    exact hmem

/-- **`kmem_cache_alloc_nolock`.** The buddy system is entered only if the cache is not expanding
and short of objects. -/
theorem kmemCacheAllocNolock_spec (hc : c < P.classes) (hthaw : P.Thawed c)
    (good : HeapGood lay P k A S)
    (hrefill : P.expanding c = false → (k.caches c).free < (k.caches c).low →
      HeapOps pol lay { P with expanding := Function.update P.expanding c true } S ops
        ∧ (k.buddyFreeList SLAB_ORDER ≠ [] ∨ Guard A S SLAB_ORDER)) :
    Yields pol (kmemCacheAllocNolock quiet ops c k) (Served lay P S c k A) := by
  rw [kmemCacheAllocNolock, read_bind_apply]
  split
  · rename_i hshort
    have hexp : P.expanding c = false := by
      rw [← good.owns.heap.expanding]
      exact hshort.1
    obtain ⟨spec, hguard⟩ := hrefill hexp hshort.2
    refine Yields.bind (kmemCacheRefill_spec hc hthaw good hexp spec hguard) ?_
    rintro refilled k₁ ⟨hlocked, A₁, hsub, hgood⟩
    split
    · refine (kmemCacheTake_spec hc hthaw hgood).mono ?_
      rintro r k₂ ⟨hkept, hfresh⟩
      exact ⟨Kept.trans hlocked hsub hkept, hfresh⟩
    · exact Yields.pure ⟨⟨hlocked, A₁, hsub, hgood⟩, fun hne => absurd rfl hne⟩
  · exact kmemCacheTake_spec hc hthaw good

/-- **`kmem_cache_alloc`**, under the lock of the cache or taking it. -/
theorem kmemCacheAlloc_spec (hc : c < P.classes) (hthaw : P.Thawed c) (good : HeapGood lay P k A S)
    (hrefill : P.expanding c = false → (k.caches c).free < (k.caches c).low →
      (∀ locked, HeapOps pol lay
          { P with locked := locked, expanding := Function.update P.expanding c true } S ops)
        ∧ (k.buddyFreeList SLAB_ORDER ≠ [] ∨ Guard A S SLAB_ORDER)) :
    Yields pol (kmemCacheAlloc quiet ops (some c) k) (Served lay P S c k A) := by
  rw [kmemCacheAlloc, read_bind_apply]
  split
  · exact kmemCacheAllocNolock_spec hc hthaw good fun hexp hlow =>
      ⟨(hrefill hexp hlow).1 P.locked, (hrefill hexp hlow).2⟩
  · -- the lock is free: take it, allocate as its holder, and find it held at the end
    rename_i hunlocked
    rw [Bool.not_eq_true] at hunlocked
    have hP : P.locked c = false := by rw [← good.owns.heap.locked, hunlocked]
    have hsame : BuddySame k (k.updateCache c (.setLocked true)) := ⟨rfl, rfl, rfl, rfl, rfl⟩
    have hgood := good.of_owns hsame (good.owns.setLocked c true)
    rw [bind_ok (lockCache_apply hunlocked), Outcome.after_nil]
    refine Yields.bind (kmemCacheAllocNolock_spec
      (P := { P with locked := Function.update P.locked c true }) hc hthaw hgood fun hexp hlow => ?_) ?_
    · rw [updateCache_self] at hlow
      exact ⟨(hrefill hexp hlow).1 _, (hrefill hexp hlow).2⟩
    · rintro r k₁ ⟨⟨hlocked, A₁, hsub, hgood₁⟩, hfresh⟩
      have hheld : (k₁.caches c).locked = true := by
        rw [hgood₁.owns.heap.locked]
        exact Function.update_self _ _ _
      have hsame₁ : BuddySame k₁ (k₁.updateCache c (.setLocked false)) :=
        ⟨rfl, rfl, rfl, rfl, rfl⟩
      have hgood₂ := hgood₁.of_owns hsame₁ (hgood₁.owns.relock hP)
      have hunlock : (unlockCache c : Mem E R Unit) k₁
          = .ok () (k₁.updateCache c (.setLocked false)) [] := by
        rw [unlockCache, read_bind_apply, if_pos hheld, modify_apply]
      rw [bind_ok hunlock, Outcome.after_nil]
      refine Yields.pure ⟨⟨hlocked, A₁, hsub, hgood₂⟩, fun hne => ?_⟩
      obtain ⟨huse, hmem, hobj⟩ := hfresh hne
      refine ⟨huse.congr (fun s hs => ?_) fun _ _ => rfl, ?_, hobj⟩
      · rw [updateCache_self]
        exact hs
      · rw [ptrs_congr hsame₁]
        exact hmem

/-! ## Routing of `kfree` -/

theorem region_lt {a : Nat} (ha : a < Layout.BUDDY_SYSTEM_END) : a < 2 ^ 64 := by
  have hend : Layout.BUDDY_SYSTEM_END < 2 ^ 64 := by
    rw [Layout.BUDDY_SYSTEM_END_eq]
    decide
  exact ha.trans hend

theorem alignDown_page {x : Nat} (hx : x < 2 ^ 64) :
    PAGE_SIZE ∣ ALIGN_DOWN x PAGE_SIZE ∧ ALIGN_DOWN x PAGE_SIZE ≤ x
      ∧ ∀ b, PAGE_SIZE ∣ b → b ≤ x → b ≤ ALIGN_DOWN x PAGE_SIZE := by
  have hpage : PAGE_SIZE = 2 ^ 12 := rfl
  rw [hpage, ALIGN_DOWN_two_pow hx (by decide)]
  refine ⟨Nat.dvd_mul_left _ _, Nat.div_mul_le_self _ _, ?_⟩
  rintro b ⟨q, rfl⟩ hle
  rw [Nat.mul_comm]
  exact Nat.mul_le_mul_right _ ((Nat.le_div_iff_mul_le (by decide)).mpr (by rwa [Nat.mul_comm]))

/-- The page of an object in use is a page of the buddy system and of a slab. -/
theorem HeapOk.object_page (ok : HeapOk lay P k A) (hc : c < P.classes) {x : Nat}
    (hx : ObjectInUse k c x) :
    PageIn lay.BUDDY_SYSTEM_BASE Layout.BUDDY_SYSTEM_END (ALIGN_DOWN x PAGE_SIZE)
      ∧ (k.page (ALIGN_DOWN x PAGE_SIZE)).flags &&& PM_SLAB ≠ 0 := by
  obtain ⟨s, hs, hdvd, hle, hlt⟩ := ok.object_slab hc hx
  have hregion := ok.region s (HeapOk.mem_owned hc hs)
  have hend : x < Layout.BUDDY_SYSTEM_END := Nat.lt_of_lt_of_le hlt hregion.2
  obtain ⟨hpage, hdown, hgreatest⟩ := alignDown_page (region_lt hend)
  have hslab := hgreatest s (Dvd.dvd.trans (by decide) hdvd) hle
  have hin : PageIn lay.BUDDY_SYSTEM_BASE Layout.BUDDY_SYSTEM_END (ALIGN_DOWN x PAGE_SIZE) :=
    ⟨hpage, hregion.1.trans hslab, Nat.lt_of_le_of_lt hdown hend⟩
  refine ⟨hin, (ok.slab _ hpage (lay.region.bounds hin).1).mpr ⟨s, HeapOk.mem_owned hc hs, hslab, ?_⟩⟩
  exact Nat.lt_of_le_of_lt hdown hlt

/-- **`kfree` of an object in use** goes to the slab allocator. -/
theorem HeapOk.kfree_object (ok : HeapOk lay P k A) (hc : c < P.classes) {x : Nat}
    (hx : ObjectInUse k c x) (warnf : Mem E R Unit) (ops : MetaOps E R) :
    kfree warnf ops x k = kmemCacheFree warnf x k := by
  obtain ⟨hin, hslab⟩ := ok.object_page hc hx
  have hbounds := lay.region.bounds hin
  rw [kfree, read_bind_apply, addr2index_eq hbounds.1 hbounds.2]
  dsimp only
  rw [if_neg (ok.buddy _ hin), if_pos hslab]

/-- A block of a user and a slab have no address in common. -/
theorem HeapOk.block_apart (ok : HeapOk lay P k A)
    (inv : BuddyInv lay.BUDDY_SYSTEM_BASE Layout.BUDDY_SYSTEM_END k A S) {b : Block}
    (hb : b ∈ P.blocks) {s : Nat} (hs : s ∈ ownedBlobs k P.classes) :
    Apart PAGE_SHIFT (s, SLAB_ORDER) b := by
  have hpair : (((ownedBlobs k P.classes).map fun s => (s, SLAB_ORDER)) ++ P.blocks).Pairwise
      (Apart PAGE_SHIFT) :=
    (ok.handed.pairwise_iff Apart.symm).mp (List.pairwise_append.mp inv.records.tiles.apart).2.1
  exact (List.pairwise_append.mp hpair).2.2 (s, SLAB_ORDER) (List.mem_map_of_mem hs) b hb

/-- The first page of a block of a user is in no slab. -/
theorem HeapOk.block_page (ok : HeapOk lay P k A)
    (inv : BuddyInv lay.BUDDY_SYSTEM_BASE Layout.BUDDY_SYSTEM_END k A S) {b : Block}
    (hb : b ∈ P.blocks) : PageIn lay.BUDDY_SYSTEM_BASE Layout.BUDDY_SYSTEM_END b.1
      ∧ (k.page b.1).flags &&& PM_SLAB = 0 := by
  have hbA : b ∈ A := ok.handed.mem_iff.mpr (List.mem_append_right _ hb)
  have hin := inv.records.pageIn (List.mem_append_right _ hbA)
  refine ⟨hin, by_contra fun hslab => ?_⟩
  obtain ⟨s, hs, hle, hlt⟩ := (ok.slab _ hin.1 (lay.region.bounds hin).1).mp hslab
  exact ok.block_apart inv hb hs b.1 ⟨hle, hlt⟩ (mem_start b)

theorem HeapOk.block_align (ok : HeapOk lay P k A)
    (inv : BuddyInv lay.BUDDY_SYSTEM_BASE Layout.BUDDY_SYSTEM_END k A S) {b : Block}
    (hb : b ∈ P.blocks) : ALIGN_DOWN b.1 PAGE_SIZE = b.1 := by
  have hin := (ok.block_page inv hb).1
  obtain ⟨-, hdown, hgreatest⟩ := alignDown_page (region_lt hin.2.2)
  exact Nat.le_antisymm hdown (hgreatest b.1 hin.1 (le_refl _))

/-- **`kfree` of a block** goes to the buddy system. -/
theorem HeapOk.kfree_block (ok : HeapOk lay P k A)
    (inv : BuddyInv lay.BUDDY_SYSTEM_BASE Layout.BUDDY_SYSTEM_END k A S) {b : Block}
    (hb : b ∈ P.blocks) (warnf : Mem E R Unit) (ops : MetaOps E R) :
    kfree warnf ops b.1 k = buddyFree ops b.1 k := by
  obtain ⟨hin, hslab⟩ := ok.block_page inv hb
  have hbounds := lay.region.bounds hin
  rw [kfree, read_bind_apply, ok.block_align inv hb, addr2index_eq hbounds.1 hbounds.2]
  dsimp only
  rw [if_neg (ok.buddy _ hin), if_neg (not_not.mpr hslab)]

/-! ## The allocator of `mem_block`s -/

/-- The buddy system may use its cache. -/
theorem HeapOk.thawed_pool (ok : HeapOk lay P k A) : P.Thawed memBlockPool := fun q hq =>
  (ok.frozen q hq).pool

/-- **`free_mem_block`** leaves the buddy system alone. -/
theorem freeMemBlock_spec {p : Nat} {M : List Nat} (own : HeapOwns lay P k A (p :: M)) (hp : p ∉ M) :
    Yields pol (freeMemBlock lay quiet ops p k) fun _ k' =>
      BuddySame k k' ∧ HeapOwns lay P k' A M := by
  have hless : HeapOwns lay P k A M :=
    ⟨own.heap, own.clients.subset (List.subset_cons_self p M)⟩
  rw [freeMemBlock, read_bind_apply]
  rcases own.clients.mem p List.mem_cons_self with hearly | ⟨hc, huse⟩
  · have hmem : isEarlyMem lay k p = true := decide_eq_true hearly
    rw [if_pos hmem]
    exact Yields.pure ⟨⟨rfl, rfl, rfl, rfl, rfl⟩, hless⟩
  · have hmem : isEarlyMem lay k p = false :=
      decide_eq_false fun h => absurd h.2 (Nat.not_lt.mpr (own.heap.object_not_early hc huse))
    obtain ⟨hin, hslab⟩ := own.heap.object_page hc huse
    have hout : k.outsideSlabs p = false := by
      rw [Kernel.outsideSlabs, decide_eq_false hslab, Bool.and_false]
    have hobj : ∀ o ∈ P.objects, o.2 ≠ p := by
      rintro o ho rfl
      exact own.clients.apart o ho List.mem_cons_self
    obtain ⟨k₁, hrun, hsame, howns⟩ :=
      hless.free hc own.heap.thawed_pool huse hp hobj (quiet : Mem E R Unit)
    rw [hmem, hout, if_neg Bool.false_ne_true, if_neg Bool.false_ne_true,
      own.heap.kfree_object hc huse, hrun]
    exact Yields.ok ⟨hsame, howns⟩

/-- **`alloc_mem_block`**, when it takes memory from the slab allocator. -/
theorem allocMemBlock_spec (hinited : P.inited = true) (hc : memBlockPool < P.classes)
    (good : HeapGood lay P k A S) (hoom : pol.allowed .metadataOOM)
    (hrefill : P.expanding memBlockPool = false →
      (k.caches memBlockPool).free < (k.caches memBlockPool).low →
      (∀ locked, HeapOps pol lay
          { P with locked := locked, expanding := Function.update P.expanding memBlockPool true } S ops)
        ∧ (k.buddyFreeList SLAB_ORDER ≠ [] ∨ Guard A S SLAB_ORDER)) :
    Yields pol (allocMemBlock lay quiet ops k) fun r k' => k'.buddyLocked = k.buddyLocked
      ∧ ∃ A', A ⊆ A' ∧ HeapGood lay P k' A' S ∧ (r = 0 → pol.allowed .metadataOOM)
        ∧ (r ≠ 0 → r ∉ ptrs k' S
          ∧ (P.fits memBlockPool r → HeapOwns lay P k' A' (r :: ptrs k' S))) := by
  have hkalloc : k.kallocInited = true := good.owns.heap.inited.trans hinited
  have hkmalloc : (kmalloc quiet ops sizeofMemBlock : Mem E R Nat)
      = kmemCacheAlloc quiet ops (some memBlockPool) := rfl
  rw [allocMemBlock, read_bind_apply, if_pos hkalloc, hkmalloc]
  refine (kmemCacheAlloc_spec hc good.owns.heap.thawed_pool good hrefill).mono ?_
  rintro r k₁ ⟨⟨hlocked, A₁, hsub, hgood⟩, hfresh⟩
  refine ⟨hlocked, A₁, hsub, hgood, fun _ => hoom, fun hr => ?_⟩
  obtain ⟨huse, hmem, hobj⟩ := hfresh hr
  have cl := hgood.owns.clients
  have hregion := (hgood.owns.heap.object_region hc huse).1
  refine ⟨hmem, fun hfits => ⟨hgood.owns.heap, ?_, cl.object, ?_, cl.nodup, ?_, ?_, cl.objectFits⟩⟩
  · intro p hp
    rcases List.mem_cons.mp hp with rfl | hp
    · exact Or.inr ⟨hc, huse⟩
    · exact cl.mem p hp
  · intro o ho hmem'
    rcases List.mem_cons.mp hmem' with heq | hmem'
    · exact hobj o ho heq
    · exact cl.apart o ho hmem'
  · intro p hp hearly
    rcases List.mem_cons.mp hp with rfl | hp
    · exact absurd (hearly.trans_le (lay.EARLY_HEAP_END_le_BASE.trans hregion)) (lt_irrefl _)
    · exact cl.slot p hp hearly
  · intro p hp hlate
    rcases List.mem_cons.mp hp with rfl | hp
    · exact hfits
    · exact cl.memFits p hp hlate

/-! ## Re-entry -/

/-- **The nested call merges the block that is held**: the cache of the `mem_block`s is to be
expanded, no block of the order of a slab is free, and the block held has a smaller order and a
buddy that is entirely free. -/
structure Reentry.Collides (ev : Reentry E) : Prop where
  inited : ev.kernel.kallocInited = true
  idle : (ev.kernel.caches memBlockPool).expanding = false
  low : (ev.kernel.caches memBlockPool).free < (ev.kernel.caches memBlockPool).low
  parked : (ev.kernel.caches memBlockPool).slabsFree = []
  empty : ev.kernel.buddyFreeList SLAB_ORDER = []
  small : ev.held.order < SLAB_ORDER
  buddy : ∀ x, Dyadic.Mem PAGE_SHIFT (getBuddyAddr ev.held.start ev.held.order, ev.held.order) x →
    FreeAt ev.kernel x

/-- The object lies in the blob it begins in. -/
def InBlob (c x : Nat) : Prop := x % SLAB_BLOB_SIZE + classSize c ≤ SLAB_BLOB_SIZE

instance (c x : Nat) : Decidable (InBlob c x) := inferInstanceAs (Decidable (_ ≤ _))

/-- No re-entry collides, and no object reaches into the next blob. -/
def HeapEvent.Safe : HeapEvent E → Prop
  | .reentry ev => ¬ev.Collides
  | .object c ptr => InBlob c ptr

/-- A run relies on safe events, and may end in a panic of `split_blocks` or `buddy_free` for want
of a `mem_block`. -/
def heapPolicy (E : Type) : Policy (HeapEvent E) Fault where
  safe := HeapEvent.Safe
  fine _ := True
  allowed f := f = .metadataOOM

/-- The block that `split_blocks` holds is as it was when it was taken off its list: its `mem_block`
is in use and on no list, its page describes a free block, and no block that is free or a slab has
any of its memory. -/
structure HeldOk (lay : Layout) (e : Entry) (k : Kernel E) : Prop where
  unlinked : ∀ o ≤ BUDDY_MAX_ORDER, e.ptr ∉ k.buddyFreeList o
  inUse : isEarlyMem lay k e.ptr = true ∨ ObjectInUse k memBlockPool e.ptr
  start : k.memBlock e.ptr = e.start
  order : (k.page e.start).order = e.order
  priv : (k.page e.start).priv = e.ptr
  free : ∀ x, Dyadic.Mem PAGE_SHIFT e.block x → ¬FreeAt k x
  slab : ∀ c < KALLOC_MEM_POOL_NUM, ∀ s ∈ (k.caches c).slabs,
    Apart PAGE_SHIFT (s, SLAB_ORDER) e.block

/-- **The nested call leaves the block alone** that `split_blocks` holds. -/
def Reentry.LeavesHeld (lay : Layout) (ev : Reentry E) : Prop :=
  ∀ r k' log, allocMemBlock lay quiet (kernelOpsAt lay 1) ev.kernel = .ok r k' log →
    HeldOk lay ev.held k'

def HeapEvent.LeavesHeld (lay : Layout) : HeapEvent E → Prop
  | .reentry ev => ev.LeavesHeld lay
  | .object _ _ => True

/-- The same with the promise that all nested calls leave the held blocks alone. -/
def heldPolicy (lay : Layout) : Policy (HeapEvent E) Fault where
  safe := HeapEvent.Safe
  fine ev := ev.LeavesHeld lay
  allowed f := f = .metadataOOM

theorem heap_of_held {K α : Type} {o : Outcome K (HeapEvent E) Fault α} {Q : α → K → Prop}
    (h : Yields (heldPolicy lay) o Q) : Yields (heapPolicy E) o Q :=
  h.weaken (fun _ hsafe => hsafe) (fun _ _ => trivial) fun _ hf => hf

/-- All of a block below the greatest order lies in the region of its start. -/
theorem Region.block_lt {lo hi a o x : Nat} (reg : Region lo hi) (ha : Aligned PAGE_SHIFT (a, o))
    (ho : o ≤ BUDDY_MAX_ORDER) (hin : lo ≤ a ∧ a < hi) (hx : Dyadic.Mem PAGE_SHIFT (a, o) x) :
    lo ≤ x ∧ x < hi := by
  refine ⟨hin.1.trans hx.1, Nat.lt_of_lt_of_le hx.2 ?_⟩
  have hdvd : size PAGE_SHIFT o ∣ hi := (size_dvd ho).trans reg.hi_dvd
  obtain ⟨q, hq⟩ : size PAGE_SHIFT o ∣ a := ha
  obtain ⟨q', rfl⟩ := hdvd
  have hlt : q < q' := by
    have := hin.2
    rw [hq] at this
    exact Nat.lt_of_mul_lt_mul_left this
  show a + size PAGE_SHIFT o ≤ _
  rw [hq, ← Nat.mul_succ]
  exact Nat.mul_le_mul_left _ hlt

/-- Without a collision some memory of the buddy is allocated. -/
theorem guard_of_not_collides {e : Entry}
    (inv : BuddyInv lay.BUDDY_SYSTEM_BASE Layout.BUDDY_SYSTEM_END k A [e])
    (hsafe : ¬Reentry.Collides ⟨e, k⟩) (hinited : k.kallocInited = true)
    (hidle : (k.caches memBlockPool).expanding = false)
    (hlow : (k.caches memBlockPool).free < (k.caches memBlockPool).low)
    (hparked : (k.caches memBlockPool).slabsFree = []) :
    k.buddyFreeList SLAB_ORDER ≠ [] ∨ Guard A [e] SLAB_ORDER := by
  by_cases hempty : k.buddyFreeList SLAB_ORDER = []
  · right
    intro e' he' ho
    obtain rfl := List.mem_singleton.mp he'
    by_contra hno
    have hmem : e' ∈ entries k ++ [e'] := by simp
    have hal := inv.records.aligned_entry hmem
    have hin := inv.records.pageIn_entry hmem
    have hmax : e'.order < BUDDY_MAX_ORDER := Nat.lt_trans ho (by decide)
    -- the buddy of the block is free throughout: this is the collision
    refine hsafe ⟨hinited, hidle, hlow, hparked, hempty, ho, fun x hx => ?_⟩
    rw [getBuddyAddr_eq] at hx
    have hx' := lay.region.block_lt hal.buddy hmax.le (lay.region.buddy hal hin.2 hmax) hx
    obtain ⟨b, hb, hxb⟩ := (inv.records.tiles.cover x).mp hx'
    rcases List.mem_append.mp hb with hb | hb
    · rw [List.map_append, List.mem_append] at hb
      rcases hb with hb | hb
      · exact ⟨b, hb, hxb⟩
      · obtain rfl : b = e'.block := by simpa using hb
        exact absurd hx (apart_buddy hal x hxb)
    · exact absurd ⟨b, hb, x, hxb, hx⟩ hno
  · exact Or.inl hempty

theorem watch_bind {α : Type} {pol : Policy (HeapEvent E) Fault} {X : Option Entry}
    {f : Unit → Mem E (HeapEvent E) α} {Q : α → Kernel E → Prop}
    (hfine : ∀ e, X = some e → pol.safe (.reentry ⟨e, k⟩) → pol.fine (.reentry ⟨e, k⟩))
    (h : (∀ e, X = some e → pol.safe (.reentry ⟨e, k⟩)) → Yields pol (f () k) Q) :
    Yields pol ((watch X >>= f) k) Q := by
  cases X with
  | none =>
      show Yields _ ((pure () >>= f : Mem E (HeapEvent E) α) k) Q
      rw [pure_bind_apply]
      exact h fun e he => by cases he
  | some e =>
      have hrun : (watch (some e) >>= f : Mem E (HeapEvent E) α) k
          = (emit (.reentry ⟨e, k⟩) >>= f : Mem E (HeapEvent E) α) k := rfl
      rw [hrun]
      exact Yields.emit_bind fun hsafe =>
        ⟨hfine e rfl hsafe, h fun e' he' => by cases he'; exact hsafe⟩

/-- An object that is handed out is logged. -/
theorem logged_yields {pol : Policy (HeapEvent E) Fault} (hfine : ∀ c x, pol.fine (.object c x))
    {size : Nat} {x : Mem E (HeapEvent E) Nat} {Q : Nat → Kernel E → Prop}
    (hx : Yields pol (x k) Q) :
    Yields pol (logged size x k) fun r k' => Q r k'
      ∧ (size ≤ KALLOC_MAX_MEM_OBJ_SIZE → pol.safe (.object (size2index size) r)) := by
  refine Yields.bind hx fun r k' hQ => ?_
  rw [logObject]
  split
  · exact Yields.emit_bind fun hsafe => ⟨hfine _ _, Yields.pure ⟨hQ, fun _ => hsafe⟩⟩
  · rename_i hlarge
    rw [pure_bind_apply]
    exact Yields.pure ⟨hQ, fun hsize => absurd hsize hlarge⟩

/-- The `mem_block`s that are handed out are as the policy says. -/
theorem logged_memBlock {pol : Policy (HeapEvent E) Fault} (hfine : ∀ c x, pol.fine (.object c x))
    (hfits : ∀ c x, pol.safe (.object c x) → P.fits c x) {x : Mem E (HeapEvent E) Nat}
    (hx : Yields pol (x k) fun r k' => k'.buddyLocked = k.buddyLocked
      ∧ ∃ A', A ⊆ A' ∧ HeapGood lay P k' A' S ∧ (r = 0 → pol.allowed .metadataOOM)
        ∧ (r ≠ 0 → r ∉ ptrs k' S
          ∧ (P.fits memBlockPool r → HeapOwns lay P k' A' (r :: ptrs k' S)))) :
    Yields pol (logged sizeofMemBlock x k) fun r k' => k'.buddyLocked = k.buddyLocked
      ∧ ∃ A', A ⊆ A' ∧ HeapGood lay P k' A' S ∧ (r = 0 → pol.allowed .metadataOOM)
        ∧ (r ≠ 0 → r ∉ ptrs k' S ∧ HeapOwns lay P k' A' (r :: ptrs k' S)) := by
  refine (logged_yields hfine hx).mono ?_
  rintro r k' ⟨⟨hlocked, A', hsub, hgood, hnull, hfresh⟩, hsafe⟩
  refine ⟨hlocked, A', hsub, hgood, hnull, fun hr => ?_⟩
  exact ⟨(hfresh hr).1, (hfresh hr).2 (hfits _ _ (hsafe (by decide)))⟩

/-- **While the cache of the `mem_block`s expands**, it takes nothing from the buddy system. -/
theorem kernelOpsAt_busy (pol : Policy (HeapEvent E) Fault) (hoom : pol.allowed .metadataOOM)
    (hfine : ∀ {e k A}, HeapGood lay P k A (e :: S) → pol.fine (.reentry ⟨e, k⟩))
    (hobject : ∀ c x, pol.fine (.object c x)) (hfits : ∀ c x, pol.safe (.object c x) → P.fits c x)
    (hinited : P.inited = true) (hc : memBlockPool < P.classes)
    (hexp : P.expanding memBlockPool = true) (d : Nat) :
    HeapOps pol lay P S (kernelOpsAt lay (d + 1)) where
  alloc X k A good := by
    refine watch_bind (fun e he _ => ?_) fun _ => logged_memBlock hobject hfits <|
      allocMemBlock_spec hinited hc good hoom fun hidle => ?_
    · rw [he] at good
      exact hfine good
    · rw [hexp] at hidle
      cases hidle
  free own hp _ := freeMemBlock_spec own hp

/-- The invariant with the block that is held among those suspended. -/
theorem HeldOk.of_good {e : Entry} (hclasses : P.classes = KALLOC_MEM_POOL_NUM)
    (good : HeapGood lay P k A (e :: S)) : HeldOk lay e k := by
  have inv := good.inv
  have ok := good.owns.heap
  have hmem : e ∈ entries k ++ e :: S := List.mem_append_right _ List.mem_cons_self
  have hptr : e.ptr ∈ ptrs k (e :: S) := List.mem_map_of_mem hmem
  have hnodup := inv.records.nodup
  rw [List.map_append] at hnodup
  have hapart := inv.records.tiles.apart
  rw [List.map_append, List.append_assoc] at hapart
  obtain ⟨horder, hpriv⟩ := inv.records.entry e hmem
  refine ⟨fun o ho hlist => ?_, ?_, inv.suspended e List.mem_cons_self, horder, hpriv, ?_, ?_⟩
  · have hentry : e.ptr ∈ (entries k).map Entry.ptr :=
      List.mem_map.mpr ⟨_, mem_entries_of ho hlist, rfl⟩
    exact (List.nodup_append.mp hnodup).2.2 _ hentry _ List.mem_cons_self rfl
  · exact (good.owns.clients.mem e.ptr hptr).imp decide_eq_true And.right
  · rintro x hx ⟨b, hb, hxb⟩
    exact (List.pairwise_append.mp hapart).2.2 b hb e.block
      (List.mem_append_left _ List.mem_cons_self) x hxb hx
  · intro c hc s hs x hxs hxe
    have hin : (s, SLAB_ORDER) ∈ A := ok.handed.mem_iff.mpr (List.mem_append_left _
      (List.mem_map_of_mem (HeapOk.mem_owned (hclasses ▸ hc) hs)))
    exact inv.records.entry_apart hmem hin hxe hxs

/-- What is known of the objects may be forgotten. -/
theorem HeapOwns.forget {M : List Nat} (own : HeapOwns lay P k A M) :
    HeapOwns lay { P with fits := fun _ _ => True } k A M := by
  have ok := own.heap
  have cl := own.clients
  exact ⟨⟨ok.classes_le, ok.inited, ok.brk_ge, ok.brk_le, ok.brk_slot, ok.cache, ok.locked,
    ok.expanding, ok.handed, ok.distinct, ok.region, ok.slab, ok.buddy, ok.homes, ok.frozen⟩,
    cl.mem, cl.object, cl.apart, cl.nodup, cl.slot, fun _ _ _ => trivial, fun _ _ => trivial⟩

/-- A `mem_block` is allocated while `e` is held: the cache is busy, or the call does not collide. -/
theorem leavesHeld_of_good {e : Entry} (hinited : P.inited = true)
    (hclasses : P.classes = KALLOC_MEM_POOL_NUM) (good : HeapGood lay P k A (e :: S))
    (hcond : P.expanding memBlockPool = true ∨ S = [] ∧ ¬Reentry.Collides ⟨e, k⟩) :
    Reentry.LeavesHeld lay ⟨e, k⟩ := by
  intro r k' log hrun
  have hc : memBlockPool < P.classes := by
    rw [hclasses]
    decide
  -- what is logged on the way decides nothing here
  let pol : Policy (HeapEvent E) Fault :=
    ⟨fun _ => True, fun _ => True, fun f => f = .metadataOOM⟩
  have hless : HeapGood lay { P with fits := fun _ _ => True } k A (e :: S) :=
    ⟨good.inv, good.owns.forget⟩
  have hyields : Yields pol (allocMemBlock lay quiet (kernelOpsAt lay 1) k) _ :=
    allocMemBlock_spec (P := { P with fits := fun _ _ => True }) hinited hc hless rfl
        fun hidle hlow => by
      have hexp : Function.update P.expanding memBlockPool true memBlockPool = true :=
        Function.update_self _ _ _
      refine ⟨fun locked => kernelOpsAt_busy pol rfl (fun _ => trivial) (fun _ _ => trivial)
        (fun _ _ _ => trivial) (P := { P with
          locked := locked
          expanding := Function.update P.expanding memBlockPool true
          fits := fun _ _ => True }) hinited hc hexp 0, ?_⟩
      obtain ⟨rfl, hsafe⟩ := hcond.resolve_left (by rw [hidle]; decide)
      have hown := good.owns.heap
      exact guard_of_not_collides good.inv hsafe (hown.inited.trans hinited)
        ((hown.expanding memBlockPool).trans hidle) hlow (hown.cache memBlockPool hc).parked
  rw [hrun] at hyields
  obtain ⟨-, -, A', -, hgood, -⟩ := hyields fun _ _ => trivial
  exact .of_good (P := { P with fits := fun _ _ => True }) hclasses hgood

/-- **The allocator of `mem_block`s**, as `kmalloc` and the functions of the buddy system call
it. -/
theorem kernelOpsAt_spec (hinited : P.inited = true) (hclasses : P.classes = KALLOC_MEM_POOL_NUM)
    (hfits : ∀ c x, InBlob c x → P.fits c x) (d : Nat) :
    HeapOps (heldPolicy lay) lay P [] (kernelOpsAt (E := E) lay (d + 2)) where
  alloc X k A good := by
    have hc : memBlockPool < P.classes := by
      rw [hclasses]
      decide
    refine watch_bind (fun e he hsafe => ?_) fun hsafe => logged_memBlock (fun _ _ => trivial) hfits <|
      allocMemBlock_spec hinited hc good rfl fun hidle hlow => ?_
    · rw [he] at good
      exact leavesHeld_of_good hinited hclasses good (Or.inr ⟨rfl, hsafe⟩)
    have hexp : Function.update P.expanding memBlockPool true memBlockPool = true :=
      Function.update_self _ _ _
    refine ⟨fun locked => ?_, ?_⟩
    · -- while the cache is growing, memory in the hands of a suspended call does no harm
      have hfine : ∀ {e : Entry} {k : Kernel E} {A : List Block}, HeapGood lay { P with
          locked := locked
          expanding := Function.update P.expanding memBlockPool true } k A (e :: (X.toList ++ [])) →
          (heldPolicy lay).fine (.reentry ⟨e, k⟩) := fun hgood =>
        leavesHeld_of_good (P := { P with
          locked := locked
          expanding := Function.update P.expanding memBlockPool true }) hinited hclasses hgood
          (Or.inl hexp)
      exact kernelOpsAt_busy _ rfl hfine (fun _ _ => trivial) hfits hinited hc hexp d
    cases X with
    | none => exact Or.inr fun e he => by cases he
    | some e =>
        have hown := good.owns.heap
        exact guard_of_not_collides good.inv (hsafe e rfl) (hown.inited.trans hinited)
          ((hown.expanding memBlockPool).trans hidle) hlow (hown.cache memBlockPool hc).parked
  free own hp _ := freeMemBlock_spec own hp

/-! ## The users of the heap -/

theorem kernelOps_spec (hinited : P.inited = true) (hclasses : P.classes = KALLOC_MEM_POOL_NUM)
    (hfits : ∀ c x, InBlob c x → P.fits c x) :
    HeapOps (heldPolicy lay) lay P [] (kernelOps (E := E) lay) :=
  kernelOpsAt_spec hinited hclasses hfits 0

/-- A user gets an object. -/
theorem FreshObject.give {r : Nat} (fresh : FreshObject P S c r k) (hc : c < P.classes)
    (hfits : P.fits c r) (good : HeapGood lay P k A S) :
    HeapGood lay { P with objects := (c, r) :: P.objects } k A S := by
  have cl := good.owns.clients
  refine ⟨good.inv, good.owns.heap.withObjects _, cl.mem, ?_, ?_, ?_, cl.slot, cl.memFits, ?_⟩
  · intro o ho
    rcases List.mem_cons.mp ho with rfl | ho
    · exact ⟨hc, fresh.inUse⟩
    · exact cl.object o ho
  · intro o ho
    rcases List.mem_cons.mp ho with rfl | ho
    · exact fresh.mem
    · exact cl.apart o ho
  · refine List.nodup_cons.mpr ⟨fun hmem => ?_, cl.nodup⟩
    obtain ⟨o, ho, heq⟩ := List.mem_map.mp hmem
    exact fresh.objects o ho heq
  · intro o ho
    rcases List.mem_cons.mp ho with rfl | ho
    · exact hfits
    · exact cl.objectFits o ho

/-- A user gets a block. -/
theorem HeapOwns.giveBlock {M : List Nat} (own : HeapOwns lay P k A M) (b : Block) :
    HeapOwns lay { P with blocks := b :: P.blocks } k (b :: A) M := by
  have ok := own.heap
  have cl := own.clients
  exact ⟨⟨ok.classes_le, ok.inited, ok.brk_ge, ok.brk_le, ok.brk_slot, ok.cache, ok.locked,
    ok.expanding, (ok.handed.cons b).trans List.perm_middle.symm, ok.distinct, ok.region, ok.slab,
    ok.buddy, ok.homes, ok.frozen⟩, cl.mem, cl.object, cl.apart, cl.nodup, cl.slot, cl.memFits,
    cl.objectFits⟩

/-- A user gives a block back. -/
theorem HeapOwns.takeBlock {M : List Nat} (own : HeapOwns lay P k A M) {b : Block}
    {blocks : List Block} (hperm : P.blocks.Perm (b :: blocks)) :
    HeapOwns lay { P with blocks := blocks } k (A.erase b) M := by
  have ok := own.heap
  have cl := own.clients
  have hb : b ∈ A :=
    ok.handed.mem_iff.mpr (List.mem_append_right _ (hperm.mem_iff.mpr List.mem_cons_self))
  have hhanded : (A.erase b).Perm
      ((ownedBlobs k P.classes).map (fun s => (s, SLAB_ORDER)) ++ blocks) := by
    refine List.Perm.cons_inv (a := b) ?_
    calc (b :: A.erase b).Perm A := (List.perm_cons_erase hb).symm
      List.Perm _ ((ownedBlobs k P.classes).map (fun s => (s, SLAB_ORDER)) ++ P.blocks) := ok.handed
      List.Perm _ (((ownedBlobs k P.classes).map fun s => (s, SLAB_ORDER)) ++ b :: blocks) :=
        hperm.append_left _
      List.Perm _ _ := List.perm_middle
  exact ⟨⟨ok.classes_le, ok.inited, ok.brk_ge, ok.brk_le, ok.brk_slot, ok.cache, ok.locked,
    ok.expanding, hhanded, ok.distinct, ok.region, ok.slab, ok.buddy, ok.homes, ok.frozen⟩, cl.mem,
    cl.object, cl.apart, cl.nodup, cl.slot, cl.memFits, cl.objectFits⟩

theorem size2index_lt (size : Nat) : size2index size < KALLOC_MEM_POOL_NUM := by
  have hle : size2index size ≤ (MEM_OBJ_SIZES.take (KALLOC_MEM_POOL_NUM - 1)).length :=
    List.findIdx_le_length
  exact Nat.lt_succ_of_le hle

/-- The class is large enough, and the smallest of those. -/
theorem size2index_spec {size : Nat} (hsize : size ≤ KALLOC_MAX_MEM_OBJ_SIZE) :
    size ≤ classSize (size2index size) ∧ ∀ c < size2index size, classSize c < size := by
  have hclass : ∀ {c : Nat} (hc : c < (MEM_OBJ_SIZES.take (KALLOC_MEM_POOL_NUM - 1)).length),
      classSize c = (MEM_OBJ_SIZES.take (KALLOC_MEM_POOL_NUM - 1))[c] := by
    intro c hc
    have hlen : c < MEM_OBJ_SIZES.length := hc.trans (by decide)
    rw [classSize, List.getD_eq_getElem _ _ hlen, List.getElem_take]
  constructor
  · rcases Nat.lt_succ_iff_lt_or_eq.mp (size2index_lt size) with hlt | hlast
    · have hfound := List.findIdx_getElem (w := hlt)
      rw [hclass hlt]
      exact of_decide_eq_true hfound
    · rw [hlast]
      exact hsize
  · intro c hc
    have hlt : c < (MEM_OBJ_SIZES.take (KALLOC_MEM_POOL_NUM - 1)).length :=
      Nat.lt_of_lt_of_le hc List.findIdx_le_length
    have hnot := List.not_of_lt_findIdx hc
    rw [hclass hlt]
    exact Nat.not_le.mp (of_decide_eq_false hnot)

/-- **`buddy_alloc`** for a user of the heap. -/
theorem buddyAlloc_heap (hinited : P.inited = true) (hc : P.classes = KALLOC_MEM_POOL_NUM)
    (hfits : ∀ c x, InBlob c x → P.fits c x) {size : Nat} (hlo : PAGE_SIZE ≤ size)
    (hhi : size ≤ BUDDY_BLOB_SIZE) (good : HeapGood lay P k A []) :
    Yields (heldPolicy lay) (buddyAlloc (kernelOps lay) size k) fun r k' =>
      k'.buddyLocked = k.buddyLocked ∧ ∃ A', (r = 0 → HeapGood lay P k' A' [])
        ∧ (r ≠ 0 → HeapGood lay { P with blocks := (r, size2order size) :: P.blocks } k' A' []) := by
  refine (buddyAlloc_spec lay.region (kernelOps_spec hinited hc hfits) hlo hhi good
    (Or.inr fun e he => by cases he)).mono ?_
  rintro r k₁ ⟨hlocked, A₁, -, howns, hres⟩
  rcases hres with ⟨hr, hinv, -⟩ | ⟨hr, hinv⟩
  · exact ⟨hlocked, A₁, fun _ => ⟨hinv, howns⟩, fun hne => absurd hr hne⟩
  · exact ⟨hlocked, _, fun h => absurd h hr, fun _ => ⟨hinv, howns.giveBlock _⟩⟩

/-- **`kmalloc`** of at most the largest class. -/
theorem kmalloc_object (hinited : P.inited = true) (hc : P.classes = KALLOC_MEM_POOL_NUM)
    (hfits : ∀ c x, InBlob c x → P.fits c x) {size : Nat} (hthaw : P.Thawed (size2index size))
    (hpos : size ≠ 0) (hsize : size ≤ KALLOC_MAX_MEM_OBJ_SIZE)
    (good : HeapGood lay P k A []) :
    Yields (heldPolicy lay) (kmalloc quiet (kernelOps lay) size k) fun r k' =>
      k'.buddyLocked = k.buddyLocked ∧ ∃ A', (r = 0 → HeapGood lay P k' A' [])
        ∧ (r ≠ 0 → P.fits (size2index size) r →
          HeapGood lay { P with objects := (size2index size, r) :: P.objects } k' A' []) := by
  have hclass : size2index size < P.classes := by
    rw [hc]
    exact size2index_lt size
  rw [kmalloc, if_neg hpos, if_pos hsize]
  refine (kmemCacheAlloc_spec hclass hthaw good fun _ _ =>
    ⟨fun locked => kernelOps_spec (P := { P with
      locked := locked
      expanding := Function.update P.expanding (size2index size) true }) hinited hc hfits,
      Or.inr fun e he => by cases he⟩).mono ?_
  rintro r k₁ ⟨⟨hlocked, A₁, -, hgood⟩, hfresh⟩
  exact ⟨hlocked, A₁, fun _ => hgood, fun hr hwhole => (hfresh hr).give hclass hwhole hgood⟩

/-- **`kfree`** of an object. -/
theorem kfree_object_spec {o : Nat × Nat} {objects : List (Nat × Nat)}
    (hperm : P.objects.Perm (o :: objects)) (hthaw : P.Thawed o.1) (good : HeapGood lay P k A []) :
    Yields pol (kfree quiet ops o.2 k) fun _ k' => k'.buddyLocked = k.buddyLocked
      ∧ HeapGood lay { P with objects := objects } k' A [] := by
  have ok := good.owns.heap
  have cl := good.owns.clients
  obtain ⟨hc, huse⟩ := cl.object o (hperm.mem_iff.mpr List.mem_cons_self)
  have hnd : ((o :: objects).map Prod.snd).Nodup := (hperm.map _).nodup_iff.mp cl.nodup
  have hother : ∀ o' ∈ objects, o'.2 ≠ o.2 := by
    intro o' ho' heq
    exact (List.nodup_cons.mp hnd).1 (heq ▸ List.mem_map_of_mem ho')
  have hsub : ∀ o' ∈ objects, o' ∈ P.objects :=
    fun o' ho' => hperm.mem_iff.mpr (List.mem_cons_of_mem _ ho')
  have hless : HeapOwns lay { P with objects := objects } k A (ptrs k []) :=
    ⟨ok.withObjects _, cl.mem, fun o' ho' => cl.object o' (hsub o' ho'),
      fun o' ho' => cl.apart o' (hsub o' ho'), (List.nodup_cons.mp hnd).2, cl.slot, cl.memFits,
      fun o' ho' => cl.objectFits o' (hsub o' ho')⟩
  obtain ⟨k₁, hrun, hsame, howns⟩ := hless.free hc hthaw huse
    (cl.apart o (hperm.mem_iff.mpr List.mem_cons_self)) hother (quiet : Mem E R Unit)
  rw [ok.kfree_object hc huse, hrun]
  exact Yields.ok ⟨hsame.locked, good.of_owns hsame howns⟩

/-- **`buddy_free`** of a block of a user. -/
theorem buddyFree_heap (hinited : P.inited = true) (hc : P.classes = KALLOC_MEM_POOL_NUM)
    (hfits : ∀ c x, InBlob c x → P.fits c x) {b : Block} {blocks : List Block}
    (hperm : P.blocks.Perm (b :: blocks)) (good : HeapGood lay P k A [])
    (hlocked : k.buddyLocked = false) :
    Yields (heldPolicy lay) (buddyFree (kernelOps lay) b.1 k) fun _ k' => k'.buddyLocked = false
      ∧ ∃ A', HeapGood lay { P with blocks := blocks } k' A' [] := by
  have hb : b ∈ A := good.owns.heap.handed.mem_iff.mpr
    (List.mem_append_right _ (hperm.mem_iff.mpr List.mem_cons_self))
  refine (buddyFree_spec lay.region (kernelOps_spec hinited hc hfits) hb good hlocked).mono ?_
  rintro - k₁ ⟨hlocked₁, A₁, -, hinv, howns⟩
  exact ⟨hlocked₁, _, hinv, howns.takeBlock hperm⟩

end NoobKernel.Mm
