import NoobKernel.Mm.HeapSpec

set_option autoImplicit false

/-! # The heap after boot

`pm_init` leaves the invariant of the heap (`pmInit_good`). Until `kalloc_init` is done the
`mem_block`s come from the early heap, so the buddy system is not entered again.
-/

namespace NoobKernel.Mm

open Misc Exec
open Dyadic hiding Mem

variable {E : Type}

/-! ## Boot -/

/-- Boot may end in a panic, and relies on nothing. -/
def bootPolicy (E : Type) : Policy (HeapEvent E) Fault where
  safe _ := True
  fine _ := True
  allowed _ := True

/-- During boot the first caches are there, and nobody uses the heap. -/
def bootHolding (n : Nat) : Holding where
  classes := n
  inited := false
  locked _ := false
  expanding _ := false
  objects := []
  blocks := []
  fits := InBlob
  homes := []
  frozen := []

/-- After boot all caches are there. -/
def holding (objects : List (Nat × Nat)) (blocks : List Block) : Holding where
  classes := KALLOC_MEM_POOL_NUM
  inited := true
  locked _ := false
  expanding _ := false
  objects := objects
  blocks := blocks
  fits := InBlob
  homes := []
  frozen := []

variable {lay : Layout} {P : Holding} {k k' : Kernel E} {A : List Block} {M : List Nat}

theorem EARLY_HEAP_BASE_pos (lay : Layout) : 0 < lay.EARLY_HEAP_BASE := by
  have hstart : 0 < PM_START := by decide
  exact (hstart.trans_le lay.start_le).trans_le lay.ekernel_le_EARLY.1

/-- The early heap hands out memory that nobody uses. -/
theorem earlyAlloc_spec (own : HeapOwns lay P k A M) {size : Nat}
    (hsize : ALIGN_UP size 8 = sizeofMemBlock) :
    Yields (bootPolicy E) (earlyAlloc lay size k) fun r k' => BuddySame k k'
      ∧ HeapOwns lay P k' A M ∧ r ∉ M ∧ HeapOwns lay P k' A (r :: M) := by
  have ok := own.heap
  have cl := own.clients
  rw [earlyAlloc, read_bind_apply]
  split
  · exact Yields.fault trivial
  · split
    · exact Yields.fault trivial
    · rename_i hroom
      rw [modify_bind_apply]
      rw [hsize] at hroom ⊢
      have hend := lay.EARLY_HEAP_END_le_BASE
      have hslot : sizeofMemBlock ∣ k.earlyBrk + sizeofMemBlock - lay.EARLY_HEAP_BASE := by
        rw [Nat.sub_add_comm ok.brk_ge]
        exact Nat.dvd_add_self_right.mpr ok.brk_slot
      have hheap : HeapOk lay P { k with earlyBrk := k.earlyBrk + sizeofMemBlock } A :=
        ⟨ok.classes_le, ok.inited, ok.brk_ge.trans (Nat.le_add_right _ _), (Nat.not_le.mp hroom).le,
          hslot, ok.cache, ok.locked, ok.expanding, ok.handed, ok.distinct, ok.region, ok.slab,
          ok.buddy, ok.homes, fun q hq => (ok.frozen q hq).congr rfl rfl⟩
      have hclients : Clients lay P { k with earlyBrk := k.earlyBrk + sizeofMemBlock } M :=
        ⟨fun p hp => (cl.mem p hp).imp_left fun h => ⟨h.1, h.2.trans_le (Nat.le_add_right _ _)⟩,
          cl.object, cl.apart, cl.nodup, cl.slot, cl.memFits, cl.objectFits⟩
      -- objects of slabs are in the memory of the buddy system, above the early heap
      have hobject : ∀ {c x : Nat}, c < P.classes → ObjectInUse k c x → x ≠ k.earlyBrk := by
        rintro c x hc hx rfl
        have hle := (ok.object_region hc hx).1
        omega
      have hbrk : k.earlyBrk < lay.EARLY_HEAP_END := by
        have := Nat.not_le.mp hroom
        omega
      refine Yields.pure ⟨⟨rfl, rfl, rfl, rfl, rfl⟩, ⟨hheap, hclients⟩, ?_, hheap, ?_, cl.object, ?_,
        cl.nodup, ?_, ?_, cl.objectFits⟩
      · intro hmem
        rcases cl.mem _ hmem with h | h
        · exact absurd h.2 (lt_irrefl _)
        · exact hobject h.1 h.2 rfl
      · intro p hp
        rcases List.mem_cons.mp hp with rfl | hp
        · exact Or.inl ⟨ok.brk_ge, Nat.lt_add_of_pos_right (by decide)⟩
        · exact hclients.mem p hp
      · intro o ho hmem
        rcases List.mem_cons.mp hmem with heq | hmem
        · exact hobject (cl.object o ho).1 (cl.object o ho).2 heq
        · exact cl.apart o ho hmem
      · intro p hp hearly
        rcases List.mem_cons.mp hp with rfl | hp
        · exact ok.brk_slot
        · exact cl.slot p hp hearly
      · intro p hp hlate
        rcases List.mem_cons.mp hp with rfl | hp
        · exact absurd hlate (Nat.not_le.mpr hbrk)
        · exact cl.memFits p hp hlate

/-- **Before `kalloc_init` is done** the `mem_block`s come from the early heap. -/
theorem kernelOps_plain (hinited : P.inited = false) :
    PlainSpec (bootPolicy E) (heapContract E lay P) (kernelOps lay) where
  alloc X k A M own := by
    have hkalloc : k.kallocInited = false := own.heap.inited.trans hinited
    refine watch_bind (fun _ _ _ => trivial) fun _ => ?_
    have hearly : allocMemBlock lay quiet (kernelOpsAt lay 1) k
        = (earlyAlloc lay sizeofMemBlock : Mem E (HeapEvent E) Nat) k := by
      rw [allocMemBlock, read_bind_apply, hkalloc, if_neg Bool.false_ne_true]
    refine (logged_yields (Q := fun r k' => BuddySame k k' ∧ HeapOwns lay P k' A M ∧ r ∉ M
      ∧ HeapOwns lay P k' A (r :: M)) (fun _ _ => trivial) ?_).mono ?_
    · rw [hearly]
      exact earlyAlloc_spec own (by decide)
    rintro r k₁ ⟨⟨hsame, hless, hfresh, howns⟩, -⟩
    exact ⟨hsame, hless, fun _ => trivial, fun _ => ⟨hfresh, howns⟩⟩
  free own hp _ := freeMemBlock_spec own hp

/-- A cache without slabs is added. -/
theorem HeapOwns.initCache {n : Nat} (own : HeapOwns lay (bootHolding n) k A M)
    (hn : n < KALLOC_MEM_POOL_NUM) : HeapOwns lay (bootHolding (n + 1))
      (k.updateCache n fun _ => kmemCacheInit (classSize n)) A M := by
  have ok := own.heap
  have cl := own.clients
  have hself := updateCache_self k n fun _ => kmemCacheInit (classSize n)
  have hother : ∀ c < n, (k.updateCache n fun _ => kmemCacheInit (classSize n)).caches c
      = k.caches c := fun c hc => updateCache_of_ne k _ hc.ne
  -- one cache more, but no slab more
  have hblobs : ownedBlobs (k.updateCache n fun _ => kmemCacheInit (classSize n)) (n + 1)
      = ownedBlobs k n := by
    have hbelow : ownedBlobs (k.updateCache n fun _ => kmemCacheInit (classSize n)) n
        = ownedBlobs k n := List.flatMap_congr fun c hc => by rw [hother c (List.mem_range.mp hc)]
    have hempty : ((k.updateCache n fun _ => kmemCacheInit (classSize n)).caches n).slabs = [] := by
      rw [hself]
      rfl
    rw [← hbelow, ownedBlobs, List.range_succ, List.flatMap_append, List.flatMap_singleton, hempty,
      List.append_nil, ownedBlobs]
  have hflag : ∀ c, ((k.updateCache n fun _ => kmemCacheInit (classSize n)).caches c).locked = false
      ∧ ((k.updateCache n fun _ => kmemCacheInit (classSize n)).caches c).expanding = false := by
    intro c
    by_cases heq : c = n
    · rw [heq, hself]
      exact ⟨rfl, rfl⟩
    · rw [updateCache_of_ne k _ heq]
      exact ⟨ok.locked c, ok.expanding c⟩
  refine ⟨⟨hn, ok.inited, ok.brk_ge, ok.brk_le, ok.brk_slot, ?_, fun c => (hflag c).1,
    fun c => (hflag c).2, ?_, ?_, ?_, ?_, ok.buddy, fun _ ho => absurd ho List.not_mem_nil,
    fun _ hq => absurd hq List.not_mem_nil⟩, fun p hp => ?_,
    fun _ ho => absurd ho List.not_mem_nil, fun _ ho => absurd ho List.not_mem_nil, List.nodup_nil,
    cl.slot, cl.memFits, fun _ ho => absurd ho List.not_mem_nil⟩
  · intro c hc
    rcases Nat.lt_succ_iff_lt_or_eq.mp hc with hlt | rfl
    · rw [hother c hlt]
      exact ok.cache c hlt
    · rw [hself]
      exact CacheOk.init _ _ _
  · show A.Perm ((ownedBlobs _ (n + 1)).map _ ++ [])
    rw [hblobs]
    exact ok.handed
  · show (ownedBlobs _ (n + 1)).Nodup
    rw [hblobs]
    exact ok.distinct
  · show ∀ s ∈ ownedBlobs _ (n + 1), _
    rw [hblobs]
    exact ok.region
  · show ∀ a, _ → _ → (_ ↔ ∃ s ∈ ownedBlobs _ (n + 1), _)
    rw [hblobs]
    exact ok.slab
  · refine (cl.mem p hp).imp_right fun h => ⟨Nat.lt_succ_of_lt h.1, ?_⟩
    rw [ObjectInUse, hother _ h.1]
    exact h.2

/-- **`kmem_cache_init`** with an initial slab, if the buddy system has one. -/
theorem kmemCacheInitAt_spec {n : Nat} (good : HeapGood lay (bootHolding n) k A [])
    (hn : n < KALLOC_MEM_POOL_NUM) :
    Yields (bootPolicy E) (kmemCacheInitAt (kernelOps lay) n (classSize n) true k) fun _ k' =>
      Kept lay (bootHolding (n + 1)) [] k A k' := by
  have hsame : BuddySame k (k.updateCache n fun _ => kmemCacheInit (classSize n)) :=
    ⟨rfl, rfl, rfl, rfl, rfl⟩
  have hgood := good.of_owns hsame (good.owns.initCache hn)
  rw [kmemCacheInitAt, modify_bind_apply, if_neg (by decide), read_bind_apply]
  split
  · exact Yields.fault trivial
  · refine Yields.bind (buddyAlloc_spec lay.region
      ((kernelOps_plain (P := bootHolding (n + 1)) rfl).toOps _ _ []) (by decide) (by decide) hgood
      (Or.inr fun e he => by cases he)) ?_
    rintro r k₁ ⟨hlocked, A₁, hsub, howns, hres⟩
    rcases hres with ⟨rfl, hinv, -⟩ | ⟨hr, hinv⟩
    · rw [if_pos rfl]
      exact Yields.pure ⟨hlocked, A₁, hsub, hinv, howns⟩
    · rw [if_neg hr]
      rw [size2order_slab] at hinv
      obtain ⟨pages, -, hgood₂, hrun⟩ :=
        slabInit_good (R := HeapEvent E) howns hinv (Nat.lt_succ_self n)
          fun _ hq => absurd hq List.not_mem_nil
      rw [hrun]
      exact Yields.pure ⟨hlocked, _, List.subset_cons_of_subset _ hsub, hgood₂⟩

/-- **`kalloc_init`, class by class.** -/
theorem kallocInitFrom_spec {sizes : List Nat} {n : Nat} (hsizes : MEM_OBJ_SIZES.drop n = sizes)
    (good : HeapGood lay (bootHolding n) k A []) :
    Yields (bootPolicy E) (kallocInitFrom lay (kernelOps lay) sizes n k) fun _ k' =>
      k'.buddyLocked = k.buddyLocked
        ∧ ∃ A', HeapGood lay (bootHolding (n + sizes.length)) k' A' [] := by
  induction sizes generalizing n k A with
  | nil => exact Yields.ok ⟨rfl, A, good⟩
  | cons size sizes ih =>
      have hn : n < MEM_OBJ_SIZES.length := by
        by_contra hge
        rw [List.drop_eq_nil_of_le (Nat.not_lt.mp hge)] at hsizes
        cases hsizes
      have hcons := List.drop_eq_getElem_cons hn
      rw [hsizes] at hcons
      obtain ⟨hsize, hrest⟩ := List.cons.inj hcons
      have hclass : size = classSize n := by
        rw [hsize, classSize, List.getD_eq_getElem _ _ hn]
      rw [kallocInitFrom, hclass]
      refine Yields.bind (earlyAlloc_spec good.owns (by decide)) ?_
      rintro name k₁ ⟨hsame, howns, -⟩
      refine Yields.bind (kmemCacheInitAt_spec (good.of_owns hsame howns) hn) ?_
      rintro - k₂ ⟨hlocked, A₂, -, hgood⟩
      refine (ih hrest.symm hgood).mono ?_
      rintro - k₃ ⟨hlocked₃, A₃, hgood₃⟩
      refine ⟨hlocked₃.trans (hlocked.trans hsame.locked), A₃, ?_⟩
      rwa [List.length_cons, Nat.add_comm sizes.length, ← Nat.add_assoc]

/-- What `pm_pages_init` and `early_init` leave of a memory manager that has not been used. -/
structure Started (lay : Layout) (k : Kernel E) : Prop where
  freePages : k.buddyFreePages = 0
  unlocked : k.buddyLocked = false
  kalloc : k.kallocInited = false
  caches : ∀ c, (k.caches c).locked = false ∧ (k.caches c).expanding = false
  region : ∀ a, PageIn lay.BUDDY_SYSTEM_BASE Layout.BUDDY_SYSTEM_END a →
    k.page a = ⟨PM_STATIC ||| PM_BUDDY, BUDDY_MAX_ORDER + 1, 0⟩
  slab : ∀ i, (k.pages i).flags &&& PM_SLAB = 0

theorem pmPage_slab (lay : Layout) (addr : Nat) (page : Page) :
    (pmPage lay addr page).flags &&& PM_SLAB = 0 := by
  unfold pmPage
  split
  · exact (by decide : (PM_STATIC ||| PM_BUDDY) &&& PM_SLAB = 0)
  · split
    · exact (by decide : PM_STATIC &&& PM_SLAB = 0)
    · exact (by decide : (0 : BitVec 16) &&& PM_SLAB = 0)

/-- Before `buddy_init` nothing is handed out. -/
theorem Started.owns (h : Started lay k) :
    HeapOwns lay (bootHolding 0) { k with earlyBrk := lay.EARLY_HEAP_BASE } [] [] := by
  have hnil : ownedBlobs { k with earlyBrk := lay.EARLY_HEAP_BASE } (bootHolding 0).classes = [] :=
    rfl
  refine ⟨⟨Nat.zero_le _, h.kalloc, le_refl _, Nat.le_add_right _ _, ?_,
    fun c hc => absurd hc (Nat.not_lt_zero c), fun c => (h.caches c).1, fun c => (h.caches c).2, ?_,
    ?_, ?_, ?_, ?_, fun _ ho => absurd ho List.not_mem_nil, fun _ hq => absurd hq List.not_mem_nil⟩,
    fun _ hp => absurd hp List.not_mem_nil, fun _ ho => absurd ho List.not_mem_nil,
    fun _ ho => absurd ho List.not_mem_nil, List.nodup_nil, fun _ hp => absurd hp List.not_mem_nil,
    fun _ hp => absurd hp List.not_mem_nil, fun _ ho => absurd ho List.not_mem_nil⟩
  · show sizeofMemBlock ∣ lay.EARLY_HEAP_BASE - lay.EARLY_HEAP_BASE
    rw [Nat.sub_self]
    exact dvd_zero _
  · rw [hnil]
    exact .refl _
  · rw [hnil]
    exact List.nodup_nil
  · rw [hnil]
    exact fun s hs => absurd hs List.not_mem_nil
  · intro a _ _
    rw [hnil]
    exact iff_of_false (not_not.mpr (h.slab _)) fun ⟨s, hs, _⟩ => absurd hs List.not_mem_nil
  · intro a ha
    show (k.page a).flags &&& PM_BUDDY ≠ 0
    rw [h.region a ha]
    decide

/-- `kalloc_init` after `buddy_init`. -/
theorem kallocInit_spec (good : HeapGood lay (bootHolding 0) k A []) :
    Yields (bootPolicy E) (kallocInit lay (kernelOps lay) k) fun _ k' =>
      k'.buddyLocked = k.buddyLocked ∧ ∃ A, HeapGood lay (holding [] []) k' A [] := by
  rw [kallocInit]
  refine Yields.bind (kallocInitFrom_spec rfl good) ?_
  rintro - k₁ ⟨hlocked, A₁, hgood⟩
  refine Yields.ok ⟨hlocked, A₁, hgood.of_owns ⟨rfl, rfl, rfl, rfl, rfl⟩ ?_⟩
  have ok := hgood.owns.heap
  have cl := hgood.owns.clients
  exact ⟨⟨ok.classes_le, rfl, ok.brk_ge, ok.brk_le, ok.brk_slot, ok.cache, ok.locked, ok.expanding,
    ok.handed, ok.distinct, ok.region, ok.slab, ok.buddy, fun _ ho => absurd ho List.not_mem_nil,
    fun _ hq => absurd hq List.not_mem_nil⟩, cl.mem, cl.object, cl.apart, cl.nodup,
    cl.slot, cl.memFits, cl.objectFits⟩

theorem buddyInit_started (hfit : lay.EARLY_HEAP_END ≤ PM_END) (h : Started lay k) :
    Yields (bootPolicy E) (buddyInit lay (kernelOps lay)
      { k with earlyBrk := lay.EARLY_HEAP_BASE }) fun r k' => r = 0 ∧ k'.buddyLocked = false
        ∧ ∃ k'', HeapGood lay (bootHolding 0) k'' [] [] ∧ k' = { k'' with buddyInited := true } := by
  -- the address of the early heap is a large number, which nothing may compute
  obtain ⟨k₁, hk⟩ : ∃ k₁ : Kernel E, k₁ = { k with earlyBrk := lay.EARLY_HEAP_BASE } := ⟨_, rfl⟩
  have hpages : k₁.buddyFreePages = 0 := by rw [hk, ← h.freePages]
  have hlocked : k₁.buddyLocked = false := by rw [hk, ← h.unlocked]
  have howns : HeapOwns lay (bootHolding 0) k₁ [] [] := by rw [hk]; exact h.owns
  have hclean : ∀ x, PageIn lay.BUDDY_SYSTEM_BASE Layout.BUDDY_SYSTEM_END x →
      (k₁.page x).priv = 0 := by
    intro x hx
    have hpage : k₁.page x = k.page x := by rw [hk]; rfl
    rw [hpage, h.region x hx]
  rw [← hk]
  refine (buddyInit_spec (kernelOps_plain rfl) hfit hpages hclean howns).mono ?_
  rintro r k₂ ⟨hr, hsame, hgood⟩
  exact ⟨hr, hsame.trans hlocked, hgood⟩

/-- What `pm_init` does after `pm_pages_init`. -/
theorem pmInit_started (hfit : lay.EARLY_HEAP_END ≤ PM_END) (h : Started lay k) :
    Yields (bootPolicy E) ((do
      earlyInit lay
      let ret ← buddyInit lay (kernelOps lay)
      if ret ≠ 0 then pure ret
      else do
        kallocInit lay (kernelOps lay)
        pure 0 : Mem E (HeapEvent E) Int) k) fun _ k' =>
      k'.buddyLocked = false ∧ ∃ A, HeapGood lay (holding [] []) k' A [] := by
  have hearly : (earlyInit lay : Mem E (HeapEvent E) Unit) k
      = .ok () { k with earlyBrk := lay.EARLY_HEAP_BASE } [] := rfl
  rw [bind_ok hearly, Outcome.after_nil]
  refine Yields.bind (buddyInit_started hfit h) ?_
  rintro r k₂ ⟨hr, hlocked, k₀, hgood, hk⟩
  have hinited : HeapGood lay (bootHolding 0) k₂ [] [] := by
    rw [hk]
    exact hgood.of_owns ⟨rfl, rfl, rfl, rfl, rfl⟩
      (HeapOwns.congr (k := k₀) ⟨fun _ => rfl, rfl, rfl, rfl, rfl⟩ hgood.owns)
  rw [if_neg (not_not.mpr hr)]
  refine Yields.bind (kallocInit_spec hinited) ?_
  rintro - k₃ ⟨hlocked₃, hheap⟩
  exact Yields.pure ⟨hlocked₃.trans hlocked, hheap⟩

theorem pmPagesInit_started {ext : E} {log : List (HeapEvent E)}
    (hrun : pmPagesInit lay (bss ext) = .ok 0 k log) :
    lay.EARLY_HEAP_END ≤ PM_END ∧ Started lay k := by
  cases Nat.lt_or_ge PM_END lay.EARLY_HEAP_END with
  | inl hlarge =>
      rw [pmPagesInit, if_pos hlarge] at hrun
      cases hrun
  | inr hfit =>
      have hregion := (pmPagesInit_spec (pmPagesInit_apply (R := Empty) hfit (bss ext))).2.1
      rw [pmPagesInit_apply hfit] at hrun
      cases hrun
      exact ⟨hfit, rfl, rfl, rfl, fun _ => ⟨rfl, rfl⟩, hregion, fun i => pmPage_slab lay _ _⟩

/-- **Boot** leaves the invariant of the heap, with nothing in use. -/
theorem pmInit_good {ext : E} {log : List (HeapEvent E)}
    (hrun : pmInit lay (kernelOps lay) (bss ext) = .ok 0 k log) :
    k.buddyLocked = false ∧ ∃ A, HeapGood lay (holding [] []) k A [] := by
  have hstarted : ∀ {k₁ : Kernel E} {l : List (HeapEvent E)}, pmPagesInit lay (bss ext) = .ok 0 k₁ l →
      lay.EARLY_HEAP_END ≤ PM_END ∧ Started lay k₁ := pmPagesInit_started
  -- the ends of the regions are large numbers, which no proof computes
  rw [pmInit] at hrun
  generalize (pmPagesInit lay : Mem E (HeapEvent E) Int) = x at hrun hstarted
  obtain ⟨r, k₁, l₁, l₂, hpages, hrest⟩ := bind_ok_inv hrun
  by_cases hr : r = 0
  · rw [hr] at hpages
    have h := hstarted hpages
    rw [if_neg (not_not.mpr hr)] at hrest
    have hyields := pmInit_started h.1 h.2
    rw [hrest] at hyields
    exact (hyields fun _ _ => trivial).2
  · rw [if_pos hr] at hrest
    cases hrest
    exact absurd rfl hr

end NoobKernel.Mm
