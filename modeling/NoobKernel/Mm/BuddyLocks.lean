import NoobKernel.Mm.SlabLocks

set_option autoImplicit false

/-! # Locks of the buddy system

The buddy system calls `alloc_mem_block` and `free_mem_block` while it holds its lock. `OpsTake A P`
says that the two take no locks but `A`; then `buddy_alloc` takes no others either, and `buddy_free`
only its own besides. The loop of `merge_blocks` ends in any state, also in one where the order of
a page is not the one of its list.
-/

namespace NoobKernel.Mm

open Misc Exec Locking

variable {E R L : Type} {outer : Locking E L Unit} {A : Set (MemLock L)} {P : (Nat → Bool) → Prop}
  {ops : MetaOps E R} {α : Type}

/-- What `alloc_mem_block` and `free_mem_block` take. The blocks that are given back stay within
the slabs. -/
structure OpsTake (outer : Locking E L Unit) (A : Set (MemLock L)) (P : (Nat → Bool) → Prop)
    (ops : MetaOps E R) : Prop where
  alloc : ∀ e, (memLocks outer).Takes (lockPolicy R) A P (ops.allocMemBlock e)
  free : ∀ p, (slabLocks outer).Takes (lockPolicy R) A (fun f => P f.expanding)
    (ops.freeMemBlock p)

/-! ## Steps -/

/-- A change of the data of the buddy system. -/
theorem same_of_eq {k k' : Kernel E} (hlocked : k'.buddyLocked = k.buddyLocked)
    (hcaches : k'.caches = k.caches) (hext : k'.ext = k.ext) : (memLocks outer).Same k k' where
  held l := by
    cases l with
    | buddy => exact hlocked
    | cache c => exact congrArg (fun caches => KmemCache.locked (caches c)) hcaches
    | outer l => exact congrArg (fun ext => outer.held ext l) hext
  frame := congrArg (fun (caches : Nat → KmemCache) c => (caches c).expanding) hcaches

theorem modify_takes {g : Kernel E → Kernel E}
    (h : ∀ k, (g k).buddyLocked = k.buddyLocked ∧ (g k).caches = k.caches ∧ (g k).ext = k.ext) :
    (memLocks outer).Takes (lockPolicy R) A P (modify g) :=
  Takes.modify fun k => same_of_eq (h k).1 (h k).2.1 (h k).2.2

theorem readPage_takes (addr : Nat) :
    (memLocks outer).Takes (lockPolicy R) A P (readPage addr) := by
  unfold readPage
  cases addr2index addr with
  | none => exact Takes.fault (by simp [lockPolicy])
  | some i => exact Takes.read fun k => Takes.pure _

theorem modifyPage_takes (addr : Nat) (f : Page → Page) :
    (memLocks outer).Takes (lockPolicy R) A P (modifyPage addr f) := by
  unfold modifyPage
  cases addr2index addr with
  | none => exact Takes.fault (by simp [lockPolicy])
  | some i => exact modify_takes fun _ => ⟨rfl, rfl, rfl⟩

theorem listDel_takes (p : Nat) : (memLocks outer).Takes (lockPolicy R) A P (listDel p) := by
  refine Takes.read fun k => ?_
  split
  · exact modify_takes fun _ => ⟨rfl, rfl, rfl⟩
  · exact Takes.fault (by simp [lockPolicy])

theorem listAdd_takes (p i : Nat) : (memLocks outer).Takes (lockPolicy R) A P (listAdd p i) :=
  modify_takes fun _ => ⟨rfl, rfl, rfl⟩

theorem listAddTail_takes (p i : Nat) :
    (memLocks outer).Takes (lockPolicy R) A P (listAddTail p i) :=
  modify_takes fun _ => ⟨rfl, rfl, rfl⟩

/-! ## Merging -/

section

variable {T : Type} {Q : T → Kernel E → Prop} {k : Kernel E}

theorem readPage_yields {addr : Nat} {f : Page → Mem E R T}
    (h : Yields (lockPolicy R) (f (k.page addr) k) Q) :
    Yields (lockPolicy R) ((readPage addr >>= f) k) Q := by
  unfold readPage
  cases addr2index addr with
  | none => exact Yields.fault (by simp [lockPolicy])
  | some i =>
      have hread : (do let k ← read; pure (k.page addr) : Mem E R Page) k
          = .ok (k.page addr) k [] := rfl
      rw [bind_ok hread, Outcome.after_nil]
      exact h

/-- `k'` is `k` with another record for the page of an address. -/
structure PageSet (outer : Locking E L Unit) (addr : Nat) (page : Page) (k k' : Kernel E) :
    Prop where
  same : (memLocks outer).Same k k'
  memBlock : k'.memBlock = k.memBlock
  lists : k'.buddyFreeList = k.buddyFreeList
  page_eq : ∀ a, k'.page a
    = if (a - PM_START) / PAGE_SIZE = (addr - PM_START) / PAGE_SIZE then page else k.page a

theorem pageSet_setPage (outer : Locking E L Unit) (k : Kernel E) (addr : Nat) (page : Page) :
    PageSet outer addr page k (k.setPage addr page) where
  same := same_of_eq rfl rfl rfl
  memBlock := rfl
  lists := rfl
  page_eq a := by
    unfold Kernel.page Kernel.setPage
    dsimp only
    rw [Function.update_apply]

theorem modifyPage_yields (outer : Locking E L Unit) {addr : Nat} {g : Page → Page}
    {f : Unit → Mem E R T}
    (h : ∀ k', PageSet outer addr (g (k.page addr)) k k' → Yields (lockPolicy R) (f () k') Q) :
    Yields (lockPolicy R) ((modifyPage addr g >>= f) k) Q := by
  unfold modifyPage
  cases addr2index addr with
  | none => exact Yields.fault (by simp [lockPolicy])
  | some i =>
      rw [modify_bind_apply]
      exact h _ (pageSet_setPage outer k addr _)

theorem listDel_yields {p : Nat} {f : Unit → Mem E R T}
    (h : Yields (lockPolicy R) (f () (k.unlink p)) Q) :
    Yields (lockPolicy R) ((listDel p >>= f) k) Q := by
  have hbind : Yields (lockPolicy R) ((listDel p : Mem E R Unit) k) fun _ k' => k' = k.unlink p := by
    unfold listDel
    rw [read_bind_apply]
    split
    · exact Yields.ok rfl
    · exact Yields.fault (by simp [lockPolicy])
  refine Yields.bind hbind ?_
  rintro - k' rfl
  exact h

end

/-- The orders of pages that are at least `i` stay so. -/
def OrdersKept (i : Nat) (k k' : Kernel E) : Prop :=
  ∀ a, i ≤ (k.page a).order → i ≤ (k'.page a).order

theorem PageSet.ordersKept {i addr : Nat} {page : Page} {k k' : Kernel E}
    (hset : PageSet outer addr page k k') (h : i ≤ (k.page addr).order → i ≤ page.order) :
    OrdersKept i k k' := by
  intro a ha
  rw [hset.page_eq]
  split
  · rename_i heq
    refine h ?_
    rwa [Kernel.page, heq] at ha
  · exact ha

/-- How often a block can still be taken off the list of order `i`: once more if its page has a
lower order. -/
def rank (i : Nat) (k : Kernel E) (p : Nat) : Nat :=
  if (k.page (k.memBlock p)).order < i then 2 else 1

def rankSum (i : Nat) (k : Kernel E) (l : List Nat) : Nat := (l.map (rank i k)).sum

theorem rank_pos (i : Nat) (k : Kernel E) (p : Nat) : 1 ≤ rank i k p := by
  unfold rank
  split <;> omega

theorem rankSum_erase_le (i : Nat) (k : Kernel E) (l : List Nat) (p : Nat) :
    rankSum i k (l.erase p) ≤ rankSum i k l := by
  by_cases hp : p ∈ l
  · have := List.sum_map_erase (rank i k) hp
    unfold rankSum
    omega
  · rw [List.erase_of_not_mem hp]

theorem rankSum_erase (i : Nat) (k : Kernel E) {l : List Nat} {p : Nat} (hp : p ∈ l) :
    rank i k p + rankSum i k (l.erase p) = rankSum i k l :=
  List.sum_map_erase (rank i k) hp

theorem rankSum_le (i : Nat) (k : Kernel E) (l : List Nat) : rankSum i k l ≤ 2 * l.length := by
  have hle : ∀ n ∈ l.map (rank i k), n ≤ 2 := by
    intro n hn
    obtain ⟨p, -, rfl⟩ := List.mem_map.mp hn
    unfold rank
    split <;> omega
  have := List.sum_le_card_nsmul _ _ hle
  rw [List.length_map, smul_eq_mul] at this
  unfold rankSum
  omega

theorem rankSum_mono {i : Nat} {k k' : Kernel E} (hm : k'.memBlock = k.memBlock)
    (ho : OrdersKept i k k') (l : List Nat) : rankSum i k' l ≤ rankSum i k l := by
  refine List.sum_le_sum fun p _ => ?_
  unfold rank
  rw [hm]
  have := ho (k.memBlock p)
  split_ifs <;> omega

/-- The scan changes nothing; the buddy of the block it finds has the order of the list. -/
theorem mergeScan_yields (i : Nat) (l : List Nat) (k : Kernel E) :
    Yields (lockPolicy R) (mergeScan i l k) fun found k' => k' = k ∧ ∀ p q, found = some (p, q) →
      p ∈ l ∧ (k.page (getBuddyAddr (k.memBlock p) (k.page (k.memBlock p)).order)).order = i := by
  induction l with
  | nil => exact Yields.pure ⟨rfl, fun _ _ h => nomatch h⟩
  | cons p ps ih =>
      unfold mergeScan
      rw [read_bind_apply]
      refine readPage_yields (readPage_yields ?_)
      split
      · exact ih.mono fun _ _ ⟨hk, hfound⟩ => ⟨hk, fun p' q h =>
          ⟨List.mem_cons_of_mem p (hfound p' q h).1, (hfound p' q h).2⟩⟩
      · rename_i hbuddy
        refine Yields.pure ⟨rfl, fun p' q h => ?_⟩
        cases h
        exact ⟨List.mem_cons_self, not_not.mp fun h => hbuddy (Or.inr h)⟩

/-- What `absorb` leaves: the block `kept` is on the list of the order its page has now. -/
structure Absorbed (outer : Locking E L Unit) (i keptStart kept : Nat) (k k' : Kernel E) :
    Prop where
  same : (memLocks outer).Same k k'
  memBlock : k'.memBlock = k.memBlock
  orders : OrdersKept i k k'
  order : (k'.page keptStart).order = (k.page keptStart).order + 1
    ∨ (k'.page keptStart).order = BUDDY_MAX_ORDER + 2
  lists : k'.buddyFreeList = Function.update k.buddyFreeList (k'.page keptStart).order
    (kept :: k.buddyFreeList (k'.page keptStart).order)

theorem absorb_yields (hops : OpsTake outer A P ops) {i : Nat} (hi : i ≤ BUDDY_MAX_ORDER)
    (gone goneStart kept keptStart : Nat) {k : Kernel E} (hP : P ((memLocks outer).frame k))
    (hfree : ∀ l ∈ A, (memLocks outer).held k l = false) :
    Yields (lockPolicy R) (absorb ops gone goneStart kept keptStart k) fun _ k' =>
      Absorbed outer i keptStart kept k k' := by
  refine Yields.bind (hops.free gone k hP hfree) fun _ k₁ hsame₁ => ?_
  have hpages : k₁.pages = k.pages := congrArg MemFrame.pages hsame₁.frame
  have hlists : k₁.buddyFreeList = k.buddyFreeList := congrArg MemFrame.freeList hsame₁.frame
  have hblocks : k₁.memBlock = k.memBlock := congrArg MemFrame.memBlock hsame₁.frame
  have hsame : (memLocks outer).Same k k₁ :=
    ⟨hsame₁.held, congrArg MemFrame.expanding hsame₁.frame⟩
  have hpage : ∀ a, k₁.page a = k.page a := fun a => by rw [Kernel.page, Kernel.page, hpages]
  refine modifyPage_yields outer fun k₂ h₂ => modifyPage_yields outer fun k₃ h₃ =>
    modifyPage_yields outer fun k₄ h₄ => readPage_yields (Yields.ok ?_)
  have horders₂ : OrdersKept i k₁ k₂ := h₂.ordersKept id
  have horders₃ : OrdersKept i k₂ k₃ := h₃.ordersKept fun _ => Nat.le_succ_of_le hi
  have horders₄ : OrdersKept i k₃ k₄ := h₄.ordersKept fun h => Nat.le_succ_of_le h
  have hsame₄ := h₂.same.trans (h₃.same.trans h₄.same)
  have hblocks₄ : k₄.memBlock = k₁.memBlock := by rw [h₄.memBlock, h₃.memBlock, h₂.memBlock]
  have hlists₄ : k₄.buddyFreeList = k₁.buddyFreeList := by rw [h₄.lists, h₃.lists, h₂.lists]
  -- where both pages are the same one the order is already out of bounds
  have horder₃ : (k₃.page keptStart).order = (k.page keptStart).order
      ∨ (k₃.page keptStart).order = BUDDY_MAX_ORDER + 1 := by
    rw [h₃.page_eq]
    split_ifs with hindex
    · exact Or.inr rfl
    · rw [h₂.page_eq, if_neg hindex, hpage]
      exact Or.inl rfl
  have horder₄ : (k₄.page keptStart).order = (k₃.page keptStart).order + 1 := by
    rw [h₄.page_eq, if_pos rfl]
  refine ⟨?_, hblocks₄.trans hblocks, fun a ha => ?_, ?_, ?_⟩
  · exact hsame.trans (hsame₄.trans (same_of_eq rfl rfl rfl))
  · exact horders₄ a (horders₃ a (horders₂ a (by rwa [hpage])))
  · rw [Kernel.setList_page]
    omega
  · rw [Kernel.setList_page, Kernel.setList_freeList, hlists₄, hlists]

/-- The two blocks that `mergePair` takes off the lists, before one of them is put back. -/
theorem rankSum_unlink {i p : Nat} (q : Nat) {k k' : Kernel E} (hp : p ∈ k.buddyFreeList i)
    (hm : k'.memBlock = ((k.unlink p).unlink q).memBlock)
    (ho : OrdersKept i ((k.unlink p).unlink q) k') :
    rankSum i k' (((k.unlink p).unlink q).buddyFreeList i) + rank i k p
      ≤ rankSum i k (k.buddyFreeList i) := by
  have ho' : OrdersKept i k k' := fun a ha =>
    ho a (by rwa [Kernel.unlink_page, Kernel.unlink_page])
  have hlist : ((k.unlink p).unlink q).buddyFreeList i = ((k.buddyFreeList i).erase p).erase q := rfl
  have h₁ : rankSum i k' (((k.buddyFreeList i).erase p).erase q)
      ≤ rankSum i k (((k.buddyFreeList i).erase p).erase q) := rankSum_mono hm ho' _
  have h₂ := rankSum_erase_le i k ((k.buddyFreeList i).erase p) q
  have h₃ := rankSum_erase i k hp
  rw [hlist]
  omega

/-- **A round of the inner loop** takes a block off the list for good, or its page had a lower
order before. -/
theorem mergePair_yields (hops : OpsTake outer A P ops) {i p q : Nat} (hi : i ≤ BUDDY_MAX_ORDER)
    {k : Kernel E} (hP : P ((memLocks outer).frame k))
    (hfree : ∀ l ∈ A, (memLocks outer).held k l = false) (hp : p ∈ k.buddyFreeList i)
    (hq : (k.page (getBuddyAddr (k.memBlock p) (k.page (k.memBlock p)).order)).order = i) :
    Yields (lockPolicy R) (mergePair ops p q k) fun _ k' => (memLocks outer).Same k k'
      ∧ rankSum i k' (k'.buddyFreeList i) < rankSum i k (k.buddyFreeList i) := by
  unfold mergePair
  rw [read_bind_apply]
  refine readPage_yields (listDel_yields (listDel_yields ?_))
  have hsame : (memLocks outer).Same k ((k.unlink p).unlink q) := same_of_eq rfl rfl rfl
  have hfree₂ : ∀ l ∈ A, (memLocks outer).held ((k.unlink p).unlink q) l = false :=
    fun l hl => (hsame.held l).trans (hfree l hl)
  have hP₂ : P ((memLocks outer).frame ((k.unlink p).unlink q)) := hsame.frame ▸ hP
  have hmax : BUDDY_MAX_ORDER = 11 := rfl
  have hpos := rank_pos i k p
  split
  · refine (absorb_yields hops hi p _ q _ hP₂ hfree₂).mono fun _ k' h => ⟨hsame.trans h.same, ?_⟩
    have hrest := rankSum_unlink q hp h.memBlock h.orders
    -- the buddy moves to the list above
    have hne : i ≠ (k'.page (getBuddyAddr (k.memBlock p) (k.page (k.memBlock p)).order)).order := by
      have := h.order
      rw [Kernel.unlink_page, Kernel.unlink_page, hq] at this
      omega
    rw [h.lists, Function.update_of_ne hne]
    omega
  · refine (absorb_yields hops hi q _ p _ hP₂ hfree₂).mono fun _ k' h => ⟨hsame.trans h.same, ?_⟩
    have hrest := rankSum_unlink q hp h.memBlock h.orders
    by_cases hback : i = (k'.page (k.memBlock p)).order
    · -- the block comes back, with the order of the list
      have horder := h.order
      rw [Kernel.unlink_page, Kernel.unlink_page, ← hback] at horder
      have hbefore : rank i k p = 2 := if_pos (by omega)
      have hafter : rank i k' p = 1 := by
        refine if_neg ?_
        rw [h.memBlock, Kernel.unlink_memBlock, Kernel.unlink_memBlock, ← hback]
        exact lt_irrefl i
      rw [h.lists, ← hback, Function.update_self, rankSum, List.map_cons, List.sum_cons, hafter]
      rw [rankSum] at hrest
      omega
    · rw [h.lists, Function.update_of_ne hback]
      omega

/-- **The inner loop of `merge_blocks` ends**, whatever state it starts in. -/
theorem mergeLevel_takesAt (hops : OpsTake outer A P ops) {i : Nat} (hi : i ≤ BUDDY_MAX_ORDER)
    (fuel : Nat) {k : Kernel E} (hP : P ((memLocks outer).frame k))
    (hfuel : rankSum i k (k.buddyFreeList i) < fuel) :
    (memLocks outer).TakesAt (lockPolicy R) A (mergeLevel ops i fuel) k := by
  induction fuel generalizing k with
  | zero => exact absurd hfuel (Nat.not_lt_zero _)
  | succ fuel ih =>
      intro hfree
      unfold mergeLevel
      rw [read_bind_apply]
      refine Yields.bind (mergeScan_yields i (k.buddyFreeList i) k) ?_
      rintro found k' ⟨rfl, hfound⟩
      cases found with
      | none => exact Yields.pure (Same.refl _)
      | some pair =>
          obtain ⟨p, q⟩ := pair
          obtain ⟨hp, hq⟩ := hfound p q rfl
          refine Yields.bind (mergePair_yields hops hi hP hfree hp hq) ?_
          rintro - k₁ ⟨hsame, hlt⟩
          have hrest := ih (hsame.frame ▸ hP) (by omega)
            fun l hl => (hsame.held l).trans (hfree l hl)
          exact hrest.mono fun _ _ h => hsame.trans h

theorem mergeBlocks_takes (hops : OpsTake outer A P ops) {order : Nat}
    (horder : order ≤ BUDDY_MAX_ORDER + 1) :
    (memLocks outer).Takes (lockPolicy R) A P (mergeBlocks ops order) := by
  induction order with
  | zero => exact Takes.pure ()
  | succ i ih =>
      unfold mergeBlocks
      refine Takes.bind (ih (by omega)) fun _ => Takes.read_at fun k hP => ?_
      split
      · exact Takes.pure () k hP
      · have := rankSum_le i k (k.buddyFreeList i)
        exact mergeLevel_takesAt hops (by omega) _ hP (by omega)

/-! ## Splitting, allocating and freeing -/

theorem splitOne_takes (hops : OpsTake outer A P ops) (newOrder : Nat) :
    (memLocks outer).Takes (lockPolicy R) A P (splitOne ops newOrder) := by
  refine Takes.read fun k => Takes.bind (firstEntry_takes _).coarsen fun block => ?_
  refine Takes.bind (readPage_takes _) fun page => ?_
  split
  · exact Takes.fault (by simp [lockPolicy])
  · refine Takes.bind (listDel_takes block) fun _ => Takes.bind (hops.alloc _) fun buddyBlock => ?_
    split
    · exact Takes.fault (by simp [lockPolicy])
    · refine Takes.bind (modifyPage_takes _ _) fun _ => Takes.read fun k => ?_
      refine Takes.bind (modify_takes fun _ => ⟨rfl, rfl, rfl⟩) fun _ => ?_
      refine Takes.bind (modifyPage_takes _ _) fun _ => ?_
      refine Takes.bind (modifyPage_takes _ _) fun _ => ?_
      exact Takes.bind (listAddTail_takes _ _) fun _ => listAddTail_takes _ _

theorem splitDown_takes (hops : OpsTake outer A P ops) (targetOrder n : Nat) :
    (memLocks outer).Takes (lockPolicy R) A P (splitDown ops targetOrder n) := by
  induction n with
  | zero => exact Takes.pure ()
  | succ n ih => exact Takes.bind (splitOne_takes hops _) fun _ => ih

theorem splitBlocks_takes (hops : OpsTake outer A P ops) (targetOrder : Nat) :
    (memLocks outer).Takes (lockPolicy R) A P (splitBlocks ops targetOrder) := by
  refine Takes.read fun k => ?_
  split
  · exact Takes.pure ()
  · exact splitDown_takes hops _ _

theorem buddyAllocInner_takes (hops : OpsTake outer A P ops) (order : Nat) :
    (memLocks outer).Takes (lockPolicy R) A P (buddyAllocInner ops order) := by
  refine Takes.read fun k => Takes.bind (firstEntry_takes _).coarsen fun block => ?_
  refine Takes.bind (readPage_takes _) fun page => ?_
  split
  · exact Takes.fault (by simp [lockPolicy])
  · refine Takes.bind (modifyPage_takes _ _) fun _ => Takes.bind (listDel_takes block) fun _ => ?_
    refine Takes.bind (hops.free block).coarsen fun _ => ?_
    exact Takes.bind (modify_takes fun _ => ⟨rfl, rfl, rfl⟩) fun _ => Takes.pure _

theorem buddyAllocNolock_takes (hops : OpsTake outer A P ops) {size : Nat}
    (hsize : PAGE_SIZE ≤ size ∧ size ≤ BUDDY_BLOB_SIZE) :
    (memLocks outer).Takes (lockPolicy R) A P (buddyAllocNolock ops size) := by
  have horder := (size2order_spec hsize.1 hsize.2).1
  refine Takes.read fun k => ?_
  split
  · exact buddyAllocInner_takes hops _
  · refine Takes.bind (mergeBlocks_takes hops (by omega)) fun _ => Takes.read fun k => ?_
    split
    · exact buddyAllocInner_takes hops _
    · refine Takes.bind (splitBlocks_takes hops _) fun _ => Takes.read fun k => ?_
      split
      · exact buddyAllocInner_takes hops _
      · exact Takes.pure 0

/-- **`buddy_alloc`** takes its lock unless it is held already. -/
theorem buddyAlloc_takes (hops : OpsTake outer A P ops) (hA : .buddy ∉ A) (size : Nat) :
    (memLocks outer).Takes (lockPolicy R) A P (buddyAlloc ops size) := by
  unfold buddyAlloc
  split
  · exact Takes.pure 0
  · rename_i hsize
    have hvalid : PAGE_SIZE ≤ size ∧ size ≤ BUDDY_BLOB_SIZE := by omega
    have hinner := buddyAllocNolock_takes (R := R) hops hvalid
    exact Takes.holding (e := Fault.lock) hinner
      (Gives.bind hinner hA (Set.Subset.refl A) fun addr =>
        Gives.release (f := fun _ => pure addr) (Takes.pure addr))

/-- **`buddy_free`** takes its lock, which must be free. -/
theorem buddyFree_takes (hops : OpsTake outer A P ops) (addr : Nat) :
    (memLocks outer).Takes (lockPolicy R) (insert .buddy A) P (buddyFree ops addr) := by
  have hsub : A ⊆ insert .buddy A := Set.subset_insert _ A
  refine Takes.bind ((hops.alloc none).mono hsub) fun block => ?_
  split
  · exact Takes.fault (by simp [lockPolicy])
  · refine Takes.bind (modify_takes fun _ => ⟨rfl, rfl, rfl⟩) fun _ => ?_
    refine Takes.bind (modifyPage_takes _ _) fun _ => ?_
    refine Takes.acquire (e := Fault.lock) (Set.mem_insert _ A) ?_
    refine Gives.quiet (readPage_takes _) fun page => ?_
    refine Gives.quiet (modify_takes fun _ => ⟨rfl, rfl, rfl⟩) fun _ => ?_
    exact Gives.quiet (listAdd_takes _ _) fun _ => Gives.release_last

end NoobKernel.Mm
