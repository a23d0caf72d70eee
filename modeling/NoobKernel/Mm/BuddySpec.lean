import NoobKernel.Mm.BuddyInv

set_option autoImplicit false

/-! # What the functions of the buddy system do

The specifications are relative to a `Contract`: what the rest of the memory manager keeps while
the buddy system runs, and how the allocated blocks may grow when a `mem_block` is allocated.
`OpsSpec` is what the allocator of `mem_block`s has to do under a contract, with the entries `S`
suspended outside. Everything else is proved here once, for any allocator that does it.
-/

namespace NoobKernel.Mm

open Misc Exec
open Dyadic hiding Mem

variable {E R : Type} {lo hi : Nat}

structure Contract (E : Type) where
  /-- the rest of the kernel, the allocated blocks and the addresses of the `mem_block`s in use -/
  Owns : Kernel E → List Block → List Nat → Prop
  Grows : List Block → List Block → Prop
  rest : ∀ {k k' A M}, RestSame k k' → Owns k A M → Owns k' A M
  subset : ∀ {k A M M'}, M' ⊆ M → Owns k A M → Owns k A M'
  refl : ∀ A, Grows A A
  trans : ∀ {A A' A''}, Grows A A' → Grows A' A'' → Grows A A''
  mono : ∀ {A A'}, Grows A A' → A ⊆ A'

/-- The invariant of the buddy system together with the contract. -/
structure Good (c : Contract E) (lo hi : Nat) (k : Kernel E) (A : List Block) (S : List Entry) :
    Prop where
  inv : BuddyInv lo hi k A S
  owns : c.Owns k A (ptrs k S)

/-- **The obligations of `alloc_mem_block` and `free_mem_block`.** -/
structure OpsSpec (pol : Policy R Fault) (c : Contract E) (lo hi : Nat) (S : List Entry)
    (ops : MetaOps E R) : Prop where
  alloc : ∀ (X : Option Entry) {k A}, Good c lo hi k A (X.toList ++ S) →
    Yields pol (ops.allocMemBlock X k) fun r k' => k'.buddyLocked = k.buddyLocked
      ∧ ∃ A', c.Grows A A' ∧ Good c lo hi k' A' (X.toList ++ S)
        ∧ (r = 0 → pol.allowed .metadataOOM)
        ∧ (r ≠ 0 → r ∉ ptrs k' (X.toList ++ S) ∧ c.Owns k' A' (r :: ptrs k' (X.toList ++ S)))
  free : ∀ {k A p M}, c.Owns k A (p :: M) → p ∉ M → p ≠ 0 →
    Yields pol (ops.freeMemBlock p k) fun _ k' => BuddySame k k' ∧ c.Owns k' A M

/-- The obligation of `free_mem_block`, all that merging asks for. -/
structure FreeSpec (pol : Policy R Fault) (c : Contract E) (ops : MetaOps E R) : Prop where
  free : ∀ {k A p M}, c.Owns k A (p :: M) → p ∉ M → p ≠ 0 →
    Yields pol (ops.freeMemBlock p k) fun _ k' => BuddySame k k' ∧ c.Owns k' A M

variable {pol : Policy R Fault} {c : Contract E} {S : List Entry} {ops : MetaOps E R}
variable {k k' : Kernel E} {A A' : List Block}

theorem OpsSpec.frees (spec : OpsSpec pol c lo hi S ops) : FreeSpec pol c ops := ⟨spec.free⟩

/-! ## Pages of the region -/

section Pages

variable {α : Type} {a b : Nat}

theorem Region.bounds (reg : Region lo hi) (ha : PageIn lo hi a) : PM_START ≤ a ∧ a < PM_END :=
  ⟨reg.start_le.trans ha.2.1, Nat.lt_of_lt_of_le ha.2.2 reg.le_end⟩

theorem Region.readPage_bind (reg : Region lo hi) (ha : PageIn lo hi a)
    (f : Page → Mem E R α) : (readPage a >>= f) k = f (k.page a) k := by
  have h := readPage_apply (R := R) (reg.bounds ha).1 (reg.bounds ha).2 k
  rw [bind_ok h, Outcome.after_nil]

theorem Region.modifyPage_bind (reg : Region lo hi) (ha : PageIn lo hi a) (g : Page → Page)
    (f : Unit → Mem E R α) :
    (modifyPage a g >>= f) k = f () (k.setPage a (g (k.page a))) := by
  have h := modifyPage_apply (R := R) (reg.bounds ha).1 (reg.bounds ha).2 g k
  rw [bind_ok h, Outcome.after_nil]

theorem Region.page_setPage (reg : Region lo hi) (ha : PageIn lo hi a) (hb : PageIn lo hi b)
    (p : Page) : (k.setPage a p).page b = if b = a then p else k.page b := by
  split
  · rename_i heq
    rw [heq]
    exact page_setPage_self k a p
  · rename_i hne
    exact page_setPage_of_ne k p (reg.bounds ha).1 (reg.bounds hb).1 ha.1 hb.1 hne

theorem Region.pageIn_buddy (reg : Region lo hi) {o : Nat} (ha : Aligned PAGE_SHIFT (a, o))
    (hin : PageIn lo hi a) (ho : o < BUDDY_MAX_ORDER) :
    PageIn lo hi (Dyadic.buddy PAGE_SHIFT a o) :=
  ⟨page_dvd ha.buddy, reg.buddy ha hin.2 ho⟩

end Pages

/-- Only orders and entries of pages differ. -/
structure PagesOnly (k k' : Kernel E) : Prop where
  rest : RestSame k k'
  freeList : k'.buddyFreeList = k.buddyFreeList
  memBlock : k'.memBlock = k.memBlock
  freePages : k'.buddyFreePages = k.buddyFreePages
  locked : k'.buddyLocked = k.buddyLocked

theorem PagesOnly.setPage (k : Kernel E) (a : Nat) {p : Page} (hp : p.flags = (k.page a).flags) :
    PagesOnly k (k.setPage a p) :=
  ⟨RestSame.setPage k a hp, rfl, rfl, rfl, rfl⟩

theorem PagesOnly.trans {k₁ k₂ k₃ : Kernel E} (h : PagesOnly k₁ k₂) (h' : PagesOnly k₂ k₃) :
    PagesOnly k₁ k₃ where
  rest := h.rest.trans h'.rest
  freeList := h'.freeList.trans h.freeList
  memBlock := h'.memBlock.trans h.memBlock
  freePages := h'.freePages.trans h.freePages
  locked := h'.locked.trans h.locked

/-- `k'` is `k` after an assignment to the page of `a`. -/
structure Assigned (lo hi a : Nat) (g : Page → Page) (k k' : Kernel E) : Prop where
  only : PagesOnly k k'
  self : k'.page a = g (k.page a)
  other : ∀ x, PageIn lo hi x → x ≠ a → k'.page x = k.page x

theorem Region.assign (reg : Region lo hi) {a : Nat} (ha : PageIn lo hi a) (g : Page → Page)
    (hflags : ∀ p, (g p).flags = p.flags) (k : Kernel E) :
    ∃ k', Assigned lo hi a g k k'
      ∧ ∀ {α : Type} (f : Unit → Mem E R α), (modifyPage a g >>= f) k = f () k' := by
  refine ⟨k.setPage a (g (k.page a)), ⟨PagesOnly.setPage k a (hflags _), ?_, ?_⟩, ?_⟩
  · exact page_setPage_self k a _
  · intro x hx hne
    rw [reg.page_setPage ha hx, if_neg hne]
  · intro α f
    exact reg.modifyPage_bind ha g f

/-! ## Lists -/

theorem mem_ptrs {p : Nat} : p ∈ ptrs k S ↔
    (∃ o ≤ BUDDY_MAX_ORDER, p ∈ k.buddyFreeList o) ∨ ∃ e ∈ S, e.ptr = p := by
  simp only [ptrs, List.map_append, List.mem_append, List.mem_map]
  refine or_congr ⟨?_, ?_⟩ Iff.rfl
  · rintro ⟨e, he, rfl⟩
    exact ⟨e.order, (mem_entries.mp he).1, (mem_entries.mp he).2.1⟩
  · rintro ⟨o, ho, hp⟩
    exact ⟨_, mem_entries_of ho hp, rfl⟩

/-- Only the list that has changed can reach a new `mem_block`. -/
theorem mem_ptrs_update {n : Nat} {l : List Nat}
    (hfl : k'.buddyFreeList = Function.update k.buddyFreeList n l) {p : Nat}
    (hp : p ∈ ptrs k' S) : p ∈ l ∧ n ≤ BUDDY_MAX_ORDER ∨ p ∈ ptrs k S := by
  rw [mem_ptrs, hfl] at hp
  rcases hp with ⟨o, ho, hp⟩ | he
  · by_cases heq : o = n
    · rw [heq, Function.update_self] at hp
      exact Or.inl ⟨hp, heq ▸ ho⟩
    · rw [Function.update_of_ne heq] at hp
      exact Or.inr (mem_ptrs.mpr (Or.inl ⟨o, ho, hp⟩))
  · exact Or.inr (mem_ptrs.mpr (Or.inr he))

theorem listDel_bind {α : Type} {p o : Nat} (ho : o ≤ BUDDY_MAX_ORDER)
    (hp : p ∈ k.buddyFreeList o) (f : Unit → Mem E R α) :
    (listDel p >>= f) k = f () (k.unlink p) := by
  have hlinked : k.linked p = true := by
    rw [Kernel.linked, List.any_eq_true]
    exact ⟨o, List.mem_range.mpr (Nat.lt_succ_of_le ho), List.contains_iff_mem.mpr hp⟩
  have hdel : (listDel p : Mem E R Unit) k = .ok () (k.unlink p) [] := by
    rw [listDel, read_bind_apply, if_pos (Or.inl hlinked), modify_apply]
  rw [bind_ok hdel, Outcome.after_nil]

theorem listAdd_apply (p i : Nat) : (listAdd p i : Mem E R Unit) k
    = .ok () (k.setList i (p :: k.buddyFreeList i)) [] := rfl

theorem listAddTail_bind {α : Type} (p i : Nat) (f : Unit → Mem E R α) :
    (listAddTail p i >>= f) k = f () (k.setList i (k.buddyFreeList i ++ [p])) := modify_bind_apply _ _ _

theorem listAddTail_apply (p i : Nat) : (listAddTail p i : Mem E R Unit) k
    = .ok () (k.setList i (k.buddyFreeList i ++ [p])) [] := rfl

theorem restSame_unlink (k : Kernel E) (p : Nat) : RestSame k (k.unlink p) :=
  ⟨fun _ => rfl, rfl, rfl, rfl, rfl, rfl, rfl⟩

theorem restSame_setList (k : Kernel E) (i : Nat) (l : List Nat) : RestSame k (k.setList i l) :=
  ⟨fun _ => rfl, rfl, rfl, rfl, rfl, rfl, rfl⟩

theorem restSame_setStart (k : Kernel E) (p s : Nat) : RestSame k (k.setStart p s) :=
  ⟨fun _ => rfl, rfl, rfl, rfl, rfl, rfl, rfl⟩

namespace Good

theorem perm {S' : List Entry} (h : Good c lo hi k A S) (hS : S.Perm S') : Good c lo hi k A S' :=
  ⟨h.inv.perm (List.Perm.refl A) hS,
    c.subset (fun _ hp => ((hS.append_left _).map _).mem_iff.mpr hp) h.owns⟩

/-- An entry taken off its list is suspended. -/
theorem unlink (h : Good c lo hi k A S) {p o : Nat} (hp : p ∈ k.buddyFreeList o) :
    Good c lo hi (k.unlink p) A (⟨p, k.memBlock p, o⟩ :: S) := by
  refine ⟨h.inv.unlink hp, c.rest (restSame_unlink k p) (c.subset ?_ h.owns)⟩
  intro q hq
  rw [mem_ptrs] at hq ⊢
  rcases hq with ⟨o', ho', hq⟩ | ⟨e, he, rfl⟩
  · exact Or.inl ⟨o', ho', List.mem_of_mem_erase hq⟩
  · rcases List.mem_cons.mp he with rfl | he
    · exact Or.inl ⟨o, h.inv.mem_list hp, hp⟩
    · exact Or.inr ⟨e, he, rfl⟩

end Good

/-! ## Merging -/

/-- No two free blocks of order `i` are buddies. -/
def NoPairs (k : Kernel E) (i : Nat) : Prop :=
  ∀ e ∈ entries k, ∀ e' ∈ entries k, e.order = i → e'.order = i →
    e'.start ≠ buddy PAGE_SHIFT e.start i

/-- A suspended block of an order below `ord` has memory of its buddy allocated. -/
def Guard (A : List Block) (S : List Entry) (ord : Nat) : Prop :=
  ∀ e ∈ S, e.order < ord → ∃ b ∈ A, ∃ x, Dyadic.Mem PAGE_SHIFT b x
    ∧ Dyadic.Mem PAGE_SHIFT (buddy PAGE_SHIFT e.start e.order, e.order) x

theorem Guard.mono {ord : Nat} (h : Guard A S ord) (hA : A ⊆ A') : Guard A' S ord := by
  intro e he ho
  obtain ⟨b, hb, hx⟩ := h e he ho
  exact ⟨b, hA hb, hx⟩

/-- The two pages that the scan looks at. -/
theorem scanPages_bind {α : Type} (reg : Region lo hi) (h : BuddyInv lo hi k A S) {i p : Nat}
    (hi : i < BUDDY_MAX_ORDER) (hp : p ∈ k.buddyFreeList i) (f : Page → Page → Mem E R α) :
    (do
      let page ← readPage (k.memBlock p)
      let buddyPage ← readPage (getBuddyAddr (k.memBlock p) page.order)
      f page buddyPage : Mem E R α) k
      = f (k.page (k.memBlock p)) (k.page (buddy PAGE_SHIFT (k.memBlock p) i)) k := by
  have hmem := List.mem_append_left S (mem_entries_of hi.le hp)
  have hpage : (k.page (k.memBlock p)).order = i := (h.records.entry _ hmem).1
  have hin := h.records.pageIn_entry hmem
  have hbuddy := reg.pageIn_buddy (h.records.aligned_entry hmem) hin hi
  rw [reg.readPage_bind hin, hpage, getBuddyAddr_eq, reg.readPage_bind hbuddy]

theorem mergeScan_cons (reg : Region lo hi) (h : BuddyInv lo hi k A S) {i p : Nat}
    (hi : i < BUDDY_MAX_ORDER) (hp : p ∈ k.buddyFreeList i) (ps : List Nat) :
    (mergeScan i (p :: ps) : Mem E R _) k
      = (if (k.page (buddy PAGE_SHIFT (k.memBlock p) i)).priv = 0
          ∨ (k.page (buddy PAGE_SHIFT (k.memBlock p) i)).order ≠ i then mergeScan i ps
        else pure (some (p, (k.page (buddy PAGE_SHIFT (k.memBlock p) i)).priv)) : Mem E R _) k :=
  (read_bind_apply _ k).trans (scanPages_bind reg h hi hp _)

/-- The scan stops at the first block that has a buddy among the entries, if there is one. -/
theorem mergeScan_apply (reg : Region lo hi) (h : BuddyInv lo hi k A S) {i : Nat}
    (hi : i < BUDDY_MAX_ORDER) {ps : List Nat} (hps : ∀ p ∈ ps, p ∈ k.buddyFreeList i) :
    ∃ found, (mergeScan i ps : Mem E R _) k = .ok found k []
      ∧ match found with
        | none => ∀ p ∈ ps, ∀ e ∈ entries k ++ S, e.order = i →
            e.start ≠ buddy PAGE_SHIFT (k.memBlock p) i
        | some (p, q) => p ∈ ps ∧ ∃ e ∈ entries k ++ S, e.order = i ∧ e.ptr = q
            ∧ e.start = buddy PAGE_SHIFT (k.memBlock p) i := by
  induction ps with
  | nil => exact ⟨none, rfl, by simp⟩
  | cons p ps ih =>
      have hmem := List.mem_append_left S (mem_entries_of hi.le (hps p List.mem_cons_self))
      have hbuddy := reg.pageIn_buddy (h.records.aligned_entry hmem) (h.records.pageIn_entry hmem) hi
      rw [mergeScan_cons reg h hi (hps p List.mem_cons_self)]
      by_cases hc : (k.page (buddy PAGE_SHIFT (k.memBlock p) i)).priv = 0
          ∨ (k.page (buddy PAGE_SHIFT (k.memBlock p) i)).order ≠ i
      · rw [if_pos hc]
        obtain ⟨found, hscan, hfound⟩ := ih fun q hq => hps q (List.mem_cons_of_mem _ hq)
        refine ⟨found, hscan, ?_⟩
        cases found with
        | none =>
            intro q hq e he ho
            rcases List.mem_cons.mp hq with rfl | hq
            · rintro heq
              obtain ⟨h₁, h₂⟩ := h.records.entry e he
              rw [heq] at h₁ h₂
              rcases hc with hc | hc
              · exact h.records.ptr_ne e he (h₂.symm.trans hc)
              · exact hc (h₁.trans ho)
            · exact hfound q hq e he ho
        | some found => exact ⟨List.mem_cons_of_mem _ hfound.1, hfound.2⟩
      · rw [if_neg hc]
        refine ⟨_, rfl, List.mem_cons_self, ?_⟩
        rw [not_or, not_not] at hc
        -- a page with a `mem_block` is the first of a block
        obtain ⟨e, he, heq⟩ := h.records.head _ hbuddy hc.1
        obtain ⟨h₁, h₂⟩ := h.records.entry e he
        rw [heq] at h₁ h₂
        exact ⟨e, he, h₁.symm.trans hc.2, h₂.symm, heq⟩

/-- **One scan of a whole list.** The buddy that is found is on the list too: if it were suspended, its
own buddy would not be free. -/
theorem mergeScan_level (reg : Region lo hi) (h : BuddyInv lo hi k A S) {i ord : Nat}
    (hi' : i < BUDDY_MAX_ORDER) (hord : i < ord) (hguard : Guard A S ord) :
    ∃ found, (mergeScan i (k.buddyFreeList i) : Mem E R _) k = .ok found k []
      ∧ match found with
        | none => NoPairs k i
        | some (p, q) => p ∈ k.buddyFreeList i ∧ q ∈ k.buddyFreeList i
            ∧ k.memBlock q = buddy PAGE_SHIFT (k.memBlock p) i := by
  obtain ⟨found, hscan, hfound⟩ := mergeScan_apply (R := R) reg h hi' fun p hp => hp
  refine ⟨found, hscan, ?_⟩
  cases found with
  | none =>
      intro e he e' he' ho ho'
      obtain ⟨-, hlist, hs⟩ := mem_entries.mp he
      rw [ho] at hlist
      rw [hs]
      exact hfound e.ptr hlist e' (List.mem_append_left _ he') ho'
  | some found =>
      obtain ⟨p, q⟩ := found
      obtain ⟨hp, e, he, ho, rfl, hs⟩ := hfound
      have heq : e ∈ entries k := by
        refine (List.mem_append.mp he).resolve_right fun hS => ?_
        obtain ⟨b, hb, x, hxb, hx⟩ := hguard e hS (ho ▸ hord)
        rw [hs, ho, buddy_buddy] at hx
        exact h.records.entry_apart (List.mem_append_left S (mem_entries_of hi'.le hp)) hb hx hxb
      obtain ⟨-, hlist, hstart⟩ := mem_entries.mp heq
      rw [ho] at hlist
      exact ⟨hp, hlist, hstart ▸ hs⟩

/-- What merging on level `i` leaves alone. -/
structure Merged (i : Nat) (k k' : Kernel E) : Prop where
  locked : k'.buddyLocked = k.buddyLocked
  freePages : k'.buddyFreePages = k.buddyFreePages
  memBlock : k'.memBlock = k.memBlock
  blocks : (entries k').length ≤ (entries k).length
  list : ∀ j, j ≠ i → j ≠ i + 1 → k'.buddyFreeList j = k.buddyFreeList j

theorem Merged.refl (i : Nat) (k : Kernel E) : Merged i k k :=
  ⟨rfl, rfl, rfl, le_refl _, fun _ _ _ => rfl⟩

theorem Merged.trans {i : Nat} {k₁ k₂ k₃ : Kernel E} (h : Merged i k₁ k₂) (h' : Merged i k₂ k₃) :
    Merged i k₁ k₃ where
  locked := h'.locked.trans h.locked
  freePages := h'.freePages.trans h.freePages
  memBlock := h'.memBlock.trans h.memBlock
  blocks := h'.blocks.trans h.blocks
  list j h₁ h₂ := (h'.list j h₁ h₂).trans (h.list j h₁ h₂)

/-- Two buddies off their lists are joined. -/
theorem absorb_spec (reg : Region lo hi) (spec : FreeSpec pol c ops) {g s : Entry}
    (h : Good c lo hi k A (g :: s :: S))
    (hg : g.start = buddy PAGE_SHIFT s.start s.order) (ho : g.order = s.order)
    (hlt : s.order < BUDDY_MAX_ORDER) (hle : s.start < g.start) :
    Yields pol (absorb ops g.ptr g.start s.ptr s.start k) fun _ k' => Good c lo hi k' A S
      ∧ k'.buddyLocked = k.buddyLocked ∧ k'.buddyFreePages = k.buddyFreePages
      ∧ k'.memBlock = k.memBlock
      ∧ k'.buddyFreeList
        = Function.update k.buddyFreeList (s.order + 1)
            (s.ptr :: k.buddyFreeList (s.order + 1)) := by
  have hmemg : g ∈ entries k ++ g :: s :: S := by simp
  have hmems : s ∈ entries k ++ g :: s :: S := by simp
  have hing := h.inv.records.pageIn_entry hmemg
  have hins := h.inv.records.pageIn_entry hmems
  have hsg : s.start ≠ g.start := hle.ne
  have hnodup : (g.ptr :: s.ptr :: ptrs k S).Nodup := by
    have hmid : (entries k ++ g :: s :: S).Perm (g :: s :: (entries k ++ S)) :=
      List.perm_middle.trans (List.perm_middle.cons g)
    exact (hmid.map _).nodup_iff.mp h.inv.records.nodup
  have howns : c.Owns k A (g.ptr :: s.ptr :: ptrs k S) := by
    refine c.subset (fun p hp => ?_) h.owns
    simp only [List.mem_cons, mem_ptrs] at hp ⊢
    rcases hp with rfl | rfl | hp | ⟨e, he, rfl⟩
    · exact Or.inr ⟨g, Or.inl rfl, rfl⟩
    · exact Or.inr ⟨s, Or.inr (Or.inl rfl), rfl⟩
    · exact Or.inl hp
    · exact Or.inr ⟨e, Or.inr (Or.inr he), rfl⟩
  unfold absorb
  -- the `mem_block` of the buddy `g` is freed, then the page of `g` is cleared and the order of the
  -- page of `s` raised: three stores, on two different pages
  refine Yields.bind (spec.free howns (List.nodup_cons.mp hnodup).1
    (h.inv.records.ptr_ne g hmemg)) ?_
  rintro - k₁ ⟨hsame, howns₁⟩
  have hinv := h.inv.of_same hsame
  have hentry := hinv.records.entry s (by simp)
  obtain ⟨k₂, h₂, hrun₂⟩ := reg.assign hing (fun pg => { pg with priv := 0 }) (fun _ => rfl) k₁
  obtain ⟨k₃, h₃, hrun₃⟩ :=
    reg.assign hing (fun pg => { pg with order := BUDDY_MAX_ORDER + 1 }) (fun _ => rfl) k₂
  obtain ⟨k₄, h₄, hrun₄⟩ :=
    reg.assign hins (fun pg => { pg with order := pg.order + 1 }) (fun _ => rfl) k₃
  have honly := (h₂.only.trans h₃.only).trans h₄.only
  have hother : ∀ x, PageIn lo hi x → x ≠ g.start → x ≠ s.start → k₄.page x = k₁.page x := by
    intro x hx hxg hxs
    rw [h₄.other x hx hxs, h₃.other x hx hxg, h₂.other x hx hxg]
  have hgone : (k₄.page g.start).priv = 0 := by
    rw [h₄.other _ hing (Ne.symm hsg), h₃.self, h₂.self]
  have hkept : (k₄.page s.start).order = s.order + 1 ∧ (k₄.page s.start).priv = s.ptr := by
    rw [h₄.self, h₃.other _ hins hsg, h₂.other _ hins hsg]
    exact ⟨by rw [hentry.1], hentry.2⟩
  rw [hrun₂, hrun₃, hrun₄, reg.readPage_bind hins, hkept.1, listAdd_apply]
  apply Yields.ok
  have hfl : (k₄.setList (s.order + 1) (s.ptr :: k₄.buddyFreeList (s.order + 1))).buddyFreeList
      = Function.update k.buddyFreeList (s.order + 1)
          (s.ptr :: k.buddyFreeList (s.order + 1)) := by
    rw [Kernel.setList_freeList, honly.freeList, hsame.freeList]
  refine ⟨⟨?_, ?_⟩, honly.locked.trans hsame.locked, honly.freePages.trans hsame.freePages,
    honly.memBlock.trans hsame.memBlock, hfl⟩
  · refine hinv.join hg ho hlt hle hother hgone hkept ?_ honly.memBlock honly.freePages
    rw [hfl, hsame.freeList]
  · refine c.rest (honly.rest.trans (restSame_setList _ _ _)) (c.subset ?_ howns₁)
    intro p hp
    rcases mem_ptrs_update hfl hp with ⟨hp, ho'⟩ | hp
    · rcases List.mem_cons.mp hp with rfl | hp
      · exact List.mem_cons_self
      · exact List.mem_cons_of_mem _ (mem_ptrs.mpr (Or.inl ⟨_, ho', hp⟩))
    · exact List.mem_cons_of_mem _ hp

/-- Two free buddies of one list are joined, whichever comes first in memory. -/
theorem mergePair_spec (reg : Region lo hi) (spec : FreeSpec pol c ops)
    (h : Good c lo hi k A S) {i p q : Nat} (hi' : i < BUDDY_MAX_ORDER)
    (hp : p ∈ k.buddyFreeList i) (hq : q ∈ k.buddyFreeList i)
    (hpq : k.memBlock q = buddy PAGE_SHIFT (k.memBlock p) i) :
    Yields pol (mergePair ops p q k) fun _ k' => Good c lo hi k' A S ∧ Merged i k k'
      ∧ (k'.buddyFreeList i).length + 2 = (k.buddyFreeList i).length := by
  have hmem := List.mem_append_left S (mem_entries_of hi'.le hp)
  have hal := h.inv.records.aligned_entry hmem
  have hne : k.memBlock q ≠ k.memBlock p := by
    intro heq
    have hap := apart_buddy hal
    rw [← hpq, heq] at hap
    exact hap _ (mem_start _) (mem_start _)
  have hptr : q ≠ p := by
    rintro rfl
    exact hne rfl
  have hq' : q ∈ (k.unlink p).buddyFreeList i := (List.mem_erase_of_ne hptr).mpr hq
  have hgood := (h.unlink hp).unlink hq'
  -- the lists without the two
  have hlist : ∀ j, j ≠ i → ((k.unlink p).unlink q).buddyFreeList j = k.buddyFreeList j := by
    intro j hj
    have hpj : p ∉ k.buddyFreeList j := fun hmem => hj (h.inv.list_unique hmem hp)
    have hqj : q ∉ k.buddyFreeList j := fun hmem => hj (h.inv.list_unique hmem hq)
    rw [Kernel.unlink_freeList, Kernel.unlink_freeList]
    dsimp only
    rw [List.erase_of_not_mem hpj, List.erase_of_not_mem hqj]
  have hlen : (((k.unlink p).unlink q).buddyFreeList i).length + 2
      = (k.buddyFreeList i).length := by
    have h₁ := List.length_erase_of_mem hp
    have h₂ := List.length_erase_of_mem hq'
    have h₃ := List.length_pos_of_mem hp
    have h₄ := List.length_pos_of_mem hq'
    simp only [Kernel.unlink_freeList] at h₂ h₄ ⊢
    omega
  have hstart : (k.page (k.memBlock p)).order = i := (h.inv.records.entry _ hmem).1
  have hblocks : (entries ((k.unlink p).unlink q)).length + 2 = (entries k).length := by
    rw [(h.inv.unlink_perm hp).length_eq, List.length_cons,
      ((h.unlink hp).inv.unlink_perm hq').length_eq, List.length_cons]
  have hpost : ∀ s : Nat, ∀ k' : Kernel E, (Good c lo hi k' A S
      ∧ k'.buddyLocked = ((k.unlink p).unlink q).buddyLocked
      ∧ k'.buddyFreePages = ((k.unlink p).unlink q).buddyFreePages
      ∧ k'.memBlock = ((k.unlink p).unlink q).memBlock
      ∧ k'.buddyFreeList = Function.update ((k.unlink p).unlink q).buddyFreeList (i + 1)
          (s :: ((k.unlink p).unlink q).buddyFreeList (i + 1))) →
      Good c lo hi k' A S ∧ Merged i k k'
        ∧ (k'.buddyFreeList i).length + 2 = (k.buddyFreeList i).length := by
    rintro s k' ⟨hg, hl, hpages, hm, hfl⟩
    have hone := BuddyInv.entries_setList ((k.unlink p).unlink q) k' hi' (List.Perm.refl _) hfl hm
    refine ⟨hg, ⟨hl, hpages, hm, ?_, fun j h₁ h₂ => ?_⟩, ?_⟩
    · rw [hone.length_eq, List.length_cons]
      omega
    · rw [hfl, Function.update_of_ne h₂, hlist j h₁]
    · rw [hfl, Function.update_of_ne (by omega)]
      exact hlen
  unfold mergePair
  rw [read_bind_apply, reg.readPage_bind (h.inv.records.pageIn_entry hmem), hstart,
    getBuddyAddr_eq, ← hpq, listDel_bind hi'.le hp, listDel_bind hi'.le hq']
  rcases Nat.lt_or_gt_of_ne hne with hlt | hgt
  · rw [if_pos hlt]
    refine (absorb_spec (g := ⟨p, k.memBlock p, i⟩) (s := ⟨q, k.memBlock q, i⟩) reg spec
      (hgood.perm (List.Perm.swap _ _ _)) ?_ rfl hi' hlt).mono fun _ k' => hpost q k'
    show k.memBlock p = buddy PAGE_SHIFT (k.memBlock q) i
    rw [hpq, buddy_buddy]
  · rw [if_neg (Nat.not_lt.mpr hgt.le)]
    exact (absorb_spec (g := ⟨q, k.memBlock q, i⟩) (s := ⟨p, k.memBlock p, i⟩) reg spec
      hgood hpq rfl hi' hgt).mono fun _ k' => hpost p k'

/-- **One level is merged to the end**: no two blocks of its list are buddies any more. -/
theorem mergeLevel_spec (reg : Region lo hi) (spec : FreeSpec pol c ops) {i ord : Nat}
    (hi' : i < BUDDY_MAX_ORDER) (hord : i < ord) (fuel : Nat)
    (h : Good c lo hi k A S) (hguard : Guard A S ord)
    (hfuel : (k.buddyFreeList i).length < fuel) :
    Yields pol (mergeLevel ops i fuel k) fun _ k' => Good c lo hi k' A S ∧ Merged i k k'
      ∧ NoPairs k' i := by
  induction fuel generalizing k with
  | zero => exact absurd hfuel (Nat.not_lt_zero _)
  | succ fuel ih =>
      obtain ⟨found, hscan, hfound⟩ := mergeScan_level (R := R) reg h.inv hi' hord hguard
      unfold mergeLevel
      rw [read_bind_apply, bind_ok hscan, Outcome.after_nil]
      cases found with
      | none => exact Yields.ok ⟨h, Merged.refl i k, hfound⟩
      | some found =>
          obtain ⟨p, q⟩ := found
          obtain ⟨hp, hq, hpq⟩ := hfound
          refine Yields.bind (mergePair_spec reg spec h hi' hp hq hpq) ?_
          rintro - k₁ ⟨hgood, hmerged, hlen⟩
          refine (ih hgood (by omega)).mono ?_
          rintro - k₂ ⟨hgood₂, hmerged₂, hnone⟩
          exact ⟨hgood₂, hmerged.trans hmerged₂, hnone⟩

theorem NoPairs.congr {i : Nat} (h : NoPairs k i) (hl : k'.buddyFreeList i = k.buddyFreeList i)
    (hm : k'.memBlock = k.memBlock) : NoPairs k' i := by
  have hback : ∀ e ∈ entries k', e.order = i → e ∈ entries k := by
    intro e he ho
    rw [mem_entries] at he ⊢
    rw [ho, hl, hm] at he
    rw [ho]
    exact he
  intro e he e' he' ho ho'
  exact h e (hback e he ho) e' (hback e' he' ho') ho ho'

/-- What merging below order `n` leaves alone. -/
structure MergedBelow (n : Nat) (k k' : Kernel E) : Prop where
  locked : k'.buddyLocked = k.buddyLocked
  freePages : k'.buddyFreePages = k.buddyFreePages
  memBlock : k'.memBlock = k.memBlock
  blocks : (entries k').length ≤ (entries k).length
  list : ∀ j, n < j → k'.buddyFreeList j = k.buddyFreeList j

theorem MergedBelow.succ {n : Nat} {k₁ k₂ k₃ : Kernel E} (h : MergedBelow n k₁ k₂)
    (h' : Merged n k₂ k₃) : MergedBelow (n + 1) k₁ k₃ where
  locked := h'.locked.trans h.locked
  freePages := h'.freePages.trans h.freePages
  memBlock := h'.memBlock.trans h.memBlock
  blocks := h'.blocks.trans h.blocks
  list j hj := (h'.list j (by omega) (by omega)).trans (h.list j (by omega))

/-- **Merging** leaves no free buddies below the order and does not touch the lists above. -/
theorem mergeBlocks_spec (reg : Region lo hi) (spec : FreeSpec pol c ops) {n ord : Nat}
    (hn : n ≤ ord) (hmax : ord ≤ BUDDY_MAX_ORDER) (h : Good c lo hi k A S) (hguard : Guard A S ord) :
    Yields pol (mergeBlocks ops n k) fun _ k' => Good c lo hi k' A S ∧ MergedBelow n k k'
      ∧ ∀ i < n, NoPairs k' i := by
  induction n with
  | zero =>
      exact Yields.ok ⟨h, ⟨rfl, rfl, rfl, le_refl _, fun _ _ => rfl⟩,
        fun i hi' => absurd hi' (Nat.not_lt_zero i)⟩
  | succ n ih =>
      unfold mergeBlocks
      refine Yields.bind (ih (by omega)) ?_
      rintro - k₁ ⟨hgood, hbelow, hpairs⟩
      rw [read_bind_apply]
      split
      · -- an empty list has no two buddies
        rename_i hempty
        refine Yields.ok ⟨hgood, hbelow.succ (Merged.refl n k₁), fun i hi' => ?_⟩
        rcases Nat.lt_succ_iff_lt_or_eq.mp hi' with hlt | rfl
        · exact hpairs i hlt
        · intro e he e' _ ho _
          have hmem := (mem_entries.mp he).2.1
          rw [ho, hempty] at hmem
          cases hmem
      · refine (mergeLevel_spec reg spec (by omega) (by omega) _ hgood hguard
          (by omega)).mono ?_
        rintro - k₂ ⟨hgood₂, hmerged, hnone⟩
        refine ⟨hgood₂, hbelow.succ hmerged, fun i hi' => ?_⟩
        rcases Nat.lt_succ_iff_lt_or_eq.mp hi' with hlt | rfl
        · exact (hpairs i hlt).congr (hmerged.list i (by omega) (by omega)) hmerged.memBlock
        · exact hnone

/-! ## Splitting -/

/-- What a round of `split_blocks` does after the `mem_block` `q` has been allocated: the halves of
the block of `p`, which starts at `start`, go to the end of the list below. -/
structure Halved (n p q start : Nat) (k k' : Kernel E) : Prop where
  freeList : k'.buddyFreeList
    = Function.update k.buddyFreeList n (k.buddyFreeList n ++ [p] ++ [q])
  memBlock : k'.memBlock = Function.update k.memBlock q (buddy PAGE_SHIFT start n)
  rest : RestSame k k'

/-- What a round writes once it has the `mem_block`. -/
theorem halve_writes (reg : Region lo hi) {n p q start : Nat} (hin : PageIn lo hi start)
    (hinb : PageIn lo hi (buddy PAGE_SHIFT start n)) (hne : buddy PAGE_SHIFT start n ≠ start)
    (hstart : k.memBlock p = start) :
    ∃ k', ((do
        modifyPage start fun pg => { pg with order := n }
        let k ← read
        let buddyStart := getBuddyAddr (k.memBlock p) n
        modify fun k => k.setStart q buddyStart
        modifyPage buddyStart fun pg => { pg with order := n }
        modifyPage buddyStart fun pg => { pg with priv := q }
        listAddTail p n
        listAddTail q n) : Mem E R Unit) k = .ok () k' []
      ∧ Halved n p q start k k' ∧ k'.buddyLocked = k.buddyLocked
      ∧ k'.buddyFreePages = k.buddyFreePages
      ∧ (∀ x, PageIn lo hi x → x ≠ start → x ≠ buddy PAGE_SHIFT start n → k'.page x = k.page x)
      ∧ ((k'.page start).order = n ∧ (k'.page start).priv = (k.page start).priv)
      ∧ (k'.page (buddy PAGE_SHIFT start n)).order = n
      ∧ (k'.page (buddy PAGE_SHIFT start n)).priv = q := by
  obtain ⟨k₂, h₂, hrun₂⟩ := reg.assign (R := R) hin (fun pg => { pg with order := n })
    (fun _ => rfl) k
  obtain ⟨k₃, h₃, hrun₃⟩ := reg.assign (R := R) hinb (fun pg => { pg with order := n })
    (fun _ => rfl) (k₂.setStart q (buddy PAGE_SHIFT start n))
  obtain ⟨k₄, h₄, hrun₄⟩ := reg.assign (R := R) hinb (fun pg => { pg with priv := q })
    (fun _ => rfl) k₃
  rw [hrun₂, read_bind_apply, h₂.only.memBlock, hstart, getBuddyAddr_eq, modify_bind_apply,
    hrun₃, hrun₄, listAddTail_bind, listAddTail_apply]
  have hlist₄ : k₄.buddyFreeList = k.buddyFreeList := by
    rw [h₄.only.freeList, h₃.only.freeList, Kernel.setStart_freeList, h₂.only.freeList]
  refine ⟨_, rfl, ⟨?_, ?_, ?_⟩, ?_, ?_, ?_, ?_, ?_⟩
  · rw [Kernel.setList_freeList, Kernel.setList_freeList, Function.update_self,
      Function.update_idem, hlist₄]
  · rw [Kernel.setList_memBlock, Kernel.setList_memBlock, h₄.only.memBlock, h₃.only.memBlock,
      Kernel.setStart_memBlock, h₂.only.memBlock]
  · exact (h₂.only.rest.trans ((restSame_setStart _ _ _).trans
      (h₃.only.rest.trans h₄.only.rest))).trans
        ((restSame_setList _ _ _).trans (restSame_setList _ _ _))
  · rw [Kernel.setList_locked, Kernel.setList_locked, h₄.only.locked, h₃.only.locked,
      Kernel.setStart_locked, h₂.only.locked]
  · rw [Kernel.setList_freePages, Kernel.setList_freePages, h₄.only.freePages,
      h₃.only.freePages, Kernel.setStart_freePages, h₂.only.freePages]
  · intro x hx hxs hxb
    rw [Kernel.setList_page, Kernel.setList_page, h₄.other x hx hxb, h₃.other x hx hxb,
      Kernel.setStart_page, h₂.other x hx hxs]
  · rw [Kernel.setList_page, Kernel.setList_page, h₄.other _ hin hne.symm,
      h₃.other _ hin hne.symm, Kernel.setStart_page, h₂.self]
    exact ⟨rfl, rfl⟩
  · rw [Kernel.setList_page, Kernel.setList_page, h₄.self, h₃.self]
    exact ⟨rfl, rfl⟩

/-- The `mem_block`s in use after a round are those before it. -/
theorem Halved.ptrs_subset {n p q start : Nat} {k₁ : Kernel E} (h : Halved n p q start k₁ k')
    (S : List Entry) {x : Nat} (hx : x ∈ ptrs k' S) :
    x ∈ q :: ptrs k₁ (⟨p, start, n + 1⟩ :: S) := by
  rw [List.mem_cons, mem_ptrs]
  rcases mem_ptrs_update h.freeList hx with ⟨hx, ho⟩ | hx
  · simp only [List.append_assoc, List.cons_append, List.nil_append, List.mem_append,
      List.mem_cons, List.not_mem_nil, or_false] at hx
    rcases hx with hx | rfl | rfl
    · exact Or.inr (Or.inl ⟨n, ho, hx⟩)
    · exact Or.inr (Or.inr ⟨⟨x, start, n + 1⟩, by simp, rfl⟩)
    · exact Or.inl rfl
  · rcases mem_ptrs.mp hx with hx | ⟨e, he, rfl⟩
    · exact Or.inr (Or.inl hx)
    · exact Or.inr (Or.inr ⟨e, List.mem_cons_of_mem _ he, rfl⟩)

/-- **One round of `split_blocks`**, with the block off its list while the metadata of its
second half is allocated. -/
theorem splitOne_halves (reg : Region lo hi) (spec : OpsSpec pol c lo hi S ops) {n p : Nat}
    {rest : List Nat} (hn : n < BUDDY_MAX_ORDER) (h : Good c lo hi k A S)
    (hlist : k.buddyFreeList (n + 1) = p :: rest) :
    Yields pol (splitOne ops n k) fun _ k' => k'.buddyLocked = k.buddyLocked
      ∧ (∃ A', c.Grows A A' ∧ Good c lo hi k' A' S) ∧ ∃ q k₁ log,
        ops.allocMemBlock (some ⟨p, k.memBlock p, n + 1⟩) (k.unlink p) = .ok q k₁ log
          ∧ p ≠ q ∧ Halved n p q (k.memBlock p) k₁ k' := by
  have hp : p ∈ k.buddyFreeList (n + 1) := by
    rw [hlist]
    exact List.mem_cons_self
  have hmem := List.mem_append_left S (mem_entries_of hn hp)
  unfold splitOne
  rw [read_bind_apply, hlist, firstEntry, pure_bind_apply,
    reg.readPage_bind (h.inv.records.pageIn_entry hmem), if_neg
      (not_not.mpr (h.inv.records.entry _ hmem).1), listDel_bind hn hp]
  -- the nested call finds the block `p` suspended, and what it grows comes from the other blocks
  refine Yields.bind ((spec.alloc (some ⟨p, k.memBlock p, n + 1⟩) (h.unlink hp)).mono_ok
    fun q k₁ log hrun hpost => And.intro (Exists.intro log hrun) hpost) ?_
  rintro q k₁ ⟨⟨log, halloc⟩, hlocked, A', hgrows, hgood, hnull, hfresh⟩
  split
  · rename_i hq
    exact Yields.fault (hnull hq)
  · rename_i hq
    obtain ⟨hqfresh, howns⟩ := hfresh hq
    have hmem₁ : (⟨p, k.memBlock p, n + 1⟩ : Entry)
        ∈ entries k₁ ++ ((some (⟨p, k.memBlock p, n + 1⟩ : Entry)).toList ++ S) := by simp
    have hin := hgood.inv.records.pageIn_entry hmem₁
    have hal : Aligned PAGE_SHIFT (k.memBlock p, n) :=
      (hgood.inv.records.aligned_entry hmem₁).of_le (Nat.le_succ n)
    have hsb : buddy PAGE_SHIFT (k.memBlock p) n ≠ k.memBlock p := by
      intro heq
      have hap := apart_buddy hal
      rw [heq] at hap
      exact hap _ (mem_start _) (mem_start _)
    have hpq : p ≠ q := by
      rintro rfl
      exact hqfresh (List.mem_map_of_mem hmem₁)
    obtain ⟨k', hrun, halved, hlocked', hfreePages, hother, ⟨horder, hpriv⟩, hsecond⟩ :=
      halve_writes (R := R) reg hin (reg.pageIn_buddy hal hin hn) hsb (q := q)
        (hgood.inv.suspended ⟨p, k.memBlock p, n + 1⟩ (by simp))
    rw [hrun]
    refine Yields.ok ⟨?_, ⟨A', hgrows, ?_, ?_⟩, q, k₁, log, halloc, hpq, halved⟩
    · rw [hlocked', hlocked, Kernel.unlink_locked]
    · -- both halves are on the list below: `p` has kept its `mem_block`, `q` is the new one
      exact hgood.inv.split rfl hq hqfresh hother
        ⟨horder, hpriv.trans (hgood.inv.records.entry _ hmem₁).2⟩ hsecond halved.freeList
        halved.memBlock hfreePages
    · exact c.rest halved.rest (c.subset (fun _ => halved.ptrs_subset S) howns)

theorem splitOne_spec (reg : Region lo hi) (spec : OpsSpec pol c lo hi S ops) {n : Nat}
    (hn : n < BUDDY_MAX_ORDER) (h : Good c lo hi k A S) (hne : k.buddyFreeList (n + 1) ≠ []) :
    Yields pol (splitOne ops n k) fun _ k' => k'.buddyLocked = k.buddyLocked
      ∧ ∃ A', c.Grows A A' ∧ Good c lo hi k' A' S ∧ k'.buddyFreeList n ≠ [] := by
  obtain ⟨p, rest, hlist⟩ := List.exists_cons_of_ne_nil hne
  refine (splitOne_halves reg spec hn h hlist).mono ?_
  rintro - k' ⟨hlocked, ⟨A', hgrows, hgood⟩, q, k₁, log, -, -, hhalved⟩
  refine ⟨hlocked, A', hgrows, hgood, ?_⟩
  rw [hhalved.freeList, Function.update_self]
  simp

theorem splitDown_spec (reg : Region lo hi) (spec : OpsSpec pol c lo hi S ops) {target n : Nat}
    (hmax : target + n ≤ BUDDY_MAX_ORDER) (h : Good c lo hi k A S)
    (hne : k.buddyFreeList (target + n) ≠ []) :
    Yields pol (splitDown ops target n k) fun _ k' => k'.buddyLocked = k.buddyLocked
      ∧ ∃ A', c.Grows A A' ∧ Good c lo hi k' A' S ∧ k'.buddyFreeList target ≠ [] := by
  induction n generalizing k A with
  | zero => exact Yields.ok ⟨rfl, A, c.refl A, h, hne⟩
  | succ n ih =>
      unfold splitDown
      refine Yields.bind (splitOne_spec reg spec (by omega) h hne) ?_
      rintro - k₁ ⟨hlocked, A₁, hgrows, hgood, hne₁⟩
      refine (ih (by omega) hgood hne₁).mono ?_
      rintro - k₂ ⟨hlocked₂, A₂, hgrows₂, hgood₂, hne₂⟩
      exact ⟨hlocked₂.trans hlocked, A₂, c.trans hgrows hgrows₂, hgood₂, hne₂⟩

theorem sourceOrder_none {fl : Nat → List Nat} {n order : Nat}
    (h : sourceOrder fl n order = none) : ∀ o, order ≤ o → o < order + n → fl o = [] := by
  induction n generalizing order with
  | zero =>
      intro o h₁ h₂
      omega
  | succ n ih =>
      unfold sourceOrder at h
      split at h
      · rename_i hempty
        intro o h₁ h₂
        rcases Nat.eq_or_lt_of_le h₁ with rfl | hlt
        · exact hempty
        · exact ih h o hlt (by omega)
      · cases h

theorem sourceOrder_some {fl : Nat → List Nat} {n order s : Nat}
    (h : sourceOrder fl n order = some s) : order ≤ s ∧ s < order + n ∧ fl s ≠ []
      ∧ ∀ o, order ≤ o → o < s → fl o = [] := by
  induction n generalizing order with
  | zero => cases h
  | succ n ih =>
      unfold sourceOrder at h
      split at h
      · rename_i hempty
        obtain ⟨hle, hlt, hne, hbefore⟩ := ih h
        refine ⟨by omega, by omega, hne, fun o h₁ h₂ => ?_⟩
        rcases Nat.eq_or_lt_of_le h₁ with rfl | hlt'
        · exact hempty
        · exact hbefore o hlt' h₂
      · rename_i hne
        cases h
        exact ⟨le_refl _, by omega, hne, fun o h₁ h₂ => absurd (h₁.trans_lt h₂) (lt_irrefl _)⟩

/-- **Splitting** provides a block of the order, or finds no larger block and changes nothing. -/
theorem splitBlocks_spec (reg : Region lo hi) (spec : OpsSpec pol c lo hi S ops) {target : Nat}
    (hmax : target ≤ BUDDY_MAX_ORDER) (h : Good c lo hi k A S) :
    Yields pol (splitBlocks ops target k) fun _ k' => k'.buddyLocked = k.buddyLocked
      ∧ ∃ A', c.Grows A A' ∧ Good c lo hi k' A' S
        ∧ (k'.buddyFreeList target ≠ [] ∨ k' = k ∧ ∀ o, target < o → k.buddyFreeList o = []) := by
  unfold splitBlocks
  rw [read_bind_apply]
  cases hsource : sourceOrder k.buddyFreeList (BUDDY_MAX_ORDER - target) (target + 1) with
  | none =>
      refine Yields.ok ⟨rfl, A, c.refl A, h, Or.inr ⟨rfl, fun o ho => ?_⟩⟩
      rcases Nat.lt_or_ge BUDDY_MAX_ORDER o with hgt | hle
      · exact h.inv.above o hgt
      · exact sourceOrder_none hsource o ho (by omega)
  | some source =>
      obtain ⟨h₁, h₂, hne, -⟩ := sourceOrder_some hsource
      have hsum : target + (source - target) = source := by omega
      refine (splitDown_spec reg spec (by omega) h (by rwa [hsum])).mono ?_
      rintro - k' ⟨hlocked, A', hgrows, hgood, hne'⟩
      exact ⟨hlocked, A', hgrows, hgood, Or.inl hne'⟩

/-! ## Allocating and freeing -/

theorem Region.pos (reg : Region lo hi) {a : Nat} (ha : PageIn lo hi a) : a ≠ 0 := by
  have h := (reg.bounds ha).1
  have hstart : 0 < PM_START := by decide
  omega

/-- What `buddy_alloc` returns: a block of the order, or `NULL` when merging and splitting had
nothing to offer. -/
def Allocated (c : Contract E) (lo hi : Nat) (S : List Entry) (ord : Nat) (k : Kernel E)
    (A : List Block) (r : Nat) (k' : Kernel E) : Prop :=
  k'.buddyLocked = k.buddyLocked ∧ ∃ A', c.Grows A A' ∧ c.Owns k' A' (ptrs k' S)
    ∧ ((r = 0 ∧ BuddyInv lo hi k' A' S ∧ (∀ o, ord ≤ o → k'.buddyFreeList o = [])
        ∧ ∀ i < ord, NoPairs k' i)
      ∨ (r ≠ 0 ∧ BuddyInv lo hi k' ((r, ord) :: A') S))

theorem buddyAllocInner_spec (reg : Region lo hi) (spec : OpsSpec pol c lo hi S ops) {ord : Nat}
    (h : Good c lo hi k A S) (hne : k.buddyFreeList ord ≠ []) :
    Yields pol (buddyAllocInner ops ord k) fun r k' => k'.buddyLocked = k.buddyLocked ∧ r ≠ 0
      ∧ BuddyInv lo hi k' ((r, ord) :: A) S ∧ c.Owns k' A (ptrs k' S) := by
  obtain ⟨p, rest, hlist⟩ := List.exists_cons_of_ne_nil hne
  have hp : p ∈ k.buddyFreeList ord := by
    rw [hlist]
    exact List.mem_cons_self
  have hord := h.inv.mem_list hp
  have hmem := List.mem_append_left S (mem_entries_of hord hp)
  have hin := h.inv.records.pageIn_entry hmem
  have hentry := h.inv.records.entry _ hmem
  have hoff := h.unlink hp
  -- the code clears the page while the block is still on its list; the invariant is followed from
  -- the state in which it is off (`hoff`), where it is the suspended block
  obtain ⟨k₁, h₁, hrun₁⟩ := reg.assign (R := R) hin (fun pg => { pg with priv := 0 })
    (fun _ => rfl) k
  have hp₁ : p ∈ k₁.buddyFreeList ord := by rwa [h₁.only.freeList]
  have hptrs : ptrs (k.unlink p) (⟨p, k.memBlock p, ord⟩ :: S)
      ⊆ p :: ptrs (k.unlink p) S := by
    intro x hx
    simp only [List.mem_cons, mem_ptrs] at hx ⊢
    rcases hx with hx | ⟨e, rfl | he, rfl⟩
    · exact Or.inr (Or.inl hx)
    · exact Or.inl rfl
    · exact Or.inr (Or.inr ⟨e, he, rfl⟩)
  have hfresh : p ∉ ptrs (k.unlink p) S := by
    have hperm : (entries (k.unlink p) ++ ⟨p, k.memBlock p, ord⟩ :: S).Perm
        (⟨p, k.memBlock p, ord⟩ :: (entries (k.unlink p) ++ S)) := List.perm_middle
    have hnd := (hperm.map Entry.ptr).nodup_iff.mp hoff.inv.records.nodup
    exact (List.nodup_cons.mp hnd).1
  have howns : c.Owns (k₁.unlink p) A (p :: ptrs (k.unlink p) S) := by
    have hrest : RestSame (k.unlink p) (k₁.unlink p) :=
      ⟨h₁.only.rest.flags, h₁.only.rest.earlyBrk, h₁.only.rest.buddyInited,
        h₁.only.rest.kallocInited, h₁.only.rest.caches, h₁.only.rest.slabs, h₁.only.rest.ext⟩
    refine c.rest hrest (c.subset ?_ h.owns |> c.rest (restSame_unlink k p))
    intro x hx
    rcases List.mem_cons.mp hx with rfl | hx
    · exact mem_ptrs.mpr (Or.inl ⟨ord, hord, hp⟩)
    · rw [mem_ptrs] at hx ⊢
      rcases hx with ⟨o, ho, hx⟩ | hx
      · exact Or.inl ⟨o, ho, List.mem_of_mem_erase hx⟩
      · exact Or.inr hx
  unfold buddyAllocInner
  rw [read_bind_apply, hlist, firstEntry, pure_bind_apply, reg.readPage_bind hin,
    if_neg (not_not.mpr hentry.1), hrun₁, listDel_bind hord hp₁]
  refine Yields.bind (spec.free howns hfresh (h.inv.records.ptr_ne _ hmem)) ?_
  rintro - k₂ ⟨hsame, howns₂⟩
  rw [modify_bind_apply]
  have hfl : k₂.buddyFreeList = (k.unlink p).buddyFreeList := by
    rw [hsame.freeList, Kernel.unlink_freeList, Kernel.unlink_freeList, h₁.only.freeList]
  have hmb : k₂.memBlock = (k.unlink p).memBlock := hsame.memBlock.trans h₁.only.memBlock
  refine Yields.ok ⟨hsame.locked.trans h₁.only.locked, reg.pos hin, ?_, ?_⟩
  · refine hoff.inv.take ?_ ?_ hfl hmb ?_
    · intro x hx hne'
      exact (hsame.page x).trans (h₁.other x hx hne')
    · have hpage : k₂.page (k.memBlock p) = { k.page (k.memBlock p) with priv := 0 } :=
        (hsame.page _).trans h₁.self
      show (k₂.page (k.memBlock p)).order = ord ∧ (k₂.page (k.memBlock p)).priv = 0
      rw [hpage]
      exact ⟨hentry.1, rfl⟩
    · show k₂.buddyFreePages - 1 <<< ord = k.buddyFreePages - 2 ^ ord
      rw [hsame.freePages, Kernel.unlink_freePages, h₁.only.freePages, Nat.one_shiftLeft]
  · refine c.rest (k := k₂) ⟨fun _ => rfl, rfl, rfl, rfl, rfl, rfl, rfl⟩ (c.subset ?_ howns₂)
    intro x hx
    rw [mem_ptrs] at hx ⊢
    rw [← hfl]
    exact hx

/-- **Allocation**: take a block of the order, else merge, else split. The merging is safe if it
is not reached or no suspended block below the order has a free buddy. -/
theorem buddyAllocNolock_spec (reg : Region lo hi) (spec : OpsSpec pol c lo hi S ops) {size : Nat}
    (hlo : PAGE_SIZE ≤ size) (hhi : size ≤ BUDDY_BLOB_SIZE) (h : Good c lo hi k A S)
    (hguard : k.buddyFreeList (size2order size) ≠ [] ∨ Guard A S (size2order size)) :
    Yields pol (buddyAllocNolock ops size k) (Allocated c lo hi S (size2order size) k A) := by
  have hmax := (size2order_spec hlo hhi).1
  generalize hord : size2order size = ord at hguard hmax
  unfold buddyAllocNolock
  rw [hord, read_bind_apply]
  by_cases hne : k.buddyFreeList ord = []
  · rw [if_neg (not_not.mpr hne)]
    -- `merge_blocks`, as no block of the order is free
    refine Yields.bind (mergeBlocks_spec reg spec.frees (le_refl ord) hmax h
      (hguard.resolve_left (not_not.mpr hne))) ?_
    rintro - k₁ ⟨hgood₁, ⟨hlocked₁, -, -, -, -⟩, hpairs⟩
    rw [read_bind_apply]
    by_cases hne₁ : k₁.buddyFreeList ord = []
    · rw [if_neg (not_not.mpr hne₁)]
      -- merging has made none: `split_blocks`
      refine Yields.bind (splitBlocks_spec reg spec hmax hgood₁) ?_
      rintro - k₂ ⟨hlocked₂, A₂, hgrows, hgood₂, hres⟩
      rw [read_bind_apply]
      by_cases hne₂ : k₂.buddyFreeList ord = []
      · rw [if_neg (not_not.mpr hne₂)]
        -- no larger block is free either, and the call returns `NULL`
        obtain ⟨rfl, habove⟩ := hres.resolve_left (not_not.mpr hne₂)
        refine Yields.ok ⟨hlocked₁, A₂, hgrows, hgood₂.owns, Or.inl ⟨rfl, hgood₂.inv, ?_, hpairs⟩⟩
        intro o ho
        rcases Nat.eq_or_lt_of_le ho with rfl | hlt
        · exact hne₁
        · exact habove o hlt
      · rw [if_pos hne₂]
        refine (buddyAllocInner_spec reg spec hgood₂ hne₂).mono ?_
        rintro r k₃ ⟨hlocked₃, hr, hinv, howns⟩
        exact ⟨hlocked₃.trans (hlocked₂.trans hlocked₁), A₂, hgrows, howns, Or.inr ⟨hr, hinv⟩⟩
    · rw [if_pos hne₁]
      refine (buddyAllocInner_spec reg spec hgood₁ hne₁).mono ?_
      rintro r k₂ ⟨hlocked₂, hr, hinv, howns⟩
      exact ⟨hlocked₂.trans hlocked₁, A, c.refl A, howns, Or.inr ⟨hr, hinv⟩⟩
  · rw [if_pos hne]
    refine (buddyAllocInner_spec reg spec h hne).mono ?_
    rintro r k₁ ⟨hlocked₁, hr, hinv, howns⟩
    exact ⟨hlocked₁, A, c.refl A, howns, Or.inr ⟨hr, hinv⟩⟩

theorem restSame_locked (k : Kernel E) (b : Bool) :
    RestSame k { k with buddyLocked := b } := ⟨fun _ => rfl, rfl, rfl, rfl, rfl, rfl, rfl⟩

theorem BuddyInv.set_locked (h : BuddyInv lo hi k A S) (b : Bool) :
    BuddyInv lo hi { k with buddyLocked := b } A S :=
  ⟨h.records, h.suspended, h.freePages, h.above⟩

theorem Good.set_locked (h : Good c lo hi k A S) (b : Bool) :
    Good c lo hi { k with buddyLocked := b } A S :=
  ⟨h.inv.set_locked b, c.rest (restSame_locked k b) h.owns⟩

theorem lockBuddy_apply (h : k.buddyLocked = false) :
    (lockBuddy : Mem E R Unit) k = .ok () { k with buddyLocked := true } [] := by
  rw [lockBuddy, read_bind_apply, if_neg (by rw [h]; decide), modify_apply]

theorem unlockBuddy_apply (h : k.buddyLocked = true) :
    (unlockBuddy : Mem E R Unit) k = .ok () { k with buddyLocked := false } [] := by
  rw [unlockBuddy, read_bind_apply, if_pos h, modify_apply]

/-- **`buddy_alloc`**, under the lock or taking it. -/
theorem buddyAlloc_spec (reg : Region lo hi) (spec : OpsSpec pol c lo hi S ops) {size : Nat}
    (hlo : PAGE_SIZE ≤ size) (hhi : size ≤ BUDDY_BLOB_SIZE) (h : Good c lo hi k A S)
    (hguard : k.buddyFreeList (size2order size) ≠ [] ∨ Guard A S (size2order size)) :
    Yields pol (buddyAlloc ops size k) (Allocated c lo hi S (size2order size) k A) := by
  unfold buddyAlloc
  rw [if_neg (by omega), read_bind_apply]
  cases hlocked : k.buddyLocked with
  | true =>
      rw [if_pos rfl]
      exact buddyAllocNolock_spec reg spec hlo hhi h hguard
  | false =>
      rw [if_neg Bool.false_ne_true, bind_ok (lockBuddy_apply hlocked), Outcome.after_nil]
      refine Yields.bind (buddyAllocNolock_spec reg spec hlo hhi (h.set_locked true) hguard) ?_
      rintro r k₁ ⟨hlocked₁, A₁, hgrows, howns, hres⟩
      rw [bind_ok (unlockBuddy_apply hlocked₁), Outcome.after_nil]
      refine Yields.pure ⟨hlocked.symm, A₁, hgrows, c.rest (restSame_locked k₁ false) howns, ?_⟩
      rcases hres with ⟨hr, hinv, hres⟩ | ⟨hr, hinv⟩
      · exact Or.inl ⟨hr, hinv.set_locked false, hres⟩
      · exact Or.inr ⟨hr, hinv.set_locked false⟩

/-- What `buddy_free` does after the `mem_block` `q` has been allocated: the block goes to the head
of its list. -/
structure Relisted (b : Block) (q : Nat) (k k' : Kernel E) : Prop where
  freeList : k'.buddyFreeList = Function.update k.buddyFreeList b.2 (q :: k.buddyFreeList b.2)
  memBlock : k'.memBlock = Function.update k.memBlock q b.1
  rest : RestSame k k'

/-- **`buddy_free`** of a block that nothing has suspended. -/
theorem buddyFree_relists (reg : Region lo hi) (spec : OpsSpec pol c lo hi [] ops) {b : Block}
    (hb : b ∈ A) (h : Good c lo hi k A []) (hlocked : k.buddyLocked = false) :
    Yields pol (buddyFree ops b.1 k) fun _ k' => k'.buddyLocked = false
      ∧ (∃ q k₁ log, ops.allocMemBlock none k = .ok q k₁ log ∧ q ∉ ptrs k₁ [] ∧ Relisted b q k₁ k')
      ∧ ∃ A', c.Grows A A' ∧ BuddyInv lo hi k' (A'.erase b) [] ∧ c.Owns k' A' (ptrs k' []) := by
  unfold buddyFree
  refine Yields.bind ((spec.alloc none h).mono_ok fun q k₁ log hrun hpost =>
    And.intro (Exists.intro log hrun) hpost) ?_
  rintro q k₁ ⟨⟨log, halloc⟩, hlocked₁, A₁, hgrows, hgood, hnull, hfresh⟩
  split
  · rename_i hq
    exact Yields.fault (hnull hq)
  · rename_i hq
    obtain ⟨hqfresh, howns⟩ := hfresh hq
    -- the nested call has left `b` allocated
    have hb₁ : b ∈ A₁ := c.mono hgrows hb
    have hinv : BuddyInv lo hi k₁ (b :: A₁.erase b) [] :=
      hgood.inv.perm (List.perm_cons_erase hb₁) (List.Perm.refl _)
    have hin := hinv.records.pageIn (b := b) (by simp)
    have hrec := hinv.records.allocated b (by simp)
    obtain ⟨k₂, h₂, hrun₂⟩ := reg.assign (R := R) hin (fun pg => { pg with priv := q })
      (fun _ => rfl) (k₁.setStart q b.1)
    have hlocked₂ : k₂.buddyLocked = false := by
      rw [h₂.only.locked, Kernel.setStart_locked, hlocked₁, hlocked]
    have horder : ((({ k₂ with buddyLocked := true } : Kernel E)).page b.1).order = b.2 := by
      show (k₂.page b.1).order = b.2
      rw [h₂.self]
      exact hrec.1
    rw [modify_bind_apply, hrun₂, bind_ok (lockBuddy_apply hlocked₂), Outcome.after_nil,
      reg.readPage_bind hin, horder, modify_bind_apply, bind_ok (listAdd_apply q b.2),
      Outcome.after_nil, unlockBuddy_apply rfl]
    have hfl : k₂.buddyFreeList = k₁.buddyFreeList := h₂.only.freeList
    have hlists : Function.update k₂.buddyFreeList b.2 (q :: k₂.buddyFreeList b.2)
        = Function.update k₁.buddyFreeList b.2 (q :: k₁.buddyFreeList b.2) := by rw [hfl]
    have hrest := (restSame_setStart k₁ q b.1).trans h₂.only.rest
    have hend : RestSame k₁ { k₂ with
        buddyLocked := false
        buddyFreePages := k₂.buddyFreePages + 1 <<< b.2
        buddyFreeList := Function.update k₂.buddyFreeList b.2 (q :: k₂.buddyFreeList b.2) } :=
      ⟨hrest.flags, hrest.earlyBrk, hrest.buddyInited, hrest.kallocInited, hrest.caches, hrest.slabs,
        hrest.ext⟩
    refine Yields.ok ⟨rfl, ⟨q, k₁, log, halloc, hqfresh, hlists, h₂.only.memBlock, hend⟩, A₁, hgrows,
      ?_, ?_⟩
    · refine hinv.give hq hqfresh ?_ ?_ ?_ h₂.only.memBlock ?_
      · intro x hx hne
        exact h₂.other x hx hne
      · show (k₂.page b.1).order = b.2 ∧ (k₂.page b.1).priv = q
        rw [h₂.self]
        exact ⟨hrec.1, rfl⟩
      · show Function.update k₂.buddyFreeList b.2 (q :: k₂.buddyFreeList b.2) = _
        rw [hfl]
      · show k₂.buddyFreePages + 1 <<< b.2 = _
        rw [h₂.only.freePages, Kernel.setStart_freePages, Nat.one_shiftLeft]
    · refine c.rest hend (c.subset ?_ howns)
      intro x hx
      rcases mem_ptrs_update hlists hx with ⟨hx, ho⟩ | hx
      · rcases List.mem_cons.mp hx with rfl | hx
        · exact List.mem_cons_self
        · exact List.mem_cons_of_mem _ (mem_ptrs.mpr (Or.inl ⟨_, ho, hx⟩))
      · exact List.mem_cons_of_mem _ hx

/-- **`buddy_free`** of an allocated block. -/
theorem buddyFree_spec (reg : Region lo hi) (spec : OpsSpec pol c lo hi [] ops) {b : Block}
    (hb : b ∈ A) (h : Good c lo hi k A []) (hlocked : k.buddyLocked = false) :
    Yields pol (buddyFree ops b.1 k) fun _ k' => k'.buddyLocked = false
      ∧ ∃ A', c.Grows A A' ∧ BuddyInv lo hi k' (A'.erase b) [] ∧ c.Owns k' A' (ptrs k' []) :=
  (buddyFree_relists reg spec hb h hlocked).mono fun _ _ h => ⟨h.1, h.2.2⟩

/-! ## Allocators that do not enter the buddy system -/

/-- The obligations of an allocator that leaves the buddy system alone. -/
structure PlainSpec (pol : Policy R Fault) (c : Contract E) (ops : MetaOps E R) : Prop where
  alloc : ∀ (X : Option Entry) {k A M}, c.Owns k A M →
    Yields pol (ops.allocMemBlock X k) fun r k' => BuddySame k k' ∧ c.Owns k' A M
      ∧ (r = 0 → pol.allowed .metadataOOM) ∧ (r ≠ 0 → r ∉ M ∧ c.Owns k' A (r :: M))
  free : ∀ {k A p M}, c.Owns k A (p :: M) → p ∉ M → p ≠ 0 →
    Yields pol (ops.freeMemBlock p k) fun _ k' => BuddySame k k' ∧ c.Owns k' A M

theorem ptrs_congr (h : BuddySame k k') : ptrs k' S = ptrs k S := by
  rw [ptrs, ptrs, entries_congr h.freeList h.memBlock]

theorem PlainSpec.toOps (h : PlainSpec pol c ops) (lo hi : Nat) (S : List Entry) :
    OpsSpec pol c lo hi S ops where
  alloc X k A hgood := by
    refine (h.alloc X hgood.owns).mono ?_
    rintro r k' ⟨hsame, howns, hnull, hfresh⟩
    rw [← ptrs_congr hsame] at howns hfresh
    exact ⟨hsame.locked, A, c.refl A, ⟨hgood.inv.of_same hsame, howns⟩, hnull, hfresh⟩
  free := h.free

/-- **`buddy_init`, blob by blob**: the blobs before `p` are free. -/
theorem buddyInitFrom_spec (plain : PlainSpec pol c ops) {n p : Nat} (hstart : PM_START ≤ lo)
    (hlo : lo ≤ p) (hp : BUDDY_BLOB_SIZE ∣ p) (hend : p + n * BUDDY_BLOB_SIZE ≤ PM_END)
    (hlo_dvd : BUDDY_BLOB_SIZE ∣ lo) (h : Good c lo p k [] [])
    (hclean : ∀ x, PageIn p (p + n * BUDDY_BLOB_SIZE) x → (k.page x).priv = 0) :
    Yields pol (buddyInitFrom ops n p k) fun r k' => r = 0
      ∧ k'.buddyLocked = k.buddyLocked ∧ Good c lo (p + n * BUDDY_BLOB_SIZE) k' [] [] := by
  have hblob : 0 < BUDDY_BLOB_SIZE := by decide
  induction n generalizing k p with
  | zero =>
      rw [Nat.zero_mul, Nat.add_zero]
      exact Yields.ok ⟨rfl, rfl, h⟩
  | succ n ih =>
      rw [Nat.succ_mul, Nat.add_comm (n * BUDDY_BLOB_SIZE), ← Nat.add_assoc] at hend hclean ⊢
      have hle : p + BUDDY_BLOB_SIZE ≤ p + BUDDY_BLOB_SIZE + n * BUDDY_BLOB_SIZE :=
        Nat.le_add_right _ _
      have reg : Region lo (p + BUDDY_BLOB_SIZE + n * BUDDY_BLOB_SIZE) :=
        ⟨hstart, hend, hlo_dvd, (hp.add (dvd_refl _)).add (Nat.dvd_mul_left _ _)⟩
      have hpage : PAGE_SIZE ∣ p := Dvd.dvd.trans (by decide) hp
      have hin : PageIn lo (p + BUDDY_BLOB_SIZE + n * BUDDY_BLOB_SIZE) p := ⟨hpage, hlo, by omega⟩
      unfold buddyInitFrom
      rw [addr2index_eq (reg.bounds hin).1 (reg.bounds hin).2]
      refine Yields.bind (plain.alloc none h.owns) ?_
      rintro t k₁ ⟨hsame, howns₁, hnull, hfresh⟩
      split
      · rename_i ht
        exact Yields.fault (hnull ht)
      · rename_i ht
        obtain ⟨htfresh, howns⟩ := hfresh ht
        have hinv := h.inv.of_same hsame
        rw [← ptrs_congr hsame] at htfresh howns
        obtain ⟨k₂, h₂, hrun₂⟩ := reg.assign (R := R) hin (fun pg => { pg with priv := t })
          (fun _ => rfl) (k₁.setStart t p)
        obtain ⟨k₃, h₃, hrun₃⟩ := reg.assign (R := R) hin
          (fun pg => { pg with order := BUDDY_MAX_ORDER }) (fun _ => rfl) k₂
        rw [modify_bind_apply, hrun₂, hrun₃, modify_bind_apply, listAddTail_bind]
        have hfl : k₃.buddyFreeList = k₁.buddyFreeList := by
          rw [h₃.only.freeList, h₂.only.freeList, Kernel.setStart_freeList]
        have hmb : k₃.memBlock = Function.update k₁.memBlock t p := by
          rw [h₃.only.memBlock, h₂.only.memBlock, Kernel.setStart_memBlock]
        have hpages : ∀ x, PageIn lo (p + BUDDY_BLOB_SIZE + n * BUDDY_BLOB_SIZE) x → x ≠ p →
            k₃.page x = k.page x := by
          intro x hx hne
          rw [h₃.other x hx hne, h₂.other x hx hne, Kernel.setStart_page, hsame.page]
        -- one more blob, all of it one free block: the region of the invariant ends after it
        generalize hk₄ : Kernel.setList { k₃ with
          buddyFreePages := k₃.buddyFreePages + 1 <<< BUDDY_MAX_ORDER } BUDDY_MAX_ORDER
          (k₃.buddyFreeList BUDDY_MAX_ORDER ++ [t]) = k₄
        have hpage₄ : ∀ x, k₄.page x = k₃.page x := fun x => by rw [← hk₄]; rfl
        have hfl₄ : k₄.buddyFreeList = Function.update k₁.buddyFreeList BUDDY_MAX_ORDER
            (k₁.buddyFreeList BUDDY_MAX_ORDER ++ [t]) := by
          rw [← hk₄, Kernel.setList_freeList, hfl]
        have hentries : (entries k₄).Perm (⟨t, p, BUDDY_MAX_ORDER⟩ :: entries k₁) := by
          have hadd := BuddyInv.entries_setList (k₁.setStart t p) k₄ (p := t)
            (le_refl BUDDY_MAX_ORDER) (List.perm_append_singleton _ _) hfl₄
            (by rw [← hk₄]; exact hmb)
          rwa [BuddyInv.entries_setStart htfresh, Kernel.setStart_memBlock, Function.update_self] at hadd
        have hrec : Records lo (p + BUDDY_BLOB_SIZE) k₄.page
            (⟨t, p, BUDDY_MAX_ORDER⟩ :: (entries k₁ ++ [])) [] := by
          refine hinv.records.extend hlo hp ht htfresh ?_ ?_ ?_
          · intro x hx
            have hx2 := hx.2
            rw [hpage₄, hpages x ⟨hx.1, hx2.1, by omega⟩ (by omega), hsame.page]
          · rw [hpage₄, h₃.self, h₂.self]
            exact ⟨rfl, rfl⟩
          · intro x hx hne
            have hx2 := hx.2
            rw [hpage₄, hpages x ⟨hx.1, by omega, by omega⟩ hne]
            exact hclean x ⟨hx.1, hx2.1, by omega⟩
        have hgood : Good c lo (p + BUDDY_BLOB_SIZE) k₄ [] [] := by
          refine ⟨⟨hrec.perm (hentries.append_right []).symm (List.Perm.refl _), ?_, ?_, ?_⟩, ?_⟩
          · simp
          · have hsum := hinv.freePages
            rw [((hentries.append_right []).map _).sum_eq]
            rw [← hk₄]
            show k₃.buddyFreePages + 1 <<< BUDDY_MAX_ORDER = _
            rw [h₃.only.freePages, h₂.only.freePages, Kernel.setStart_freePages, hsum,
              Nat.one_shiftLeft]
            simp [Nat.add_comm]
          · intro o ho
            rw [hfl₄, Function.update_of_ne (by omega)]
            exact hinv.above o ho
          · refine c.rest (k := k₁) ?_ (c.subset ?_ howns)
            · rw [← hk₄]
              have hpages' : RestSame k₃ { k₃ with
                  buddyFreePages := k₃.buddyFreePages + 1 <<< BUDDY_MAX_ORDER } :=
                ⟨fun _ => rfl, rfl, rfl, rfl, rfl, rfl, rfl⟩
              exact ((restSame_setStart _ _ _).trans (h₂.only.rest.trans h₃.only.rest)).trans
                (hpages'.trans (restSame_setList _ _ _))
            · intro x hx
              have := ((hentries.append_right []).map Entry.ptr).mem_iff.mp hx
              simpa [ptrs] using this
        refine (ih (by omega) (hp.add (dvd_refl _)) hend hgood ?_).mono ?_
        · intro x hx
          have hx2 := hx.2
          rw [hpage₄, hpages x ⟨hx.1, by omega, by omega⟩ (by omega)]
          exact hclean x ⟨hx.1, by omega, hx2.2⟩
        · rintro r k' ⟨hr, hlocked, hgood'⟩
          refine ⟨hr, ?_, hgood'⟩
          rw [hlocked, ← hk₄, Kernel.setList_locked]
          show k₃.buddyLocked = k.buddyLocked
          rw [h₃.only.locked, h₂.only.locked, Kernel.setStart_locked, hsame.locked]

theorem Layout.region (lay : Layout) :
    Region lay.BUDDY_SYSTEM_BASE Layout.BUDDY_SYSTEM_END where
  start_le := lay.start_le.trans lay.ekernel_le_BASE
  le_end := Layout.BUDDY_SYSTEM_END_eq.le
  lo_dvd := lay.BUDDY_SYSTEM_BASE_dvd
  hi_dvd := by
    rw [Layout.BUDDY_SYSTEM_END_eq]
    exact ⟨272, rfl⟩

/-- `pm_pages_init` succeeds where the early heap fits, and leaves no entry in the region. -/
theorem pmPagesInit_spec {lay : Layout} {k k' : Kernel E}
    (h : (pmPagesInit lay : Mem E R Int) k = .ok 0 k' []) :
    lay.EARLY_HEAP_END ≤ PM_END
      ∧ (∀ x, PageIn lay.BUDDY_SYSTEM_BASE Layout.BUDDY_SYSTEM_END x →
          k'.page x = ⟨PM_STATIC ||| PM_BUDDY, BUDDY_MAX_ORDER + 1, 0⟩)
      ∧ k' = { k with pages := fun i => pmPage lay (PM_START + i * PAGE_SIZE) (k.pages i) } := by
  unfold pmPagesInit at h
  split at h
  · cases h
  · rename_i hfit
    rw [modify_bind_apply] at h
    cases h
    refine ⟨Nat.not_lt.mp hfit, fun x hx => ?_, rfl⟩
    have hstart := (lay.region.bounds hx).1
    have hdvd : PAGE_SIZE ∣ x - PM_START := Nat.dvd_sub hx.1 ⟨0x80000, rfl⟩
    have haddr : PM_START + (x - PM_START) / PAGE_SIZE * PAGE_SIZE = x := by
      rw [Nat.div_mul_cancel hdvd]
      omega
    show pmPage lay (PM_START + (x - PM_START) / PAGE_SIZE * PAGE_SIZE) _ = _
    rw [haddr, pmPage, if_pos hx.2]

/-- Before the first blob the region is empty. -/
theorem good_empty (hpages : k.buddyFreePages = 0) (howns : c.Owns k [] []) :
    Good c lo lo { k with buddyFreeList := fun _ => [] } [] [] := by
  have hentries : entries { k with buddyFreeList := fun _ => [] } = [] := by
    simp [entries, entriesBelow]
  have htiles : Tiles PAGE_SHIFT lo lo [] := ⟨by simp, List.Pairwise.nil, by simp⟩
  refine ⟨⟨?_, by simp, ?_, fun _ _ => rfl⟩, ?_⟩
  · rw [hentries]
    refine ⟨htiles, List.nodup_nil, by simp, by simp, by simp, by simp, ?_⟩
    intro a ha
    exact absurd (ha.2.1.trans_lt ha.2.2) (lt_irrefl _)
  · rw [hentries]
    exact hpages
  · refine c.rest (k := k) ⟨fun _ => rfl, rfl, rfl, rfl, rfl, rfl, rfl⟩ (c.subset ?_ howns)
    rw [ptrs, hentries]
    exact List.Subset.refl _

theorem buddyInitBlobs_spec (plain : PlainSpec pol c ops) {n : Nat} (hstart : PM_START ≤ lo)
    (hdvd : BUDDY_BLOB_SIZE ∣ lo) (hend : lo + n * BUDDY_BLOB_SIZE ≤ PM_END)
    (hpages : k.buddyFreePages = 0)
    (hclean : ∀ x, PageIn lo (lo + n * BUDDY_BLOB_SIZE) x → (k.page x).priv = 0)
    (howns : c.Owns k [] []) :
    Yields pol (buddyInitBlobs ops n lo k) fun r k' => r = 0 ∧ k'.buddyLocked = k.buddyLocked
      ∧ ∃ k'', Good c lo (lo + n * BUDDY_BLOB_SIZE) k'' [] []
        ∧ k' = { k'' with buddyInited := true } := by
  unfold buddyInitBlobs
  rw [modify_bind_apply]
  refine Yields.bind (buddyInitFrom_spec plain hstart (le_refl lo) hdvd hend hdvd
    (good_empty hpages howns) hclean) ?_
  rintro r k₁ ⟨rfl, hlocked, hgood⟩
  rw [if_neg (not_not.mpr rfl), modify_bind_apply]
  exact Yields.pure ⟨rfl, hlocked, k₁, hgood, rfl⟩

/-- **`buddy_init`** makes every blob of the region a free block. -/
theorem buddyInit_spec (plain : PlainSpec pol c ops) {lay : Layout}
    (hfit : lay.EARLY_HEAP_END ≤ PM_END) (hpages : k.buddyFreePages = 0)
    (hclean : ∀ x, PageIn lay.BUDDY_SYSTEM_BASE Layout.BUDDY_SYSTEM_END x → (k.page x).priv = 0)
    (howns : c.Owns k [] []) :
    Yields pol (buddyInit lay ops k) fun r k' => r = 0 ∧ k'.buddyLocked = k.buddyLocked
      ∧ ∃ k'', Good c lay.BUDDY_SYSTEM_BASE Layout.BUDDY_SYSTEM_END k'' [] []
        ∧ k' = { k'' with buddyInited := true } := by
  have hle := lay.BASE_le_END hfit
  have hdvd : BUDDY_BLOB_SIZE ∣ Layout.BUDDY_SYSTEM_END - lay.BUDDY_SYSTEM_BASE :=
    Nat.dvd_sub lay.region.hi_dvd lay.region.lo_dvd
  have hhi : lay.BUDDY_SYSTEM_BASE + lay.BUDDY_BLOB_NUM * BUDDY_BLOB_SIZE
      = Layout.BUDDY_SYSTEM_END := by
    rw [lay.BUDDY_BLOB_NUM_eq, Nat.div_mul_cancel hdvd]
    exact Nat.add_sub_cancel' hle
  have hend := lay.region.le_end
  rw [← hhi] at hclean hend ⊢
  exact buddyInitBlobs_spec plain lay.region.start_le lay.region.lo_dvd hend hpages hclean howns

end NoobKernel.Mm
