import NoobKernel.Fs.InodeRace

set_option autoImplicit false

/-! # The lifetime of inodes

A call of `inode_put` that has brought the count to 0 frees the inode some steps later, and until
then the table still has it (`InWindow`). A reference that is held is to an inode that stays
(`HeldStay`) as long as no lookup falls into that window, and `drop_inode` lets go only of an inode
whose count is still 0. A lookup in the window breaks it at once (`inode_lookup_in_window`).

The invariant: the count of a live inode is the number of its references, of which a call that has
allocated it has one, and an inode on its way out is counted to zero.
-/

namespace NoobKernel.Fs

/-- No inode that is referenced is free, or about to be freed by a call of `inode_put`. -/
def HeldStay (s : InodeMachine) : Prop :=
  ∀ r ∈ s.held, s.cache.live r.inode = true ∧ ∀ c ∈ s.calls, c.frees r.inode = false

/-- The time from the count 0 to the end of `inode_free`: the count is 0, and the call of `inode_put`
that has brought it there has gone on to `inode_free`. -/
def InWindow (s : InodeMachine) (a : Addr) : Prop :=
  (s.cache.inode a).iRefcnt = 0 ∧ ∃ c ∈ s.calls, c.frees a = true

/-- No lookup finds an inode in its window, one that `destroy_inode` has left in the table, or a
count without room; and `drop_inode` lets go of an inode whose count is 0, outside its window. -/
def InodeAction.OutsideWindow (s : InodeMachine) : InodeAction → Prop
  | lookup _ ino => ∀ a ∈ s.cache.ht.get ino,
      s.cache.live a = true ∧ ¬InWindow s a ∧ (s.cache.inode a).iRefcnt ≠ 0xffffffff
  | drop i answer =>
      match s.calls[i]? with
      | some (.dropping a) =>
          answer = 0 → s.cache.live a = true ∧ ¬InWindow s a ∧ (s.cache.inode a).iRefcnt = 0
      | _ => True
  | alloc _ _ | insert _ _ | put _ | free _ | release _ => True

instance decidableInWindow (s : InodeMachine) (a : Addr) : Decidable (InWindow s a) :=
  inferInstanceAs (Decidable (_ ∧ _))

instance decidableDropsOutside (s : InodeMachine) (answer : Int) :
    (c : Option InodeCall) → Decidable (match c with
      | some (.dropping a) =>
          answer = 0 → s.cache.live a = true ∧ ¬InWindow s a ∧ (s.cache.inode a).iRefcnt = 0
      | _ => True)
  | some (.dropping _) => inferInstanceAs (Decidable (_ → _))
  | none | some (.missed _ _) | some (.allocated _ _ _) | some (.freeing _) | some (.removed _) =>
      .isTrue trivial

instance decidableOutsideWindow (s : InodeMachine) :
    (a : InodeAction) → Decidable (a.OutsideWindow s)
  | .lookup _ _ => Option.decidableForallMem _
  | .drop i answer => decidableDropsOutside s answer s.calls[i]?
  | .alloc _ _ | .insert _ _ | .put _ | .free _ | .release _ => .isTrue trivial

variable {ops : Addr → SuperOperations} {s s' : InodeMachine} {a b sb memory : Addr} {ino : UInt64}
  {i : Nat} {c : InodeCall} {r : Got}

/-! ## The invariant -/

/-- The references to an inode: those held, and that of a call that has allocated it. -/
def references (s : InodeMachine) (a : Addr) : Nat :=
  s.held.countP (·.inode = a) + s.calls.countP (·.allocates a)

structure LifetimeInv (s : InodeMachine) : Prop where
  refs : ∀ a, s.cache.live a = true → (s.cache.inode a).iRefcnt.toNat = references s a
  live : ∀ a, references s a ≠ 0 → s.cache.live a = true
  freeing : ∀ a, ∀ c ∈ s.calls, c.frees a = true →
    s.cache.live a = true ∧ (s.cache.inode a).iRefcnt = 0
  once : ∀ a, s.calls.countP (·.frees a) ≤ 1

theorem lifetimeInv_init (inode : Addr → Inode) (list : Links Addr) :
    LifetimeInv ⟨inodeInit inode list, [], []⟩ where
  refs _ := nofun
  live _ h := absurd rfl h
  freeing _ := nofun
  once _ := Nat.zero_le 1

theorem references_pos (hr : r ∈ s.held) : references s r.inode ≠ 0 := by
  have hpos : 0 < s.held.countP (·.inode = r.inode) :=
    List.countP_pos_iff.mpr ⟨r, hr, decide_eq_true rfl⟩
  exact Nat.ne_of_gt (Nat.lt_of_lt_of_le hpos (Nat.le_add_right _ _))

/-- An inode on its way out has no references. -/
theorem LifetimeInv.references_freeing (hi : LifetimeInv s) (hc : c ∈ s.calls)
    (hfrees : c.frees a = true) : references s a = 0 := by
  obtain ⟨hlive, hzero⟩ := hi.freeing a c hc hfrees
  rw [← hi.refs a hlive, hzero]
  rfl

theorem LifetimeInv.heldStay (hi : LifetimeInv s) : HeldStay s := by
  refine fun r hr => ⟨hi.live _ (references_pos hr), fun c hc => ?_⟩
  by_contra hfrees
  exact references_pos hr (hi.references_freeing hc (Bool.not_eq_false _ ▸ hfrees))

/-- The inode is allocated and no call is about to free it. -/
def Staying (s : InodeMachine) (a : Addr) : Prop :=
  s.cache.live a = true ∧ ∀ c ∈ s.calls, c.frees a = false

/-- Outside its window an allocated inode stays: one that is going to be freed has the count 0. -/
theorem LifetimeInv.staying (hi : LifetimeInv s) (hlive : s.cache.live a = true)
    (hout : ¬InWindow s a) : Staying s a := by
  refine ⟨hlive, fun c hc => ?_⟩
  by_contra hfrees
  rw [Bool.not_eq_false] at hfrees
  exact hout ⟨(hi.freeing a c hc hfrees).2, c, hc, hfrees⟩

/-- A call that is about to free `a` is the only one. -/
theorem LifetimeInv.frees_once (hi : LifetimeInv s) (hc : s.calls[i]? = some c)
    (hfrees : c.frees a = true) : ∀ c' ∈ s.calls.eraseIdx i, c'.frees a = false := by
  have honce := hi.once a
  rw [countP_calls hc, if_pos hfrees] at honce
  have hzero : (s.calls.eraseIdx i).countP (·.frees a) = 0 := by omega
  intro c' hc'
  exact Bool.eq_false_iff.mpr (List.countP_eq_zero.mp hzero c' hc')

/-- Calls come and go that neither have allocated an inode nor are about to free one. -/
theorem LifetimeInv.calls (hi : LifetimeInv s) {calls : List InodeCall}
    (hallocates : ∀ a, calls.countP (·.allocates a) = s.calls.countP (·.allocates a))
    (hmem : ∀ a, ∀ c ∈ calls, c.frees a = true → c ∈ s.calls)
    (hfrees : ∀ a, calls.countP (·.frees a) ≤ s.calls.countP (·.frees a)) :
    LifetimeInv { s with calls := calls } := by
  have hrefs : ∀ a, references { s with calls := calls } a = references s a := fun a =>
    congrArg (s.held.countP (·.inode = a) + ·) (hallocates a)
  refine ⟨fun a ha => ?_, fun a ha => ?_, fun a c hc hf => hi.freeing a c (hmem a c hc hf) hf,
    fun a => (hfrees a).trans (hi.once a)⟩
  · rw [hrefs]
    exact hi.refs a ha
  · rw [hrefs] at ha
    exact hi.live a ha

/-! ## Sections -/

theorem LifetimeInv.hit (hi : LifetimeInv s) (hstay : Staying s a)
    (hmax : (s.cache.inode a).iRefcnt ≠ 0xffffffff) (sb : Addr) (ino : UInt64) :
    LifetimeInv { s with
      cache := s.cache.setRefcnt a ((s.cache.inode a).iRefcnt + 1)
      held := ⟨a, sb, ino⟩ :: s.held } := by
  have hbump : (s.cache.inode a).iRefcnt.toNat + 1 < 2 ^ 32 := by
    have hlt := (s.cache.inode a).iRefcnt.toNat_lt
    have hne : (s.cache.inode a).iRefcnt.toNat ≠ 0xffffffff := fun heq =>
      hmax (UInt32.toNat_inj.mp heq)
    omega
  have hrefs : ∀ b, references { s with
      cache := s.cache.setRefcnt a ((s.cache.inode a).iRefcnt + 1)
      held := ⟨a, sb, ino⟩ :: s.held } b = references s b + if b = a then 1 else 0 := by
    intro b
    unfold references
    rw [List.countP_cons]
    simp only [decide_eq_true_eq, eq_comm (a := a)]
    omega
  refine ⟨fun b hb => ?_, fun b hb => ?_, fun b c hc hfrees => ?_, hi.once⟩
  · rw [hrefs, iRefcnt_setRefcnt]
    have hb' := hi.refs b hb
    by_cases heq : b = a
    · subst heq
      rw [if_pos rfl, if_pos rfl, ← hb', UInt32.toNat_add]
      exact Nat.mod_eq_of_lt hbump
    · rw [if_neg heq, if_neg heq]
      exact hb'
  · rw [hrefs] at hb
    by_cases heq : b = a
    · exact heq ▸ hstay.1
    · rw [if_neg heq] at hb
      exact hi.live b hb
  · obtain ⟨hlive, hzero⟩ := hi.freeing b c hc hfrees
    -- an inode that is being freed is not staying
    have hne : b ≠ a := by
      rintro rfl
      exact absurd hfrees (by rw [hstay.2 c hc]; decide)
    rw [iRefcnt_setRefcnt, if_neg hne]
    exact ⟨hlive, hzero⟩

theorem LifetimeInv.alloc (hi : LifetimeInv s) (hc : s.calls[i]? = some (.missed sb ino))
    (hfresh : FreshInode s.cache memory) :
    LifetimeInv { s with
      cache := (s.cache.construct sb memory).setIno memory ino
      calls := .allocated sb ino memory :: s.calls.eraseIdx i } := by
  -- nothing can refer to memory that is not in use
  have hzero : references s memory = 0 := by
    by_contra hne
    exact absurd (hi.live memory hne) (by rw [hfresh.1]; decide)
  have hrefs : ∀ b, references { s with
      cache := (s.cache.construct sb memory).setIno memory ino
      calls := .allocated sb ino memory :: s.calls.eraseIdx i } b
      = references s b + if b = memory then 1 else 0 := by
    intro b
    unfold references
    rw [List.countP_cons, countP_calls hc]
    simp only [InodeCall.allocates, decide_eq_true_eq, Bool.false_eq_true, if_false,
      eq_comm (a := memory)]
    omega
  -- the new call allocates, so whatever is being freed was so before
  have hmem : ∀ b, ∀ c ∈ InodeCall.allocated sb ino memory :: s.calls.eraseIdx i,
      c.frees b = true → c ∈ s.calls := by
    intro b c hc' hfrees
    rcases List.mem_cons.mp hc' with rfl | hc'
    · rcases frees_iff.mp hfrees with heq | heq <;> cases heq
    · exact (mem_calls hc).mpr (.inr hc')
  refine ⟨fun b hb => ?_, fun b hb => ?_, fun b c hc' hfrees => ?_, fun b => ?_⟩
  · rw [hrefs, inode_allocated]
    rw [live_allocated] at hb
    by_cases heq : b = memory
    · rw [if_pos heq, if_pos heq, heq, hzero]
      rfl
    · rw [if_neg heq] at hb
      rw [if_neg heq, if_neg heq]
      exact hi.refs b hb
  · rw [hrefs] at hb
    rw [live_allocated]
    by_cases heq : b = memory
    · exact if_pos heq
    · rw [if_neg heq] at hb
      rw [if_neg heq]
      exact hi.live b hb
  · obtain ⟨hlive, hzero'⟩ := hi.freeing b c (hmem b c hc' hfrees) hfrees
    have hne : b ≠ memory := by
      rintro rfl
      exact absurd hlive (by rw [hfresh.1]; decide)
    rw [inode_allocated, live_allocated, if_neg hne, if_neg hne]
    exact ⟨hlive, hzero'⟩
  · have honce := hi.once b
    rw [countP_calls hc] at honce
    rw [List.countP_cons]
    exact honce

theorem LifetimeInv.insert (hi : LifetimeInv s) (hc : s.calls[i]? = some (.allocated sb ino a))
    (nodeMemory : Bool) :
    LifetimeInv { s with
      cache := inodeGetInsert s.cache ino a nodeMemory
      calls := s.calls.eraseIdx i
      held := ⟨a, sb, ino⟩ :: s.held } := by
  have hrefs : ∀ b, references { s with
      cache := inodeGetInsert s.cache ino a nodeMemory
      calls := s.calls.eraseIdx i
      held := ⟨a, sb, ino⟩ :: s.held } b = references s b := by
    intro b
    have hkind : (InodeCall.allocated sb ino a).allocates b = decide (a = b) := rfl
    unfold references
    rw [List.countP_cons, countP_calls hc, hkind]
    simp only [decide_eq_true_eq]
    omega
  refine ⟨fun b hb => ?_, fun b hb => ?_, fun b c hc' => ?_, fun b => ?_⟩
  · rw [hrefs]
    exact hi.refs b hb
  · rw [hrefs] at hb
    exact hi.live b hb
  · exact hi.freeing b c ((mem_calls hc).mpr (.inr hc'))
  · have honce := hi.once b
    rw [countP_calls hc] at honce
    exact Nat.le_of_add_right_le honce

theorem LifetimeInv.put (hi : LifetimeInv s) (h : s.next ops (.put r) = some s') :
    LifetimeInv s' := by
  obtain ⟨hr, hlast, hcache, hheld⟩ := next_put h
  have hpos := references_pos hr
  have hlive := hi.live _ hpos
  have hcount := hi.refs _ hlive
  have hle : (1 : UInt32) ≤ (s.cache.inode r.inode).iRefcnt := by
    rw [UInt32.le_iff_toNat_le, hcount]
    exact Nat.pos_of_ne_zero hpos
  have hsub : ((s.cache.inode r.inode).iRefcnt - 1).toNat + 1
      = (s.cache.inode r.inode).iRefcnt.toNat := by
    have hone : (1 : UInt32).toNat = 1 := rfl
    have hle' := UInt32.le_iff_toNat_le.mp hle
    rw [UInt32.toNat_sub_of_le _ _ hle]
    omega
  -- the call that may begin has allocated nothing
  have hallocates : ∀ b, s'.calls.countP (·.allocates b) = s.calls.countP (·.allocates b) := by
    intro b
    rcases hlast with ⟨-, heq⟩ | ⟨-, c, heq, rfl | rfl⟩
    · rw [heq]
    · rw [heq, List.countP_cons]
      rfl
    · rw [heq, List.countP_cons]
      rfl
  have hrefs : ∀ b, references s b = references s' b + if b = r.inode then 1 else 0 := by
    -- one reference fewer, to the inode of `r`
    intro b
    unfold references
    rw [hallocates, hheld, (List.perm_cons_erase hr).countP_eq, List.countP_cons]
    simp only [decide_eq_true_eq, eq_comm (a := r.inode)]
    omega
  refine ⟨fun b hb => ?_, fun b hb => ?_, fun b c hc hfrees => ?_, fun b => ?_⟩
  · rw [hcache] at hb
    have hb' := hi.refs b hb
    rw [hrefs] at hb'
    rw [hcache, iRefcnt_setRefcnt]
    by_cases heq : b = r.inode
    · subst heq
      rw [if_pos rfl] at hb' ⊢
      omega
    · rw [if_neg heq] at hb' ⊢
      exact hb'
  · rw [hcache]
    refine hi.live b ?_
    rw [hrefs]
    omega
  · rw [hcache, iRefcnt_setRefcnt]
    have hold : c ∈ s.calls → s.cache.live b = true
        ∧ (if b = r.inode then (s.cache.inode r.inode).iRefcnt - 1
          else (s.cache.inode b).iRefcnt) = 0 := by
      intro hc
      -- an inode that is being freed has no references, and `r` is one to its inode
      have hne : b ≠ r.inode := by
        rintro rfl
        exact hpos (hi.references_freeing hc hfrees)
      rw [if_neg hne]
      exact hi.freeing b c hc hfrees
    rcases hlast with ⟨-, heq⟩ | ⟨hone, c', heq, hc'⟩
    · exact hold (heq ▸ hc)
    · rw [heq] at hc
      rcases List.mem_cons.mp hc with rfl | hc
      · have hb : b = r.inode := by
          rcases hc' with rfl | rfl <;> rcases frees_iff.mp hfrees with hf | hf <;> cases hf
          rfl
        rw [if_pos hb, hone, hb]
        exact ⟨hlive, rfl⟩
      · exact hold hc
  · rcases hlast with ⟨-, heq⟩ | ⟨-, c, heq, hc⟩
    · rw [heq]
      exact hi.once b
    · rw [heq, List.countP_cons]
      by_cases hfrees : c.frees b = true
      · have hb : b = r.inode := by
          rcases hc with rfl | rfl <;> rcases frees_iff.mp hfrees with hf | hf <;> cases hf
          rfl
        have hzero : s.calls.countP (·.frees b) = 0 := by
          refine List.countP_eq_zero.mpr fun c' hc' hf => ?_
          exact hpos (hb ▸ hi.references_freeing hc' hf)
        rw [hzero, if_pos hfrees]
      · rw [if_neg hfrees]
        exact hi.once b

/-- The memory of an inode is given back by the call that is about to. -/
theorem LifetimeInv.release (hi : LifetimeInv s) (hc : s.calls[i]? = some c)
    (hfrees : c.frees a = true) :
    LifetimeInv { s with cache := s.cache.release a, calls := s.calls.eraseIdx i } := by
  have hzero := hi.references_freeing ((mem_calls hc).mpr (.inl rfl)) hfrees
  have hallocates : ∀ b, c.allocates b = false := by
    intro b
    rcases frees_iff.mp hfrees with rfl | rfl <;> rfl
  have hrefs : ∀ b, references { s with cache := s.cache.release a, calls := s.calls.eraseIdx i } b
      = references s b := by
    intro b
    unfold references
    rw [countP_calls hc, hallocates]
    rfl
  refine ⟨fun b hb => ?_, fun b hb => ?_, fun b c' hc' hfrees' => ?_, fun b => ?_⟩
  · rw [hrefs]
    exact hi.refs b (live_release hb).2
  · rw [hrefs] at hb
    have hne : b ≠ a := by
      rintro rfl
      exact hb hzero
    exact (Function.update_of_ne hne _ _).trans (hi.live b hb)
  · obtain ⟨hlive, hcount⟩ := hi.freeing b c' ((mem_calls hc).mpr (.inr hc')) hfrees'
    have hne : b ≠ a := by
      rintro rfl
      exact absurd hfrees' (by rw [hi.frees_once hc hfrees c' hc']; decide)
    exact ⟨(Function.update_of_ne hne _ _).trans hlive, hcount⟩
  · have honce := hi.once b
    rw [countP_calls hc] at honce
    exact Nat.le_of_add_right_le honce

/-- A call goes on towards freeing an inode. -/
theorem LifetimeInv.proceed (hi : LifetimeInv s) (c' : InodeCall) (hc : s.calls[i]? = some c)
    (hallocates : ∀ b, c'.allocates b = c.allocates b) (hfrees : ∀ b, c'.frees b = c.frees b) :
    LifetimeInv { s with calls := c' :: s.calls.eraseIdx i } := by
  have hcount : ∀ p : InodeCall → Bool, p c' = p c →
      (c' :: s.calls.eraseIdx i).countP p = s.calls.countP p := by
    intro p hp
    rw [List.countP_cons, countP_calls hc, hp]
  have hrefs : ∀ b, references { s with calls := c' :: s.calls.eraseIdx i } b = references s b :=
    fun b => congrArg (s.held.countP (·.inode = b) + ·) (hcount _ (hallocates b))
  refine ⟨fun b hb => ?_, fun b hb => ?_, fun b d hd hf => ?_, fun b => ?_⟩
  · rw [hrefs]
    exact hi.refs b hb
  · rw [hrefs] at hb
    exact hi.live b hb
  · rcases List.mem_cons.mp hd with rfl | hd
    · exact hi.freeing b c ((mem_calls hc).mpr (.inl rfl)) (hfrees b ▸ hf)
    · exact hi.freeing b d ((mem_calls hc).mpr (.inr hd)) hf
  · have honce := hi.once b
    rwa [← hcount _ (hfrees b)] at honce

/-- `drop_inode` lets an inode go. -/
theorem LifetimeInv.letGo (hi : LifetimeInv s) (hc : s.calls[i]? = some (.dropping a))
    (hstay : Staying s a) (hzero : (s.cache.inode a).iRefcnt = 0) :
    LifetimeInv { s with calls := .freeing a :: s.calls.eraseIdx i } := by
  have hrefs : ∀ b, references { s with calls := .freeing a :: s.calls.eraseIdx i } b
      = references s b := by
    intro b
    unfold references
    rw [List.countP_cons, countP_calls hc]
    rfl
  have ha : ∀ b, (InodeCall.freeing a).frees b = true → b = a := by
    intro b hf
    rcases frees_iff.mp hf with hf | hf <;> cases hf
    rfl
  refine ⟨fun b hb => ?_, fun b hb => ?_, fun b c hc' hf => ?_, fun b => ?_⟩
  · rw [hrefs]
    exact hi.refs b hb
  · rw [hrefs] at hb
    exact hi.live b hb
  · rcases List.mem_cons.mp hc' with rfl | hc'
    · rw [ha b hf]
      exact ⟨hstay.1, hzero⟩
    · exact hi.freeing b c ((mem_calls hc).mpr (.inr hc')) hf
  · have hcount := countP_calls hc (·.frees b)
    rw [List.countP_cons]
    by_cases hf : (InodeCall.freeing a).frees b = true
    · -- nothing else frees the inode: an inode that stays is freed by nobody
      have hnone : (s.calls.eraseIdx i).countP (·.frees b) = 0 := by
        refine List.countP_eq_zero.mpr fun c' hc' hf' => ?_
        have hstay' := hstay.2 c' ((mem_calls hc).mpr (.inr hc'))
        rw [ha b hf, hstay'] at hf'
        cases hf'
      rw [hnone, if_pos hf]
    · rw [if_neg hf]
      have honce := hi.once b
      omega

/-! ## Runs -/

theorem LifetimeInv.next (hi : LifetimeInv s) {act : InodeAction} (hact : act.OutsideWindow s)
    (hnext : s.next ops act = some s') : LifetimeInv s' := by
  cases act with
  | lookup sb ino =>
      rcases next_lookup hnext with ⟨a, hget, rfl⟩ | rfl
      · obtain ⟨hlive, hout, hmax⟩ := hact a hget
        exact hi.hit (hi.staying hlive hout) hmax sb ino
      · -- a miss begins a call, which has nothing yet
        refine hi.calls (fun a => ?_) (fun a c hc hf => ?_) fun a => ?_
        · rw [List.countP_cons]
          rfl
        · rcases List.mem_cons.mp hc with rfl | hc
          · rcases frees_iff.mp hf with hf | hf <;> cases hf
          · exact hc
        · rw [List.countP_cons]
          exact Nat.le_refl _
  | alloc i memory =>
      obtain ⟨sb, ino, hc, rfl | ⟨hfresh, rfl⟩⟩ := next_alloc hnext
      · refine hi.calls (fun a => ?_) (fun a c hc' _ => (mem_calls hc).mpr (.inr hc')) fun a => ?_
        · rw [countP_calls hc]
          rfl
        · rw [countP_calls hc]
          exact Nat.le_add_right _ _
      · exact hi.alloc hc hfresh
  | insert i nodeMemory =>
      obtain ⟨sb, ino, a, hc, rfl⟩ := next_insert hnext
      exact hi.insert hc nodeMemory
  | put r => exact hi.put hnext
  | drop i answer =>
      obtain ⟨a, hc, ⟨-, rfl⟩ | ⟨hanswer, rfl⟩⟩ := next_drop hnext
      · refine hi.calls (fun a => ?_) (fun a c hc' _ => (mem_calls hc).mpr (.inr hc')) fun a => ?_
        · rw [countP_calls hc]
          rfl
        · rw [countP_calls hc]
          exact Nat.le_add_right _ _
      · rw [InodeAction.OutsideWindow, hc] at hact
        obtain ⟨hlive, hout, hzero⟩ := hact hanswer
        exact hi.letGo hc (hi.staying hlive hout) hzero
  | free i =>
      obtain ⟨a, hc, rfl | rfl⟩ := next_free hnext
      · exact hi.release hc (frees_iff.mpr (.inl rfl))
      · have hgo := hi.proceed (.removed a) hc (fun _ => rfl) fun b => by
          simp [InodeCall.frees]
        exact ⟨hgo.refs, hgo.live, hgo.freeing, hgo.once⟩
  | release i =>
      obtain ⟨a, hc, rfl⟩ := next_release hnext
      exact hi.release hc (frees_iff.mpr (.inr rfl))

section

variable {inode : Addr → Inode} {list : Links Addr} {as : List InodeAction}

/-- **What is held stays**, in every interleaving in which no lookup falls into the window. -/
theorem inode_held_stays
    (run : InodeMachineRun ops (fun s act => act.OutsideWindow s) inode list as s) :
    HeldStay s := by
  have hi : LifetimeInv s := run.invariant (lifetimeInv_init inode list)
    fun _ _ _ hi ⟨_, hact, _, hnext⟩ => hi.next hact hnext
  exact hi.heldStay

end

/-- A lookup that finds an inode in its window returns it to a caller under whom it is freed. -/
theorem inode_lookup_in_window (hget : s.cache.ht.get ino = some a) (hzero : a ≠ 0)
    (hin : InWindow s a) (hnext : s.next ops (.lookup sb ino) = some s') : ¬HeldStay s' := by
  obtain ⟨c, hc, hfrees⟩ := hin.2
  rw [InodeMachine.next, inodeGetLookup, Hashtable.hashtableLookup_eq, hget] at hnext
  simp only [Option.getD_some, ne_eq, hzero, not_false_eq_true, if_true, Option.some_inj] at hnext
  subst hnext
  intro hstay
  have hnone := (hstay ⟨a, sb, ino⟩ List.mem_cons_self).2 c hc
  rw [hfrees] at hnone
  cases hnone

/-- One of two references is put. -/
theorem inode_held_stays_two : ∃ s,
    InodeMachineRun plainOps (fun s act => act.OutsideWindow s) zeroInode ⟨id, id⟩
      [.lookup 0x1000 5, .alloc 0 0x80000000, .insert 0 true, .lookup 0x1000 5,
        .put ⟨0x80000000, 0x1000, 5⟩] s
    ∧ s.held = [⟨0x80000000, 0x1000, 5⟩] ∧ HeldStay s := by
  have hexec : (Lts.exec (InodeMachine.next plainOps) (fun s act => act.OutsideWindow s)
      ⟨inodeInit zeroInode ⟨id, id⟩, [], []⟩
      [.lookup 0x1000 5, .alloc 0 0x80000000, .insert 0 true, .lookup 0x1000 5,
        .put ⟨0x80000000, 0x1000, 5⟩]).map (·.held) = some [⟨0x80000000, 0x1000, 5⟩] := by
    decide
  obtain ⟨s, hs, hheld⟩ := Option.map_eq_some_iff.mp hexec
  exact ⟨s, Lts.run_of_exec hs, hheld, inode_held_stays (Lts.run_of_exec hs)⟩

/-- The inode is found after its last reference has been put, and freed under its new holder. -/
theorem inode_not_held : ∃ s,
    InodeMachineRun plainOps (fun _ _ => True) zeroInode ⟨id, id⟩
      [.lookup 0x1000 5, .alloc 0 0x80000000, .insert 0 true, .put ⟨0x80000000, 0x1000, 5⟩,
        .lookup 0x1000 5, .free 0, .release 0] s
    ∧ ¬HeldStay s := by
  have hexec : (Lts.exec (InodeMachine.next plainOps) (fun _ _ => True)
      ⟨inodeInit zeroInode ⟨id, id⟩, [], []⟩
      [.lookup 0x1000 5, .alloc 0 0x80000000, .insert 0 true, .put ⟨0x80000000, 0x1000, 5⟩,
        .lookup 0x1000 5, .free 0, .release 0]).map
          (fun s => (s.held, s.cache.live 0x80000000))
      = some ([⟨0x80000000, 0x1000, 5⟩], false) := by
    decide
  obtain ⟨s, hs, heq⟩ := Option.map_eq_some_iff.mp hexec
  obtain ⟨hheld, hlive⟩ := Prod.mk.inj heq
  refine ⟨s, Lts.run_of_exec hs, fun hstay => ?_⟩
  have hlive' := (hstay ⟨0x80000000, 0x1000, 5⟩ (by rw [hheld]; exact List.mem_cons_self)).1
  rw [hlive] at hlive'
  cases hlive'

end NoobKernel.Fs
