import NoobKernel.Sync.SpinlockRun

set_option autoImplicit false

/-! # Spin locks that are taken in one order

Where every lock is taken after those of smaller rank only, harts do not come to wait for each other
in a circle: as long as one of them spins, there is one that holds a lock and does not.
-/

namespace NoobKernel.Sync

variable {H L : Type} [DecidableEq H] [DecidableEq L] {harts : Harts H} {m m' : SpinMachine H L}
  {h : H} {l : L}

/-- Locks are taken in the order of their ranks, and only those are given back that are held. -/
def InOrder (rank : L → Nat) (m : SpinMachine H L) (a : H × SpinAction L) : Prop :=
  match a.2 with
  | .call (.acquire l) => ∀ l' ∈ (m.flow a.1).held, rank l' < rank l
  | .call (.release l) => l ∈ (m.flow a.1).held
  | _ => True

instance (rank : L → Nat) (m : SpinMachine H L) (a : H × SpinAction L) :
    Decidable (InOrder rank m a) :=
  match a with
  | (h, .call (.acquire l)) =>
      inferInstanceAs (Decidable (∀ l' ∈ (m.flow h).held, rank l' < rank l))
  | (h, .call (.release l)) => inferInstanceAs (Decidable (l ∈ (m.flow h).held))
  | (_, .call (.holding _)) => isTrue trivial
  | (_, .exec) => isTrue trivial
  | (_, .interrupt) => isTrue trivial
  | (_, .ret) => isTrue trivial

/-- The code on the hart spins on a lock that is taken. -/
def SpinMachine.Waits (m : SpinMachine H L) (h : H) (l : L) : Prop :=
  ((m.flow h).pc = .acqSwap l ∨ (m.flow h).pc = .acqWait l) ∧ (m.locks l).locked ≠ 0

/-- What such calls have established where they stand. -/
def SpinPc.InOrder (rank : L → Nat) (held : List L) : SpinPc L → Prop
  | .acqLocked l | .acqOwner l | .acqOff l | .acqSwap l | .acqWait l =>
      ∀ l' ∈ held, rank l' < rank l
  | .relLocked l | .relOwner l => l ∈ held
  | .panicked _ => False
  | _ => True

structure OrderInv (harts : Harts H) (rank : L → Nat) (m : SpinMachine H L) : Prop where
  spin : SpinInv harts m
  flow : ∀ h, (m.flow h).pc.InOrder rank (m.flow h).held
  below : ∀ h, ∀ f ∈ m.below h, f.pc.InOrder rank f.held

variable {rank : L → Nat}

omit [DecidableEq H] in
theorem orderInv_start : OrderInv harts rank (.start : SpinMachine H L) :=
  ⟨spinInv_start, fun _ => trivial, fun _ _ hf => (List.not_mem_nil hf).elim⟩

omit [DecidableEq H] in
theorem OrderInv.access (inv : OrderInv harts rank m) {locks : L → Spinlock} {depth : Nat}
    {f : SpinFlow L}
    (hstep : access (harts.tp h) m.locks (m.depth h) (m.flow h) = some (locks, depth, f)) :
    f.pc.InOrder rank f.held := by
  have hord := inv.flow h
  have hok := (inv.spin.flow h).pc
  cases hpc : (m.flow h).pc <;>
    simp only [Sync.access, hpc, Option.some.injEq, Prod.mk.injEq, reduceCtorEq] at hstep <;>
    obtain ⟨-, -, rfl⟩ := hstep <;>
    rw [hpc] at hord hok
  case acqLocked l => split <;> exact hord
  case acqOwner l =>
    split
    · rename_i howner
      have hheld : l ∈ (m.flow h).held := by
        by_contra hnot
        exact inv.spin.owner_ne hnot howner
      exact absurd (hord l hheld) (lt_irrefl _)
    · exact hord
  case acqOff l => exact hord
  case acqSwap l =>
    split
    · trivial
    · exact hord
  case acqWait l => exact hord
  case relLocked l =>
    have hlocked := inv.spin.locked_eq hord
    rw [if_neg (by rw [hlocked]; decide)]
    exact hord
  case relOwner l =>
    have howner := inv.spin.owner_eq hord (by simp [SpinPc.Unmarked, hpc])
    rw [if_neg (not_not_intro howner)]
    trivial
  case relOn =>
    have hdepth := inv.spin.depth h
    rw [SpinFlow.weight, hpc] at hdepth
    rw [if_neg (by rw [hdepth]; exact Nat.succ_ne_zero _)]
    trivial
  case holdLocked l => split <;> trivial
  all_goals trivial

theorem OrderInv.next (inv : OrderInv harts rank m) {a : H × SpinAction L}
    (hord : InOrder rank m a) (hstep : m.next harts a = some m') : OrderInv harts rank m' := by
  have hspin := inv.spin.next hstep
  obtain ⟨h, a⟩ := a
  have hflow : ∀ {f : SpinFlow L}, f.pc.InOrder rank f.held → ∀ h',
      (Function.update m.flow h f h').pc.InOrder rank (Function.update m.flow h f h').held := by
    intro f hf h'
    by_cases heq : h' = h
    · rwa [heq, Function.update_self]
    · rw [Function.update_of_ne heq]
      exact inv.flow h'
  have hbelow : ∀ {below : List (SpinFlow L)}, (∀ g ∈ below, g.pc.InOrder rank g.held) → ∀ h',
      ∀ g ∈ Function.update m.below h below h', g.pc.InOrder rank g.held := by
    intro below hg h'
    by_cases heq : h' = h
    · rwa [heq, Function.update_self]
    · rw [Function.update_of_ne heq]
      exact inv.below h'
  cases a with
  | call c =>
      simp only [SpinMachine.next, Option.ite_none_right_eq_some, Option.some.injEq] at hstep
      obtain ⟨-, rfl⟩ := hstep
      refine ⟨hspin, hflow ?_, inv.below⟩
      cases c with
      | acquire l => exact hord
      | release l => exact hord
      | holding l => trivial
  | exec =>
      simp only [SpinMachine.next, Option.bind_eq_bind, Option.bind_eq_some_iff,
        Option.some.injEq] at hstep
      obtain ⟨⟨locks, depth, f⟩, hacc, rfl⟩ := hstep
      exact ⟨hspin, hflow (inv.access hacc), inv.below⟩
  | interrupt =>
      simp only [SpinMachine.next, Option.ite_none_right_eq_some, Option.some.injEq] at hstep
      obtain ⟨-, rfl⟩ := hstep
      refine ⟨hspin, hflow trivial, hbelow fun g hg => ?_⟩
      rcases List.mem_cons.mp hg with rfl | hg
      · exact inv.flow h
      · exact inv.below h g hg
  | ret =>
      simp only [SpinMachine.next] at hstep
      split at hstep
      · cases hstep
      · rename_i g below heq
        simp only [Option.ite_none_right_eq_some, Option.some.injEq] at hstep
        obtain ⟨-, rfl⟩ := hstep
        have hrest := inv.below h
        rw [heq] at hrest
        exact ⟨hspin, hflow (hrest g List.mem_cons_self),
          hbelow fun g' hg' => hrest g' (List.mem_cons_of_mem g hg')⟩

omit [DecidableEq H] in
/-- A lock that is waited for is held, by a hart that has smaller ranks than it waits for. -/
theorem OrderInv.waits (inv : OrderInv harts rank m) (hwait : m.Waits h l) :
    ∃ h', l ∈ (m.flow h').held ∧ ∀ l', m.Waits h' l' → rank l < rank l' := by
  obtain ⟨-, hlocked⟩ := hwait
  have hheld : ∃ h', l ∈ (m.flow h').held := by
    by_contra hnone
    rw [inv.spin.free l fun h' hl => hnone ⟨h', hl⟩] at hlocked
    exact hlocked rfl
  obtain ⟨h', hl⟩ := hheld
  refine ⟨h', hl, fun l' hwait' => ?_⟩
  have hord := inv.flow h'
  rcases hwait'.1 with hpc | hpc
  · rw [hpc] at hord
    exact hord l hl
  · rw [hpc] at hord
    exact hord l hl

omit [DecidableEq H] [DecidableEq L] in
theorem SpinMachine.Waits.unique {l' : L} (hl : m.Waits h l) (hl' : m.Waits h l') : l = l' := by
  obtain ⟨hpc | hpc, -⟩ := hl <;> obtain ⟨hpc' | hpc', -⟩ := hl' <;> rw [hpc] at hpc' <;>
    cases hpc' <;> rfl

/-- The harts that wait for a lock of a greater rank. -/
def SpinMachine.waitsAbove (m : SpinMachine H L) (rank : L → Nat) (l : L) : Set H :=
  {h | ∃ l', m.Waits h l' ∧ rank l < rank l'}

omit [DecidableEq H] in
/-- From a lock that is waited for, the ones its holders wait for lead to a holder that does not
wait. -/
theorem OrderInv.exists_not_waiting [Finite H] (inv : OrderInv harts rank m)
    (hwait : m.Waits h l) :
    ∃ h' l', l' ∈ (m.flow h').held ∧ rank l ≤ rank l' ∧ ∀ l'', ¬ m.Waits h' l'' := by
  induction hn : (m.waitsAbove rank l).ncard using Nat.strong_induction_on generalizing h l with
  | _ n ih =>
      subst hn
      obtain ⟨h', hl, hlater⟩ := inv.waits hwait
      by_cases hholder : ∃ l', m.Waits h' l'
      · obtain ⟨l', hwait'⟩ := hholder
        have hlt := hlater l' hwait'
        have hfewer : m.waitsAbove rank l' ⊂ m.waitsAbove rank l := by
          refine Set.ssubset_iff_of_subset ?_ |>.mpr ⟨h', ⟨l', hwait', hlt⟩, ?_⟩
          · rintro h'' ⟨l'', hwait'', hlt'⟩
            exact ⟨l'', hwait'', hlt.trans hlt'⟩
          · rintro ⟨l'', hwait'', hlt'⟩
            rw [hwait'.unique hwait''] at hlt'
            exact lt_irrefl _ hlt'
        obtain ⟨h₁, l₁, hheld, hle, hnot⟩ := ih _ (Set.ncard_lt_ncard hfewer) hwait' rfl
        exact ⟨h₁, l₁, hheld, hlt.le.trans hle, hnot⟩
      · exact ⟨h', l, hl, le_rfl, not_exists.mp hholder⟩

/-- **No circle.** In every run in which locks are taken in the order of their ranks and only those
given back that are held, nothing panics, and while harts spin on locks that are taken, one of those
that hold such a lock does not spin. -/
theorem spinlock_ordered [Finite H] {as : List (H × SpinAction L)}
    (run : SpinRun harts (InOrder rank) as m) :
    (∀ h p, (m.flow h).pc ≠ .panicked p)
      ∧ ∀ h l, m.Waits h l →
        ∃ h' l', l' ∈ (m.flow h').held ∧ rank l ≤ rank l' ∧ ∀ l'', ¬ m.Waits h' l'' := by
  have inv : OrderInv harts rank m := by
    refine run.invariant orderInv_start ?_
    rintro s e t inv ⟨a, hord, -, hstep⟩
    exact inv.next hord hstep
  refine ⟨fun h p hpc => ?_, fun h l => inv.exists_not_waiting⟩
  have hord := inv.flow h
  rwa [hpc] at hord

/-- One hart spins on the lock that the other holds. -/
theorem spinlock_ordered_contended : ∃ m, SpinRun twoHarts (InOrder fun _ => 0) contended m
    ∧ m.Waits true () ∧ ∃ h', () ∈ (m.flow h').held ∧ ∀ l'', ¬ m.Waits h' l'' := by
  have hexec : (Lts.exec (SpinMachine.next twoHarts) (InOrder fun _ => 0) .start contended).any
      (fun m => (m.flow true).pc = .acqWait () ∧ (m.locks ()).locked ≠ 0) := by
    decide
  obtain ⟨m, hm, hend⟩ := (Option.any_eq_true _ _).mp hexec
  obtain ⟨hpc, hlocked⟩ := of_decide_eq_true hend
  have run := Lts.run_of_exec hm
  have hwait : m.Waits true () := ⟨.inr hpc, hlocked⟩
  obtain ⟨h', l', hheld, -, hnot⟩ := (spinlock_ordered run).2 true () hwait
  exact ⟨m, run, hwait, h', hheld, hnot⟩

end NoobKernel.Sync
