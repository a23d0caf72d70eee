import NoobKernel.Sync.SpinlockInv

set_option autoImplicit false

/-! # What spin locks are for

In every interleaving of every number of harts a lock has one holder at most and the debug checks
catch exactly the misuses (`spinlock_exclusive`), and the accesses refine locks that are taken and
given back in one step (`spinlock_refines`).
-/

namespace NoobKernel.Sync

variable {H L : Type} [DecidableEq H] [DecidableEq L] {harts : Harts H} {m m' : SpinMachine H L}
  {h : H} {l : L}

/-! ## Exclusion, and the debug checks -/

/-- The call that has passed its checks. -/
def SpinPc.passed : SpinPc L → Option (SpinCall L)
  | .acqOff l | .acqSwap l | .acqWait l => some (.acquire l)
  | .relClear l | .relStore l => some (.release l)
  | _ => none

/-- Only a misuse panics, no misuse passes its checks, and `spinlock_holding` is right. -/
structure SpinFlow.Checked (f : SpinFlow L) : Prop where
  panicked : ∀ p, f.pc = .panicked p → ∃ c, p.call = some c ∧ c.Misuse f.held
  passed : ∀ c, f.pc.passed = some c → ¬ c.Misuse f.held
  answered : ∀ l b, f.pc = .answered l b → (b = true ↔ l ∈ f.held)

omit [DecidableEq H] in
theorem SpinFlow.Ok.checked {f : SpinFlow L} (hok : f.Ok) : f.Checked := by
  have hpc := hok.pc
  refine ⟨fun p heq => ?_, fun c heq => ?_, fun l b heq => ?_⟩
  · rw [heq] at hpc
    exact hpc
  · cases hcase : f.pc <;> rw [hcase] at heq hpc <;> cases heq
    all_goals first
      | exact hpc
      | exact not_not_intro hpc
  · rw [heq] at hpc
    have hb : b = decide (l ∈ f.held) := hpc
    rw [hb, decide_eq_true_iff]

/-- **One holder.** However the harts take turns and wherever they are interrupted, no two of them
hold a lock at the same time, nor does code that is interrupted; a call of `spinlock_acquire_bare`
or `spinlock_release_bare` panics only if it is a misuse, and only if it is none does it come to
change the lock; and `spinlock_holding` returns whether the caller holds the lock. -/
theorem spinlock_exclusive {as : List (H × SpinAction L)}
    (run : SpinRun harts (fun _ _ => True) as m) :
    (∀ l h h', l ∈ (m.flow h).held → l ∈ (m.flow h').held → h = h')
      ∧ ∀ h, (m.flow h).Checked ∧ ∀ f ∈ m.below h, f.held = [] ∧ f.Checked := by
  have inv := SpinInv.run run
  refine ⟨fun l h h' => inv.exclusive h h' l, fun h => ⟨(inv.flow h).checked, fun f hf => ?_⟩⟩
  obtain ⟨hok, hweight⟩ := inv.below h f hf
  exact ⟨(SpinFlow.weight_eq_zero.mp hweight).1, hok.checked⟩

/-- Two harts. -/
def twoHarts : Harts Bool := ⟨fun h => if h then 1 else 0, by decide, by decide⟩

/-- A call, and the first `n` of its accesses. -/
def callOf (h : Bool) (c : SpinCall Unit) (n : Nat) : List (Bool × SpinAction Unit) :=
  (h, .call c) :: List.replicate n (h, .exec)

/-- Both harts want one lock: one takes it, the other comes to wait. -/
def contended : List (Bool × SpinAction Unit) :=
  callOf false (.acquire ()) 3 ++ callOf true (.acquire ()) 4

theorem spinlock_exclusive_contended : ∃ m, SpinRun twoHarts (fun _ _ => True) contended m
    ∧ () ∈ (m.flow false).held ∧ (m.flow true).pc = .acqWait () ∧ () ∉ (m.flow true).held := by
  have hexec : (Lts.exec (SpinMachine.next twoHarts) (fun _ _ => True) .start contended).any
      (fun m => () ∈ (m.flow false).held ∧ (m.flow true).pc = .acqWait ()) := by
    decide
  obtain ⟨m, hm, hend⟩ := (Option.any_eq_true _ _).mp hexec
  obtain ⟨hheld, hpc⟩ := of_decide_eq_true hend
  have run := Lts.run_of_exec hm
  exact ⟨m, run, hheld, hpc, fun hl =>
    absurd ((spinlock_exclusive run).1 () false true hheld hl) (by decide)⟩

/-! ## Refinement -/

/-- What is seen of the locks. -/
inductive LockEvent (H L : Type)
  | acquired (h : H) (l : L)
  | released (h : H) (l : L)
  deriving DecidableEq

/-- Locks that are taken and given back in one step each; a state is who holds them. -/
inductive LockStep : (L → Option H) → Option (LockEvent H L) → (L → Option H) → Prop
  | acquired {s : L → Option H} {h : H} {l : L} (free : s l = none) :
      LockStep s (some (.acquired h l)) (Function.update s l (some h))
  | released {s : L → Option H} {h : H} {l : L} (holds : s l = some h) :
      LockStep s (some (.released h l)) (Function.update s l none)

/-- The exchange that finds the lock free takes it, and the last store gives it back. -/
def SpinMachine.event (m : SpinMachine H L) (a : H × SpinAction L) : Option (LockEvent H L) :=
  match a.2, (m.flow a.1).pc with
  | .exec, .acqSwap l => if (m.locks l).locked = 0 then some (.acquired a.1 l) else none
  | .exec, .relStore l => some (.released a.1 l)
  | _, _ => none

abbrev SpinStep (harts : Harts H) :
    SpinMachine H L → Option (LockEvent H L) → SpinMachine H L → Prop :=
  Lts.Observed (SpinMachine.next harts) SpinMachine.event

open Classical in
/-- The hart that holds the lock. -/
noncomputable def SpinMachine.holder (m : SpinMachine H L) (l : L) : Option H :=
  if h : ∃ h, l ∈ (m.flow h).held then some h.choose else none

omit [DecidableEq H] in
theorem SpinInv.holder_eq_some (inv : SpinInv harts m) :
    m.holder l = some h ↔ l ∈ (m.flow h).held := by
  unfold SpinMachine.holder
  constructor
  · intro heq
    split at heq
    · rename_i hex
      exact Option.some.inj heq ▸ hex.choose_spec
    · cases heq
  · intro hl
    have hex : ∃ h, l ∈ (m.flow h).held := ⟨h, hl⟩
    rw [dif_pos hex, inv.exclusive _ h l hex.choose_spec hl]

/-- **One step** of a hart leaves the others where they are, and what it does to its own locks is
what is seen of it. -/
theorem SpinInv.next_held (inv : SpinInv harts m) {h : H} {a : SpinAction L}
    (hstep : m.next harts (h, a) = some m') :
    (∀ h', h' ≠ h → m'.flow h' = m.flow h')
      ∧ match m.event (h, a) with
        | none => (m'.flow h).held = (m.flow h).held
        | some (.acquired h' l) => h' = h ∧
            (m.locks l).locked = 0 ∧ (m'.flow h).held = l :: (m.flow h).held
        | some (.released h' l) => h' = h ∧
            l ∈ (m.flow h).held ∧ (m'.flow h).held = (m.flow h).held.erase l := by
  cases a with
  | call c =>
      simp only [SpinMachine.next, Option.ite_none_right_eq_some, Option.some.injEq] at hstep
      obtain ⟨-, rfl⟩ := hstep
      refine ⟨fun h' hne => Function.update_of_ne hne _ _, ?_⟩
      simp [SpinMachine.event]
  | interrupt =>
      simp only [SpinMachine.next, Option.ite_none_right_eq_some, Option.some.injEq] at hstep
      obtain ⟨hdepth, rfl⟩ := hstep
      refine ⟨fun h' hne => Function.update_of_ne hne _ _, ?_⟩
      have hheld := (SpinFlow.weight_eq_zero.mp ((inv.depth h).symm.trans hdepth)).1
      simp [SpinMachine.event, hheld]
  | ret =>
      simp only [SpinMachine.next] at hstep
      split at hstep
      · cases hstep
      · rename_i g below hbelow
        simp only [Option.ite_none_right_eq_some, Option.some.injEq] at hstep
        obtain ⟨⟨-, hheld⟩, rfl⟩ := hstep
        refine ⟨fun h' hne => Function.update_of_ne hne _ _, ?_⟩
        have hg := (inv.below h g (hbelow ▸ List.mem_cons_self)).2
        simp [SpinMachine.event, hheld, (SpinFlow.weight_eq_zero.mp hg).1]
  | exec =>
      simp only [SpinMachine.next, Option.bind_eq_bind, Option.bind_eq_some_iff,
        Option.some.injEq] at hstep
      obtain ⟨⟨locks, depth, f⟩, hacc, rfl⟩ := hstep
      refine ⟨fun h' hne => after_flow_of_ne locks depth f hne, ?_⟩
      have hok := (inv.flow h).pc
      simp only [SpinMachine.event, Function.update_self]
      cases hpc : (m.flow h).pc <;>
        simp only [Sync.access, hpc, Option.some.injEq, Prod.mk.injEq, reduceCtorEq] at hacc <;>
        obtain ⟨-, -, rfl⟩ := hacc
      case acqSwap l =>
        by_cases hlocked : (m.locks l).locked = 0
        · simp only [if_pos hlocked]
          exact ⟨trivial, hlocked, trivial⟩
        · simp only [if_neg hlocked]
      case relStore l =>
        rw [hpc] at hok
        exact ⟨rfl, hok, rfl⟩
      all_goals rfl

omit [DecidableEq H] in
/-- Where the same locks are held, the holders are the same. -/
theorem SpinInv.holder_congr (inv : SpinInv harts m) (inv' : SpinInv harts m')
    (hsame : ∀ h, l ∈ (m'.flow h).held ↔ l ∈ (m.flow h).held) : m'.holder l = m.holder l := by
  refine Option.ext fun h => ?_
  rw [inv'.holder_eq_some, inv.holder_eq_some, hsame]

/-- A step is one of the locks that are taken in one step, or is not seen. -/
theorem SpinInv.matched (inv : SpinInv harts m) {e : Option (LockEvent H L)}
    (hstep : SpinStep harts m e m') :
    (e = none ∧ m'.holder = m.holder) ∨ LockStep m.holder e m'.holder := by
  obtain ⟨⟨h, a⟩, rfl, hnext⟩ := hstep
  have inv' := inv.next hnext
  obtain ⟨hothers, hself⟩ := inv.next_held hnext
  have hflow : ∀ {l}, (l ∈ (m'.flow h).held ↔ l ∈ (m.flow h).held) →
      m'.holder l = m.holder l := by
    intro l hl
    refine inv.holder_congr inv' fun h' => ?_
    by_cases heq : h' = h
    · rwa [heq]
    · rw [hothers h' heq]
  cases hevent : m.event (h, a) with
  | none =>
      rw [hevent] at hself
      exact .inl ⟨rfl, funext fun l => hflow (by rw [hself])⟩
  | some e =>
      right
      rw [hevent] at hself
      cases e with
      | acquired h' l =>
          obtain ⟨rfl, hlocked, hheld⟩ := hself
          have hfree : m.holder l = none := by
            refine Option.eq_none_iff_forall_not_mem.mpr fun h'' hh => ?_
            exact inv.not_held hlocked h'' (inv.holder_eq_some.mp hh)
          have heq : m'.holder = Function.update m.holder l (some h') := by
            funext l'
            by_cases hne : l' = l
            · rw [hne, Function.update_self, inv'.holder_eq_some, hheld]
              exact List.mem_cons_self
            · rw [Function.update_of_ne hne]
              refine hflow ?_
              rw [hheld, List.mem_cons]
              exact or_iff_right hne
          rw [heq]
          exact .acquired hfree
      | released h' l =>
          obtain ⟨rfl, hhad, hheld⟩ := hself
          have hnodup := (inv.flow h').nodup
          have heq : m'.holder = Function.update m.holder l none := by
            funext l'
            by_cases hne : l' = l
            · rw [hne, Function.update_self]
              refine Option.eq_none_iff_forall_not_mem.mpr fun h'' hh => ?_
              have hl := inv'.holder_eq_some.mp hh
              by_cases hself : h'' = h'
              · rw [hself, hheld] at hl
                exact hnodup.not_mem_erase hl
              · rw [hothers h'' hself] at hl
                exact hself (inv.exclusive h'' h' l hl hhad)
            · rw [Function.update_of_ne hne]
              refine hflow ?_
              rw [hheld, hnodup.mem_erase_iff]
              exact and_iff_right hne
          rw [heq]
          exact .released (inv.holder_eq_some.mpr hhad)

/-- **Refinement.** What is seen of the locks in a run of the accesses, in the order in which it
happens, is a run of locks that are taken and given back in one step: each is taken when nobody holds
it, and given back by the hart that took it. -/
theorem spinlock_refines {es : List (LockEvent H L)}
    (run : Lts.Run (SpinStep harts) .start es m) :
    Lts.Run LockStep (fun _ => none) es m.holder := by
  have hstart : (SpinMachine.start : SpinMachine H L).holder = fun _ => none := by
    funext l
    refine Option.eq_none_iff_forall_not_mem.mpr fun h hh => ?_
    have inv : SpinInv harts (.start : SpinMachine H L) := spinInv_start
    exact List.not_mem_nil (inv.holder_eq_some.mp hh)
  refine run.simulation (P := SpinInv harts) spinInv_start hstart ?_ fun s e t inv => inv.matched
  rintro s e t inv ⟨a, -, hstep⟩
  exact inv.next hstep

theorem spinlock_refines_handed : ∃ m : SpinMachine Bool Unit, Lts.Run LockStep (fun _ => none)
    [.acquired false (), .released false (), .acquired true ()] m.holder := by
  have hobs : (Lts.observe (SpinMachine.next twoHarts) SpinMachine.event .start
      (callOf false (.acquire ()) 4 ++ callOf false (.release ()) 5
        ++ callOf true (.acquire ()) 3)).any
      (fun r => r.1 = [.acquired false (), .released false (), .acquired true ()]) := by
    decide
  obtain ⟨⟨es, m⟩, hm, hes⟩ := (Option.any_eq_true _ _).mp hobs
  obtain rfl := of_decide_eq_true hes
  exact ⟨m, spinlock_refines (Lts.run_of_observe hm)⟩

end NoobKernel.Sync
