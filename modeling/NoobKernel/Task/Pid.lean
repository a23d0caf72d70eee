import NoobKernel.Lib.Lts
import NoobKernel.Misc.Config

set_option autoImplicit false

/-! # Process ids (`task/proc.c`)

Any number of callers in the loop of `alloc_pid`, one atomic load or compare-exchange a step. A
caller may stall between the two for as long as it likes. The successful compare-exchanges give
out the pids in turn, from `PID_MIN` to `PID_MAX` and again (`PidInv.allocated`), since one that
still finds its old value finds the one that is due.
-/

namespace NoobKernel.Task

/-- Where a caller is in `alloc_pid`. -/
inductive PidPhase
  | idle
  | reading
  /-- before the compare-exchange that resets the counter -/
  | wrapping (current : Int)
  /-- before the one that takes a pid -/
  | adding (current : Int)
  deriving DecidableEq

/-- The old value and the new one. -/
def atomic64Cmpxchg (v oldVal newVal : Int) : Int × Int :=
  (v, if v = oldVal then newVal else v)

/-- One step of `alloc_pid`: the counter, where the caller is then, and the pid it returns. -/
def allocPid (nextPid : Int) : PidPhase → Int × PidPhase × Option Int
  | .idle => (nextPid, .reading, none)
  | .reading =>
      let current := nextPid
      if current > PID_MAX then (nextPid, .wrapping current, none)
      else (nextPid, .adding current, none)
  | .wrapping current =>
      let (_, nextPid) := atomic64Cmpxchg nextPid current PID_MIN
      (nextPid, .reading, none)
  | .adding current =>
      let (old, nextPid) := atomic64Cmpxchg nextPid current (current + 1)
      if old = current then (nextPid, .idle, some (current.bmod (2 ^ 32)))
      else (nextPid, .reading, none)

/-- `next_pid`, the callers, and who has got which pid, oldest first. -/
structure PidMachine (T : Type) where
  nextPid : Int
  phase : T → PidPhase
  allocated : List (T × Int)

variable {T : Type}

def PidMachine.boot : PidMachine T := ⟨PID_MIN, fun _ => .idle, []⟩

variable [DecidableEq T]

def PidMachine.next (s : PidMachine T) (t : T) : Option (PidMachine T) :=
  let (nextPid, phase, pid) := allocPid s.nextPid (s.phase t)
  some ⟨nextPid, Function.update s.phase t phase,
    s.allocated ++ (pid.map fun pid => (t, pid)).toList⟩

/-- The callers take steps in any order. -/
abbrev PidRun : PidMachine T → List T → PidMachine T → Prop :=
  Lts.Run (Lts.Steps PidMachine.next fun _ _ => True)

/-! ## The order of the pids -/

/-- The number of pids. -/
def PID_COUNT : Nat := (PID_MAX - PID_MIN + 1).toNat

theorem PID_MIN_le : PID_MIN ≤ PID_MAX + 1 := by decide

theorem PID_COUNT_eq : (PID_COUNT : Int) = PID_MAX - PID_MIN + 1 := rfl

/-- The pid that the allocation with that number gets. -/
def pidOf (k : Nat) : Int := PID_MIN + (k % PID_COUNT : Nat)

theorem pidOf_range (k : Nat) : PID_MIN ≤ pidOf k ∧ pidOf k ≤ PID_MAX := by
  have hlt : k % PID_COUNT < PID_COUNT := Nat.mod_lt k (by decide)
  have hcount := PID_COUNT_eq
  unfold pidOf
  omega

theorem pidOf_succ (k : Nat) :
    pidOf k + 1 = pidOf (k + 1) ∨ pidOf k = PID_MAX ∧ pidOf (k + 1) = PID_MIN := by
  have hcount : PID_COUNT = 2147483646 := rfl
  unfold pidOf PID_MIN PID_MAX
  rw [hcount]
  omega

/-- Two allocations get one pid when they are a multiple of the number of pids apart. -/
theorem pidOf_inj {j k : Nat} (hjk : j < k) : pidOf j = pidOf k ↔ PID_COUNT ∣ k - j := by
  unfold pidOf
  rw [add_right_inj, Nat.cast_inj]
  exact Nat.modEq_iff_dvd' hjk.le

/-- What a caller has read: it stays in the range of the phase. -/
def PidPhase.Fits : PidPhase → Prop
  | idle | reading => True
  | wrapping current => PID_MAX < current
  | adding current => PID_MIN ≤ current ∧ current ≤ PID_MAX

structure PidInv (s : PidMachine T) : Prop where
  lower : PID_MIN ≤ s.nextPid
  upper : s.nextPid ≤ PID_MAX + 1
  /-- The counter is at the next pid, or about to be reset to it. -/
  counter : s.nextPid = pidOf s.allocated.length
    ∨ s.nextPid = PID_MAX + 1 ∧ pidOf s.allocated.length = PID_MIN
  allocated : s.allocated.map Prod.snd = (List.range s.allocated.length).map pidOf
  phase : ∀ t, (s.phase t).Fits

namespace PidInv

variable {s s' : PidMachine T}

omit [DecidableEq T] in
theorem boot : PidInv (.boot : PidMachine T) where
  lower := le_refl PID_MIN
  upper := PID_MIN_le
  counter := .inl rfl
  allocated := rfl
  phase _ := trivial

theorem fits_update (h : PidInv s) (t : T) {phase : PidPhase} (hphase : phase.Fits) (u : T) :
    (Function.update s.phase t phase u).Fits := by
  rw [Function.update_apply]
  split
  · exact hphase
  · exact h.phase u

/-- A caller moves on, and the counter stays. -/
theorem move (h : PidInv s) (t : T) {phase : PidPhase} (hphase : phase.Fits) :
    PidInv ⟨s.nextPid, Function.update s.phase t phase, s.allocated ++ []⟩ := by
  rw [List.append_nil]
  exact ⟨h.lower, h.upper, h.counter, h.allocated, h.fits_update t hphase⟩

/-- The counter is reset. -/
theorem wrap (h : PidInv s) (t : T) (hwrap : PID_MAX < s.nextPid) :
    PidInv ⟨PID_MIN, Function.update s.phase t .reading, s.allocated ++ []⟩ := by
  rw [List.append_nil]
  refine ⟨le_refl PID_MIN, PID_MIN_le, .inl ?_, h.allocated, h.fits_update t trivial⟩
  rcases h.counter with heq | ⟨-, hmin⟩
  · have := (pidOf_range s.allocated.length).2
    omega
  · exact hmin.symm

/-- A pid is taken. -/
theorem take (h : PidInv s) (t : T) (hmax : s.nextPid ≤ PID_MAX) :
    PidInv ⟨s.nextPid + 1, Function.update s.phase t .idle,
      s.allocated ++ [(t, s.nextPid.bmod (2 ^ 32))]⟩ := by
  have hdue : s.nextPid = pidOf s.allocated.length := by
    refine h.counter.resolve_right fun hend => ?_
    omega
  have hcast : s.nextPid.bmod (2 ^ 32) = s.nextPid := by
    have hlower := h.lower
    unfold PID_MIN PID_MAX at *
    exact Int.bmod_eq_of_le (by omega) (by omega)
  have hsucc := pidOf_succ s.allocated.length
  refine ⟨?_, ?_, ?_, ?_, h.fits_update t trivial⟩
  · have := h.lower
    show PID_MIN ≤ s.nextPid + 1
    omega
  · show s.nextPid + 1 ≤ PID_MAX + 1
    omega
  · rw [List.length_append, List.length_singleton, hdue]
    exact hsucc.imp_right fun ⟨hlast, hmin⟩ => ⟨by rw [hlast], hmin⟩
  · rw [List.map_append, List.length_append, List.length_singleton, List.range_succ,
      List.map_append, h.allocated, hcast, hdue]
    rfl

/-- **Every step of every caller** keeps the pids in turn. -/
theorem step (h : PidInv s) {t : T} (hnext : s.next t = some s') : PidInv s' := by
  have hphase := h.phase t
  unfold PidMachine.next at hnext
  cases ht : s.phase t with
  | idle =>
      rw [ht] at hnext
      cases hnext
      exact h.move t trivial
  | reading =>
      rw [ht] at hnext
      dsimp only [allocPid] at hnext
      split at hnext
      · rename_i hgt
        cases hnext
        exact h.move t hgt
      · rename_i hle
        cases hnext
        exact h.move t ⟨h.lower, not_lt.mp hle⟩
  -- the exchange stores the first pid only if the counter is the value read, which is too large
  | wrapping current =>
      rw [ht] at hnext hphase
      dsimp only [allocPid, atomic64Cmpxchg] at hnext
      cases hnext
      split
      · rename_i heq
        exact h.wrap t (heq ▸ hphase)
      · exact h.move t trivial
  | adding current =>
      rw [ht] at hnext hphase
      dsimp only [allocPid, atomic64Cmpxchg] at hnext
      split at hnext
      · rename_i heq
        subst heq
        cases hnext
        exact h.take t hphase.2
      · cases hnext
        exact h.move t trivial

theorem of_run {ts : List T} (run : PidRun .boot ts s) : PidInv s := by
  refine Lts.Run.invariant boot ?_ run
  rintro s e s' h ⟨t, -, -, hnext⟩
  exact h.step hnext

omit [DecidableEq T] in
/-- An allocation gets the pid of its number. -/
theorem pid_eq (h : PidInv s) {i : Nat} (hi : i < s.allocated.length) :
    (s.allocated[i]).2 = pidOf i := by
  have hget : (s.allocated.map Prod.snd)[i]? = ((List.range s.allocated.length).map pidOf)[i]? := by
    rw [h.allocated]
  rw [List.getElem?_map, List.getElem?_eq_getElem hi, List.getElem?_map,
    List.getElem?_range hi] at hget
  exact Option.some.inj hget

end PidInv

/-- **Process ids**, in any interleaving of any number of callers: they are in range, and the same
pid is not given out again before all the others have been. -/
theorem pids_distinct {ts : List T} {s : PidMachine T} (run : PidRun .boot ts s) :
    (∀ e ∈ s.allocated, PID_MIN ≤ e.2 ∧ e.2 ≤ PID_MAX)
      ∧ ∀ (i j : Nat) (hij : i < j) (hj : j < s.allocated.length),
        ((j - i : Nat) : Int) < PID_MAX - PID_MIN + 1 →
        (s.allocated[i]).2 ≠ (s.allocated[j]).2 := by
  have h := PidInv.of_run run
  constructor
  · intro e he
    obtain ⟨i, hi, rfl⟩ := List.getElem_of_mem he
    rw [h.pid_eq hi]
    exact pidOf_range i
  · intro i j hij hj hlt heq
    rw [h.pid_eq (hij.trans hj), h.pid_eq hj, pidOf_inj hij] at heq
    have hle := Nat.le_of_dvd (Nat.sub_pos_of_lt hij) heq
    have hcount := PID_COUNT_eq
    omega

/-- Two callers read one value, and the second to write tries again. -/
theorem pids_distinct_two : ∃ s : PidMachine Bool,
    PidRun .boot [false, true, false, true, true, false, false, false] s
      ∧ s.allocated = [(true, PID_MIN), (false, PID_MIN + 1)]
      ∧ (∀ e ∈ s.allocated, PID_MIN ≤ e.2 ∧ e.2 ≤ PID_MAX)
      ∧ ∀ (i j : Nat) (hij : i < j) (hj : j < s.allocated.length),
        ((j - i : Nat) : Int) < PID_MAX - PID_MIN + 1 →
        (s.allocated[i]).2 ≠ (s.allocated[j]).2 := by
  have hany : (Lts.exec PidMachine.next (fun _ _ => True) (.boot : PidMachine Bool)
      [false, true, false, true, true, false, false, false]).any
        (·.allocated = [(true, PID_MIN), (false, PID_MIN + 1)]) = true := by decide
  obtain ⟨s, hs, hallocated⟩ := (Option.any_eq_true _ _).mp hany
  have run := Lts.run_of_exec hs
  exact ⟨s, run, of_decide_eq_true hallocated, pids_distinct run⟩

end NoobKernel.Task
