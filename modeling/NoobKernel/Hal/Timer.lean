import NoobKernel.Lib.Lts
import NoobKernel.Misc.Cputime

set_option autoImplicit false

/-! # The timer (`hal/timer.c`)

The machine's clock runs on, read with `r_time`, and its timer interrupt is pending as soon as the
clock has reached the time `sbi_set_timer` has been given last. A pending interrupt is handled at
some later moment, as long as code may run with interrupts off.

The times of the interrupts are counted from the first reading of the clock, not from the moments
they are handled: however late the handler runs, no tick is lost and none comes early
(`ticks_exact`).
-/

namespace NoobKernel.Hal

open Misc

/-- The variables of the file, `need_resched` of the CPU, the clock and the comparator of SBI. -/
structure TimerState where
  kernelTick : UInt64
  last : UInt64
  interval : UInt64
  needResched : Bool
  clock : Nat
  timecmp : UInt64

def rTime (s : TimerState) : UInt64 := UInt64.ofNat s.clock

def sbiSetTimer (s : TimerState) (stimeValue : UInt64) : TimerState :=
  { s with timecmp := stimeValue }

def timerInit (s : TimerState) : TimerState :=
  let s := { s with interval := timerInterval }
  let s := { s with last := rTime s }
  let s := sbiSetTimer s (s.last + s.interval)
  { s with kernelTick := s.last / s.interval }

def handleTimer (s : TimerState) : TimerState :=
  let s := { s with last := s.last + s.interval, kernelTick := s.kernelTick + 1 }
  let s := sbiSetTimer s (s.last + s.interval)
  { s with needResched := true }

def TimerState.pending (s : TimerState) : Bool := s.timecmp ≤ rTime s

/-! ## Runs -/

inductive TimerAction
  | pass (time : Nat)
  | interrupt
  /-- by the scheduler -/
  | resched
  deriving DecidableEq

def TimerState.next (s : TimerState) : TimerAction → Option TimerState
  | .pass time => some { s with clock := s.clock + time }
  | .interrupt => if s.pending then some (handleTimer s) else none
  | .resched => some { s with needResched := false }

/-- The last moment whose next tick the clock can still show. -/
def LAST_TIME : Nat := 2 ^ 64 - timerInterval.toNat

/-- The clock does not wrap. -/
def TimerState.Early (s : TimerState) : TimerAction → Prop
  | .pass time => s.clock + time < LAST_TIME
  | _ => True

instance decidableEarly (s : TimerState) : (a : TimerAction) → Decidable (s.Early a)
  | .pass time => inferInstanceAs (Decidable (s.clock + time < LAST_TIME))
  | .interrupt | .resched => .isTrue trivial

abbrev TimerRun (s : TimerState) (as : List TimerAction) (s' : TimerState) : Prop :=
  Lts.Run (Lts.Steps TimerState.next TimerState.Early) (timerInit s) as s'

/-! ## The invariant -/

theorem toNat_timerInterval : timerInterval.toNat = 100000 := by decide

/-- `n` interrupts have been handled since the clock showed `start`. -/
structure Ticked (start n : Nat) (s : TimerState) : Prop where
  interval : s.interval = timerInterval
  last : s.last.toNat = start + n * 100000
  timecmp : s.timecmp.toNat = start + (n + 1) * 100000
  tick : s.kernelTick.toNat = start / 100000 + n
  reached : start + n * 100000 ≤ s.clock
  clock : s.clock + 100000 < 2 ^ 64

variable {start n : Nat} {s s' : TimerState}

theorem toNat_rTime (h : s.clock < 2 ^ 64) : (rTime s).toNat = s.clock := by
  rw [rTime, UInt64.toNat_ofNat', Nat.mod_eq_of_lt h]

theorem Ticked.pending_iff (h : Ticked start n s) :
    s.pending = true ↔ start + (n + 1) * 100000 ≤ s.clock := by
  have hclock := h.clock
  have htime := toNat_rTime (by omega : s.clock < 2 ^ 64)
  rw [TimerState.pending, decide_eq_true_iff, UInt64.le_iff_toNat_le, h.timecmp, htime]

theorem ticked_timerInit (hs : s.clock < LAST_TIME) : Ticked s.clock 0 (timerInit s) := by
  have hinterval := toNat_timerInterval
  have hclock : s.clock + 100000 < 2 ^ 64 := by
    unfold LAST_TIME at hs
    omega
  have htime := toNat_rTime (by omega : s.clock < 2 ^ 64)
  refine ⟨rfl, ?_, ?_, ?_, ?_, hclock⟩
  · show (rTime s).toNat = _
    omega
  · show (rTime s + timerInterval).toNat = _
    rw [UInt64.toNat_add]
    omega
  · show (rTime s / timerInterval).toNat = _
    rw [UInt64.toNat_div, htime, hinterval, Nat.add_zero]
  · show s.clock + 0 * 100000 ≤ s.clock
    omega

/-- A handled interrupt is one tick, however late. -/
theorem Ticked.handleTimer (h : Ticked start n s) (hp : s.pending = true) :
    Ticked start (n + 1) (handleTimer s) := by
  have hinterval := toNat_timerInterval
  have hreached := h.pending_iff.mp hp
  have hclock := h.clock
  have hlast : (s.last + s.interval).toNat = start + (n + 1) * 100000 := by
    rw [UInt64.toNat_add, h.last, h.interval]
    omega
  refine ⟨h.interval, hlast, ?_, ?_, hreached, hclock⟩
  · show (s.last + s.interval + s.interval).toNat = _
    rw [UInt64.toNat_add, hlast, h.interval]
    omega
  · show (s.kernelTick + 1).toNat = _
    rw [UInt64.toNat_add, h.tick, UInt64.toNat_one]
    omega

theorem Ticked.next (h : Ticked start n s) {a : TimerAction} (ha : s.Early a)
    (hnext : s.next a = some s') : Ticked start (n + [a].count .interrupt) s' := by
  cases a with
  | pass time =>
      obtain rfl := Option.some.inj hnext
      have hclock : s.clock + time < LAST_TIME := ha
      have hinterval := toNat_timerInterval
      unfold LAST_TIME at hclock
      refine ⟨h.interval, h.last, h.timecmp, h.tick, ?_, ?_⟩
      · show start + n * 100000 ≤ s.clock + time
        exact h.reached.trans (Nat.le_add_right _ _)
      · show s.clock + time + 100000 < 2 ^ 64
        omega
  | interrupt =>
      obtain ⟨hpending, hnext⟩ := Option.ite_none_right_eq_some.mp hnext
      obtain rfl := Option.some.inj hnext
      exact h.handleTimer hpending
  | resched =>
      obtain rfl := Option.some.inj hnext
      exact ⟨h.interval, h.last, h.timecmp, h.tick, h.reached, h.clock⟩

theorem TimerRun.ticked {as : List TimerAction} (hs : s.clock < LAST_TIME)
    (run : TimerRun s as s') : Ticked s.clock (as.count .interrupt) s' := by
  induction run with
  | refl => exact ticked_timerInit hs
  | tail _ last ih =>
      obtain ⟨a, ha, rfl, hnext⟩ := last
      rw [List.count_append]
      exact ih.next ha hnext

/-- **Ticks do not drift.** However late the timer interrupts are handled, the ticks counted never
run ahead of the clock, and whenever no interrupt is pending `kernel_tick` has advanced by exactly
the whole intervals that have passed since `timer_init`; until then each handled interrupt makes up
for one of them. -/
theorem ticks_exact {as : List TimerAction} (hs : s.clock < LAST_TIME) (run : TimerRun s as s') :
    s'.kernelTick.toNat = s.clock / timerInterval.toNat + as.count .interrupt
      ∧ s'.kernelTick = s'.last / timerInterval
      ∧ as.count .interrupt ≤ (s'.clock - s.clock) / timerInterval.toNat
      ∧ (s'.pending = false ↔
          as.count .interrupt = (s'.clock - s.clock) / timerInterval.toNat) := by
  have h := run.ticked hs
  have hreached := h.reached
  rw [toNat_timerInterval, ← Bool.not_eq_true, h.pending_iff]
  refine ⟨h.tick, ?_, ?_, ?_⟩
  · rw [← UInt64.toNat_inj, h.tick, UInt64.toNat_div, h.last, toNat_timerInterval]
    omega
  · omega
  · omega

/-- The second and the third tick are handled after the fourth was due. -/
theorem ticks_exact_late : ∃ s',
    TimerRun ⟨0, 0, 0, false, 250000, 0⟩
        [.pass 100000, .interrupt, .pass 310000, .interrupt, .resched, .interrupt] s'
      ∧ s'.kernelTick.toNat = 250000 / timerInterval.toNat + 3 ∧ s'.pending = true := by
  have hexec : (Lts.exec TimerState.next TimerState.Early
      (timerInit ⟨0, 0, 0, false, 250000, 0⟩)
      [.pass 100000, .interrupt, .pass 310000, .interrupt, .resched, .interrupt]).map
        TimerState.pending = some true := by
    decide +kernel
  obtain ⟨s', hs', hpending⟩ := Option.map_eq_some_iff.mp hexec
  have run := Lts.run_of_exec hs'
  obtain ⟨htick, -⟩ := ticks_exact (by decide) run
  exact ⟨s', run, htick, hpending⟩

end NoobKernel.Hal
