import NoobKernel.Task.SchedSteps

set_option autoImplicit false

/-! # When `sched_yield` finds a null process

`sched_yield` clears the current process with interrupts as they were, and the next process is
stored by `context_switch_yield` later. A timer interrupt in between calls `sched_yield` again and
panics. If none is taken there (`TimerCareful`), no run panics for a null process.

The invariant: the current process is null exactly while the code that runs is in this window, and
nothing else, neither an interrupted computation nor a saved one, is in it.
-/

namespace NoobKernel.Task

open Trap (intrStep sieOf)

variable {P : Type}

/-- No timer interrupt is taken while there is no current process. -/
def TimerCareful (m : Machine P) (a : MachineAction P) : Prop :=
  a = .timer → m.sched.proc ≠ none

instance [DecidableEq P] (m : Machine P) (a : MachineAction P) : Decidable (TimerCareful m a) :=
  inferInstanceAs (Decidable (_ → _))

/-! ## The window -/

/-- Part of acquiring or releasing a lock. -/
def Instr.ofLock : Instr P → Bool
  | .intr _ | .check _ | .take _ | .own _ | .disown _ | .unlock _ => true
  | _ => false

/-- After `clearProc`, up to and with `setProc`. -/
def Instr.inWindow : Instr P → Bool
  | .runqEmpty _ | .delFirst _ | .setRunning _ _ | .setProc _ _ => true
  | _ => false

/-- Code outside the window. -/
def Quiet (code : List (Instr P)) : Prop := ∀ i ∈ code, i.inWindow = false

/-- Code in the window: of what runs and what it returns to, exactly the next instruction that is
not about a lock is in it. -/
inductive Window (s : Sched P) : List (Instr P) → Prop
  | ofLock {i : Instr P} {code : List (Instr P)} (hi : i.ofLock = true) (h : Window s code) :
      Window s (i :: code)
  | runqEmpty {rest : List (Instr P)} (old : P) (h : Quiet rest) :
      Window s (.runqEmpty old :: rest)
  | delFirst {rest : List (Instr P)} (old : P) (h : Quiet rest) (hne : s.runq.next none ≠ none) :
      Window s (.delFirst old :: rest)
  | setRunning {rest : List (Instr P)} (old next : P) (h : Quiet rest) :
      Window s (.setRunning old next :: rest)
  | setProc {rest : List (Instr P)} (old next : P) (h : Quiet rest) :
      Window s (.setProc old next :: rest)

structure MachineInv (m : Machine P) : Prop where
  panic : m.panic ≠ some .nullProc
  saved : ∀ p, Quiet (m.ctx p).code
  running : (m.sched.proc ≠ none ∧ Quiet m.code) ∨ (m.sched.proc = none ∧ Window m.sched m.code)

variable {m m' : Machine P} {i : Instr P} {code rest : List (Instr P)} {s : Sched P} {idle : P}

theorem quiet_cons : Quiet (i :: rest) ↔ i.inWindow = false ∧ Quiet rest := List.forall_mem_cons

theorem quiet_append : Quiet (code ++ rest) ↔ Quiet code ∧ Quiet rest := List.forall_mem_append

theorem quiet_acquire (l : Lock P) : Quiet (acquire l) := by
  simp [Quiet, acquire, Instr.inWindow]

theorem quiet_release (l : Lock P) : Quiet (release l) := by
  simp [Quiet, release, Instr.inWindow]

theorem Window.acquire (h : Window s code) (l : Lock P) : Window s (acquire l ++ code) :=
  .ofLock rfl (.ofLock rfl (.ofLock rfl (.ofLock rfl h)))

theorem Window.release (h : Window s code) (l : Lock P) : Window s (release l ++ code) :=
  .ofLock rfl (.ofLock rfl (.ofLock rfl h))

variable [DecidableEq P]

theorem machineInv_start (idle : P) (state : P → ProcState) (runq : Links (Option P))
    (sstatus intrState : BitVec 64) :
    MachineInv (.start idle state runq sstatus intrState) where
  panic := nofun
  saved _ := nofun
  running := .inl ⟨nofun, nofun⟩

/-! ## Instructions -/

/-- What an instruction of a lock leaves: everything but locks and interrupts. -/
theorem exec_ofLock (hi : i.ofLock = true) (hcode : m.code = i :: rest) (hpanic : m.panic = none)
    (h : m.exec idle rest i = some m') :
    m'.sched = m.sched ∧ m'.ctx = m.ctx ∧ m'.panic ≠ some .nullProc
      ∧ (m'.code = rest ∨ ∃ j : Instr P, j.ofLock = true ∧ m'.code = j :: rest) := by
  -- an instruction that waits or panics is still the next one
  have stay : ∃ j : Instr P, j.ofLock = true ∧ m.code = j :: rest := ⟨i, hi, hcode⟩
  have nopanic : m.panic ≠ some .nullProc := by
    rw [hpanic]
    nofun
  cases i with
  | intr pc =>
      rw [Machine.exec] at h
      split at h <;> obtain rfl := Option.some.inj h
      · exact ⟨rfl, rfl, nopanic, .inl rfl⟩
      · exact ⟨rfl, rfl, nofun, .inr stay⟩
      · exact ⟨rfl, rfl, nopanic, .inr ⟨_, rfl, rfl⟩⟩
  | check l =>
      rw [Machine.exec] at h
      split at h <;> obtain rfl := Option.some.inj h
      · exact ⟨rfl, rfl, nofun, .inr stay⟩
      · exact ⟨rfl, rfl, nopanic, .inl rfl⟩
  | take l =>
      rw [Machine.exec] at h
      split at h <;> obtain rfl := Option.some.inj h
      · exact ⟨rfl, rfl, nopanic, .inr stay⟩
      · exact ⟨rfl, rfl, nopanic, .inl rfl⟩
  | own l | unlock l =>
      obtain rfl := Option.some.inj h
      exact ⟨rfl, rfl, nopanic, .inl rfl⟩
  | disown l =>
      rw [Machine.exec] at h
      split at h
      · obtain rfl := Option.some.inj h
        exact ⟨rfl, rfl, nofun, .inr stay⟩
      · split at h <;> obtain rfl := Option.some.inj h
        · exact ⟨rfl, rfl, nofun, .inr stay⟩
        · exact ⟨rfl, rfl, nopanic, .inl rfl⟩
  | _ => cases hi

/-- Outside the window, the next instruction may be the one that enters it. -/
theorem MachineInv.exec_quiet (inv : MachineInv m) (hproc : m.sched.proc ≠ none)
    (hcode : m.code = i :: rest) (hpanic : m.panic = none) (hquiet : Quiet (i :: rest))
    (h : m.exec idle rest i = some m') : MachineInv m' := by
  obtain ⟨hi, hrest⟩ := quiet_cons.mp hquiet
  have nopanic := inv.panic
  by_cases hlock : i.ofLock = true
  · obtain ⟨hsched, hctx, hpanic', hcode'⟩ := exec_ofLock hlock hcode hpanic h
    refine ⟨hpanic', hctx ▸ inv.saved, .inl ⟨hsched ▸ hproc, ?_⟩⟩
    -- the lock is taken in two steps, or the CPU waits for it
    rcases hcode' with hcode' | ⟨j, hj, hcode'⟩
    · rw [hcode']
      exact hrest
    · rw [hcode']
      refine quiet_cons.mpr ⟨?_, hrest⟩
      cases j <;> first | rfl | cases hj
  · cases i with
    | intr | check | take | own | disown | unlock => exact absurd rfl hlock
    | runqEmpty | delFirst | setRunning | setProc => cases hi
    | yieldProc =>
        rw [Machine.exec] at h
        split at h <;> obtain rfl := Option.some.inj h
        · exact absurd ‹_› hproc
        · exact ⟨nopanic, inv.saved, .inl ⟨hproc, quiet_cons.mpr ⟨rfl, hrest⟩⟩⟩
    | yieldState p =>
        rw [Machine.exec] at h
        split at h <;> obtain rfl := Option.some.inj h <;>
          exact ⟨nopanic, inv.saved, .inl ⟨hproc, quiet_cons.mpr ⟨rfl, hrest⟩⟩⟩
    | yieldRunnable p =>
        obtain rfl := Option.some.inj h
        refine ⟨nopanic, inv.saved, .inl ⟨hproc, quiet_append.mpr ⟨quiet_acquire _, ?_⟩⟩⟩
        exact quiet_cons.mpr ⟨rfl, quiet_append.mpr ⟨quiet_release _, quiet_cons.mpr ⟨rfl, hrest⟩⟩⟩
    | clearProc old =>
        -- `cpu->proc` is null from here on: the window begins
        obtain rfl := Option.some.inj h
        exact ⟨nopanic, inv.saved, .inr ⟨rfl, .runqEmpty old hrest⟩⟩
    | saveContext old next =>
        obtain rfl := Option.some.inj h
        refine ⟨nopanic, fun p => ?_, .inl ⟨hproc, quiet_cons.mpr ⟨rfl, hrest⟩⟩⟩
        show Quiet (Function.update m.ctx old _ p).code
        by_cases hp : p = old
        · -- what is saved is the code after the switch
          subst hp
          rw [Function.update_self]
          exact hrest
        · rw [Function.update_of_ne hp]
          exact inv.saved p
    | loadContext next =>
        obtain rfl := Option.some.inj h
        exact ⟨nopanic, inv.saved, .inl ⟨hproc, quiet_cons.mpr ⟨rfl, inv.saved next⟩⟩⟩
    | addTail | writeStatus | handleTimer | sret =>
        obtain rfl := Option.some.inj h
        exact ⟨nopanic, inv.saved, .inl ⟨hproc, hrest⟩⟩
    | trapEnd =>
        rw [Machine.exec] at h
        split at h <;> obtain rfl := Option.some.inj h
        · exact ⟨nopanic, inv.saved, .inl ⟨hproc, quiet_cons.mpr ⟨rfl, hrest⟩⟩⟩
        · exact ⟨nopanic, inv.saved, .inl ⟨hproc, hrest⟩⟩
    | exitProc =>
        rw [Machine.exec] at h
        split at h <;> obtain rfl := Option.some.inj h
        · exact absurd ‹_› hproc
        · exact ⟨nopanic, inv.saved, .inl ⟨hproc, quiet_cons.mpr ⟨rfl, hrest⟩⟩⟩
    | exitState p =>
        obtain rfl := Option.some.inj h
        exact ⟨nopanic, inv.saved,
          .inl ⟨hproc, quiet_cons.mpr ⟨rfl, quiet_cons.mpr ⟨rfl, hrest⟩⟩⟩⟩
    | exitReturned =>
        obtain rfl := Option.some.inj h
        exact ⟨nofun, inv.saved, .inl ⟨hproc, hcode ▸ hquiet⟩⟩

/-- In the window, only locks are taken until the next process is stored. -/
theorem MachineInv.exec_window (inv : MachineInv m) (hproc : m.sched.proc = none)
    (hcode : m.code = i :: rest) (hpanic : m.panic = none) (hwindow : Window m.sched (i :: rest))
    (h : m.exec idle rest i = some m') : MachineInv m' := by
  have nopanic := inv.panic
  cases hwindow with
  | ofLock hi hrest =>
      obtain ⟨hsched, hctx, hpanic', hcode'⟩ := exec_ofLock hi hcode hpanic h
      refine ⟨hpanic', hctx ▸ inv.saved, .inr ⟨hsched ▸ hproc, ?_⟩⟩
      rw [hsched]
      rcases hcode' with hcode' | ⟨j, hj, hcode'⟩
      · exact hcode' ▸ hrest
      · exact hcode' ▸ .ofLock hj hrest
  -- the test under the lock decides whether there is a first process to take off
  | runqEmpty old hrest =>
      rw [Machine.exec] at h
      split at h <;> obtain rfl := Option.some.inj h
      · exact ⟨nopanic, inv.saved, .inr ⟨hproc, (Window.setRunning old idle hrest).acquire _⟩⟩
      · rename_i hne
        refine ⟨nopanic, inv.saved, .inr ⟨hproc, (Window.delFirst old hrest ?_).acquire _⟩⟩
        simpa [isRunqEmpty] using hne
  | delFirst old hrest hne =>
      rw [Machine.exec] at h
      split at h
      · exact absurd ‹_› hne
      · rename_i next hnext
        obtain rfl := Option.some.inj h
        exact ⟨nopanic, inv.saved,
          .inr ⟨hproc, ((Window.setRunning old next hrest).acquire _).release _⟩⟩
  | setRunning old next hrest =>
      obtain rfl := Option.some.inj h
      refine ⟨nopanic, inv.saved, .inr ⟨?_, .setProc old next hrest⟩⟩
      show Sched.proc (if next ≠ idle then _ else _) = none
      split <;> exact hproc
  -- the next process is stored, and the window is closed
  | setProc old next hrest =>
      obtain rfl := Option.some.inj h
      refine ⟨nopanic, inv.saved, .inl ⟨nofun, quiet_append.mpr ⟨quiet_release _, ?_⟩⟩⟩
      exact quiet_cons.mpr ⟨rfl, hrest⟩

theorem MachineInv.exec (inv : MachineInv m) (hcode : m.code = i :: rest)
    (hpanic : m.panic = none) (h : m.exec idle rest i = some m') : MachineInv m' := by
  rcases inv.running with ⟨hproc, hquiet⟩ | ⟨hproc, hwindow⟩
  · exact inv.exec_quiet hproc hcode hpanic (hcode ▸ hquiet) h
  · exact inv.exec_window hproc hcode hpanic (hcode ▸ hwindow) h

/-- No instruction gets stuck: `dequeue_proc` takes a process, not the head of the queue. -/
theorem MachineInv.exec_isSome (inv : MachineInv m) (hcode : m.code = i :: rest) :
    (m.exec idle rest i).isSome := by
  cases i with
  | delFirst old =>
      have hne : m.sched.runq.next none ≠ none := by
        rcases inv.running with ⟨-, hquiet⟩ | ⟨-, hwindow⟩
        · exact absurd (hquiet (.delFirst old) (hcode ▸ List.mem_cons_self)) nofun
        · rw [hcode] at hwindow
          cases hwindow with
          | ofLock hi => cases hi
          | delFirst _ _ hne => exact hne
      obtain ⟨next, hnext⟩ := Option.ne_none_iff_exists'.mp hne
      rw [Machine.exec, hnext]
      rfl
  | _ =>
      rw [Machine.exec]
      repeat' split
      all_goals rfl

/-! ## Actions -/

omit [DecidableEq P] in
/-- The thread's own code runs with a current process. -/
theorem MachineInv.call (inv : MachineInv m) {code : List (Instr P)} (hquiet : Quiet code)
    (h : m.call code = some m') : MachineInv m' := by
  unfold Machine.call at h
  split at h
  · rename_i hcode
    obtain rfl := Option.some.inj h
    refine ⟨inv.panic, inv.saved, .inl ⟨?_, hquiet⟩⟩
    rcases inv.running with ⟨hproc, -⟩ | ⟨-, hwindow⟩
    · exact hproc
    · rw [hcode] at hwindow
      cases hwindow
  · cases h

/-- The memory of a process that is created. -/
theorem MachineInv.created (inv : MachineInv m) {p : P} {lock : Lock P → Spinlock}
    (hsched : s.proc = m.sched.proc) (hrunq : s.runq = m.sched.runq) :
    MachineInv { m with
      sched := s
      ctx := Function.update m.ctx p ⟨[], Trap.SSTATUS_SIE⟩
      lock := lock } := by
  refine ⟨inv.panic, fun q => ?_, ?_⟩
  · show Quiet (Function.update m.ctx p _ q).code
    by_cases hq : q = p
    · subst hq
      rw [Function.update_self]
      nofun
    · rw [Function.update_of_ne hq]
      exact inv.saved q
  · rcases inv.running with ⟨hproc, hquiet⟩ | ⟨hproc, hwindow⟩
    · exact .inl ⟨hsched ▸ hproc, hquiet⟩
    · refine .inr ⟨hsched.trans hproc, ?_⟩
      have hcongr : ∀ code, Window m.sched code → Window s code := by
        intro code hwindow
        induction hwindow with
        | ofLock hi _ ih => exact .ofLock hi ih
        | runqEmpty old h => exact .runqEmpty old h
        | delFirst old h hne => exact .delFirst old h (hrunq ▸ hne)
        | setRunning old next h => exact .setRunning old next h
        | setProc old next h => exact .setProc old next h
      exact hcongr _ hwindow

theorem MachineInv.next (inv : MachineInv m) {a : MachineAction P} (ha : TimerCareful m a)
    (h : m.next idle a = some m') : MachineInv m' := by
  unfold Machine.next at h
  split at h
  · cases h
  · rename_i hpanic
    rw [not_not] at hpanic
    cases a with
    | exec =>
        simp only at h
        split at h
        · cases h
        · exact inv.exec ‹_› hpanic h
    | timer =>
        simp only at h
        split at h
        · obtain rfl := Option.some.inj h
          -- an interrupt in the window is what the condition excludes
          rcases inv.running with ⟨hproc, hquiet⟩ | ⟨hproc, -⟩
          · refine ⟨inv.panic, inv.saved, .inl ⟨hproc, ?_⟩⟩
            exact quiet_cons.mpr ⟨rfl, quiet_cons.mpr ⟨rfl, quiet_cons.mpr ⟨rfl, hquiet⟩⟩⟩
          · exact absurd hproc (ha rfl)
        · cases h
    | yield | exit | off | on =>
        exact inv.call (quiet_cons.mpr ⟨rfl, fun _ hi => absurd hi List.not_mem_nil⟩) h
    | create p =>
        simp only at h
        split at h
        · refine MachineInv.call ?_ (quiet_append.mpr ⟨quiet_acquire _, ?_⟩) h
          · exact inv.created rfl rfl
          · exact quiet_cons.mpr ⟨rfl, quiet_release _⟩
        · cases h

/-! ## Runs -/

section

variable {state : P → ProcState} {runq : Links (Option P)} {sstatus intrState : BitVec 64}
  {as : List (MachineAction P)}

/-- A run under the condition `ok` on its actions. -/
abbrev MachineRun (ok : Machine P → MachineAction P → Prop) (idle : P) (state : P → ProcState)
    (runq : Links (Option P)) (sstatus intrState : BitVec 64) (as : List (MachineAction P))
    (m : Machine P) : Prop :=
  Lts.Run (Lts.Steps (Machine.next idle) ok) (.start idle state runq sstatus intrState) as m

/-- **No null process** in a run that takes no timer interrupt in the window. -/
theorem sched_yield_not_null
    (run : MachineRun TimerCareful idle state runq sstatus intrState as m) :
    m.panic ≠ some .nullProc := by
  have inv : MachineInv m :=
    run.invariant (machineInv_start idle state runq sstatus intrState)
      fun _ _ _ inv ⟨_, ha, _, hnext⟩ => inv.next ha hnext
  exact inv.panic

end

/-- A thread is created, the timer switches to it, and it yields; the next timer interrupt comes
`n` instructions later. -/
def timerAfterYield (n : Nat) : List (MachineAction Nat) :=
  .create 1 :: (List.replicate 19 .exec).append (.timer :: (List.replicate 48 .exec).append
    (.yield :: (List.replicate n .exec).append [.timer, .exec, .exec, .exec]))

/-- The thread has switched to itself before the timer comes again. -/
theorem sched_yield_not_null_two : ∃ m,
    MachineRun TimerCareful 0 (fun _ => .unused) ⟨id, id⟩ Trap.SSTATUS_SIE 0 (timerAfterYield 66) m
    ∧ m.sched.log = [.create 1, .enqueue 1, .pick 1, .enqueue 1, .pick 1]
    ∧ m.panic ≠ some .nullProc := by
  have hexec : (Lts.exec (Machine.next 0) TimerCareful
      (.start 0 (fun _ => .unused) ⟨id, id⟩ Trap.SSTATUS_SIE 0) (timerAfterYield 66)).map
        (fun m => m.sched.log) = some [.create 1, .enqueue 1, .pick 1, .enqueue 1, .pick 1] := by
    decide
  obtain ⟨m, hm, hlog⟩ := Option.map_eq_some_iff.mp hexec
  exact ⟨m, Lts.run_of_exec hm, hlog, sched_yield_not_null (Lts.run_of_exec hm)⟩

/-- The timer comes in the window of the yield. -/
theorem sched_yield_null : ∃ m,
    MachineRun (fun _ _ => True) 0 (fun _ => .unused) ⟨id, id⟩ Trap.SSTATUS_SIE 0
      (timerAfterYield 23) m
    ∧ m.panic = some .nullProc := by
  have hexec : (Lts.exec (Machine.next 0) (fun _ _ => True)
      (.start 0 (fun _ => .unused) ⟨id, id⟩ Trap.SSTATUS_SIE 0) (timerAfterYield 23)).map
        Machine.panic = some (some .nullProc) := by
    decide
  obtain ⟨m, hm, hpanic⟩ := Option.map_eq_some_iff.mp hexec
  exact ⟨m, Lts.run_of_exec hm, hpanic⟩

/-- The condition leaves out nothing else: a timer interrupt in the window ends in the panic. -/
theorem timer_in_window (hpanic : m.panic = none) (hproc : m.sched.proc = none)
    (hsie : sieOf m.vars.sstatus = true) :
    (([.timer, .exec, .exec, .exec] : List (MachineAction P)).foldlM (Machine.next idle) m).map
      Machine.panic = some (some .nullProc) := by
  simp [Machine.next, Machine.exec, hpanic, hproc, hsie]

end NoobKernel.Task
