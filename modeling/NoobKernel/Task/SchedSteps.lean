import NoobKernel.Task.Sched
import NoobKernel.Trap.Intr

set_option autoImplicit false

/-! # The scheduler under timer interrupts

`sched_yield`, `kthread_exit` and `kerneltrap` as sequences of their accesses to shared memory,
between any two of which a timer interrupt is taken if `SIE` is set. What is left of a computation
is the list of its next instructions, with the local variables they use; a handler puts its own in
front. `context_switch` saves this list as the context of the old process and takes up that of the
next one: the registers and the stack are in it, and loading them is one step.

An empty list stands for the thread's own code, which may call the scheduler, create threads and
turn interrupts off and on.
-/

namespace NoobKernel.Task

open Trap (IntrVars IntrPc intrStep SSTATUS_SIE sieOf)

inductive Lock (P : Type)
  | runq
  | proc (p : P)
  deriving DecidableEq

/-- A `spinlock_t`; the owner is this CPU or nobody. -/
structure Spinlock where
  locked : Bool
  owned : Bool

inductive Panic
  | recursiveLock
  | releaseUnlocked
  | wrongCpu
  | intrMismatch
  | nullProc
  | noCurrentProc
  | exitReturned
  deriving DecidableEq

inductive Instr (P : Type)
  /-- `intr_off` or `intr_on` -/
  | intr (pc : IntrPc)
  /-- `spinlock_acquire_bare`: the lock is not held already -/
  | check (l : Lock P)
  | take (l : Lock P)
  | own (l : Lock P)
  /-- `spinlock_release_bare` -/
  | disown (l : Lock P)
  | unlock (l : Lock P)
  /-- `sched_yield`: `p = c->proc` -/
  | yieldProc
  /-- `switch (p->state)` -/
  | yieldState (p : P)
  /-- `p->state = PROC_RUNNABLE` -/
  | yieldRunnable (p : P)
  /-- `list_add_tail(&p->runq, &runq[hartid].queue)` -/
  | addTail (p : P)
  /-- `thiscpu()->proc = NULL` -/
  | clearProc (old : P)
  /-- `dequeue_proc`: `is_runq_empty` -/
  | runqEmpty (old : P)
  /-- `list_del(runq[hartid].queue.next)` -/
  | delFirst (old : P)
  /-- `next->state = PROC_RUNNING` -/
  | setRunning (old next : P)
  /-- `c->proc = next` -/
  | setProc (old next : P)
  /-- `context_switch` -/
  | saveContext (old next : P)
  | loadContext (next : P)
  | writeStatus (sstatus : BitVec 64)
  /-- `kerneltrap` -/
  | handleTimer
  /-- `if (sched_enabled && thiscpu()->need_resched)` -/
  | trapEnd
  | sret (sstatus : BitVec 64)
  /-- `kthread_exit`: `p = thiscpu()->proc` -/
  | exitProc
  /-- `p->state = PROC_ZOMBIE` -/
  | exitState (p : P)
  | exitReturned
  deriving DecidableEq

/-- `struct context`: what is left to do, and the status register. -/
structure Context (P : Type) where
  code : List (Instr P)
  sstatus : BitVec 64

structure Machine (P : Type) where
  sched : Sched P
  vars : IntrVars
  needResched : Bool
  lock : Lock P → Spinlock
  ctx : P → Context P
  code : List (Instr P)
  panic : Option Panic

inductive MachineAction (P : Type)
  /-- the next instruction -/
  | exec
  | timer
  | yield
  | exit
  | create (p : P)
  | off
  | on
  deriving DecidableEq

variable {P : Type} [DecidableEq P]

def acquire (l : Lock P) : List (Instr P) := [.check l, .intr .offTest, .take l, .own l]

def release (l : Lock P) : List (Instr P) := [.disown l, .unlock l, .intr .onTest]

def Machine.setLock (m : Machine P) (l : Lock P) (lock : Spinlock) : Machine P :=
  { m with lock := Function.update m.lock l lock }

/-- One instruction, in front of the rest of the code. The node that `delFirst` finds is a process
unless the queue has become empty. -/
def Machine.exec (idle : P) (m : Machine P) (rest : List (Instr P)) :
    Instr P → Option (Machine P)
  | .intr pc =>
      match intrStep m.vars pc with
      | (.done, vars) => some { m with vars := vars, code := rest }
      | (.panicked, _) => some { m with panic := some .intrMismatch }
      | (pc, vars) => some { m with vars := vars, code := .intr pc :: rest }
  | .check l =>
      if (m.lock l).locked ∧ (m.lock l).owned then some { m with panic := some .recursiveLock }
      else some { m with code := rest }
  | .take l =>
      if (m.lock l).locked then some m
      else some { m.setLock l { m.lock l with locked := true } with code := rest }
  | .own l => some { m.setLock l { m.lock l with owned := true } with code := rest }
  | .disown l =>
      if (m.lock l).locked = false then some { m with panic := some .releaseUnlocked }
      else if (m.lock l).owned = false then some { m with panic := some .wrongCpu }
      else some { m.setLock l { m.lock l with owned := false } with code := rest }
  | .unlock l => some { m.setLock l { m.lock l with locked := false } with code := rest }
  | .yieldProc =>
      match m.sched.proc with
      | none => some { m with panic := some .nullProc }
      | some p => some { m with code := .yieldState p :: rest }
  | .yieldState p =>
      match m.sched.state p with
      | .running => some { m with code := .yieldRunnable p :: rest }
      | _ => some { m with code := .clearProc p :: rest }
  | .yieldRunnable p =>
      some { m with
        sched := m.sched.setState p .runnable
        code := acquire .runq ++ .addTail p :: (release .runq ++ .clearProc p :: rest) }
  | .addTail p => some { m with sched := enqueueProc m.sched p, code := rest }
  | .clearProc old =>
      some { m with sched := { m.sched with proc := none }, code := .runqEmpty old :: rest }
  | .runqEmpty old =>
      if isRunqEmpty m.sched then
        some { m with code := acquire (.proc idle) ++ .setRunning old idle :: rest }
      else some { m with code := acquire .runq ++ .delFirst old :: rest }
  | .delFirst old =>
      match m.sched.runq.next none with
      | none => none
      | some next =>
          some { m with
            sched := { m.sched with runq := m.sched.runq.del (some next) }
            code := release .runq ++ (acquire (.proc next) ++ .setRunning old next :: rest) }
  | .setRunning old next =>
      some { m with
        sched := if next ≠ idle then m.sched.setState next .running else m.sched
        code := .setProc old next :: rest }
  | .setProc old next =>
      some { m with
        sched := { m.sched with proc := some next, log := m.sched.log ++ [.pick next] }
        code := release (.proc next) ++ .saveContext old next :: rest }
  -- what is left of the code is where the old thread goes on
  | .saveContext old next =>
      some { m with
        ctx := Function.update m.ctx old ⟨rest, m.vars.sstatus⟩
        code := .loadContext next :: rest }
  | .loadContext next =>
      some { m with code := .writeStatus (m.ctx next).sstatus :: (m.ctx next).code }
  | .writeStatus sstatus =>
      some { m with vars := { m.vars with sstatus := sstatus }, code := rest }
  | .handleTimer => some { m with needResched := true, code := rest }
  | .trapEnd =>
      if m.needResched then some { m with code := .yieldProc :: rest }
      else some { m with code := rest }
  | .sret sstatus =>
      some { m with vars := { m.vars with sstatus := Rv64.sretStatus sstatus }, code := rest }
  | .exitProc =>
      match m.sched.proc with
      | none => some { m with panic := some .noCurrentProc }
      | some p => some { m with code := .exitState p :: rest }
  | .exitState p =>
      some { m with
        sched := m.sched.setState p .zombie
        code := .yieldProc :: .exitReturned :: rest }
  | .exitReturned => some { m with panic := some .exitReturned }

/-- The thread's own code calls into the kernel. -/
def Machine.call (m : Machine P) (code : List (Instr P)) : Option (Machine P) :=
  if m.code = [] then some { m with code := code } else none

/-- A panic is the end. The memory of a new process is not in use. -/
def Machine.next (idle : P) (m : Machine P) (a : MachineAction P) : Option (Machine P) :=
  if m.panic ≠ none then none
  else
    match a with
    | .exec =>
        match m.code with
        | [] => none
        | i :: rest => m.exec idle rest i
    | .timer =>
        if sieOf m.vars.sstatus then
          -- the trap disables interrupts; `sret` brings the status back
          let status := Rv64.trapStatus m.vars.sstatus
          some { m with
            vars := { m.vars with sstatus := status }
            code := .handleTimer :: .trapEnd :: .sret status :: m.code }
        else none
    | .yield => m.call [.yieldProc]
    | .exit => m.call [.exitProc]
    | .create p =>
        if p ≠ idle ∧ .create p ∉ m.sched.log then
          let sched := m.sched.setState p .runnable
          Machine.call { m with
              sched := { sched with log := sched.log ++ [.create p] }
              ctx := Function.update m.ctx p ⟨[], SSTATUS_SIE⟩
              lock := Function.update m.lock (.proc p) ⟨false, false⟩ }
            (acquire .runq ++ .addTail p :: release .runq)
        else none
    | .off => m.call [.intr .offTest]
    | .on => m.call [.intr .onTest]

/-- The idle process, after `init_cpu` and `init_runq` and with `sched_enabled` set. -/
def Machine.start (idle : P) (state : P → ProcState) (runq : Links (Option P))
    (sstatus intrState : BitVec 64) : Machine P where
  sched := initCpu idle state runq
  vars := ⟨sstatus, intrState, 0⟩
  needResched := false
  lock := fun _ => ⟨false, false⟩
  ctx := fun _ => ⟨[], SSTATUS_SIE⟩
  code := []
  panic := none

end NoobKernel.Task
