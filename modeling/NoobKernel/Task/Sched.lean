import NoobKernel.Lib.Links
import NoobKernel.Lib.Lts

set_option autoImplicit false

/-! # The scheduler (`task/sched.c`, `task/kthread.c`)

One CPU. `P` is the type of the addresses of processes, and a pointer is `none` when it is null.
The run queue is the link field `runq` of all processes, its head being the node `none`. The
functions are not interrupted here, so that the locks are left out; what `alloc_proc` and
`kmalloc` return are arguments of `kthread_create`. The log collects what the statements are
about.
-/

namespace NoobKernel.Task

inductive ProcState
  | unused
  | idle
  | runnable
  | running
  | sleeping
  | zombie
  deriving DecidableEq

inductive SchedEvent (P : Type)
  | create (p : P)
  | enqueue (p : P)
  | pick (p : P)
  deriving DecidableEq

/-- `thiscpu()->proc`, the states of all processes and `runq[r_tp()].queue`. -/
structure Sched (P : Type) where
  proc : Option P
  state : P → ProcState
  runq : Links (Option P)
  log : List (SchedEvent P)

variable {P : Type} [DecidableEq P]

/-- After `init_runq` and `init_cpu`, over any memory. -/
def initCpu (idle : P) (state : P → ProcState) (runq : Links (Option P)) : Sched P where
  proc := some idle
  state := Function.update state idle .idle
  runq := runq.init none
  log := []

def Sched.setState (s : Sched P) (p : P) (state : ProcState) : Sched P :=
  { s with state := Function.update s.state p state }

def isRunqEmpty (s : Sched P) : Bool := s.runq.next none = none

def enqueueProc (s : Sched P) (p : P) : Sched P :=
  { s with runq := s.runq.addTail (some p) none, log := s.log ++ [.enqueue p] }

def dequeueProc (s : Sched P) : Option P × Sched P :=
  if isRunqEmpty s then (none, s)
  else (s.runq.next none, { s with runq := s.runq.del (s.runq.next none) })

/-- Up to the `context_switch` that leaves the old process. -/
def contextSwitchYield (idle : P) (s : Sched P) : Sched P :=
  let (next, s) := dequeueProc s
  let next := next.getD idle
  let s := if next ≠ idle then s.setState next .running else s
  { s with proc := some next, log := s.log ++ [.pick next] }

/-- The result is `none` for the panic. -/
def schedYield (idle : P) (s : Sched P) : Option (Sched P) :=
  match s.proc with
  | none => none
  | some p =>
      let s := match s.state p with
        | .running => enqueueProc (s.setState p .runnable) p
        | _ => s
      some (contextSwitchYield idle { s with proc := none })

/-- `p` is the process `alloc_proc` returns and `kstack` whether there is memory for its stack. -/
def kthreadCreate (s : Sched P) (p : Option P) (kstack : Bool) : Option P × Sched P :=
  match p with
  | none => (none, s)
  | some p =>
      let s := s.setState p .unused
      if kstack = false then (none, s)
      else
        let s := s.setState p .runnable
        (some p, enqueueProc { s with log := s.log ++ [.create p] } p)

/-- What follows the call of `sched_yield` is not reached. -/
def kthreadExit (idle : P) (s : Sched P) : Option (Sched P) :=
  match s.proc with
  | none => none
  | some p => schedYield idle (s.setState p .zombie)

inductive SchedAction (P : Type)
  | create (p : Option P) (kstack : Bool)
  /-- by the process itself or by the handler that interrupts it -/
  | yield
  | exit
  deriving DecidableEq

def Sched.next (idle : P) (s : Sched P) : SchedAction P → Option (Sched P)
  | .create p kstack => some (kthreadCreate s p kstack).2
  | .yield => schedYield idle s
  | .exit => kthreadExit idle s

/-- Memory that is allocated is not in use. -/
def FreshProc (idle : P) (s : Sched P) : SchedAction P → Prop
  | .create (some p) _ => p ≠ idle ∧ .create p ∉ s.log
  | _ => True

instance decidableLogged (e : SchedEvent P) (log : List (SchedEvent P)) : Decidable (e ∈ log) :=
  List.instDecidableMemOfLawfulBEq e log

instance decidableFreshProc (idle : P) (s : Sched P) :
    (a : SchedAction P) → Decidable (FreshProc idle s a)
  | .create (some _) _ => inferInstanceAs (Decidable (_ ∧ _))
  | .create none _ | .yield | .exit => .isTrue trivial

abbrev SchedRun (idle : P) (state : P → ProcState) (runq : Links (Option P))
    (as : List (SchedAction P)) (s : Sched P) : Prop :=
  Lts.Run (Lts.Steps (Sched.next idle) (FreshProc idle)) (initCpu idle state runq) as s

end NoobKernel.Task
