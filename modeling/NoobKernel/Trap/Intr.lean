import NoobKernel.Lib.Lts
import NoobKernel.Lib.Rv64

set_option autoImplicit false

/-! # Turning interrupts off and on (`trap/trap.c`)

`intr_off` and `intr_on` keep their state in `struct cpu`, which the code of a thread shares with
the handlers that interrupt it. Each of the two is the sequence of its loads and stores here
(`intrStep`), and an interrupt is taken between any two of them if `SIE` is set. A handler makes
calls of its own, closes what it opened and returns to the point that was interrupted.
-/

namespace NoobKernel.Trap

def SSTATUS_SIE : BitVec 64 := 1#64 <<< Rv64.SIE

/-- The `SIE` bit of a value of `sstatus`. -/
def sieOf (sstatus : BitVec 64) : Bool := sstatus.getLsbD Rv64.SIE

/-- The fields of `struct cpu` that the two functions use, and the register. -/
structure IntrVars where
  sstatus : BitVec 64
  intrState : BitVec 64
  intrDepth : BitVec 32
  deriving DecidableEq

/-- The access a call makes next, with the value it has loaded for it. -/
inductive IntrPc
  /-- `intr_off`: the test of `intr_depth` -/
  | offTest
  /-- `r_sstatus()` -/
  | offRead
  /-- the store to `intr_state` -/
  | offSave (status : BitVec 64)
  /-- `intr_state` is loaded again for `w_sstatus` -/
  | offLoad
  /-- `w_sstatus(c->intr_state & ~SSTATUS_SIE)` -/
  | offWrite (state : BitVec 64)
  /-- `c->intr_depth++` -/
  | offDepth
  | offStore (depth : BitVec 32)
  /-- `intr_on`: the test for a mismatch -/
  | onTest
  /-- `c->intr_depth--` -/
  | onDepth
  | onStore (depth : BitVec 32)
  /-- the test for the outermost call -/
  | onLast
  /-- `w_sstatus(c->intr_state)` -/
  | onLoad
  | onWrite (state : BitVec 64)
  /-- not in a call -/
  | done
  /-- `panic("intr_on: mismatch")` -/
  | panicked
  deriving DecidableEq

def intrStep (v : IntrVars) : IntrPc → IntrPc × IntrVars
  | .offTest => (if v.intrDepth = 0 then .offRead else .offDepth, v)
  | .offRead => (.offSave v.sstatus, v)
  | .offSave status => (.offLoad, { v with intrState := status })
  | .offLoad => (.offWrite v.intrState, v)
  | .offWrite state => (.offDepth, { v with sstatus := state &&& ~~~SSTATUS_SIE })
  | .offDepth => (.offStore v.intrDepth, v)
  | .offStore depth => (.done, { v with intrDepth := depth + 1 })
  | .onTest => (if v.intrDepth.sle 0 then .panicked else .onDepth, v)
  | .onDepth => (.onStore v.intrDepth, v)
  | .onStore depth => (.onLast, { v with intrDepth := depth - 1 })
  | .onLast => (if v.intrDepth = 0 then .onLoad else .done, v)
  | .onLoad => (.onWrite v.intrState, v)
  | .onWrite state => (.done, { v with sstatus := state })
  | .done => (.done, v)
  | .panicked => (.panicked, v)

/-! ## A thread and its interrupts -/

/-- The code of a thread, or of a handler. -/
structure IntrFrame where
  pc : IntrPc
  /-- calls of `intr_off` without their `intr_on` so far -/
  opened : Nat
  /-- `SIE` when the outermost of them was made -/
  before : Bool
  /-- for a handler, the `sstatus` that `kernelvec` saved -/
  saved : BitVec 64
  deriving DecidableEq

/-- The innermost handler comes first, the thread last. -/
structure IntrMachine where
  vars : IntrVars
  frames : List IntrFrame
  deriving DecidableEq

inductive IntrAction
  /-- call `intr_off` -/
  | off
  /-- call `intr_on` -/
  | on
  /-- the next access of the call in progress -/
  | exec
  /-- take an interrupt -/
  | interrupt
  /-- return from the handler -/
  | ret
  deriving DecidableEq

/-- What runs is the first frame. A handler returns when all it opened is closed. -/
def IntrMachine.next (m : IntrMachine) (a : IntrAction) : Option IntrMachine :=
  match m.frames with
  | [] => none
  | f :: rest =>
      match a with
      | .off =>
          if f.pc = .done then
            some ⟨m.vars, { f with pc := .offTest, opened := f.opened + 1, before :=
              if f.opened = 0 then sieOf m.vars.sstatus else f.before } :: rest⟩
          else none
      | .on =>
          if f.pc = .done ∧ f.opened ≠ 0 then
            some ⟨m.vars, { f with pc := .onTest, opened := f.opened - 1 } :: rest⟩
          else none
      | .exec =>
          if f.pc = .done then none
          else
            let r := intrStep m.vars f.pc
            some ⟨r.2, { f with pc := r.1 } :: rest⟩
      | .interrupt =>
          if sieOf m.vars.sstatus then
            -- the handler starts with interrupts off, above the code it interrupts
            let status := Rv64.trapStatus m.vars.sstatus
            some ⟨{ m.vars with sstatus := status }, ⟨.done, 0, sieOf status, status⟩ :: f :: rest⟩
          else none
      | .ret =>
          if f.pc = .done ∧ f.opened = 0 ∧ rest ≠ [] then
            some ⟨{ m.vars with sstatus := Rv64.sretStatus f.saved }, rest⟩
          else none

/-- A thread before its first call. -/
def IntrMachine.start (sstatus intrState : BitVec 64) : IntrMachine :=
  ⟨⟨sstatus, intrState, 0⟩, [⟨.done, 0, sieOf sstatus, 0⟩]⟩

/-- A run under the condition `ok` on its actions. -/
abbrev IntrRun (ok : IntrMachine → IntrAction → Prop) (sstatus intrState : BitVec 64)
    (as : List IntrAction) (m : IntrMachine) : Prop :=
  Lts.Run (Lts.Steps IntrMachine.next ok) (.start sstatus intrState) as m

end NoobKernel.Trap
