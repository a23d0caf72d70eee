import NoobKernel.Lib.Lts

set_option autoImplicit false

/-! # Spin locks (`sync/spinlock.c`)

Any number of harts call `spinlock_acquire_bare`, `spinlock_release_bare` and `spinlock_holding` on
any number of locks. A call is the sequence of its accesses to the lock (`access`), those of the
checks under `SPINLOCK_DEBUG` included, and the harts take turns between any two of them. An
interrupt is taken on a hart where no pair of `intr_off` and `intr_on` is open, and the handler
makes calls of its own above the code it interrupts; of `intr_off` and `intr_on` the depth is
followed here.
-/

namespace NoobKernel.Sync

/-- `spinlock_t`, less its name. -/
structure Spinlock where
  locked : BitVec 64
  owner : BitVec 64
  deriving DecidableEq

def SPINLOCK_INITIALIZER : Spinlock := ⟨0, -1⟩

inductive SpinCall (L : Type)
  | acquire (l : L)
  | release (l : L)
  | holding (l : L)
  deriving DecidableEq

inductive SpinPanic (L : Type)
  /-- `recursive lock acquire` -/
  | recursive (l : L)
  /-- `release unlocked lock` -/
  | unlocked (l : L)
  /-- `spinlock_release: wrong CPU` -/
  | wrongCpu (l : L)
  /-- `intr_on: mismatch` -/
  | mismatch
  deriving DecidableEq

/-- The access a call makes next. -/
inductive SpinPc (L : Type)
  /-- not in a call -/
  | idle
  /-- `spinlock_acquire_bare`: the two loads of the debug check -/
  | acqLocked (l : L)
  | acqOwner (l : L)
  /-- `intr_off()` -/
  | acqOff (l : L)
  /-- `__atomic_exchange_n(&lock->locked, 1, __ATOMIC_ACQUIRE)` -/
  | acqSwap (l : L)
  /-- `wfi` -/
  | acqWait (l : L)
  /-- `lock->owner = r_tp()` -/
  | acqStore (l : L)
  /-- `spinlock_release_bare`: the two loads of the debug checks -/
  | relLocked (l : L)
  | relOwner (l : L)
  /-- `lock->owner = (u64)-1` -/
  | relClear (l : L)
  /-- `__atomic_store_n(&lock->locked, 0, __ATOMIC_RELEASE)` -/
  | relStore (l : L)
  /-- `intr_on()` -/
  | relOn
  /-- `spinlock_holding`: the two loads -/
  | holdLocked (l : L)
  | holdOwner (l : L)
  /-- `spinlock_holding` has returned `b` -/
  | answered (l : L) (b : Bool)
  | panicked (p : SpinPanic L)
  deriving DecidableEq

/-- The code of a thread, or of a handler. -/
structure SpinFlow (L : Type) where
  pc : SpinPc L
  /-- the locks it has taken and not given back -/
  held : List L
  deriving DecidableEq

variable {H L : Type}

def SpinCall.entry : SpinCall L → SpinPc L
  | .acquire l => .acqLocked l
  | .release l => .relLocked l
  | .holding l => .holdLocked l

/-- No call is in progress. -/
def SpinPc.free : SpinPc L → Bool
  | .idle | .answered _ _ => true
  | _ => false

variable [DecidableEq H] [DecidableEq L]

/-- The next access of the code `f` on the hart `me`: what it leaves of the locks, of the depth of
the hart and of the code. -/
def access (me : BitVec 64) (locks : L → Spinlock) (depth : Nat) (f : SpinFlow L) :
    Option ((L → Spinlock) × Nat × SpinFlow L) :=
  match f.pc with
  | .idle | .answered _ _ | .panicked _ => none
  | .acqLocked l =>
      some (locks, depth, ⟨if (locks l).locked ≠ 0 then .acqOwner l else .acqOff l, f.held⟩)
  | .acqOwner l =>
      some (locks, depth,
        ⟨if (locks l).owner = me then .panicked (.recursive l) else .acqOff l, f.held⟩)
  | .acqOff l => some (locks, depth + 1, ⟨.acqSwap l, f.held⟩)
  | .acqSwap l =>
      some (Function.update locks l { locks l with locked := 1 }, depth,
        if (locks l).locked = 0 then ⟨.acqStore l, l :: f.held⟩ else ⟨.acqWait l, f.held⟩)
  | .acqWait l => some (locks, depth, ⟨.acqSwap l, f.held⟩)
  | .acqStore l =>
      some (Function.update locks l { locks l with owner := me }, depth, ⟨.idle, f.held⟩)
  | .relLocked l =>
      some (locks, depth,
        ⟨if (locks l).locked = 0 then .panicked (.unlocked l) else .relOwner l, f.held⟩)
  | .relOwner l =>
      some (locks, depth,
        ⟨if (locks l).owner ≠ me then .panicked (.wrongCpu l) else .relClear l, f.held⟩)
  | .relClear l =>
      some (Function.update locks l { locks l with owner := -1 }, depth, ⟨.relStore l, f.held⟩)
  | .relStore l =>
      some (Function.update locks l { locks l with locked := 0 }, depth, ⟨.relOn, f.held.erase l⟩)
  | .relOn =>
      some (locks, depth - 1, ⟨if depth = 0 then .panicked .mismatch else .idle, f.held⟩)
  | .holdLocked l =>
      some (locks, depth, ⟨if (locks l).locked = 0 then .answered l false else .holdOwner l, f.held⟩)
  | .holdOwner l => some (locks, depth, ⟨.answered l ((locks l).owner = me), f.held⟩)

/-! ## The harts -/

/-- The harts, with what `r_tp()` is on each of them. -/
structure Harts (H : Type) where
  tp : H → BitVec 64
  tp_injective : Function.Injective tp
  tp_ne : ∀ h, tp h ≠ -1

/-- What runs on a hart is `flow`; the code that it has interrupted is `below`. -/
structure SpinMachine (H L : Type) where
  locks : L → Spinlock
  depth : H → Nat
  flow : H → SpinFlow L
  below : H → List (SpinFlow L)

inductive SpinAction (L : Type)
  | call (c : SpinCall L)
  /-- the next access of the call in progress -/
  | exec
  /-- take an interrupt -/
  | interrupt
  /-- return from the handler -/
  | ret
  deriving DecidableEq

/-- A step of a hart. A handler returns when it has given back all that it took. -/
def SpinMachine.next (harts : Harts H) (m : SpinMachine H L) (a : H × SpinAction L) :
    Option (SpinMachine H L) :=
  let h := a.1
  let f := m.flow h
  match a.2 with
  | .call c =>
      if f.pc.free then some { m with flow := Function.update m.flow h ⟨c.entry, f.held⟩ } else none
  | .exec => do
      let (locks, depth, f) ← access (harts.tp h) m.locks (m.depth h) f
      some { m with
        locks, depth := Function.update m.depth h depth, flow := Function.update m.flow h f }
  | .interrupt =>
      if m.depth h = 0 then
        some { m with
          flow := Function.update m.flow h ⟨.idle, []⟩
          below := Function.update m.below h (f :: m.below h) }
      else none
  | .ret =>
      match m.below h with
      | [] => none
      | g :: below =>
          if f.pc.free ∧ f.held = [] then
            some { m with
              flow := Function.update m.flow h g, below := Function.update m.below h below }
          else none

/-- All locks are initialised, and no call has been made. -/
def SpinMachine.start : SpinMachine H L :=
  ⟨fun _ => SPINLOCK_INITIALIZER, fun _ => 0, fun _ => ⟨.idle, []⟩, fun _ => []⟩

/-- A run under the condition `ok` on its steps. -/
abbrev SpinRun (harts : Harts H) (ok : SpinMachine H L → H × SpinAction L → Prop)
    (as : List (H × SpinAction L)) (m : SpinMachine H L) : Prop :=
  Lts.Run (Lts.Steps (SpinMachine.next harts) ok) .start as m

end NoobKernel.Sync
