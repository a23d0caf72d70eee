import NoobKernel.Sync.Spinlock

set_option autoImplicit false

/-! # What holds of a spin lock in every run

`SpinInv` is about the points between two accesses. A lock that some hart holds has `locked` set and
that hart as its owner, but for the two windows next to the exchange and the last store; every other
lock is as it was initialised. The depth of a hart is the number of its locks and of its open calls
(`SpinFlow.weight`), so code that is interrupted holds no lock.
-/

namespace NoobKernel.Sync

variable {H L : Type}

/-- `intr_off` has been called for a lock that is not taken yet, or not given back any more. -/
def SpinPc.open : SpinPc L → Nat
  | .acqSwap _ | .acqWait _ | .relOn => 1
  | _ => 0

def SpinFlow.weight (f : SpinFlow L) : Nat := f.held.length + f.pc.open

/-- The code is between the check and the exchange of an acquisition. -/
def SpinPc.Taking (pc : SpinPc L) (l : L) : Prop := pc = .acqOff l ∨ pc = .acqSwap l ∨ pc = .acqWait l

/-- The owner of the lock is not stored yet, or not any more. -/
def SpinPc.Unmarked (pc : SpinPc L) (l : L) : Prop := pc = .acqStore l ∨ pc = .relStore l

instance [DecidableEq L] (pc : SpinPc L) (l : L) : Decidable (pc.Unmarked l) :=
  inferInstanceAs (Decidable (_ ∨ _))

/-- The calls that may not be made: to take a lock that the code holds, and to give back one that it
does not hold. -/
def SpinCall.Misuse (held : List L) : SpinCall L → Prop
  | .acquire l => l ∈ held
  | .release l => l ∉ held
  | .holding _ => False

/-- The call that has ended in a panic. -/
def SpinPanic.call : SpinPanic L → Option (SpinCall L)
  | .recursive l => some (.acquire l)
  | .unlocked l | .wrongCpu l => some (.release l)
  | .mismatch => none

variable [DecidableEq L]

/-- What the locks held say about the point the code has reached. -/
def SpinPc.Ok (held : List L) : SpinPc L → Prop
  | .acqOff l | .acqSwap l | .acqWait l => l ∉ held
  | .acqStore l | .relClear l | .relStore l => l ∈ held
  | .answered l b => b = decide (l ∈ held)
  | .panicked p => ∃ c, p.call = some c ∧ c.Misuse held
  | _ => True

structure SpinFlow.Ok (f : SpinFlow L) : Prop where
  nodup : f.held.Nodup
  pc : f.pc.Ok f.held

/-- A lock that is held by code at `pc` on the hart `me`. -/
def Spinlock.taken (me : BitVec 64) (pc : SpinPc L) (l : L) : Spinlock :=
  ⟨1, if pc.Unmarked l then -1 else me⟩

structure SpinInv (harts : Harts H) (m : SpinMachine H L) : Prop where
  flow : ∀ h, (m.flow h).Ok
  below : ∀ h, ∀ f ∈ m.below h, f.Ok ∧ f.weight = 0
  depth : ∀ h, m.depth h = (m.flow h).weight
  taken : ∀ h l, l ∈ (m.flow h).held → m.locks l = .taken (harts.tp h) (m.flow h).pc l
  free : ∀ l, (∀ h, l ∉ (m.flow h).held) → m.locks l = SPINLOCK_INITIALIZER
  exclusive : ∀ h h' l, l ∈ (m.flow h).held → l ∈ (m.flow h').held → h = h'

variable {harts : Harts H} {m m' : SpinMachine H L} {h : H} {l : L}

theorem spinInv_start : SpinInv harts (.start : SpinMachine H L) :=
  ⟨fun _ => ⟨List.nodup_nil, trivial⟩, fun _ _ hf => (List.not_mem_nil hf).elim, fun _ => rfl,
    fun _ _ hl => (List.not_mem_nil hl).elim, fun _ _ => rfl,
    fun _ _ _ hl => (List.not_mem_nil hl).elim⟩

/-! ## Reading a lock -/

section Reading

variable (inv : SpinInv harts m)

include inv

theorem SpinInv.locked_eq (hl : l ∈ (m.flow h).held) : (m.locks l).locked = 1 := by
  rw [inv.taken h l hl]
  rfl

theorem SpinInv.owner_eq (hl : l ∈ (m.flow h).held) (hpc : ¬ (m.flow h).pc.Unmarked l) :
    (m.locks l).owner = harts.tp h := by
  rw [inv.taken h l hl, Spinlock.taken, if_neg hpc]

/-- A hart finds itself as the owner of its own locks only. -/
theorem SpinInv.owner_ne (hl : l ∉ (m.flow h).held) : (m.locks l).owner ≠ harts.tp h := by
  by_cases hother : ∃ h', l ∈ (m.flow h').held
  · obtain ⟨h', hl'⟩ := hother
    rw [inv.taken h' l hl', Spinlock.taken]
    dsimp only
    split
    · exact (harts.tp_ne h).symm
    · intro heq
      rw [harts.tp_injective heq] at hl'
      exact hl hl'
  · rw [inv.free l fun h' hl' => hother ⟨h', hl'⟩]
    exact (harts.tp_ne h).symm

/-- Where `locked` is clear, no hart holds the lock. -/
theorem SpinInv.not_held (hlocked : (m.locks l).locked = 0) (h' : H) : l ∉ (m.flow h').held := by
  intro hl'
  rw [inv.locked_eq hl'] at hlocked
  exact absurd hlocked (by decide)

end Reading

/-! ## Steps -/

variable [DecidableEq H]

/-- The machine after a step of `h`, which leaves it at `f`. -/
def SpinMachine.after (m : SpinMachine H L) (h : H) (locks : L → Spinlock) (depth : Nat)
    (f : SpinFlow L) : SpinMachine H L :=
  { m with
    locks, depth := Function.update m.depth h depth, flow := Function.update m.flow h f }

section After

variable (locks : L → Spinlock) (depth : Nat) (f : SpinFlow L)

omit [DecidableEq L]

@[simp] theorem after_flow_self : (m.after h locks depth f).flow h = f := by
  simp [SpinMachine.after]

theorem after_flow_of_ne {h' : H} (hne : h' ≠ h) :
    (m.after h locks depth f).flow h' = m.flow h' := by
  simp [SpinMachine.after, hne]

@[simp] theorem after_depth_self : (m.after h locks depth f).depth h = depth := by
  simp [SpinMachine.after]

theorem after_depth_of_ne {h' : H} (hne : h' ≠ h) :
    (m.after h locks depth f).depth h' = m.depth h' := by
  simp [SpinMachine.after, hne]

end After

/-- **Frame.** A step of one hart keeps the invariant if the locks it holds then are taken, those it
has given back are free, those it has taken were free, and all others are as before. -/
theorem SpinInv.after (inv : SpinInv harts m) {locks : L → Spinlock} {depth : Nat} {f : SpinFlow L}
    (hok : f.Ok) (hdepth : depth = f.weight)
    (htaken : ∀ l ∈ f.held, locks l = .taken (harts.tp h) f.pc l)
    (hback : ∀ l ∈ (m.flow h).held, l ∉ f.held → locks l = SPINLOCK_INITIALIZER)
    (hnew : ∀ l ∈ f.held, l ∉ (m.flow h).held → (m.locks l).locked = 0)
    (hsame : ∀ l, l ∉ (m.flow h).held → l ∉ f.held → locks l = m.locks l) :
    SpinInv harts (m.after h locks depth f) := by
  -- a lock that another hart holds is not among those of `h`, before and after
  have hother : ∀ h' l, h' ≠ h → l ∈ (m.flow h').held → l ∉ (m.flow h).held ∧ l ∉ f.held := by
    intro h' l hne hl'
    have hnot : l ∉ (m.flow h).held := fun hl => hne (inv.exclusive h' h l hl' hl)
    exact ⟨hnot, fun hl => inv.not_held (hnew l hl hnot) h' hl'⟩
  refine ⟨fun h' => ?_, inv.below, fun h' => ?_, fun h' l hl => ?_, fun l hl => ?_,
    fun h' h'' l hl' hl'' => ?_⟩
  · by_cases heq : h' = h
    · rw [heq, after_flow_self]
      exact hok
    · rw [after_flow_of_ne _ _ _ heq]
      exact inv.flow h'
  · by_cases heq : h' = h
    · rw [heq, after_flow_self, after_depth_self]
      exact hdepth
    · rw [after_flow_of_ne _ _ _ heq, after_depth_of_ne _ _ _ heq]
      exact inv.depth h'
  · by_cases heq : h' = h
    · rw [heq, after_flow_self] at hl ⊢
      exact htaken l hl
    · rw [after_flow_of_ne _ _ _ heq] at hl ⊢
      obtain ⟨hnot, hnot'⟩ := hother h' l heq hl
      exact (hsame l hnot hnot').trans (inv.taken h' l hl)
  · have hself := hl h
    rw [after_flow_self] at hself
    by_cases hhad : l ∈ (m.flow h).held
    · exact hback l hhad hself
    · refine (hsame l hhad hself).trans (inv.free l fun h' => ?_)
      by_cases heq : h' = h
      · rwa [heq]
      · have hrest := hl h'
        rwa [after_flow_of_ne _ _ _ heq] at hrest
  · by_cases heq' : h' = h <;> by_cases heq'' : h'' = h
    · rw [heq', heq'']
    · rw [after_flow_of_ne _ _ _ heq''] at hl''
      rw [heq', after_flow_self] at hl'
      exact absurd hl' (hother h'' l heq'' hl'').2
    · rw [after_flow_of_ne _ _ _ heq'] at hl'
      rw [heq'', after_flow_self] at hl''
      exact absurd hl'' (hother h' l heq' hl').2
    · rw [after_flow_of_ne _ _ _ heq'] at hl'
      rw [after_flow_of_ne _ _ _ heq''] at hl''
      exact inv.exclusive h' h'' l hl' hl''

/-- A step that moves on without a change of the locks that it holds. -/
theorem SpinInv.moved (inv : SpinInv harts m) {depth : Nat} {pc : SpinPc L}
    (hok : pc.Ok (m.flow h).held) (hdepth : depth = (m.flow h).held.length + pc.open)
    (hmark : ∀ l ∈ (m.flow h).held, pc.Unmarked l ↔ (m.flow h).pc.Unmarked l) :
    SpinInv harts (m.after h m.locks depth ⟨pc, (m.flow h).held⟩) := by
  refine inv.after ⟨(inv.flow h).nodup, hok⟩ hdepth (fun l hl => ?_)
    (fun l hl hnot => absurd hl hnot) (fun l hl hnot => absurd hl hnot) fun l _ _ => rfl
  have hiff := hmark l hl
  rw [inv.taken h l hl, Spinlock.taken, Spinlock.taken]
  simp only [hiff]

/-- A step that stores the owner of a lock that is held. -/
theorem SpinInv.stored (inv : SpinInv harts m) {owner : BitVec 64} {pc : SpinPc L}
    (hheld : l ∈ (m.flow h).held) (hok : pc.Ok (m.flow h).held)
    (hdepth : m.depth h = (m.flow h).held.length + pc.open)
    (howner : owner = if pc.Unmarked l then -1 else harts.tp h)
    (hmark : ∀ l', l' ≠ l → ¬ pc.Unmarked l' ∧ ¬ (m.flow h).pc.Unmarked l') :
    SpinInv harts (m.after h (Function.update m.locks l { m.locks l with owner }) (m.depth h)
      ⟨pc, (m.flow h).held⟩) := by
  refine inv.after ⟨(inv.flow h).nodup, hok⟩ hdepth (fun l' hl' => ?_)
    (fun l' hl' hnot => absurd hl' hnot) (fun l' hl' hnot => absurd hl' hnot) fun l' hnot _ => ?_
  · by_cases heq : l' = l
    · rw [heq, Function.update_self, inv.taken h l hheld, howner]
      rfl
    · obtain ⟨hpc, hpc'⟩ := hmark l' heq
      rw [Function.update_of_ne heq, inv.taken h l' hl', Spinlock.taken, Spinlock.taken, if_neg hpc,
        if_neg hpc']
  · rw [Function.update_of_ne]
    rintro rfl
    exact hnot hheld

/-- **One access** of a call keeps the invariant. -/
theorem SpinInv.access (inv : SpinInv harts m) {locks : L → Spinlock} {depth : Nat} {f : SpinFlow L}
    (hstep : access (harts.tp h) m.locks (m.depth h) (m.flow h) = some (locks, depth, f)) :
    SpinInv harts (m.after h locks depth f) := by
  have hdepth := inv.depth h
  have hok := (inv.flow h).pc
  rw [SpinFlow.weight] at hdepth
  cases hpc : (m.flow h).pc with
  | idle => simp [Sync.access, hpc] at hstep
  | answered l b => simp [Sync.access, hpc] at hstep
  | panicked p => simp [Sync.access, hpc] at hstep
  | acqLocked l =>
      simp only [Sync.access, hpc, Option.some.injEq, Prod.mk.injEq] at hstep
      obtain ⟨rfl, rfl, rfl⟩ := hstep
      rw [hpc] at hdepth
      split
      · exact inv.moved trivial hdepth fun l' _ => by simp [SpinPc.Unmarked, hpc]
      · rename_i hlocked
        have hnot := inv.not_held (not_not.mp hlocked) h
        exact inv.moved hnot hdepth fun l' _ => by simp [SpinPc.Unmarked, hpc]
  | acqOwner l =>
      simp only [Sync.access, hpc, Option.some.injEq, Prod.mk.injEq] at hstep
      obtain ⟨rfl, rfl, rfl⟩ := hstep
      have hmark : ¬ (m.flow h).pc.Unmarked l := by simp [SpinPc.Unmarked, hpc]
      rw [hpc] at hdepth
      split
      · rename_i howner
        have hheld : l ∈ (m.flow h).held := by
          by_contra hnot
          exact inv.owner_ne hnot howner
        exact inv.moved ⟨_, rfl, hheld⟩ hdepth fun l' _ => by simp [SpinPc.Unmarked, hpc]
      · rename_i howner
        have hnot : l ∉ (m.flow h).held := fun hheld => howner (inv.owner_eq hheld hmark)
        exact inv.moved hnot hdepth fun l' _ => by simp [SpinPc.Unmarked, hpc]
  | acqOff l =>
      simp only [Sync.access, hpc, Option.some.injEq, Prod.mk.injEq] at hstep
      obtain ⟨rfl, rfl, rfl⟩ := hstep
      rw [hpc] at hdepth hok
      refine inv.moved hok ?_ fun l' _ => by simp [SpinPc.Unmarked, hpc]
      rw [hdepth]
      rfl
  | acqSwap l =>
      simp only [Sync.access, hpc, Option.some.injEq, Prod.mk.injEq] at hstep
      obtain ⟨rfl, rfl, rfl⟩ := hstep
      rw [hpc] at hdepth hok
      split
      · rename_i hlocked
        have hfree := inv.free l (inv.not_held hlocked)
        refine inv.after ⟨List.nodup_cons.mpr ⟨hok, (inv.flow h).nodup⟩, List.mem_cons_self⟩ hdepth
          (fun l' hl' => ?_) (fun l' hl' hnot => absurd (List.mem_cons_of_mem l hl') hnot)
          (fun l' hl' hnot => ?_) fun l' _ hnot => ?_
        · by_cases heq : l' = l
          · rw [heq, Function.update_self, hfree]
            simp [Spinlock.taken, SpinPc.Unmarked, SPINLOCK_INITIALIZER]
          · rw [Function.update_of_ne heq]
            have hhad := (List.mem_cons.mp hl').resolve_left heq
            rw [inv.taken h l' hhad]
            simp [Spinlock.taken, SpinPc.Unmarked, hpc, Ne.symm heq]
        · obtain rfl := (List.mem_cons.mp hl').resolve_right hnot
          exact hlocked
        · rw [Function.update_of_ne]
          rintro rfl
          exact hnot List.mem_cons_self
      · rename_i hlocked
        -- the exchange has left the lock as it was
        have hsame : Function.update m.locks l { m.locks l with locked := 1 } = m.locks := by
          have hheld : ∃ h', l ∈ (m.flow h').held := by
            by_contra hnone
            rw [inv.free l fun h' hl' => hnone ⟨h', hl'⟩] at hlocked
            exact hlocked rfl
          obtain ⟨h', hl'⟩ := hheld
          rw [inv.taken h' l hl']
          exact Function.update_eq_self_iff.mpr (inv.taken h' l hl').symm
        rw [hsame]
        exact inv.moved hok hdepth fun l' _ => by simp [SpinPc.Unmarked, hpc]
  | acqWait l =>
      simp only [Sync.access, hpc, Option.some.injEq, Prod.mk.injEq] at hstep
      obtain ⟨rfl, rfl, rfl⟩ := hstep
      rw [hpc] at hdepth hok
      exact inv.moved hok hdepth fun l' _ => by simp [SpinPc.Unmarked, hpc]
  | acqStore l =>
      simp only [Sync.access, hpc, Option.some.injEq, Prod.mk.injEq] at hstep
      obtain ⟨rfl, rfl, rfl⟩ := hstep
      rw [hpc] at hdepth hok
      refine inv.stored hok trivial hdepth ?_ fun l' hne => ?_
      · rw [if_neg (by simp [SpinPc.Unmarked])]
      · simp [SpinPc.Unmarked, hpc, Ne.symm hne]
  | relLocked l =>
      simp only [Sync.access, hpc, Option.some.injEq, Prod.mk.injEq] at hstep
      obtain ⟨rfl, rfl, rfl⟩ := hstep
      rw [hpc] at hdepth
      split
      · rename_i hlocked
        exact inv.moved ⟨_, rfl, inv.not_held hlocked h⟩ hdepth fun l' _ => by
          simp [SpinPc.Unmarked, hpc]
      · exact inv.moved trivial hdepth fun l' _ => by simp [SpinPc.Unmarked, hpc]
  | relOwner l =>
      simp only [Sync.access, hpc, Option.some.injEq, Prod.mk.injEq] at hstep
      obtain ⟨rfl, rfl, rfl⟩ := hstep
      have hmark : ¬ (m.flow h).pc.Unmarked l := by simp [SpinPc.Unmarked, hpc]
      rw [hpc] at hdepth
      split
      · rename_i howner
        have hnot : l ∉ (m.flow h).held := fun hheld => howner (inv.owner_eq hheld hmark)
        exact inv.moved ⟨_, rfl, hnot⟩ hdepth fun l' _ => by simp [SpinPc.Unmarked, hpc]
      · rename_i howner
        have hheld : l ∈ (m.flow h).held := by
          by_contra hnot
          exact inv.owner_ne hnot (not_not.mp howner)
        exact inv.moved hheld hdepth fun l' _ => by simp [SpinPc.Unmarked, hpc]
  | relClear l =>
      simp only [Sync.access, hpc, Option.some.injEq, Prod.mk.injEq] at hstep
      obtain ⟨rfl, rfl, rfl⟩ := hstep
      rw [hpc] at hdepth hok
      refine inv.stored hok hok hdepth ?_ fun l' hne => ?_
      · rw [if_pos (.inr rfl)]
      · simp [SpinPc.Unmarked, hpc, Ne.symm hne]
  | relStore l =>
      simp only [Sync.access, hpc, Option.some.injEq, Prod.mk.injEq] at hstep
      obtain ⟨rfl, rfl, rfl⟩ := hstep
      rw [hpc] at hdepth hok
      have hnodup := (inv.flow h).nodup
      refine inv.after ⟨hnodup.erase l, trivial⟩ ?_ (fun l' hl' => ?_) (fun l' hl' hnot => ?_)
        (fun l' hl' hnot => absurd (List.mem_of_mem_erase hl') hnot) fun l' hnot _ => ?_
      · have hlen := List.length_erase_add_one hok
        simp only [SpinPc.open] at hdepth
        rw [hdepth, ← hlen, SpinFlow.weight]
        rfl
      · obtain ⟨hne, hhad⟩ := hnodup.mem_erase_iff.mp hl'
        rw [Function.update_of_ne hne, inv.taken h l' hhad]
        simp [Spinlock.taken, SpinPc.Unmarked, hpc, Ne.symm hne]
      · have heq : l' = l := by
          by_contra hne
          exact hnot (hnodup.mem_erase_iff.mpr ⟨hne, hl'⟩)
        rw [heq, Function.update_self, inv.taken h l hok, hpc]
        simp [Spinlock.taken, SpinPc.Unmarked, SPINLOCK_INITIALIZER]
      · rw [Function.update_of_ne]
        rintro rfl
        exact hnot hok
  | relOn =>
      simp only [Sync.access, hpc, Option.some.injEq, Prod.mk.injEq] at hstep
      obtain ⟨rfl, rfl, rfl⟩ := hstep
      rw [hpc] at hdepth
      simp only [SpinPc.open] at hdepth
      rw [if_neg (by omega)]
      refine inv.moved trivial ?_ fun l' _ => by simp [SpinPc.Unmarked, hpc]
      rw [hdepth]
      rfl
  | holdLocked l =>
      simp only [Sync.access, hpc, Option.some.injEq, Prod.mk.injEq] at hstep
      obtain ⟨rfl, rfl, rfl⟩ := hstep
      rw [hpc] at hdepth
      split
      · rename_i hlocked
        have hnot := inv.not_held hlocked h
        refine inv.moved ?_ hdepth fun l' _ => by simp [SpinPc.Unmarked, hpc]
        simp [SpinPc.Ok, hnot]
      · exact inv.moved trivial hdepth fun l' _ => by simp [SpinPc.Unmarked, hpc]
  | holdOwner l =>
      simp only [Sync.access, hpc, Option.some.injEq, Prod.mk.injEq] at hstep
      obtain ⟨rfl, rfl, rfl⟩ := hstep
      have hmark : ¬ (m.flow h).pc.Unmarked l := by simp [SpinPc.Unmarked, hpc]
      rw [hpc] at hdepth
      refine inv.moved ?_ hdepth fun l' _ => by simp [SpinPc.Unmarked, hpc]
      by_cases hheld : l ∈ (m.flow h).held
      · simp [SpinPc.Ok, hheld, inv.owner_eq hheld hmark]
      · simp [SpinPc.Ok, hheld, inv.owner_ne hheld]

/-! ## Runs -/

section Free

omit [DecidableEq L]

theorem SpinPc.free_open {pc : SpinPc L} (hfree : pc.free = true) : pc.open = 0 := by
  cases pc <;> first | rfl | cases hfree

theorem SpinPc.free_unmarked {pc : SpinPc L} (hfree : pc.free = true) (l : L) : ¬ pc.Unmarked l := by
  rintro (rfl | rfl) <;> cases hfree

theorem SpinFlow.weight_eq_zero {f : SpinFlow L} : f.weight = 0 ↔ f.held = [] ∧ f.pc.open = 0 := by
  rw [SpinFlow.weight, Nat.add_eq_zero_iff, List.length_eq_zero_iff]

end Free

/-- A call is made by code that is not in one. -/
theorem SpinInv.call (inv : SpinInv harts m) {c : SpinCall L} (hfree : (m.flow h).pc.free = true) :
    SpinInv harts { m with flow := Function.update m.flow h ⟨c.entry, (m.flow h).held⟩ } := by
  have hdepth := inv.depth h
  rw [SpinFlow.weight, SpinPc.free_open hfree] at hdepth
  have hmoved : SpinInv harts (m.after h m.locks (m.depth h) ⟨c.entry, (m.flow h).held⟩) := by
    refine inv.moved ?_ ?_ fun l _ => iff_of_false ?_ (SpinPc.free_unmarked hfree l)
    · cases c <;> trivial
    · rw [hdepth]
      cases c <;> rfl
    · cases c <;> simp [SpinPc.Unmarked, SpinCall.entry]
  rwa [SpinMachine.after, Function.update_eq_self] at hmoved

/-- What runs changes to other code, where neither holds a lock. -/
theorem SpinInv.switch (inv : SpinInv harts m) {f : SpinFlow L} {below : List (SpinFlow L)}
    (hnow : (m.flow h).weight = 0) (hok : f.Ok) (hf : f.weight = 0)
    (hbelow : ∀ g ∈ below, g.Ok ∧ g.weight = 0) :
    SpinInv harts { m with
      flow := Function.update m.flow h f, below := Function.update m.below h below } := by
  have hheld := (SpinFlow.weight_eq_zero.mp hnow).1
  have hheld' := (SpinFlow.weight_eq_zero.mp hf).1
  have hafter : SpinInv harts (m.after h m.locks (m.depth h) f) := by
    refine inv.after hok (((inv.depth h).trans hnow).trans hf.symm) ?_ ?_ ?_ fun _ _ _ => rfl
    · simp [hheld']
    · simp [hheld]
    · simp [hheld']
  rw [SpinMachine.after, Function.update_eq_self] at hafter
  refine ⟨hafter.flow, fun h' g hg => ?_, hafter.depth, hafter.taken, hafter.free, hafter.exclusive⟩
  by_cases heq : h' = h
  · rw [heq] at hg
    simp only [Function.update_self] at hg
    exact hbelow g hg
  · simp only [Function.update_of_ne heq] at hg
    exact inv.below h' g hg

theorem SpinInv.next (inv : SpinInv harts m) {a : H × SpinAction L}
    (hstep : m.next harts a = some m') : SpinInv harts m' := by
  obtain ⟨h, a⟩ := a
  cases a with
  | call c =>
      simp only [SpinMachine.next, Option.ite_none_right_eq_some, Option.some.injEq] at hstep
      obtain ⟨hfree, rfl⟩ := hstep
      exact inv.call hfree
  | exec =>
      simp only [SpinMachine.next, Option.bind_eq_bind, Option.bind_eq_some_iff,
        Option.some.injEq] at hstep
      obtain ⟨⟨locks, depth, f⟩, hacc, rfl⟩ := hstep
      exact inv.access hacc
  | interrupt =>
      simp only [SpinMachine.next, Option.ite_none_right_eq_some, Option.some.injEq] at hstep
      obtain ⟨hdepth, rfl⟩ := hstep
      have hnow := (inv.depth h).symm.trans hdepth
      refine inv.switch hnow ⟨List.nodup_nil, trivial⟩ rfl fun g hg => ?_
      rcases List.mem_cons.mp hg with rfl | hg
      · exact ⟨inv.flow h, hnow⟩
      · exact inv.below h g hg
  | ret =>
      simp only [SpinMachine.next] at hstep
      split at hstep
      · cases hstep
      · rename_i g below hbelow
        simp only [Option.ite_none_right_eq_some, Option.some.injEq] at hstep
        obtain ⟨⟨hfree, hheld⟩, rfl⟩ := hstep
        have hrest := inv.below h
        rw [hbelow] at hrest
        obtain ⟨hok, hg⟩ := hrest g List.mem_cons_self
        exact inv.switch (SpinFlow.weight_eq_zero.mpr ⟨hheld, SpinPc.free_open hfree⟩) hok hg
          fun g' hg' => hrest g' (List.mem_cons_of_mem g hg')

theorem SpinInv.run {ok : SpinMachine H L → H × SpinAction L → Prop}
    {as : List (H × SpinAction L)} (run : SpinRun harts ok as m) : SpinInv harts m := by
  refine run.invariant spinInv_start ?_
  rintro s e t inv ⟨a, -, -, hstep⟩
  exact inv.next hstep

end NoobKernel.Sync
