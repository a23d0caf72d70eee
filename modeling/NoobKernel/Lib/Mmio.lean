import Mathlib.Tactic

set_option autoImplicit false

/-! # Programs that talk to a device

A driver reads and writes registers (`Prog`). Between two of its accesses the device may move on
its own, any number of times, and a read may change it as well (`Device`). A run collects neither
the accesses nor the moves: it relates the state before a program to its result and the state
after it (`Run`). `Ensures` is the weakest precondition for all runs at once, with a rule for
each form of a program; `ensures_iff` says that it is about the runs and nothing else.

Registers that the device's own moves leave alone are read as they were written:
`Device.moves_keep` carries any such part of the state over the moves.
-/

namespace Mmio

/-- A program over registers `R` with values `V`. -/
inductive Prog (R V : Type) (α : Type) : Type
  | done (a : α)
  | read (r : R) (next : V → Prog R V α)
  | write (r : R) (v : V) (next : Prog R V α)

/-- A device with states `S`: what an access does, and the steps it takes by itself. -/
structure Device (R V S : Type) where
  read : S → R → V × S
  write : S → R → V → S
  own : S → S → Prop

variable {R V S α β : Type}

namespace Prog

def bind : Prog R V α → (α → Prog R V β) → Prog R V β
  | done a, f => f a
  | read r next, f => .read r fun v => (next v).bind f
  | write r v next, f => .write r v (next.bind f)

instance : Monad (Prog R V) where
  pure := .done
  bind := bind

end Prog

/-- Reads one register. -/
def load (r : R) : Prog R V V := .read r .done

/-- Writes one register. -/
def store (r : R) (v : V) : Prog R V Unit := .write r v (.done ())

/-- Any number of the device's own steps. -/
abbrev Device.Moves (dev : Device R V S) : S → S → Prop := Relation.ReflTransGen dev.own

theorem Device.moves_keep {dev : Device R V S} {γ : Type} {part : S → γ}
    (own : ∀ s t, dev.own s t → part t = part s) {s t : S} (moves : dev.Moves s t) :
    part t = part s := by
  induction moves with
  | refl => rfl
  | tail _ last ih => exact (own _ _ last).trans ih

/-- The runs of a program with a device. -/
inductive Run (dev : Device R V S) : Prog R V α → S → α → S → Prop
  | done (a : α) (s : S) : Run dev (.done a) s a s
  | read {r : R} {next : V → Prog R V α} {s s₁ t : S} {a : α} (moves : dev.Moves s s₁)
      (rest : Run dev (next (dev.read s₁ r).1) (dev.read s₁ r).2 a t) :
      Run dev (.read r next) s a t
  | write {r : R} {v : V} {next : Prog R V α} {s s₁ t : S} {a : α} (moves : dev.Moves s s₁)
      (rest : Run dev next (dev.write s₁ r v) a t) : Run dev (.write r v next) s a t

/-- Every run of the program from `s` ends with a result and a state in `Q`. -/
def Ensures (dev : Device R V S) : Prog R V α → (α → S → Prop) → S → Prop
  | .done a, Q, s => Q a s
  | .read r next, Q, s =>
      ∀ s₁, dev.Moves s s₁ → Ensures dev (next (dev.read s₁ r).1) Q (dev.read s₁ r).2
  | .write r v next, Q, s => ∀ s₁, dev.Moves s s₁ → Ensures dev next Q (dev.write s₁ r v)

/-- The program, with what the device does by itself before each of the accesses. -/
def exec (dev : Device R V S) (own : Nat → S → S) : Nat → Prog R V α → S → α × S
  | _, .done a, s => (a, s)
  | n, .read r next, s =>
      exec dev own (n + 1) (next (dev.read (own n s) r).1) (dev.read (own n s) r).2
  | n, .write r v next, s => exec dev own (n + 1) next (dev.write (own n s) r v)

variable {dev : Device R V S} {Q Q' : α → S → Prop} {s t : S} {a : α}

theorem run_exec {own : Nat → S → S} (moves : ∀ n s, dev.Moves s (own n s)) (p : Prog R V α)
    (n : Nat) (s : S) : Run dev p s (exec dev own n p s).1 (exec dev own n p s).2 := by
  induction p generalizing n s with
  | done a => exact .done a s
  | read r next ih => exact .read (moves n s) (ih _ _ _)
  | write r v next ih => exact .write (moves n s) (ih _ _)

/-- **What a program ensures is what holds at the end of all its runs.** -/
theorem ensures_iff (p : Prog R V α) :
    Ensures dev p Q s ↔ ∀ a t, Run dev p s a t → Q a t := by
  induction p generalizing s with
  | done a =>
      constructor
      · intro h b t run
        cases run
        exact h
      · exact fun h => h a s (.done a s)
  | read r next ih =>
      constructor
      · intro h b t run
        cases run with
        | read moves rest => exact (ih _).mp (h _ moves) b t rest
      · exact fun h s₁ moves => (ih _).mpr fun b t rest => h b t (.read moves rest)
  | write r v next ih =>
      constructor
      · intro h b t run
        cases run with
        | write moves rest => exact ih.mp (h _ moves) b t rest
      · exact fun h s₁ moves => ih.mpr fun b t rest => h b t (.write moves rest)

/-! ## Rules -/

theorem Ensures.mono {p : Prog R V α} (h : Ensures dev p Q s) (le : ∀ a t, Q a t → Q' a t) :
    Ensures dev p Q' s := by
  rw [ensures_iff] at h ⊢
  exact fun a t run => le a t (h a t run)

theorem ensures_pure : Ensures dev (pure a) Q s ↔ Q a s := Iff.rfl

theorem ensures_bind (p : Prog R V β) (f : β → Prog R V α) :
    Ensures dev (p >>= f) Q s ↔ Ensures dev p (fun b t => Ensures dev (f b) Q t) s := by
  induction p generalizing s with
  | done b => exact Iff.rfl
  | read r next ih => exact forall₂_congr fun s₁ _ => ih _
  | write r v next ih => exact forall₂_congr fun s₁ _ => ih

theorem ensures_load {Q : V → S → Prop} (r : R) :
    Ensures dev (load r) Q s ↔ ∀ s₁, dev.Moves s s₁ → Q (dev.read s₁ r).1 (dev.read s₁ r).2 :=
  Iff.rfl

theorem ensures_store {Q : Unit → S → Prop} (r : R) (v : V) :
    Ensures dev (store r v) Q s ↔ ∀ s₁, dev.Moves s s₁ → Q () (dev.write s₁ r v) :=
  Iff.rfl

end Mmio
