import Mathlib.Data.UInt
import Mathlib.Tactic

set_option autoImplicit false

/-! # Counts modulo `2 ^ 32`

A list of objects as a count for each of them, in a machine word. Counts that go up for the objects
of one list and down for those of another are the same in the end when the two have each object
equally often (`tally_eq_iff`). A list of moves that leads from `a` to `b` enters `b` once more
than it leaves it, and `a` once less, and the others equally often (`Moves.tally_eq`).
-/

namespace Tally

variable {A : Type} [DecidableEq A]

def tally (xs : List A) (a : A) : UInt32 := UInt32.ofNat (xs.count a)

variable {xs ys : List A} {a b c : A}

@[simp] theorem tally_nil (a : A) : tally [] a = 0 := rfl

theorem tally_append (xs ys : List A) (a : A) : tally (xs ++ ys) a = tally xs a + tally ys a := by
  rw [tally, List.count_append, UInt32.ofNat_add]
  rfl

theorem tally_cons (x : A) (xs : List A) (a : A) : tally (x :: xs) a = tally [x] a + tally xs a :=
  tally_append [x] xs a

theorem tally_singleton (x a : A) : tally [x] a = if a = x then 1 else 0 := by
  rw [tally, List.count_singleton]
  by_cases h : a = x
  · rw [if_pos h, if_pos (beq_iff_eq.mpr h.symm)]
    rfl
  · rw [if_neg h, if_neg fun heq => h (beq_iff_eq.mp heq).symm]
    rfl

theorem ofNat_eq_ofNat_iff {m n : Nat} : UInt32.ofNat m = UInt32.ofNat n ↔ m ≡ n [MOD 2 ^ 32] := by
  rw [← UInt32.toNat_inj, UInt32.toNat_ofNat', UInt32.toNat_ofNat']
  exact Iff.rfl

theorem tally_eq_iff : tally xs a = tally ys a ↔ xs.count a ≡ ys.count a [MOD 2 ^ 32] :=
  ofNat_eq_ofNat_iff

/-- The moves lead from the first object to the second. -/
def Moves : A → List (A × A) → A → Prop
  | a, [], b => a = b
  | a, m :: ms, b => m.1 = a ∧ Moves m.2 ms b

omit [DecidableEq A] in
theorem Moves.perm {ms : List (A × A)} (h : Moves a ms b) :
    (b :: ms.map Prod.fst).Perm (a :: ms.map Prod.snd) := by
  induction ms generalizing a with
  | nil =>
      obtain rfl : a = b := h
      exact .refl _
  | cons m ms ih =>
      obtain ⟨rfl, htail⟩ := h
      exact (List.Perm.swap _ _ _).trans ((ih htail).cons _)

omit [DecidableEq A] in
theorem Moves.append {ms ms' : List (A × A)} (h : Moves a ms b) (h' : Moves b ms' c) :
    Moves a (ms ++ ms') c := by
  induction ms generalizing a with
  | nil =>
      obtain rfl : a = b := h
      exact h'
  | cons m ms ih => exact ⟨h.1, ih h.2⟩

omit [DecidableEq A] in
theorem Moves.getLastD_eq {ms : List (A × A)} (h : Moves a ms b) :
    (ms.map Prod.snd).getLastD a = b := by
  induction ms generalizing a with
  | nil => exact h
  | cons m ms ih =>
      rw [List.map_cons, List.getLastD_cons]
      exact ih h.2

theorem Moves.tally_eq {ms : List (A × A)} (h : Moves a ms b) (c : A) :
    tally [b] c + tally (ms.map Prod.fst) c = tally [a] c + tally (ms.map Prod.snd) c := by
  rw [← tally_append, ← tally_append, tally, tally]
  exact congrArg UInt32.ofNat (h.perm.count_eq c)

omit [DecidableEq A] in
/-- Moves that lead nowhere up, and leave each object as often as they enter it, lead nowhere
down. -/
theorem rank_eq_of_perm {ms : List (A × A)} {rank : A → Nat}
    (hperm : (ms.map Prod.fst).Perm (ms.map Prod.snd)) (hle : ∀ m ∈ ms, rank m.2 ≤ rank m.1) :
    ∀ m ∈ ms, rank m.2 = rank m.1 := by
  intro m hm
  by_contra hne
  have hlt : (ms.map fun m => rank m.2).sum < (ms.map fun m => rank m.1).sum :=
    List.sum_lt_sum _ _ hle ⟨m, hm, lt_of_le_of_ne (hle m hm) hne⟩
  have hsum := (hperm.map rank).sum_eq
  rw [List.map_map, List.map_map] at hsum
  exact hlt.ne' hsum

end Tally
