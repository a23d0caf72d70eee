import Mathlib.Tactic

set_option autoImplicit false

/-! # Copying from the output

A back-reference of a dictionary coder copies `n` elements from `off` places before the end of
what has been written, one by one, so that it may run into its own output. `copyBack_take` is
what a coder relies on: if a sequence repeats itself at distance `off`, the copy extends one of
its prefixes to a longer one. `copyBack_of_le` is the case without overlap.
-/

namespace BackCopy

variable {α : Type}

def copyBack (off : Nat) : Nat → List α → List α
  | 0, dst => dst
  | n + 1, dst => copyBack off n (dst ++ (dst[dst.length - off]?).toList)

theorem copyBack_add (off m n : Nat) (dst : List α) :
    copyBack off (m + n) dst = copyBack off n (copyBack off m dst) := by
  induction m generalizing dst with
  | zero => rw [Nat.zero_add, copyBack]
  | succ m ih =>
      rw [Nat.succ_add, copyBack, copyBack]
      exact ih _

/-- **Repetition.** -/
theorem copyBack_take {l : List α} {p off n : Nat} (hpos : 1 ≤ off) (hoff : off ≤ p)
    (hlen : p + n ≤ l.length) (hrep : ∀ k < n, l[p + k - off]? = l[p + k]?) :
    copyBack off n (l.take p) = l.take (p + n) := by
  induction n generalizing p with
  | zero => rfl
  | succ n ih =>
      have hlast : (l.take p).length = p := by
        rw [List.length_take]
        omega
      have hnext : (l.take p)[p - off]? = l[p]? := by
        rw [List.getElem?_take_of_lt (by omega)]
        exact hrep 0 (Nat.succ_pos n)
      rw [copyBack, hlast, hnext, ← List.take_add_one,
        ih (p := p + 1) (by omega) (by omega) (fun k hk => ?_)]
      · congr 1
        omega
      · have := hrep (k + 1) (by omega)
        rwa [← Nat.add_assoc, Nat.add_right_comm] at this

/-- A copy that does not reach its own output. -/
theorem copyBack_of_le {off n : Nat} {dst : List α} (hn : n ≤ off) (hoff : off ≤ dst.length) :
    copyBack off n dst = dst ++ (dst.drop (dst.length - off)).take n := by
  rcases Nat.eq_zero_or_pos off with rfl | hpos
  · obtain rfl : n = 0 := by omega
    simp [copyBack]
  -- the copy repeats `dst` at distance `off`
  have hlen : ((dst.drop (dst.length - off)).take n).length = n := by
    rw [List.length_take, List.length_drop]
    omega
  have h := @copyBack_take α (dst ++ (dst.drop (dst.length - off)).take n) dst.length off n hpos
    hoff (by rw [List.length_append, hlen]) ?_
  · rwa [List.take_left', List.take_of_length_le (by rw [List.length_append, hlen])] at h
    rfl
  · intro k hk
    rw [List.getElem?_append_left (by omega), List.getElem?_append_right (by omega),
      Nat.add_sub_cancel_left, List.getElem?_take_of_lt hk, List.getElem?_drop]
    congr 1
    omega

theorem length_copyBack {off n : Nat} {dst : List α} (hpos : 1 ≤ off) (hoff : off ≤ dst.length) :
    (copyBack off n dst).length = dst.length + n := by
  induction n generalizing dst with
  | zero => rfl
  | succ n ih =>
      have hlt : dst.length - off < dst.length := by omega
      have hsome : dst[dst.length - off]? = some dst[dst.length - off] :=
        List.getElem?_eq_getElem _
      rw [copyBack, hsome, Option.toList_some, ih]
      · simp
        omega
      · simp
        omega

end BackCopy
