import Mathlib.Tactic
import Mathlib.Data.List.Iterate

set_option autoImplicit false

/-! # Rings with free-running indices, and chains of cells

Two list views of array storage.

* A ring of `n` slots is filled at a producer index and drained at a consumer index; both
  indices run freely and are reduced only when a slot is addressed. The `window` between
  them is the queue the ring stands for. Indices held in a machine word of `w` values may
  wrap as long as `n` divides `w` (`window_mod`).
* A singly linked list of cells is the iteration of the link function from the first cell
  (`List.iterate`). It depends on the links of its own cells only (`iterate_congr`).
-/

namespace Ring

variable {α β : Type}

/-- The `k` entries of the ring from the free-running index `a` on. -/
def window (ring : Nat → α) (n a k : Nat) : List α :=
  (List.range k).map fun i => ring ((a + i) % n)

@[simp] theorem length_window (ring : Nat → α) (n a k : Nat) : (window ring n a k).length = k := by
  simp [window]

@[simp] theorem window_zero (ring : Nat → α) (n a : Nat) : window ring n a 0 = [] := rfl

/-- The oldest entry is the one at the consumer index. -/
theorem window_succ (ring : Nat → α) (n a k : Nat) :
    window ring n a (k + 1) = ring (a % n) :: window ring n (a + 1) k := by
  unfold window
  rw [List.range_succ_eq_map, List.map_cons, List.map_map, Nat.add_zero]
  congr 2
  funext i
  show ring ((a + (i + 1)) % n) = ring ((a + 1 + i) % n)
  congr 2
  omega

/-- Only the residue of the consumer index matters, so it may wrap at any multiple of the
number of slots. -/
theorem window_mod {n w : Nat} (hdvd : n ∣ w) (ring : Nat → α) (a k : Nat) :
    window ring n (a % w) k = window ring n a k := by
  unfold window
  congr 1
  funext i
  rw [Nat.add_mod, Nat.mod_mod_of_dvd _ hdvd, ← Nat.add_mod]

theorem slot_ne {n a i j : Nat} (hi : i < n) (hj : j < n) (hij : i ≠ j) :
    (a + i) % n ≠ (a + j) % n := by
  intro heq
  have hmod : i ≡ j [MOD n] := Nat.ModEq.add_left_cancel' a heq
  rw [Nat.ModEq, Nat.mod_eq_of_lt hi, Nat.mod_eq_of_lt hj] at hmod
  exact hij hmod

/-- The newest entry is the one before the producer index. -/
theorem window_append (ring : Nat → α) (n a k : Nat) :
    window ring n a (k + 1) = window ring n a k ++ [ring ((a + k) % n)] := by
  rw [window, List.range_succ, List.map_append]
  rfl

/-- The slots of a window are distinct, as long as there are no more than slots in the ring. -/
theorem nodup_window_id {n k : Nat} (a : Nat) (hk : k ≤ n) : (window id n a k).Nodup := by
  refine (List.nodup_map_iff_inj_on List.nodup_range).mpr fun i hi j hj h => ?_
  rw [List.mem_range] at hi hj
  by_contra hij
  exact slot_ne (by omega) (by omega) hij h

/-- Writing the slot at the producer index appends to the window, as long as the ring is not
full. -/
theorem window_push {n k : Nat} (hk : k < n) (ring : Nat → α) (a : Nat) (v : α) :
    window (Function.update ring ((a + k) % n) v) n a (k + 1) = window ring n a k ++ [v] := by
  unfold window
  rw [List.range_succ, List.map_append]
  congr 1
  · refine List.map_congr_left fun i hi => ?_
    have hi' : i < k := List.mem_range.mp hi
    exact Function.update_of_ne (slot_ne (by omega) hk (by omega)) _ _
  · simp

/-! ## Chains of cells -/

/-- A chain is determined by the links of the cells on it. -/
theorem iterate_congr {f g : α → α} (a : α) (n : Nat) (h : ∀ b ∈ List.iterate f a n, f b = g b) :
    List.iterate f a n = List.iterate g a n := by
  induction n generalizing a with
  | zero => rfl
  | succ n ih =>
      simp only [List.iterate, List.mem_cons] at h ⊢
      rw [← h a (Or.inl rfl), ih (f a) (fun b hb => h b (Or.inr hb))]

end Ring
