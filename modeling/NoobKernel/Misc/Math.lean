import Mathlib.Tactic

set_option autoImplicit false

/-! # `log2_ceil` (`misc/math.h`) -/

namespace NoobKernel.Misc

/-- One comparison of the binary search for the highest bit: the value left and the exponent. -/
def log2Step (shift : Nat) (s : Nat × Nat) : Nat × Nat :=
  if 2 ^ shift ≤ s.1 then (s.1 >>> shift, s.2 + shift) else s

/-- `-1` for `0`, otherwise the least exponent of a power of two that is not smaller. -/
def log2Ceil (size : Nat) : Int :=
  if size = 0 then -1
  else
    let s := log2Step 2 (log2Step 4 (log2Step 8 (log2Step 16 (log2Step 32 (size, 0)))))
    let result := if 2 ≤ s.1 then s.2 + 1 else s.2
    if size &&& (size - 1) ≠ 0 then result + 1 else result

/-- The search keeps `value = size >> result` and halves the width of the value. -/
theorem log2Step_spec {size shift : Nat} {s : Nat × Nat} (hs : s.1 = size / 2 ^ s.2)
    (hpos : 0 < s.1) (hlt : s.1 < 2 ^ (2 * shift)) :
    (log2Step shift s).1 = size / 2 ^ (log2Step shift s).2 ∧ 0 < (log2Step shift s).1
      ∧ (log2Step shift s).1 < 2 ^ shift := by
  unfold log2Step
  by_cases h : 2 ^ shift ≤ s.1
  · rw [if_pos h, Nat.shiftRight_eq_div_pow]
    refine ⟨?_, Nat.div_pos h (Nat.two_pow_pos _), ?_⟩
    · rw [hs, Nat.div_div_eq_div_mul, ← pow_add]
    · rwa [Nat.div_lt_iff_lt_mul (Nat.two_pow_pos _), ← pow_add, ← Nat.two_mul]
  · rw [if_neg h]
    exact ⟨hs, hpos, Nat.lt_of_not_le h⟩

/-- A number has a bit in common with its predecessor unless it is a power of two. -/
theorem and_pred_eq_zero_iff {n r : Nat} (hlo : 2 ^ r ≤ n) (hhi : n < 2 ^ (r + 1)) :
    n &&& (n - 1) = 0 ↔ n = 2 ^ r := by
  constructor
  · intro h
    by_contra hne
    have hbit : ∀ m, 2 ^ r ≤ m → m < 2 ^ (r + 1) → m.testBit r = true := by
      intro m hm hm'
      rw [Nat.testBit_eq_decide_div_mod_eq]
      have hdiv : m / 2 ^ r = 1 := by
        rw [Nat.div_eq_iff (Nat.two_pow_pos _)]
        rw [Nat.pow_succ] at hm'
        omega
      simp [hdiv]
    have := congrArg (fun m => m.testBit r) h
    simp [hbit n hlo hhi, hbit (n - 1) (by omega) (by omega)] at this
  · rintro rfl
    rw [Nat.and_two_pow_sub_one_eq_mod, Nat.mod_self]

/-- **The rounding is right**: the result is the least exponent that is large enough. -/
theorem log2Ceil_spec {size : Nat} (hpos : 0 < size) (hlt : size < 2 ^ 64) :
    ∃ r : Nat, log2Ceil size = r ∧ size ≤ 2 ^ r ∧ ∀ r' < r, 2 ^ r' < size := by
  have h₁ := @log2Step_spec size 32 (size, 0) (by simp) hpos hlt
  have h₂ := @log2Step_spec size 16 _ h₁.1 h₁.2.1 h₁.2.2
  have h₃ := @log2Step_spec size 8 _ h₂.1 h₂.2.1 h₂.2.2
  have h₄ := @log2Step_spec size 4 _ h₃.1 h₃.2.1 h₃.2.2
  have h₅ := @log2Step_spec size 2 _ h₄.1 h₄.2.1 h₄.2.2
  clear h₁ h₂ h₃ h₄
  unfold log2Ceil
  generalize log2Step 2 (log2Step 4 (log2Step 8 (log2Step 16 (log2Step 32 (size, 0))))) = s at h₅ ⊢
  obtain ⟨hs, hs0, hs4⟩ := h₅
  -- the exponent of the highest bit
  have hfloor : ∃ r, (if 2 ≤ s.1 then s.2 + 1 else s.2) = r ∧ 2 ^ r ≤ size ∧ size < 2 ^ (r + 1) := by
    have hpow : 0 < 2 ^ s.2 := Nat.two_pow_pos _
    have hdm := Nat.div_add_mod size (2 ^ s.2)
    have hmod := Nat.mod_lt size hpow
    rw [← hs] at hdm
    have hvalue : s.1 = 1 ∨ s.1 = 2 ∨ s.1 = 3 := by omega
    rcases hvalue with h | h | h
    · rw [h] at hdm ⊢
      refine ⟨s.2, rfl, by omega, by rw [Nat.pow_succ]; omega⟩
    all_goals
      rw [h] at hdm ⊢
      refine ⟨s.2 + 1, rfl, by rw [Nat.pow_succ]; omega, ?_⟩
      rw [Nat.pow_succ, Nat.pow_succ]
      omega
  obtain ⟨r, hr, hlo, hhi⟩ := hfloor
  have hmono : ∀ r' < r, 2 ^ r' < size := fun r' h =>
    Nat.lt_of_lt_of_le (Nat.pow_lt_pow_right (by omega) h) hlo
  rw [if_neg (by omega)]
  simp only [hr]
  by_cases hp : size &&& (size - 1) = 0
  · rw [if_neg (by simpa using hp)]
    exact ⟨r, rfl, ((and_pred_eq_zero_iff hlo hhi).mp hp).le, hmono⟩
  · rw [if_pos hp]
    refine ⟨r + 1, rfl, hhi.le, fun r' h => ?_⟩
    rcases Nat.lt_succ_iff_lt_or_eq.mp h with h | rfl
    · exact hmono r' h
    · exact lt_of_le_of_ne hlo fun heq => hp ((and_pred_eq_zero_iff hlo hhi).mpr heq.symm)

end NoobKernel.Misc
