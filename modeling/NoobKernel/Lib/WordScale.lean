import Mathlib.Tactic

set_option autoImplicit false

/-! # Scaling in a machine word

A number is scaled by `m / d` in words of size `w`: it is multiplied, which wraps, and then divided.
The result is the quotient of the product exactly when the product fits the word (`scale_eq_iff`),
and the first argument whose product does not fit is scaled to something smaller than the one before
it (`scale_mono_iff`).
-/

namespace WordScale

/-- `x * m / d` in words of size `w`. -/
def scale (w m d x : Nat) : Nat := x * m % w / d

variable {w m d x : Nat}

theorem scale_of_lt (h : x * m < w) : scale w m d x = x * m / d := by
  rw [scale, Nat.mod_eq_of_lt h]

/-- What wraps away is at least a word, so it is missed after the division. -/
theorem scale_eq_iff (hd : 0 < d) (hdw : d ≤ w) : scale w m d x = x * m / d ↔ x * m < w := by
  refine ⟨fun heq => ?_, scale_of_lt⟩
  by_contra hge
  have hword : w ≤ x * m := Nat.le_of_not_lt hge
  have hone : 0 < x * m / w := Nat.div_pos hword (Nat.lt_of_lt_of_le hd hdw)
  have hloss : x * m % w + d ≤ x * m := by
    calc x * m % w + d ≤ x * m % w + w := Nat.add_le_add_left hdw _
      _ ≤ x * m % w + w * (x * m / w) := Nat.add_le_add_left (Nat.le_mul_of_pos_right w hone) _
      _ = x * m := Nat.mod_add_div _ _
  have hquot : x * m % w / d + 1 ≤ x * m / d := by
    rw [← Nat.add_div_right _ hd]
    exact Nat.div_le_div_right hloss
  rw [scale] at heq
  omega

/-- **Scaling is monotone up to `x`** exactly when the product of `x` fits. -/
theorem scale_mono_iff (hd : 0 < d) (hm : 0 < m) (hw : 2 * m + d ≤ w) :
    (∀ a b, a ≤ b → b ≤ x → scale w m d a ≤ scale w m d b) ↔ x * m < w := by
  constructor
  · intro hmono
    by_contra hge
    -- the least `y + 1` whose product does not fit
    have hex : ∃ y, w ≤ y * m := ⟨x, Nat.le_of_not_lt hge⟩
    have hfirst := Nat.find_spec hex
    have hx : Nat.find hex ≤ x := Nat.find_min' hex (Nat.le_of_not_lt hge)
    obtain ⟨y, hy⟩ : ∃ y, Nat.find hex = y + 1 := by
      refine Nat.exists_eq_succ_of_ne_zero fun hzero => ?_
      rw [hzero, Nat.zero_mul] at hfirst
      omega
    have hlast : y * m < w := Nat.lt_of_not_le (Nat.find_min hex (by omega))
    rw [hy] at hfirst hx
    have hstep := hmono y (y + 1) (Nat.le_succ y) hx
    rw [Nat.succ_mul] at hfirst
    have hwrap : (y + 1) * m % w = y * m + m - w := by
      calc (y + 1) * m % w = (y * m + m) % w := by rw [Nat.succ_mul]
        _ = (y * m + m - w) % w := Nat.mod_eq_sub_mod hfirst
        _ = y * m + m - w := Nat.mod_eq_of_lt (by omega)
    -- what wraps away is more than the product has gained
    have hdrop : (y * m + m - w) / d + 1 ≤ y * m / d := by
      rw [← Nat.add_div_right _ hd]
      exact Nat.div_le_div_right (by omega)
    rw [scale_of_lt hlast, scale, hwrap] at hstep
    omega
  · intro hlt a b hab hbx
    have hb : b * m < w := Nat.lt_of_le_of_lt (Nat.mul_le_mul_right m hbx) hlt
    have ha : a * m < w := Nat.lt_of_le_of_lt (Nat.mul_le_mul_right m hab) hb
    rw [scale_of_lt ha, scale_of_lt hb]
    exact Nat.div_le_div_right (Nat.mul_le_mul_right m hab)

/-- **Scaling by `d / m` and back** returns the argument exactly when the first product fits. -/
theorem scale_scale_iff (hw : 0 < w) (hm : 0 < m) (hd : 0 < d) (hdvd : m ∣ d) :
    scale w m d (scale w d m x) = x ↔ x * d < w := by
  have hback : x * d % w / m * m ≤ x * d % w := Nat.div_mul_le_self _ _
  constructor
  · intro heq
    by_contra hge
    -- the number that comes back is below the one whose product has wrapped
    have hlt : x * d % w < w := Nat.mod_lt _ hw
    have hfits : x * d % w / m * m < w := by omega
    have hsmall : scale w m d (scale w d m x) < x := by
      rw [scale_of_lt (by rw [scale]; exact hfits), scale]
      refine (Nat.div_lt_iff_lt_mul hd).mpr ?_
      omega
    omega
  · intro hlt
    obtain ⟨q, rfl⟩ := hdvd
    have hprod : x * q * m = x * (m * q) := by ring
    have hfirst : scale w (m * q) m x = x * q := by
      calc scale w (m * q) m x = x * (m * q) / m := scale_of_lt hlt
        _ = x * q * m / m := by rw [hprod]
        _ = x * q := Nat.mul_div_cancel _ hm
    calc scale w m (m * q) (scale w (m * q) m x) = scale w m (m * q) (x * q) := by rw [hfirst]
      _ = x * q * m / (m * q) := scale_of_lt (by rwa [hprod])
      _ = x * (m * q) / (m * q) := by rw [hprod]
      _ = x := Nat.mul_div_cancel _ hd

end WordScale
