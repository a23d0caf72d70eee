import Mathlib.Tactic

set_option autoImplicit false

/-! # Alignment macros (`misc/stddef.h`)

The macros mask a `size_t`, so they align to a power of two; for any other `n` they compute
something else, which is why they are defined by their masks here.
-/

namespace NoobKernel.Misc

/-- `(size_t)n - 1`, which wraps for `n = 0`. -/
def mask (n : Nat) : Nat := (n + (2 ^ 64 - 1)) % 2 ^ 64

/-- `~m` of a `size_t`. -/
def complement (m : Nat) : Nat := 2 ^ 64 - 1 - m

def ALIGN_UP (x n : Nat) : Nat := (x + mask n) % 2 ^ 64 &&& complement (mask n)
def ALIGN_DOWN (x n : Nat) : Nat := x &&& complement (mask n)
def ALIGNED (x n : Nat) : Bool := x &&& mask n = 0

theorem mask_two_pow {k : Nat} (hk : k < 64) : mask (2 ^ k) = 2 ^ k - 1 := by
  have hle : 2 ^ k ≤ 2 ^ 63 := Nat.pow_le_pow_right (by omega) (by omega)
  have hpos : 0 < 2 ^ k := Nat.two_pow_pos k
  rw [mask]
  omega

theorem complement_two_pow {k : Nat} (hk : k < 64) :
    complement (2 ^ k - 1) = (2 ^ (64 - k) - 1) * 2 ^ k := by
  have hpow : 2 ^ (64 - k) * 2 ^ k = 2 ^ 64 := by
    rw [← pow_add]
    congr 1
    omega
  have hpos : 0 < 2 ^ k := Nat.two_pow_pos k
  rw [complement, Nat.sub_mul, hpow]
  omega

/-- Masking with the complement of a power of two less one rounds down. -/
theorem ALIGN_DOWN_two_pow {x k : Nat} (hx : x < 2 ^ 64) (hk : k < 64) :
    ALIGN_DOWN x (2 ^ k) = x / 2 ^ k * 2 ^ k := by
  have hdiv : x / 2 ^ k < 2 ^ (64 - k) := by
    rw [Nat.div_lt_iff_lt_mul (Nat.two_pow_pos k), ← pow_add]
    rwa [Nat.sub_add_cancel (by omega)]
  rw [ALIGN_DOWN, mask_two_pow hk, complement_two_pow hk, ← Nat.shiftLeft_eq, ← Nat.shiftLeft_eq,
    ← Nat.shiftRight_eq_div_pow]
  refine Nat.eq_of_testBit_eq fun i => ?_
  rw [Nat.testBit_and, Nat.testBit_shiftLeft, Nat.testBit_shiftLeft, Nat.testBit_shiftRight,
    Nat.testBit_two_pow_sub_one]
  by_cases hi : k ≤ i
  · rw [show k + (i - k) = i by omega]
    by_cases hlt : i < 64
    · simp [hi, show i - k < 64 - k by omega]
    · have hbit : x.testBit i = false :=
        Nat.testBit_lt_two_pow (Nat.lt_of_lt_of_le hx (Nat.pow_le_pow_right (by omega) (by omega)))
      simp [hbit]
  · simp [hi]

theorem ALIGN_UP_eq (x n : Nat) : ALIGN_UP x n = ALIGN_DOWN ((x + mask n) % 2 ^ 64) n := rfl

theorem ALIGN_UP_two_pow (x : Nat) {k : Nat} (hk : k < 64) :
    ALIGN_UP x (2 ^ k) = (x + (2 ^ k - 1)) % 2 ^ 64 / 2 ^ k * 2 ^ k := by
  rw [ALIGN_UP_eq, mask_two_pow hk, ALIGN_DOWN_two_pow (Nat.mod_lt _ (by decide)) hk]

theorem ALIGNED_two_pow (x : Nat) {k : Nat} (hk : k < 64) :
    ALIGNED x (2 ^ k) = true ↔ x % 2 ^ k = 0 := by
  rw [ALIGNED, mask_two_pow hk, Nat.and_two_pow_sub_one_eq_mod, decide_eq_true_eq]

end NoobKernel.Misc
