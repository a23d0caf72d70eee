import NoobKernel.Lib.WordScale
import NoobKernel.Misc.Config

set_option autoImplicit false

/-! # Conversions of times (`misc/cputime.h`)

The six conversions multiply before they divide, so the product may wrap although the result would
fit. A conversion is exact, and monotone up to its argument, exactly when the product fits
(`conversions_exact_iff`).
-/

namespace NoobKernel.Misc

open WordScale

/-- The expression of all conversions, of `uint64_t`. -/
def convert (mul div x : UInt64) : UInt64 := x * mul / div

def nsToCputime (ns : UInt64) : UInt64 := convert TIMEBASE_FREQ 1000000000 ns
def usToCputime (us : UInt64) : UInt64 := convert TIMEBASE_FREQ 1000000 us
def msToCputime (ms : UInt64) : UInt64 := convert TIMEBASE_FREQ 1000 ms
def cputimeToNs (cputime : UInt64) : UInt64 := convert 1000000000 TIMEBASE_FREQ cputime
def cputimeToUs (cputime : UInt64) : UInt64 := convert 1000000 TIMEBASE_FREQ cputime
def cputimeToMs (cputime : UInt64) : UInt64 := convert 1000 TIMEBASE_FREQ cputime

/-- `interval` of `timer_init`. -/
def timerInterval : UInt64 := usToCputime (1000000 / TIMER_IRQ_HZ)

/-! ## The ratios -/

/-- A function of the header and the ratio that it stands for. -/
structure Conversion where
  run : UInt64 → UInt64
  mul : Nat
  div : Nat

/-- The mathematically exact result. -/
def Conversion.exact (c : Conversion) (x : UInt64) : Nat := x.toNat * c.mul / c.div

def conversions : List Conversion :=
  [⟨nsToCputime, TIMEBASE_FREQ.toNat, 1000000000⟩, ⟨usToCputime, TIMEBASE_FREQ.toNat, 1000000⟩,
    ⟨msToCputime, TIMEBASE_FREQ.toNat, 1000⟩, ⟨cputimeToNs, 1000000000, TIMEBASE_FREQ.toNat⟩,
    ⟨cputimeToUs, 1000000, TIMEBASE_FREQ.toNat⟩, ⟨cputimeToMs, 1000, TIMEBASE_FREQ.toNat⟩]

theorem toNat_convert (mul div x : UInt64) :
    (convert mul div x).toNat = scale (2 ^ 64) mul.toNat div.toNat x.toNat := by
  rw [convert, UInt64.toNat_div, UInt64.toNat_mul, scale]

/-- The functions scale by their ratios in words of 64 bits, and the ratios are small. -/
theorem conversions_scale {c : Conversion} (hc : c ∈ conversions) :
    (∀ x, (c.run x).toNat = scale (2 ^ 64) c.mul c.div x.toNat)
      ∧ 0 < c.mul ∧ 0 < c.div ∧ 2 * c.mul + c.div ≤ 2 ^ 64 := by
  unfold conversions at hc
  simp only [List.mem_cons, List.not_mem_nil, or_false] at hc
  rcases hc with rfl | rfl | rfl | rfl | rfl | rfl <;>
    exact ⟨fun x => toNat_convert _ _ x, by decide, by decide, by decide⟩

/-- **When the conversions are right**: exact, monotone up to the argument, and inverse to each other,
as long as the product fits 64 bits. -/
theorem conversions_exact_iff {c : Conversion} (hc : c ∈ conversions) (x : UInt64) :
    ((c.run x).toNat = c.exact x ↔ x.toNat * c.mul < 2 ^ 64)
      ∧ ((∀ a b, a ≤ b → b ≤ x → c.run a ≤ c.run b) ↔ x.toNat * c.mul < 2 ^ 64)
      ∧ (nsToCputime (cputimeToNs x) = x ↔ x.toNat * 1000000000 < 2 ^ 64) := by
  obtain ⟨hrun, hmul, hdiv, hword⟩ := conversions_scale hc
  refine ⟨?_, ?_, ?_⟩
  · rw [hrun, Conversion.exact]
    exact scale_eq_iff hdiv (by omega)
  · rw [← scale_mono_iff hdiv hmul hword]
    constructor
    · intro hmono a b hab hbx
      have hb : b < 2 ^ 64 := Nat.lt_of_le_of_lt hbx x.toNat_lt
      have ha : a < 2 ^ 64 := Nat.lt_of_le_of_lt hab hb
      have hstep := hmono (UInt64.ofNat a) (UInt64.ofNat b)
      simp only [UInt64.le_iff_toNat_le, hrun, UInt64.toNat_ofNat_of_lt' ha,
        UInt64.toNat_ofNat_of_lt' hb] at hstep
      exact hstep hab hbx
    · intro hmono a b hab hbx
      rw [UInt64.le_iff_toNat_le, hrun, hrun]
      exact hmono _ _ (UInt64.le_iff_toNat_le.mp hab) (UInt64.le_iff_toNat_le.mp hbx)
  · rw [← UInt64.toNat_inj, nsToCputime, cputimeToNs, toNat_convert, toNat_convert]
    exact scale_scale_iff (by decide) (by decide) (by decide) (by decide)

theorem conversions_exact_iff_ns : (cputimeToNs 7).toNat = 7 * 1000000000 / 10000000
    ∧ nsToCputime (cputimeToNs 7) = 7 := by
  have hc : (⟨cputimeToNs, 1000000000, TIMEBASE_FREQ.toNat⟩ : Conversion) ∈ conversions := by
    simp [conversions]
  exact ⟨(conversions_exact_iff hc 7).1.mpr (by decide),
    (conversions_exact_iff hc 7).2.2.mpr (by decide)⟩

-- the only use: ten milliseconds between two interrupts
example : timerInterval = 100000 := by decide

/-- After 1845 seconds of uptime the product wraps. -/
theorem not_conversions_exact : ¬∀ c ∈ conversions, ∀ x : UInt64,
    c.exact x < 2 ^ 64 → (c.run x).toNat = c.exact x := by
  intro hclaim
  have hns := hclaim ⟨cputimeToNs, 1000000000, TIMEBASE_FREQ.toNat⟩ (by simp [conversions]) 18450000000
    (by decide)
  exact absurd hns (by decide)

end NoobKernel.Misc
