import Mathlib.Tactic

set_option autoImplicit false

/-! # A table of exceptions

A decidable property of the numbers of an interval that fails on a few ranges only is
described by the list of these ranges. `scan` checks such a table in one pass, ascending, and
`scan_iff` turns a successful pass into the exact description of the property. `scanBlocks`
passes over the blocks for which a sufficient condition holds.
-/

namespace Ranges

/-- The property holds for `n` numbers from `lo` on. -/
def allFrom (p : Nat → Bool) : Nat → Nat → Bool
  | _, 0 => true
  | lo, n + 1 => p lo && allFrom p (lo + 1) n

theorem allFrom_iff {p : Nat → Bool} (lo n : Nat) :
    allFrom p lo n = true ↔ ∀ i, lo ≤ i → i < lo + n → p i = true := by
  induction n generalizing lo with
  | zero => simp [allFrom]; omega
  | succ n ih =>
      rw [allFrom, Bool.and_eq_true, ih]
      constructor
      · rintro ⟨h, hs⟩ i hlo hhi
        by_cases hi : i = lo
        · rw [hi]
          exact h
        · exact hs i (by omega) (by omega)
      · intro h
        exact ⟨h lo (le_refl lo) (by omega), fun i hlo hhi => h i (by omega) (by omega)⟩

/-- The property holds below `n`. The recursor stands here itself: the kernel evaluates it
without unfolding a compiled recursion. -/
def allBelow (p : Nat → Bool) (n : Nat) : Bool :=
  Nat.rec (motive := fun _ => Bool) true (fun i ih => p i && ih) n

theorem allBelow_iff {p : Nat → Bool} {n : Nat} : allBelow p n = true ↔ ∀ i < n, p i = true := by
  induction n with
  | zero => simp [allBelow]
  | succ n ih =>
      have hstep : allBelow p (n + 1) = (p n && allBelow p n) := rfl
      rw [hstep, Bool.and_eq_true, ih]
      constructor
      · rintro ⟨h, hs⟩ i hi
        by_cases hin : i = n
        · rw [hin]
          exact h
        · exact hs i (by omega)
      · intro h
        exact ⟨h n (Nat.lt_succ_self n), fun i hi => h i (by omega)⟩

/-- The property holds from `lo` on and below `hi`. Block `q` of width `w` has the numbers with
`(i + s) / w = q`, and `skip` vouches for whole blocks. -/
def allBlocks (p skip : Nat → Bool) (w s lo hi : Nat) : Bool :=
  allBelow (fun j =>
      skip (Nat.add (Nat.div (Nat.add lo s) w) j)
        || allBelow (fun r => (fun i => Nat.blt i lo || Nat.ble hi i || p i)
            (Nat.add (Nat.sub (Nat.mul w (Nat.add (Nat.div (Nat.add lo s) w) j)) s) r)) w)
    (Nat.sub (Nat.succ (Nat.div (Nat.add hi s) w)) (Nat.div (Nat.add lo s) w))

theorem allBlocks_sound {p skip : Nat → Bool} {w s lo hi : Nat} (hw : 0 < w)
    (hskip : ∀ i, 0 < i → skip ((i + s) / w) = true → p i = true) (hlo : 0 < lo)
    (h : allBlocks p skip w s lo hi = true) {i : Nat} (hli : lo ≤ i) (hih : i < hi) :
    p i = true := by
  have hfirst : (lo + s) / w ≤ (i + s) / w := Nat.div_le_div_right (by omega)
  have hlast : (i + s) / w ≤ (hi + s) / w := Nat.div_le_div_right (by omega)
  have hblock : (lo + s) / w + ((i + s) / w - (lo + s) / w) = (i + s) / w := by omega
  have hq := allBelow_iff.mp h ((i + s) / w - (lo + s) / w)
    (show _ < (hi + s) / w + 1 - (lo + s) / w by omega)
  rw [Bool.or_eq_true] at hq
  rcases hq with hq | hq
  · exact hskip i (by omega) (by rwa [← hblock])
  · -- the block is evaluated, and `i` is among its numbers
    have hlow : w * ((i + s) / w) ≤ i + s := Nat.mul_div_le _ _
    have hhigh : i + s < w * ((i + s) / w) + w := Nat.lt_mul_div_succ _ hw
    have hin : w * ((i + s) / w) - s + (i - (w * ((i + s) / w) - s)) = i := by omega
    have hi' := allBelow_iff.mp hq (i - (w * ((i + s) / w) - s)) (by omega)
    have heq : Nat.add (Nat.sub (Nat.mul w (Nat.add (Nat.div (Nat.add lo s) w)
        ((i + s) / w - (lo + s) / w))) s) (i - (w * ((i + s) / w) - s)) = i := by
      show w * ((lo + s) / w + ((i + s) / w - (lo + s) / w)) - s
        + (i - (w * ((i + s) / w) - s)) = i
      rw [hblock, hin]
    rw [heq] at hi'
    simpa [Nat.not_lt.mpr hli, Nat.not_le.mpr hih] using hi'

/-- The number lies in one of the ranges, ends included. -/
def Within (ranges : List (Nat × Nat)) (i : Nat) : Prop := ∃ r ∈ ranges, r.1 ≤ i ∧ i ≤ r.2

instance (ranges : List (Nat × Nat)) (i : Nat) : Decidable (Within ranges i) :=
  inferInstanceAs (Decidable (∃ r ∈ ranges, r.1 ≤ i ∧ i ≤ r.2))

/-- The ranges ascend from `lo`, the property fails on each and holds between them, up to
`hi`. -/
def scan (p : Nat → Bool) (hi : Nat) : List (Nat × Nat) → Nat → Bool
  | [], lo => allFrom p lo (hi - lo)
  | (a, b) :: rest, lo =>
      decide (lo ≤ a) && decide (a ≤ b) && allFrom p lo (a - lo)
        && allFrom (fun i => !p i) a (b + 1 - a) && scan p hi rest (b + 1)

theorem scan_lower {p : Nat → Bool} {hi : Nat} {ranges : List (Nat × Nat)} {lo : Nat}
    (h : scan p hi ranges lo = true) : ∀ r ∈ ranges, lo ≤ r.1 := by
  induction ranges generalizing lo with
  | nil => simp
  | cons r rest ih =>
      obtain ⟨a, b⟩ := r
      simp only [scan, Bool.and_eq_true, decide_eq_true_eq] at h
      intro r hr
      rcases List.mem_cons.mp hr with rfl | hr
      · exact h.1.1.1.1
      · have := ih h.2 r hr
        omega

/-- **A successful pass** shows that the property fails exactly on the ranges. -/
theorem scan_iff {p : Nat → Bool} {hi : Nat} {ranges : List (Nat × Nat)} {lo : Nat}
    (h : scan p hi ranges lo = true) {i : Nat} (hlo : lo ≤ i) (hhi : i < hi) :
    p i = true ↔ ¬Within ranges i := by
  induction ranges generalizing lo with
  | nil =>
      have hp := (allFrom_iff _ _).mp h i hlo (by omega)
      simp [hp, Within]
  | cons r rest ih =>
      obtain ⟨a, b⟩ := r
      have hrest := h
      simp only [scan, Bool.and_eq_true, decide_eq_true_eq] at hrest
      obtain ⟨⟨⟨⟨hla, hab⟩, hgood⟩, hbad⟩, hscan⟩ := hrest
      have hcons : Within ((a, b) :: rest) i ↔ (a ≤ i ∧ i ≤ b) ∨ Within rest i := by
        simp [Within]
      rw [hcons]
      have hlow : Within rest i → b + 1 ≤ i := by
        rintro ⟨r, hr, hri, -⟩
        have := scan_lower hscan r hr
        omega
      -- before the range, in it, or behind it
      by_cases hia : i < a
      · have hp := (allFrom_iff _ _).mp hgood i hlo (by omega)
        refine ⟨fun _ => ?_, fun _ => hp⟩
        rintro (hin | hin)
        · omega
        · have := hlow hin
          omega
      · by_cases hib : i ≤ b
        · have hp := (allFrom_iff _ _).mp hbad i (by omega) (by omega)
          simp only [Bool.not_eq_true'] at hp
          simp only [hp, Bool.false_eq_true, false_iff, not_not]
          exact Or.inl ⟨by omega, hib⟩
        · rw [ih hscan (by omega)]
          refine not_congr ⟨Or.inr, ?_⟩
          rintro (hin | hin)
          · omega
          · exact hin

/-! ## Scanning by blocks -/

/-- As `scan`, the numbers between the ranges by blocks. -/
def scanBlocks (p skip : Nat → Bool) (w s hi : Nat) : List (Nat × Nat) → Nat → Bool
  | [], lo => allBlocks p skip w s lo hi
  | (a, b) :: rest, lo =>
      decide (lo ≤ a) && decide (a ≤ b) && allBlocks p skip w s lo a
        && allFrom (fun i => !p i) a (b + 1 - a) && scanBlocks p skip w s hi rest (b + 1)

theorem scan_of_scanBlocks {p skip : Nat → Bool} {w s hi : Nat} {ranges : List (Nat × Nat)}
    (hw : 0 < w) (hskip : ∀ i, 0 < i → skip ((i + s) / w) = true → p i = true) {lo : Nat}
    (hlo : 0 < lo) (h : scanBlocks p skip w s hi ranges lo = true) :
    scan p hi ranges lo = true := by
  induction ranges generalizing lo with
  | nil =>
      refine (allFrom_iff _ _).mpr fun i hli hih => ?_
      exact allBlocks_sound hw hskip hlo h hli (by omega)
  | cons r rest ih =>
      obtain ⟨a, b⟩ := r
      simp only [scanBlocks, Bool.and_eq_true, decide_eq_true_eq] at h
      obtain ⟨⟨⟨⟨hla, hab⟩, hgood⟩, hbad⟩, hrest⟩ := h
      simp only [scan, Bool.and_eq_true, decide_eq_true_eq]
      refine ⟨⟨⟨⟨hla, hab⟩, ?_⟩, hbad⟩, ih (Nat.succ_pos b) hrest⟩
      refine (allFrom_iff _ _).mpr fun i hli hih => ?_
      exact allBlocks_sound hw hskip hlo hgood hli (by omega)

end Ranges
