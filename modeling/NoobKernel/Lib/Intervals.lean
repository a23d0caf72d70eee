import Mathlib.Tactic
import Mathlib.Order.CompletePartialOrder

set_option autoImplicit false

/-! # Ascending lists of intervals

Items with a half-open interval each, in a list where every interval ends before the next one
begins. A search for a point stops at the first interval that ends behind it
(`Ascending.covers_iff`), and an insertion at the first that overlaps the new one or begins behind
it (`Ascending.overlap_iff`, `Ascending.insert`).
-/

namespace Intervals

variable {ι α : Type} [LinearOrder α] {lo hi : ι → α} {xs ys zs : List ι} {a b n : ι} {x : α}

/-- No interval is empty, and each ends where the ones behind it begin, or before. -/
structure Ascending (lo hi : ι → α) (xs : List ι) : Prop where
  pos : ∀ a ∈ xs, lo a < hi a
  apart : xs.Pairwise fun a b => hi a ≤ lo b

def Overlap (lo hi : ι → α) (a b : ι) : Prop := ¬(hi a ≤ lo b ∨ hi b ≤ lo a)

instance (lo hi : ι → α) (a b : ι) : Decidable (Overlap lo hi a b) :=
  inferInstanceAs (Decidable ¬(hi a ≤ lo b ∨ hi b ≤ lo a))

theorem overlap_iff_not_disjoint (ha : lo a < hi a) (hb : lo b < hi b) :
    Overlap lo hi a b ↔ ¬Disjoint (Set.Ico (lo a) (hi a)) (Set.Ico (lo b) (hi b)) := by
  rw [Overlap, Set.Ico_disjoint_Ico, min_le_iff, le_max_iff, le_max_iff]
  refine not_congr ⟨?_, ?_⟩
  · rintro (h | h)
    · exact .inl (.inr h)
    · exact .inr (.inl h)
  · rintro ((h | h) | h | h)
    · exact absurd h ha.not_ge
    · exact .inl h
    · exact .inr h
    · exact absurd h hb.not_ge

theorem overlap_self (ha : lo a < hi a) : Overlap lo hi a a :=
  fun h => (or_self_iff.mp h).not_gt ha

namespace Ascending

theorem nil : Ascending lo hi [] := ⟨fun _ h => absurd h List.not_mem_nil, List.Pairwise.nil⟩

theorem sublist (h : Ascending lo hi xs) (hsub : ys.Sublist xs) : Ascending lo hi ys :=
  ⟨fun a ha => h.pos a (hsub.subset ha), h.apart.sublist hsub⟩

theorem sorted (h : Ascending lo hi xs) : xs.Pairwise fun a b => lo a < lo b :=
  h.apart.imp_of_mem fun ha _ hab => (h.pos _ ha).trans_le hab

theorem disjoint (h : Ascending lo hi xs) :
    xs.Pairwise fun a b => Disjoint (Set.Ico (lo a) (hi a)) (Set.Ico (lo b) (hi b)) :=
  h.apart.imp fun hab => Set.Ico_disjoint_Ico.mpr
    ((min_le_left _ _).trans (hab.trans (le_max_right _ _)))

theorem nodup (h : Ascending lo hi xs) : xs.Nodup :=
  h.sorted.imp fun hab heq => (heq ▸ hab).ne rfl

theorem congr {lo' hi' : ι → α} (h : Ascending lo hi xs) (hlo : ∀ a ∈ xs, lo' a = lo a)
    (hhi : ∀ a ∈ xs, hi' a = hi a) : Ascending lo' hi' xs := by
  refine ⟨fun a ha => ?_, h.apart.imp_of_mem fun ha hb hab => ?_⟩
  · rw [hlo a ha, hhi a ha]
    exact h.pos a ha
  · rw [hhi _ ha, hlo _ hb]
    exact hab

/-! ## The search for a point -/

/-- Only the first interval that ends behind the point can contain it. -/
theorem covers_iff (h : Ascending lo hi (ys ++ a :: zs)) (hbefore : ∀ c ∈ ys, hi c ≤ x)
    (hx : x < hi a) : (b ∈ ys ++ a :: zs ∧ lo b ≤ x ∧ x < hi b) ↔ b = a ∧ lo a ≤ x := by
  constructor
  · rintro ⟨hb, hlo, hhi⟩
    rcases List.mem_append.mp hb with hb | hb
    · exact absurd hhi (hbefore b hb).not_gt
    rcases List.mem_cons.mp hb with rfl | hb
    · exact ⟨rfl, hlo⟩
    · -- it begins behind the end of `a`
      have hab := (List.pairwise_cons.mp (List.pairwise_append.mp h.apart).2.1).1 b hb
      exact absurd (hab.trans hlo) hx.not_ge
  · rintro ⟨rfl, hlo⟩
    exact ⟨List.mem_append_right _ List.mem_cons_self, hlo, hx⟩

/-! ## The place of a new interval -/

/-- What begins at `lo n` or before and does not overlap it ends before it. -/
theorem hi_le_of_le (hn : lo n < hi n) (ha : lo a ≤ lo n) (hno : ¬Overlap lo hi n a) :
    hi a ≤ lo n :=
  (not_not.mp hno).resolve_left fun h => (h.trans ha).not_gt hn

/-- Behind the first interval that begins after the new one, none overlaps it. -/
theorem overlap_iff (h : Ascending lo hi (ys ++ a :: zs)) (hbefore : ∀ c ∈ ys, ¬Overlap lo hi n c)
    (ha : lo n < lo a) :
    (∃ b ∈ ys ++ a :: zs, Overlap lo hi n b) ↔ Overlap lo hi n a := by
  constructor
  · rintro ⟨b, hb, hover⟩
    rcases List.mem_append.mp hb with hb | hb
    · exact absurd hover (hbefore b hb)
    rcases List.mem_cons.mp hb with rfl | hb
    · exact hover
    · have hab := (List.pairwise_cons.mp (List.pairwise_append.mp h.apart).2.1).1 b hb
      have hpos := h.pos a (List.mem_append_right _ List.mem_cons_self)
      intro hno
      rcases hno with hno | hno
      · exact hover (.inl (hno.trans (hpos.le.trans hab)))
      · exact (hpos.trans_le (hno.trans ha.le)).false
  · exact fun hover => ⟨a, List.mem_append_right _ List.mem_cons_self, hover⟩

/-- A new interval in its place. -/
theorem insert (h : Ascending lo hi (ys ++ zs)) (hn : lo n < hi n) (hys : ∀ c ∈ ys, hi c ≤ lo n)
    (hzs : ∀ c ∈ zs, hi n ≤ lo c) : Ascending lo hi (ys ++ n :: zs) := by
  constructor
  · intro c hc
    rcases List.mem_append.mp hc with hc | hc
    · exact h.pos c (List.mem_append_left _ hc)
    rcases List.mem_cons.mp hc with rfl | hc
    · exact hn
    · exact h.pos c (List.mem_append_right _ hc)
  · obtain ⟨hapart₁, hapart₂, hcross⟩ := List.pairwise_append.mp h.apart
    refine List.pairwise_append.mpr ⟨hapart₁, List.pairwise_cons.mpr ⟨hzs, hapart₂⟩, ?_⟩
    intro c hc d hd
    rcases List.mem_cons.mp hd with rfl | hd
    · exact hys c hc
    · exact hcross c hc d hd

/-- The new interval comes before the first one that begins after it. -/
theorem insert_before (h : Ascending lo hi (ys ++ a :: zs)) (hn : lo n < hi n)
    (hys : ∀ c ∈ ys, lo c ≤ lo n ∧ ¬Overlap lo hi n c) (ha : lo n < lo a)
    (hno : ¬Overlap lo hi n a) : Ascending lo hi (ys ++ n :: a :: zs) := by
  have hpos := h.pos a (List.mem_append_right _ List.mem_cons_self)
  have hna : hi n ≤ lo a := (not_not.mp hno).resolve_right fun hle => (hpos.trans_le hle).not_gt ha
  refine h.insert hn (fun c hc => hi_le_of_le hn (hys c hc).1 (hys c hc).2) fun c hc => ?_
  rcases List.mem_cons.mp hc with rfl | hc
  · exact hna
  · have hac := (List.pairwise_cons.mp (List.pairwise_append.mp h.apart).2.1).1 c hc
    exact hna.trans (hpos.le.trans hac)

/-- Or last, if there is none. -/
theorem insert_last (h : Ascending lo hi ys) (hn : lo n < hi n)
    (hys : ∀ c ∈ ys, lo c ≤ lo n ∧ ¬Overlap lo hi n c) : Ascending lo hi (ys ++ [n]) := by
  have h' : Ascending lo hi (ys ++ []) := by rwa [List.append_nil]
  exact h'.insert hn (fun c hc => hi_le_of_le hn (hys c hc).1 (hys c hc).2)
    fun c hc => absurd hc List.not_mem_nil

end Ascending

end Intervals
