import Mathlib.Data.Nat.Bitwise
import Mathlib.Tactic

set_option autoImplicit false

/-! # Dyadic blocks

A block `(a, o)` of order `o` is the interval of `2 ^ (u + o)` numbers from `a`, a multiple of
its length; `u` is the order of the unit. Two blocks are nested or apart (`mem_of_mem`). The
`buddy` of a block is the other half of the block of the next order, found by flipping one bit
of the address. A `Tiles` list of blocks cuts an interval into blocks; halving a block and
joining two buddies keep it a tiling.

`exists_buddies` is the reason coalescing on demand is complete: if a whole block is covered by
free blocks of smaller orders, two of these are buddies.
-/

namespace Dyadic

/-- Start and order. -/
abbrev Block := Nat × Nat

variable (u : Nat)

def size (o : Nat) : Nat := 2 ^ (u + o)

def Mem (b : Block) (x : Nat) : Prop := b.1 ≤ x ∧ x < b.1 + size u b.2

instance (b : Block) (x : Nat) : Decidable (Mem u b x) :=
  inferInstanceAs (Decidable (b.1 ≤ x ∧ x < b.1 + size u b.2))

def Aligned (b : Block) : Prop := size u b.2 ∣ b.1

/-- The blocks have no number in common. -/
def Apart (b c : Block) : Prop := ∀ x, Mem u b x → ¬Mem u c x

def buddy (a o : Nat) : Nat := a ^^^ size u o

/-- The list cuts `[lo, hi)` into blocks. -/
structure Tiles (lo hi : Nat) (bs : List Block) : Prop where
  aligned : ∀ b ∈ bs, Aligned u b
  apart : bs.Pairwise (Apart u)
  cover : ∀ x, (lo ≤ x ∧ x < hi) ↔ ∃ b ∈ bs, Mem u b x

variable {u}

theorem size_pos (o : Nat) : 0 < size u o := Nat.two_pow_pos _

theorem size_succ (o : Nat) : size u (o + 1) = 2 * size u o := by
  rw [size, size, ← Nat.add_assoc, Nat.pow_succ]
  omega

theorem size_dvd {o o' : Nat} (h : o ≤ o') : size u o ∣ size u o' :=
  pow_dvd_pow 2 (by omega)

theorem Apart.symm {b c : Block} (h : Apart u b c) : Apart u c b := fun x hc hb => h x hb hc

theorem mem_start (b : Block) : Mem u b b.1 := ⟨le_refl _, Nat.lt_add_of_pos_right (size_pos _)⟩

/-- Membership compares quotients. -/
theorem mem_iff {b : Block} (hb : Aligned u b) (x : Nat) :
    Mem u b x ↔ x / size u b.2 = b.1 / size u b.2 := by
  obtain ⟨q, hq⟩ := hb
  have hpos : 0 < size u b.2 := size_pos _
  rw [Mem, hq, Nat.mul_div_cancel_left q hpos, Nat.div_eq_iff hpos, Nat.mul_comm q]
  constructor
  · rintro ⟨h₁, h₂⟩
    exact ⟨h₁, by omega⟩
  · rintro ⟨h₁, h₂⟩
    exact ⟨h₁, by omega⟩

/-- **Nested or apart.** A block that meets one of higher or equal order lies inside it. -/
theorem mem_of_mem {b c : Block} (hb : Aligned u b) (hc : Aligned u c) (hle : b.2 ≤ c.2) {x y : Nat}
    (hxb : Mem u b x) (hxc : Mem u c x) (hyb : Mem u b y) : Mem u c y := by
  rw [mem_iff hb] at hxb hyb
  rw [mem_iff hc] at hxc ⊢
  obtain ⟨r, hr⟩ := size_dvd (u := u) hle
  rw [hr, ← Nat.div_div_eq_div_mul, ← Nat.div_div_eq_div_mul] at hxc ⊢
  rw [hyb, ← hxb]
  exact hxc

/-- Blocks of one order that meet are equal. -/
theorem eq_of_mem {b c : Block} (hb : Aligned u b) (hc : Aligned u c) (ho : b.2 = c.2) {x : Nat}
    (hxb : Mem u b x) (hxc : Mem u c x) : b = c := by
  have h₁ := mem_of_mem hb hc ho.le hxb hxc (mem_start b)
  have h₂ := mem_of_mem hc hb ho.ge hxc hxb (mem_start c)
  exact Prod.ext (le_antisymm h₂.1 h₁.1) ho

theorem Aligned.of_le {a o o' : Nat} (h : Aligned u (a, o')) (hle : o ≤ o') : Aligned u (a, o) :=
  (size_dvd hle).trans h

/-! ## Buddies -/

/-- Flipping the bit adds the length to an even block and subtracts it from an odd one. -/
theorem buddy_eq {a o : Nat} (h : Aligned u (a, o)) :
    (Aligned u (a, o + 1) ∧ buddy u a o = a + size u o)
      ∨ (¬Aligned u (a, o + 1) ∧ Aligned u (a - size u o, o + 1) ∧ size u o ≤ a
        ∧ buddy u a o = a - size u o) := by
  obtain ⟨q, hq⟩ : size u o ∣ a := h
  subst hq
  have hpos : 0 < size u o := size_pos o
  have hone : ∀ j, Nat.testBit 1 j = decide (0 = j) := fun j => @Nat.testBit_two_pow 0 j
  -- the flipped bit is the lowest one of the block number `q`
  have hxor : buddy u (size u o * q) o = size u o * (q ^^^ 1) := by
    refine Nat.eq_of_testBit_eq fun i => ?_
    rw [buddy, size, Nat.testBit_xor, Nat.testBit_two_pow_mul, Nat.testBit_two_pow_mul,
      Nat.testBit_two_pow, Nat.testBit_xor, hone]
    by_cases hi : u + o ≤ i
    · simp only [hi, decide_true, Bool.true_and]
      congr 1
      exact decide_eq_decide.mpr (by omega)
    · have hne : u + o ≠ i := by omega
      simp [hi, hne]
  rcases Nat.even_or_odd q with ⟨r, rfl⟩ | ⟨r, rfl⟩
  · left
    refine ⟨⟨r, by rw [size_succ]; ring⟩, ?_⟩
    have hone : (r + r) ^^^ 1 = r + r + 1 := by
      have := Nat.xor_one_of_even (n := r + r) ⟨r, rfl⟩
      omega
    rw [hxor, hone]
    ring
  · right
    have hone : (2 * r + 1) ^^^ 1 = 2 * r := by
      have := Nat.xor_one_of_odd (n := 2 * r + 1) ⟨r, rfl⟩
      omega
    have hsub : size u o * (2 * r + 1) - size u o = size u o * (2 * r) := by
      rw [Nat.mul_succ, Nat.add_sub_cancel]
    refine ⟨?_, ?_, Nat.le_mul_of_pos_right _ (by omega), ?_⟩
    · rintro ⟨s, hs⟩
      rw [size_succ, Nat.mul_assoc, Nat.mul_left_comm] at hs
      have := Nat.eq_of_mul_eq_mul_left hpos hs
      omega
    · exact ⟨r, by rw [hsub, size_succ]; ring⟩
    · rw [hxor, hone, hsub]

theorem buddy_buddy (a o : Nat) : buddy u (buddy u a o) o = a := by
  rw [buddy, buddy, Nat.xor_assoc, Nat.xor_self, Nat.xor_zero]

theorem Aligned.buddy {a o : Nat} (h : Aligned u (a, o)) : Aligned u (buddy u a o, o) := by
  rcases buddy_eq h with ⟨hup, heq⟩ | ⟨-, hup, -, heq⟩
  · rw [heq]
    exact (hup.of_le (Nat.le_succ o)).add (dvd_refl _)
  · rw [heq]
    exact hup.of_le (Nat.le_succ o)

theorem Aligned.buddy_of_succ {a o : Nat} (h : Aligned u (a, o + 1)) :
    Dyadic.buddy u a o = a + size u o := by
  rcases buddy_eq (h.of_le (Nat.le_succ o)) with ⟨-, heq⟩ | ⟨hnot, -⟩
  · exact heq
  · exact absurd h hnot

/-- The start of the block two buddies form. -/
theorem Aligned.parent {a o : Nat} (h : Aligned u (a, o)) :
    Aligned u (min a (Dyadic.buddy u a o), o + 1) := by
  rcases buddy_eq h with ⟨hup, heq⟩ | ⟨-, hup, hle, heq⟩
  · rwa [heq, Nat.min_eq_left (Nat.le_add_right _ _)]
  · rwa [heq, Nat.min_eq_right (Nat.sub_le _ _)]

/-- Two buddies are the halves of their parent. -/
theorem mem_parent_iff {a o : Nat} (h : Aligned u (a, o)) (x : Nat) :
    Mem u (min a (buddy u a o), o + 1) x ↔ Mem u (a, o) x ∨ Mem u (buddy u a o, o) x := by
  simp only [Mem, size_succ]
  rcases buddy_eq h with ⟨-, heq⟩ | ⟨-, -, hle, heq⟩
  · rw [heq, Nat.min_eq_left (Nat.le_add_right _ _)]
    omega
  · rw [heq, Nat.min_eq_right (Nat.sub_le _ _)]
    omega

theorem apart_buddy {a o : Nat} (h : Aligned u (a, o)) : Apart u (a, o) (buddy u a o, o) := by
  intro x h₁ h₂
  simp only [Mem] at h₁ h₂
  rcases buddy_eq h with ⟨-, heq⟩ | ⟨-, -, hle, heq⟩
  · rw [heq] at h₂
    omega
  · rw [heq] at h₂
    omega

/-! ## Tilings -/

variable {lo hi : Nat} {bs cs : List Block}

namespace Tiles

theorem perm (h : Tiles u lo hi bs) (hp : bs.Perm cs) : Tiles u lo hi cs where
  aligned b hb := h.aligned b (hp.mem_iff.mpr hb)
  apart := (hp.pairwise_iff Apart.symm).mp h.apart
  cover x := by
    rw [h.cover x]
    exact exists_congr fun b => and_congr_left fun _ => hp.mem_iff

/-- A number lies in one block only. -/
theorem eq_of_mem (h : Tiles u lo hi bs) {b c : Block} (hb : b ∈ bs) (hc : c ∈ bs) {x : Nat}
    (hxb : Mem u b x) (hxc : Mem u c x) : b = c := by
  by_contra hne
  have hsymm : Std.Symm (Apart u) := ⟨fun _ _ h => Apart.symm h⟩
  exact h.apart.forall hb hc hne x hxb hxc

theorem nodup (h : Tiles u lo hi bs) : bs.Nodup := by
  refine List.Pairwise.imp ?_ h.apart
  rintro b c hap rfl
  exact hap b.1 (mem_start b) (mem_start b)

theorem bounds (h : Tiles u lo hi bs) {b : Block} (hb : b ∈ bs) :
    lo ≤ b.1 ∧ b.1 + size u b.2 ≤ hi := by
  have hpos : 0 < size u b.2 := size_pos _
  have hfirst := (h.cover b.1).mpr ⟨b, hb, mem_start b⟩
  have hlast := (h.cover (b.1 + (size u b.2 - 1))).mpr
    ⟨b, hb, Nat.le_add_right _ _, Nat.add_lt_add_left (Nat.sub_lt hpos one_pos) _⟩
  exact ⟨hfirst.1, by omega⟩

/-- Replacing some blocks by others that cover the same numbers. -/
theorem replace {old new rest : List Block} (h : Tiles u lo hi (old ++ rest))
    (aligned : ∀ b ∈ new, Aligned u b) (apart : new.Pairwise (Apart u))
    (same : ∀ x, (∃ b ∈ new, Mem u b x) ↔ ∃ b ∈ old, Mem u b x) :
    Tiles u lo hi (new ++ rest) := by
  have hpair := List.pairwise_append.mp h.apart
  refine ⟨?_, List.pairwise_append.mpr ⟨apart, hpair.2.1, ?_⟩, ?_⟩
  · intro b hb
    rcases List.mem_append.mp hb with hb | hb
    · exact aligned b hb
    · exact h.aligned b (List.mem_append_right _ hb)
  · intro b hb c hc x hxb hxc
    obtain ⟨b', hb', hxb'⟩ := (same x).mp ⟨b, hb, hxb⟩
    exact hpair.2.2 b' hb' c hc x hxb' hxc
  · intro x
    rw [h.cover x]
    simp only [List.mem_append, or_and_right, exists_or, same x]

/-- Two buddies become one block. -/
theorem join {a o : Nat} (h : Tiles u lo hi ((a, o) :: (buddy u a o, o) :: bs)) :
    Tiles u lo hi ((min a (buddy u a o), o + 1) :: bs) := by
  have ha : Aligned u (a, o) := h.aligned _ List.mem_cons_self
  refine @replace u lo hi [(a, o), (buddy u a o, o)] [(min a (buddy u a o), o + 1)] bs h ?_ ?_ ?_
  · intro b hb
    rw [List.mem_singleton.mp hb]
    exact ha.parent
  · exact List.pairwise_singleton _ _
  · intro x
    simp [mem_parent_iff ha]

/-- A block becomes its two halves. -/
theorem halve {a o : Nat} (h : Tiles u lo hi ((a, o + 1) :: bs)) :
    Tiles u lo hi ((a, o) :: (buddy u a o, o) :: bs) := by
  have hup : Aligned u (a, o + 1) := h.aligned _ List.mem_cons_self
  have ha : Aligned u (a, o) := hup.of_le (Nat.le_succ o)
  have hmin : min a (buddy u a o) = a := by
    rw [hup.buddy_of_succ]
    exact Nat.min_eq_left (Nat.le_add_right _ _)
  have hmem := mem_parent_iff ha
  rw [hmin] at hmem
  refine @replace u lo hi [(a, o + 1)] [(a, o), (buddy u a o, o)] bs h ?_ ?_ ?_
  · intro b hb
    rcases List.mem_pair.mp hb with rfl | rfl
    · exact ha
    · exact ha.buddy
  · exact List.pairwise_pair.mpr (apart_buddy ha)
  · intro x
    simp [hmem]

/-- A block more at the end. -/
theorem extend {p o : Nat} (h : Tiles u lo p bs) (hlo : lo ≤ p) (hp : Aligned u (p, o)) :
    Tiles u lo (p + size u o) ((p, o) :: bs) := by
  refine ⟨?_, List.pairwise_cons.mpr ⟨?_, h.apart⟩, ?_⟩
  · intro b hb
    rcases List.mem_cons.mp hb with rfl | hb
    · exact hp
    · exact h.aligned b hb
  · intro b hb x hxp hxb
    have hlt := ((h.cover x).mpr ⟨b, hb, hxb⟩).2
    exact absurd hxp.1 (Nat.not_le.mpr hlt)
  · intro x
    simp only [List.mem_cons, exists_eq_or_imp]
    rw [← h.cover x, Mem]
    dsimp only
    omega

end Tiles

/-- **Why coalescing on demand is enough.** If every number of an aligned block of order `k` is
covered by blocks of `F` of smaller orders, two of these are buddies. -/
theorem exists_buddies {F : List Block} (tiles : Tiles u lo hi (F ++ bs)) {a k : Nat}
    (ha : Aligned u (a, k)) (covered : ∀ x, Mem u (a, k) x → ∃ b ∈ F, Mem u b x)
    (small : ∀ b ∈ F, b.2 < k) : ∃ b ∈ F, (buddy u b.1 b.2, b.2) ∈ F := by
  -- a block of least order among those that meet the run
  have hex : ∃ o, ∃ b ∈ F, b.2 = o ∧ ∃ x, Mem u (a, k) x ∧ Mem u b x := by
    obtain ⟨b, hb, hx⟩ := covered a (mem_start (a, k))
    exact ⟨b.2, b, hb, rfl, a, mem_start (a, k), hx⟩
  classical
  obtain ⟨b, hb, hbo, x, hxk, hxb⟩ := Nat.find_spec hex
  have hleast : ∀ c ∈ F, (∃ y, Mem u (a, k) y ∧ Mem u c y) → b.2 ≤ c.2 := by
    intro c hc hy
    rw [hbo]
    exact Nat.find_min' hex ⟨c, hc, rfl, hy⟩
  have hbal : Aligned u b := tiles.aligned b (List.mem_append_left _ hb)
  have hpar : Aligned u (min b.1 (buddy u b.1 b.2), b.2 + 1) := Aligned.parent hbal
  have hmem := mem_parent_iff hbal
  -- its buddy lies in the run as well
  have hrun : Mem u (a, k) (buddy u b.1 b.2) :=
    mem_of_mem hpar ha (small b hb) ((hmem x).mpr (Or.inl hxb)) hxk
      ((hmem _).mpr (Or.inr (mem_start (buddy u b.1 b.2, b.2))))
  obtain ⟨c, hc, hyc⟩ := covered _ hrun
  have hcal : Aligned u c := tiles.aligned c (List.mem_append_left _ hc)
  have hle := hleast c hc ⟨_, hrun, hyc⟩
  rcases Nat.lt_or_ge b.2 c.2 with hlt | hge
  · -- a larger block would swallow `b`
    have hbc : Mem u c b.1 :=
      mem_of_mem hpar hcal hlt ((hmem _).mpr (Or.inr (mem_start (buddy u b.1 b.2, b.2)))) hyc
        ((hmem _).mpr (Or.inl (mem_start b)))
    have heq := tiles.eq_of_mem (List.mem_append_left _ hb) (List.mem_append_left _ hc)
      (mem_start b) hbc
    rw [heq] at hlt
    exact absurd hlt (lt_irrefl _)
  · have heq : (buddy u b.1 b.2, b.2) = c :=
      eq_of_mem (Aligned.buddy hbal) hcal (le_antisymm hle hge) (mem_start _) hyc
    exact ⟨b, hb, heq ▸ hc⟩

/-! ## Covers by small blocks -/

variable (u) in
/-- The block is covered by blocks of `F` of orders below `top`. -/
def Covered (F : List Block) (top : Nat) (b : Block) : Prop :=
  Aligned u b ∧ ∀ x, Mem u b x → ∃ f ∈ F, f.2 < top ∧ Mem u f x

namespace Covered

variable {F F' : List Block} {top top' : Nat} {b : Block}

theorem mono (h : Covered u F top b) (hle : top ≤ top') : Covered u F top' b := by
  refine ⟨h.1, fun x hx => ?_⟩
  obtain ⟨f, hf, hlt, hmem⟩ := h.2 x hx
  exact ⟨f, hf, hlt.trans_le hle, hmem⟩

theorem of_subset (h : Covered u F top b) (hsub : ∀ f ∈ F, f.2 < top → f ∈ F') :
    Covered u F' top b := by
  refine ⟨h.1, fun x hx => ?_⟩
  obtain ⟨f, hf, hlt, hmem⟩ := h.2 x hx
  exact ⟨f, hsub f hf hlt, hlt, hmem⟩

/-- A block covers the blocks of smaller orders that start with it. -/
theorem of_mem {f : Block} (hf : f ∈ F) (haligned : Aligned u f) (hlt : f.2 < top) {o : Nat}
    (hle : o ≤ f.2) : Covered u F top (f.1, o) := by
  refine ⟨haligned.of_le hle, fun x hx => ⟨f, hf, hlt, ?_⟩⟩
  exact mem_of_mem (haligned.of_le hle) haligned hle (mem_start (f.1, o)) (mem_start f) hx

/-- A block of the cover has its buddy in the cover. -/
theorem exists_buddies (h : Covered u F top b) (tiles : Tiles u lo hi (F ++ bs)) (hle : top ≤ b.2) :
    ∃ f ∈ F, f.2 < top ∧ (buddy u f.1 f.2, f.2) ∈ F := by
  have hperm : (F ++ bs).Perm ((F.filter fun f => f.2 < top) ++
      ((F.filter fun f => !decide (f.2 < top)) ++ bs)) := by
    rw [← List.append_assoc]
    exact (List.filter_append_perm _ F).symm.append_right bs
  have hcover : ∀ x, Mem u (b.1, b.2) x → ∃ f ∈ F.filter fun f => f.2 < top, Mem u f x := by
    intro x hx
    obtain ⟨f, hf, hlt, hmem⟩ := h.2 x hx
    exact ⟨f, List.mem_filter.mpr ⟨hf, decide_eq_true hlt⟩, hmem⟩
  obtain ⟨f, hf, hbuddy⟩ := Dyadic.exists_buddies (tiles.perm hperm) h.1 hcover fun f hf =>
    (of_decide_eq_true (List.mem_filter.mp hf).2).trans_le hle
  obtain ⟨hmem, hlt⟩ := List.mem_filter.mp hf
  exact ⟨f, hmem, of_decide_eq_true hlt, (List.mem_filter.mp hbuddy).1⟩

end Covered

end Dyadic
