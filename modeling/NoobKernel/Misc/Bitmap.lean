import Mathlib.Tactic

set_option autoImplicit false

/-! # Bitmaps (`misc/bitmap.h`) -/

namespace NoobKernel.Misc

structure Bitmap where
  data : Nat → BitVec 8
  len : Nat

namespace Bitmap

/-- The bit itself, without the bound check of `bitmap_get`. -/
def bit (bm : Bitmap) (i : Nat) : Bool := (bm.data (i >>> 3)).getLsbD (i &&& 7)

def get (bm : Bitmap) (i : Nat) : Bool := if bm.len ≤ i then false else bm.bit i

def set (bm : Bitmap) (i : Nat) : Bitmap :=
  if bm.len ≤ i then bm
  else
    { bm with
      data := Function.update bm.data (i >>> 3) (bm.data (i >>> 3) ||| (1#8 <<< (i &&& 7))) }

def clear (bm : Bitmap) (i : Nat) : Bitmap :=
  if bm.len ≤ i then bm
  else
    { bm with
      data := Function.update bm.data (i >>> 3) (bm.data (i >>> 3) &&& ~~~(1#8 <<< (i &&& 7))) }

/-- `while ((b & 1) == 0) { b >>= 1; off++; }`, which ends within the byte for `b ≠ 0`. -/
def lowest : Nat → BitVec 8 → Nat
  | 0, _ => 0
  | fuel + 1, b => if b &&& 1 = 0 then lowest fuel (b >>> 1) + 1 else 0

/-- The scan of the bytes from `i`, `n` of them left. The bytes are in memory, so `len + 7` fits a
`size_t`. -/
def scanSet (bm : Bitmap) : Nat → Nat → Nat
  | 0, _ => bm.len
  | n + 1, i =>
      let b := bm.data i
      if b ≠ 0 then
        let pos := (i <<< 3) + lowest 8 b
        if pos < bm.len then pos else bm.len
      else scanSet bm n (i + 1)

def findNextSet (bm : Bitmap) (i : Nat) : Nat :=
  if bm.len ≤ i then bm.len
  else
    let byteIdx := i >>> 3
    let bitOff := i &&& 7
    let b := bm.data byteIdx &&& (0xFF#8 <<< bitOff)
    if b ≠ 0 then (byteIdx <<< 3) + bitOff + lowest 8 b
    else scanSet bm (((bm.len + 7) >>> 3) - (byteIdx + 1)) (byteIdx + 1)

/-- The same scan for a clear bit, with the bits behind `len` masked. -/
def scanClear (bm : Bitmap) (maxByte : Nat) : Nat → Nat → Nat
  | 0, _ => bm.len
  | n + 1, i =>
      let b := ~~~bm.data i
      let tailBits := bm.len &&& 7
      let b := if i = maxByte - 1 ∧ tailBits ≠ 0 then b &&& ((1#8 <<< tailBits) - 1) else b
      if b ≠ 0 then (i <<< 3) + lowest 8 b else scanClear bm maxByte n (i + 1)

def findNextClear (bm : Bitmap) (i : Nat) : Nat :=
  if bm.len ≤ i then bm.len
  else
    let byteIdx := i >>> 3
    let bitOff := i &&& 7
    let b := ~~~bm.data byteIdx &&& (0xFF#8 <<< bitOff)
    if b ≠ 0 then (byteIdx <<< 3) + bitOff + lowest 8 b
    else
      let maxByte := (bm.len + 7) >>> 3
      scanClear bm maxByte (maxByte - (byteIdx + 1)) (byteIdx + 1)

/-! ## Single bits -/

theorem bit_eq (bm : Bitmap) (i : Nat) : bm.bit i = (bm.data (i / 8)).getLsbD (i % 8) := by
  have h : i &&& 7 = i % 8 := Nat.and_two_pow_sub_one_eq_mod i 3
  rw [bit, h, Nat.shiftRight_eq_div_pow]

@[simp] theorem set_len (bm : Bitmap) (i : Nat) : (bm.set i).len = bm.len := by
  unfold set
  split <;> rfl

@[simp] theorem clear_len (bm : Bitmap) (i : Nat) : (bm.clear i).len = bm.len := by
  unfold clear
  split <;> rfl

theorem getLsbD_one_shiftLeft : ∀ a < 8, ∀ b < 8,
    ((1#8 <<< a).getLsbD b : Bool) = decide (b = a) := by decide

theorem bit_set {bm : Bitmap} {i : Nat} (hi : i < bm.len) (j : Nat) :
    (bm.set i).bit j = (bm.bit j || decide (j = i)) := by
  have h7 : i &&& 7 = i % 8 := Nat.and_two_pow_sub_one_eq_mod i 3
  rw [bit_eq, bit_eq, set, if_neg (by omega), h7, Nat.shiftRight_eq_div_pow]
  by_cases hb : j / 8 = i / 8
  · have hij : (j % 8 = i % 8) ↔ j = i := by omega
    simp only [hb, Function.update_self, BitVec.getLsbD_or,
      getLsbD_one_shiftLeft _ (Nat.mod_lt i (by omega)) _ (Nat.mod_lt j (by omega)), hij]
  · have hne : j ≠ i := fun h => hb (by rw [h])
    simp [Function.update_of_ne hb, hne]

theorem bit_clear {bm : Bitmap} {i : Nat} (hi : i < bm.len) (j : Nat) :
    (bm.clear i).bit j = (bm.bit j && !decide (j = i)) := by
  have h7 : i &&& 7 = i % 8 := Nat.and_two_pow_sub_one_eq_mod i 3
  have h8 : j % 8 < 8 := Nat.mod_lt j (by omega)
  rw [bit_eq, bit_eq, clear, if_neg (by omega), h7, Nat.shiftRight_eq_div_pow]
  by_cases hb : j / 8 = i / 8
  · have hij : (j % 8 = i % 8) ↔ j = i := by omega
    simp only [hb, Function.update_self, BitVec.getLsbD_and, BitVec.getLsbD_not, h8, decide_true,
      Bool.true_and,
      getLsbD_one_shiftLeft _ (Nat.mod_lt i (by omega)) _ h8, hij]
  · have hne : j ≠ i := fun h => hb (by rw [h])
    simp [Function.update_of_ne hb, hne]

/-- `lowest` finds the lowest set bit. -/
theorem lowest_spec : ∀ b : BitVec 8, b ≠ 0 →
    lowest 8 b < 8 ∧ b.getLsbD (lowest 8 b) = true
      ∧ ∀ j < lowest 8 b, b.getLsbD j = false := by
  decide

/-! ## The searches -/

/-- The bits behind `len` in the last byte are 0. -/
def ZeroTail (bm : Bitmap) : Prop :=
  ∀ j, bm.len ≤ j → j < 8 * ((bm.len + 7) / 8) → bm.bit j = false

/-- `r` is the least position from `i` on whose bit is `v`, or `len` if there is none. -/
def IsNext (bm : Bitmap) (v : Bool) (i r : Nat) : Prop :=
  IsLeast {j | i ≤ j ∧ j < bm.len ∧ bm.bit j = v} r
    ∨ (∀ j, i ≤ j → j < bm.len → bm.bit j ≠ v) ∧ r = bm.len

section Next

variable {bm : Bitmap} {v : Bool} {i m q r r' : Nat}

theorem shiftLeft_three (q : Nat) : q <<< 3 = 8 * q := by
  rw [Nat.shiftLeft_eq]
  omega

theorem shiftRight_three (i : Nat) : i >>> 3 = i / 8 := Nat.shiftRight_eq_div_pow i 3

theorem IsNext.unique (h : bm.IsNext v i r) (h' : bm.IsNext v i r') : r = r' := by
  rcases h with h | ⟨hnone, rfl⟩
  · rcases h' with h' | ⟨hnone, -⟩
    · exact h.unique h'
    · exact absurd h.1.2.2 (hnone r h.1.1 h.1.2.1)
  · rcases h' with h' | ⟨-, rfl⟩
    · exact absurd h'.1.2.2 (hnone r' h'.1.1 h'.1.2.1)
    · rfl

theorem IsNext.add_iff (h : bm.IsNext v i r) (t : Nat) : bm.IsNext v i (r + t) ↔ t = 0 := by
  constructor
  · intro h'
    have heq := h.unique h'
    omega
  · rintro rfl
    exact h

/-- The bits before `m` are passed over. -/
theorem IsNext.skip (h : bm.IsNext v m r) (him : i ≤ m)
    (hpass : ∀ j, i ≤ j → j < m → j < bm.len → bm.bit j ≠ v) : bm.IsNext v i r := by
  rcases h with ⟨⟨hmr, hlen, hbit⟩, hleast⟩ | ⟨hnone, rfl⟩
  · refine .inl ⟨⟨him.trans hmr, hlen, hbit⟩, fun j ⟨hij, hj, hv⟩ => ?_⟩
    rcases Nat.lt_or_ge j m with hlt | hge
    · exact absurd hv (hpass j hij hlt hj)
    · exact hleast ⟨hge, hj, hv⟩
  · refine .inr ⟨fun j hij hj => ?_, rfl⟩
    rcases Nat.lt_or_ge j m with hlt | hge
    · exact hpass j hij hlt hj
    · exact hnone j hge hj

theorem isNext_of_len_le (h : bm.len ≤ i) : bm.IsNext v i bm.len :=
  .inr ⟨fun _ hij hj => absurd hj (Nat.not_lt.mpr (h.trans hij)), rfl⟩

theorem bit_eq_of_byte (off : Nat) (h : off < 8) :
    bm.bit (8 * q + off) = (bm.data q).getLsbD off := by
  rw [bit_eq, show (8 * q + off) / 8 = q by omega, show (8 * q + off) % 8 = off by omega]

/-- `b` marks the positions of the byte `q` from `i` on whose bits are `v`, as far as they are below
`len`. -/
def Marks (bm : Bitmap) (v : Bool) (i q : Nat) (b : BitVec 8) : Prop :=
  ∀ off < 8, 8 * q + off < bm.len →
    b.getLsbD off = (decide (i ≤ 8 * q + off) && (bm.bit (8 * q + off) == v))

variable {b : BitVec 8}

/-- A byte with a mark ends the search. -/
theorem Marks.found (h : bm.Marks v i q b) (hqi : 8 * q ≤ i) (hb : b ≠ 0) :
    bm.IsNext v i (min (8 * q + lowest 8 b) bm.len) := by
  obtain ⟨hlt, hset, hlow⟩ := lowest_spec b hb
  have hpass : ∀ j, i ≤ j → j < 8 * q + lowest 8 b → j < bm.len → bm.bit j ≠ v := by
    intro j hij hj hlen
    obtain ⟨off, rfl⟩ := Nat.exists_eq_add_of_le (hqi.trans hij)
    have hmark := h off (by omega) hlen
    rw [hlow off (by omega), decide_eq_true hij, Bool.true_and] at hmark
    exact beq_eq_false_iff_ne.mp hmark.symm
  rcases Nat.lt_or_ge (8 * q + lowest 8 b) bm.len with hlen | hlen
  · rw [Nat.min_eq_left hlen.le]
    have hmark := h _ hlt hlen
    rw [hset, eq_comm, Bool.and_eq_true, decide_eq_true_eq, beq_iff_eq] at hmark
    refine .inl ⟨⟨hmark.1, hlen, hmark.2⟩, fun j ⟨hij, hj, hv⟩ => ?_⟩
    exact Nat.le_of_not_lt fun hlow => hpass j hij hlow hj hv
  · rw [Nat.min_eq_right hlen]
    exact .inr ⟨fun j hij hj => hpass j hij (by omega) hj, rfl⟩

/-- A byte without a mark is passed over. -/
theorem Marks.pass (h : bm.Marks v i q 0) (hqi : 8 * q ≤ i) (hiq : i ≤ 8 * (q + 1))
    (hnext : bm.IsNext v (8 * (q + 1)) r) : bm.IsNext v i r := by
  refine hnext.skip hiq fun j hij hj hlen => ?_
  obtain ⟨off, rfl⟩ := Nat.exists_eq_add_of_le (hqi.trans hij)
  have hmark := h off (by omega) hlen
  have hzero : (0 : BitVec 8).getLsbD off = false := BitVec.getLsbD_zero
  rw [hzero, decide_eq_true hij, Bool.true_and] at hmark
  exact beq_eq_false_iff_ne.mp hmark.symm

theorem scanSet_spec (n q : Nat) (hn : q + n = (bm.len + 7) / 8) :
    bm.IsNext true (8 * q) (scanSet bm n q) := by
  induction n generalizing q with
  | zero => exact isNext_of_len_le (by omega)
  | succ n ih =>
      have hmarks : bm.Marks true (8 * q) q (bm.data q) := by
        intro off hoff _
        rw [decide_eq_true (Nat.le_add_right _ _), Bool.true_and, bit_eq_of_byte off hoff,
          beq_true]
      rw [scanSet, shiftLeft_three]
      dsimp only
      split
      · rename_i hb
        have hfound := hmarks.found le_rfl hb
        rw [min_def] at hfound
        split at hfound
        · rename_i hle
          rcases Nat.lt_or_eq_of_le hle with hlt | heq
          · rwa [if_pos hlt]
          · rw [if_neg (by omega), ← heq]
            exact hfound
        · rwa [if_neg (by omega)]
      · rename_i hb
        rw [not_not.mp hb] at hmarks
        exact hmarks.pass le_rfl (by omega) (ih (q + 1) (by omega))

theorem getLsbD_tail : ∀ t < 8, t ≠ 0 → ∀ off < 8,
    ((1#8 <<< t) - 1).getLsbD off = decide (off < t) := by decide

/-- The bits of byte `i` the scan looks at. -/
def scanByte (bm : Bitmap) (maxByte i : Nat) : BitVec 8 :=
  if i = maxByte - 1 ∧ bm.len &&& 7 ≠ 0 then ~~~bm.data i &&& ((1#8 <<< (bm.len &&& 7)) - 1)
  else ~~~bm.data i

/-- They mark no position behind `len`. -/
theorem scanByte_marks (hq : q < (bm.len + 7) / 8) :
    bm.Marks false (8 * q) q (bm.scanByte ((bm.len + 7) / 8) q)
      ∧ (bm.scanByte ((bm.len + 7) / 8) q ≠ 0 →
        8 * q + lowest 8 (bm.scanByte ((bm.len + 7) / 8) q) < bm.len) := by
  have h7 : bm.len &&& 7 = bm.len % 8 := Nat.and_two_pow_sub_one_eq_mod bm.len 3
  have hclear : ∀ off < 8, (~~~bm.data q).getLsbD off
      = (decide (8 * q ≤ 8 * q + off) && (bm.bit (8 * q + off) == false)) := by
    intro off hoff
    rw [decide_eq_true (Nat.le_add_right _ _), Bool.true_and, bit_eq_of_byte off hoff, beq_false,
      BitVec.getLsbD_not, decide_eq_true hoff, Bool.true_and]
  rw [scanByte, h7]
  by_cases htail : q = (bm.len + 7) / 8 - 1 ∧ bm.len % 8 ≠ 0
  · -- the last byte, with the bits behind `len` masked
    rw [if_pos htail]
    have hmask : ∀ off < 8, ((1#8 <<< (bm.len % 8)) - 1).getLsbD off = decide (off < bm.len % 8) :=
      getLsbD_tail _ (Nat.mod_lt _ (by omega)) htail.2
    constructor
    · intro off hoff hlen
      rw [BitVec.getLsbD_and, hmask off hoff, decide_eq_true (by omega), Bool.and_true,
        hclear off hoff]
    · intro hne
      obtain ⟨hlt, hset, -⟩ := lowest_spec _ hne
      rw [BitVec.getLsbD_and, hmask _ hlt, Bool.and_eq_true, decide_eq_true_eq] at hset
      omega
  · rw [if_neg htail]
    refine ⟨fun off hoff _ => hclear off hoff, fun hne => ?_⟩
    have hlt := (lowest_spec _ hne).1
    omega

theorem scanClear_spec (n q : Nat) (hn : q + n = (bm.len + 7) / 8) :
    bm.IsNext false (8 * q) (scanClear bm ((bm.len + 7) / 8) n q) := by
  induction n generalizing q with
  | zero => exact isNext_of_len_le (by omega)
  | succ n ih =>
      obtain ⟨hmarks, hlen⟩ := @scanByte_marks bm q (by omega)
      have hunfold : scanClear bm ((bm.len + 7) / 8) (n + 1) q
          = if bm.scanByte ((bm.len + 7) / 8) q ≠ 0
            then (q <<< 3) + lowest 8 (bm.scanByte ((bm.len + 7) / 8) q)
            else scanClear bm ((bm.len + 7) / 8) n (q + 1) := rfl
      rw [hunfold, shiftLeft_three]
      split
      · rename_i hne
        have hfound := hmarks.found le_rfl hne
        rwa [Nat.min_eq_left (hlen hne).le] at hfound
      · rename_i hzero
        rw [not_not.mp hzero] at hmarks
        exact hmarks.pass le_rfl (by omega) (ih (q + 1) (by omega))

/-! ### The first byte -/

theorem getLsbD_mask : ∀ t < 8, ∀ off < 8, (0xFF#8 <<< t).getLsbD off = decide (t ≤ off) := by
  decide

/-- **A search** takes the offset of the start in its byte into account twice when it ends there. -/
theorem search_iff {b : BitVec 8} {scan : Nat} (hmarks : bm.Marks v i (i / 8) b)
    (hlen : b ≠ 0 → 8 * (i / 8) + lowest 8 b ≤ bm.len) (hscan : bm.IsNext v (8 * (i / 8 + 1)) scan) :
    bm.IsNext v i (if b ≠ 0 then 8 * (i / 8) + i % 8 + lowest 8 b else scan)
      ↔ i % 8 = 0 ∨ b = 0 := by
  by_cases hb : b = 0
  · subst hb
    rw [if_neg (not_not.mpr rfl)]
    exact iff_of_true (hmarks.pass (Nat.mul_div_le i 8) (by omega) hscan) (.inr rfl)
  · have hfound := hmarks.found (Nat.mul_div_le i 8) hb
    rw [Nat.min_eq_left (hlen hb)] at hfound
    rw [if_pos hb, Nat.add_right_comm, hfound.add_iff, or_iff_left hb]

/-- `b` is the byte of `i` with the bits that are `v`, from `i` on. -/
theorem eq_zero_iff_of_marks {b : BitVec 8} (hmarks : ∀ off < 8, b.getLsbD off
      = (decide (i ≤ 8 * (i / 8) + off) && (bm.bit (8 * (i / 8) + off) == v))) :
    b = 0 ↔ ∀ j, i ≤ j → j < 8 * (i / 8 + 1) → bm.bit j = !v := by
  constructor
  · rintro rfl j hij hj
    obtain ⟨off, rfl⟩ := Nat.exists_eq_add_of_le ((Nat.mul_div_le i 8).trans hij)
    have hmark := hmarks off (by omega)
    have hzero : (0 : BitVec 8).getLsbD off = false := BitVec.getLsbD_zero
    rw [hzero, decide_eq_true hij, Bool.true_and] at hmark
    exact Bool.eq_not.mpr (beq_eq_false_iff_ne.mp hmark.symm)
  · intro hall
    refine BitVec.eq_of_getLsbD_eq fun off hoff => ?_
    rw [hmarks off hoff]
    by_cases hij : i ≤ 8 * (i / 8) + off
    · rw [hall _ hij (by omega)]
      cases v <;> simp
    · simp [hij]

variable (bm i) in
theorem firstSet_bits : ∀ off < 8, (bm.data (i / 8) &&& (0xFF#8 <<< (i % 8))).getLsbD off
    = (decide (i ≤ 8 * (i / 8) + off) && (bm.bit (8 * (i / 8) + off) == true)) := by
  intro off hoff
  have hiff : i % 8 ≤ off ↔ i ≤ 8 * (i / 8) + off := by omega
  rw [BitVec.getLsbD_and, getLsbD_mask _ (Nat.mod_lt _ (by omega)) _ hoff, bit_eq_of_byte off hoff,
    beq_true, Bool.and_comm, decide_eq_decide.mpr hiff]

variable (bm i) in
theorem firstClear_bits : ∀ off < 8, (~~~bm.data (i / 8) &&& (0xFF#8 <<< (i % 8))).getLsbD off
    = (decide (i ≤ 8 * (i / 8) + off) && (bm.bit (8 * (i / 8) + off) == false)) := by
  intro off hoff
  have hiff : i % 8 ≤ off ↔ i ≤ 8 * (i / 8) + off := by omega
  rw [BitVec.getLsbD_and, getLsbD_mask _ (Nat.mod_lt _ (by omega)) _ hoff, bit_eq_of_byte off hoff,
    beq_false, BitVec.getLsbD_not, decide_eq_true hoff, Bool.true_and, Bool.and_comm,
    decide_eq_decide.mpr hiff]

/-- The functions without their shifts and masks of the index. -/
theorem findNextSet_eq (hi : i < bm.len) : bm.findNextSet i
    = if bm.data (i / 8) &&& (0xFF#8 <<< (i % 8)) ≠ 0
      then 8 * (i / 8) + i % 8 + lowest 8 (bm.data (i / 8) &&& (0xFF#8 <<< (i % 8)))
      else scanSet bm ((bm.len + 7) / 8 - (i / 8 + 1)) (i / 8 + 1) := by
  have h7 : i &&& 7 = i % 8 := Nat.and_two_pow_sub_one_eq_mod i 3
  rw [findNextSet, if_neg (Nat.not_le.mpr hi), h7, shiftRight_three,
    shiftRight_three]
  dsimp only
  rw [shiftLeft_three]

theorem findNextClear_eq (hi : i < bm.len) : bm.findNextClear i
    = if ~~~bm.data (i / 8) &&& (0xFF#8 <<< (i % 8)) ≠ 0
      then 8 * (i / 8) + i % 8 + lowest 8 (~~~bm.data (i / 8) &&& (0xFF#8 <<< (i % 8)))
      else scanClear bm ((bm.len + 7) / 8) ((bm.len + 7) / 8 - (i / 8 + 1)) (i / 8 + 1) := by
  have h7 : i &&& 7 = i % 8 := Nat.and_two_pow_sub_one_eq_mod i 3
  rw [findNextClear, if_neg (Nat.not_le.mpr hi), h7, shiftRight_three,
    shiftRight_three]
  dsimp only
  rw [shiftLeft_three]

/-- **When `bitmap_find_next_set` finds the next set bit.** -/
theorem findNextSet_iff (htail : bm.ZeroTail) (i : Nat) : bm.IsNext true i (bm.findNextSet i)
    ↔ bm.len ≤ i ∨ i % 8 = 0 ∨ ∀ j, i ≤ j → j < 8 * (i / 8 + 1) → bm.bit j = false := by
  rcases Nat.lt_or_ge i bm.len with hi | hi
  · have hbits := firstSet_bits bm i
    rw [findNextSet_eq hi, or_iff_right (Nat.not_le.mpr hi)]
    refine (search_iff (fun off hoff _ => hbits off hoff) (fun hne => ?_)
      (scanSet_spec _ _ (by omega))).trans (or_congr_right (eq_zero_iff_of_marks hbits))
    -- a set bit is below `len`
    obtain ⟨hlt, hset, -⟩ := lowest_spec _ hne
    rw [hbits _ hlt, Bool.and_eq_true, beq_iff_eq] at hset
    by_contra hgt
    have hclear := htail (8 * (i / 8) + lowest 8 (bm.data (i / 8) &&& (0xFF#8 <<< (i % 8))))
      (by omega) (by omega)
    rw [hset.2] at hclear
    cases hclear
  · rw [findNextSet, if_pos hi]
    exact iff_of_true (isNext_of_len_le hi) (.inl hi)

/-- **When `bitmap_find_next_clear` finds the next clear bit.** -/
theorem findNextClear_iff (htail : bm.ZeroTail) (i : Nat) : bm.IsNext false i (bm.findNextClear i)
    ↔ bm.len ≤ i ∨ i % 8 = 0 ∨ ∀ j, i ≤ j → j < 8 * (i / 8 + 1) → bm.bit j = true := by
  rcases Nat.lt_or_ge i bm.len with hi | hi
  · have hbits := firstClear_bits bm i
    rw [findNextClear_eq hi, or_iff_right (Nat.not_le.mpr hi)]
    refine (search_iff (fun off hoff _ => hbits off hoff) (fun hne => ?_)
      (scanClear_spec _ _ (by omega))).trans (or_congr_right (eq_zero_iff_of_marks hbits))
    -- the first bit behind `len` is clear, if it is in the byte
    obtain ⟨hlt, -, hlow⟩ := lowest_spec _ hne
    by_contra hgt
    have hclear := htail bm.len le_rfl (by omega)
    have hmark := hlow (bm.len - 8 * (i / 8)) (by omega)
    rw [hbits _ (by omega), Nat.add_sub_cancel' (by omega), hclear, decide_eq_true hi.le] at hmark
    cases hmark
  · rw [findNextClear, if_pos hi]
    exact iff_of_true (isNext_of_len_le hi) (.inl hi)

end Next

/-- The searches are right for a start at the first bit of a byte, and for one that finds nothing in
its byte. -/
theorem findNext_iff (bm : Bitmap) (htail : bm.ZeroTail) (i : Nat) :
    (bm.IsNext true i (bm.findNextSet i)
        ↔ bm.len ≤ i ∨ i % 8 = 0 ∨ ∀ j, i ≤ j → j < 8 * (i / 8 + 1) → bm.bit j = false)
      ∧ (bm.IsNext false i (bm.findNextClear i)
        ↔ bm.len ≤ i ∨ i % 8 = 0 ∨ ∀ j, i ≤ j → j < 8 * (i / 8 + 1) → bm.bit j = true) :=
  ⟨findNextSet_iff htail i, findNextClear_iff htail i⟩

/-- The only set bit is bit 3. -/
def bitThree : Bitmap where
  data _ := 8
  len := 8

theorem zeroTail_bitThree : bitThree.ZeroTail := by
  intro j hj hlt
  have hlen : bitThree.len = 8 := rfl
  rw [hlen] at hj hlt
  omega

theorem findNext_iff_bitThree : bitThree.IsNext true 0 (bitThree.findNextSet 0)
    ∧ bitThree.IsNext false 0 (bitThree.findNextClear 0) :=
  ⟨(findNext_iff bitThree zeroTail_bitThree 0).1.mpr (.inr (.inl rfl)),
    (findNext_iff bitThree zeroTail_bitThree 0).2.mpr (.inr (.inl rfl))⟩

/-- From bit 3 on the search for a set bit returns 6. -/
theorem not_findNext : ¬∀ bm : Bitmap, bm.ZeroTail → ∀ i,
    bm.IsNext true i (bm.findNextSet i) ∧ bm.IsNext false i (bm.findNextClear i) := by
  intro hclaim
  have hthree : bitThree.IsNext true 3 3 :=
    .inl ⟨⟨le_rfl, by decide, by decide⟩, fun j hj => hj.1⟩
  have hsix : bitThree.findNextSet 3 = 6 := by decide
  have hfound := (hclaim bitThree zeroTail_bitThree 3).1
  rw [hsix] at hfound
  exact absurd (hthree.unique hfound) (by decide)

/-! ### From the first bit on -/

/-- The result of a search from 0: the least clear bit. -/
def IsFirstClear (bm : Bitmap) (i : Nat) : Prop :=
  bm.bit i = false ∧ ∀ j < i, bm.bit j = true

/-- **The search from bit 0** finds the first clear bit, if there is one below `len`, whatever is
behind `len`. -/
theorem findNextClear_zero {bm : Bitmap} (hex : ∃ j < bm.len, bm.bit j = false) :
    IsFirstClear bm (findNextClear bm 0) ∧ findNextClear bm 0 < bm.len := by
  obtain ⟨j₀, hj₀, hclear₀⟩ := hex
  have hnext : bm.IsNext false 0 (min (findNextClear bm 0) bm.len) := by
    have hbits := firstClear_bits bm 0
    rw [findNextClear_eq (Nat.zero_lt_of_lt hj₀)]
    have hmarks : bm.Marks false 0 0 (~~~bm.data (0 / 8) &&& (0xFF#8 <<< (0 % 8))) :=
      fun off hoff _ => hbits off hoff
    have hscan : bm.IsNext false (8 * (0 / 8 + 1))
        (scanClear bm ((bm.len + 7) / 8) ((bm.len + 7) / 8 - (0 / 8 + 1)) (0 / 8 + 1)) :=
      scanClear_spec _ _ (by omega)
    split
    · rename_i hne
      exact hmarks.found le_rfl hne
    · rename_i hzero
      rw [not_not.mp hzero] at hmarks
      have hpass := hmarks.pass le_rfl (by omega) hscan
      rcases hpass with hleast | ⟨hnone, heq⟩
      · rw [Nat.min_eq_left hleast.1.2.1.le]
        exact .inl hleast
      · exact absurd hclear₀ (hnone j₀ (Nat.zero_le _) hj₀)
  rcases hnext with ⟨⟨-, hlt, hbit⟩, hleast⟩ | ⟨hnone, -⟩
  · have hmin : min (bm.findNextClear 0) bm.len = bm.findNextClear 0 := by omega
    rw [hmin] at hlt hbit hleast
    refine ⟨⟨hbit, fun j hj => ?_⟩, hlt⟩
    by_contra hset
    have hle := hleast ⟨Nat.zero_le j, hj.trans hlt, Bool.eq_false_iff.mpr hset⟩
    omega
  · exact absurd hclear₀ (hnone j₀ (Nat.zero_le _) hj₀)

/-! ## Counting clear bits -/

/-- The number of clear bits below `len`. -/
def clearCount (bm : Bitmap) : Nat := (List.range bm.len).countP fun i => !bm.bit i

theorem countP_range_flip {p q : Nat → Bool} {i n : Nat} (hi : i < n) (hp : p i = true)
    (hq : q i = false) (hother : ∀ j, j ≠ i → q j = p j) :
    (List.range n).countP q + 1 = (List.range n).countP p := by
  induction n with
  | zero => omega
  | succ n ih =>
      rw [List.range_succ, List.countP_append, List.countP_append, List.countP_singleton,
        List.countP_singleton]
      by_cases hin : i = n
      · subst hin
        have hsame : (List.range i).countP q = (List.range i).countP p := by
          refine List.countP_congr fun j hj => ?_
          rw [hother j (by have := List.mem_range.mp hj; omega)]
        rw [hsame, hp, hq]
        rfl
      · rw [hother n (Ne.symm hin)]
        have := ih (by omega)
        omega

theorem clearCount_le (bm : Bitmap) : bm.clearCount ≤ bm.len := by
  have := List.countP_le_length (p := fun i => !bm.bit i) (l := List.range bm.len)
  rwa [List.length_range] at this

theorem exists_clear {bm : Bitmap} (h : 0 < bm.clearCount) : ∃ j < bm.len, bm.bit j = false := by
  obtain ⟨j, hj, hclear⟩ := List.countP_pos_iff.mp h
  exact ⟨j, List.mem_range.mp hj, by simpa using hclear⟩

theorem clearCount_set {bm : Bitmap} {i : Nat} (hi : i < bm.len) (hbit : bm.bit i = false) :
    (bm.set i).clearCount + 1 = bm.clearCount := by
  rw [clearCount, clearCount, set_len]
  refine countP_range_flip hi ?_ ?_ ?_
  · simp [hbit]
  · simp [bit_set hi]
  · intro j hj
    simp [bit_set hi, hj]

theorem clearCount_clear {bm : Bitmap} {i : Nat} (hi : i < bm.len) (hbit : bm.bit i = true) :
    bm.clearCount + 1 = (bm.clear i).clearCount := by
  rw [clearCount, clearCount, clear_len]
  refine countP_range_flip hi ?_ ?_ ?_
  · simp [bit_clear hi]
  · simp [hbit]
  · intro j hj
    simp [bit_clear hi, hj]

theorem clearCount_zero (len : Nat) : (⟨fun _ => 0, len⟩ : Bitmap).clearCount = len := by
  have h : ∀ i ∈ List.range len, (!(⟨fun _ => 0, len⟩ : Bitmap).bit i) = true := by
    intro i _
    simp [bit_eq]
  rw [clearCount, List.countP_eq_length.mpr h, List.length_range]

end Bitmap

end NoobKernel.Misc
