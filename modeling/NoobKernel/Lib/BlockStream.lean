import Mathlib.Data.List.GetD
import Mathlib.Tactic

set_option autoImplicit false

/-! # Hashing a stream block by block

A block hash takes its input `b` elements at a time. `absorb` is the chaining value after the
first blocks of an input, and it does not depend on what follows them (`absorb_append`).

A stream is given its input in chunks of any length, and keeps an unfinished block in a buffer of
one block. It `Represents` the input so far: the chaining value of the whole blocks, and the rest
at the front of the buffer. `update` keeps this for any chunk (`Represents.update`); `finish` pads
what the stream represents with a mark, zeros and a length, in one block or in two
(`Represents.finish`).
-/

namespace BlockStream

variable {α C : Type} {b : Nat}

/-! ## Blocks -/

/-- The chaining value after the first `n` blocks. -/
def absorb (transform : C → List α → C) (b : Nat) (chain : C) (input : List α) : Nat → C
  | 0 => chain
  | n + 1 => transform (absorb transform b chain input n) ((input.drop (b * n)).take b)

section

variable (transform : C → List α → C) (chain : C)

/-- The input behind the first `n` blocks does not matter. -/
theorem absorb_append {xs ys : List α} {n : Nat} (h : b * n ≤ xs.length) :
    absorb transform b chain (xs ++ ys) n = absorb transform b chain xs n := by
  induction n with
  | zero => rfl
  | succ n ih =>
      rw [Nat.mul_succ] at h
      rw [absorb, absorb, ih (by omega), List.drop_append_of_le_length (by omega),
        List.take_append_of_le_length (by rw [List.length_drop]; omega)]

/-- One more block. -/
theorem absorb_block {xs block : List α} {n : Nat} (hxs : xs.length = b * n)
    (hblock : block.length = b) :
    absorb transform b chain (xs ++ block) (n + 1)
      = transform (absorb transform b chain xs n) block := by
  rw [absorb, absorb_append _ _ hxs.ge, ← hxs, List.drop_left]
  rw [List.take_of_length_le hblock.le]

end

/-! ## The buffer -/

/-- `n` elements of `src` at `off` and after. -/
def copyTo (buf : Vector α b) (off : Nat) (src : List α) (n : Nat) : Vector α b :=
  Vector.ofFn fun i => if off ≤ i ∧ i < off + n then src.getD (i - off) buf[i] else buf[i]

/-- The buffer up to the end of what has been copied into it. -/
theorem take_copyTo (buf : Vector α b) {off n : Nat} {src : List α} (hoff : off + n ≤ b)
    (hsrc : n ≤ src.length) :
    (copyTo buf off src n).toList.take (off + n) = buf.toList.take off ++ src.take n := by
  have hoff' : (buf.toList.take off).length = off := by
    rw [List.length_take, Vector.length_toList]
    omega
  rw [copyTo, Vector.toList_ofFn]
  apply List.ext_getElem
  · rw [List.length_take, List.length_ofFn, List.length_append, hoff', List.length_take]
    omega
  · intro i hi hi'
    rw [List.length_append, hoff', List.length_take] at hi'
    rw [List.getElem_take, List.getElem_ofFn]
    show (if off ≤ i ∧ i < off + n then src.getD (i - off) _ else _) = _
    by_cases hlow : i < off
    · rw [if_neg (by omega), List.getElem_append_left (by omega), List.getElem_take,
        Vector.getElem_toList]
      rfl
    · rw [if_pos ⟨by omega, by omega⟩, List.getElem_append_right (by omega), List.getElem_take,
        List.getD_eq_getElem _ _ (by show i - off < _; omega)]
      congr 1
      exact (congrArg (i - ·) hoff').symm

/-- A copy that fills the buffer up. -/
theorem toList_copyTo (buf : Vector α b) {off n : Nat} {src : List α} (hoff : off + n = b)
    (hsrc : n ≤ src.length) :
    (copyTo buf off src n).toList = buf.toList.take off ++ src.take n := by
  have h := take_copyTo buf hoff.le hsrc
  rwa [hoff, List.take_of_length_le Vector.length_toList.le] at h

/-! ## The stream -/

/-- A chaining value and the buffer of an unfinished block. -/
structure Stream (α C : Type) (b : Nat) where
  state : C
  buf : Vector α b

/-- Whole blocks of the input, with the rest of it; `fuel` bounds the rounds. -/
def blocks (transform : C → List α → C) (b : Nat) : Nat → C → List α → C × List α
  | 0, s, p => (s, p)
  | fuel + 1, s, p =>
      if b ≤ p.length then blocks transform b fuel (transform s (p.take b)) (p.drop b) else (s, p)

/-- Whole blocks of the input; its tail goes to the buffer. -/
def drain (transform : C → List α → C) (x : Stream α C b) (p : List α) : Stream α C b :=
  let (s, p) := blocks transform b p.length x.state p
  if p.length ≠ 0 then ⟨s, copyTo x.buf 0 p p.length⟩ else ⟨s, x.buf⟩

/-- The next chunk, with `used` elements in the buffer. -/
def update (transform : C → List α → C) (used : Nat) (x : Stream α C b) (data : List α) :
    Stream α C b :=
  if used ≠ 0 then
    let avail := b - used
    if data.length < avail then { x with buf := copyTo x.buf used data data.length }
    else
      let buf := copyTo x.buf used data avail
      drain transform ⟨transform x.state buf.toList, buf⟩ (data.drop avail)
  else drain transform x data

/-- `mark`, zeros up to the index `limit` of a block, and the length from there on. -/
def finish (transform : C → List α → C) (mark zero : α) (limit : Nat) (length : List α)
    (used : Nat) (x : Stream α C b) : C :=
  let buf := copyTo x.buf used [mark] 1
  let used := used + 1
  let (s, buf, used) :=
    if used > limit then
      let buf := copyTo buf used (List.replicate (b - used) zero) (b - used)
      (transform x.state buf.toList, buf, 0)
    else (x.state, buf, used)
  let buf := copyTo buf used (List.replicate (limit - used) zero) (limit - used)
  let buf := copyTo buf limit length (b - limit)
  transform s buf.toList

/-! ## What a stream represents -/

/-- The stream after `n` whole blocks and `rest`. -/
structure Holds (transform : C → List α → C) (initial : C) (x : Stream α C b) (n : Nat)
    (whole rest : List α) : Prop where
  length : whole.length = b * n
  short : rest.length < b
  state : x.state = absorb transform b initial whole n
  buf : x.buf.toList.take rest.length = rest

/-- The stream after the input `m`. -/
def Represents (transform : C → List α → C) (initial : C) (x : Stream α C b) (m : List α) : Prop :=
  ∃ n whole rest, m = whole ++ rest ∧ Holds transform initial x n whole rest

variable {transform : C → List α → C} {initial : C} {x : Stream α C b} {m whole rest p : List α} {n : Nat}

theorem Holds.length_mod (h : Holds transform initial x n whole rest) :
    (whole ++ rest).length % b = rest.length := by
  rw [List.length_append, h.length, Nat.mul_add_mod, Nat.mod_eq_of_lt h.short]

/-- The whole blocks and the rest are those of the length. -/
theorem represents_iff (hb : 0 < b) :
    Represents transform initial x m
      ↔ x.state = absorb transform b initial m (m.length / b)
        ∧ x.buf.toList.take (m.length % b) = m.drop (b * (m.length / b)) := by
  have hdiv := Nat.div_add_mod m.length b
  constructor
  · rintro ⟨n, whole, rest, rfl, h⟩
    have hn : (whole ++ rest).length / b = n := by
      rw [List.length_append, h.length, Nat.mul_add_div hb, Nat.div_eq_of_lt h.short, Nat.add_zero]
    rw [h.length_mod, hn, absorb_append _ _ h.length.ge, ← h.length, List.drop_left]
    exact ⟨h.state, h.buf⟩
  · rintro ⟨hstate, hbuf⟩
    have hwhole : (m.take (b * (m.length / b))).length = b * (m.length / b) := by
      rw [List.length_take]
      omega
    have hrest : (m.drop (b * (m.length / b))).length = m.length % b := by
      rw [List.length_drop]
      omega
    have hsplit := List.take_append_drop (b * (m.length / b)) m
    refine ⟨m.length / b, m.take (b * (m.length / b)), m.drop (b * (m.length / b)), hsplit.symm,
      hwhole, ?_, ?_, ?_⟩
    · rw [hrest]
      exact Nat.mod_lt _ hb
    · have happend := @absorb_append _ _ b transform initial (m.take (b * (m.length / b)))
        (m.drop (b * (m.length / b))) (m.length / b) hwhole.ge
      rw [hsplit] at happend
      exact hstate.trans happend
    · rw [hrest]
      exact hbuf

/-- The loop takes whole blocks as long as there are any. -/
theorem blocks_spec (hb : 0 < b) {fuel : Nat} (hfuel : p.length ≤ fuel)
    (hlen : whole.length = b * n) :
    ∃ k mid tail, p = mid ++ tail ∧ mid.length = b * k ∧ tail.length < b
      ∧ blocks transform b fuel (absorb transform b initial whole n) p
        = (absorb transform b initial (whole ++ mid) (n + k), tail) := by
  induction fuel generalizing p whole n with
  | zero =>
      obtain rfl : p = [] := List.length_eq_zero_iff.mp (Nat.le_zero.mp hfuel)
      refine ⟨0, [], [], rfl, rfl, hb, ?_⟩
      rw [List.append_nil]
      rfl
  | succ fuel ih =>
      rw [blocks]
      split
      · rename_i hle
        -- the first block is absorbed, and the induction goes on behind it
        have hblock : (p.take b).length = b := by
          rw [List.length_take]
          omega
        have hlen' : (whole ++ p.take b).length = b * (n + 1) := by
          rw [List.length_append, hlen, hblock, Nat.mul_succ]
        have hrest : (p.drop b).length ≤ fuel := by
          rw [List.length_drop]
          omega
        obtain ⟨k, mid, tail, hp, hmid, htail, hrun⟩ := ih hrest hlen'
        refine ⟨k + 1, p.take b ++ mid, tail, ?_, ?_, htail, ?_⟩
        · rw [List.append_assoc, ← hp, List.take_append_drop]
        · rw [List.length_append, hblock, hmid, Nat.mul_succ, Nat.add_comm]
        · rw [← absorb_block transform initial hlen hblock, hrun, List.append_assoc, Nat.add_assoc, Nat.add_comm 1]
      · rename_i hlt
        refine ⟨0, [], p, rfl, rfl, Nat.lt_of_not_le hlt, ?_⟩
        rw [List.append_nil]
        rfl

theorem represents_drain (hb : 0 < b) (hlen : whole.length = b * n)
    (hstate : x.state = absorb transform b initial whole n) :
    Represents transform initial (drain transform x p) (whole ++ p) := by
  obtain ⟨k, mid, tail, rfl, hmid, htail, hrun⟩ :=
    @blocks_spec _ _ b transform initial whole p n hb p.length le_rfl hlen
  have hwhole : (whole ++ mid).length = b * (n + k) := by
    rw [List.length_append, hlen, hmid, Nat.mul_add]
  unfold drain
  rw [hstate, hrun]
  dsimp only
  refine ⟨n + k, whole ++ mid, tail, (List.append_assoc _ _ _).symm, ?_⟩
  split
  · refine ⟨hwhole, htail, rfl, ?_⟩
    have htake := @take_copyTo _ _ x.buf 0 tail.length tail (by omega) le_rfl
    rwa [Nat.zero_add, List.take_zero, List.nil_append, List.take_length] at htake
  · rename_i hzero
    rw [not_not, List.length_eq_zero_iff] at hzero
    subst hzero
    exact ⟨hwhole, htail, rfl, rfl⟩

/-- **`update` consumes its chunk**, whatever its length. -/
theorem Represents.update (hb : 0 < b) (h : Represents transform initial x m) (data : List α) :
    Represents transform initial (update transform (m.length % b) x data) (m ++ data) := by
  obtain ⟨n, whole, rest, rfl, h⟩ := h
  have hshort := h.short
  rw [h.length_mod]
  unfold BlockStream.update
  dsimp only
  split
  · split
    · -- the chunk does not fill the buffer
      rename_i hroom
      have hlen : (rest ++ data).length = rest.length + data.length := List.length_append
      refine ⟨n, whole, rest ++ data, List.append_assoc _ _ _, h.length, by omega, h.state, ?_⟩
      dsimp only
      rw [hlen, take_copyTo _ (by omega) le_rfl, h.buf, List.take_length]
    · -- the first part of the chunk completes a block
      rename_i hfull
      have hblock : (rest ++ data.take (b - rest.length)).length = b := by
        rw [List.length_append, List.length_take]
        omega
      have hbuf : (copyTo x.buf rest.length data (b - rest.length)).toList
          = rest ++ data.take (b - rest.length) := by
        rw [toList_copyTo _ (by omega) (by omega), h.buf]
      have hdata : whole ++ rest ++ data
          = whole ++ (rest ++ data.take (b - rest.length)) ++ data.drop (b - rest.length) := by
        simp only [List.append_assoc, List.take_append_drop]
      rw [hdata]
      apply represents_drain hb (n := n + 1)
      · rw [List.length_append, h.length, hblock, Nat.mul_succ]
      · rw [hbuf, absorb_block _ _ h.length hblock, h.state]
  · rename_i hzero
    rw [not_not, List.length_eq_zero_iff] at hzero
    subst hzero
    rw [List.append_nil]
    exact represents_drain hb h.length h.state

/-! ## Padding -/

/-- A block of `off` elements, zeros up to `limit`, and the length. -/
theorem toList_lastBlock (buf : Vector α b) {off limit : Nat} {zero : α} {length : List α}
    (hoff : off ≤ limit) (hlimit : limit ≤ b) (hlength : length.length = b - limit) :
    (copyTo (copyTo buf off (List.replicate (limit - off) zero) (limit - off)) limit length
        (b - limit)).toList
      = buf.toList.take off ++ List.replicate (limit - off) zero ++ length := by
  have hzeros := @take_copyTo _ _ buf off (limit - off) (List.replicate (limit - off) zero)
    (by omega) List.length_replicate.ge
  rw [Nat.add_sub_cancel' hoff, List.take_of_length_le List.length_replicate.le] at hzeros
  rw [toList_copyTo _ (Nat.add_sub_cancel' hlimit) hlength.ge, hzeros,
    List.take_of_length_le hlength.le]

/-- **`finish` pads** what the stream represents. The zeros reach the limit of the block with the
mark, or, where the mark is behind it, of the next. -/
theorem Represents.finish (hb : 0 < b) (h : Represents transform initial x m) (mark zero : α)
    {limit z : Nat} {length : List α} (hlimit : limit ≤ b) (hlength : length.length = b - limit)
    (hz : m.length % b + 1 + z = limit
      ∨ limit < m.length % b + 1 ∧ m.length % b + 1 + z = b + limit)
    {count : Nat} (hcount : m.length + 1 + z + (b - limit) = b * count) :
    finish transform mark zero limit length (m.length % b) x
      = absorb transform b initial (m ++ [mark] ++ List.replicate z zero ++ length) count := by
  obtain ⟨n, whole, rest, rfl, h⟩ := h
  have hshort := h.short
  have hmark : (copyTo x.buf rest.length [mark] 1).toList.take (rest.length + 1)
      = rest ++ [mark] := by
    rw [take_copyTo _ hshort (Nat.le_refl 1), h.buf]
    rfl
  rw [h.length_mod] at hz ⊢
  rw [List.length_append, h.length] at hcount
  unfold BlockStream.finish
  dsimp only
  rcases hz with hz | ⟨hover, hz⟩
  · -- mark, zeros and length fill the block that was begun
    have hblock : (rest ++ [mark] ++ List.replicate z zero ++ length).length = b := by
      simp only [List.length_append, List.length_singleton, List.length_replicate]
      omega
    obtain rfl : count = n + 1 := by
      refine Nat.eq_of_mul_eq_mul_left hb ?_
      rw [Nat.mul_succ]
      omega
    have hlast := @toList_lastBlock _ _ (copyTo x.buf rest.length [mark] 1) (rest.length + 1) limit
      zero length (by omega) hlimit hlength
    obtain rfl : z = limit - (rest.length + 1) := by omega
    rw [if_neg (by omega)]
    dsimp only
    rw [hlast, hmark, h.state, ← absorb_block transform initial h.length hblock]
    simp only [List.append_assoc]
  · -- the mark leaves no room for the length
    have hsplit : z = (b - (rest.length + 1)) + limit := by omega
    have hblock : (rest ++ [mark] ++ List.replicate (b - (rest.length + 1)) zero).length = b := by
      simp only [List.length_append, List.length_singleton, List.length_replicate]
      omega
    have hwhole : (whole ++ (rest ++ [mark] ++ List.replicate (b - (rest.length + 1)) zero)).length
        = b * (n + 1) := by
      rw [List.length_append, hblock, h.length, Nat.mul_succ]
    have hlastBlock : (List.replicate limit zero ++ length).length = b := by
      rw [List.length_append, List.length_replicate]
      omega
    obtain rfl : count = n + 1 + 1 := by
      refine Nat.eq_of_mul_eq_mul_left hb ?_
      rw [Nat.mul_succ, Nat.mul_succ]
      omega
    have hfill := @toList_copyTo _ _ (copyTo x.buf rest.length [mark] 1) (rest.length + 1)
      (b - (rest.length + 1)) (List.replicate (b - (rest.length + 1)) zero) (by omega)
      List.length_replicate.ge
    rw [List.take_of_length_le List.length_replicate.le, hmark] at hfill
    rw [if_pos hover]
    dsimp only
    rw [toList_lastBlock _ (Nat.zero_le _) hlimit hlength, hfill, List.take_zero, List.nil_append,
      Nat.sub_zero, h.state, ← absorb_block transform initial h.length hblock,
      ← absorb_block transform initial hwhole hlastBlock,
      hsplit, List.replicate_add]
    simp only [List.append_assoc]

end BlockStream
