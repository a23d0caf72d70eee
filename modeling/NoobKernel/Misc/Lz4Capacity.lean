import NoobKernel.Misc.Lz4RoundTrip

set_option autoImplicit false

/-! # The LZ4 encoder and the capacity of its output (`misc/lz4.c`)

Which matches the encoder finds depends on the input and the acceleration alone
(`findMatches`); the capacity decides how many of them it writes. The bytes written are those
at the indices below the length of the output (`lz4CompressFast`), so the encoder stays inside
its buffer when that length is at most the capacity.

The token of a match and the bytes of its literal length are written before the capacity is
compared (`lz4_write_literal`), everything else after. `lz4CompressFast_inside_iff` is what
follows. A match costs at most 256 bytes for 255 of the input it stands for
(`Match.encodedLength_le`), so `LZ4_COMPRESSBOUND` has room for any number of them.
-/

namespace NoobKernel.Misc.Lz4

/-- A match found by the loop; the bytes from `anchor` to `ip` are its literals. -/
structure Match where
  anchor : Nat
  ip : Nat
  offset : Nat
  matchEnd : Nat
  deriving DecidableEq

namespace Match

/-- The bytes written before the first comparison with the capacity. -/
def headLength (m : Match) : Nat := (lz4WriteLiteral (m.ip - m.anchor)).length

def encodedLength (m : Match) : Nat :=
  m.headLength + (m.ip - m.anchor) + 2
    + (lengthTail (m.matchEnd - m.ip - LZ4_MINMATCH)).length

def literals (src : List UInt8) (m : Match) : List UInt8 :=
  (src.drop m.anchor).take (m.ip - m.anchor)

end Match

/-- The matches found by the loop over the input. -/
def findMatches (src : List UInt8) (step : Nat) : Nat → Nat → Nat → (Nat → Nat) → List Match
  | 0, _, _, _ => []
  | fuel + 1, ip, anchor, hashTable =>
      if ip + LZ4_MFLIMIT < src.length then
        let h := LZ4_HASH_FUNCTION (lz4Read32 src ip) &&& (LZ4_HASHTABLESIZE - 1)
        let ref := hashTable h
        let hashTable := Function.update hashTable h ip
        if ip - ref = 0 ∨ 65535 < ip - ref ∨ lz4Read32 src ref ≠ lz4Read32 src ip then
          findMatches src step fuel (ip + step) anchor hashTable
        else
          let matchEnd := matchEndOf src ref ip
          ⟨anchor, ip, ip - ref, matchEnd⟩ :: findMatches src step fuel matchEnd matchEnd hashTable
      else []

/-- The matches of an input at a given acceleration. -/
def matchesOf (src : List UInt8) (acceleration : Int) : List Match :=
  if src.length < LZ4_MINMATCH then []
  else findMatches src (if 1 < acceleration then acceleration.toNat else 1) src.length 0 0
    fun _ => 0

/-- The matches written one after the other. -/
def emitMatches (src : List UInt8) (cap : Nat) :
    List Match → Nat → List UInt8 → Bool × Nat × List UInt8
  | [], anchor, out => (true, anchor, out)
  | m :: ms, anchor, out =>
      let (ok, out) := emitSequence cap (m.literals src) m.offset (m.matchEnd - m.ip) out
      if ok then emitMatches src cap ms m.matchEnd out else (false, anchor, out)

/-- **The encoder writes the matches it finds.** -/
theorem compressLoop_eq (src : List UInt8) (cap step fuel ip anchor : Nat)
    (hashTable : Nat → Nat) (out : List UInt8) :
    compressLoop src cap step fuel ip anchor hashTable out
      = emitMatches src cap (findMatches src step fuel ip anchor hashTable) anchor out := by
  induction fuel generalizing ip anchor hashTable out with
  | zero => rfl
  | succ fuel ih =>
      rw [compressLoop, findMatches]
      split
      · dsimp only
        split
        · exact ih _ _ _ _
        · rw [emitMatches]
          simp only [ih]
          rfl
      · rfl

/-! ## Where the matches lie -/

/-- The matches follow each other from `a` on, within the input. -/
def Chain (src : List UInt8) : Nat → List Match → Prop
  | a, [] => a ≤ src.length
  | a, m :: ms => m.anchor = a ∧ a ≤ m.ip ∧ m.ip + LZ4_MINMATCH ≤ m.matchEnd
      ∧ m.matchEnd ≤ src.length ∧ Chain src m.matchEnd ms

theorem Chain.le_length {src : List UInt8} {a : Nat} {ms : List Match} (h : Chain src a ms) :
    a ≤ src.length := by
  cases ms with
  | nil => exact h
  | cons m ms =>
      obtain ⟨-, hle, hmin, hend, -⟩ := h
      omega

theorem chain_findMatches {src : List UInt8} {step fuel ip anchor : Nat}
    {hashTable : Nat → Nat} (hle : anchor ≤ ip) (hend : anchor ≤ src.length) :
    Chain src anchor (findMatches src step fuel ip anchor hashTable) := by
  induction fuel generalizing ip anchor hashTable with
  | zero => exact hend
  | succ fuel ih =>
      rw [findMatches]
      split
      · rename_i hlimit
        dsimp only
        split
        · exact ih (by omega) hend
        · rename_i hmatch
          push Not at hmatch
          obtain ⟨hpos, -, heq⟩ := hmatch
          obtain ⟨hrep, hmin⟩ := repeats_matchEndOf hlimit (by omega) heq
          exact ⟨rfl, hle, hmin, hrep.1, ih (le_refl _) hrep.1⟩
      · exact hend

theorem chain_matchesOf (src : List UInt8) (acceleration : Int) :
    Chain src 0 (matchesOf src acceleration) := by
  unfold matchesOf
  split
  · exact Nat.zero_le _
  · exact chain_findMatches (le_refl 0) (Nat.zero_le _)

/-! ## One match -/

theorem writeChecked_eq {cap : Nat} (bs : List UInt8) {out : List UInt8}
    (hle : out.length ≤ cap) :
    writeChecked cap out bs
      = (decide (out.length + bs.length ≤ cap), out ++ bs.take (cap - out.length)) := by
  induction bs generalizing out with
  | nil => simp [writeChecked, hle]
  | cons b bs ih =>
      rw [writeChecked]
      split
      · rename_i hfull
        have hzero : cap - out.length = 0 := by omega
        rw [hzero, List.take_zero, List.append_nil, List.length_cons]
        congr 1
        exact (decide_eq_false (by omega)).symm
      · rename_i hroom
        have hlen : (out ++ [b]).length = out.length + 1 := by simp
        obtain ⟨n, hn⟩ : ∃ n, cap - out.length = n + 1 := ⟨cap - out.length - 1, by omega⟩
        have hn' : cap - (out.length + 1) = n := by omega
        rw [ih (by omega), hlen, hn, hn', List.take_succ_cons, List.append_assoc,
          List.singleton_append, List.length_cons]
        congr 2
        rw [Nat.add_assoc, Nat.add_comm 1]

/-- The head of a match does not fit, and is written. -/
theorem emitSequence_overrun {cap offset matchLen : Nat} {literals out : List UInt8}
    (h : cap < out.length + (lz4WriteLiteral literals.length).length) :
    emitSequence cap literals offset matchLen out
      = (false, out ++ lz4WriteLiteral literals.length) := by
  unfold emitSequence
  dsimp only
  rw [List.length_append, if_pos (by omega)]

/-- The head of a match fits: so does all that is written of the match, and the match is written
if it fits. -/
theorem emitSequence_inside {cap offset matchLen : Nat} {literals out : List UInt8}
    (h : out.length + (lz4WriteLiteral literals.length).length ≤ cap) :
    (emitSequence cap literals offset matchLen out).2.length ≤ cap
      ∧ ((emitSequence cap literals offset matchLen out).1 = true ↔
          out.length + ((lz4WriteLiteral literals.length).length + literals.length + 2
            + (lengthTail (matchLen - LZ4_MINMATCH)).length) ≤ cap) := by
  unfold emitSequence
  dsimp only
  generalize lz4WriteLiteral literals.length = head at h ⊢
  generalize matchLen - LZ4_MINMATCH = ml
  split
  · -- the literals do not fit behind their head
    rename_i hlits
    rw [List.length_append] at hlits
    rw [List.length_append]
    exact ⟨h, by simp; omega⟩
  rename_i hlits
  rw [List.length_append] at hlits
  generalize hmod : (out ++ head ++ literals).modify out.length _ = written
  have hlen : written.length = out.length + head.length + literals.length := by
    rw [← hmod, List.length_modify, List.length_append, List.length_append]
  split
  · exact ⟨by dsimp only; omega, by simp; omega⟩
  rename_i hoffs
  unfold lengthTail
  split
  · -- the bytes of the match length are checked one by one, so a part of them may be written
    have hlen₂ : (written ++ [UInt8.ofNat offset, UInt8.ofNat (offset >>> 8)]).length
        = written.length + 2 := by simp
    rw [writeChecked_eq _ (by omega), List.length_append, List.length_take, hlen₂]
    dsimp only
    rw [decide_eq_true_iff]
    omega
  · simp
    omega

theorem length_groupBytes (literals : List UInt8) (offset ml : Nat) :
    (groupBytes literals offset ml).length
      = (lz4WriteLiteral literals.length).length + literals.length + 2
        + (lengthTail ml).length := by
  rw [groupBytes, lz4WriteLiteral_eq]
  simp
  omega

/-- What the encoder does with a match. -/
theorem Chain.emitSequence {src : List UInt8} {a : Nat} {m : Match} {ms : List Match}
    (h : Chain src a (m :: ms)) {cap : Nat} {out written : List UInt8} {ok : Bool}
    (hrun : Lz4.emitSequence cap (m.literals src) m.offset (m.matchEnd - m.ip) out
      = (ok, written)) :
    (cap < out.length + m.headLength → ok = false ∧ cap < written.length)
      ∧ (out.length + m.headLength ≤ cap → written.length ≤ cap
        ∧ (ok = true ↔ out.length + m.encodedLength ≤ cap))
      ∧ (ok = true → written.length = out.length + m.encodedLength) := by
  obtain ⟨rfl, hle, hmin, hend, -⟩ := h
  have hlits : (m.literals src).length = m.ip - m.anchor := by
    rw [Match.literals, List.length_take, List.length_drop]
    omega
  unfold Match.encodedLength Match.headLength
  rw [← hlits]
  refine ⟨fun hhead => ?_, fun hhead => ?_, fun hok => ?_⟩
  · rw [emitSequence_overrun hhead] at hrun
    obtain ⟨rfl, rfl⟩ := Prod.mk.inj hrun
    rw [List.length_append]
    exact ⟨rfl, hhead⟩
  · have hinside := @emitSequence_inside cap m.offset (m.matchEnd - m.ip) _ out hhead
    rwa [hrun] at hinside
  · rw [hok] at hrun
    rw [(emitSequence_spec hrun).1, List.length_append, length_groupBytes]

/-! ## All matches -/

/-- The length of the matches in the output. -/
def encodedLength (ms : List Match) : Nat := (ms.map Match.encodedLength).sum

/-- After `n` bytes of output: wherever the matches before one fit in the capacity, the head of
this one does too. -/
def HeadsFit (cap n : Nat) (ms : List Match) : Prop :=
  ∀ before m after, ms = before ++ m :: after →
    n + encodedLength before ≤ cap → n + encodedLength before + m.headLength ≤ cap

theorem headsFit_nil (cap n : Nat) : HeadsFit cap n [] := by
  intro before m after h
  exact absurd h (by simp)

theorem headsFit_cons {cap n : Nat} {m : Match} {ms : List Match} :
    HeadsFit cap n (m :: ms)
      ↔ (n ≤ cap → n + m.headLength ≤ cap) ∧ HeadsFit cap (n + m.encodedLength) ms := by
  constructor
  · intro h
    constructor
    · intro hn
      simpa [encodedLength] using h [] m ms rfl (by simpa [encodedLength] using hn)
    · intro before m' after heq
      have := h (m :: before) m' after (by rw [heq, List.cons_append])
      simpa [encodedLength, Nat.add_assoc] using this
  · rintro ⟨hhead, htail⟩ before m' after heq
    cases before with
    | nil =>
        obtain ⟨rfl, rfl⟩ := List.cons.inj heq
        simpa [encodedLength] using hhead
    | cons m'' before =>
        obtain ⟨rfl, hms⟩ := List.cons.inj heq
        have := htail before m' after hms
        simpa [encodedLength, Nat.add_assoc] using this

/-- What is written of the matches is inside the buffer exactly when every head that is written
fits. -/
theorem emitMatches_inside {src : List UInt8} {cap a : Nat} {ms : List Match}
    (hchain : Chain src a ms) {out : List UInt8} (hle : out.length ≤ cap) :
    (HeadsFit cap out.length ms → (emitMatches src cap ms a out).2.2.length ≤ cap)
      ∧ (¬HeadsFit cap out.length ms → (emitMatches src cap ms a out).1 = false
          ∧ cap < (emitMatches src cap ms a out).2.2.length) := by
  induction ms generalizing a out with
  | nil => exact ⟨fun _ => hle, fun h => absurd (headsFit_nil _ _) h⟩
  | cons m ms ih =>
      rw [headsFit_cons, emitMatches]
      generalize hrun : emitSequence cap (m.literals src) m.offset (m.matchEnd - m.ip) out = r
      obtain ⟨ok, written⟩ := r
      obtain ⟨hover, hinside, hlen⟩ := hchain.emitSequence hrun
      by_cases hhead : out.length + m.headLength ≤ cap
      · obtain ⟨hwritten, hok⟩ := hinside hhead
        cases ok with
        | true =>
            -- the match is written, and the rest decides
            have hrest := ih hchain.2.2.2.2 hwritten
            rw [hlen rfl] at hrest
            exact ⟨fun h => hrest.1 h.2, fun h => hrest.2 fun h' => h ⟨fun _ => hhead, h'⟩⟩
        | false =>
            -- the match does not fit, so nothing is asked of the heads after it
            have hfull : cap < out.length + m.encodedLength := by
              by_contra hfits
              exact nomatch hok.mpr (by omega)
            refine ⟨fun _ => hwritten, fun h => absurd ⟨fun _ => hhead, ?_⟩ h⟩
            intro before m' after _ hbefore
            omega
      · obtain ⟨rfl, hwritten⟩ := hover (by omega)
        exact ⟨fun h => absurd (h.1 hle) hhead, fun _ => ⟨rfl, hwritten⟩⟩

/-- The end of the last match. -/
def endOf : Nat → List Match → Nat
  | a, [] => a
  | _, m :: ms => endOf m.matchEnd ms

/-- Matches that fit are written. -/
theorem emitMatches_fits {src : List UInt8} {cap a : Nat} {ms : List Match}
    (hchain : Chain src a ms) {out : List UInt8}
    (hfits : out.length + encodedLength ms ≤ cap) :
    ∃ written, emitMatches src cap ms a out = (true, endOf a ms, written)
      ∧ written.length = out.length + encodedLength ms := by
  induction ms generalizing a out with
  | nil => exact ⟨out, rfl, rfl⟩
  | cons m ms ih =>
      have hsum : encodedLength (m :: ms) = m.encodedLength + encodedLength ms := by
        simp [encodedLength]
      have hhead : m.headLength ≤ m.encodedLength := by
        unfold Match.encodedLength
        omega
      rw [emitMatches]
      generalize hrun : emitSequence cap (m.literals src) m.offset (m.matchEnd - m.ip) out = r
      obtain ⟨ok, written⟩ := r
      obtain ⟨-, hinside, hlen⟩ := hchain.emitSequence hrun
      obtain rfl : ok = true := (hinside (by omega)).2.mpr (by omega)
      have hwritten := hlen rfl
      obtain ⟨all, hall, hlength⟩ := @ih m.matchEnd hchain.2.2.2.2 written (by omega)
      exact ⟨all, hall, by omega⟩

/-! ## The bound -/

theorem length_lengthTail (n : Nat) :
    (lengthTail n).length = if 15 ≤ n then (n - 15) / 255 + 1 else 0 := by
  unfold lengthTail lengthBytes
  split
  · simp
  · rfl

/-- A match takes at most 256 bytes for 255 of the input: it saves what its offset and its token
cost, and a length takes a byte for 255. -/
theorem Match.encodedLength_le (m : Match) (hle : m.anchor ≤ m.ip)
    (hmin : m.ip + LZ4_MINMATCH ≤ m.matchEnd) :
    255 * m.encodedLength + 256 * m.anchor ≤ 256 * m.matchEnd := by
  unfold Match.encodedLength Match.headLength
  rw [lz4WriteLiteral_eq, List.length_cons, length_lengthTail, length_lengthTail]
  unfold LZ4_MINMATCH at *
  split <;> split <;> omega

theorem encodedLength_le {src : List UInt8} {a : Nat} {ms : List Match} (h : Chain src a ms) :
    255 * encodedLength ms + 256 * a ≤ 256 * endOf a ms ∧ endOf a ms ≤ src.length := by
  induction ms generalizing a with
  | nil =>
      refine ⟨?_, h⟩
      simp [encodedLength, endOf]
  | cons m ms ih =>
      obtain ⟨rfl, hle, hmin, hend, hrest⟩ := h
      have hsum : encodedLength (m :: ms) = m.encodedLength + encodedLength ms := by
        simp [encodedLength]
      have hone := m.encodedLength_le hle hmin
      obtain ⟨hall, hlast⟩ := ih hrest
      rw [hsum, endOf]
      exact ⟨by omega, hlast⟩

/-! ## The last literals -/

theorem emitLast_inside {cap : Nat} {literals out : List UInt8} (hle : out.length ≤ cap) :
    (emitLast cap literals out).2.length ≤ cap := by
  generalize hrun : emitLast cap literals out = r
  obtain ⟨ok, written⟩ := r
  cases ok with
  | true => exact (emitLast_spec hle hrun).1
  | false =>
      unfold emitLast at hrun
      dsimp only at hrun
      by_cases hzero : literals.length = 0
      · rw [if_pos hzero] at hrun
        exact nomatch congrArg Prod.fst hrun
      rw [if_neg hzero] at hrun
      generalize out.length + 1 + _ + _ + literals.length = need at hrun
      by_cases hneed : cap < need
      · rw [if_pos hneed] at hrun
        obtain rfl : out = written := congrArg Prod.snd hrun
        exact hle
      · rw [if_neg hneed] at hrun
        exact nomatch congrArg Prod.fst hrun

/-- The last literals fit where there is a byte for 255 of them, and three more. -/
theorem emitLast_fits {cap : Nat} {literals out : List UInt8}
    (h : 255 * out.length + 256 * literals.length + 765 ≤ 255 * cap) :
    ∃ written, emitLast cap literals out = (true, written)
      ∧ 255 * written.length ≤ 255 * out.length + 256 * literals.length + 765 := by
  unfold emitLast
  dsimp only
  split
  · exact ⟨out, rfl, by omega⟩
  rw [if_neg (by split <;> omega)]
  refine ⟨_, rfl, ?_⟩
  rw [List.length_append, List.length_append, lz4WriteLiteral_eq, List.length_cons,
    length_lengthTail]
  split <;> omega

/-! ## The encoder -/

theorem lz4CompressFast_eq (src : List UInt8) (hpos : 0 < src.length) (cap : Nat) (hcap : 0 < cap)
    (acceleration : Int) :
    lz4CompressFast src cap acceleration
      = match emitMatches src cap (matchesOf src acceleration) 0 [] with
        | (true, anchor, out) =>
            match emitLast cap (src.drop anchor) out with
            | (true, out) => (out.length, out)
            | (false, out) => (-1, out)
        | (false, _, out) => (-1, out) := by
  unfold lz4CompressFast lz4CompressGeneric matchesOf
  rw [if_neg (by omega), if_neg (by omega), Int.toNat_natCast]
  -- the loop finds its matches and emits them; here both are done in turn
  have hloop : (if src.length < LZ4_MINMATCH then (true, 0, [])
      else compressLoop src cap (if 1 < acceleration then acceleration.toNat else 1) src.length 0 0
        (fun _ => 0) [])
      = emitMatches src cap (if src.length < LZ4_MINMATCH then [] else
          findMatches src (if 1 < acceleration then acceleration.toNat else 1) src.length 0 0
            fun _ => 0) 0 [] := by
    split
    · rfl
    · exact compressLoop_eq _ _ _ _ _ _ _ _
  dsimp only
  rw [hloop]
  generalize emitMatches src cap _ 0 [] = r
  obtain ⟨ok, anchor, out⟩ := r
  cases ok with
  | false => rfl
  | true =>
      dsimp only
      generalize emitLast cap (src.drop anchor) out = last
      obtain ⟨ok, written⟩ := last
      cases ok <;> rfl

/-- **The encoder and its buffer.** Every byte written, also before a `-1`, is inside the buffer
exactly when at each match that is reached the token and the bytes of the literal length fit. -/
theorem lz4CompressFast_inside_iff (src : List UInt8) (hpos : 0 < src.length) (cap : Nat)
    (hcap : 0 < cap) (acceleration : Int) :
    (∀ i < (lz4CompressFast src cap acceleration).2.length, i < cap)
      ↔ HeadsFit cap 0 (matchesOf src acceleration) := by
  have hinside : (∀ i < (lz4CompressFast src cap acceleration).2.length, i < cap)
      ↔ (lz4CompressFast src cap acceleration).2.length ≤ cap := by
    constructor
    · intro h
      by_contra hlong
      exact lt_irrefl cap (h cap (by omega))
    · intro h i hi
      omega
  rw [hinside, lz4CompressFast_eq src hpos cap hcap acceleration]
  obtain ⟨hfit, hover⟩ :=
    @emitMatches_inside _ cap _ _ (chain_matchesOf src acceleration) [] (Nat.zero_le cap)
  rw [List.length_nil] at hfit hover
  constructor
  · intro h
    -- a header that does not fit ends the run behind the end of the buffer
    by_contra hheads
    obtain ⟨hok, hlong⟩ := hover hheads
    generalize emitMatches src cap _ 0 [] = r at h hok hlong
    obtain ⟨ok, anchor, out⟩ := r
    obtain rfl : ok = false := hok
    dsimp only at h hlong
    omega
  · intro hheads
    have hlen := hfit hheads
    generalize emitMatches src cap _ 0 [] = r at hlen ⊢
    obtain ⟨ok, anchor, out⟩ := r
    cases ok with
    | false => exact hlen
    | true =>
        -- the last literals are checked before they are written
        have hlast := @emitLast_inside cap (src.drop anchor) out hlen
        dsimp only
        generalize emitLast cap (src.drop anchor) out = last at hlast ⊢
        obtain ⟨ok, written⟩ := last
        cases ok <;> exact hlast

theorem lz4CompressFast_inside_iff_run :
    (∀ i < (lz4CompressFast (List.replicate 20 7) (3 : Nat) 1).2.length, i < 3)
      ↔ HeadsFit 3 0 (matchesOf (List.replicate 20 7) 1) :=
  lz4CompressFast_inside_iff (List.replicate 20 7) (by decide) 3 (by decide) 1

/-- Sixteen literals, a match of the first four, and the end. -/
def sixteenLiterals : List UInt8 :=
  [0, 1, 2, 3, 4, 5, 6, 7, 8, 9, 10, 11, 12, 13, 14, 15, 0, 1, 2, 3] ++ List.replicate 9 16

/-- In a buffer of one byte the token fills it, and the byte of the literal length is written
behind its end. -/
theorem not_lz4CompressFast_inside :
    ¬∀ (src : List UInt8) (cap : Nat) (acceleration : Int), 0 < src.length → 0 < cap →
      ∀ i < (lz4CompressFast src cap acceleration).2.length, i < cap := by
  intro h
  have hlen : (lz4CompressFast sixteenLiterals (1 : Nat) 1).2.length = 2 := by
    decide
  have hlt : 1 < (lz4CompressFast sixteenLiterals (1 : Nat) 1).2.length := by
    rw [hlen]
    exact Nat.one_lt_two
  exact lt_irrefl 1 (h sixteenLiterals 1 1 (by decide) Nat.one_pos 1 hlt)

def LZ4_COMPRESSBOUND (isize : Nat) : Nat :=
  if LZ4_MAX_INPUT_SIZE < isize then 0 else isize + isize / 255 + 16

/-- **Worst case.** -/
theorem lz4CompressFast_bound (src : List UInt8) (hpos : 1 ≤ src.length)
    (hmax : src.length ≤ LZ4_MAX_INPUT_SIZE) (acceleration dstCapacity : Int)
    (hcap : (LZ4_COMPRESSBOUND src.length : Int) ≤ dstCapacity) :
    (lz4CompressFast src dstCapacity acceleration).1 ≠ -1
      ∧ (lz4CompressFast src dstCapacity acceleration).1 ≤ LZ4_COMPRESSBOUND src.length := by
  have hbound : LZ4_COMPRESSBOUND src.length = src.length + src.length / 255 + 16 :=
    if_neg (by omega)
  rw [hbound] at hcap ⊢
  obtain ⟨cap, rfl⟩ := Int.eq_ofNat_of_zero_le (show 0 ≤ dstCapacity by omega)
  have hchain := chain_matchesOf src acceleration
  obtain ⟨hlen, hend⟩ := encodedLength_le hchain
  rw [lz4CompressFast_eq src hpos cap (by omega) acceleration]
  -- all matches fit, with the bound for the literals behind them left over
  have hfits : ([] : List UInt8).length + encodedLength (matchesOf src acceleration) ≤ cap := by
    rw [List.length_nil]
    omega
  obtain ⟨out, hout, houtlen⟩ := emitMatches_fits hchain hfits
  rw [List.length_nil] at houtlen
  have hrest : (src.drop (endOf 0 (matchesOf src acceleration))).length
      = src.length - endOf 0 (matchesOf src acceleration) := List.length_drop
  obtain ⟨written, hwritten, hlast⟩ := @emitLast_fits cap
    (src.drop (endOf 0 (matchesOf src acceleration))) out (by omega)
  rw [hout]
  dsimp only
  rw [hwritten]
  dsimp only
  constructor
  · omega
  · omega

theorem lz4CompressFast_bound_run :
    (lz4CompressFast (List.replicate 20 7) 36 1).1 ≠ -1
      ∧ (lz4CompressFast (List.replicate 20 7) 36 1).1
        ≤ LZ4_COMPRESSBOUND (List.replicate 20 (7 : UInt8)).length :=
  lz4CompressFast_bound (List.replicate 20 7) (by decide) (by decide) 1 36 (by decide)

end NoobKernel.Misc.Lz4
