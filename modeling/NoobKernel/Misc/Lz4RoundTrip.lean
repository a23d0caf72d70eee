import NoobKernel.Misc.Lz4

set_option autoImplicit false

/-! # The decoder inverts the encoder

`Encoded src a out` says that `out` is a sequence of token/literal/match groups for the first `a`
bytes of `src`, each of whose matches repeats bytes of `src` before it. The encoder's loop writes
such a sequence (`encoded_compressLoop`), and over any continuation of it the decoder's loop
reaches its end having written `src.take a` (`decompressLoop_encoded`).
-/

namespace NoobKernel.Misc.Lz4

open BackCopy

/-! ## Groups -/

/-- What follows the token of a length the token cannot hold. -/
def lengthTail (n : Nat) : List UInt8 := if 15 ≤ n then lengthBytes (n - 15) else []

def tokenByte (literalLen ml : Nat) : UInt8 :=
  UInt8.ofNat (min literalLen 15 <<< 4) ||| UInt8.ofNat (min ml 15)

/-- One token/literal/match group, `ml` being the match length less `LZ4_MINMATCH`. -/
def groupBytes (literals : List UInt8) (offset ml : Nat) : List UInt8 :=
  tokenByte literals.length ml :: (lengthTail literals.length ++ literals
    ++ [UInt8.ofNat offset, UInt8.ofNat (offset >>> 8)] ++ lengthTail ml)

/-- The group of last literals. -/
def lastBytes (literals : List UInt8) : List UInt8 :=
  tokenByte literals.length 0 :: (lengthTail literals.length ++ literals)

theorem lz4WriteLiteral_eq (n : Nat) :
    lz4WriteLiteral n = UInt8.ofNat (min n 15 <<< 4) :: lengthTail n := by
  unfold lz4WriteLiteral lengthTail
  split
  · rw [Nat.min_eq_right (by assumption)]
  · rw [Nat.min_eq_left (by omega)]

theorem tokenByte_literalLen (n ml : Nat) : (tokenByte n ml >>> 4).toNat = min n 15 := by
  have key : ∀ l < 16, ∀ m < 16,
      ((UInt8.ofNat (l <<< 4) ||| UInt8.ofNat m) >>> 4).toNat = l := by decide
  exact key _ (by omega) _ (by omega)

theorem tokenByte_ml (n ml : Nat) : (tokenByte n ml &&& 0x0F).toNat = min ml 15 := by
  have key : ∀ l < 16, ∀ m < 16,
      ((UInt8.ofNat (l <<< 4) ||| UInt8.ofNat m) &&& 0x0F).toNat = m := by decide
  exact key _ (by omega) _ (by omega)

theorem tokenByte_zero (n : Nat) : tokenByte n 0 = UInt8.ofNat (min n 15 <<< 4) := by
  unfold tokenByte
  simp

theorem offset_bytes {offset : Nat} (h : offset ≤ 65535) :
    (UInt8.ofNat offset).toNat ||| ((UInt8.ofNat (offset >>> 8)).toNat <<< 8) = offset := by
  have hlo : (UInt8.ofNat offset).toNat < 2 ^ 8 := UInt8.toNat_lt _
  have hhi : (UInt8.ofNat (offset >>> 8)).toNat = offset / 256 := by
    rw [UInt8.toNat_ofNat', Nat.shiftRight_eq_div_pow]
    exact Nat.mod_eq_of_lt (by omega)
  rw [Nat.or_comm, ← Nat.shiftLeft_add_eq_or_of_lt hlo, hhi, UInt8.toNat_ofNat',
    Nat.shiftLeft_eq]
  omega

theorem length_lengthTail_le (n : Nat) :
    (lengthTail n).length ≤ (if 15 ≤ n then 1 else 0) + (if 15 ≤ n then (n - 15 + 254) / 255 else 0) := by
  unfold lengthTail lengthBytes
  split
  · rw [List.length_append, List.length_replicate, List.length_singleton]
    omega
  · exact Nat.zero_le _

/-! ## Reading a length -/

theorem getElem?_of_drop {α : Type} {l : List α} {i : Nat} {x : α} {rest : List α}
    (h : l.drop i = x :: rest) : l[i]? = some x := by
  rw [← List.head?_drop, h]
  rfl

theorem drop_of_drop {α : Type} {l : List α} {i n : Nat} (xs : List α) {rest : List α}
    (h : l.drop i = xs ++ rest) (hn : xs.length = n) : l.drop (i + n) = rest := by
  rw [← List.drop_drop, h, List.drop_left' hn]

theorem readRun_replicate {src rest : List UInt8} {b : UInt8} (hb : b ≠ 255) {k fuel ip len : Nat}
    (h : src.drop ip = List.replicate k 255 ++ b :: rest) (hfuel : k < fuel) :
    readRun src fuel ip len = some (ip + (k + 1), len + (255 * k + b.toNat)) := by
  induction k generalizing fuel ip len with
  | zero =>
      obtain ⟨fuel, rfl⟩ : ∃ f, fuel = f + 1 := ⟨fuel - 1, by omega⟩
      rw [readRun, getElem?_of_drop h]
      simp [hb]
  | succ k ih =>
      obtain ⟨fuel, rfl⟩ : ∃ f, fuel = f + 1 := ⟨fuel - 1, by omega⟩
      rw [List.replicate_succ, List.cons_append] at h
      rw [readRun, getElem?_of_drop h]
      have hrest : src.drop (ip + 1) = List.replicate k 255 ++ b :: rest := drop_of_drop [255] h rfl
      simp only [if_true]
      rw [ih hrest (by omega)]
      have : (255 : UInt8).toNat = 255 := rfl
      rw [this]
      congr 2 <;> omega

/-- **A length is read back.** -/
theorem readLength_lengthTail {src rest : List UInt8} {n ip : Nat} (base : Nat)
    (h : src.drop ip = lengthTail n ++ rest) :
    readLength src (min n 15) base ip = some (ip + (lengthTail n).length, n + base) := by
  unfold readLength
  by_cases hn : 15 ≤ n
  · have htail : lengthTail n = List.replicate ((n - 15) / 255) 255 ++ [UInt8.ofNat ((n - 15) % 255)] := by
      rw [lengthTail, if_pos hn, lengthBytes]
    rw [htail, List.append_assoc, List.singleton_append] at h
    have hmod : (UInt8.ofNat ((n - 15) % 255)).toNat = (n - 15) % 255 := by
      rw [UInt8.toNat_ofNat']
      exact Nat.mod_eq_of_lt (by omega)
    have hb : UInt8.ofNat ((n - 15) % 255) ≠ 255 := by
      intro heq
      have := congrArg UInt8.toNat heq
      rw [hmod] at this
      have h255 : (255 : UInt8).toNat = 255 := rfl
      omega
    have hlen := congrArg List.length h
    rw [List.length_drop, List.length_append, List.length_replicate, List.length_cons] at hlen
    rw [Nat.min_eq_right hn, if_pos rfl, readRun_replicate hb h (by omega), htail, hmod,
      List.length_append, List.length_replicate, List.length_singleton]
    congr 2
    omega
  · rw [Nat.min_eq_left (by omega), if_neg (by omega), lengthTail, if_neg hn]
    rfl

/-! ## The decoder over one group -/

/-- The decoder's two copies are one copy from its output. -/
theorem copyMatch_eq {offset n : Nat} {dst : List UInt8} (hpos : 1 ≤ offset)
    (hoff : offset ≤ dst.length) : copyMatch offset n dst = copyBack offset n dst := by
  unfold copyMatch copyBlock
  split
  · rename_i hlt
    have hlen := length_copyBack (n := n - offset) hpos hoff
    rw [← copyBack_of_le (Nat.le_refl offset) (by omega), ← copyBack_add]
    congr 1
    omega
  · exact (copyBack_of_le (by omega) hoff).symm

/-- What is read of a group whose literals start at `start`. -/
theorem read_group {src rest literals : List UInt8} {offset ml ip : Nat}
    (h : src.drop ip = groupBytes literals offset ml ++ rest) :
    ∃ start, src[ip]? = some (tokenByte literals.length ml)
      ∧ readLength src (tokenByte literals.length ml >>> 4).toNat 0 (ip + 1)
        = some (start, literals.length)
      ∧ start + literals.length + 2 ≤ src.length
      ∧ (src.drop start).take literals.length = literals
      ∧ src[start + literals.length]? = some (UInt8.ofNat offset)
      ∧ src[start + literals.length + 1]? = some (UInt8.ofNat (offset >>> 8))
      ∧ readLength src (tokenByte literals.length ml &&& 0x0F).toNat LZ4_MINMATCH
          (start + literals.length + 2)
        = some (ip + (groupBytes literals offset ml).length, ml + LZ4_MINMATCH) := by
  have hgroup : src.drop ip = tokenByte literals.length ml :: (lengthTail literals.length
      ++ (literals ++ (UInt8.ofNat offset :: UInt8.ofNat (offset >>> 8) :: (lengthTail ml ++ rest)))) := by
    rw [h, groupBytes]
    simp
  -- the bytes left after each part of the group
  have hlen1 : src.drop (ip + 1) = _ := drop_of_drop [_] hgroup rfl
  have hlits := drop_of_drop _ hlen1 rfl
  have hoffs := drop_of_drop _ hlits rfl
  have hhi : src.drop (ip + 1 + (lengthTail literals.length).length + literals.length + 1) = _ :=
    drop_of_drop [_] hoffs rfl
  have hml : src.drop (ip + 1 + (lengthTail literals.length).length + literals.length + 2) = _ :=
    drop_of_drop [_, _] hoffs rfl
  have hroom := congrArg List.length hoffs
  rw [List.length_drop, List.length_cons, List.length_cons] at hroom
  refine ⟨ip + 1 + (lengthTail literals.length).length, getElem?_of_drop hgroup, ?_, by omega, ?_,
    getElem?_of_drop hoffs, getElem?_of_drop hhi, ?_⟩
  · rw [tokenByte_literalLen]
    exact readLength_lengthTail 0 hlen1
  · rw [hlits, List.take_left]
  · rw [tokenByte_ml, readLength_lengthTail LZ4_MINMATCH hml]
    congr 2
    rw [groupBytes]
    simp
    omega

/-- What is read of the last literals. -/
theorem read_last {src literals : List UInt8} {ip : Nat} (h : src.drop ip = lastBytes literals) :
    ∃ start, src[ip]? = some (tokenByte literals.length 0)
      ∧ readLength src (tokenByte literals.length 0 >>> 4).toNat 0 (ip + 1)
        = some (start, literals.length)
      ∧ start + literals.length = src.length ∧ (src.drop start).take literals.length = literals := by
  rw [lastBytes] at h
  have hlen1 : src.drop (ip + 1) = lengthTail literals.length ++ literals :=
    drop_of_drop [_] h rfl
  have hlits := drop_of_drop _ hlen1 rfl
  have hroom := congrArg List.length h
  rw [List.length_drop, List.length_cons, List.length_append] at hroom
  refine ⟨ip + 1 + (lengthTail literals.length).length, getElem?_of_drop h, ?_, by omega, ?_⟩
  · rw [tokenByte_literalLen]
    exact readLength_lengthTail 0 hlen1
  · rw [hlits, List.take_length]

theorem decompressLoop_group {src rest literals dst : List UInt8} {cap offset ml ip fuel : Nat}
    (h : src.drop ip = groupBytes literals offset ml ++ rest)
    (hpos : 1 ≤ offset) (hoff : offset ≤ 65535) (hdst : offset ≤ dst.length + literals.length)
    (hcap : dst.length + literals.length + (ml + LZ4_MINMATCH) ≤ cap) :
    decompressLoop src cap (fuel + 1) ip dst
      = decompressLoop src cap fuel (ip + (groupBytes literals offset ml).length)
          (copyBack offset (ml + LZ4_MINMATCH) (dst ++ literals)) := by
  obtain ⟨start, htoken, hliteral, hroom, hlits, hlo, hhi, hmatch⟩ := read_group h
  rw [decompressLoop, htoken]
  simp only
  rw [hliteral]
  simp only
  rw [if_neg (by omega), hlits, if_neg (by omega), if_neg (by omega), hlo, hhi]
  simp only
  rw [offset_bytes hoff, if_neg (by omega), hmatch]
  simp only
  rw [List.length_append, if_neg (by omega), if_neg (by omega),
    copyMatch_eq hpos (by rw [List.length_append]; exact hdst)]

theorem decompressLoop_last {src literals dst : List UInt8} {cap ip fuel : Nat}
    (h : src.drop ip = lastBytes literals) (hcap : dst.length + literals.length ≤ cap) :
    decompressLoop src cap (fuel + 1) ip dst
      = .ret (dst ++ literals).length (dst ++ literals) := by
  obtain ⟨start, htoken, hliteral, hend, hlits⟩ := read_last h
  rw [decompressLoop, htoken]
  simp only
  rw [hliteral]
  simp only
  rw [if_neg (by omega), hlits, if_pos (by omega)]

/-! ## What the encoder writes -/

theorem writeChecked_spec {cap : Nat} {bs out out' : List UInt8} (hle : out.length ≤ cap)
    (h : writeChecked cap out bs = (true, out')) : out' = out ++ bs ∧ out'.length ≤ cap := by
  induction bs generalizing out with
  | nil =>
      rw [writeChecked] at h
      obtain rfl : out = out' := congrArg Prod.snd h
      exact ⟨(List.append_nil _).symm, hle⟩
  | cons b bs ih =>
      rw [writeChecked] at h
      split at h
      · cases congrArg Prod.fst h
      · obtain ⟨rfl, hlen⟩ := ih (by rw [List.length_append, List.length_singleton]; omega) h
        exact ⟨by rw [List.append_assoc, List.singleton_append], hlen⟩

/-- The token is written with the literals and completed with the match. -/
theorem modify_token (out xs ys : List UInt8) (t v : UInt8) :
    (out ++ t :: xs ++ ys).modify out.length (· ||| v) = out ++ (t ||| v) :: (xs ++ ys) := by
  induction out with
  | nil => rfl
  | cons b out ih =>
      rw [List.cons_append, List.cons_append, List.length_cons, List.modify_succ_cons, ih]
      rfl

theorem groupBytes_eq (literals : List UInt8) (offset ml : Nat) :
    groupBytes literals offset ml
      = (UInt8.ofNat (min literals.length 15 <<< 4) ||| UInt8.ofNat (if ml < 15 then ml else 15))
        :: (lengthTail literals.length ++ literals)
        ++ [UInt8.ofNat offset, UInt8.ofNat (offset >>> 8)] ++ lengthTail ml := by
  have hmin : (if ml < 15 then ml else 15) = min ml 15 := by
    split <;> omega
  rw [hmin, groupBytes, tokenByte]
  simp

theorem emitSequence_spec {cap offset matchLen : Nat} {literals out out' : List UInt8}
    (h : emitSequence cap literals offset matchLen out = (true, out')) :
    out' = out ++ groupBytes literals offset (matchLen - LZ4_MINMATCH) ∧ out'.length ≤ cap := by
  unfold emitSequence at h
  rw [groupBytes_eq, lengthTail.eq_1 (matchLen - LZ4_MINMATCH)]
  rw [lz4WriteLiteral_eq] at h
  simp only [modify_token] at h
  generalize matchLen - LZ4_MINMATCH = ml at h ⊢
  by_cases hlits : cap < (out ++ UInt8.ofNat (min literals.length 15 <<< 4)
      :: lengthTail literals.length).length + literals.length
  · rw [if_pos hlits] at h
    cases congrArg Prod.fst h
  rw [if_neg hlits] at h
  generalize UInt8.ofNat (min literals.length 15 <<< 4)
    ||| UInt8.ofNat (if ml < 15 then ml else 15) = token at h ⊢
  split at h
  · cases congrArg Prod.fst h
  rename_i hoffs
  by_cases hml : 15 ≤ ml
  · rw [if_pos hml] at h ⊢
    obtain ⟨rfl, hlen⟩ := writeChecked_spec (by simp at hoffs ⊢; omega) h
    exact ⟨by simp, hlen⟩
  · rw [if_neg hml] at h ⊢
    obtain rfl : _ = out' := congrArg Prod.snd h
    exact ⟨by simp, by simp at hoffs ⊢; omega⟩

theorem emitLast_spec {cap : Nat} {literals out out' : List UInt8} (hle : out.length ≤ cap)
    (h : emitLast cap literals out = (true, out')) :
    out'.length ≤ cap
      ∧ (literals = [] ∧ out' = out ∨ literals ≠ [] ∧ out' = out ++ lastBytes literals) := by
  unfold emitLast at h
  simp only at h
  by_cases hzero : literals.length = 0
  · rw [if_pos hzero] at h
    obtain rfl : out = out' := congrArg Prod.snd h
    exact ⟨hle, .inl ⟨List.length_eq_zero_iff.mp hzero, rfl⟩⟩
  rw [if_neg hzero] at h
  have htail := length_lengthTail_le literals.length
  generalize (if 15 ≤ literals.length then 1 else 0) = a at h htail
  generalize (if 15 ≤ literals.length then (literals.length - 15 + 254) / 255 else 0) = b at h htail
  by_cases hcap : cap < out.length + 1 + a + b + literals.length
  · rw [if_pos hcap] at h
    cases congrArg Prod.fst h
  rw [if_neg hcap] at h
  have hout : out' = out ++ lastBytes literals := by
    obtain rfl : _ = out' := congrArg Prod.snd h
    rw [lz4WriteLiteral_eq, lastBytes, tokenByte_zero]
    simp
  refine ⟨?_, .inr ⟨List.length_pos_iff.mp (by omega), hout⟩⟩
  rw [hout, lastBytes, List.length_append, List.length_cons, List.length_append]
  omega

/-! ## The match finder -/

/-- From `ip` to `matchEnd` the input repeats itself at distance `offset`. -/
def Repeats (src : List UInt8) (offset ip matchEnd : Nat) : Prop :=
  matchEnd ≤ src.length ∧ ∀ k, ip ≤ k → k < matchEnd → src[k - offset]? = src[k]?

theorem getD_inj {src : List UInt8} {i j : Nat} (hi : i < src.length) (hj : j < src.length)
    (h : src.getD i 0 = src.getD j 0) : src[i]? = src[j]? := by
  rw [List.getD_eq_getElem?_getD, List.getD_eq_getElem?_getD, List.getElem?_eq_getElem hi,
    List.getElem?_eq_getElem hj] at h
  rw [List.getElem?_eq_getElem hi, List.getElem?_eq_getElem hj]
  exact congrArg some h

/-- Equal words are four equal bytes. -/
theorem lz4Read32_inj {src : List UInt8} {i j k : Nat} (h : lz4Read32 src i = lz4Read32 src j)
    (hk : k < LZ4_MINMATCH) : src.getD (i + k) 0 = src.getD (j + k) 0 := by
  have hi := fun m => (src.getD (i + m) 0).toNat_lt
  have hj := fun m => (src.getD (j + m) 0).toNat_lt
  unfold lz4Read32 at h
  simp only [Nat.shiftLeft_eq] at h
  have h0 := hi 0
  have h1 := hi 1
  have h2 := hi 2
  have h3 := hi 3
  have h0' := hj 0
  have h1' := hj 1
  have h2' := hj 2
  have h3' := hj 3
  rw [Nat.add_zero] at h0 h0'
  apply UInt8.toNat_inj.mp
  obtain rfl | rfl | rfl | rfl : k = 0 ∨ k = 1 ∨ k = 2 ∨ k = 3 := by
    unfold LZ4_MINMATCH at hk
    omega
  · rw [Nat.add_zero, Nat.add_zero]
    omega
  all_goals omega

theorem Repeats.words {src : List UInt8} {offset ip matchEnd : Nat}
    (h : Repeats src offset ip matchEnd) (hpos : 1 ≤ offset) (hoff : offset ≤ matchEnd)
    (hend : matchEnd + LZ4_MINMATCH ≤ src.length)
    (heq : lz4Read32 src matchEnd = lz4Read32 src (matchEnd - offset)) :
    Repeats src offset ip (matchEnd + LZ4_MINMATCH) := by
  refine ⟨hend, fun k hk hlt => ?_⟩
  by_cases hold : k < matchEnd
  · exact h.2 k hk hold
  · have hbyte := lz4Read32_inj (k := k - matchEnd) heq (by omega)
    have hk1 : matchEnd + (k - matchEnd) = k := by omega
    have hk2 : matchEnd - offset + (k - matchEnd) = k - offset := by omega
    rw [hk1, hk2] at hbyte
    exact getD_inj (by omega) (by omega) hbyte.symm

theorem repeats_extendWords {src : List UInt8} {offset ip : Nat} (hpos : 1 ≤ offset)
    (fuel : Nat) {matchEnd : Nat} (hoff : offset ≤ matchEnd) (h : Repeats src offset ip matchEnd) :
    Repeats src offset ip (extendWords src offset fuel matchEnd)
      ∧ matchEnd ≤ extendWords src offset fuel matchEnd := by
  induction fuel generalizing matchEnd with
  | zero => exact ⟨h, Nat.le_refl _⟩
  | succ fuel ih =>
      rw [extendWords]
      split
      · rename_i hcond
        have hend : matchEnd + LZ4_MINMATCH ≤ src.length := by
          have := hcond.1
          unfold LZ4_LASTLITERALS at this
          unfold LZ4_MINMATCH
          omega
        obtain ⟨hrep, hle⟩ := ih (by omega) (h.words hpos hoff hend hcond.2)
        exact ⟨hrep, by omega⟩
      · exact ⟨h, Nat.le_refl _⟩

theorem repeats_extendBytes {src : List UInt8} {offset ip : Nat} (fuel : Nat) {matchEnd : Nat}
    (hoff : offset ≤ matchEnd) (h : Repeats src offset ip matchEnd) :
    Repeats src offset ip (extendBytes src offset fuel matchEnd)
      ∧ matchEnd ≤ extendBytes src offset fuel matchEnd := by
  induction fuel generalizing matchEnd with
  | zero => exact ⟨h, Nat.le_refl _⟩
  | succ fuel ih =>
      rw [extendBytes]
      split
      · rename_i hcond
        have hnext : Repeats src offset ip (matchEnd + 1) := by
          refine ⟨hcond.1, fun k hk hlt => ?_⟩
          rcases Nat.lt_succ_iff_lt_or_eq.mp hlt with hold | rfl
          · exact h.2 k hk hold
          · exact getD_inj (by omega) hcond.1 hcond.2
        obtain ⟨hrep, hle⟩ := ih (by omega) hnext
        exact ⟨hrep, by omega⟩
      · exact ⟨h, Nat.le_refl _⟩

/-- Where a match at `ip` of the word at `ref` ends, both loops of the match finder done. -/
def matchEndOf (src : List UInt8) (ref ip : Nat) : Nat :=
  extendBytes src (ip - ref) src.length
    (extendWords src (ip - ref) src.length (ip + LZ4_MINMATCH))

/-- A word before `ip` equals the word at `ip`; the match is that word and its extension. -/
theorem repeats_matchEndOf {src : List UInt8} {ref ip : Nat}
    (hlimit : ip + LZ4_MFLIMIT < src.length) (hlt : ref < ip)
    (heq : lz4Read32 src ref = lz4Read32 src ip) :
    Repeats src (ip - ref) ip (matchEndOf src ref ip)
      ∧ ip + LZ4_MINMATCH ≤ matchEndOf src ref ip := by
  have hback : ip - (ip - ref) = ref := by omega
  have hend : ip + LZ4_MINMATCH ≤ src.length := by
    unfold LZ4_MFLIMIT at hlimit
    unfold LZ4_MINMATCH
    omega
  have hempty : Repeats src (ip - ref) ip ip :=
    ⟨by omega, fun k hk hlt => absurd hk (by omega)⟩
  have hstart : Repeats src (ip - ref) ip (ip + LZ4_MINMATCH) :=
    hempty.words (by omega) (by omega) hend (by rw [hback, heq])
  obtain ⟨hwords, hle₁⟩ := repeats_extendWords (by omega) src.length (by omega) hstart
  obtain ⟨hbytes, hle₂⟩ := repeats_extendBytes src.length (by omega) hwords
  exact ⟨hbytes, hle₁.trans hle₂⟩

/-! ## The encoder's loop -/

/-- `out` is a sequence of groups for the first `anchor` bytes of `src`. -/
inductive Encoded (src : List UInt8) : Nat → List UInt8 → Prop
  | start : Encoded src 0 []
  | group {anchor ip offset matchEnd : Nat} {out : List UInt8} (done : Encoded src anchor out)
      (le : anchor ≤ ip) (limit : ip + LZ4_MFLIMIT < src.length) (pos : 1 ≤ offset)
      (back : offset ≤ ip) (word : offset ≤ 65535) (min : ip + LZ4_MINMATCH ≤ matchEnd)
      (rep : Repeats src offset ip matchEnd) :
      Encoded src matchEnd (out ++ groupBytes ((src.drop anchor).take (ip - anchor)) offset
        (matchEnd - ip - LZ4_MINMATCH))

theorem Encoded.le_length {src out : List UInt8} {a : Nat} (h : Encoded src a out) :
    a ≤ src.length := by
  cases h with
  | start => exact Nat.zero_le _
  | group _ _ _ _ _ _ _ rep => exact rep.1

theorem Encoded.ne_nil {src out : List UInt8} {a : Nat} (h : Encoded src a out) (ha : 0 < a) :
    out ≠ [] := by
  cases h with
  | start => exact absurd ha (Nat.lt_irrefl 0)
  | group => exact List.append_ne_nil_of_right_ne_nil _ (List.cons_ne_nil _ _)

/-- **The loop writes groups.** -/
theorem encoded_compressLoop {src : List UInt8} {cap step : Nat} (fuel : Nat)
    {ip anchor a : Nat} {hashTable : Nat → Nat} {out out' : List UInt8}
    (hout : Encoded src anchor out) (hle : anchor ≤ ip) (hcap : out.length ≤ cap)
    (h : compressLoop src cap step fuel ip anchor hashTable out = (true, a, out')) :
    Encoded src a out' ∧ out'.length ≤ cap := by
  induction fuel generalizing ip anchor hashTable out with
  | zero =>
      obtain ⟨rfl, rfl⟩ := Prod.mk.inj (congrArg Prod.snd h)
      exact ⟨hout, hcap⟩
  | succ fuel ih =>
      rw [compressLoop] at h
      split at h
      · rename_i hlimit
        simp only at h
        generalize hashTable _ = ref at h
        split at h
        · exact ih hout (by omega) hcap h
        · rename_i hmatch
          push Not at hmatch
          obtain ⟨hpos, hword, heq⟩ := hmatch
          obtain ⟨hrep, hmin⟩ := repeats_matchEndOf hlimit (by omega) heq
          split at h
          · rename_i hok
            generalize hseq : emitSequence _ _ _ _ _ = r at h hok
            obtain ⟨ok, written⟩ := r
            obtain rfl : ok = true := hok
            obtain ⟨rfl, hlen⟩ := emitSequence_spec hseq
            exact ih (.group hout hle hlimit (by omega) (by omega) (by omega) hmin hrep)
              (Nat.le_refl _) hlen h
          · cases congrArg Prod.fst h
      · obtain ⟨rfl, rfl⟩ := Prod.mk.inj (congrArg Prod.snd h)
        exact ⟨hout, hcap⟩

/-! ## The round trip -/

/-- **The decoder follows the groups**, with a round for each. -/
theorem decompressLoop_encoded {src out : List UInt8} {a cap : Nat} (h : Encoded src a out)
    (hcap : src.length ≤ cap) :
    ∃ r ≤ out.length, ∀ rest fuel, decompressLoop (out ++ rest) cap (fuel + r) 0 []
      = decompressLoop (out ++ rest) cap fuel out.length (src.take a) := by
  induction h with
  | start => exact ⟨0, Nat.le_refl 0, fun rest fuel => rfl⟩
  | @group anchor ip offset matchEnd out done le limit pos back word min rep ih =>
      obtain ⟨r, hr, hrun⟩ := ih
      have hend := rep.1
      have hlits : src.take anchor ++ (src.drop anchor).take (ip - anchor) = src.take ip := by
        rw [← List.take_add]
        congr 1
        omega
      have hlen : (src.take anchor).length + ((src.drop anchor).take (ip - anchor)).length = ip := by
        rw [← List.length_append, hlits, List.length_take]
        omega
      have hml : matchEnd - ip - LZ4_MINMATCH + LZ4_MINMATCH = matchEnd - ip := by omega
      refine ⟨r + 1, ?_, fun rest fuel => ?_⟩
      · rw [List.length_append, groupBytes, List.length_cons]
        omega
      · have hdrop : (out ++ (groupBytes ((src.drop anchor).take (ip - anchor)) offset
            (matchEnd - ip - LZ4_MINMATCH) ++ rest)).drop out.length = _ := List.drop_left
        rw [Nat.add_comm r 1, ← Nat.add_assoc, List.append_assoc, hrun,
          decompressLoop_group hdrop pos word (by omega) (by omega), hlits, hml, List.length_append,
          copyBack_take pos back (by omega) fun k hk => rep.2 _ (by omega) (by omega)]
        congr 2
        omega

theorem lz4Decompress_encoded {src out : List UInt8} {a cap : Nat} (h : Encoded src a out)
    (hcap : src.length ≤ cap) :
    (src.drop a ≠ [] → lz4Decompress (out ++ lastBytes (src.drop a)) cap = .ret src.length src)
      ∧ (src.drop a = [] → lz4Decompress out cap = .ret src.length src) := by
  obtain ⟨r, hr, hrun⟩ := decompressLoop_encoded h hcap
  have hle := h.le_length
  have hjoin : src.take a ++ src.drop a = src := List.take_append_drop a src
  unfold lz4Decompress
  constructor
  · intro hne
    obtain ⟨f, hf⟩ : ∃ f, (out ++ lastBytes (src.drop a)).length + 1 = f + 1 + r := by
      rw [List.length_append]
      exact ⟨out.length + (lastBytes (src.drop a)).length - r, by omega⟩
    rw [hf, hrun, decompressLoop_last List.drop_left, hjoin]
    rw [← List.length_append, hjoin]
    exact hcap
  · intro hnil
    obtain ⟨f, hf⟩ : ∃ f, out.length + 1 = f + 1 + r := ⟨out.length - r, by omega⟩
    have hend := hrun [] (f + 1)
    rw [List.append_nil] at hend
    rw [hnil, List.append_nil] at hjoin
    rw [hf, hend, decompressLoop, List.getElem?_eq_none (Nat.le_refl _), hjoin]

theorem lz4CompressGeneric_spec {src out : List UInt8} {cap : Nat} {acceleration n : Int}
    (h : lz4CompressGeneric src cap acceleration = (n, out)) (hn : 0 ≤ n) :
    out.length ≤ cap ∧ n = out.length ∧ ∃ a bytes, Encoded src a bytes
      ∧ (src.drop a = [] ∧ out = bytes ∨ src.drop a ≠ [] ∧ out = bytes ++ lastBytes (src.drop a)) := by
  unfold lz4CompressGeneric at h
  simp only at h
  generalize hloop : (if src.length < LZ4_MINMATCH then (true, 0, [])
    else compressLoop src cap (if 1 < acceleration then acceleration.toNat else 1) src.length 0 0
      (fun _ => 0) []) = r at h
  obtain ⟨ok, a, bytes⟩ := r
  -- the two early exits return `-1`, and `n` is not negative
  have hneg : ¬ ((-1 : Int), bytes) = (n, out) := by
    rintro heq
    have := congrArg Prod.fst heq
    simp only at this
    omega
  cases ok with
  | false => exact absurd h hneg
  | true =>
      have henc : Encoded src a bytes ∧ bytes.length ≤ cap := by
        split at hloop
        · obtain ⟨rfl, rfl⟩ := Prod.mk.inj (congrArg Prod.snd hloop)
          exact ⟨.start, Nat.zero_le _⟩
        · exact encoded_compressLoop _ .start (Nat.le_refl 0) (Nat.zero_le _) hloop
      simp only [if_true] at h
      generalize hlast : emitLast cap (src.drop a) bytes = r at h
      obtain ⟨ok, written⟩ := r
      cases ok with
      | false =>
          have := congrArg Prod.fst h
          simp only [Bool.false_eq_true, if_false] at this
          omega
      | true =>
          obtain ⟨rfl, rfl⟩ := Prod.mk.inj h
          obtain ⟨hcap, hbytes⟩ := emitLast_spec henc.2 hlast
          exact ⟨hcap, rfl, a, bytes, henc.1, hbytes⟩

/-- **Round trip.** What either entry point returns with a length is that many bytes within the
capacity, and the decoder turns them back into the input. -/
theorem lz4Decompress_lz4Compress (src : List UInt8) (hne : src ≠ []) (dstCapacity : Int)
    (n : Int) (out : List UInt8)
    (h : (∃ acceleration, lz4CompressFast src dstCapacity acceleration = (n, out))
      ∨ lz4Compress src dstCapacity = (n, out))
    (hn : 0 ≤ n) (outCapacity : Nat) (hcap : src.length ≤ outCapacity) :
    0 < n ∧ n ≤ dstCapacity
      ∧ lz4Decompress (out.take n.toNat) outCapacity = .ret src.length src := by
  obtain ⟨acceleration, h⟩ : ∃ acceleration, lz4CompressFast src dstCapacity acceleration = (n, out) := by
    rcases h with h | h
    · exact h
    · exact ⟨1, h⟩
  unfold lz4CompressFast at h
  have hlen := List.length_pos_iff.mpr hne
  rw [if_neg (by omega)] at h
  split at h
  · have := congrArg Prod.fst h
    simp only at this
    omega
  obtain ⟨hout, rfl, a, bytes, henc, hform⟩ := lz4CompressGeneric_spec h hn
  obtain ⟨hlast, hnone⟩ := lz4Decompress_encoded henc hcap
  -- a block has a last sequence or ends with the matches, and is not empty
  have hpos : 0 < out.length := by
    rcases hform with ⟨hnil, rfl⟩ | ⟨_, rfl⟩
    · have := List.drop_eq_nil_iff.mp hnil
      exact List.length_pos_iff.mpr (henc.ne_nil (by omega))
    · rw [List.length_append, lastBytes, List.length_cons]
      omega
  rw [Int.toNat_natCast, List.take_length]
  refine ⟨by omega, by omega, ?_⟩
  rcases hform with ⟨hnil, rfl⟩ | ⟨hsome, rfl⟩
  · exact hnone hnil
  · exact hlast hsome

/-- A match that overlaps itself and reaches the end of the input. -/
theorem lz4Decompress_lz4Compress_run :
    lz4Decompress ([0x1F, 7, 1, 0, 0].take (Int.toNat 5)) 20
      = .ret 20 (List.replicate 20 7) :=
  (lz4Decompress_lz4Compress (List.replicate 20 7) (by decide) 32 5 [0x1F, 7, 1, 0, 0]
    (.inr (by decide)) (by decide) 20 (by decide)).2.2

end NoobKernel.Misc.Lz4
