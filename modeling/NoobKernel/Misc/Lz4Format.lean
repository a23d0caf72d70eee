import NoobKernel.Misc.Lz4Block

set_option autoImplicit false

/-! # The block format (`misc/lz4.c`)

A block is a sequence of groups (`Block`): a token, the rest of a literal length, the literals, and
but for the last group the offset of a match and the rest of its length. What groups mean is to copy
(`meaning`): literals from the block, and a match byte by byte from `offset` bytes back in what has
been written.

The decoder reads this format and nothing else. It accepts exactly the blocks that mean something
for which there is room, and returns what they mean (`lz4Decompress_iff`).
-/

namespace NoobKernel.Misc.Lz4

open BackCopy

/-! ## The format -/

/-- The groups of a block. The low half of the last token is not read, and a block may end behind a
match. -/
inductive Block : List UInt8 → List Group → Prop
  | nil : Block [] []
  | last (literals : List UInt8) (ml : Nat) :
      Block (tokenByte literals.length ml :: (lengthTail literals.length ++ literals))
        [⟨literals, none⟩]
  | group {rest : List UInt8} {groups : List Group} (literals : List UInt8) {offset : Nat} (ml : Nat)
      (hoff : offset ≤ 65535) (h : Block rest groups) :
      Block (groupBytes literals offset ml ++ rest)
        (⟨literals, some (offset, ml + LZ4_MINMATCH)⟩ :: groups)

/-- A match lies in what has been written, the literals of its own group included. -/
def Group.meaning (g : Group) (dst : List UInt8) : Option (List UInt8) :=
  match g.matched with
  | none => some (dst ++ g.literals)
  | some (offset, n) =>
      if 1 ≤ offset ∧ offset ≤ (dst ++ g.literals).length then
        some (copyBack offset n (dst ++ g.literals))
      else none

def meaning : List Group → List UInt8 → Option (List UInt8)
  | [], dst => some dst
  | g :: groups, dst => (g.meaning dst).bind (meaning groups)

variable {src dst out rest literals : List UInt8} {groups : List Group}
  {cap fuel ip ip' offset ml base len nibble : Nat} {n : Int}

theorem Group.length_le {g : Group} (h : g.meaning dst = some out) : dst.length ≤ out.length := by
  unfold Group.meaning at h
  split at h
  · obtain rfl := Option.some.inj h
    rw [List.length_append]
    exact Nat.le_add_right _ _
  · obtain ⟨⟨hpos, hoff⟩, h⟩ := Option.ite_none_right_eq_some.mp h
    obtain rfl := Option.some.inj h
    rw [length_copyBack hpos hoff, List.length_append]
    omega

/-- What has been written stays. -/
theorem length_le_of_meaning (h : meaning groups dst = some out) : dst.length ≤ out.length := by
  induction groups generalizing dst with
  | nil =>
      obtain rfl := Option.some.inj h
      exact Nat.le_refl _
  | cons g groups ih =>
      obtain ⟨mid, hg, hrest⟩ := Option.bind_eq_some_iff.mp h
      exact (g.length_le hg).trans (ih hrest)

/-! ## Blocks are decoded -/

theorem decompressLoop_lastToken (h : src.drop ip
      = tokenByte literals.length ml :: (lengthTail literals.length ++ literals))
    (hcap : dst.length + literals.length ≤ cap) :
    decompressLoop src cap (fuel + 1) ip dst
      = .ret (dst ++ literals).length (dst ++ literals) := by
  have hlen : src.drop (ip + 1) = lengthTail literals.length ++ literals := drop_of_drop [_] h rfl
  have hlits := drop_of_drop _ hlen rfl
  have hroom := congrArg List.length h
  rw [List.length_drop, List.length_cons, List.length_append] at hroom
  rw [decompressLoop, getElem?_of_drop h]
  simp only
  rw [tokenByte_literalLen, readLength_lengthTail 0 hlen]
  simp only
  rw [if_neg (by omega), hlits, List.take_of_length_le (by omega), if_pos (by omega)]

theorem decompressLoop_block (h : Block rest groups) (hsrc : src.drop ip = rest)
    (hfuel : rest.length < fuel) (hout : meaning groups dst = some out) (hcap : out.length ≤ cap) :
    decompressLoop src cap fuel ip dst = .ret out.length out := by
  induction h generalizing ip fuel dst with
  | nil =>
      obtain rfl := Option.some.inj hout
      obtain ⟨fuel, rfl⟩ : ∃ k, fuel = k + 1 := ⟨fuel - 1, by omega⟩
      rw [decompressLoop, List.getElem?_eq_none (List.drop_eq_nil_iff.mp hsrc)]
  | last literals ml =>
      obtain rfl := Option.some.inj hout
      obtain ⟨fuel, rfl⟩ : ∃ k, fuel = k + 1 := ⟨fuel - 1, by omega⟩
      exact decompressLoop_lastToken hsrc (by rwa [List.length_append] at hcap)
  | @group rest groups literals offset ml hoff _ ih =>
      obtain ⟨mid, hmid, hrest⟩ := Option.bind_eq_some_iff.mp hout
      obtain ⟨⟨hpos, hdst⟩, hmid⟩ := Option.ite_none_right_eq_some.mp hmid
      obtain rfl := Option.some.inj hmid
      have hlen := length_le_of_meaning hrest
      rw [length_copyBack hpos hdst] at hlen
      dsimp only at hlen hdst
      rw [List.length_append] at hlen hdst hfuel
      obtain ⟨fuel, rfl⟩ : ∃ k, fuel = k + 1 := ⟨fuel - 1, by omega⟩
      rw [decompressLoop_group hsrc hpos hoff hdst (by omega)]
      have htoken : 1 ≤ (groupBytes literals offset ml).length := by
        rw [groupBytes]
        exact Nat.le_add_left _ _
      exact ih (drop_of_drop _ hsrc rfl) (by omega) hrest

/-! ## What is decoded is a block -/

theorem readRun_inv (h : readRun src fuel ip base = some (ip', len)) :
    ∃ k b, b ≠ 255 ∧ src.drop ip = List.replicate k 255 ++ b :: src.drop ip'
      ∧ len = base + (255 * k + b.toNat) := by
  induction fuel generalizing ip base with
  | zero => cases h
  | succ fuel ih =>
      unfold readRun at h
      split at h
      · cases h
      · rename_i s hs
        obtain ⟨hlt, rfl⟩ := List.getElem?_eq_some_iff.mp hs
        have hdrop := List.drop_eq_getElem_cons hlt
        split at h
        · obtain ⟨k, b, hb, hrest, rfl⟩ := ih h
          refine ⟨k + 1, b, hb, ?_, ?_⟩
          · rw [hdrop, hrest, List.replicate_succ, ‹src[ip] = 255›]
            rfl
          · rw [‹src[ip] = 255›]
            have h255 : (255 : UInt8).toNat = 255 := rfl
            omega
        · obtain ⟨rfl, rfl⟩ := Prod.mk.inj (Option.some.inj h)
          exact ⟨0, src[ip], ‹_›, hdrop, by omega⟩

/-- **A length that is read was written.** -/
theorem readLength_inv (hnibble : nibble < 16) (h : readLength src nibble base ip = some (ip', len)) :
    ∃ l, len = l + base ∧ nibble = min l 15 ∧ src.drop ip = lengthTail l ++ src.drop ip' := by
  unfold readLength at h
  split at h
  · obtain ⟨k, b, hb, hdrop, rfl⟩ := readRun_inv h
    have hlt : b.toNat < 255 := by
      have hne : b.toNat ≠ 255 := fun heq => hb (UInt8.toNat_inj.mp heq)
      have hsize := b.toNat_lt
      omega
    refine ⟨15 + (255 * k + b.toNat), by omega, by omega, ?_⟩
    have hdiv : (15 + (255 * k + b.toNat) - 15) / 255 = k := by omega
    have hmod : (15 + (255 * k + b.toNat) - 15) % 255 = b.toNat := by omega
    rw [hdrop, lengthTail, if_pos (by omega), lengthBytes, hdiv, hmod, UInt8.ofNat_toNat,
      List.append_assoc]
    rfl
  · obtain ⟨rfl, rfl⟩ := Prod.mk.inj (Option.some.inj h)
    refine ⟨nibble, rfl, by omega, ?_⟩
    rw [lengthTail, if_neg (by omega)]
    rfl

/-- A byte has two halves and is made of them. -/
theorem halves (token : UInt8) : (token >>> 4).toNat < 16 ∧ (token &&& 0x0F).toNat < 16
    ∧ UInt8.ofNat ((token >>> 4).toNat <<< 4) ||| UInt8.ofNat (token &&& 0x0F).toNat = token := by
  have key : ∀ h < 16, ∀ l < 16, (UInt8.ofNat (16 * h + l) >>> 4).toNat < 16
      ∧ (UInt8.ofNat (16 * h + l) &&& 0x0F).toNat < 16
      ∧ UInt8.ofNat ((UInt8.ofNat (16 * h + l) >>> 4).toNat <<< 4)
        ||| UInt8.ofNat (UInt8.ofNat (16 * h + l) &&& 0x0F).toNat = UInt8.ofNat (16 * h + l) := by
    decide
  have hlt := token.toNat_lt
  have htoken := key (token.toNat / 16) (by omega) (token.toNat % 16) (by omega)
  rwa [Nat.div_add_mod, UInt8.ofNat_toNat] at htoken

theorem tokenByte_of_halves {token : UInt8} {l m : Nat} (hl : (token >>> 4).toNat = min l 15)
    (hm : (token &&& 0x0F).toNat = min m 15) : tokenByte l m = token := by
  rw [tokenByte, ← hl, ← hm]
  exact (halves token).2.2

/-- Two bytes are an offset of 16 bits. -/
theorem offset_of_bytes (lo hi : UInt8) :
    lo.toNat ||| (hi.toNat <<< 8) ≤ 65535
      ∧ UInt8.ofNat (lo.toNat ||| (hi.toNat <<< 8)) = lo
      ∧ UInt8.ofNat ((lo.toNat ||| (hi.toNat <<< 8)) >>> 8) = hi := by
  have hlo := lo.toNat_lt
  have hhi := hi.toNat_lt
  have hsum : lo.toNat ||| (hi.toNat <<< 8) = hi.toNat * 256 + lo.toNat := by
    rw [Nat.or_comm, ← Nat.shiftLeft_add_eq_or_of_lt hlo, Nat.shiftLeft_eq]
  rw [hsum]
  refine ⟨by omega, ?_, ?_⟩
  · rw [← UInt8.toNat_inj, UInt8.toNat_ofNat']
    omega
  · rw [← UInt8.toNat_inj, UInt8.toNat_ofNat', Nat.shiftRight_eq_div_pow]
    omega

/-- What a round has read that does not end in an error. -/
inductive Round (src : List UInt8) (cap fuel ip : Nat) (dst : List UInt8) (n : Int)
    (out : List UInt8) : Prop
  | stop (h : src.drop ip = []) (hn : n = dst.length) (hout : out = dst)
  | last (literals : List UInt8) (ml : Nat)
      (h : src.drop ip
        = tokenByte literals.length ml :: (lengthTail literals.length ++ literals))
      (hcap : (dst ++ literals).length ≤ cap) (hn : n = (dst ++ literals).length)
      (hout : out = dst ++ literals)
  | group (literals : List UInt8) (offset ml ip' : Nat)
      (h : src.drop ip = groupBytes literals offset ml ++ src.drop ip') (hpos : 1 ≤ offset)
      (hoff : offset ≤ 65535) (hdst : offset ≤ (dst ++ literals).length)
      (hcap : (dst ++ literals).length + (ml + LZ4_MINMATCH) ≤ cap)
      (hrest : decompressLoop src cap fuel ip'
        (copyBack offset (ml + LZ4_MINMATCH) (dst ++ literals)) = .ret n out)

theorem decompressLoop_inv (h : decompressLoop src cap (fuel + 1) ip dst = .ret n out)
    (hn : n ≠ -1) : Round src cap fuel ip dst n out := by
  have herror : ∀ {dst : List UInt8}, Exit.ret (-1) dst ≠ .ret n out := by
    intro dst heq
    exact hn (Exit.ret.inj heq).1.symm
  unfold decompressLoop at h
  split at h
  · -- the end of the input
    rename_i hend
    obtain ⟨rfl, rfl⟩ := Exit.ret.inj h
    exact .stop (List.drop_eq_nil_iff.mpr (List.getElem?_eq_none_iff.mp hend)) rfl rfl
  rename_i token htoken
  obtain ⟨hip, rfl⟩ := List.getElem?_eq_some_iff.mp htoken
  obtain ⟨hhigh, hlow, -⟩ := halves src[ip]
  split at h
  · exact absurd h herror
  rename_i start literalLen hliteral
  obtain ⟨l, hl, hhigh', hdrop⟩ := readLength_inv hhigh hliteral
  obtain rfl : literalLen = l := hl
  split at h
  · exact absurd h herror
  rename_i hfits
  obtain ⟨hroom, hcap⟩ := not_or.mp hfits
  -- the literals are there
  obtain ⟨literals, hliterals⟩ : ∃ ls, ls = (src.drop start).take literalLen := ⟨_, rfl⟩
  have hlen : literals.length = literalLen := by
    rw [hliterals, List.length_take, List.length_drop]
    omega
  have hsplit : src.drop start = literals ++ src.drop (start + literalLen) := by
    rw [hliterals, ← List.drop_drop, List.take_append_drop]
  have hout : (dst ++ literals).length = dst.length + literalLen := by
    rw [List.length_append, hlen]
  rw [← hliterals] at h
  dsimp only at h
  have hsrc : src.drop ip
      = src[ip] :: (lengthTail literals.length ++ (literals ++ src.drop (start + literalLen))) := by
    rw [List.drop_eq_getElem_cons hip, hdrop, hsplit, hlen]
  split at h
  · -- the last group
    rename_i hend
    obtain ⟨rfl, rfl⟩ := Exit.ret.inj h
    refine .last literals (src[ip] &&& 0x0F).toNat ?_ (by omega) rfl rfl
    rw [hsrc, List.drop_eq_nil_iff.mpr hend, List.append_nil,
      tokenByte_of_halves (by rw [hlen]; exact hhigh') (by omega)]
  split at h
  · exact absurd h herror
  split at h
  · rename_i lo hi hlo hhi
    obtain ⟨hoff, hlo', hhi'⟩ := offset_of_bytes lo hi
    split at h
    · exact absurd h herror
    rename_i hzero
    split at h
    · exact absurd h herror
    rename_i ip' matchLen hmatch
    obtain ⟨ml, rfl, hlow', hdrop'⟩ := readLength_inv hlow hmatch
    split at h
    · exact absurd h herror
    split at h
    · exact absurd h herror
    rename_i hcap' hdst
    have hpos : 1 ≤ lo.toNat ||| (hi.toNat <<< 8) := Nat.one_le_iff_ne_zero.mpr hzero
    refine .group literals _ ml ip' ?_ hpos hoff (by omega) (by omega) ?_
    · obtain ⟨hlt, rfl⟩ := List.getElem?_eq_some_iff.mp hlo
      obtain ⟨hlt', rfl⟩ := List.getElem?_eq_some_iff.mp hhi
      rw [groupBytes, tokenByte_of_halves (by rw [hlen]; exact hhigh') hlow', hlo', hhi', hsrc,
        List.drop_eq_getElem_cons hlt, List.drop_eq_getElem_cons hlt', hdrop']
      simp
    · rwa [copyMatch_eq hpos (by omega)] at h
  · cases h

theorem block_of_decompressLoop (h : decompressLoop src cap fuel ip dst = .ret n out)
    (hn : n ≠ -1) (hcap : dst.length ≤ cap) :
    n = out.length ∧ out.length ≤ cap
      ∧ ∃ groups, Block (src.drop ip) groups ∧ meaning groups dst = some out := by
  induction fuel generalizing ip dst with
  | zero => cases h
  | succ fuel ih =>
      cases decompressLoop_inv h hn with
      | stop hsrc hn hout =>
          subst hout
          exact ⟨hn, hcap, [], hsrc ▸ .nil, rfl⟩
      | last literals ml hsrc hcap hn hout =>
          subst hout
          refine ⟨hn, hcap, [⟨literals, none⟩], ?_, rfl⟩
          rw [hsrc]
          exact .last literals ml
      | group literals offset ml ip' hsrc hpos hoff hdst hcap hrest =>
          obtain ⟨hn, hcap, groups, hblock, hmeaning⟩ :=
            ih hrest (by rw [length_copyBack hpos hdst]; exact hcap)
          refine ⟨hn, hcap, ⟨literals, some (offset, ml + LZ4_MINMATCH)⟩ :: groups, ?_, ?_⟩
          · rw [hsrc]
            exact .group literals ml hoff hblock
          · rw [meaning, Group.meaning]
            dsimp only
            rw [if_pos ⟨hpos, hdst⟩, Option.bind_some, hmeaning]

/-- **The decoder is the format.** For every input and every capacity it returns a length exactly if
the input is a block that means something of at most that capacity, and it has then written what the
block means. -/
theorem lz4Decompress_iff (src : List UInt8) (cap : Nat) (n : Int) (out : List UInt8) :
    lz4Decompress src cap = .ret n out ∧ n ≠ -1
      ↔ n = out.length ∧ out.length ≤ cap
        ∧ ∃ groups, Block src groups ∧ meaning groups [] = some out := by
  constructor
  · rintro ⟨h, hn⟩
    exact block_of_decompressLoop h hn (Nat.zero_le _)
  · rintro ⟨rfl, hcap, groups, hblock, hmeaning⟩
    refine ⟨decompressLoop_block hblock rfl (Nat.lt_succ_self _) hmeaning hcap, ?_⟩
    omega

end NoobKernel.Misc.Lz4
