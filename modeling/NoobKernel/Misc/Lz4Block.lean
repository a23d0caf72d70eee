import NoobKernel.Misc.Lz4Capacity

set_option autoImplicit false

/-! # The end of an LZ4 block (`misc/lz4.c`)

Decoders of LZ4 expect a block to end in literals: if there is a match in it, five of them, and no
match may start in the last twelve bytes. The encoder looks for matches and compares words up to
these limits, but then compares single bytes up to the end of its input. A match so ends where the
input stops repeating itself (`Found.stops`), and `endOfBlock_iff` says when that is in time.
-/

namespace NoobKernel.Misc.Lz4

/-! ## The groups of a block -/

/-- A token with its literals and its match, as offset and length. -/
structure Group where
  literals : List UInt8
  matched : Option (Nat × Nat)
  deriving DecidableEq

/-- The groups from `ip` on, read as the decoder reads them; a group that ends the block is without a
match. -/
def parseLoop (block : List UInt8) : Nat → Nat → Option (List Group)
  | 0, _ => none
  | fuel + 1, ip =>
      match block[ip]? with
      | none => some []
      | some token =>
          match readLength block (token >>> 4).toNat 0 (ip + 1) with
          | none => none
          | some (start, literalLen) =>
              let literals := (block.drop start).take literalLen
              let ip := start + literalLen
              if block.length < ip then none
              else if block.length ≤ ip then some [⟨literals, none⟩]
              else
                match block[ip]?, block[ip + 1]? with
                | some lo, some hi =>
                    match readLength block (token &&& 0x0F).toNat LZ4_MINMATCH (ip + 2) with
                    | none => none
                    | some (ip, matchLen) =>
                        (parseLoop block fuel ip).map
                          (⟨literals, some (lo.toNat ||| (hi.toNat <<< 8), matchLen)⟩ :: ·)
                | _, _ => none

def parseGroups (block : List UInt8) : Option (List Group) := parseLoop block (block.length + 1) 0

/-- Where the matches start in the input, the first group being for the bytes from `n` on. -/
def matchStarts : Nat → List Group → List Nat
  | _, [] => []
  | n, ⟨literals, none⟩ :: groups => matchStarts (n + literals.length) groups
  | n, ⟨literals, some (_, matchLen)⟩ :: groups =>
      (n + literals.length) :: matchStarts (n + literals.length + matchLen) groups

/-- The last group is of literals only; if there is a match, the last `LZ4_LASTLITERALS` bytes of the
input are among them, and no match starts in the last `LZ4_MFLIMIT`. -/
def EndOfBlock (src block : List UInt8) : Prop :=
  ∃ front literals, parseGroups block = some (front ++ [⟨literals, none⟩])
    ∧ (matchStarts 0 (front ++ [⟨literals, none⟩]) ≠ [] →
      src.drop (src.length - LZ4_LASTLITERALS) <:+ literals
        ∧ ∀ start ∈ matchStarts 0 (front ++ [⟨literals, none⟩]),
          start + LZ4_MFLIMIT < src.length)

section

variable {src block rest literals : List UInt8} {offset ml ip fuel : Nat}

theorem parseLoop_group (h : block.drop ip = groupBytes literals offset ml ++ rest)
    (hoff : offset ≤ 65535) :
    parseLoop block (fuel + 1) ip
      = (parseLoop block fuel (ip + (groupBytes literals offset ml).length)).map
          (⟨literals, some (offset, ml + LZ4_MINMATCH)⟩ :: ·) := by
  obtain ⟨start, htoken, hliteral, hroom, hlits, hlo, hhi, hmatch⟩ := read_group h
  rw [parseLoop, htoken]
  simp only
  rw [hliteral]
  simp only
  rw [if_neg (by omega), if_neg (by omega), hlits, hlo, hhi]
  simp only
  rw [offset_bytes hoff, hmatch]

theorem parseLoop_last (h : block.drop ip = lastBytes literals) :
    parseLoop block (fuel + 1) ip = some [⟨literals, none⟩] := by
  obtain ⟨start, htoken, hliteral, hend, hlits⟩ := read_last h
  rw [parseLoop, htoken]
  simp only
  rw [hliteral]
  simp only
  rw [if_neg (by omega), if_pos (by omega), hlits]

theorem parseLoop_end (h : block.drop ip = []) : parseLoop block (fuel + 1) ip = some [] := by
  rw [parseLoop, List.getElem?_eq_none (List.drop_eq_nil_iff.mp h)]

end

/-! ## The matches in the output -/

/-- A match as it is written. -/
def Match.bytes (src : List UInt8) (m : Match) : List UInt8 :=
  groupBytes (m.literals src) m.offset (m.matchEnd - m.ip - LZ4_MINMATCH)

def Match.group (src : List UInt8) (m : Match) : Group :=
  ⟨m.literals src, some (m.offset, m.matchEnd - m.ip)⟩

section

variable {src block rest literals out out' : List UInt8} {cap a anchor ip fuel : Nat}
  {ms : List Match}

theorem emitMatches_bytes (h : emitMatches src cap ms a out = (true, anchor, out'))
    (hle : out.length ≤ cap) :
    anchor = endOf a ms ∧ out' = out ++ ms.flatMap (Match.bytes src) ∧ out'.length ≤ cap := by
  induction ms generalizing a out with
  | nil =>
      obtain ⟨rfl, rfl⟩ := Prod.mk.inj (congrArg Prod.snd h)
      exact ⟨rfl, (List.append_nil _).symm, hle⟩
  | cons m ms ih =>
      rw [emitMatches] at h
      generalize hseq : emitSequence _ _ _ _ _ = r at h
      obtain ⟨ok, written⟩ := r
      cases ok with
      | false => cases congrArg Prod.fst h
      | true =>
          obtain ⟨rfl, hlen⟩ := emitSequence_spec hseq
          obtain ⟨hanchor, rfl, hlen'⟩ := ih h hlen
          rw [List.flatMap_cons]
          exact ⟨hanchor, List.append_assoc _ _ _, hlen'⟩

/-- The matches are read back. -/
theorem parseLoop_matches (hchain : Chain src a ms) (hoff : ∀ m ∈ ms, m.offset ≤ 65535)
    (h : block.drop ip = ms.flatMap (Match.bytes src) ++ rest) :
    parseLoop block (fuel + ms.length) ip
      = (parseLoop block fuel (ip + (ms.flatMap (Match.bytes src)).length)).map
          (ms.map (Match.group src) ++ ·) := by
  induction ms generalizing a ip with
  | nil =>
      simp only [List.flatMap_nil, List.map_nil, List.nil_append, List.length_nil, Nat.add_zero]
      exact Option.map_id'.symm
  | cons m ms ih =>
      obtain ⟨rfl, hle, hmin, hend, hrest⟩ := hchain
      rw [List.flatMap_cons, List.append_assoc] at h
      have hlen : m.matchEnd - m.ip - LZ4_MINMATCH + LZ4_MINMATCH = m.matchEnd - m.ip := by omega
      have hgroup : parseLoop block (fuel + ms.length + 1) ip
          = (parseLoop block (fuel + ms.length) (ip + (m.bytes src).length)).map
            (m.group src :: ·) := by
        rw [Match.group, ← hlen]
        exact parseLoop_group h (hoff m List.mem_cons_self)
      rw [List.length_cons, ← Nat.add_assoc, hgroup,
        ih hrest (fun m' hm => hoff m' (List.mem_cons_of_mem _ hm)) (drop_of_drop _ h rfl),
        List.flatMap_cons, List.length_append, Nat.add_assoc, Option.map_map]
      rfl

theorem length_le_bytes (src : List UInt8) (ms : List Match) :
    ms.length ≤ (ms.flatMap (Match.bytes src)).length := by
  induction ms with
  | nil => exact Nat.zero_le 0
  | cons m ms ih =>
      rw [List.flatMap_cons, List.length_append, List.length_cons, Match.bytes, groupBytes,
        List.length_cons]
      omega

/-- **The groups of the output** are the matches, and the literals after them if there are any. -/
theorem parseGroups_matches (hchain : Chain src 0 ms) (hoff : ∀ m ∈ ms, m.offset ≤ 65535) :
    (literals ≠ [] → parseGroups (ms.flatMap (Match.bytes src) ++ lastBytes literals)
        = some (ms.map (Match.group src) ++ [⟨literals, none⟩]))
      ∧ parseGroups (ms.flatMap (Match.bytes src)) = some (ms.map (Match.group src)) := by
  have hlen := length_le_bytes src ms
  unfold parseGroups
  constructor
  · intro hne
    obtain ⟨fuel, hfuel⟩ : ∃ fuel,
        (ms.flatMap (Match.bytes src) ++ lastBytes literals).length + 1 = fuel + 1 + ms.length := by
      rw [List.length_append]
      exact ⟨(ms.flatMap (Match.bytes src)).length + (lastBytes literals).length - ms.length,
        by omega⟩
    have hdrop : (ms.flatMap (Match.bytes src) ++ lastBytes literals).drop 0
        = ms.flatMap (Match.bytes src) ++ lastBytes literals := rfl
    rw [hfuel, parseLoop_matches hchain hoff hdrop, Nat.zero_add, parseLoop_last List.drop_left,
      Option.map_some]
  · obtain ⟨fuel, hfuel⟩ : ∃ fuel,
        (ms.flatMap (Match.bytes src)).length + 1 = fuel + 1 + ms.length :=
      ⟨(ms.flatMap (Match.bytes src)).length - ms.length, by omega⟩
    have hdrop : (ms.flatMap (Match.bytes src)).drop 0 = ms.flatMap (Match.bytes src) ++ [] :=
      (List.append_nil _).symm
    rw [hfuel, parseLoop_matches hchain hoff hdrop, Nat.zero_add, parseLoop_end List.drop_length,
      Option.map_some, List.append_nil]

end

/-! ## Where a match ends -/

/-- The comparison of bytes goes on to the first difference. -/
theorem extendBytes_stops {src : List UInt8} {offset fuel matchEnd : Nat}
    (hfuel : src.length ≤ matchEnd + fuel)
    (h : extendBytes src offset fuel matchEnd < src.length) :
    src.getD (extendBytes src offset fuel matchEnd - offset) 0
      ≠ src.getD (extendBytes src offset fuel matchEnd) 0 := by
  induction fuel generalizing matchEnd with
  | zero =>
      rw [extendBytes] at h
      omega
  | succ fuel ih =>
      rw [extendBytes] at h ⊢
      split at h
      · rename_i hcond
        rw [if_pos hcond]
        exact ih (by omega) h
      · rename_i hcond
        rw [if_neg hcond]
        exact fun heq => hcond ⟨h, heq⟩

/-- What is known of a match. -/
structure Found (src : List UInt8) (m : Match) : Prop where
  limit : m.ip + LZ4_MFLIMIT < src.length
  word : m.offset ≤ 65535
  min : m.ip + LZ4_MINMATCH ≤ m.matchEnd
  rep : Repeats src m.offset m.ip m.matchEnd
  stops : m.matchEnd < src.length →
    src.getD (m.matchEnd - m.offset) 0 ≠ src.getD m.matchEnd 0

theorem found_findMatches {src : List UInt8} {step fuel ip anchor : Nat} {hashTable : Nat → Nat} :
    ∀ m ∈ findMatches src step fuel ip anchor hashTable, Found src m := by
  induction fuel generalizing ip anchor hashTable with
  | zero => exact fun m hm => absurd hm List.not_mem_nil
  | succ fuel ih =>
      rw [findMatches]
      split
      · rename_i hlimit
        dsimp only
        generalize hashTable _ = ref
        split
        · exact ih
        · rename_i hmatch
          push Not at hmatch
          obtain ⟨hpos, hword, heq⟩ := hmatch
          obtain ⟨hrep, hmin⟩ := repeats_matchEndOf hlimit (by omega) heq
          intro m hm
          rcases List.mem_cons.mp hm with rfl | hm
          · exact ⟨hlimit, hword, hmin, hrep, extendBytes_stops (Nat.le_add_left _ _)⟩
          · exact ih m hm
      · exact fun m hm => absurd hm List.not_mem_nil

theorem found_matchesOf {src : List UInt8} {acceleration : Int} :
    ∀ m ∈ matchesOf src acceleration, Found src m := by
  unfold matchesOf
  split
  · exact fun m hm => absurd hm List.not_mem_nil
  · exact found_findMatches

/-- Before the last `LZ4_LASTLITERALS` bytes there is a byte that differs from the one `offset`
before it. -/
def StopsInTime (src : List UInt8) (ip offset : Nat) : Prop :=
  ∃ j, ip + LZ4_MINMATCH ≤ j ∧ j + LZ4_LASTLITERALS ≤ src.length
    ∧ src.getD (j - offset) 0 ≠ src.getD j 0

theorem Found.inTime_iff {src : List UInt8} {m : Match} (h : Found src m) :
    m.matchEnd + LZ4_LASTLITERALS ≤ src.length ↔ StopsInTime src m.ip m.offset := by
  constructor
  · intro hend
    refine ⟨m.matchEnd, h.min, hend, h.stops ?_⟩
    unfold LZ4_LASTLITERALS at hend
    omega
  · rintro ⟨j, hmin, hend, hne⟩
    by_contra hlong
    have hsame := h.rep.2 j (by omega) (by omega)
    rw [List.getD_eq_getElem?_getD, List.getD_eq_getElem?_getD, hsame] at hne
    exact hne rfl

/-! ## The end of the output -/

section

variable {src literals : List UInt8} {a : Nat} {ms : List Match} {m : Match}

theorem Chain.le_endOf (h : Chain src a ms) : a ≤ endOf a ms := by
  induction ms generalizing a with
  | nil => exact Nat.le_refl a
  | cons m ms ih =>
      obtain ⟨-, hle, hmin, -, hrest⟩ := h
      have hend := ih hrest
      rw [endOf]
      omega

theorem Chain.matchEnd_le (h : Chain src a ms) (hm : m ∈ ms) : m.matchEnd ≤ endOf a ms := by
  induction ms generalizing a with
  | nil => cases hm
  | cons m' ms ih =>
      rcases List.mem_cons.mp hm with rfl | hm
      · exact h.2.2.2.2.le_endOf
      · exact ih h.2.2.2.2 hm

theorem endOf_eq (hne : ms ≠ []) : ∃ m ∈ ms, endOf a ms = m.matchEnd := by
  induction ms generalizing a with
  | nil => exact absurd rfl hne
  | cons m ms ih =>
      rw [endOf]
      cases ms with
      | nil => exact ⟨m, List.mem_singleton_self m, rfl⟩
      | cons m' ms =>
          obtain ⟨last, hlast, heq⟩ := @ih m.matchEnd (List.cons_ne_nil m' ms)
          exact ⟨last, List.mem_cons_of_mem _ hlast, heq⟩

/-- All matches end in time if the last one does. -/
theorem Chain.inTime_iff (h : Chain src a ms) (hne : ms ≠ []) (n : Nat) :
    endOf a ms + LZ4_LASTLITERALS ≤ n ↔ ∀ m ∈ ms, m.matchEnd + LZ4_LASTLITERALS ≤ n := by
  constructor
  · intro hend m hm
    have hle := h.matchEnd_le hm
    omega
  · intro hall
    obtain ⟨last, hlast, heq⟩ := @endOf_eq a ms hne
    rw [heq]
    exact hall last hlast

/-- The matches start where the encoder has found them. -/
theorem Chain.matchStarts (h : Chain src a ms) :
    Lz4.matchStarts a (ms.map (Match.group src) ++ [⟨literals, none⟩]) = ms.map Match.ip := by
  induction ms generalizing a with
  | nil => rfl
  | cons m ms ih =>
      obtain ⟨rfl, hle, hmin, hend, hrest⟩ := h
      have hlits : (m.literals src).length = m.ip - m.anchor := by
        rw [Match.literals, List.length_take, List.length_drop]
        omega
      have hip : m.anchor + (m.literals src).length = m.ip := by omega
      have hnext : m.ip + (m.matchEnd - m.ip) = m.matchEnd := by omega
      rw [List.map_cons, List.cons_append, Match.group, Lz4.matchStarts, hip, hnext, ih hrest,
        List.map_cons]

/-- There are last literals. -/
theorem endOfBlock_literals (hchain : Chain src 0 ms) (hfound : ∀ m ∈ ms, Found src m)
    (hlast : src.drop (endOf 0 ms) ≠ []) :
    EndOfBlock src (ms.flatMap (Match.bytes src) ++ lastBytes (src.drop (endOf 0 ms)))
      ↔ ∀ m ∈ ms, m.matchEnd + LZ4_LASTLITERALS ≤ src.length := by
  have hparse := (parseGroups_matches hchain fun m hm => (hfound m hm).word).1 hlast
  unfold EndOfBlock
  rw [hparse]
  constructor
  · rintro ⟨front, literals, hgroups, hrule⟩ m hm
    have hne : ms ≠ [] := List.ne_nil_of_mem hm
    obtain ⟨rfl, hlits⟩ := List.append_inj' (Option.some.inj hgroups) rfl
    obtain rfl : src.drop (endOf 0 ms) = literals :=
      congrArg Group.literals (List.singleton_inj.mp hlits)
    rw [hchain.matchStarts] at hrule
    -- the last bytes of the input are a suffix of what follows the last match
    have hlen := (hrule fun hnil => hne (List.map_eq_nil_iff.mp hnil)).1.length_le
    rw [List.length_drop, List.length_drop] at hlen
    have hle := hchain.matchEnd_le hm
    have hlimit := (hfound m hm).limit
    unfold LZ4_MFLIMIT at hlimit
    unfold LZ4_LASTLITERALS at hlen ⊢
    omega
  · intro hall
    refine ⟨ms.map (Match.group src), src.drop (endOf 0 ms), rfl, ?_⟩
    rw [hchain.matchStarts]
    intro hne
    constructor
    · have hend := (hchain.inTime_iff (fun hnil => hne (by rw [hnil]; rfl)) _).mpr hall
      obtain ⟨k, hk⟩ : ∃ k, src.length - LZ4_LASTLITERALS = endOf 0 ms + k :=
        ⟨src.length - LZ4_LASTLITERALS - endOf 0 ms, by omega⟩
      rw [hk, ← List.drop_drop]
      exact List.drop_suffix k _
    · intro start hstart
      obtain ⟨m, hm, rfl⟩ := List.mem_map.mp hstart
      exact (hfound m hm).limit

/-- There are none. -/
theorem not_endOfBlock_matches (hchain : Chain src 0 ms) (hfound : ∀ m ∈ ms, Found src m) :
    ¬EndOfBlock src (ms.flatMap (Match.bytes src)) := by
  rintro ⟨front, literals, hgroups, -⟩
  rw [(@parseGroups_matches src [] ms hchain fun m hm => (hfound m hm).word).2] at hgroups
  have hmem : ⟨literals, none⟩ ∈ ms.map (Match.group src) := by
    rw [Option.some.inj hgroups]
    exact List.mem_append_right _ (List.mem_singleton_self _)
  obtain ⟨m, -, hgroup⟩ := List.mem_map.mp hmem
  exact nomatch congrArg Group.matched hgroup

end

/-- **Where a block ends as it should.** -/
theorem endOfBlock_iff {src out : List UInt8} {dstCapacity acceleration n : Int}
    (hpos : 1 ≤ src.length) (h : lz4CompressFast src dstCapacity acceleration = (n, out))
    (hn : 0 ≤ n) :
    EndOfBlock src out ↔ ∀ m ∈ matchesOf src acceleration, StopsInTime src m.ip m.offset := by
  have hcap : 0 < dstCapacity := by
    by_contra hnone
    unfold lz4CompressFast at h
    rw [if_neg (by omega), if_pos (by omega)] at h
    cases h
    omega
  obtain ⟨cap, rfl⟩ := Int.eq_ofNat_of_zero_le hcap.le
  rw [lz4CompressFast_eq src hpos cap (by omega) acceleration] at h
  -- from here on the matches are any chain of matches that the compressor could have found
  have hchain := chain_matchesOf src acceleration
  have hfound := @found_matchesOf src acceleration
  generalize matchesOf src acceleration = ms at h hchain hfound ⊢
  have htime : (∀ m ∈ ms, StopsInTime src m.ip m.offset)
      ↔ ∀ m ∈ ms, m.matchEnd + LZ4_LASTLITERALS ≤ src.length :=
    forall₂_congr fun m hm => (hfound m hm).inTime_iff.symm
  rw [htime]
  generalize hmatches : emitMatches src cap ms 0 [] = r at h
  obtain ⟨ok, anchor, bytes⟩ := r
  -- a call that runs out of room returns -1
  have hneg : ¬((-1 : Int), bytes) = (n, out) := by
    intro heq
    have hone := congrArg Prod.fst heq
    dsimp only at hone
    omega
  cases ok with
  | false => exact absurd h hneg
  | true =>
      obtain ⟨rfl, rfl, hlen⟩ := emitMatches_bytes hmatches (Nat.zero_le cap)
      rw [List.nil_append] at h hlen
      dsimp only at h
      generalize hlast : emitLast cap _ _ = r at h
      obtain ⟨ok, written⟩ := r
      cases ok with
      | false =>
          have hone := congrArg Prod.fst h
          dsimp only at hone
          omega
      | true =>
          obtain ⟨-, rfl⟩ := Prod.mk.inj h
          obtain ⟨-, ⟨hnil, rfl⟩ | ⟨hsome, rfl⟩⟩ := emitLast_spec hlen hlast
          · -- the last match has taken all of the input
            have hend := List.drop_eq_nil_iff.mp hnil
            have hne : ms ≠ [] := by
              rintro rfl
              rw [endOf] at hend
              omega
            refine iff_of_false (not_endOfBlock_matches hchain hfound) fun hall => ?_
            have hlate := (hchain.inTime_iff hne _).mpr hall
            unfold LZ4_LASTLITERALS at hlate
            omega
          · exact endOfBlock_literals hchain hfound hsome

/-- A match of four bytes well before the end. -/
theorem endOfBlock_sixteenLiterals :
    EndOfBlock sixteenLiterals (lz4CompressFast sixteenLiterals 64 1).2 := by
  refine (endOfBlock_iff (by decide) (Prod.eta _).symm (by decide)).mpr ?_
  have hmatches : matchesOf sixteenLiterals 1 = [⟨0, 16, 16, 20⟩] := by decide
  rw [hmatches]
  intro m hm
  obtain rfl := List.mem_singleton.mp hm
  exact ⟨20, by decide, by decide, by decide⟩

/-- Twenty equal bytes: a literal and a match to the end. -/
theorem not_forall_endOfBlock :
    ¬∀ (src out : List UInt8) (dstCapacity acceleration n : Int), 1 ≤ src.length →
      lz4CompressFast src dstCapacity acceleration = (n, out) → 0 ≤ n → EndOfBlock src out := by
  intro h
  obtain ⟨front, literals, hgroups, -⟩ :=
    h (List.replicate 20 7) [0x1F, 7, 1, 0, 0] 32 1 5 (by decide) (by decide) (by decide)
  have hparse : parseGroups [0x1F, 7, 1, 0, 0] = some [⟨[7], some (1, 19)⟩] := by decide
  have hmem : ⟨literals, none⟩ ∈ [Group.mk [7] (some (1, 19))] := by
    rw [Option.some.inj (hparse.symm.trans hgroups)]
    exact List.mem_append_right _ (List.mem_singleton_self _)
  exact nomatch congrArg Group.matched (List.mem_singleton.mp hmem)

end NoobKernel.Misc.Lz4
