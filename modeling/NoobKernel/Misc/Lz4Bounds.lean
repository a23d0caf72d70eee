import NoobKernel.Lib.Exec
import NoobKernel.Misc.Lz4RoundTrip

set_option autoImplicit false

/-! # Memory accesses of the LZ4 decoder (`misc/lz4.c`)

`lz4_decompress` with each of its accesses to the two buffers, as a program that logs them. The
destination has bytes at every index, so that nothing but the checks of the code keeps an access
inside. A pointer is an index into its buffer. A loop that does not end would fault. A length
grows by at most 255 with each byte read, so `size_t` does not wrap.

`memcpy` reads all its bytes before it writes the first: a copy that overlapped its source would
be seen to read bytes not yet written.
-/

namespace NoobKernel.Misc.Lz4.Decoder

inductive Access
  | readSrc (i : Nat)
  | writeDst (i : Nat)
  /-- with whether the byte has been written before -/
  | readDst (i : Nat) (written : Bool)
  deriving DecidableEq

/-- The destination: its bytes and which of them have been written. -/
structure Buffer where
  mem : Nat → UInt8
  written : Nat → Bool

def Buffer.store (k : Buffer) (i : Nat) (b : UInt8) : Buffer where
  mem := Function.update k.mem i b
  written := Function.update k.written i true

abbrev Decode (α : Type) : Type := Exec Buffer Access Unit α

def readSrc (src : List UInt8) (i : Nat) : Decode UInt8 := do
  Exec.emit (.readSrc i)
  pure (src.getD i 0)

def writeDst (i : Nat) (b : UInt8) : Decode Unit := do
  Exec.emit (.writeDst i)
  Exec.modify fun k => k.store i b

def readDst (i : Nat) : Decode UInt8 := do
  let k ← Exec.read
  Exec.emit (.readDst i (k.written i))
  pure (k.mem i)

def loadBytes (read : Nat → Decode UInt8) : Nat → Nat → Decode (List UInt8)
  | _, 0 => pure []
  | i, n + 1 => do
      let b ← read i
      let bs ← loadBytes read (i + 1) n
      pure (b :: bs)

def storeBytes : Nat → List UInt8 → Decode Unit
  | _, [] => pure ()
  | i, b :: bs => do
      writeDst i b
      storeBytes (i + 1) bs

/-- `memcpy` into the destination, with `read` to read from the other pointer's buffer. -/
def memcpy (read : Nat → Decode UInt8) (dest ptr n : Nat) : Decode Unit := do
  let bs ← loadBytes read ptr n
  storeBytes dest bs

/-- `do { if (ip >= iend) return -1; s = *ip++; len += s; } while (s == 255);` -/
def readRun (src : List UInt8) : Nat → Nat → Nat → Decode (Option (Nat × Nat))
  | 0, _, _ => Exec.fault ()
  | fuel + 1, ip, len =>
      if src.length ≤ ip then pure none
      else do
        let s ← readSrc src ip
        if s = 255 then readRun src fuel (ip + 1) (len + s.toNat)
        else pure (some (ip + 1, len + s.toNat))

def readLength (src : List UInt8) (nibble base ip : Nat) : Decode (Option (Nat × Nat)) :=
  if nibble = 15 then readRun src src.length ip (nibble + base)
  else pure (some (ip, nibble + base))

/-- `do { *dest++ = *ref++; remaining--; } while (remaining > offset);` -/
def copyLoop (offset : Nat) : Nat → Nat → Nat → Nat → Decode (Nat × Nat)
  | 0, _, _, _ => Exec.fault ()
  | fuel + 1, dest, ref, remaining => do
      let b ← readDst ref
      writeDst dest b
      if offset < remaining - 1 then copyLoop offset fuel (dest + 1) (ref + 1) (remaining - 1)
      else pure (dest + 1, remaining - 1)

/-- The copy of a match, after `ref < dst` has been checked. -/
def copyMatch (op offset matchLen : Nat) : Decode Unit :=
  if offset < matchLen then do
    let (dest, remaining) ← copyLoop offset matchLen op (op - offset) matchLen
    memcpy readDst dest (dest - offset) remaining
  else memcpy readDst op (op - offset) matchLen

def decompressLoop (src : List UInt8) (cap : Nat) : Nat → Nat → Nat → Decode Int
  | 0, _, _ => Exec.fault ()
  | fuel + 1, ip, op =>
      if src.length ≤ ip then pure op
      else do
        let token ← readSrc src ip
        match ← readLength src (token >>> 4).toNat 0 (ip + 1) with
        | none => pure (-1)
        | some (ip, literalLen) =>
            if src.length < ip + literalLen ∨ cap < op + literalLen then pure (-1)
            else do
              memcpy (readSrc src) op ip literalLen
              let op := op + literalLen
              let ip := ip + literalLen
              -- the last sequence has no match
              if src.length ≤ ip then pure op
              else if src.length < ip + 2 then pure (-1)
              else do
                let lo ← readSrc src ip
                let hi ← readSrc src (ip + 1)
                let offset := lo.toNat ||| (hi.toNat <<< 8)
                if offset = 0 then pure (-1)
                else
                  match ← readLength src (token &&& 0x0F).toNat LZ4_MINMATCH (ip + 2) with
                  | none => pure (-1)
                  | some (ip, matchLen) =>
                      if cap < op + matchLen then pure (-1)
                      else if op < offset then pure (-1)
                      else do
                        copyMatch op offset matchLen
                        decompressLoop src cap fuel ip (op + matchLen)

def lz4Decompress (src : List UInt8) (dstCapacity : Nat) : Decode Int :=
  decompressLoop src dstCapacity (src.length + 1) 0 0

/-! ## What the accesses must be -/

/-- The access lies in its buffer, and a byte of the destination that is read has been
written. -/
def Access.InBounds (src : List UInt8) (cap : Nat) : Access → Prop
  | .readSrc i => i < src.length
  | .writeDst i => i < cap
  | .readDst i written => i < cap ∧ written = true

/-- Every access in bounds, and no fault. -/
def bounds (src : List UInt8) (cap : Nat) : Policy Access Unit where
  safe _ := True
  fine := Access.InBounds src cap
  allowed _ := False

/-- The destination starts with the bytes `dst`, all of them written. -/
def Buffer.Holds (k : Buffer) (dst : List UInt8) : Prop :=
  ∀ i b, dst[i]? = some b → k.mem i = b ∧ k.written i = true

theorem Buffer.holds_nil (k : Buffer) : k.Holds [] := by
  intro i b h
  simp at h

theorem Buffer.Holds.store {k : Buffer} {dst : List UInt8} (h : k.Holds dst) (b : UInt8) :
    (k.store dst.length b).Holds (dst ++ [b]) := by
  intro i b' hb
  rcases lt_trichotomy i dst.length with hi | rfl | hi
  · rw [List.getElem?_append_left hi] at hb
    obtain ⟨hmem, hwritten⟩ := h i b' hb
    constructor
    · exact (Function.update_of_ne hi.ne _ _).trans hmem
    · exact (Function.update_of_ne hi.ne _ _).trans hwritten
  · rw [List.getElem?_concat_length, Option.some_inj] at hb
    simp [Buffer.store, hb]
  · rw [List.getElem?_eq_none (by simp; omega)] at hb
    exact nomatch hb

section Specs

variable {src dst : List UInt8} {cap : Nat} {k : Buffer}

theorem readSrc_spec {i : Nat} (hi : i < src.length) :
    Yields (bounds src cap) (readSrc src i k) fun b k' => src[i]? = some b ∧ k' = k := by
  refine Yields.emit_bind fun _ => ⟨hi, Yields.pure ⟨?_, rfl⟩⟩
  rw [List.getD_eq_getElem?_getD, List.getElem?_eq_getElem hi, Option.getD_some]

theorem writeDst_spec (h : k.Holds dst) (hlt : dst.length < cap) (b : UInt8) :
    Yields (bounds src cap) (writeDst dst.length b k) fun _ k' => k'.Holds (dst ++ [b]) := by
  refine Yields.emit_bind fun _ => ⟨hlt, ?_⟩
  exact Yields.ok (h.store b)

theorem readDst_spec (h : k.Holds dst) (hcap : dst.length ≤ cap) {i : Nat}
    (hi : i < dst.length) :
    Yields (bounds src cap) (readDst i k) fun b k' => dst[i]? = some b ∧ k' = k := by
  obtain ⟨hmem, hwritten⟩ := h i dst[i] (List.getElem?_eq_getElem hi)
  rw [readDst, Exec.read_bind_apply]
  refine Yields.emit_bind fun _ => ⟨⟨hi.trans_le hcap, hwritten⟩, Yields.pure ⟨?_, rfl⟩⟩
  rw [hmem, List.getElem?_eq_getElem hi]

theorem loadBytes_spec {pol : Policy Access Unit} {read : Nat → Decode UInt8} {l : List UInt8}
    (hread : ∀ i < l.length, Yields pol (read i k) fun b k' => l[i]? = some b ∧ k' = k)
    {i n : Nat} (hle : i + n ≤ l.length) :
    Yields pol (loadBytes read i n k) fun bs k' => bs = (l.drop i).take n ∧ k' = k := by
  induction n generalizing i with
  | zero => exact Yields.ok ⟨rfl, rfl⟩
  | succ n ih =>
      refine Yields.bind (hread i (by omega)) ?_
      rintro b _ ⟨hb, rfl⟩
      refine Yields.bind (ih (by omega)) ?_
      rintro _ _ ⟨rfl, rfl⟩
      refine Yields.pure ⟨?_, rfl⟩
      obtain ⟨hi, rfl⟩ := List.getElem?_eq_some_iff.mp hb
      rw [List.drop_eq_getElem_cons hi, List.take_succ_cons]

theorem storeBytes_spec (bs : List UInt8) (h : k.Holds dst) (hcap : dst.length + bs.length ≤ cap) :
    Yields (bounds src cap) (storeBytes dst.length bs k) fun _ k' => k'.Holds (dst ++ bs) := by
  induction bs generalizing dst k with
  | nil =>
      rw [List.append_nil]
      exact Yields.ok h
  | cons b bs ih =>
      rw [List.length_cons] at hcap
      refine Yields.bind (writeDst_spec h (by omega) b) ?_
      intro _ k₁ h₁
      have hrest := ih h₁ (by rw [List.length_append, List.length_singleton]; omega)
      rw [List.length_append, List.length_singleton, List.append_assoc] at hrest
      exact hrest

theorem memcpy_readSrc (h : k.Holds dst) {ip n : Nat} (hip : ip + n ≤ src.length)
    (hcap : dst.length + n ≤ cap) :
    Yields (bounds src cap) (memcpy (readSrc src) dst.length ip n k) fun _ k' =>
      k'.Holds (dst ++ (src.drop ip).take n) := by
  refine Yields.bind (loadBytes_spec (fun _ => readSrc_spec) hip) ?_
  rintro _ _ ⟨rfl, rfl⟩
  refine storeBytes_spec _ h ?_
  rw [List.length_take, List.length_drop]
  omega

theorem memcpy_readDst (h : k.Holds dst) {offset n : Nat} (hn : n ≤ offset)
    (hoff : offset ≤ dst.length) (hcap : dst.length + n ≤ cap) :
    Yields (bounds src cap) (memcpy readDst dst.length (dst.length - offset) n k) fun _ k' =>
      k'.Holds (copyBlock offset n dst) := by
  refine Yields.bind (loadBytes_spec (fun _ => readDst_spec h (by omega)) (by omega)) ?_
  rintro _ _ ⟨rfl, rfl⟩
  refine storeBytes_spec _ h ?_
  rw [List.length_take, List.length_drop]
  omega

/-! ## The loops -/

theorem readRun_spec {fuel ip len : Nat} (hle : ip ≤ src.length)
    (hfuel : src.length < ip + fuel) :
    Yields (bounds src cap) (readRun src fuel ip len k) fun r k' =>
      r = Lz4.readRun src fuel ip len ∧ k' = k := by
  induction fuel generalizing ip len with
  | zero => omega
  | succ fuel ih =>
      unfold readRun Lz4.readRun
      split
      · rename_i hend
        rw [List.getElem?_eq_none hend]
        exact Yields.pure ⟨rfl, rfl⟩
      · rename_i hend
        refine Yields.bind (readSrc_spec (by omega)) ?_
        rintro s _ ⟨hs, rfl⟩
        rw [hs]
        dsimp only
        split
        · exact ih (by omega) (by omega)
        · exact Yields.pure ⟨rfl, rfl⟩

theorem readLength_spec {nibble base ip : Nat} (hpos : 0 < ip) (hle : ip ≤ src.length) :
    Yields (bounds src cap) (readLength src nibble base ip k) fun r k' =>
      r = Lz4.readLength src nibble base ip ∧ k' = k := by
  unfold readLength Lz4.readLength
  split
  · exact readRun_spec hle (by omega)
  · exact Yields.pure ⟨rfl, rfl⟩

theorem readRun_bounds {fuel ip len ip' n : Nat}
    (h : Lz4.readRun src fuel ip len = some (ip', n)) : ip < ip' ∧ ip' ≤ src.length := by
  induction fuel generalizing ip len with
  | zero => exact nomatch h
  | succ fuel ih =>
      unfold Lz4.readRun at h
      split at h
      · exact nomatch h
      · rename_i s hs
        obtain ⟨hlt, -⟩ := List.getElem?_eq_some_iff.mp hs
        split at h
        · obtain ⟨h₁, h₂⟩ := ih h
          exact ⟨by omega, h₂⟩
        · obtain ⟨rfl, -⟩ := Prod.mk.inj (Option.some.inj h)
          exact ⟨Nat.lt_succ_self ip, hlt⟩

theorem readLength_bounds {nibble base ip ip' n : Nat} (hle : ip ≤ src.length)
    (h : Lz4.readLength src nibble base ip = some (ip', n)) : ip ≤ ip' ∧ ip' ≤ src.length := by
  unfold Lz4.readLength at h
  split at h
  · obtain ⟨h₁, h₂⟩ := readRun_bounds h
    exact ⟨h₁.le, h₂⟩
  · obtain ⟨rfl, -⟩ := Prod.mk.inj (Option.some.inj h)
    exact ⟨le_refl ip, hle⟩

theorem copyLoop_spec (h : k.Holds dst) {offset fuel remaining : Nat} (hpos : 0 < offset)
    (hoff : offset ≤ dst.length) (hlt : offset < remaining) (hcap : dst.length + remaining ≤ cap)
    (hfuel : remaining ≤ offset + fuel) :
    Yields (bounds src cap) (copyLoop offset fuel dst.length (dst.length - offset) remaining k)
      fun r k' => r = (dst.length + (remaining - offset), offset)
        ∧ k'.Holds (BackCopy.copyBack offset (remaining - offset) dst) := by
  induction fuel generalizing dst k remaining with
  | zero => omega
  | succ fuel ih =>
      refine Yields.bind (readDst_spec h (by omega) (by omega)) ?_
      rintro b _ ⟨hb, rfl⟩
      refine Yields.bind (writeDst_spec h (by omega) b) ?_
      intro _ k₁ h₁
      -- a round of the loop is a round of `copyBack`
      obtain ⟨n, hn⟩ : ∃ n, remaining - offset = n + 1 := ⟨remaining - offset - 1, by omega⟩
      have hround : BackCopy.copyBack offset (n + 1) dst
          = BackCopy.copyBack offset n (dst ++ [b]) := by
        rw [BackCopy.copyBack, hb, Option.toList_some]
      have hlen : (dst ++ [b]).length = dst.length + 1 := by simp
      rw [hn, hround]
      split
      · rename_i hmore
        have hrec := ih h₁ (by omega) hmore (by omega) (by omega)
        rw [hlen, Nat.sub_add_comm hoff] at hrec
        refine hrec.mono ?_
        rintro r k' ⟨hr, hk'⟩
        constructor
        · rw [hr]
          congr 1
          omega
        · convert hk' using 2
          omega
      · obtain rfl : n = 0 := by omega
        refine Yields.pure ⟨?_, h₁⟩
        congr 1
        omega

theorem copyMatch_spec (h : k.Holds dst) {offset matchLen : Nat} (hpos : 0 < offset)
    (hoff : offset ≤ dst.length) (hcap : dst.length + matchLen ≤ cap) :
    Yields (bounds src cap) (copyMatch dst.length offset matchLen k) fun _ k' =>
      k'.Holds (Lz4.copyMatch offset matchLen dst) := by
  unfold copyMatch Lz4.copyMatch
  split
  · rename_i hlt
    refine Yields.bind (copyLoop_spec h hpos hoff hlt hcap (by omega)) ?_
    rintro _ k₁ ⟨rfl, h₁⟩
    have hlen := BackCopy.length_copyBack (n := matchLen - offset) hpos hoff
    rw [← hlen]
    exact memcpy_readDst h₁ (le_refl offset) (by omega) (by omega)
  · rename_i hle
    exact memcpy_readDst h (by omega) hoff hcap

/-- What a run of the decoder returns, beside the list model of it. -/
def Decoded (cap : Nat) (e : Exit) (n : Int) (k : Buffer) : Prop :=
  ∃ out, e = .ret n out ∧ k.Holds out ∧ out.length ≤ cap ∧ (n = -1 ∨ n = out.length)

theorem Decoded.error (h : k.Holds dst) (hcap : dst.length ≤ cap) :
    Decoded cap (.ret (-1) dst) (-1) k :=
  ⟨dst, rfl, h, hcap, Or.inl rfl⟩

theorem Decoded.done (h : k.Holds dst) (hcap : dst.length ≤ cap) :
    Decoded cap (.ret dst.length dst) dst.length k :=
  ⟨dst, rfl, h, hcap, Or.inr rfl⟩

theorem length_copyMatch {offset n : Nat} (hpos : 0 < offset) (hoff : offset ≤ dst.length) :
    (Lz4.copyMatch offset n dst).length = dst.length + n := by
  rw [copyMatch_eq hpos hoff, BackCopy.length_copyBack hpos hoff]

/-- One round for each group; each takes at least its token from the input. -/
theorem decompressLoop_spec {fuel ip : Nat} (h : k.Holds dst) (hcap : dst.length ≤ cap)
    (hle : ip ≤ src.length) (hfuel : src.length < ip + fuel) :
    Yields (bounds src cap) (decompressLoop src cap fuel ip dst.length k)
      (Decoded cap (Lz4.decompressLoop src cap fuel ip dst)) := by
  induction fuel generalizing dst k ip with
  | zero => omega
  | succ fuel ih =>
      -- each read below is inside the input because the test before it has just passed
      unfold decompressLoop Lz4.decompressLoop
      split
      · rename_i hend
        rw [List.getElem?_eq_none hend]
        exact Yields.pure (Decoded.done h hcap)
      rename_i hend
      refine Yields.bind (readSrc_spec (by omega)) ?_
      rintro token _ ⟨htoken, rfl⟩
      rw [htoken]
      dsimp only
      refine Yields.bind (readLength_spec (Nat.succ_pos ip) (by omega)) ?_
      rintro r _ ⟨rfl, rfl⟩
      cases hlit : Lz4.readLength src (token >>> 4).toNat 0 (ip + 1) with
      | none => exact Yields.pure (Decoded.error h hcap)
      | some r =>
      obtain ⟨ip₁, literalLen⟩ := r
      have hip₁ := readLength_bounds (by omega) hlit
      dsimp only
      split
      · exact Yields.pure (Decoded.error h hcap)
      rename_i hfits
      refine Yields.bind (memcpy_readSrc h (by omega) (by omega)) ?_
      intro _ k₁ h₁
      have hlen₁ : (dst ++ (src.drop ip₁).take literalLen).length = dst.length + literalLen := by
        rw [List.length_append, List.length_take, List.length_drop]
        omega
      rw [← hlen₁]
      have hcap₁ : (dst ++ (src.drop ip₁).take literalLen).length ≤ cap := by omega
      -- what follows only needs the length of the output
      generalize dst ++ (src.drop ip₁).take literalLen = dst₁ at h₁ hlen₁ hcap₁
      split
      · exact Yields.pure (Decoded.done h₁ hcap₁)
      split
      · exact Yields.pure (Decoded.error h₁ hcap₁)
      rename_i hmore hpair
      refine Yields.bind (readSrc_spec (by omega)) ?_
      rintro lo _ ⟨hlo, rfl⟩
      refine Yields.bind (readSrc_spec (by omega)) ?_
      rintro hi _ ⟨hhi, rfl⟩
      rw [hlo, hhi]
      dsimp only
      generalize lo.toNat ||| (hi.toNat <<< 8) = offset
      split
      · exact Yields.pure (Decoded.error h₁ hcap₁)
      rename_i hoffset
      refine Yields.bind (readLength_spec (by omega) (by omega)) ?_
      rintro r _ ⟨rfl, rfl⟩
      cases hmatch : Lz4.readLength src (token &&& 0x0F).toNat LZ4_MINMATCH
          (ip₁ + literalLen + 2) with
      | none => exact Yields.pure (Decoded.error h₁ hcap₁)
      | some r =>
      obtain ⟨ip₂, matchLen⟩ := r
      have hip₂ := readLength_bounds (by omega) hmatch
      dsimp only
      split
      · exact Yields.pure (Decoded.error h₁ hcap₁)
      split
      · exact Yields.pure (Decoded.error h₁ hcap₁)
      rename_i hroom hback
      refine Yields.bind (copyMatch_spec h₁ (by omega) (by omega) (by omega)) ?_
      intro _ k₂ h₂
      have hlen₂ : (Lz4.copyMatch offset matchLen dst₁).length = dst₁.length + matchLen :=
        length_copyMatch (by omega) (by omega)
      rw [← hlen₂]
      exact ih h₂ (by omega) hip₂.2 (by omega)

end Specs

/-- **Robustness of the decoder.** -/
theorem lz4Decompress_robust (src : List UInt8) (dstCapacity : Nat) (mem : Nat → UInt8) :
    ∃ n k log, lz4Decompress src dstCapacity ⟨mem, fun _ => false⟩ = .ok n k log
      ∧ (∀ a ∈ log, a.InBounds src dstCapacity)
      ∧ (n = -1 ∨ 0 ≤ n ∧ n ≤ dstCapacity)
      ∧ ∃ dst, Lz4.lz4Decompress src dstCapacity = .ret n dst ∧ k.Holds dst := by
  have hrun : Yields (bounds src dstCapacity) (lz4Decompress src dstCapacity ⟨mem, fun _ => false⟩)
      (Decoded dstCapacity (Lz4.lz4Decompress src dstCapacity)) :=
    decompressLoop_spec (Buffer.holds_nil _) (Nat.zero_le _) (Nat.zero_le _) (by omega)
  obtain ⟨n, k, log, heq, hfine, dst, hret, hholds, hle, hn⟩ :=
    hrun.returns_fine (fun _ => trivial) (fun _ h => h)
  refine ⟨n, k, log, heq, hfine, ?_, dst, hret, hholds⟩
  rcases hn with hn | hn
  · exact Or.inl hn
  · right
    omega

end NoobKernel.Misc.Lz4.Decoder
