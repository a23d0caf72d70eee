import NoobKernel.Misc.Sha512

set_option autoImplicit false

/-! # Streaming SHA-384 and SHA-512 against the standard

The functions and tables of the code are those of the standard (`sha512Code_eq`), so
`sha512_transform` is the standard's compression. A context holds a stream of blocks and a count
of bytes in two words; `sha512_update` carries from one word to the other when the sum of the
low words wraps, which shows in its being below a summand.
-/

namespace NoobKernel.Misc

open Fips180 (Byte Variant)
open Fips180.Wide (Word Chain compress wordOf pad)

/-! ## Functions and tables -/

theorem ROTR64_eq (x : Word) {n : Nat} (h : n < 64) : ROTR64 x n = x.rotateRight n := by
  rw [ROTR64, BitVec.rotateRight_def, Nat.mod_eq_of_lt h]

theorem EP0_64_eq : EP0_64 = Fips180.Wide.Sigma0 := by
  funext x
  rw [EP0_64, ROTR64_eq x (by decide), ROTR64_eq x (by decide), ROTR64_eq x (by decide)]
  rfl

theorem EP1_64_eq : EP1_64 = Fips180.Wide.Sigma1 := by
  funext x
  rw [EP1_64, ROTR64_eq x (by decide), ROTR64_eq x (by decide), ROTR64_eq x (by decide)]
  rfl

theorem SIG0_64_eq : SIG0_64 = Fips180.Wide.sigma0 := by
  funext x
  rw [SIG0_64, ROTR64_eq x (by decide), ROTR64_eq x (by decide)]
  rfl

theorem SIG1_64_eq : SIG1_64 = Fips180.Wide.sigma1 := by
  funext x
  rw [SIG1_64, ROTR64_eq x (by decide), ROTR64_eq x (by decide)]
  rfl

theorem sha512K_eq : sha512K = Fips180.Wide.K := by
  rw [Fips180.Wide.K, Fips180.Wide.primes_eq]
  decide

/-- An entry of the table is the start of the fractional part of the cube root of its prime. -/
theorem sha512K_root {t : Nat} (h : t < 80) :
    ∃ root, sha512K.getD t 0 = BitVec.ofNat 64 root
      ∧ root ^ 3 ≤ Fips180.Wide.primes.getD t 0 * 2 ^ 192
      ∧ Fips180.Wide.primes.getD t 0 * 2 ^ 192 < (root + 1) ^ 3 := by
  have small : ∀ t < 80, Fips180.Wide.primes.getD t 0 < 2 ^ (16 * 3) := by
    rw [Fips180.Wide.primes_eq]
    decide
  have hlen : t < Fips180.Wide.primes.length := by
    rw [Fips180.Wide.primes_eq]
    exact h
  have hroot : sha512K.getD t 0 = Fips180.Wide.rootBits 3 (Fips180.Wide.primes.getD t 0) := by
    rw [sha512K_eq, Fips180.Wide.K, List.getD_eq_getElem?_getD, List.getElem?_map,
      List.getD_eq_getElem?_getD, List.getElem?_eq_getElem hlen]
    rfl
  rw [hroot]
  exact Fips180.Wide.rootBits_spec (by decide) (small t h)

theorem sha512InitState_eq : sha512InitState = Fips180.Wide.initial512 := by
  rw [Fips180.Wide.initial512, Fips180.Wide.primes_eq]
  decide

theorem sha384InitState_eq : sha384InitState = Fips180.Wide.initial384 := by
  rw [Fips180.Wide.initial384, Fips180.Wide.primes_eq]
  decide

/-- Each mask of `swap64` selects one byte. -/
theorem byteMask_getLsbD {k j r : Nat} (hk : k < 8) (hj : j < 8) (hr : r < 8) :
    (BitVec.ofNat 64 (0xff * 2 ^ (8 * k))).getLsbD (8 * j + r) = decide (j = k) := by
  have hall : ∀ k < 8, ∀ j < 8, ∀ r < 8,
      (BitVec.ofNat 64 (0xff * 2 ^ (8 * k))).getLsbD (8 * j + r) = decide (j = k) := by
    decide
  exact hall k hk j hj r hr

/-- `swap64` reverses the order of the bytes. -/
theorem swap64_getLsbD (x : Word) {j r : Nat} (hj : j < 8) (hr : r < 8) :
    (swap64 x).getLsbD (8 * j + r) = x.getLsbD (8 * (7 - j) + r) := by
  have h0 := byteMask_getLsbD (k := 0) (by decide) hj hr
  have h1 := byteMask_getLsbD (k := 1) (by decide) hj hr
  have h2 := byteMask_getLsbD (k := 2) (by decide) hj hr
  have h3 := byteMask_getLsbD (k := 3) (by decide) hj hr
  have h4 := byteMask_getLsbD (k := 4) (by decide) hj hr
  have h5 := byteMask_getLsbD (k := 5) (by decide) hj hr
  have h6 := byteMask_getLsbD (k := 6) (by decide) hj hr
  have h7 := byteMask_getLsbD (k := 7) (by decide) hj hr
  norm_num only at h0 h1 h2 h3 h4 h5 h6 h7
  simp only [swap64, BitVec.natCast_eq_ofNat, BitVec.ofNat_eq_ofNat, BitVec.getLsbD_or,
    BitVec.getLsbD_and, BitVec.getLsbD_shiftLeft, BitVec.getLsbD_ushiftRight,
    h0, h1, h2, h3, h4, h5, h6, h7]
  have hlt : 8 * j + r < 64 := by omega
  have hindex : ∀ a b, a = b → x.getLsbD a = x.getLsbD b := fun a b h => congrArg _ h
  -- for each byte one of the eight shifts is left
  interval_cases j
  all_goals simp [hr]
  all_goals grind

/-- A big-endian word read on a little-endian machine. -/
theorem swap64_loadU64 (data : List Byte) : swap64 (loadU64 data) = wordOf data := by
  unfold loadU64 wordOf
  generalize data.getD 0 0 = b₀
  generalize data.getD 1 0 = b₁
  generalize data.getD 2 0 = b₂
  generalize data.getD 3 0 = b₃
  generalize data.getD 4 0 = b₄
  generalize data.getD 5 0 = b₅
  generalize data.getD 6 0 = b₆
  generalize data.getD 7 0 = b₇
  apply BitVec.eq_of_getLsbD_eq
  intro i hi
  obtain ⟨j, r, hr, rfl⟩ : ∃ j r, r < 8 ∧ i = 8 * j + r :=
    ⟨i / 8, i % 8, Nat.mod_lt _ (by decide), (Nat.div_add_mod i 8).symm⟩
  have hj : j < 8 := by omega
  rw [swap64_getLsbD _ hj hr]
  simp only [BitVec.getLsbD_append]
  interval_cases j
  all_goals grind

/-! ## Compression -/

/-- The functions and tables of the code. -/
def sha512Code : Variant 64 where
  Sigma0 := EP0_64
  Sigma1 := EP1_64
  sigma0 := SIG0_64
  sigma1 := SIG1_64
  Ch := CH64
  Maj := MAJ64
  K := sha512K
  size := 8
  wordOf data := swap64 (loadU64 data)

theorem sha512Code_eq : sha512Code = Fips180.Wide.variant := by
  have hword : (fun data => swap64 (loadU64 data)) = wordOf := funext swap64_loadU64
  rw [sha512Code, EP0_64_eq, EP1_64_eq, SIG0_64_eq, SIG1_64_eq, sha512K_eq, hword]
  rfl

/-- **`sha512_transform` compresses** the block at `data`. -/
theorem sha512Transform_eq : sha512Transform = compress := by
  funext s data
  have hloops : sha512Transform s data = sha512Code.transform s data := rfl
  rw [hloops, sha512Code.transform_eq (by decide), sha512Code_eq]
  rfl

/-! ## The stream of a context -/

def Sha512Ctx.stream (ctx : Sha512Ctx) : BlockStream.Stream Byte Chain 128 := ⟨ctx.state, ctx.buf⟩

theorem sha512Blocks_eq (fuel : Nat) (s : Chain) (p : List Byte) :
    sha512Blocks fuel s p = BlockStream.blocks compress 128 fuel s p := by
  induction fuel generalizing s p with
  | zero => rfl
  | succ fuel ih =>
      rw [sha512Blocks, BlockStream.blocks, ih, sha512Transform_eq]

theorem stream_sha512Drain (ctx : Sha512Ctx) (p : List Byte) :
    (sha512Drain ctx p).stream = BlockStream.drain compress ctx.stream p := by
  unfold sha512Drain BlockStream.drain
  rw [sha512Blocks_eq]
  dsimp only [Sha512Ctx.stream]
  split <;> rfl

theorem count_sha512Drain (ctx : Sha512Ctx) (p : List Byte) :
    (sha512Drain ctx p).count = ctx.count := by
  unfold sha512Drain
  dsimp only
  split <;> rfl

theorem stream_sha512Update (ctx : Sha512Ctx) (data : List Byte) :
    (sha512Update ctx data).stream
      = BlockStream.update compress (ctx.countLow &&& 0x7f).toNat ctx.stream data := by
  unfold sha512Update BlockStream.update
  dsimp only
  split
  · split
    · rfl
    · rw [stream_sha512Drain, sha512Transform_eq]
      rfl
  · exact stream_sha512Drain _ _

theorem count_sha512Update (ctx : Sha512Ctx) (data : List Byte) :
    (sha512Update ctx data).count
      = #v[ctx.countLow + BitVec.ofNat 64 data.length,
          if ctx.countLow + BitVec.ofNat 64 data.length < BitVec.ofNat 64 data.length
          then ctx.countHigh + 1 else ctx.countHigh] := by
  unfold sha512Update
  dsimp only
  split
  · split
    · rfl
    · exact count_sha512Drain _ _
  · exact count_sha512Drain _ _

theorem sha512Final_eq (ctx : Sha512Ctx) :
    sha512Final ctx
      = (BlockStream.finish compress 0x80 0 112
          (storeBe64 (ctx.countHigh <<< 3 ||| ctx.countLow >>> 61)
            ++ storeBe64 (ctx.countLow <<< 3))
          (ctx.countLow &&& 0x7f).toNat ctx.stream).toList.flatMap storeBe64 := by
  unfold sha512Final BlockStream.finish
  rw [sha512Transform_eq]
  dsimp only [Sha512Ctx.stream]
  split <;> rfl

/-! ## The count -/

/-- Both words count the bytes, the second the wraps of the first. -/
def counter (n : Nat) : Vector Word 2 := #v[BitVec.ofNat 64 n, BitVec.ofNat 64 (n / 2 ^ 64)]

/-- The low word wraps when the sum is below a summand. -/
theorem counter_add {n k : Nat} (hk : k < 2 ^ 64) :
    counter (n + k)
      = #v[BitVec.ofNat 64 n + BitVec.ofNat 64 k,
          if BitVec.ofNat 64 n + BitVec.ofNat 64 k < BitVec.ofNat 64 k
          then BitVec.ofNat 64 (n / 2 ^ 64) + 1 else BitVec.ofNat 64 (n / 2 ^ 64)] := by
  have hlow : BitVec.ofNat 64 n + BitVec.ofNat 64 k = BitVec.ofNat 64 (n + k) :=
    (BitVec.ofNat_add n k).symm
  have hcarry : BitVec.ofNat 64 (n + k) < BitVec.ofNat 64 k ↔ (n + k) / 2 ^ 64 = n / 2 ^ 64 + 1 := by
    rw [BitVec.lt_def, BitVec.toNat_ofNat, BitVec.toNat_ofNat]
    omega
  rw [hlow, counter]
  congr 2
  split
  · rename_i hlt
    rw [hcarry.mp hlt, BitVec.ofNat_add (n / 2 ^ 64) 1]
    rfl
  · rename_i hge
    have hsame : (n + k) / 2 ^ 64 = n / 2 ^ 64 := by
      rw [hcarry] at hge
      omega
    rw [hsame]

theorem counter_used (n : Nat) : (BitVec.ofNat 64 n &&& 0x7f).toNat = n % 128 := by
  have hmask : (0x7f : BitVec 64).toNat = 2 ^ 7 - 1 := rfl
  rw [BitVec.toNat_and, hmask, Nat.and_two_pow_sub_one_eq_mod, BitVec.toNat_ofNat]
  omega

theorem storeBe64_ofNat (n : Nat) :
    storeBe64 (BitVec.ofNat 64 n)
      = [BitVec.ofNat 8 (n / 256 ^ 7), BitVec.ofNat 8 (n / 256 ^ 6), BitVec.ofNat 8 (n / 256 ^ 5),
        BitVec.ofNat 8 (n / 256 ^ 4), BitVec.ofNat 8 (n / 256 ^ 3), BitVec.ofNat 8 (n / 256 ^ 2),
        BitVec.ofNat 8 (n / 256 ^ 1), BitVec.ofNat 8 (n / 256 ^ 0)] := by
  have byte : ∀ j ≤ 7, (BitVec.ofNat 64 n >>> (8 * j)).setWidth 8 = BitVec.ofNat 8 (n / 256 ^ j) := by
    intro j hj
    apply BitVec.eq_of_toNat_eq
    rw [BitVec.toNat_setWidth, BitVec.toNat_ushiftRight, BitVec.toNat_ofNat, BitVec.toNat_ofNat,
      Nat.shiftRight_eq_div_pow]
    interval_cases j <;> omega
  have last : BitVec.ofNat 64 n >>> (8 * 0) = BitVec.ofNat 64 n := by simp
  rw [← byte 7 (by decide), ← byte 6 (by decide), ← byte 5 (by decide), ← byte 4 (by decide),
    ← byte 3 (by decide), ← byte 2 (by decide), ← byte 1 (by decide), ← byte 0 (by decide), last]
  rfl

/-- The length in bits, from the two words of the count in bytes. -/
theorem counter_bits {n : Nat} (h : n < 2 ^ 125) :
    storeBe64 (BitVec.ofNat 64 (n / 2 ^ 64) <<< 3 ||| BitVec.ofNat 64 n >>> 61)
        ++ storeBe64 (BitVec.ofNat 64 n <<< 3)
      = Fips180.Wide.lengthBytes (8 * n) := by
  have hlow : BitVec.ofNat 64 n <<< 3 = BitVec.ofNat 64 (8 * n) := by
    apply BitVec.eq_of_toNat_eq
    rw [BitVec.toNat_shiftLeft, BitVec.toNat_ofNat, BitVec.toNat_ofNat, Nat.shiftLeft_eq]
    omega
  -- the high word takes the three bits that leave the low one
  have hhigh : BitVec.ofNat 64 (n / 2 ^ 64) <<< 3 ||| BitVec.ofNat 64 n >>> 61
      = BitVec.ofNat 64 (8 * n / 2 ^ 64) := by
    apply BitVec.eq_of_toNat_eq
    have hshift : (n / 2 ^ 64 % 2 ^ 64) <<< 3 % 2 ^ 64 = (n / 2 ^ 64) <<< 3 := by
      rw [Nat.shiftLeft_eq, Nat.shiftLeft_eq]
      omega
    have hthree : n % 2 ^ 64 / 2 ^ 61 < 2 ^ 3 := by omega
    rw [BitVec.toNat_or, BitVec.toNat_shiftLeft, BitVec.toNat_ushiftRight, BitVec.toNat_ofNat,
      BitVec.toNat_ofNat, BitVec.toNat_ofNat, hshift, Nat.shiftRight_eq_div_pow,
      ← Nat.shiftLeft_add_eq_or_of_lt hthree, Nat.shiftLeft_eq]
    omega
  have hpow : ∀ j, 8 * n / 2 ^ 64 / 256 ^ j = 8 * n / 256 ^ (8 + j) := by
    intro j
    rw [Nat.div_div_eq_div_mul, Nat.pow_add]
    rfl
  rw [hlow, hhigh, storeBe64_ofNat, storeBe64_ofNat]
  simp only [hpow]
  rfl

theorem storeBe64_eq : storeBe64 = Fips180.Wide.wordBytes := by
  funext s
  have byte : ∀ k, (s >>> k).setWidth 8 = s.extractLsb' k 8 := by
    intro k
    apply BitVec.eq_of_toNat_eq
    rw [BitVec.toNat_setWidth, BitVec.toNat_ushiftRight, BitVec.extractLsb'_toNat]
  unfold storeBe64 Fips180.Wide.wordBytes
  rw [byte 56, byte 48, byte 40, byte 32, byte 24, byte 16, byte 8, ← byte 0]
  rfl

/-! ## What a context represents -/

/-- The context after the bytes `m`. -/
structure Represents512 (initial : Chain) (ctx : Sha512Ctx) (m : List Byte) : Prop where
  stream : BlockStream.Represents compress initial ctx.stream m
  count : ctx.count = counter m.length

variable {initial : Chain} {ctx : Sha512Ctx} {m : List Byte}

theorem Represents512.countLow (h : Represents512 initial ctx m) :
    ctx.countLow = BitVec.ofNat 64 m.length := by
  rw [Sha512Ctx.countLow, h.count]
  rfl

theorem Represents512.countHigh (h : Represents512 initial ctx m) :
    ctx.countHigh = BitVec.ofNat 64 (m.length / 2 ^ 64) := by
  rw [Sha512Ctx.countHigh, h.count]
  rfl

/-- **`sha512_update` consumes its chunk.** -/
theorem Represents512.update (h : Represents512 initial ctx m) {data : List Byte}
    (hdata : data.length < 2 ^ 64) : Represents512 initial (sha512Update ctx data) (m ++ data) := by
  constructor
  · rw [stream_sha512Update, h.countLow, counter_used]
    exact h.stream.update (by decide) data
  · rw [count_sha512Update, h.countLow, h.countHigh, List.length_append, counter_add hdata]

theorem Represents512.updates (h : Represents512 initial ctx m) (chunks : List (List Byte))
    (hchunks : ∀ chunk ∈ chunks, chunk.length < 2 ^ 64) :
    Represents512 initial (chunks.foldl sha512Update ctx) (m ++ chunks.flatten) := by
  induction chunks generalizing ctx m with
  | nil =>
      rw [List.flatten_nil, List.append_nil]
      exact h
  | cons chunk chunks ih =>
      rw [List.foldl_cons, List.flatten_cons, ← List.append_assoc]
      refine ih (h.update (hchunks chunk List.mem_cons_self)) fun c hc => ?_
      exact hchunks c (List.mem_cons_of_mem _ hc)

/-- **`sha512_final` pads** what the context represents. -/
theorem Represents512.final (h : Represents512 initial ctx m) (hlen : m.length < 2 ^ 125) :
    sha512Final ctx = Fips180.Wide.hash initial m := by
  obtain ⟨hpad, hblocks⟩ := Fips180.Wide.length_pad m
  have hzeros : Fips180.Wide.zeros m.length = (111 + 128 - m.length % 128) % 128 := rfl
  have hlast : m.length % 128 + 1 + Fips180.Wide.zeros m.length = 112
      ∨ 112 < m.length % 128 + 1
        ∧ m.length % 128 + 1 + Fips180.Wide.zeros m.length = 128 + 112 := by
    omega
  have hcount : m.length + 1 + Fips180.Wide.zeros m.length + (128 - 112)
      = 128 * ((pad m).length / 128) := by
    omega
  have hfinish := h.stream.finish (by decide) 0x80 0 (by decide)
    (Fips180.Wide.length_lengthBytes (8 * m.length)) hlast hcount
  rw [sha512Final_eq, h.countLow, h.countHigh, counter_used, counter_bits hlen, hfinish,
    storeBe64_eq]
  rfl

theorem represents_sha512Init (ctx : Sha512Ctx) :
    Represents512 Fips180.Wide.initial512 (sha512Init ctx) [] :=
  ⟨⟨0, [], [], rfl, rfl, by decide, sha512InitState_eq, rfl⟩, rfl⟩

theorem represents_sha384Init (ctx : Sha512Ctx) :
    Represents512 Fips180.Wide.initial384 (sha384Init ctx) [] :=
  ⟨⟨0, [], [], rfl, rfl, by decide, sha384InitState_eq, rfl⟩, rfl⟩

/-- **Streaming computes the standard's digests**, for every message and every way to cut it, and
whatever the context held before. -/
theorem sha512_streaming (ctx : Sha512Ctx) (chunks : List (List Byte))
    (hchunks : ∀ chunk ∈ chunks, chunk.length < 2 ^ 64)
    (hlen : chunks.flatten.length < 2 ^ 125) :
    sha512Final (chunks.foldl sha512Update (sha512Init ctx)) = Fips180.Wide.sha512 chunks.flatten
      ∧ sha384Final (chunks.foldl sha384Update (sha384Init ctx))
        = Fips180.Wide.sha384 chunks.flatten := by
  have h512 := (represents_sha512Init ctx).updates chunks hchunks
  have h384 := (represents_sha384Init ctx).updates chunks hchunks
  rw [List.nil_append] at h512 h384
  constructor
  · exact h512.final hlen
  · exact congrArg (List.take 48) (h384.final hlen)

theorem sha512_streaming_abc :
    sha512Final ([[0x61], [], [0x62, 0x63]].foldl sha512Update
          (sha512Init ⟨sha384InitState, #v[7, 9], Vector.replicate 128 0xff⟩))
        = Fips180.Wide.sha512 [0x61, 0x62, 0x63]
      ∧ sha384Final ([[0x61], [], [0x62, 0x63]].foldl sha384Update
          (sha384Init ⟨sha384InitState, #v[7, 9], Vector.replicate 128 0xff⟩))
        = Fips180.Wide.sha384 [0x61, 0x62, 0x63] :=
  sha512_streaming ⟨sha384InitState, #v[7, 9], Vector.replicate 128 0xff⟩
    [[0x61], [], [0x62, 0x63]] (by decide) (by decide)

end NoobKernel.Misc
