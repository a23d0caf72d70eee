import NoobKernel.Misc.Sha2
import NoobKernel.Lib.BlockStream

set_option autoImplicit false

/-! # Streaming SHA-224 and SHA-256 against the standard

`sha256_transform` is the standard's compression of one block (`sha256Transform_state`). A context
`Represents` the bytes it has been given: the chaining value of their whole blocks, and the rest
of them at the front of the buffer. `sha256_update` keeps this for any chunk, and `sha256_final`
pads what the context represents.
-/

namespace NoobKernel.Misc

open Fips180 (Byte Word Chain absorb compress schedule round rounds wordOf pad)

/-! ## Functions and tables -/

theorem ROTR32_eq (x : Word) {n : Nat} (h : n < 32) : ROTR32 x n = x.rotateRight n := by
  rw [ROTR32, BitVec.rotateRight_def, Nat.mod_eq_of_lt h]

theorem EP0_32_eq : EP0_32 = Fips180.Sigma0 := by
  funext x
  rw [EP0_32, ROTR32_eq x (by decide), ROTR32_eq x (by decide), ROTR32_eq x (by decide)]
  rfl

theorem EP1_32_eq : EP1_32 = Fips180.Sigma1 := by
  funext x
  rw [EP1_32, ROTR32_eq x (by decide), ROTR32_eq x (by decide), ROTR32_eq x (by decide)]
  rfl

theorem SIG0_32_eq : SIG0_32 = Fips180.sigma0 := by
  funext x
  rw [SIG0_32, ROTR32_eq x (by decide), ROTR32_eq x (by decide)]
  rfl

theorem SIG1_32_eq : SIG1_32 = Fips180.sigma1 := by
  funext x
  rw [SIG1_32, ROTR32_eq x (by decide), ROTR32_eq x (by decide)]
  rfl

theorem sha256K_eq {t : Nat} (h : t < 64) : sha256K.getD t 0 = Fips180.K t := by
  have table : ∀ t < 64, sha256K.getD t 0 = Fips180.K t := by
    unfold Fips180.K
    rw [Fips180.primes_eq]
    decide
  exact table t h

/-- An entry of the table is the start of the fractional part of the cube root of its prime. -/
theorem sha256K_root {t : Nat} (h : t < 64) :
    ∃ root, sha256K.getD t 0 = BitVec.ofNat 32 root
      ∧ root ^ 3 ≤ Fips180.primes.getD t 0 * 2 ^ 96
      ∧ Fips180.primes.getD t 0 * 2 ^ 96 < (root + 1) ^ 3 := by
  have small : ∀ t < 64, Fips180.primes.getD t 0 < 2 ^ (16 * 3) := by
    rw [Fips180.primes_eq]
    decide
  rw [sha256K_eq h]
  exact Fips180.rootBits_spec (by decide) (small t h)

theorem sha256InitState_eq : sha256InitState = Fips180.initial256 := by
  rw [Fips180.initial256, Fips180.primes_eq]
  decide

theorem sha224InitState_eq : sha224InitState = Fips180.initial224 := by
  rw [Fips180.initial224, Fips180.primes_eq]
  decide

/-- A big-endian word read on a little-endian machine. -/
theorem swap32_loadU32 (data : List Byte) : swap32 (loadU32 data) = wordOf data := by
  unfold loadU32 wordOf
  generalize data.getD 0 0 = b₀
  generalize data.getD 1 0 = b₁
  generalize data.getD 2 0 = b₂
  generalize data.getD 3 0 = b₃
  apply BitVec.eq_of_getLsbD_eq
  intro i hi
  simp only [swap32, BitVec.getLsbD_or, BitVec.getLsbD_and, BitVec.getLsbD_shiftLeft,
    BitVec.getLsbD_ushiftRight, BitVec.getLsbD_append]
  interval_cases i <;> simp

/-! ## Compression -/

/-- The loop builds the schedule. -/
theorem sha256Schedule_getD (data : List Byte) {t : Nat} (ht : t < 64) :
    (sha256Schedule data).getD t 0 = schedule data t := by
  have loop : ∀ n, ((List.range' 16 n).foldl
      (fun w i => w ++ [SIG1_32 (w.getD (i - 2) 0) + w.getD (i - 7) 0 + SIG0_32 (w.getD (i - 15) 0)
        + w.getD (i - 16) 0])
      ((List.range 16).map fun i => swap32 (loadU32 (data.drop (4 * i)))))
      = (List.range (16 + n)).map (schedule data) := by
    intro n
    induction n with
    | zero =>
        rw [List.range'_zero, List.foldl_nil]
        refine List.map_congr_left fun i hi => ?_
        rw [swap32_loadU32, Fips180.schedule_lt (List.mem_range.mp hi)]
    | succ n ih =>
        have hget : ∀ k, k < 16 + n → ((List.range (16 + n)).map (schedule data)).getD k 0
            = schedule data k := by
          intro k hk
          rw [List.getD_eq_getElem _ _ (by simpa using hk), List.getElem_map, List.getElem_range]
        rw [List.range'_concat, List.foldl_append, ih, List.foldl_cons, List.foldl_nil, Nat.one_mul,
          hget _ (by omega), hget _ (by omega), hget _ (by omega), hget _ (by omega), SIG0_32_eq,
          SIG1_32_eq, ← Fips180.schedule_ge (by omega), ← Nat.add_assoc, List.range_succ,
          List.map_append, List.map_singleton]
  rw [sha256Schedule, loop 48, List.getD_eq_getElem _ _ (by simpa using ht), List.getElem_map,
    List.getElem_range]

/-- The variables as the standard numbers them. -/
def Sha256Vars.chain (v : Sha256Vars) : Chain := #v[v.a, v.b, v.c, v.d, v.e, v.f, v.g, v.h]

theorem chain_sha256Round (v : Sha256Vars) (k w : Word) :
    (sha256Round v k w).chain = round v.chain k w := by
  unfold sha256Round
  rw [EP0_32_eq, EP1_32_eq]
  rfl

theorem chain_rounds (data : List Byte) (v : Sha256Vars) {n : Nat} (hn : n ≤ 64) :
    ((List.range n).foldl (fun v i => sha256Round v (sha256K.getD i 0)
      ((sha256Schedule data).getD i 0)) v).chain = rounds data v.chain n := by
  induction n with
  | zero => rfl
  | succ n ih =>
      rw [List.range_succ, List.foldl_append, List.foldl_cons, List.foldl_nil, chain_sha256Round,
        ih (by omega), sha256K_eq (by omega), sha256Schedule_getD data (by omega)]
      rfl

/-- **`sha256_transform` compresses** the block at `data`. -/
theorem sha256Transform_state (ctx : Sha256Ctx) (data : List Byte) :
    (sha256Transform ctx data).state = compress ctx.state data := by
  let s := Fips180.Vars.ofChain ctx.state
  have hstart : (⟨s.a, s.b, s.c, s.d, s.e, s.f, s.g, s.h⟩ : Sha256Vars).chain = ctx.state :=
    Fips180.Vars.chain_ofChain ctx.state
  have hrounds := chain_rounds data ⟨s.a, s.b, s.c, s.d, s.e, s.f, s.g, s.h⟩ (Nat.le_refl 64)
  rw [hstart] at hrounds
  rw [compress, ← hrounds]
  refine Vector.ext fun i hi => ?_
  rw [Vector.getElem_zipWith]
  interval_cases i <;> rfl

theorem sha256Transform_eq (ctx : Sha256Ctx) (data : List Byte) :
    sha256Transform ctx data = { ctx with state := compress ctx.state data } := by
  rw [← sha256Transform_state]
  rfl

/-! ## The stream of a context -/

theorem absorb_eq (initial : Chain) (m : List Byte) (n : Nat) :
    absorb initial m n = BlockStream.absorb compress 64 initial m n := by
  induction n with
  | zero => rfl
  | succ n ih => rw [absorb, BlockStream.absorb, ih]

/-- A copy that stays within its source. -/
theorem copyTo_eq (buf : Vector Byte 64) (off : Nat) {src : List Byte} {n : Nat}
    (h : n ≤ src.length) : copyTo buf off src n = BlockStream.copyTo buf off src n := by
  refine Vector.ext fun i hi => ?_
  rw [copyTo, BlockStream.copyTo, Vector.getElem_ofFn, Vector.getElem_ofFn]
  by_cases hin : off ≤ i ∧ i < off + n
  · have hlt : i - off < src.length := by omega
    rw [if_pos hin, if_pos hin, List.getD_eq_getElem _ _ hlt, List.getD_eq_getElem _ _ hlt]
  · rw [if_neg hin, if_neg hin]

theorem clearFrom_eq (buf : Vector Byte 64) (off n : Nat) :
    clearFrom buf off n = BlockStream.copyTo buf off (List.replicate n 0) n :=
  copyTo_eq buf off List.length_replicate.ge

def Sha256Ctx.stream (ctx : Sha256Ctx) : BlockStream.Stream Byte Chain 64 := ⟨ctx.state, ctx.buf⟩

theorem sha256Blocks_eq (fuel : Nat) (ctx : Sha256Ctx) (p : List Byte) :
    sha256Blocks fuel ctx p
      = ({ ctx with state := (BlockStream.blocks compress 64 fuel ctx.state p).1 },
          (BlockStream.blocks compress 64 fuel ctx.state p).2) := by
  induction fuel generalizing ctx p with
  | zero => rfl
  | succ fuel ih =>
      rw [sha256Blocks, BlockStream.blocks]
      split
      · rw [ih, sha256Transform_eq]
      · rfl

theorem stream_sha256Drain (ctx : Sha256Ctx) (p : List Byte) :
    (sha256Drain ctx p).stream = BlockStream.drain compress ctx.stream p := by
  unfold sha256Drain BlockStream.drain
  rw [sha256Blocks_eq]
  dsimp only [Sha256Ctx.stream]
  split
  · rw [copyTo_eq _ _ le_rfl]
  · rfl

theorem count_sha256Drain (ctx : Sha256Ctx) (p : List Byte) :
    (sha256Drain ctx p).count = ctx.count := by
  unfold sha256Drain
  rw [sha256Blocks_eq]
  dsimp only
  split <;> rfl

theorem stream_sha256Update (ctx : Sha256Ctx) (data : List Byte) :
    (sha256Update ctx data).stream
      = BlockStream.update compress (ctx.count &&& 0x3f).toNat ctx.stream data := by
  unfold sha256Update BlockStream.update
  dsimp only
  split
  · split
    · rw [copyTo_eq _ _ le_rfl]
      rfl
    · rename_i hlong
      rw [stream_sha256Drain, sha256Transform_eq, copyTo_eq _ _ (Nat.le_of_not_lt hlong)]
      rfl
  · exact stream_sha256Drain _ _

theorem count_sha256Update (ctx : Sha256Ctx) (data : List Byte) :
    (sha256Update ctx data).count = ctx.count + BitVec.ofNat 64 data.length := by
  unfold sha256Update
  dsimp only
  split
  · split
    · rfl
    · rw [count_sha256Drain, sha256Transform_eq]
  · exact count_sha256Drain _ _

theorem sha256Final_eq (ctx : Sha256Ctx) :
    sha256Final ctx
      = (BlockStream.finish compress 0x80 0 56 (bitCountBytes (ctx.count <<< 3))
          (ctx.count &&& 0x3f).toNat ctx.stream).toList.flatMap digestBytes := by
  unfold sha256Final BlockStream.finish
  simp only [sha256Transform_eq, clearFrom_eq]
  rw [copyTo_eq _ _ (Nat.le_refl 1)]
  dsimp only [Sha256Ctx.stream]
  split
  · rw [copyTo_eq _ _ (Nat.le_refl 8)]
  · rw [copyTo_eq _ _ (Nat.le_refl 8)]

/-! ## The count -/

theorem counter_used_one (n : Nat) : (BitVec.ofNat 64 n &&& 0x3f).toNat = n % 64 := by
  have hmask : (0x3f : BitVec 64).toNat = 2 ^ 6 - 1 := rfl
  rw [BitVec.toNat_and, hmask, Nat.and_two_pow_sub_one_eq_mod, BitVec.toNat_ofNat]
  omega

theorem bitCountBytes_eq {length : Nat} (h : length < 2 ^ 61) :
    bitCountBytes (BitVec.ofNat 64 length <<< 3) = Fips180.lengthBytes (8 * length) := by
  have byte : ∀ j, ((BitVec.ofNat 64 length <<< 3) >>> (8 * j)).setWidth 8
      = BitVec.ofNat 8 (8 * length / 256 ^ j) := by
    intro j
    apply BitVec.eq_of_toNat_eq
    rw [BitVec.toNat_setWidth, BitVec.toNat_ushiftRight, BitVec.toNat_shiftLeft,
      BitVec.toNat_ofNat, BitVec.toNat_ofNat, Nat.shiftLeft_eq, Nat.shiftRight_eq_div_pow,
      Nat.mod_eq_of_lt (show length < 2 ^ 64 by omega),
      Nat.mod_eq_of_lt (show length * 2 ^ 3 < 2 ^ 64 by omega), Nat.mul_comm, Nat.pow_mul]
    rfl
  exact congrArg₂ List.cons (byte 7) (congrArg₂ List.cons (byte 6) (congrArg₂ List.cons (byte 5)
    (congrArg₂ List.cons (byte 4) (congrArg₂ List.cons (byte 3) (congrArg₂ List.cons (byte 2)
      (congrArg₂ List.cons (byte 1) (congrArg₂ List.cons ((byte 0).trans (by simp)) rfl)))))))

theorem digestBytes_eq : digestBytes = Fips180.wordBytes := by
  funext s
  have byte : ∀ k, (s >>> k).setWidth 8 = s.extractLsb' k 8 := by
    intro k
    apply BitVec.eq_of_toNat_eq
    rw [BitVec.toNat_setWidth, BitVec.toNat_ushiftRight, BitVec.extractLsb'_toNat]
  exact congrArg₂ List.cons (byte 24) (congrArg₂ List.cons (byte 16) (congrArg₂ List.cons (byte 8)
    (congrArg₂ List.cons (byte 0) rfl)))

/-! ## What a context represents -/

variable {initial : Chain} {ctx : Sha256Ctx} {m : List Byte}

/-- The context after the bytes `m`. -/
structure Represents (initial : Chain) (ctx : Sha256Ctx) (m : List Byte) : Prop where
  count : ctx.count = BitVec.ofNat 64 m.length
  state : ctx.state = absorb initial m (m.length / 64)
  buf : ctx.buf.toList.take (m.length % 64) = m.drop (64 * (m.length / 64))

theorem represents_iff :
    Represents initial ctx m
      ↔ ctx.count = BitVec.ofNat 64 m.length
        ∧ BlockStream.Represents compress initial ctx.stream m := by
  rw [BlockStream.represents_iff (by decide), ← absorb_eq]
  constructor
  · rintro ⟨hcount, hstate, hbuf⟩
    exact ⟨hcount, hstate, hbuf⟩
  · rintro ⟨hcount, hstate, hbuf⟩
    exact ⟨hcount, hstate, hbuf⟩

/-- **`sha256_update` consumes its chunk**, whatever its length. -/
theorem Represents.update (h : Represents initial ctx m) (data : List Byte) :
    Represents initial (sha256Update ctx data) (m ++ data) := by
  obtain ⟨hcount, hstream⟩ := represents_iff.mp h
  refine represents_iff.mpr ⟨?_, ?_⟩
  · rw [count_sha256Update, hcount, List.length_append, BitVec.ofNat_add]
  · rw [stream_sha256Update, hcount, counter_used_one]
    exact hstream.update (by decide) data

/-- **`sha256_final` pads** what the context represents, in one block or in two. -/
theorem Represents.final (h : Represents initial ctx m) (hlen : m.length < 2 ^ 61) :
    sha256Final ctx = Fips180.hash initial m := by
  obtain ⟨hcount, hstream⟩ := represents_iff.mp h
  obtain ⟨hpad, hblocks⟩ := Fips180.length_pad m
  have hzeros : Fips180.zeros m.length = (55 + 64 - m.length % 64) % 64 := rfl
  have hlast : m.length % 64 + 1 + Fips180.zeros m.length = 56
      ∨ 56 < m.length % 64 + 1 ∧ m.length % 64 + 1 + Fips180.zeros m.length = 64 + 56 := by
    omega
  have hwhole : m.length + 1 + Fips180.zeros m.length + (64 - 56)
      = 64 * ((pad m).length / 64) := by
    omega
  have hfinish := hstream.finish (by decide) 0x80 0 (by decide)
    (Fips180.length_lengthBytes (8 * m.length)) hlast hwhole
  rw [sha256Final_eq, hcount, counter_used_one, bitCountBytes_eq hlen, hfinish, digestBytes_eq,
    Fips180.hash, absorb_eq]
  rfl

theorem represents_init (ctx : Sha256Ctx) :
    Represents Fips180.initial256 (sha256Init ctx) [] :=
  ⟨rfl, sha256InitState_eq, rfl⟩

theorem represents_init224 (ctx : Sha256Ctx) :
    Represents Fips180.initial224 (sha224Init ctx) [] :=
  ⟨rfl, sha224InitState_eq, rfl⟩

theorem Represents.updates (h : Represents initial ctx m) (chunks : List (List Byte)) :
    Represents initial (chunks.foldl sha256Update ctx) (m ++ chunks.flatten) := by
  induction chunks generalizing ctx m with
  | nil =>
      rw [List.flatten_nil, List.append_nil]
      exact h
  | cons chunk chunks ih =>
      rw [List.foldl_cons, List.flatten_cons, ← List.append_assoc]
      exact ih (h.update chunk)

/-- **Streaming computes the standard's digests**, for every message and every way to cut it, and
whatever the context held before. -/
theorem sha2_streaming (ctx : Sha256Ctx) (chunks : List (List Byte))
    (hlen : chunks.flatten.length < 2 ^ 61) :
    sha256Final (chunks.foldl sha256Update (sha256Init ctx)) = Fips180.sha256 chunks.flatten
      ∧ sha224Final (chunks.foldl sha224Update (sha224Init ctx))
        = Fips180.sha224 chunks.flatten := by
  have h256 := (represents_init ctx).updates chunks
  have h224 := (represents_init224 ctx).updates chunks
  rw [List.nil_append] at h256 h224
  constructor
  · exact h256.final hlen
  · exact congrArg (List.take 28) (h224.final hlen)

theorem sha2_streaming_abc :
    sha256Final ([[0x61], [], [0x62, 0x63]].foldl sha256Update
          (sha256Init ⟨sha224InitState, 7, Vector.replicate 64 0xff⟩))
        = Fips180.sha256 [0x61, 0x62, 0x63]
      ∧ sha224Final ([[0x61], [], [0x62, 0x63]].foldl sha224Update
          (sha224Init ⟨sha224InitState, 7, Vector.replicate 64 0xff⟩))
        = Fips180.sha224 [0x61, 0x62, 0x63] :=
  sha2_streaming ⟨sha224InitState, 7, Vector.replicate 64 0xff⟩ [[0x61], [], [0x62, 0x63]]
    (by decide)

-- the digest of "abc" that the standard prints
example : sha256Final ([[0x61], [], [0x62, 0x63]].foldl sha256Update
      (sha256Init ⟨sha224InitState, 7, Vector.replicate 64 0xff⟩))
    = [0xba, 0x78, 0x16, 0xbf, 0x8f, 0x01, 0xcf, 0xea, 0x41, 0x41, 0x40, 0xde, 0x5d, 0xae, 0x22,
      0x23, 0xb0, 0x03, 0x61, 0xa3, 0x96, 0x17, 0x7a, 0x9c, 0xb4, 0x10, 0xff, 0x61, 0xf2, 0x00,
      0x15, 0xad] := by
  decide +kernel

end NoobKernel.Misc
