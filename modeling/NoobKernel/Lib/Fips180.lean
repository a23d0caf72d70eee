import Mathlib.Tactic

set_option autoImplicit false

/-! # The secure hash standard: SHA-224 and SHA-256

FIPS 180-4 for messages of whole bytes. The constants are computed from their definition, as the
leading bits of the fractional parts of roots of primes (`rootBits`); the root is found digit by
digit (`rootFrom_spec`, `rootBits_spec`).

A message is hashed block by block; `absorb` is the chaining value after the first blocks of a
byte string.
-/

namespace Fips180

abbrev Byte := BitVec 8
abbrev Word := BitVec 32

/-! ## Integer roots -/

/-- The bits of the `r`-th root of `n` below the ones found, from bit `bits - 1` down. -/
def rootFrom (r n : Nat) : Nat → Nat → Nat
  | 0, found => found
  | bits + 1, found =>
      if (found + 2 ^ bits) ^ r ≤ n then rootFrom r n bits (found + 2 ^ bits)
      else rootFrom r n bits found

/-- The digits found make up the root, rounded down. -/
theorem rootFrom_spec {r n bits found : Nat} (hlow : found ^ r ≤ n)
    (hhigh : n < (found + 2 ^ bits) ^ r) :
    rootFrom r n bits found ^ r ≤ n ∧ n < (rootFrom r n bits found + 1) ^ r := by
  induction bits generalizing found with
  | zero => exact ⟨hlow, hhigh⟩
  | succ bits ih =>
      rw [rootFrom]
      split
      · rename_i hle
        refine ih hle ?_
        rwa [Nat.add_assoc, ← Nat.two_mul, ← Nat.pow_succ']
      · rename_i hlt
        exact ih hlow (Nat.lt_of_not_le hlt)

/-- The first 32 bits of the fractional part of the `r`-th root of `p`. -/
def rootBits (r p : Nat) : Word := BitVec.ofNat 32 (rootFrom r (p * 2 ^ (32 * r)) 48 0)

/-- Its bits are those of the root of `p`, scaled by `2 ^ 32` and rounded down. -/
theorem rootBits_spec {r p : Nat} (hr : r ≠ 0) (hp : p < 2 ^ (16 * r)) :
    ∃ root, rootBits r p = BitVec.ofNat 32 root ∧ root ^ r ≤ p * 2 ^ (32 * r)
      ∧ p * 2 ^ (32 * r) < (root + 1) ^ r := by
  refine ⟨_, rfl, rootFrom_spec ?_ ?_⟩
  · rw [Nat.zero_pow (Nat.pos_of_ne_zero hr)]
    exact Nat.zero_le _
  · calc p * 2 ^ (32 * r) < 2 ^ (16 * r) * 2 ^ (32 * r) :=
          Nat.mul_lt_mul_of_pos_right hp (Nat.two_pow_pos _)
      _ = (0 + 2 ^ 48) ^ r := by
          rw [← Nat.pow_add, ← Nat.add_mul, Nat.zero_add, ← Nat.pow_mul]

/-- The first 64 prime numbers. -/
def primes : List Nat :=
  (List.range 312).filter fun p => 2 ≤ p && (List.range' 2 (p - 2)).all fun d => p % d != 0

theorem primes_eq : primes =
  [2, 3, 5, 7, 11, 13, 17, 19, 23, 29, 31, 37, 41, 43, 47, 53, 59, 61, 67, 71, 73, 79, 83, 89,
    97, 101, 103, 107, 109, 113, 127, 131, 137, 139, 149, 151, 157, 163, 167, 173, 179, 181, 191,
    193, 197, 199, 211, 223, 227, 229, 233, 239, 241, 251, 257, 263, 269, 271, 277, 281, 283,
    293, 307, 311] := by
  decide +kernel

/-! ## Functions and constants -/

def Ch (x y z : Word) : Word := (x &&& y) ^^^ (~~~x &&& z)
def Maj (x y z : Word) : Word := (x &&& y) ^^^ (x &&& z) ^^^ (y &&& z)
def Sigma0 (x : Word) : Word := x.rotateRight 2 ^^^ x.rotateRight 13 ^^^ x.rotateRight 22
def Sigma1 (x : Word) : Word := x.rotateRight 6 ^^^ x.rotateRight 11 ^^^ x.rotateRight 25
def sigma0 (x : Word) : Word := x.rotateRight 7 ^^^ x.rotateRight 18 ^^^ x >>> 3
def sigma1 (x : Word) : Word := x.rotateRight 17 ^^^ x.rotateRight 19 ^^^ x >>> 10

/-- The round constants: cube roots of the first 64 primes. -/
def K (t : Nat) : Word := rootBits 3 (primes.getD t 0)

abbrev Chain := Vector Word 8

/-- Square roots of the first eight primes. -/
def initial256 : Chain := Vector.ofFn fun i => rootBits 2 (primes.getD i 0)

/-- The second 32 bits of the fractional parts of the square roots of the ninth to the sixteenth
prime. -/
def initial224 : Chain :=
  Vector.ofFn fun i =>
    BitVec.ofNat 32 (rootFrom 2 (primes.getD (8 + i) 0 * 2 ^ (64 * 2)) 80 0)

/-! ## Compression -/

/-- The word of four bytes, the first of which is the highest. -/
def wordOf (bytes : List Byte) : Word :=
  bytes.getD 0 0 ++ bytes.getD 1 0 ++ bytes.getD 2 0 ++ bytes.getD 3 0

/-- The message schedule of a block. -/
def schedule (block : List Byte) (t : Nat) : Word :=
  if t < 16 then wordOf (block.drop (4 * t))
  else
    sigma1 (schedule block (t - 2)) + schedule block (t - 7) + sigma0 (schedule block (t - 15))
      + schedule block (t - 16)

/-- The working variables `a` to `h` of a round. -/
structure Vars (w : Nat) where
  a : BitVec w
  b : BitVec w
  c : BitVec w
  d : BitVec w
  e : BitVec w
  f : BitVec w
  g : BitVec w
  h : BitVec w

/-- The words of a chaining value, in their order. -/
def Vars.ofChain {w : Nat} (s : Vector (BitVec w) 8) : Vars w :=
  ⟨s[0], s[1], s[2], s[3], s[4], s[5], s[6], s[7]⟩

/-- The variables as the standard numbers them. -/
def Vars.chain {w : Nat} (v : Vars w) : Vector (BitVec w) 8 :=
  #v[v.a, v.b, v.c, v.d, v.e, v.f, v.g, v.h]

@[simp] theorem Vars.chain_ofChain {w : Nat} (s : Vector (BitVec w) 8) :
    (Vars.ofChain s).chain = s := by
  refine Vector.ext fun i hi => ?_
  interval_cases i <;> rfl

/-- One round on the working variables. -/
def round (v : Chain) (k w : Word) : Chain :=
  let v := Vars.ofChain v
  let t₁ := v.h + Sigma1 v.e + Ch v.e v.f v.g + k + w
  let t₂ := Sigma0 v.a + Maj v.a v.b v.c
  #v[t₁ + t₂, v.a, v.b, v.c, v.d + t₁, v.e, v.f, v.g]

def rounds (block : List Byte) (v : Chain) : Nat → Chain
  | 0 => v
  | t + 1 => round (rounds block v t) (K t) (schedule block t)

def compress (chain : Chain) (block : List Byte) : Chain :=
  Vector.zipWith (· + ·) chain (rounds block chain 64)

/-! ## Messages -/

/-- The zero bytes between the final one bit and the length. -/
def zeros (length : Nat) : Nat := (55 + 64 - length % 64) % 64

/-- A number as eight bytes, the highest first. -/
def lengthBytes (bits : Nat) : List Byte :=
  (List.range 8).map fun i => BitVec.ofNat 8 (bits / 256 ^ (7 - i))

def pad (message : List Byte) : List Byte :=
  message ++ [0x80] ++ List.replicate (zeros message.length) 0
    ++ lengthBytes (8 * message.length)

/-- The chaining value after the first `n` blocks. -/
def absorb (chain : Chain) (bytes : List Byte) : Nat → Chain
  | 0 => chain
  | n + 1 => compress (absorb chain bytes n) ((bytes.drop (64 * n)).take 64)

def wordBytes (w : Word) : List Byte :=
  [w.extractLsb' 24 8, w.extractLsb' 16 8, w.extractLsb' 8 8, w.extractLsb' 0 8]

def hash (initial : Chain) (message : List Byte) : List Byte :=
  (absorb initial (pad message) ((pad message).length / 64)).toList.flatMap wordBytes

def sha256 (message : List Byte) : List Byte := hash initial256 message
def sha224 (message : List Byte) : List Byte := (hash initial224 message).take 28

/-! ## Facts -/

theorem schedule_lt {block : List Byte} {t : Nat} (h : t < 16) :
    schedule block t = wordOf (block.drop (4 * t)) := by
  rw [schedule, if_pos h]

theorem schedule_ge {block : List Byte} {t : Nat} (h : 16 ≤ t) :
    schedule block t = sigma1 (schedule block (t - 2)) + schedule block (t - 7)
      + sigma0 (schedule block (t - 15)) + schedule block (t - 16) := by
  rw [schedule, if_neg (Nat.not_lt.mpr h)]

@[simp] theorem length_lengthBytes (bits : Nat) : (lengthBytes bits).length = 8 := rfl

/-- The padded message is a number of whole blocks. -/
theorem length_pad (message : List Byte) :
    (pad message).length = message.length + 1 + zeros message.length + 8
      ∧ (pad message).length % 64 = 0 := by
  have hlen : (pad message).length = message.length + 1 + zeros message.length + 8 := by
    simp only [pad, List.length_append, List.length_replicate, List.length_singleton,
      length_lengthBytes]
  refine ⟨hlen, ?_⟩
  rw [hlen, zeros]
  omega

end Fips180
