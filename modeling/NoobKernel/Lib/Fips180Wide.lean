import NoobKernel.Lib.BlockStream
import NoobKernel.Lib.Fips180Rounds

set_option autoImplicit false

/-! # The secure hash standard: SHA-384 and SHA-512

FIPS 180-4 for messages of whole bytes, with words of 64 bits and blocks of 128 bytes. As for the
short words, the constants are computed from roots of primes.
-/

namespace Fips180.Wide

abbrev Word := BitVec 64

/-- The first 64 bits of the fractional part of the `r`-th root of `p`. -/
def rootBits (r p : Nat) : Word := BitVec.ofNat 64 (rootFrom r (p * 2 ^ (64 * r)) 80 0)

/-- Its bits are those of the root of `p`, scaled by `2 ^ 64` and rounded down. -/
theorem rootBits_spec {r p : Nat} (hr : r ≠ 0) (hp : p < 2 ^ (16 * r)) :
    ∃ root, rootBits r p = BitVec.ofNat 64 root ∧ root ^ r ≤ p * 2 ^ (64 * r)
      ∧ p * 2 ^ (64 * r) < (root + 1) ^ r := by
  refine ⟨_, rfl, rootFrom_spec ?_ ?_⟩
  · rw [Nat.zero_pow (Nat.pos_of_ne_zero hr)]
    exact Nat.zero_le _
  · calc p * 2 ^ (64 * r) < 2 ^ (16 * r) * 2 ^ (64 * r) :=
          Nat.mul_lt_mul_of_pos_right hp (Nat.two_pow_pos _)
      _ = (0 + 2 ^ 80) ^ r := by
          rw [← Nat.pow_add, ← Nat.add_mul, Nat.zero_add, ← Nat.pow_mul]

/-- The first 80 prime numbers. -/
def primes : List Nat :=
  (List.range 410).filter fun p => 2 ≤ p && (List.range' 2 (p - 2)).all fun d => p % d != 0

theorem primes_eq : primes =
  [2, 3, 5, 7, 11, 13, 17, 19, 23, 29, 31, 37, 41, 43, 47, 53, 59, 61, 67, 71, 73, 79, 83, 89,
    97, 101, 103, 107, 109, 113, 127, 131, 137, 139, 149, 151, 157, 163, 167, 173, 179, 181, 191,
    193, 197, 199, 211, 223, 227, 229, 233, 239, 241, 251, 257, 263, 269, 271, 277, 281, 283,
    293, 307, 311, 313, 317, 331, 337, 347, 349, 353, 359, 367, 373, 379, 383, 389, 397, 401,
    409] := by
  decide +kernel

/-! ## Functions and constants -/

def Ch (x y z : Word) : Word := (x &&& y) ^^^ (~~~x &&& z)
def Maj (x y z : Word) : Word := (x &&& y) ^^^ (x &&& z) ^^^ (y &&& z)
def Sigma0 (x : Word) : Word := x.rotateRight 28 ^^^ x.rotateRight 34 ^^^ x.rotateRight 39
def Sigma1 (x : Word) : Word := x.rotateRight 14 ^^^ x.rotateRight 18 ^^^ x.rotateRight 41
def sigma0 (x : Word) : Word := x.rotateRight 1 ^^^ x.rotateRight 8 ^^^ x >>> 7
def sigma1 (x : Word) : Word := x.rotateRight 19 ^^^ x.rotateRight 61 ^^^ x >>> 6

/-- The round constants: cube roots of the first 80 primes. -/
def K : List Word := primes.map (rootBits 3)

abbrev Chain := Vector Word 8

/-- Square roots of the first eight primes. -/
def initial512 : Chain := Vector.ofFn fun i => rootBits 2 (primes.getD i 0)

/-- Square roots of the ninth to the sixteenth prime. -/
def initial384 : Chain := Vector.ofFn fun i => rootBits 2 (primes.getD (8 + i) 0)

/-- The word of eight bytes, the first of which is the highest. -/
def wordOf (bytes : List Byte) : Word :=
  bytes.getD 0 0 ++ bytes.getD 1 0 ++ bytes.getD 2 0 ++ bytes.getD 3 0
    ++ bytes.getD 4 0 ++ bytes.getD 5 0 ++ bytes.getD 6 0 ++ bytes.getD 7 0

def variant : Variant 64 where
  Sigma0 := Sigma0
  Sigma1 := Sigma1
  sigma0 := sigma0
  sigma1 := sigma1
  Ch := Ch
  Maj := Maj
  K := K
  size := 8
  wordOf := wordOf

def compress (chain : Chain) (block : List Byte) : Chain := variant.compress chain block

/-! ## Messages -/

/-- The zero bytes between the final one bit and the length. -/
def zeros (length : Nat) : Nat := (111 + 128 - length % 128) % 128

/-- A number as sixteen bytes, the highest first. -/
def lengthBytes (bits : Nat) : List Byte :=
  (List.range 16).map fun i => BitVec.ofNat 8 (bits / 256 ^ (15 - i))

def pad (message : List Byte) : List Byte :=
  message ++ [0x80] ++ List.replicate (zeros message.length) 0
    ++ lengthBytes (8 * message.length)

def wordBytes (w : Word) : List Byte :=
  [w.extractLsb' 56 8, w.extractLsb' 48 8, w.extractLsb' 40 8, w.extractLsb' 32 8,
    w.extractLsb' 24 8, w.extractLsb' 16 8, w.extractLsb' 8 8, w.extractLsb' 0 8]

def hash (initial : Chain) (message : List Byte) : List Byte :=
  (BlockStream.absorb compress 128 initial (pad message) ((pad message).length / 128)).toList.flatMap
    wordBytes

def sha512 (message : List Byte) : List Byte := hash initial512 message
def sha384 (message : List Byte) : List Byte := (hash initial384 message).take 48

@[simp] theorem length_lengthBytes (bits : Nat) : (lengthBytes bits).length = 16 := rfl

/-- The padded message is a number of whole blocks. -/
theorem length_pad (message : List Byte) :
    (pad message).length = message.length + 1 + zeros message.length + 16
      ∧ (pad message).length % 128 = 0 := by
  have hlen : (pad message).length = message.length + 1 + zeros message.length + 16 := by
    simp only [pad, List.length_append, List.length_replicate, List.length_singleton,
      length_lengthBytes]
  refine ⟨hlen, ?_⟩
  rw [hlen, zeros]
  omega

end Fips180.Wide
