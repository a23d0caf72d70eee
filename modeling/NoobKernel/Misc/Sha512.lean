import NoobKernel.Lib.Fips180Wide

set_option autoImplicit false

/-! # SHA-384 and SHA-512 (`misc/sha2.c`)

As for the short words: data is a list of bytes, of which a pointer into it is a tail, and
`swap64` is `be64_to_cpu` on this little-endian machine. `sha512_transform` changes nothing of
the context but its state.
-/

namespace NoobKernel.Misc

open Fips180 (Byte Vars)
open Fips180.Wide (Word)

def ROTR64 (x : Word) (n : Nat) : Word := x >>> n ||| x <<< (64 - n)
def CH64 (x y z : Word) : Word := (x &&& y) ^^^ (~~~x &&& z)
def MAJ64 (x y z : Word) : Word := (x &&& y) ^^^ (x &&& z) ^^^ (y &&& z)

def EP0_64 (x : Word) : Word := ROTR64 x 28 ^^^ ROTR64 x 34 ^^^ ROTR64 x 39
def EP1_64 (x : Word) : Word := ROTR64 x 14 ^^^ ROTR64 x 18 ^^^ ROTR64 x 41
def SIG0_64 (x : Word) : Word := ROTR64 x 1 ^^^ ROTR64 x 8 ^^^ x >>> 7
def SIG1_64 (x : Word) : Word := ROTR64 x 19 ^^^ ROTR64 x 61 ^^^ x >>> 6

def sha512K : List Word := [
  0x428a2f98d728ae22, 0x7137449123ef65cd, 0xb5c0fbcfec4d3b2f,
  0xe9b5dba58189dbbc, 0x3956c25bf348b538, 0x59f111f1b605d019,
  0x923f82a4af194f9b, 0xab1c5ed5da6d8118, 0xd807aa98a3030242,
  0x12835b0145706fbe, 0x243185be4ee4b28c, 0x550c7dc3d5ffb4e2,
  0x72be5d74f27b896f, 0x80deb1fe3b1696b1, 0x9bdc06a725c71235,
  0xc19bf174cf692694, 0xe49b69c19ef14ad2, 0xefbe4786384f25e3,
  0x0fc19dc68b8cd5b5, 0x240ca1cc77ac9c65, 0x2de92c6f592b0275,
  0x4a7484aa6ea6e483, 0x5cb0a9dcbd41fbd4, 0x76f988da831153b5,
  0x983e5152ee66dfab, 0xa831c66d2db43210, 0xb00327c898fb213f,
  0xbf597fc7beef0ee4, 0xc6e00bf33da88fc2, 0xd5a79147930aa725,
  0x06ca6351e003826f, 0x142929670a0e6e70, 0x27b70a8546d22ffc,
  0x2e1b21385c26c926, 0x4d2c6dfc5ac42aed, 0x53380d139d95b3df,
  0x650a73548baf63de, 0x766a0abb3c77b2a8, 0x81c2c92e47edaee6,
  0x92722c851482353b, 0xa2bfe8a14cf10364, 0xa81a664bbc423001,
  0xc24b8b70d0f89791, 0xc76c51a30654be30, 0xd192e819d6ef5218,
  0xd69906245565a910, 0xf40e35855771202a, 0x106aa07032bbd1b8,
  0x19a4c116b8d2d0c8, 0x1e376c085141ab53, 0x2748774cdf8eeb99,
  0x34b0bcb5e19b48a8, 0x391c0cb3c5c95a63, 0x4ed8aa4ae3418acb,
  0x5b9cca4f7763e373, 0x682e6ff3d6b2b8a3, 0x748f82ee5defb2fc,
  0x78a5636f43172f60, 0x84c87814a1f0ab72, 0x8cc702081a6439ec,
  0x90befffa23631e28, 0xa4506cebde82bde9, 0xbef9a3f7b2c67915,
  0xc67178f2e372532b, 0xca273eceea26619c, 0xd186b8c721c0c207,
  0xeada7dd6cde0eb1e, 0xf57d4f7fee6ed178, 0x06f067aa72176fba,
  0x0a637dc5a2c898a6, 0x113f9804bef90dae, 0x1b710b35131c471b,
  0x28db77f523047d84, 0x32caab7b40c72493, 0x3c9ebe0a15c9bebc,
  0x431d67c49c100d4c, 0x4cc5d4becb3e42b6, 0x597f299cfc657e2a,
  0x5fcb6fab3ad6faec, 0x6c44198c4a475817]

def sha384InitState : Vector Word 8 :=
  #v[0xcbbb9d5dc1059ed8, 0x629a292a367cd507, 0x9159015a3070dd17, 0x152fecd8f70e5939,
    0x67332667ffc00b31, 0x8eb44a8768581511, 0xdb0c2e0d64f98fa7, 0x47b5481dbefa4fa4]

def sha512InitState : Vector Word 8 :=
  #v[0x6a09e667f3bcc908, 0xbb67ae8584caa73b, 0x3c6ef372fe94f82b, 0xa54ff53a5f1d36f1,
    0x510e527fade682d1, 0x9b05688c2b3e6c1f, 0x1f83d9abfb41bd6b, 0x5be0cd19137e2179]

structure Sha512Ctx where
  state : Vector Word 8
  count : Vector Word 2
  buf : Vector Byte 128

/-- `count[0]`, the low word of the count of bytes. -/
def Sha512Ctx.countLow (ctx : Sha512Ctx) : Word := ctx.count[0]

/-- `count[1]`, the high word. -/
def Sha512Ctx.countHigh (ctx : Sha512Ctx) : Word := ctx.count[1]

/-- The `u64` of eight bytes in memory. -/
def loadU64 (data : List Byte) : Word :=
  data.getD 7 0 ++ data.getD 6 0 ++ data.getD 5 0 ++ data.getD 4 0
    ++ data.getD 3 0 ++ data.getD 2 0 ++ data.getD 1 0 ++ data.getD 0 0

def swap64 (x : Word) : Word :=
  x <<< 56 &&& 0xff00000000000000 ||| x <<< 40 &&& 0x00ff000000000000
    ||| x <<< 24 &&& 0x0000ff0000000000 ||| x <<< 8 &&& 0x000000ff00000000
    ||| x >>> 8 &&& 0x00000000ff000000 ||| x >>> 24 &&& 0x0000000000ff0000
    ||| x >>> 40 &&& 0x000000000000ff00 ||| x >>> 56 &&& 0x00000000000000ff

/-! ## Compression -/

/-- The loop that extends the schedule. -/
def sha512Schedule (data : List Byte) : List Word :=
  (List.range' 16 64).foldl
    (fun w i => w ++ [SIG1_64 (w.getD (i - 2) 0) + w.getD (i - 7) 0 + SIG0_64 (w.getD (i - 15) 0)
      + w.getD (i - 16) 0])
    ((List.range 16).map fun i => swap64 (loadU64 (data.drop (8 * i))))

def sha512Round (v : Vars 64) (k w : Word) : Vars 64 :=
  let t1 := v.h + EP1_64 v.e + CH64 v.e v.f v.g + k + w
  let t2 := EP0_64 v.a + MAJ64 v.a v.b v.c
  { a := t1 + t2, b := v.a, c := v.b, d := v.c, e := v.d + t1, f := v.e, g := v.f, h := v.g }

def sha512Transform (s : Vector Word 8) (data : List Byte) : Vector Word 8 :=
  let w := sha512Schedule data
  let s := Vars.ofChain s
  let v := (List.range 80).foldl (fun v i => sha512Round v (sha512K.getD i 0) (w.getD i 0)) s
  #v[s.a + v.a, s.b + v.b, s.c + v.c, s.d + v.d, s.e + v.e, s.f + v.f, s.g + v.g, s.h + v.h]

/-! ## Streaming -/

def sha512Init (ctx : Sha512Ctx) : Sha512Ctx :=
  { ctx with state := sha512InitState, count := #v[0, 0] }

/-- The loop over whole blocks of the input, with the rest of it; `fuel` bounds the rounds. -/
def sha512Blocks : Nat → Vector Word 8 → List Byte → Vector Word 8 × List Byte
  | 0, s, p => (s, p)
  | fuel + 1, s, p =>
      if 128 ≤ p.length then sha512Blocks fuel (sha512Transform s (p.take 128)) (p.drop 128)
      else (s, p)

/-- The loop and the copy of the tail. -/
def sha512Drain (ctx : Sha512Ctx) (p : List Byte) : Sha512Ctx :=
  let (s, p) := sha512Blocks p.length ctx.state p
  let ctx := { ctx with state := s }
  if p.length ≠ 0 then { ctx with buf := BlockStream.copyTo ctx.buf 0 p p.length } else ctx

def sha512Update (ctx : Sha512Ctx) (data : List Byte) : Sha512Ctx :=
  let len := BitVec.ofNat 64 data.length
  let bufUsed := (ctx.countLow &&& 0x7f).toNat
  let low := ctx.countLow + len
  let ctx := { ctx with
    count := #v[low, if low < len then ctx.countHigh + 1 else ctx.countHigh] }
  if bufUsed ≠ 0 then
    let bufAvail := 128 - bufUsed
    if data.length < bufAvail then
      { ctx with buf := BlockStream.copyTo ctx.buf bufUsed data data.length }
    else
      let ctx := { ctx with buf := BlockStream.copyTo ctx.buf bufUsed data bufAvail }
      let ctx := { ctx with state := sha512Transform ctx.state ctx.buf.toList }
      sha512Drain ctx (data.drop bufAvail)
  else sha512Drain ctx data

/-- The eight bytes of a word, the highest first, as `sha512_final` writes them. -/
def storeBe64 (x : Word) : List Byte :=
  [(x >>> 56).setWidth 8, (x >>> 48).setWidth 8, (x >>> 40).setWidth 8, (x >>> 32).setWidth 8,
    (x >>> 24).setWidth 8, (x >>> 16).setWidth 8, (x >>> 8).setWidth 8, x.setWidth 8]

def sha512Final (ctx : Sha512Ctx) : List Byte :=
  let bufUsed := (ctx.countLow &&& 0x7f).toNat
  let bitCountLow := ctx.countLow <<< 3
  let bitCountHigh := ctx.countHigh <<< 3 ||| ctx.countLow >>> 61
  let ctx := { ctx with buf := BlockStream.copyTo ctx.buf bufUsed [0x80] 1 }
  let bufUsed := bufUsed + 1
  let (ctx, bufUsed) :=
    if bufUsed > 112 then
      let zeros := List.replicate (128 - bufUsed) 0
      let ctx := { ctx with buf := BlockStream.copyTo ctx.buf bufUsed zeros (128 - bufUsed) }
      ({ ctx with state := sha512Transform ctx.state ctx.buf.toList }, 0)
    else (ctx, bufUsed)
  let zeros := List.replicate (112 - bufUsed) 0
  let ctx := { ctx with buf := BlockStream.copyTo ctx.buf bufUsed zeros (112 - bufUsed) }
  let bytes := storeBe64 bitCountHigh ++ storeBe64 bitCountLow
  let ctx := { ctx with buf := BlockStream.copyTo ctx.buf 112 bytes 16 }
  let state := sha512Transform ctx.state ctx.buf.toList
  state.toList.flatMap storeBe64

def sha384Init (ctx : Sha512Ctx) : Sha512Ctx :=
  { ctx with state := sha384InitState, count := #v[0, 0] }

def sha384Update (ctx : Sha512Ctx) (data : List Byte) : Sha512Ctx := sha512Update ctx data

def sha384Final (ctx : Sha512Ctx) : List Byte := (sha512Final ctx).take 48

end NoobKernel.Misc
