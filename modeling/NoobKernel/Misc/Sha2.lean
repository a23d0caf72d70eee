import NoobKernel.Lib.Fips180

set_option autoImplicit false

/-! # SHA-224 and SHA-256 (`misc/sha2.c`)

Data is a list of bytes, of which a pointer into it is a tail. `swap32` is `be32_to_cpu` on this
little-endian machine. A run of `sha256_update` and `sha256_final` starts from the context that
`sha256_init` leaves, whose buffer holds anything.
-/

namespace NoobKernel.Misc

open Fips180 (Byte Word)

def ROTR32 (x : Word) (n : Nat) : Word := x >>> n ||| x <<< (32 - n)
def CH32 (x y z : Word) : Word := (x &&& y) ^^^ (~~~x &&& z)
def MAJ32 (x y z : Word) : Word := (x &&& y) ^^^ (x &&& z) ^^^ (y &&& z)

def EP0_32 (x : Word) : Word := ROTR32 x 2 ^^^ ROTR32 x 13 ^^^ ROTR32 x 22
def EP1_32 (x : Word) : Word := ROTR32 x 6 ^^^ ROTR32 x 11 ^^^ ROTR32 x 25
def SIG0_32 (x : Word) : Word := ROTR32 x 7 ^^^ ROTR32 x 18 ^^^ x >>> 3
def SIG1_32 (x : Word) : Word := ROTR32 x 17 ^^^ ROTR32 x 19 ^^^ x >>> 10

def sha256K : List Word := [
  0x428a2f98, 0x71374491, 0xb5c0fbcf, 0xe9b5dba5, 0x3956c25b, 0x59f111f1,
  0x923f82a4, 0xab1c5ed5, 0xd807aa98, 0x12835b01, 0x243185be, 0x550c7dc3,
  0x72be5d74, 0x80deb1fe, 0x9bdc06a7, 0xc19bf174, 0xe49b69c1, 0xefbe4786,
  0x0fc19dc6, 0x240ca1cc, 0x2de92c6f, 0x4a7484aa, 0x5cb0a9dc, 0x76f988da,
  0x983e5152, 0xa831c66d, 0xb00327c8, 0xbf597fc7, 0xc6e00bf3, 0xd5a79147,
  0x06ca6351, 0x14292967, 0x27b70a85, 0x2e1b2138, 0x4d2c6dfc, 0x53380d13,
  0x650a7354, 0x766a0abb, 0x81c2c92e, 0x92722c85, 0xa2bfe8a1, 0xa81a664b,
  0xc24b8b70, 0xc76c51a3, 0xd192e819, 0xd6990624, 0xf40e3585, 0x106aa070,
  0x19a4c116, 0x1e376c08, 0x2748774c, 0x34b0bcb5, 0x391c0cb3, 0x4ed8aa4a,
  0x5b9cca4f, 0x682e6ff3, 0x748f82ee, 0x78a5636f, 0x84c87814, 0x8cc70208,
  0x90befffa, 0xa4506ceb, 0xbef9a3f7, 0xc67178f2]

def sha224InitState : Vector Word 8 :=
  #v[0xc1059ed8, 0x367cd507, 0x3070dd17, 0xf70e5939, 0xffc00b31, 0x68581511, 0x64f98fa7, 0xbefa4fa4]

def sha256InitState : Vector Word 8 :=
  #v[0x6a09e667, 0xbb67ae85, 0x3c6ef372, 0xa54ff53a, 0x510e527f, 0x9b05688c, 0x1f83d9ab, 0x5be0cd19]

structure Sha256Ctx where
  state : Vector Word 8
  count : BitVec 64
  buf : Vector Byte 64

/-! ## Memory -/

/-- The `u32` of four bytes in memory. -/
def loadU32 (data : List Byte) : Word :=
  data.getD 3 0 ++ data.getD 2 0 ++ data.getD 1 0 ++ data.getD 0 0

def swap32 (x : Word) : Word :=
  x <<< 24 &&& 0xff000000 ||| x <<< 8 &&& 0x00ff0000 ||| x >>> 8 &&& 0x0000ff00
    ||| x >>> 24 &&& 0x000000ff

/-- `memcpy(buf + off, src, n)`. -/
def copyTo (buf : Vector Byte 64) (off : Nat) (src : List Byte) (n : Nat) : Vector Byte 64 :=
  Vector.ofFn fun i => if off ≤ i ∧ i < off + n then src.getD (i - off) 0 else buf[i]

/-- `memset(buf + off, 0, n)`. -/
def clearFrom (buf : Vector Byte 64) (off n : Nat) : Vector Byte 64 :=
  copyTo buf off (List.replicate n 0) n

/-! ## Compression -/

/-- The variables `a` to `h` of the round loop. -/
structure Sha256Vars where
  a : Word
  b : Word
  c : Word
  d : Word
  e : Word
  f : Word
  g : Word
  h : Word

/-- The loop that extends the schedule. -/
def sha256Schedule (data : List Byte) : List Word :=
  (List.range' 16 48).foldl
    (fun w i => w ++ [SIG1_32 (w.getD (i - 2) 0) + w.getD (i - 7) 0 + SIG0_32 (w.getD (i - 15) 0)
      + w.getD (i - 16) 0])
    ((List.range 16).map fun i => swap32 (loadU32 (data.drop (4 * i))))

def sha256Round (v : Sha256Vars) (k w : Word) : Sha256Vars :=
  let t1 := v.h + EP1_32 v.e + CH32 v.e v.f v.g + k + w
  let t2 := EP0_32 v.a + MAJ32 v.a v.b v.c
  { a := t1 + t2, b := v.a, c := v.b, d := v.c, e := v.d + t1, f := v.e, g := v.f, h := v.g }

def sha256Transform (ctx : Sha256Ctx) (data : List Byte) : Sha256Ctx :=
  let w := sha256Schedule data
  let s := Fips180.Vars.ofChain ctx.state
  let v := (List.range 64).foldl (fun v i => sha256Round v (sha256K.getD i 0) (w.getD i 0))
    ⟨s.a, s.b, s.c, s.d, s.e, s.f, s.g, s.h⟩
  { ctx with state := #v[s.a + v.a, s.b + v.b, s.c + v.c, s.d + v.d, s.e + v.e, s.f + v.f,
      s.g + v.g, s.h + v.h] }

/-! ## Streaming -/

def sha256Init (ctx : Sha256Ctx) : Sha256Ctx := { ctx with state := sha256InitState, count := 0 }

/-- The loop over whole blocks of the input, with the rest of it; `fuel` bounds the rounds. -/
def sha256Blocks : Nat → Sha256Ctx → List Byte → Sha256Ctx × List Byte
  | 0, ctx, p => (ctx, p)
  | fuel + 1, ctx, p =>
      if 64 ≤ p.length then sha256Blocks fuel (sha256Transform ctx (p.take 64)) (p.drop 64)
      else (ctx, p)

/-- The loop and the copy of the tail. -/
def sha256Drain (ctx : Sha256Ctx) (p : List Byte) : Sha256Ctx :=
  let (ctx, p) := sha256Blocks p.length ctx p
  if p.length ≠ 0 then { ctx with buf := copyTo ctx.buf 0 p p.length } else ctx

def sha256Update (ctx : Sha256Ctx) (data : List Byte) : Sha256Ctx :=
  let bufUsed := (ctx.count &&& 0x3f).toNat
  let ctx := { ctx with count := ctx.count + BitVec.ofNat 64 data.length }
  if bufUsed ≠ 0 then
    let bufAvail := 64 - bufUsed
    if data.length < bufAvail then
      { ctx with buf := copyTo ctx.buf bufUsed data data.length }
    else
      let ctx := { ctx with buf := copyTo ctx.buf bufUsed data bufAvail }
      sha256Drain (sha256Transform ctx ctx.buf.toList) (data.drop bufAvail)
  else sha256Drain ctx data

/-- The bytes of the length, at the end of the last block. -/
def bitCountBytes (bitCount : BitVec 64) : List Byte :=
  [(bitCount >>> 56).setWidth 8, (bitCount >>> 48).setWidth 8, (bitCount >>> 40).setWidth 8,
    (bitCount >>> 32).setWidth 8, (bitCount >>> 24).setWidth 8, (bitCount >>> 16).setWidth 8,
    (bitCount >>> 8).setWidth 8, bitCount.setWidth 8]

def digestBytes (s : Word) : List Byte :=
  [(s >>> 24).setWidth 8, (s >>> 16).setWidth 8, (s >>> 8).setWidth 8, s.setWidth 8]

def sha256Final (ctx : Sha256Ctx) : List Byte :=
  let bufUsed := (ctx.count &&& 0x3f).toNat
  let bitCount := ctx.count <<< 3
  let ctx := { ctx with buf := copyTo ctx.buf bufUsed [0x80] 1 }
  let bufUsed := bufUsed + 1
  let (ctx, bufUsed) :=
    if bufUsed > 56 then
      let ctx := { ctx with buf := clearFrom ctx.buf bufUsed (64 - bufUsed) }
      (sha256Transform ctx ctx.buf.toList, 0)
    else (ctx, bufUsed)
  let ctx := { ctx with buf := clearFrom ctx.buf bufUsed (56 - bufUsed) }
  let ctx := { ctx with buf := copyTo ctx.buf 56 (bitCountBytes bitCount) 8 }
  let ctx := sha256Transform ctx ctx.buf.toList
  ctx.state.toList.flatMap digestBytes

def sha224Init (ctx : Sha256Ctx) : Sha256Ctx := { ctx with state := sha224InitState, count := 0 }

def sha224Update (ctx : Sha256Ctx) (data : List Byte) : Sha256Ctx := sha256Update ctx data

def sha224Final (ctx : Sha256Ctx) : List Byte := (sha256Final ctx).take 28

end NoobKernel.Misc
