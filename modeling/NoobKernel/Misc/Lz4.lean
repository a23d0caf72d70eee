import NoobKernel.Lib.BackCopy

set_option autoImplicit false

/-! # LZ4 (`misc/lz4.c`)

A buffer is the list of its bytes. Both coders write their output front to back, so the output
pointer is the length of what has been written, and a pointer into the input is an index. The
encoder returns all it has written, also before a `-1`. The loops have a round for each byte of
their input, which bounds them.
-/

namespace NoobKernel.Misc.Lz4

def LZ4_MAX_INPUT_SIZE : Nat := 0x7E000000
def LZ4_HASHLOG : Nat := 12
def LZ4_HASHTABLESIZE : Nat := 1 <<< LZ4_HASHLOG
def LZ4_MINMATCH : Nat := 4
def LZ4_LASTLITERALS : Nat := 5
def LZ4_MFLIMIT : Nat := 12

def LZ4_HASH_FUNCTION (v : Nat) : Nat :=
  (v * 2654435761 % 2 ^ 32) >>> ((32 - LZ4_HASHLOG) - LZ4_MINMATCH)

/-- The little-endian word at an index. -/
def lz4Read32 (src : List UInt8) (i : Nat) : Nat :=
  (src.getD i 0).toNat + (src.getD (i + 1) 0).toNat <<< 8 + (src.getD (i + 2) 0).toNat <<< 16
    + (src.getD (i + 3) 0).toNat <<< 24

/-- `for (; n >= 255; n -= 255) *op++ = 255; *op++ = (u8)n;` -/
def lengthBytes (n : Nat) : List UInt8 := List.replicate (n / 255) 255 ++ [UInt8.ofNat (n % 255)]

def lz4WriteLiteral (literalLen : Nat) : List UInt8 :=
  if 15 ≤ literalLen then UInt8.ofNat (15 <<< 4) :: lengthBytes (literalLen - 15)
  else [UInt8.ofNat (literalLen <<< 4)]

/-! ## The encoder -/

/-- Writes of single bytes, each after a check of the capacity. -/
def writeChecked (cap : Nat) : List UInt8 → List UInt8 → Bool × List UInt8
  | out, [] => (true, out)
  | out, b :: bs => if cap ≤ out.length then (false, out) else writeChecked cap (out ++ [b]) bs

/-- The token, literals, offset and match length of one match. -/
def emitSequence (cap : Nat) (literals : List UInt8) (offset matchLen : Nat) (out : List UInt8) :
    Bool × List UInt8 :=
  let tokenPtr := out.length
  let out := out ++ lz4WriteLiteral literals.length
  if cap < out.length + literals.length then (false, out)
  else
    let out := out ++ literals
    let ml := matchLen - LZ4_MINMATCH
    let out := out.modify tokenPtr (· ||| UInt8.ofNat (if ml < 15 then ml else 15))
    if cap < out.length + 2 then (false, out)
    else
      let out := out ++ [UInt8.ofNat offset, UInt8.ofNat (offset >>> 8)]
      if 15 ≤ ml then writeChecked cap out (lengthBytes (ml - 15)) else (true, out)

/-- The last literals, if there are any. -/
def emitLast (cap : Nat) (literals : List UInt8) (out : List UInt8) : Bool × List UInt8 :=
  let lastRun := literals.length
  if lastRun = 0 then (true, out)
  else if cap < out.length + 1 + (if 15 ≤ lastRun then 1 else 0)
      + (if 15 ≤ lastRun then (lastRun - 15 + 254) / 255 else 0) + lastRun then (false, out)
  else (true, out ++ lz4WriteLiteral lastRun ++ literals)

/-- `while (match_end < matchlimit && ...) match_end += LZ4_MINMATCH;` -/
def extendWords (src : List UInt8) (offset : Nat) : Nat → Nat → Nat
  | 0, matchEnd => matchEnd
  | fuel + 1, matchEnd =>
      if matchEnd + LZ4_LASTLITERALS < src.length
          ∧ lz4Read32 src matchEnd = lz4Read32 src (matchEnd - offset) then
        extendWords src offset fuel (matchEnd + LZ4_MINMATCH)
      else matchEnd

/-- `while (match_end < iend && *(match_end - offset) == *match_end) match_end++;` -/
def extendBytes (src : List UInt8) (offset : Nat) : Nat → Nat → Nat
  | 0, matchEnd => matchEnd
  | fuel + 1, matchEnd =>
      if matchEnd < src.length ∧ src.getD (matchEnd - offset) 0 = src.getD matchEnd 0 then
        extendBytes src offset fuel (matchEnd + 1)
      else matchEnd

/-- The loop over the input; the result is the anchor and whether all writes fitted. -/
def compressLoop (src : List UInt8) (cap step : Nat) :
    Nat → Nat → Nat → (Nat → Nat) → List UInt8 → Bool × Nat × List UInt8
  | 0, _, anchor, _, out => (true, anchor, out)
  | fuel + 1, ip, anchor, hashTable, out =>
      if ip + LZ4_MFLIMIT < src.length then
        let h := LZ4_HASH_FUNCTION (lz4Read32 src ip) &&& (LZ4_HASHTABLESIZE - 1)
        let ref := hashTable h
        let offset := ip - ref
        let hashTable := Function.update hashTable h ip
        if offset = 0 ∨ 65535 < offset ∨ lz4Read32 src ref ≠ lz4Read32 src ip then
          compressLoop src cap step fuel (ip + step) anchor hashTable out
        else
          let matchEnd := extendWords src offset src.length (ip + LZ4_MINMATCH)
          let matchEnd := extendBytes src offset src.length matchEnd
          let (ok, out) :=
            emitSequence cap ((src.drop anchor).take (ip - anchor)) offset (matchEnd - ip) out
          if ok then compressLoop src cap step fuel matchEnd matchEnd hashTable out
          else (false, anchor, out)
      else (true, anchor, out)

/-- The return value and the bytes written. -/
def lz4CompressGeneric (src : List UInt8) (cap : Nat) (acceleration : Int) : Int × List UInt8 :=
  let step := if 1 < acceleration then acceleration.toNat else 1
  let (ok, anchor, out) :=
    if src.length < LZ4_MINMATCH then (true, 0, [])
    else compressLoop src cap step src.length 0 0 (fun _ => 0) []
  if ok then
    let (ok, out) := emitLast cap (src.drop anchor) out
    if ok then (out.length, out) else (-1, out)
  else (-1, out)

def lz4CompressFast (src : List UInt8) (dstCapacity acceleration : Int) : Int × List UInt8 :=
  if src.length = 0 then (0, [])
  else if dstCapacity < 1 then (-1, [])
  else lz4CompressGeneric src dstCapacity.toNat acceleration

def lz4Compress (src : List UInt8) (dstCapacity : Int) : Int × List UInt8 :=
  lz4CompressFast src dstCapacity 1

/-! ## The decoder -/

/-- How a run of the decoder ends. -/
inductive Exit
  | ret (n : Int) (dst : List UInt8)
  /-- a byte outside a buffer is read -/
  | outOfBounds
  deriving DecidableEq

/-- `do { s = *ip++; len += s; } while (s == 255);`, `none` at the end of the input. -/
def readRun (src : List UInt8) : Nat → Nat → Nat → Option (Nat × Nat)
  | 0, _, _ => none
  | fuel + 1, ip, len =>
      match src[ip]? with
      | none => none
      | some s =>
          if s = 255 then readRun src fuel (ip + 1) (len + s.toNat)
          else some (ip + 1, len + s.toNat)

/-- A length of which the token holds the first part. -/
def readLength (src : List UInt8) (nibble base ip : Nat) : Option (Nat × Nat) :=
  if nibble = 15 then readRun src src.length ip (nibble + base) else some (ip, nibble + base)

/-- `memcpy(dest, ref, n)` with `ref` at distance `offset` before `dest`. -/
def copyBlock (offset n : Nat) (dst : List UInt8) : List UInt8 :=
  dst ++ (dst.drop (dst.length - offset)).take n

/-- The overlapping part byte by byte, then the rest in one piece. -/
def copyMatch (offset matchLen : Nat) (dst : List UInt8) : List UInt8 :=
  if offset < matchLen then
    copyBlock offset offset (BackCopy.copyBack offset (matchLen - offset) dst)
  else copyBlock offset matchLen dst

def decompressLoop (src : List UInt8) (cap : Nat) : Nat → Nat → List UInt8 → Exit
  | 0, _, _ => .outOfBounds
  | fuel + 1, ip, dst =>
      match src[ip]? with
      | none => .ret dst.length dst
      | some token =>
          match readLength src (token >>> 4).toNat 0 (ip + 1) with
          | none => .ret (-1) dst
          | some (ip, literalLen) =>
              if src.length < ip + literalLen ∨ cap < dst.length + literalLen then .ret (-1) dst
              else
                let dst := dst ++ (src.drop ip).take literalLen
                let ip := ip + literalLen
                -- the last sequence has no match
                if src.length ≤ ip then .ret dst.length dst
                else if src.length < ip + 2 then .ret (-1) dst
                else
                  match src[ip]?, src[ip + 1]? with
                  | some lo, some hi =>
                      let offset := lo.toNat ||| (hi.toNat <<< 8)
                      if offset = 0 then .ret (-1) dst
                      else
                        match readLength src (token &&& 0x0F).toNat LZ4_MINMATCH (ip + 2) with
                        | none => .ret (-1) dst
                        | some (ip, matchLen) =>
                            if cap < dst.length + matchLen then .ret (-1) dst
                            -- the match would begin before the output
                            else if dst.length < offset then .ret (-1) dst
                            else decompressLoop src cap fuel ip (copyMatch offset matchLen dst)
                  | _, _ => .outOfBounds

/-- The loop takes a byte of the input each round. -/
def lz4Decompress (src : List UInt8) (dstCapacity : Nat) : Exit :=
  decompressLoop src dstCapacity (src.length + 1) 0 []

end NoobKernel.Misc.Lz4
