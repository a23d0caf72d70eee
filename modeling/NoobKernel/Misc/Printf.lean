import Mathlib.Tactic

set_option autoImplicit false

/-! # Formatted output (`misc/printf.c`)

A `char` is the `Char` of its value, and is unsigned as on every RISC-V target. A string is the
list of the characters from its address to the end of the object it lies in, the terminator
included, and to read on behind that is a fault. `va_arg` takes the next word of the stream `Va`.
The floating-point conversions are compiled out.

Every character goes through the output function, with `buffer`, `idx` and `maxlen`. An output of
2^64 characters would need a format of more than 2^31 of them, so `idx` does not wrap. `unsigned
int` does: a width of too many digits counts modulo 2^32.
-/

namespace NoobKernel.Misc.Printf

abbrev Word := BitVec 64

/-- What `va_arg` returns, one argument after the other. -/
abbrev Va := Nat → Word

def Va.next (va : Va) : Va := fun i => va (i + 1)

/-- What is read behind its end. -/
inductive Fault
  | format
  | string
  deriving DecidableEq

def NUL : Char := Char.ofNat 0

def SIZE_MAX : Nat := 2 ^ 64 - 1

def PRINTF_NTOA_BUFFER_SIZE : Nat := 32

structure Flags where
  zeropad : Bool
  left : Bool
  plus : Bool
  space : Bool
  hash : Bool
  uppercase : Bool
  char : Bool
  short : Bool
  long : Bool
  longLong : Bool
  precision : Bool
  deriving DecidableEq

def noFlags : Flags :=
  ⟨false, false, false, false, false, false, false, false, false, false, false⟩

/-! ## Output functions -/

/-- `out_fct_type`: the character, the buffer, `idx` and `maxlen`. -/
abbrev OutFct (B : Type) := Char → B → Nat → Nat → B

/-- The memory at a buffer, by offset. -/
abbrev Buffer := Nat → Char

def outBuffer : OutFct Buffer := fun character buffer idx maxlen =>
  if idx < maxlen then Function.update buffer idx character else buffer

def outNull : OutFct Buffer := fun _ buffer _ _ => buffer

/-- The buffer of `_out_char` is the console, and that of `_out_fct` what has been sent. -/
def outChar : OutFct (List Char) := fun character console _ _ =>
  if character ≠ NUL then console ++ [character] else console

/-- Where `_vsnprintf` is with its output. -/
structure Sink (B : Type) where
  buffer : B
  idx : Nat

section Emit

variable {B : Type} (out : OutFct B) (maxlen : Nat)

/-- `out(character, buffer, idx++, maxlen)` -/
def put (s : Sink B) (character : Char) : Sink B :=
  ⟨out character s.buffer s.idx maxlen, s.idx + 1⟩

def puts (s : Sink B) (cs : List Char) : Sink B := cs.foldl (put out maxlen) s

/-- `n` times the same character, as all the padding loops put it. -/
def padding (s : Sink B) (n : Nat) : Sink B := puts out maxlen s (List.replicate n ' ')

def outRev (buf : List Char) (width : Nat) (flags : Flags) (s : Sink B) : Sink B :=
  let startIdx := s.idx
  let s := if !flags.left && !flags.zeropad then padding out maxlen s (width - buf.length) else s
  let s := puts out maxlen s buf.reverse
  if flags.left then padding out maxlen s (width - (s.idx - startIdx)) else s

/-! ## Integers -/

/-- `buf[len++] = c`, where there is room. The buffer is written up to `len`, and holds the
characters last first. -/
def push (buf : List Char) (c : Char) : List Char :=
  if buf.length < PRINTF_NTOA_BUFFER_SIZE then buf ++ [c] else buf

/-- The loops that add `0` up to `n` characters. -/
def zerosTo (n : Nat) (buf : List Char) : List Char :=
  buf ++ List.replicate (min n PRINTF_NTOA_BUFFER_SIZE - buf.length) '0'

def hashPrefix (base prec width : Nat) (flags : Flags) (buf : List Char) : List Char :=
  let buf :=
    if !flags.precision && buf.length != 0 && (buf.length == prec || buf.length == width) then
      let buf := buf.dropLast
      if buf.length != 0 && base == 16 then buf.dropLast else buf
    else buf
  let buf :=
    if base = 16 ∧ flags.uppercase = false then push buf 'x'
    else if base = 16 ∧ flags.uppercase = true then push buf 'X'
    else if base = 2 then push buf 'b'
    else buf
  push buf '0'

def pushSign (negative : Bool) (flags : Flags) (buf : List Char) : List Char :=
  if negative then push buf '-'
  else if flags.plus then push buf '+'
  else if flags.space then push buf ' '
  else buf

/-- The width that is left for the digits when they are filled up with zeros. -/
def fillWidth (negative : Bool) (width : Nat) (flags : Flags) : Nat :=
  if width ≠ 0 ∧ flags.zeropad = true ∧ (negative || flags.plus || flags.space) = true then
    width - 1
  else width

/-- `buf` as `_ntoa_format` hands it over. -/
def formatBuf (buf : List Char) (negative : Bool) (base prec width : Nat) (flags : Flags) :
    List Char :=
  let buf :=
    if flags.left then buf
    else
      let buf := zerosTo prec buf
      if flags.zeropad then zerosTo width buf else buf
  let buf := if flags.hash then hashPrefix base prec width flags buf else buf
  pushSign negative flags buf

def ntoaFormat (buf : List Char) (negative : Bool) (base prec width : Nat) (flags : Flags)
    (s : Sink B) : Sink B :=
  let width := if flags.left then width else fillWidth negative width flags
  outRev out maxlen (formatBuf buf negative base prec width flags) width flags s

def digitChar (uppercase : Bool) (digit : Nat) : Char :=
  if digit < 10 then Char.ofNat ('0'.toNat + digit)
  else Char.ofNat ((if uppercase then 'A' else 'a').toNat + digit - 10)

/-- The digits, last first, as far as there is `room`. -/
def ntoaLoop (base : Nat) (uppercase : Bool) : (room value : Nat) → List Char
  | 0, _ => []
  | room + 1, value =>
      digitChar uppercase (value % base)
        :: if value / base = 0 then [] else ntoaLoop base uppercase room (value / base)

/-- The characters of a value as they are converted, none for a zero of precision zero. -/
def digitBuf (value base : Nat) (flags : Flags) : List Char :=
  if flags.precision = false ∨ value ≠ 0 then
    ntoaLoop base flags.uppercase PRINTF_NTOA_BUFFER_SIZE value
  else []

/-- `_ntoa_long` and `_ntoa_long_long`, whose types have the same size. -/
def ntoa (value : Nat) (negative : Bool) (base prec width : Nat) (flags : Flags) (s : Sink B) :
    Sink B :=
  let flags := if value = 0 then { flags with hash := false } else flags
  ntoaFormat out maxlen (digitBuf value base flags) negative base prec width flags s

def ntoaLong : Nat → Bool → Nat → Nat → Nat → Flags → Sink B → Sink B := ntoa out maxlen

def ntoaLongLong : Nat → Bool → Nat → Nat → Nat → Flags → Sink B → Sink B := ntoa out maxlen

end Emit

/-! ## The parts of a directive -/

def isDigit (ch : Char) : Bool := '0' ≤ ch && ch ≤ '9'

def atoi : Nat → List Char → Except Fault (Nat × List Char)
  | _, [] => .error .format
  | i, c :: format =>
      if isDigit c then atoi ((i * 10 + (c.toNat - '0'.toNat)) % 2 ^ 32) format
      else .ok (i, c :: format)

/-- The flag that a character stands for. -/
def Flags.set (flags : Flags) : Char → Option Flags
  | '0' => some { flags with zeropad := true }
  | '-' => some { flags with left := true }
  | '+' => some { flags with plus := true }
  | ' ' => some { flags with space := true }
  | '#' => some { flags with hash := true }
  | _ => none

def evalFlags : Flags → List Char → Except Fault (Flags × List Char)
  | _, [] => .error .format
  | flags, c :: format =>
      match flags.set c with
      | some flags => evalFlags flags format
      | none => .ok (flags, c :: format)

/-- A directive as far as it has been read, and the arguments behind it. -/
structure Directive where
  flags : Flags
  width : Nat
  prec : Nat
  va : Va

/-- `-w` of the least `int` is that `int`, which is `2^31` when it is unsigned. -/
def evalWidth (d : Directive) : List Char → Except Fault (Directive × List Char)
  | [] => .error .format
  | c :: format =>
      if isDigit c then do
        let (width, format) ← atoi 0 (c :: format)
        .ok ({ d with width := width }, format)
      else if c = '*' then
        let w := ((d.va 0).setWidth 32).toInt
        if w < 0 then
          .ok ({ d with flags := { d.flags with left := true }, width := w.natAbs, va := d.va.next },
            format)
        else .ok ({ d with width := w.natAbs, va := d.va.next }, format)
      else .ok (d, c :: format)

def evalPrecision (d : Directive) : List Char → Except Fault (Directive × List Char)
  | [] => .error .format
  | c :: format =>
      if c = '.' then
        let d := { d with flags := { d.flags with precision := true } }
        match format with
        | [] => .error .format
        | c :: format =>
            if isDigit c then do
              let (prec, format) ← atoi 0 (c :: format)
              .ok ({ d with prec := prec }, format)
            else if c = '*' then
              .ok ({ d with prec := ((d.va 0).setWidth 32).toInt.toNat, va := d.va.next }, format)
            else .ok (d, c :: format)
      else .ok (d, c :: format)

/-- `ptrdiff_t`, `intmax_t` and `size_t` have the size of a `long`. -/
def evalLength (flags : Flags) : List Char → Except Fault (Flags × List Char)
  | [] => .error .format
  | 'l' :: [] => .error .format
  | 'l' :: c :: format =>
      if c = 'l' then .ok ({ flags with long := true, longLong := true }, format)
      else .ok ({ flags with long := true }, c :: format)
  | 'h' :: [] => .error .format
  | 'h' :: c :: format =>
      if c = 'h' then .ok ({ flags with short := true, char := true }, format)
      else .ok ({ flags with short := true }, c :: format)
  | c :: format =>
      if c = 't' ∨ c = 'j' ∨ c = 'z' then .ok ({ flags with long := true }, format)
      else .ok (flags, c :: format)

/-! ## The specifiers -/

def specBase (spec : Char) : Nat :=
  if spec = 'x' ∨ spec = 'X' then 16
  else if spec = 'o' then 8
  else if spec = 'b' then 2
  else 10

/-- What an integer conversion makes of the flags. -/
def specFlags (spec : Char) (flags : Flags) : Flags :=
  let flags := if specBase spec = 10 then { flags with hash := false } else flags
  let flags := if spec = 'X' then { flags with uppercase := true } else flags
  let flags :=
    if spec ≠ 'i' ∧ spec ≠ 'd' then { flags with plus := false, space := false } else flags
  if flags.precision then { flags with zeropad := false } else flags

def signedArg (flags : Flags) (v : Word) : Int :=
  if flags.longLong || flags.long then v.toInt
  else if flags.char then (v.setWidth 8).toNat
  else if flags.short then (v.setWidth 16).toInt
  else (v.setWidth 32).toInt

def unsignedArg (flags : Flags) (v : Word) : Nat :=
  if flags.longLong || flags.long then v.toNat
  else if flags.char then (v.setWidth 8).toNat
  else if flags.short then (v.setWidth 16).toNat
  else (v.setWidth 32).toNat

/-- How far a string goes, up to `maxsize` characters. The character behind the last one counted
is read, also when `maxsize` has been reached. -/
def strnlenS : List Char → Nat → Except Fault Nat
  | [], _ => .error .string
  | c :: s, maxsize =>
      if c = NUL then .ok 0
      else
        match maxsize with
        | 0 => .ok 0
        | n + 1 => (· + 1) <$> strnlenS s n

/-- The characters of a string that are put out, at most `limit` if there is a limit. -/
def strChars : List Char → Option Nat → Except Fault (List Char)
  | [], _ => .error .string
  | c :: p, limit =>
      if c = NUL then .ok []
      else
        match limit with
        | some 0 => .ok []
        | some (n + 1) => (c :: ·) <$> strChars p (some n)
        | none => (c :: ·) <$> strChars p none

section Format

variable {B : Type} (out : OutFct B) (maxlen : Nat) (string : Word → List Char)

/-- `0 - value` of the least value wraps around to itself, and is its absolute value when it is
unsigned. -/
def convInteger (spec : Char) (d : Directive) (s : Sink B) : Sink B :=
  let base := specBase spec
  let flags := specFlags spec d.flags
  if spec = 'i' ∨ spec = 'd' then
    let value := signedArg flags (d.va 0)
    ntoa out maxlen value.natAbs (decide (value < 0)) base d.prec d.width flags s
  else ntoa out maxlen (unsignedArg flags (d.va 0)) false base d.prec d.width flags s

def convChar (d : Directive) (s : Sink B) : Sink B :=
  let s := if d.flags.left then s else padding out maxlen s (d.width - 1)
  let s := put out maxlen s (Char.ofNat ((d.va 0).setWidth 8).toNat)
  if d.flags.left then padding out maxlen s (d.width - 1) else s

def convString (d : Directive) (s : Sink B) : Except Fault (Sink B) := do
  let p := string (d.va 0)
  let l ← strnlenS p (if d.prec ≠ 0 then d.prec else SIZE_MAX)
  let l := l % 2 ^ 32
  let l := if d.flags.precision then min l d.prec else l
  let s := if d.flags.left then s else padding out maxlen s (d.width - l)
  let cs ← strChars p (if d.flags.precision then some d.prec else none)
  let s := puts out maxlen s cs
  .ok (if d.flags.left then padding out maxlen s (d.width - l) else s)

def convPointer (d : Directive) (s : Sink B) : Sink B :=
  ntoaLongLong out maxlen (d.va 0).toNat false 16 d.prec 16
    { d.flags with zeropad := true, uppercase := true } s

/-- The evaluation of the specifier, and the arguments behind it. -/
def evalSpecifier (spec : Char) (d : Directive) (s : Sink B) : Except Fault (Sink B × Va) :=
  if spec ∈ ['d', 'i', 'u', 'x', 'X', 'o', 'b'] then
    .ok (convInteger out maxlen spec d s, d.va.next)
  else if spec = 'c' then .ok (convChar out maxlen d s, d.va.next)
  else if spec = 's' then do
    let s ← convString out maxlen string d s
    .ok (s, d.va.next)
  else if spec = 'p' then .ok (convPointer out maxlen d s, d.va.next)
  else .ok (put out maxlen s spec, d.va)

/-- The flags, the width, the precision and the length of a directive. -/
def evalFields (va : Va) (format : List Char) : Except Fault (Directive × List Char) := do
  let (flags, format) ← evalFlags noFlags format
  let (d, format) ← evalWidth ⟨flags, 0, 0, va⟩ format
  let (d, format) ← evalPrecision d format
  let (flags, format) ← evalLength d.flags format
  .ok ({ d with flags := flags }, format)

/-- A directive behind its `%`. A terminator in the place of the specifier is put out like any
other character. -/
def evalDirective (format : List Char) (va : Va) (s : Sink B) :
    Except Fault (Sink B × List Char × Va) := do
  let (d, format) ← evalFields va format
  match format with
  | [] => .error .format
  | spec :: format =>
      let (s, va) ← evalSpecifier out maxlen string spec d s
      .ok (s, format, va)

/-- The rounds of the loop over the format, each of which takes a character of it at least. -/
def vsnprintfLoop : Nat → List Char → Va → Sink B → Except Fault (Sink B)
  | 0, _, _, _ => .error .format
  | _ + 1, [], _, _ => .error .format
  | n + 1, c :: format, va, s =>
      if c = NUL then .ok s
      else if c ≠ '%' then vsnprintfLoop n format va (put out maxlen s c)
      else do
        let (s, format, va) ← evalDirective out maxlen string format va s
        vsnprintfLoop n format va s

/-- `_vsnprintf`: the return value and the buffer. -/
def vsnprintf (buffer : B) (format : List Char) (va : Va) : Except Fault (Int × B) := do
  let s ← vsnprintfLoop out maxlen string format.length format va ⟨buffer, 0⟩
  let last := if s.idx < maxlen then s.idx else (maxlen + 2 ^ 64 - 1) % 2 ^ 64
  .ok ((BitVec.ofNat 32 s.idx).toInt, out NUL s.buffer last maxlen)

end Format

/-! ## The functions for callers -/

section Callers

variable (string : Word → List Char)

/-- `vprintf_`, and `printf_` between the acquisition and the release of its lock; also `fctprintf`,
for what it sends to the function. -/
def vprintf (console : List Char) (format : List Char) (va : Va) : Except Fault (Int × List Char) :=
  vsnprintf outChar SIZE_MAX string console format va

/-- `snprintf_` and `vsnprintf_`; `none` is the null pointer. -/
def snprintf (buffer : Option Buffer) (count : Nat) (format : List Char) (va : Va) :
    Except Fault (Int × Option Buffer) :=
  match buffer with
  | some buffer => do
      let (ret, buffer) ← vsnprintf outBuffer count string buffer format va
      .ok (ret, some buffer)
  | none => do
      let (ret, _) ← vsnprintf outNull count string (fun _ => NUL) format va
      .ok (ret, none)

def sprintf (buffer : Buffer) (format : List Char) (va : Va) : Except Fault (Int × Buffer) :=
  vsnprintf outBuffer SIZE_MAX string buffer format va

end Callers

end NoobKernel.Misc.Printf
