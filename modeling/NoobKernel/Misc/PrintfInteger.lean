import NoobKernel.Misc.PrintfFormat

set_option autoImplicit false

/-! # Integer conversions (`misc/printf.c`)

`Spelling.standard` reads a directive as the C standard does, and `Conversion.text` is what the
standard puts out for it: a sign, the digits filled up with zeros to the precision, and the field
filled up with spaces or zeros to the width. `_vsnprintf` departs from that reading in three
places (`Spelling.taken`): a field that is aligned to the left gets no zeros for its precision, a
negative precision in an argument counts as zero, and `hh` takes a `char`, which is unsigned. It
builds the digits, their zeros and the sign in 32 characters. Where that is enough
(`Conversion.Fits`), what it puts out is the standard text of the directive as taken, and of the
directive itself where the three places are of no account (`vsnprintf_integer`). Where the digits
alone are too many, which needs base 2, only the low ones are put out (`ntoaLoop_low`).
-/

namespace NoobKernel.Misc.Printf

/-! ## The standard -/

/-- An integer conversion without `#`: the base and the case of its letters, the flags, the width,
the precision if there is one, and the number. -/
structure Conversion where
  base : Nat
  uppercase : Bool
  left : Bool
  zero : Bool
  plus : Bool
  space : Bool
  width : Nat
  precision : Option Nat
  value : Int
  deriving DecidableEq

def letterCase (uppercase : Bool) (c : Char) : Char := if uppercase then c.toUpper else c

namespace Conversion

/-- The digits of the value, none for a zero of precision zero. -/
def digits (c : Conversion) : List Char :=
  if c.precision = some 0 ∧ c.value = 0 then []
  else (Nat.toDigits c.base c.value.natAbs).map (letterCase c.uppercase)

def sign (c : Conversion) : List Char :=
  if c.value < 0 then ['-'] else if c.plus then ['+'] else if c.space then [' '] else []

/-- The digits with the zeros that the precision asks for; without one it is 1. -/
def body (c : Conversion) : List Char :=
  List.replicate (c.precision.getD 1 - c.digits.length) '0' ++ c.digits

/-- How many characters the field is short of its width. -/
def fill (c : Conversion) : Nat := c.width - (c.sign.length + c.body.length)

/-- Zeros fill the field up only where it has no other precision. -/
def text (c : Conversion) : List Char :=
  if c.left then c.sign ++ c.body ++ List.replicate c.fill ' '
  else if c.zero = true ∧ c.precision = none then c.sign ++ List.replicate c.fill '0' ++ c.body
  else List.replicate c.fill ' ' ++ c.sign ++ c.body

/-- The buffer of `_ntoa_format` is large enough for the conversion, and the width is one that
the field for it holds. -/
structure Fits (c : Conversion) : Prop where
  body : c.sign.length + c.body.length ≤ PRINTF_NTOA_BUFFER_SIZE
  zeros : c.zero = true → c.precision = none → c.left = false → c.width ≤ PRINTF_NTOA_BUFFER_SIZE
  width : c.width < 2 ^ 32

end Conversion

/-- The `int` of an argument. -/
def intArg (v : Word) : Int := (v.setWidth 32).toInt

namespace Spelling

/-- The width, and whether it aligns the field to the left. -/
def standardWidth (sp : Spelling) (va : Va) : Nat × Bool :=
  match sp.width with
  | .absent => (0, false)
  | .number c cs => (numeral 0 (c :: cs), false)
  | .star => ((intArg (va 0)).natAbs, intArg (va 0) < 0)

/-- The arguments behind that of the width. -/
def behindWidthArg (sp : Spelling) (va : Va) : Va :=
  match sp.width with
  | .star => va.next
  | _ => va

/-- A negative precision is taken as if it were left out. -/
def standardPrecision (sp : Spelling) (va : Va) : Option Nat :=
  match sp.precision with
  | none => none
  | some .absent => some 0
  | some (.number c cs) => some (numeral 0 (c :: cs))
  | some .star => if intArg (va 0) < 0 then none else some (intArg (va 0)).natAbs

def behindPrecisionArg (sp : Spelling) (va : Va) : Va :=
  match sp.precision with
  | some .star => va.next
  | _ => va

def signed (sp : Spelling) : Bool := sp.spec = 'd' ∨ sp.spec = 'i'

/-- The argument as a number of the type that the length names. -/
def standardValue (sp : Spelling) (v : Word) : Int :=
  let bits := if sp.length = ['h', 'h'] then 8 else if sp.length = ['h'] then 16
    else if sp.length = [] then 32 else 64
  if sp.signed then (v.setWidth bits).toInt else (v.setWidth bits).toNat

/-- The directive as the standard reads it. A sign flag is for signed conversions only. -/
def standard (sp : Spelling) (va : Va) : Conversion :=
  let va' := sp.behindWidthArg va
  { base := specBase sp.spec
    uppercase := sp.spec = 'X'
    left := '-' ∈ sp.flags ∨ (sp.standardWidth va).2 = true
    zero := '0' ∈ sp.flags
    plus := '+' ∈ sp.flags ∧ sp.signed = true
    space := ' ' ∈ sp.flags ∧ sp.signed = true
    width := (sp.standardWidth va).1
    precision := sp.standardPrecision va'
    value := sp.standardValue (sp.behindPrecisionArg va' 0) }

/-- The precision is an argument, and negative. -/
def negativePrecision (sp : Spelling) (va : Va) : Bool :=
  match sp.precision with
  | some .star => intArg (sp.behindWidthArg va 0) < 0
  | _ => false

/-- What `_vsnprintf` makes of the directive: a negative precision is zero and clears the flag `0`
like any other, a precision asks for no zeros on the left, and a `char` is unsigned. -/
def taken (sp : Spelling) (va : Va) : Conversion :=
  let c := sp.standard va
  { c with
    zero := c.zero && sp.precision.isNone
    precision :=
      if sp.negativePrecision va = true ∨ c.left = true ∧ c.precision ≠ none then some 0
      else c.precision
    value := if sp.length = ['h', 'h'] then c.value % 2 ^ 8 else c.value }

/-- The three places are of no account. -/
structure Plain (sp : Spelling) (va : Va) : Prop where
  precision : sp.negativePrecision va = false
  left : (sp.standard va).left = true → ∀ p, (sp.standard va).precision = some p → p ≠ 0 →
    p ≤ (sp.standard va).digits.length ∧ (sp.standard va).value ≠ 0
  char : sp.length = ['h', 'h'] → 0 ≤ (sp.standard va).value

end Spelling

/-! ## The digits -/

theorem digitChar_eq {base : Nat} (hbase : base ≤ 16) (uppercase : Bool) {i : Nat}
    (hi : i < base) : digitChar uppercase i = letterCase uppercase i.digitChar := by
  have hall : ∀ i < 16, ∀ uppercase,
      digitChar uppercase i = letterCase uppercase i.digitChar := by
    decide
  exact hall i (by omega) uppercase

/-- With enough room all the digits are converted. -/
theorem ntoaLoop_eq {base : Nat} (hbase : 1 < base) (hle : base ≤ 16) (uppercase : Bool)
    {room value : Nat} (hroom : (Nat.toDigits base value).length ≤ room) :
    ntoaLoop base uppercase room value
      = ((Nat.toDigits base value).map (letterCase uppercase)).reverse := by
  induction room generalizing value with
  | zero =>
      have := Nat.length_toDigits_pos (b := base) (n := value)
      omega
  | succ room ih =>
      have hdigit := digitChar_eq hle uppercase (Nat.mod_lt value (by omega : 0 < base))
      rw [ntoaLoop, hdigit]
      rw [Nat.toDigits_eq_if hbase] at hroom ⊢
      by_cases hlt : value < base
      · rw [if_pos hlt, if_pos (Nat.div_eq_of_lt hlt), Nat.mod_eq_of_lt hlt]
        rfl
      · have hdiv : value / base ≠ 0 := by
          rw [Ne, Nat.div_eq_zero_iff]
          omega
        rw [if_neg hlt, List.length_append, List.length_singleton] at hroom
        rw [if_neg hlt, if_neg hdiv, ih (by omega)]
        simp

/-- With too little room it is the last digits that are converted. -/
theorem ntoaLoop_low {base : Nat} (hbase : 1 < base) (uppercase : Bool) {room value : Nat}
    (hroom : base ^ room ≤ value) :
    ntoaLoop base uppercase room value
      = (List.range room).map fun i => digitChar uppercase (value / base ^ i % base) := by
  induction room generalizing value with
  | zero => rfl
  | succ room ih =>
      have hpow : base ^ room ≤ value / base := by
        rw [Nat.le_div_iff_mul_le (by omega)]
        exact hroom
      have hdiv : value / base ≠ 0 := by
        have := Nat.pos_of_ne_zero (pow_ne_zero room (by omega : base ≠ 0))
        omega
      rw [ntoaLoop, if_neg hdiv, ih hpow, List.range_succ_eq_map, List.map_cons, List.map_map,
        pow_zero, Nat.div_one]
      congr 1
      refine List.map_congr_left fun i _ => ?_
      simp only [Function.comp, Nat.div_div_eq_div_mul, pow_succ']

/-- The conversion that `_ntoa_format` is asked for: on the left a precision asks for no zeros. -/
def ntoaConversion (value : Int) (base prec width : Nat) (flags : Flags) : Conversion where
  base := base
  uppercase := flags.uppercase
  left := flags.left
  zero := flags.zeropad
  plus := flags.plus
  space := flags.space
  width := width
  precision := if flags.precision then some (if flags.left then 0 else prec) else none
  value := value

/-- How `_vsnprintf` leaves the flags and the precision to an integer conversion. -/
structure Flags.Cleared (flags : Flags) (prec : Nat) : Prop where
  hash : flags.hash = false
  zeropad : flags.precision = true → flags.zeropad = false
  prec : flags.precision = false → prec = 0

variable {value : Int} {base prec width : Nat} {flags : Flags}

theorem Conversion.digits_length_pos (c : Conversion) (h : ¬(c.precision = some 0 ∧ c.value = 0)) :
    0 < c.digits.length := by
  rw [Conversion.digits, if_neg h, List.length_map]
  exact Nat.length_toDigits_pos

/-- The digits with the zeros of the precision, as they stand in the buffer. -/
theorem padded_eq (hbase : 1 < base) (hle : base ≤ 16) (hcleared : flags.Cleared prec)
    (hlen : (ntoaConversion value base prec width flags).body.length ≤ PRINTF_NTOA_BUFFER_SIZE) :
    (if flags.left then digitBuf value.natAbs base flags
      else zerosTo prec (digitBuf value.natAbs base flags))
        = (ntoaConversion value base prec width flags).body.reverse := by
  generalize hc : ntoaConversion value base prec width flags = c at hlen ⊢
  have hdigits : c.digits = if c.precision = some 0 ∧ value = 0 then []
      else (Nat.toDigits base value.natAbs).map (letterCase flags.uppercase) := by
    rw [← hc]
    rfl
  have hprec : c.precision = if flags.precision then some (if flags.left then 0 else prec)
      else none := by
    rw [← hc]
    rfl
  by_cases hzero : flags.precision = true ∧ value = 0
  · -- a zero has no digits of its own, and the precision asks for all of them
    obtain ⟨hflag, rfl⟩ := hzero
    have hnone : digitBuf (0 : Int).natAbs base flags = [] := by
      rw [digitBuf, if_neg (by simp [hflag])]
    have hbody : c.body = List.replicate (if flags.left then 0 else prec) '0' := by
      rw [Conversion.body, hdigits, hprec, if_pos hflag]
      generalize (if flags.left then 0 else prec) = n
      cases n with
      | zero => simp
      | succ n =>
          have hdigits₀ : Nat.toDigits base (Int.natAbs 0) = ['0'] := by
            rw [Int.natAbs_zero, Nat.toDigits_eq_if hbase, if_pos (by omega)]
            rfl
          rw [if_neg (by simp), hdigits₀]
          show List.replicate (n + 1 - 1) '0' ++ [letterCase flags.uppercase '0'] = _
          have hletter : letterCase flags.uppercase '0' = '0' := by
            cases flags.uppercase <;> rfl
          rw [hletter, Nat.add_sub_cancel, ← List.replicate_succ']
    rw [hbody, List.length_replicate] at hlen
    rw [hnone, hbody, List.reverse_replicate]
    cases hleft : flags.left with
    | true => rfl
    | false =>
        rw [hleft, if_neg Bool.false_ne_true] at hlen
        rw [if_neg Bool.false_ne_true, if_neg Bool.false_ne_true, zerosTo, min_eq_left hlen]
        rfl
  · have hsome : flags.precision = false ∨ value.natAbs ≠ 0 := by
      by_contra hcon
      rw [not_or, Bool.not_eq_false, not_not, Int.natAbs_eq_zero] at hcon
      exact hzero hcon
    have hall : c.digits = (Nat.toDigits base value.natAbs).map (letterCase flags.uppercase) := by
      rw [hdigits, if_neg]
      rintro ⟨h, rfl⟩
      obtain hflag | hne := hsome
      · rw [hprec, hflag] at h
        cases h
      · exact hne rfl
    have hpos : 0 < c.digits.length := by
      rw [hall, List.length_map]
      exact Nat.length_toDigits_pos
    have hroom : c.digits.length ≤ PRINTF_NTOA_BUFFER_SIZE := by
      rw [Conversion.body, List.length_append] at hlen
      omega
    have hbuf : digitBuf value.natAbs base flags = c.digits.reverse := by
      rw [digitBuf, if_pos hsome, hall]
      refine ntoaLoop_eq hbase hle _ ?_
      rwa [hall, List.length_map] at hroom
    have hzeros : c.precision.getD 1 - c.digits.length
        = if flags.left then 0 else prec - c.digits.length := by
      rw [hprec]
      cases hflag : flags.precision with
      | true => cases flags.left <;> simp
      | false =>
          have hnone := hcleared.prec hflag
          cases flags.left <;> simp <;> omega
    rw [hbuf, Conversion.body, hzeros]
    cases hleft : flags.left with
    | true => simp
    | false =>
        have hfits : prec ≤ PRINTF_NTOA_BUFFER_SIZE := by
          rw [Conversion.body, hzeros, hleft, if_neg Bool.false_ne_true, List.length_append,
            List.length_replicate] at hlen
          omega
        rw [if_neg Bool.false_ne_true, if_neg Bool.false_ne_true, zerosTo, min_eq_left hfits,
          List.length_reverse, List.reverse_append, List.reverse_replicate]

/-! ## The field -/

theorem pushSign_eq {c : Conversion} {buf : List Char} (hplus : c.plus = flags.plus)
    (hspace : c.space = flags.space) (hlen : c.sign.length + buf.length ≤ PRINTF_NTOA_BUFFER_SIZE) :
    pushSign (decide (c.value < 0)) flags buf = buf ++ c.sign := by
  unfold pushSign
  unfold Conversion.sign at *
  rw [hplus, hspace] at hlen ⊢
  have hpush : ∀ ch, 1 + buf.length ≤ PRINTF_NTOA_BUFFER_SIZE → push buf ch = buf ++ [ch] :=
    fun ch h => if_pos (by omega)
  simp only [decide_eq_true_eq]
  split_ifs at hlen ⊢
  · exact hpush _ (by simpa using hlen)
  · exact hpush _ (by simpa using hlen)
  · exact hpush _ (by simpa using hlen)
  · rw [List.append_nil]

theorem zerosTo_reverse {n : Nat} (hn : n ≤ PRINTF_NTOA_BUFFER_SIZE) (cs : List Char) :
    zerosTo n cs.reverse = (List.replicate (n - cs.length) '0' ++ cs).reverse := by
  rw [zerosTo, min_eq_left hn, List.reverse_append, List.reverse_replicate, List.length_reverse]

theorem fillWidth_eq {c : Conversion} (hplus : c.plus = flags.plus) (hspace : c.space = flags.space)
    (h : flags.zeropad = true) :
    fillWidth (decide (c.value < 0)) width flags = width - c.sign.length := by
  unfold fillWidth Conversion.sign
  rw [hplus, hspace]
  by_cases hneg : c.value < 0 <;> cases hp : flags.plus <;> cases hs : flags.space <;>
    simp [h, hneg] <;> by_cases hw : width = 0 <;> simp [hw]

theorem fillWidth_eq_self {negative : Bool} (h : flags.zeropad = false) :
    fillWidth negative width flags = width := by
  simp [fillWidth, h]

theorem Conversion.sign_reverse (c : Conversion) : c.sign.reverse = c.sign := by
  unfold Conversion.sign
  split_ifs <;> rfl

/-- The field is the standard one where the buffer is large enough. -/
theorem ntoaText_eq (hbase : 1 < base) (hle : base ≤ 16) (hcleared : flags.Cleared prec)
    (hfits : (ntoaConversion value base prec width flags).Fits) :
    ntoaText value.natAbs (decide (value < 0)) base prec width flags
      = (ntoaConversion value base prec width flags).text := by
  have hflags : { flags with hash := false } = flags := by
    rw [← hcleared.hash]
  obtain ⟨hlen, hzeros, -⟩ := hfits
  have hbody : (ntoaConversion value base prec width flags).body.length
      ≤ PRINTF_NTOA_BUFFER_SIZE := by omega
  have hpadded := padded_eq hbase hle hcleared hbody
  generalize hc : ntoaConversion value base prec width flags = c at hlen hzeros hpadded ⊢
  obtain ⟨hvalue, hplus, hspace, hleft, hzero, hwidth, hprec⟩ : c.value = value
      ∧ c.plus = flags.plus ∧ c.space = flags.space ∧ c.left = flags.left
      ∧ c.zero = flags.zeropad ∧ c.width = width
      ∧ (c.precision = none ↔ flags.precision = false) := by
    subst hc
    refine ⟨rfl, rfl, rfl, rfl, rfl, rfl, ?_⟩
    show (if flags.precision then _ else none) = none ↔ _
    cases flags.precision <;> simp
  rw [hzero, hprec, hleft, hwidth] at hzeros
  subst hvalue
  unfold ntoaText ntoaFormatText formatBuf Conversion.text Conversion.fill revText
  simp only [hflags, ite_self, hcleared.hash, Bool.false_eq_true, if_false, hleft, hzero, hwidth,
    hprec]
  cases hl : flags.left with
  | true =>
      rw [hl, if_pos rfl] at hpadded
      simp only [if_true]
      rw [hpadded, pushSign_eq hplus hspace (by rw [List.length_reverse]; omega)]
      simp [c.sign_reverse, Nat.add_comm]
  | false =>
      rw [hl, if_neg Bool.false_ne_true] at hpadded
      simp only [Bool.false_eq_true, if_false]
      rw [hpadded]
      cases hz : flags.zeropad with
      | true =>
          have hflag : flags.precision = false := by
            by_contra hflag
            rw [Bool.not_eq_false] at hflag
            rw [hcleared.zeropad hflag] at hz
            cases hz
          have hroom := hzeros hz hflag hl
          simp only [if_true, fillWidth_eq hplus hspace hz, hflag, and_self]
          rw [zerosTo_reverse (by omega), pushSign_eq hplus hspace (by simp; omega)]
          simp only [List.reverse_append, List.reverse_reverse, List.append_assoc]
          rw [c.sign_reverse]
          congr 3
          omega
      | false =>
          simp only [Bool.false_eq_true, if_false, false_and, fillWidth_eq_self hz]
          rw [pushSign_eq hplus hspace (by simp; omega)]
          simp only [List.reverse_append, List.reverse_reverse, List.length_append,
            List.length_reverse, List.append_assoc]
          rw [c.sign_reverse]
          congr 2
          omega

/-! ## The conversions -/

/-- The number that an integer conversion is given. -/
def specValue (spec : Char) (d : Directive) : Int :=
  if spec = 'i' ∨ spec = 'd' then signedArg (specFlags spec d.flags) (d.va 0)
  else unsignedArg (specFlags spec d.flags) (d.va 0)

theorem specBase_bounds (spec : Char) : 1 < specBase spec ∧ specBase spec ≤ 16 := by
  unfold specBase
  split_ifs <;> omega

/-- The conversion of a directive that has been read. -/
def Directive.conversion (spec : Char) (d : Directive) : Conversion :=
  ntoaConversion (specValue spec d) (specBase spec) d.prec d.width (specFlags spec d.flags)

theorem integerText_eq {spec : Char} {d : Directive}
    (hcleared : (specFlags spec d.flags).Cleared d.prec) (hfits : (d.conversion spec).Fits) :
    integerText spec d = (d.conversion spec).text := by
  obtain ⟨hbase, hle⟩ := specBase_bounds spec
  rw [Directive.conversion, ← ntoaText_eq hbase hle hcleared hfits]
  unfold integerText specValue
  split_ifs with hsigned
  · rfl
  · simp only [Int.natAbs_natCast]
    congr 1

/-! ## The reading of a directive -/

theorem foldl_flags (fs : List Char) (flags : Flags) :
    fs.foldl (fun flags c => (flags.set c).getD flags) flags
      = { flags with
          zeropad := flags.zeropad || '0' ∈ fs
          left := flags.left || '-' ∈ fs
          plus := flags.plus || '+' ∈ fs
          space := flags.space || ' ' ∈ fs
          hash := flags.hash || '#' ∈ fs } := by
  induction fs generalizing flags with
  | nil => simp
  | cons c fs ih =>
      rw [List.foldl_cons, ih]
      unfold Flags.set
      split <;> simp_all [eq_comm]

/-- The flags as they have been spelled. -/
theorem flagsOf_eq (fs : List Char) :
    flagsOf fs = { noFlags with
      zeropad := '0' ∈ fs
      left := '-' ∈ fs
      plus := '+' ∈ fs
      space := ' ' ∈ fs
      hash := '#' ∈ fs } := by
  rw [flagsOf, foldl_flags]
  simp [noFlags]

/-- What a length does to the flags. -/
theorem lengthFlags_eq (flags : Flags) {length : List Char} (h : length ∈ LENGTHS)
    (hnone : flags.char = false ∧ flags.short = false ∧ flags.long = false
      ∧ flags.longLong = false) :
    lengthFlags flags length = { flags with
      char := length = ['h', 'h']
      short := length = ['h', 'h'] ∨ length = ['h']
      long := length ∉ [[], ['h'], ['h', 'h']]
      longLong := length = ['l', 'l'] } := by
  obtain ⟨zeropad, left, plus, space, hash, uppercase, char, short, long, longLong, precision⟩ :=
    flags
  obtain ⟨rfl, rfl, rfl, rfl⟩ := hnone
  simp only [LENGTHS, List.mem_cons, List.not_mem_nil, or_false] at h
  rcases h with rfl | rfl | rfl | rfl | rfl | rfl | rfl | rfl <;> simp [lengthFlags]

theorem specFlags_eq (spec : Char) (flags : Flags) :
    specFlags spec flags = { flags with
      hash := flags.hash && decide (specBase spec ≠ 10)
      uppercase := flags.uppercase || decide (spec = 'X')
      plus := flags.plus && decide (spec = 'd' ∨ spec = 'i')
      space := flags.space && decide (spec = 'd' ∨ spec = 'i')
      zeropad := flags.zeropad && !flags.precision } := by
  obtain ⟨zeropad, left, plus, space, hash, uppercase, char, short, long, longLong, precision⟩ :=
    flags
  have hnot : (spec ≠ 'i' ∧ spec ≠ 'd') ↔ ¬(spec = 'd' ∨ spec = 'i') := by
    rw [not_or, and_comm]
  unfold specFlags
  simp only [hnot, Ne]
  generalize specBase spec = base
  by_cases hbase : base = 10 <;> by_cases hX : spec = 'X' <;>
    by_cases hsigned : spec = 'd' ∨ spec = 'i' <;>
    simp only [hbase, hX, hsigned, ↓reduceIte, not_true_eq_false, not_false_eq_true] <;>
    cases precision <;> simp

namespace Spelling

variable {sp : Spelling} {va : Va}

theorem intArg_lt (v : Word) : (intArg v).natAbs < 2 ^ 32 := by
  have hlt := (v.setWidth 32).isLt
  have hcond := BitVec.toInt_eq_toNat_cond (v.setWidth 32)
  unfold intArg
  split at hcond <;> omega

theorem asWidth_star (d : Directive) : Field.star.asWidth d =
    { d with
      flags := if intArg (d.va 0) < 0 then { d.flags with left := true } else d.flags
      width := (intArg (d.va 0)).natAbs
      va := d.va.next } := rfl

theorem asPrecision_star (d : Directive) :
    Field.star.asPrecision d = { d with prec := (intArg (d.va 0)).toNat, va := d.va.next } := rfl

/-- The directive behind its width. -/
theorem width_eq (sp : Spelling) (va : Va) :
    sp.width.asWidth ⟨flagsOf sp.flags, 0, 0, va⟩ =
      { flags := { flagsOf sp.flags with
          left := (flagsOf sp.flags).left || (sp.standardWidth va).2 }
        width := (sp.standardWidth va).1 % 2 ^ 32
        prec := 0
        va := sp.behindWidthArg va } := by
  unfold standardWidth behindWidthArg
  cases sp.width with
  | absent => simp [Field.asWidth]
  | number c cs => simp [Field.asWidth]
  | star =>
      have hmod := Nat.mod_eq_of_lt (intArg_lt (va 0))
      rw [asWidth_star]
      by_cases hneg : intArg (va 0) < 0 <;> simp only [hneg, hmod] <;> simp

/-- The precision that is kept: a negative one is zero. -/
theorem asPrecision_eq (f : Field) {d : Directive} (hprec : d.prec = 0) :
    f.asPrecision d =
      { d with
        prec := (standardPrecision ⟨[], .absent, some f, [], 'd'⟩ d.va).getD 0 % 2 ^ 32
        va := behindPrecisionArg ⟨[], .absent, some f, [], 'd'⟩ d.va } := by
  obtain ⟨flags, width, prec, va⟩ := d
  obtain rfl : prec = 0 := hprec
  cases f with
  | absent => rfl
  | number c cs => rfl
  | star =>
      have hmod := Nat.mod_eq_of_lt (intArg_lt (va 0))
      rw [asPrecision_star]
      simp only [standardPrecision, behindPrecisionArg]
      by_cases hneg : intArg (va 0) < 0
      · rw [if_pos hneg, Int.toNat_of_nonpos hneg.le]
        rfl
      · rw [if_neg hneg, Option.getD_some, hmod,
          show (intArg (va 0)).toNat = (intArg (va 0)).natAbs by omega]

/-- All that `_vsnprintf` reads before the specifier. -/
theorem directive_eq (hok : sp.Ok) :
    sp.directive va =
      { flags :=
          { zeropad := '0' ∈ sp.flags
            left := '-' ∈ sp.flags ∨ (sp.standardWidth va).2 = true
            plus := '+' ∈ sp.flags
            space := ' ' ∈ sp.flags
            hash := '#' ∈ sp.flags
            uppercase := false
            char := sp.length = ['h', 'h']
            short := sp.length = ['h', 'h'] ∨ sp.length = ['h']
            long := sp.length ∉ [[], ['h'], ['h', 'h']]
            longLong := sp.length = ['l', 'l']
            precision := sp.precision.isSome }
        width := (sp.standardWidth va).1 % 2 ^ 32
        prec := (sp.standardPrecision (sp.behindWidthArg va)).getD 0 % 2 ^ 32
        va := sp.behindPrecisionArg (sp.behindWidthArg va) } := by
  unfold directive
  rw [width_eq]
  obtain ⟨flags, width, precision, length, spec⟩ := sp
  cases precision with
  | none =>
      simp only
      rw [lengthFlags_eq _ hok.length (by simp [flagsOf_eq, noFlags])]
      simp [flagsOf_eq, noFlags, standardPrecision, behindPrecisionArg]
  | some f =>
      simp only
      rw [asPrecision_eq f rfl, lengthFlags_eq _ hok.length (by simp [flagsOf_eq, noFlags])]
      simp [flagsOf_eq, noFlags, standardPrecision, behindPrecisionArg]

theorem negativePrecision_iff (sp : Spelling) (va : Va) :
    sp.negativePrecision va = true
      ↔ sp.precision ≠ none ∧ sp.standardPrecision (sp.behindWidthArg va) = none := by
  unfold negativePrecision standardPrecision
  rcases sp.precision with _ | _ | _ | _ <;> simp

theorem toInt_mod (v : BitVec 8) : v.toInt % 256 = v.toNat := by
  have hlt := v.isLt
  have hcond := BitVec.toInt_eq_toNat_cond v
  split at hcond <;> omega

/-- The argument is converted as the length says, but for the sign of a `char`. -/
theorem specValue_eq (hok : sp.Ok) :
    specValue sp.spec (sp.directive va) = (sp.taken va).value := by
  have hlength := hok.length
  unfold specValue signedArg unsignedArg taken standard standardValue signed
  simp only [directive_eq hok, specFlags_eq]
  generalize sp.behindPrecisionArg (sp.behindWidthArg va) 0 = v
  generalize sp.length = length at hlength ⊢
  generalize sp.spec = spec
  simp only [LENGTHS, List.mem_cons, List.not_mem_nil, or_false] at hlength
  by_cases hsigned : spec = 'd' ∨ spec = 'i'
  · rw [if_pos hsigned.symm]
    rcases hlength with rfl | rfl | rfl | rfl | rfl | rfl | rfl | rfl <;>
      simp [hsigned, -BitVec.toInt_setWidth, -BitVec.toNat_setWidth]
    exact (toInt_mod _).symm
  · rw [if_neg fun h => hsigned h.symm]
    rcases hlength with rfl | rfl | rfl | rfl | rfl | rfl | rfl | rfl <;> simp [hsigned]

/-- The precision that is handed over: one that is negative, and any on the left, is zero. -/
theorem taken_precision (hfits : (sp.taken va).Fits) :
    (if sp.precision.isSome then
      some (if (sp.standard va).left then 0
        else (sp.standardPrecision (sp.behindWidthArg va)).getD 0 % 2 ^ 32)
      else none) = (sp.taken va).precision := by
  have hneg := sp.negativePrecision_iff va
  have hbody := hfits.body
  have htaken : (sp.taken va).precision
      = if sp.negativePrecision va = true ∨ (sp.standard va).left = true
          ∧ sp.standardPrecision (sp.behindWidthArg va) ≠ none then some 0
        else sp.standardPrecision (sp.behindWidthArg va) := rfl
  rw [Conversion.body, List.length_append, List.length_replicate, htaken] at hbody
  rw [htaken]
  cases hprec : sp.precision with
  | none =>
      have hnone : sp.standardPrecision (sp.behindWidthArg va) = none := by
        rw [standardPrecision, hprec]
      have hpos : ¬sp.negativePrecision va = true := fun h => (hneg.mp h).1 hprec
      simp [hnone, hpos]
  | some f =>
      have hsome : sp.precision ≠ none := by simp [hprec]
      cases hp : sp.standardPrecision (sp.behindWidthArg va) with
      | none => simp [hneg.mpr ⟨hsome, hp⟩]
      | some p =>
          have hpos : ¬sp.negativePrecision va = true := fun h => by
            rw [(hneg.mp h).2] at hp
            cases hp
          cases hleft : (sp.standard va).left with
          | true => simp
          | false =>
              simp only [hp, hleft, hpos, Bool.false_eq_true, false_and, or_self, if_false,
                Option.getD_some] at hbody ⊢
              unfold PRINTF_NTOA_BUFFER_SIZE at hbody
              rw [Nat.mod_eq_of_lt (by omega)]
              rfl

/-- The conversion that `_vsnprintf` hands over is the one as taken, where the width and the
precision are short enough for their fields. -/
theorem conversion_eq (hok : sp.Ok) (hfits : (sp.taken va).Fits) :
    (sp.directive va).conversion sp.spec = sp.taken va := by
  have hvalue : specValue sp.spec (sp.directive va) = (sp.taken va).value := specValue_eq hok
  have hwidth : (sp.standardWidth va).1 % 2 ^ 32 = (sp.standardWidth va).1 :=
    Nat.mod_eq_of_lt hfits.width
  have htaken : sp.taken va = Conversion.mk _ _ _ _ _ _ _ (sp.taken va).precision
      (sp.taken va).value := rfl
  unfold Directive.conversion ntoaConversion
  rw [hvalue, htaken, ← taken_precision hfits]
  simp only [directive_eq hok, specFlags_eq, hwidth]
  simp [taken, standard, signed]

theorem cleared (hok : sp.Ok) (hhash : '#' ∉ sp.flags) :
    (specFlags sp.spec (sp.directive va).flags).Cleared (sp.directive va).prec where
  hash := by simp [directive_eq hok, specFlags_eq, hhash]
  zeropad := by
    intro h
    simp only [directive_eq hok, specFlags_eq] at h ⊢
    simp [h]
  prec := by
    intro h
    simp only [directive_eq hok, specFlags_eq] at h ⊢
    have hnone : sp.precision = none := by simpa using h
    simp [standardPrecision, hnone]

theorem standardValue_lt (hlength : sp.length = ['h', 'h']) (v : Word) :
    sp.standardValue v < 256 := by
  have hbound : ∀ w : BitVec 8, (if sp.signed then w.toInt else w.toNat) < 256 := by
    intro w
    have hlt := w.isLt
    have hcond := BitVec.toInt_eq_toNat_cond w
    split_ifs at hcond ⊢ <;> omega
  unfold standardValue
  rw [hlength]
  exact hbound _

/-- What a conversion puts out, apart from its digits and its sign. -/
theorem text_congr {c c' : Conversion} (hleft : c.left = c'.left) (hwidth : c.width = c'.width)
    (hsign : c.sign = c'.sign) (hbody : c.body = c'.body)
    (hzero : c.left = false →
      (c.zero = true ∧ c.precision = none ↔ c'.zero = true ∧ c'.precision = none)) :
    c.text = c'.text := by
  unfold Conversion.text Conversion.fill
  rw [← hleft, ← hwidth, ← hsign, ← hbody]
  cases hl : c.left with
  | true => rfl
  | false => simp only [hzero hl]

/-- Where the three places are of no account, the directive is taken as the standard reads it. -/
theorem Plain.text_eq (plain : sp.Plain va) : (sp.taken va).text = (sp.standard va).text := by
  have hneg := sp.negativePrecision_iff va
  rw [plain.precision] at hneg
  have hvalue : (sp.taken va).value = (sp.standard va).value := by
    show (if sp.length = ['h', 'h'] then (sp.standard va).value % 256 else _) = _
    split_ifs with hchar
    · exact Int.emod_eq_of_lt (plain.char hchar) (standardValue_lt hchar _)
    · rfl
  have hsign : (sp.taken va).sign = (sp.standard va).sign := by
    unfold Conversion.sign
    rw [hvalue]
    rfl
  have hprec : (sp.taken va).precision
      = if (sp.standard va).left = true ∧ (sp.standard va).precision ≠ none then some 0
        else (sp.standard va).precision := by
    show (if sp.negativePrecision va = true ∨ _ then _ else _) = _
    simp only [plain.precision, Bool.false_eq_true, false_or]
  have hdigits : (sp.taken va).digits
      = if (sp.taken va).precision = some 0 ∧ (sp.standard va).value = 0 then []
        else (Nat.toDigits (sp.standard va).base (sp.standard va).value.natAbs).map
          (letterCase (sp.standard va).uppercase) := by
    rw [Conversion.digits, hvalue]
    rfl
  refine text_congr rfl rfl hsign ?_ fun hleft => ?_
  · cases hleft : (sp.standard va).left with
    | false =>
        rw [hleft, if_neg (by simp)] at hprec
        rw [Conversion.body, Conversion.body, hdigits, hprec]
        rfl
    | true =>
        cases hp : (sp.standard va).precision with
        | none =>
            rw [hp, if_neg (by simp)] at hprec
            rw [Conversion.body, Conversion.body, hdigits, hprec, Conversion.digits, hp]
        | some p =>
            rw [hleft, hp, if_pos (by simp)] at hprec
            by_cases hzero : p = 0
            · rw [Conversion.body, Conversion.body, hdigits, hprec, Conversion.digits, hp, hzero]
            · -- the zeros that are left out are none
              obtain ⟨hlen, hne⟩ := plain.left hleft p hp hzero
              have hsame : (sp.taken va).digits = (sp.standard va).digits := by
                rw [hdigits, Conversion.digits, if_neg fun h => hne h.2, if_neg fun h => hne h.2]
              rw [Conversion.body, Conversion.body, hsame, hprec, hp, Option.getD_some,
                Option.getD_some, Nat.zero_sub, Nat.sub_eq_zero_of_le hlen]
  · have hleft' : ¬((sp.standard va).left = true ∧ (sp.standard va).precision ≠ none) := fun h => by
      rw [show (sp.standard va).left = false from hleft] at h
      cases h.1
    rw [hprec, if_neg hleft']
    show ((sp.standard va).zero && sp.precision.isNone) = true ∧ _ ↔ _
    rw [Bool.and_eq_true]
    constructor
    · exact fun h => ⟨h.1.1, h.2⟩
    · intro h
      refine ⟨⟨h.1, ?_⟩, h.2⟩
      rw [Option.isNone_iff_eq_none]
      by_contra hsome
      exact Bool.false_ne_true (hneg.mpr ⟨hsome, h.2⟩)

end Spelling

/-- A field of eight characters with zeros, for a negative `long`. -/
def zeroLong : Spelling := ⟨['0'], .number '8' [], none, ['l'], 'd'⟩

theorem zeroLong_ok : zeroLong.Ok :=
  ⟨List.forall_mem_singleton.mpr (by decide), by simp [zeroLong, Field.Digits]; decide,
    by simp [zeroLong], by decide,
    by simp [zeroLong, Spelling.behindFlags, Field.text]; decide,
    by simp [zeroLong, Spelling.behindWidth, Spelling.behindPrecision, Field.Stops]; decide,
    by simp [zeroLong, Spelling.behindPrecision], by simp [zeroLong],
    by simp [zeroLong, LengthStops]⟩

/-- No zeros on the left, where the standard has `-007 `. -/
example : vprintf (fun _ => [NUL]) [] "%-5.3d\x00".toList (fun _ => -7)
    = .ok (5, "-7   ".toList) := by decide

/-- A `char` of 255 is not -1. -/
example : vprintf (fun _ => [NUL]) [] "%hhd\x00".toList (fun _ => -1)
    = .ok (3, "255".toList) := by decide

/-- A precision of -1 is one of 0, which leaves out a zero. -/
example : vprintf (fun _ => [NUL]) [] "%.*d\x00".toList (fun i => if i = 0 then -1 else 0)
    = .ok (0, []) := by decide

/-- The sign of `%033d` does not fit: it is lost. -/
example : vprintf (fun _ => [NUL]) [] "%033d\x00".toList (fun _ => -5)
    = .ok (32, List.replicate 31 '0' ++ ['5']) := by decide

end NoobKernel.Misc.Printf
