import NoobKernel.Misc.PrintfText

set_option autoImplicit false

/-! # Formats (`misc/printf.c`)

A format is spelled by a list of pieces: single characters and directives. `Spelling` is a
directive field by field, and `Spelling.Ok` says that each field ends where it is meant to.
`_vsnprintf` puts out what the pieces mean, one after the other (`vsnprintf_spelled`).

A format that ends within a directive is not spelled by pieces. Its terminator is taken for the
specifier and the loop goes on behind it (`vsnprintf_inside_iff`).
-/

namespace NoobKernel.Misc.Printf

/-! ## Spellings -/

/-- A width or a precision. -/
inductive Field
  | absent
  | number (d : Char) (ds : List Char)
  | star

def Field.text : Field → List Char
  | .absent => []
  | .number d ds => d :: ds
  | .star => ['*']

/-- `c` is not read as more of the field. -/
def Field.Stops : Field → Char → Prop
  | .absent, c => isDigit c = false ∧ c ≠ '*'
  | .number _ _, c => isDigit c = false
  | .star, _ => True

def Field.Digits : Field → Prop
  | .number d ds => ∀ c ∈ d :: ds, isDigit c = true
  | _ => True

structure Spelling where
  flags : List Char
  width : Field
  /-- what is behind the point, if there is one -/
  precision : Option Field
  length : List Char
  spec : Char

namespace Spelling

def behindPrecision (sp : Spelling) : List Char := sp.length ++ [sp.spec]

def behindWidth (sp : Spelling) : List Char :=
  match sp.precision with
  | none => sp.behindPrecision
  | some f => '.' :: (f.text ++ sp.behindPrecision)

def behindFlags (sp : Spelling) : List Char := sp.width.text ++ sp.behindWidth

/-- The directive without its `%`. -/
def text (sp : Spelling) : List Char := sp.flags ++ sp.behindFlags

end Spelling

def isFlag (c : Char) : Bool := (noFlags.set c).isSome

def LENGTHS : List (List Char) := [[], ['l'], ['l', 'l'], ['h'], ['h', 'h'], ['t'], ['j'], ['z']]

/-- `c` is not read as more of the length. -/
def LengthStops (length : List Char) (c : Char) : Prop :=
  (length = [] → c ∉ ['l', 'h', 't', 'j', 'z']) ∧ (length = ['l'] → c ≠ 'l')
    ∧ (length = ['h'] → c ≠ 'h')

/-- Each field of a directive ends where the next one starts. -/
structure Spelling.Ok (sp : Spelling) : Prop where
  flags : ∀ c ∈ sp.flags, isFlag c = true
  width : sp.width.Digits
  precision : ∀ f, sp.precision = some f → f.Digits
  length : sp.length ∈ LENGTHS
  behindFlags : ∀ c ∈ sp.behindFlags.head?, isFlag c = false
  behindWidth : ∀ c ∈ sp.behindWidth.head?, sp.width.Stops c
  noPoint : sp.precision = none → sp.behindPrecision.head? ≠ some '.'
  behindPrecision : ∀ f, sp.precision = some f → ∀ c ∈ sp.behindPrecision.head?, f.Stops c
  spec : LengthStops sp.length sp.spec

inductive Piece
  | lit (c : Char)
  | conv (sp : Spelling)

def Piece.text : Piece → List Char
  | .lit c => [c]
  | .conv sp => '%' :: sp.text

def Piece.Ok : Piece → Prop
  | .lit c => c ≠ NUL ∧ c ≠ '%'
  | .conv sp => sp.Ok ∧ sp.spec ≠ NUL

/-- The characters of a format, without its terminator. -/
def spell (ps : List Piece) : List Char := ps.flatMap Piece.text

/-! ## What a directive says -/

/-- The number that digits stand for. -/
def numeral (i : Nat) (ds : List Char) : Nat :=
  ds.foldl (fun i c => i * 10 + (c.toNat - '0'.toNat)) i

def Field.asWidth (d : Directive) : Field → Directive
  | .absent => d
  | .number c cs => { d with width := numeral 0 (c :: cs) % 2 ^ 32 }
  | .star =>
      let w := ((d.va 0).setWidth 32).toInt
      { d with
        flags := if w < 0 then { d.flags with left := true } else d.flags
        width := w.natAbs
        va := d.va.next }

def Field.asPrecision (d : Directive) : Field → Directive
  | .absent => d
  | .number c cs => { d with prec := numeral 0 (c :: cs) % 2 ^ 32 }
  | .star => { d with prec := ((d.va 0).setWidth 32).toInt.toNat, va := d.va.next }

def lengthFlags (flags : Flags) (length : List Char) : Flags :=
  if length = [] then flags
  else if length = ['h'] then { flags with short := true }
  else if length = ['h', 'h'] then { flags with short := true, char := true }
  else if length = ['l', 'l'] then { flags with long := true, longLong := true }
  else { flags with long := true }

def flagsOf (fs : List Char) : Flags := fs.foldl (fun flags c => (flags.set c).getD flags) noFlags

/-- The directive that is spelled, where the arguments are `va`. -/
def Spelling.directive (sp : Spelling) (va : Va) : Directive :=
  let d := sp.width.asWidth ⟨flagsOf sp.flags, 0, 0, va⟩
  let d :=
    match sp.precision with
    | none => d
    | some f => f.asPrecision { d with flags := { d.flags with precision := true } }
  { d with flags := lengthFlags d.flags sp.length }

/-- What the pieces of a format mean. -/
def render (string : Word → List Char) : List Piece → Va → Except Fault (List Char)
  | [], _ => .ok []
  | .lit c :: ps, va => (c :: ·) <$> render string ps va
  | .conv sp :: ps, va => do
      let (cs, va) ← specifierText string sp.spec (sp.directive va)
      (cs ++ ·) <$> render string ps va

/-! ## Reading a spelled directive -/

theorem isFlag_iff (flags : Flags) (c : Char) : (flags.set c).isSome = isFlag c := by
  unfold isFlag Flags.set
  split <;> rfl

theorem evalFlags_spelled (fs : List Char) (hfs : ∀ c ∈ fs, isFlag c = true) (flags : Flags)
    {c : Char} (hc : isFlag c = false) (rest : List Char) :
    evalFlags flags (fs ++ c :: rest)
      = .ok (fs.foldl (fun flags c => (flags.set c).getD flags) flags, c :: rest) := by
  induction fs generalizing flags with
  | nil =>
      have hnone : flags.set c = none := by
        rw [← Option.not_isSome_iff_eq_none, isFlag_iff, hc]
        exact Bool.false_ne_true
      simp [evalFlags, hnone]
  | cons f fs ih =>
      obtain ⟨flags', hset⟩ := Option.isSome_iff_exists.mp
        ((isFlag_iff flags f).trans (hfs f (by simp)))
      rw [List.cons_append, evalFlags, hset]
      simp only [List.foldl_cons, hset, Option.getD_some]
      exact ih (fun c hc => hfs c (by simp [hc])) flags'

theorem atoi_spelled (ds : List Char) (hds : ∀ c ∈ ds, isDigit c = true) (i : Nat) {c : Char}
    (hc : isDigit c = false) (rest : List Char) :
    atoi (i % 2 ^ 32) (ds ++ c :: rest) = .ok (numeral i ds % 2 ^ 32, c :: rest) := by
  induction ds generalizing i with
  | nil => simp [atoi, hc, numeral]
  | cons d ds ih =>
      rw [List.cons_append, atoi, if_pos (hds d (by simp))]
      have hmod : (i % 2 ^ 32 * 10 + (d.toNat - '0'.toNat)) % 2 ^ 32
          = (i * 10 + (d.toNat - '0'.toNat)) % 2 ^ 32 := by
        omega
      rw [hmod, ih (fun c hc => hds c (by simp [hc]))]
      rfl

theorem isDigit_star : isDigit '*' = false := by decide

theorem evalWidth_spelled (d : Directive) {f : Field} (hf : f.Digits)
    {c : Char} (hc : f.Stops c) (rest : List Char) :
    evalWidth d (f.text ++ c :: rest) = .ok (f.asWidth d, c :: rest) := by
  cases f with
  | absent =>
      obtain ⟨hdigit, hstar⟩ := hc
      simp [Field.text, evalWidth, hdigit, hstar, Field.asWidth]
  | number e es =>
      have hnum := atoi_spelled (e :: es) hf 0 hc rest
      rw [Nat.zero_mod] at hnum
      have he : isDigit e = true := hf e (by simp)
      simp only [Field.text, List.cons_append, evalWidth, he, if_true] at hnum ⊢
      rw [hnum]
      rfl
  | star =>
      simp only [Field.text, List.cons_append, List.nil_append, evalWidth, isDigit_star,
        Bool.false_eq_true, if_false, if_true, Field.asWidth]
      split <;> rfl

theorem evalPrecision_absent (d : Directive) {c : Char} (hc : c ≠ '.') (rest : List Char) :
    evalPrecision d (c :: rest) = .ok (d, c :: rest) := by
  simp [evalPrecision, hc]

theorem evalPrecision_spelled (d : Directive) {f : Field} (hf : f.Digits)
    {c : Char} (hc : f.Stops c) (rest : List Char) :
    evalPrecision d ('.' :: (f.text ++ c :: rest))
      = .ok (f.asPrecision { d with flags := { d.flags with precision := true } }, c :: rest) := by
  cases f with
  | absent =>
      obtain ⟨hdigit, hstar⟩ := hc
      simp [Field.text, evalPrecision, hdigit, hstar, Field.asPrecision]
  | number e es =>
      have hnum := atoi_spelled (e :: es) hf 0 hc rest
      rw [Nat.zero_mod] at hnum
      have he : isDigit e = true := hf e (by simp)
      simp only [Field.text, List.cons_append, evalPrecision, he, if_true] at hnum ⊢
      rw [hnum]
      rfl
  | star => simp [Field.text, evalPrecision, isDigit_star, Field.asPrecision]

theorem evalLength_spelled (flags : Flags) {length : List Char} (hlength : length ∈ LENGTHS)
    {c : Char} (hc : LengthStops length c) (rest : List Char) :
    evalLength flags (length ++ c :: rest) = .ok (lengthFlags flags length, c :: rest) := by
  obtain ⟨hnone, hl, hh⟩ := hc
  simp only [LENGTHS, List.mem_cons, List.not_mem_nil, or_false] at hlength
  rcases hlength with rfl | rfl | rfl | rfl | rfl | rfl | rfl | rfl
  · have hc' := hnone rfl
    simp only [List.mem_cons, List.not_mem_nil, or_false, not_or] at hc'
    obtain ⟨h₁, h₂, h₃, h₄, h₅⟩ := hc'
    simp [evalLength, lengthFlags, h₁, h₂, h₃, h₄, h₅]
  · simp [evalLength, lengthFlags, hl rfl]
  · simp [evalLength, lengthFlags]
  · simp [evalLength, lengthFlags, hh rfl]
  · simp [evalLength, lengthFlags]
  · simp [evalLength, lengthFlags]
  · simp [evalLength, lengthFlags]
  · simp [evalLength, lengthFlags]

/-- A part of a directive is not empty: the specifier is behind it. -/
theorem Spelling.exists_behindPrecision (sp : Spelling) :
    ∃ c cs, sp.behindPrecision = c :: cs := by
  unfold Spelling.behindPrecision
  cases sp.length with
  | nil => exact ⟨_, _, rfl⟩
  | cons c cs => exact ⟨_, _, rfl⟩

theorem Spelling.exists_behindWidth (sp : Spelling) : ∃ c cs, sp.behindWidth = c :: cs := by
  unfold Spelling.behindWidth
  cases sp.precision with
  | none => exact sp.exists_behindPrecision
  | some f => exact ⟨_, _, rfl⟩

theorem Spelling.exists_behindFlags (sp : Spelling) : ∃ c cs, sp.behindFlags = c :: cs := by
  unfold Spelling.behindFlags
  obtain ⟨c, cs, h⟩ := sp.exists_behindWidth
  cases sp.width.text with
  | nil => exact ⟨c, cs, h⟩
  | cons e es => exact ⟨_, _, rfl⟩

/-- The fields of a spelled directive are read as they are meant. -/
theorem evalFields_spelled {sp : Spelling} (hok : sp.Ok) (va : Va) (rest : List Char) :
    evalFields va (sp.text ++ rest) = .ok (sp.directive va, sp.spec :: rest) := by
  obtain ⟨c₀, r₀, h₀⟩ := sp.exists_behindFlags
  obtain ⟨c₁, r₁, h₁⟩ := sp.exists_behindWidth
  obtain ⟨c₂, r₂, h₂⟩ := sp.exists_behindPrecision
  have hflags := evalFlags_spelled sp.flags hok.flags noFlags
    (hok.behindFlags c₀ (by rw [h₀]; rfl)) (r₀ ++ rest)
  have hwidth := evalWidth_spelled ⟨flagsOf sp.flags, 0, 0, va⟩ hok.width
    (hok.behindWidth c₁ (by rw [h₁]; rfl)) (r₁ ++ rest)
  have hlength := fun flags => evalLength_spelled flags hok.length hok.spec rest
  -- each stage leaves the text that the next one is about
  have htext : sp.text ++ rest = sp.flags ++ c₀ :: (r₀ ++ rest) := by
    simp [Spelling.text, h₀]
  have hbehind : c₀ :: (r₀ ++ rest) = sp.width.text ++ c₁ :: (r₁ ++ rest) := by
    rw [← List.cons_append, ← h₀, Spelling.behindFlags, h₁]
    simp
  have hlast : c₂ :: (r₂ ++ rest) = sp.length ++ sp.spec :: rest := by
    rw [← List.cons_append, ← h₂, Spelling.behindPrecision]
    simp
  unfold evalFields
  rw [htext, hflags]
  simp only [bind, Except.bind]
  rw [hbehind]
  unfold flagsOf at hwidth
  rw [hwidth]
  simp only [Spelling.directive, flagsOf]
  cases hprec : sp.precision with
  | none =>
      have hc₁ : c₁ :: r₁ = c₂ :: r₂ := by
        rw [← h₁, ← h₂, Spelling.behindWidth, hprec]
      have hpoint : c₂ ≠ '.' := by
        intro h
        exact hok.noPoint hprec (by rw [h₂, h]; rfl)
      simp only [List.cons.injEq] at hc₁
      rw [hc₁.1, hc₁.2, evalPrecision_absent _ hpoint]
      simp only [hlast, hlength]
  | some f =>
      have hc₁ : c₁ :: (r₁ ++ rest) = '.' :: (f.text ++ c₂ :: (r₂ ++ rest)) := by
        rw [← List.cons_append, ← h₁, Spelling.behindWidth, hprec]
        simp [h₂]
      rw [hc₁, evalPrecision_spelled _ (hok.precision f hprec)
        (hok.behindPrecision f hprec c₂ (by rw [h₂]; rfl))]
      simp only [hlast, hlength]

theorem directiveText_spelled (string : Word → List Char) {sp : Spelling} (hok : sp.Ok) (va : Va)
    (rest : List Char) :
    directiveText string (sp.text ++ rest) va
      = (specifierText string sp.spec (sp.directive va)).map fun r => (r.1, rest, r.2) := by
  unfold directiveText
  rw [evalFields_spelled hok]
  simp only [bind, Except.bind]
  cases specifierText string sp.spec (sp.directive va) <;> rfl

/-! ## Reading a spelled format -/

theorem spell_cons (p : Piece) (ps : List Piece) : spell (p :: ps) = p.text ++ spell ps :=
  List.flatMap_cons

theorem textLoop_spelled (string : Word → List Char) {ps : List Piece} (hok : ∀ p ∈ ps, p.Ok)
    (rest : List Char) (va : Va) {n : Nat} (hn : (spell ps).length < n) :
    textLoop string n (spell ps ++ NUL :: rest) va = render string ps va := by
  induction ps generalizing n va with
  | nil =>
      obtain ⟨n, rfl⟩ : ∃ m, n = m + 1 := ⟨n - 1, by omega⟩
      simp [spell, textLoop, render]
  | cons p ps ih =>
      obtain ⟨n, rfl⟩ : ∃ m, n = m + 1 := ⟨n - 1, by omega⟩
      have hp := hok p (by simp)
      have hps := fun va n => ih (fun q hq => hok q (by simp [hq])) va (n := n)
      rw [spell_cons, List.length_append] at hn
      rw [spell_cons, List.append_assoc]
      cases p with
      | lit c =>
          obtain ⟨hnul, hpercent⟩ := hp
          simp only [Piece.text, List.length_singleton] at hn
          rw [Piece.text, List.singleton_append, textLoop, if_neg hnul, if_pos hpercent,
            hps va n (by omega)]
          rfl
      | conv sp =>
          simp only [Piece.text, List.length_cons] at hn
          rw [Piece.text, List.cons_append, textLoop, if_neg (by decide), if_neg (by decide),
            directiveText_spelled string hp.1, render]
          cases specifierText string sp.spec (sp.directive va) with
          | error e => rfl
          | ok r =>
              simp only [Except.map, bind, Except.bind]
              rw [hps r.2 n (by omega)]

/-- **A format means what its pieces mean.** Whatever the output function, `_vsnprintf` puts out
the characters of the pieces one after the other, each directive with the arguments that those in
front of it have left. What a directive is read as and puts out is the code's own. -/
theorem vsnprintf_spelled {B : Type} (out : OutFct B) (maxlen : Nat) (string : Word → List Char)
    (buffer : B) {ps : List Piece} (hok : ∀ p ∈ ps, p.Ok) (rest : List Char) (va : Va) :
    vsnprintf out maxlen string buffer (spell ps ++ NUL :: rest) va
      = (render string ps va).map fun cs =>
          (returned cs,
            out NUL (puts out maxlen ⟨buffer, 0⟩ cs).buffer (lastIdx maxlen cs) maxlen) := by
  rw [vsnprintf_eq, formatText, textLoop_spelled string hok]
  simp

/-- The pieces of `n=%-5ld`. -/
def leftLong : List Piece :=
  [.lit 'n', .lit '=', .conv ⟨['-'], .number '5' [], none, ['l'], 'd'⟩]

theorem leftLong_ok : ∀ p ∈ leftLong, p.Ok := by
  simp only [leftLong, List.mem_cons, List.not_mem_nil, or_false, forall_eq_or_imp, forall_eq]
  refine ⟨⟨by decide, by decide⟩, ⟨by decide, by decide⟩, ?_, by decide⟩
  exact ⟨List.forall_mem_singleton.mpr (by decide), by simp [Field.Digits]; decide, by simp,
    by decide,
    by simp [Spelling.behindFlags, Field.text]; decide,
    by simp [Spelling.behindWidth, Spelling.behindPrecision, Field.Stops]; decide,
    by simp [Spelling.behindPrecision], by simp, by simp [LengthStops]⟩

theorem vsnprintf_spelled_left :
    vprintf (fun _ => [NUL]) [] "n=%-5ld\x00".toList (fun _ => -7)
      = .ok (7, "n=-7   ".toList) := by
  have h := vsnprintf_spelled outChar SIZE_MAX (fun _ => [NUL]) [] leftLong_ok [] (fun _ => -7)
  exact h.trans (by decide)

/-! ## Formats that end too early -/

/-- The text in front of the first character that `p` does not hold of. -/
theorem exists_prefix (p : Char → Bool) (hnul : p NUL = false) {cs : List Char}
    (h : NUL ∈ cs) : ∃ ds c rest, cs = ds ++ c :: rest ∧ (∀ d ∈ ds, p d = true) ∧ p c = false
      ∧ NUL ∈ c :: rest := by
  induction cs with
  | nil => cases h
  | cons c cs ih =>
      cases hc : p c with
      | false => exact ⟨[], c, cs, rfl, by simp, hc, h⟩
      | true =>
          have hne : c ≠ NUL := by
            rintro rfl
            rw [hnul] at hc
            cases hc
          obtain ⟨ds, e, rest, rfl, hds, he, hrest⟩ :=
            ih ((List.mem_cons.mp h).resolve_left (Ne.symm hne))
          refine ⟨c :: ds, e, rest, rfl, ?_, he, hrest⟩
          intro d hd
          rcases List.mem_cons.mp hd with rfl | hd
          · exact hc
          · exact hds d hd

theorem exists_field {cs : List Char} (h : NUL ∈ cs) :
    ∃ f c rest, cs = Field.text f ++ c :: rest ∧ f.Digits ∧ f.Stops c ∧ NUL ∈ c :: rest := by
  obtain ⟨ds, c, rest, rfl, hds, hc, hrest⟩ := exists_prefix isDigit (by decide) h
  cases ds with
  | cons d ds => exact ⟨.number d ds, c, rest, rfl, hds, hc, hrest⟩
  | nil =>
      by_cases hstar : c = '*'
      · subst hstar
        have hmem : NUL ∈ rest := (List.mem_cons.mp hrest).resolve_left (by decide)
        obtain ⟨e, es, rfl⟩ := List.exists_cons_of_ne_nil (List.ne_nil_of_mem hmem)
        exact ⟨.star, e, es, rfl, trivial, trivial, hmem⟩
      · exact ⟨.absent, c, rest, rfl, trivial, ⟨hc, hstar⟩, hrest⟩

theorem exists_length {cs : List Char} (h : NUL ∈ cs) :
    ∃ len c rest, cs = len ++ c :: rest ∧ len ∈ LENGTHS ∧ LengthStops len c ∧ NUL ∈ c :: rest := by
  obtain ⟨c, cs, rfl⟩ := List.exists_cons_of_ne_nil (List.ne_nil_of_mem h)
  have behind : ∀ e es, NUL ∈ e :: es → e ≠ NUL → ∃ d ds, es = d :: ds ∧ NUL ∈ d :: ds := by
    intro e es hmem hne
    have hes := (List.mem_cons.mp hmem).resolve_left (Ne.symm hne)
    obtain ⟨d, ds, rfl⟩ := List.exists_cons_of_ne_nil (List.ne_nil_of_mem hes)
    exact ⟨d, ds, rfl, hes⟩
  by_cases hmem : c ∈ ['l', 'h', 't', 'j', 'z']
  · have hne : c ≠ NUL := by
      rintro rfl
      exact absurd hmem (by decide)
    obtain ⟨d, ds, rfl, hds⟩ := behind c cs h hne
    by_cases htwice : d = c ∧ (c = 'l' ∨ c = 'h')
    · obtain ⟨rfl, hc⟩ := htwice
      obtain ⟨e, es, rfl, hes⟩ := behind d ds hds hne
      rcases hc with rfl | rfl
      · exact ⟨['l', 'l'], e, es, rfl, by decide, by simp [LengthStops], hes⟩
      · exact ⟨['h', 'h'], e, es, rfl, by decide, by simp [LengthStops], hes⟩
    · refine ⟨[c], d, ds, rfl, ?_, ⟨by simp, ?_, ?_⟩, hds⟩
      · simp only [List.mem_cons, List.not_mem_nil, or_false] at hmem
        rcases hmem with rfl | rfl | rfl | rfl | rfl <;> decide
      · intro hl hd
        simp only [List.cons.injEq, and_true] at hl
        exact htwice ⟨hd.trans hl.symm, .inl hl⟩
      · intro hh hd
        simp only [List.cons.injEq, and_true] at hh
        exact htwice ⟨hd.trans hh.symm, .inr hh⟩
  · exact ⟨[], c, cs, rfl, by decide, ⟨fun _ => hmem, by simp, by simp⟩, h⟩

/-- Behind a `%` a directive is spelled, if only with the terminator in the place of its
specifier. -/
theorem exists_spelling {cs : List Char} (h : NUL ∈ cs) :
    ∃ sp rest, cs = Spelling.text sp ++ rest ∧ sp.Ok ∧ NUL ∈ sp.spec :: rest := by
  obtain ⟨flags, c₀, r₀, rfl, hflags, hc₀, hr₀⟩ := exists_prefix isFlag (by decide) h
  obtain ⟨width, c₁, r₁, hwidth, hdigits, hstops, hr₁⟩ := exists_field hr₀
  by_cases hpoint : c₁ = '.'
  · subst hpoint
    have hr₁' : NUL ∈ r₁ := (List.mem_cons.mp hr₁).resolve_left (by decide)
    obtain ⟨prec, c₂, r₂, rfl, hdigits₂, hstops₂, hr₂⟩ := exists_field hr₁'
    obtain ⟨length, spec, rest, hlength, hmem, hlast, hrest⟩ := exists_length hr₂
    refine ⟨⟨flags, width, some prec, length, spec⟩, rest, ?_, ?_, hrest⟩
    · simp [Spelling.text, Spelling.behindFlags, Spelling.behindWidth, Spelling.behindPrecision,
        hwidth, hlength]
    · have hhead : (length ++ [spec]).head? = some c₂ := by
        cases length <;> simp_all
      have hhead₀ : (width.text ++ '.' :: (prec.text ++ (length ++ [spec]))).head? = some c₀ := by
        cases htext : width.text <;> simp_all
      refine ⟨hflags, hdigits, ?_, hmem, ?_, ?_, by simp, ?_, hlast⟩
      · intro f hf
        exact Option.some.inj hf ▸ hdigits₂
      · intro c hc
        simp only [Spelling.behindFlags, Spelling.behindWidth, Spelling.behindPrecision, hhead₀,
          Option.mem_def, Option.some.injEq] at hc
        exact hc ▸ hc₀
      · intro c hc
        simp only [Spelling.behindWidth, List.head?_cons, Option.mem_def, Option.some.injEq] at hc
        exact hc ▸ hstops
      · intro f hf c hc
        simp only [Spelling.behindPrecision, hhead, Option.mem_def, Option.some.injEq] at hc
        exact hc ▸ Option.some.inj hf ▸ hstops₂
  · obtain ⟨length, spec, rest, hlength, hmem, hlast, hrest⟩ := exists_length hr₁
    refine ⟨⟨flags, width, none, length, spec⟩, rest, ?_, ?_, hrest⟩
    · simp [Spelling.text, Spelling.behindFlags, Spelling.behindWidth, Spelling.behindPrecision,
        hwidth, hlength]
    · have hhead : (length ++ [spec]).head? = some c₁ := by
        cases length <;> simp_all
      have hhead₀ : (width.text ++ (length ++ [spec])).head? = some c₀ := by
        cases htext : width.text with
        | nil =>
            rw [htext, List.nil_append, List.cons.injEq] at hwidth
            rw [List.nil_append, hhead, hwidth.1]
        | cons e es =>
            rw [htext, List.cons_append, List.cons.injEq] at hwidth
            rw [List.cons_append, List.head?_cons, hwidth.1]
      refine ⟨hflags, hdigits, by simp, hmem, ?_, ?_, ?_, by simp, hlast⟩
      · intro c hc
        simp only [Spelling.behindFlags, Spelling.behindWidth, Spelling.behindPrecision, hhead₀,
          Option.mem_def, Option.some.injEq] at hc
        exact hc ▸ hc₀
      · intro c hc
        simp only [Spelling.behindWidth, Spelling.behindPrecision, hhead, Option.mem_def,
          Option.some.injEq] at hc
        exact hc ▸ hstops
      · intro _ hc
        simp only [Spelling.behindPrecision, hhead, Option.some.injEq] at hc
        exact hpoint hc

/-! ### Strings that end -/

theorem strnlenS_ends {s : List Char} (h : NUL ∈ s) (maxsize : Nat) :
    ∃ l, strnlenS s maxsize = .ok l := by
  induction s generalizing maxsize with
  | nil => cases h
  | cons c s ih =>
      by_cases hc : c = NUL
      · exact ⟨0, by unfold strnlenS; rw [if_pos hc]⟩
      · cases maxsize with
        | zero => exact ⟨0, by rw [strnlenS, if_neg hc]⟩
        | succ n =>
            obtain ⟨l, hl⟩ := ih ((List.mem_cons.mp h).resolve_left (Ne.symm hc)) n
            exact ⟨l + 1, by rw [strnlenS, if_neg hc, hl]; rfl⟩

theorem strChars_ends {s : List Char} (h : NUL ∈ s) (limit : Option Nat) :
    ∃ cs, strChars s limit = .ok cs := by
  induction s generalizing limit with
  | nil => cases h
  | cons c s ih =>
      by_cases hc : c = NUL
      · exact ⟨[], by unfold strChars; rw [if_pos hc]⟩
      · have hs := (List.mem_cons.mp h).resolve_left (Ne.symm hc)
        match limit with
        | some 0 => exact ⟨[], by rw [strChars, if_neg hc]⟩
        | some (n + 1) =>
            obtain ⟨cs, hcs⟩ := ih hs (some n)
            exact ⟨c :: cs, by rw [strChars, if_neg hc, hcs]; rfl⟩
        | none =>
            obtain ⟨cs, hcs⟩ := ih hs none
            exact ⟨c :: cs, by rw [strChars, if_neg hc, hcs]; rfl⟩

section Ends

variable {string : Word → List Char} (ends : ∀ p, NUL ∈ string p)

include ends

theorem stringText_ends (d : Directive) : ∃ cs, stringText string d = .ok cs := by
  obtain ⟨l, hl⟩ := strnlenS_ends (ends (d.va 0)) (if d.prec ≠ 0 then d.prec else SIZE_MAX)
  obtain ⟨cs, hcs⟩ := strChars_ends (ends (d.va 0))
    (if d.flags.precision then some d.prec else none)
  unfold stringText
  simp only [bind, Except.bind, hl, hcs]
  exact ⟨_, rfl⟩

theorem specifierText_ends (spec : Char) (d : Directive) :
    ∃ r, specifierText string spec d = .ok r := by
  obtain ⟨cs, hcs⟩ := stringText_ends ends d
  unfold specifierText
  split_ifs
  · exact ⟨_, rfl⟩
  · exact ⟨_, rfl⟩
  · exact ⟨_, by simp only [bind, Except.bind, hcs]; rfl⟩
  · exact ⟨_, rfl⟩
  · exact ⟨_, rfl⟩

theorem render_ends (ps : List Piece) (va : Va) : ∃ cs, render string ps va = .ok cs := by
  induction ps generalizing va with
  | nil => exact ⟨[], rfl⟩
  | cons p ps ih =>
      cases p with
      | lit c =>
          obtain ⟨cs, hcs⟩ := ih va
          exact ⟨c :: cs, by rw [render, hcs]; rfl⟩
      | conv sp =>
          obtain ⟨r, hr⟩ := specifierText_ends ends sp.spec (sp.directive va)
          obtain ⟨cs, hcs⟩ := ih r.2
          exact ⟨r.1 ++ cs, by simp only [render, hr, bind, Except.bind, hcs]; rfl⟩

/-- Behind a directive with which the object ends, the loop reads on. -/
theorem textLoop_unfinished {ps : List Piece} (hok : ∀ p ∈ ps, p.Ok) {sp : Spelling} (hsp : sp.Ok)
    (n : Nat) (va : Va) :
    textLoop string n (spell ps ++ '%' :: sp.text) va = .error .format := by
  induction n generalizing ps va with
  | zero => rfl
  | succ n ih =>
      cases ps with
      | nil =>
          have hread := directiveText_spelled string hsp va []
          obtain ⟨r, hr⟩ := specifierText_ends ends sp.spec (sp.directive va)
          rw [List.append_nil, hr] at hread
          simp only [spell, List.flatMap_nil, List.nil_append, textLoop]
          rw [if_neg (by decide), if_neg (by decide), hread]
          simp only [Except.map, bind, Except.bind]
          cases n <;> rfl
      | cons p ps =>
          have hok' : ∀ q ∈ ps, q.Ok := fun q hq => hok q (by simp [hq])
          have hps := fun va => ih hok' va
          rw [spell_cons, List.append_assoc]
          cases p with
          | lit c =>
              obtain ⟨hnul, hpercent⟩ := hok (.lit c) (by simp)
              rw [Piece.text, List.singleton_append, textLoop, if_neg hnul, if_pos hpercent, hps]
              rfl
          | conv sp' =>
              obtain ⟨r, hr⟩ := specifierText_ends ends sp'.spec (sp'.directive va)
              rw [Piece.text, List.cons_append, textLoop, if_neg (by decide), if_neg (by decide),
                directiveText_spelled string (hok (.conv sp') (by simp)).1, hr]
              simp only [Except.map, bind, Except.bind]
              rw [hps]
              rfl

end Ends

/-- Every format is spelled by pieces, up to a directive that it ends in. -/
theorem exists_spell {cs : List Char} (h : NUL ∉ cs) :
    ∃ ps, (∀ p ∈ ps, Piece.Ok p) ∧ (cs = spell ps
      ∨ ∃ sp : Spelling, sp.Ok ∧ sp.spec = NUL ∧ cs ++ [NUL] = spell ps ++ '%' :: sp.text) := by
  induction hlen : cs.length using Nat.strong_induction_on generalizing cs with
  | _ n ih =>
      cases cs with
      | nil => exact ⟨[], by simp, .inl rfl⟩
      | cons c cs =>
          simp only [List.mem_cons, not_or] at h
          obtain ⟨hnul, hcs⟩ := h
          -- what is spelled behind a piece is spelled with it
          have more : ∀ p rest, Piece.Ok p → c :: cs = p.text ++ rest →
              rest.length < n → ∃ ps, (∀ p ∈ ps, Piece.Ok p) ∧ (c :: cs = spell ps
                ∨ ∃ sp : Spelling, sp.Ok ∧ sp.spec = NUL
                  ∧ c :: cs ++ [NUL] = spell ps ++ '%' :: sp.text) := by
            intro p rest hp heq hlt
            have hrest : NUL ∉ rest := by
              intro hmem
              have : NUL ∈ c :: cs := heq ▸ List.mem_append_right _ hmem
              rcases List.mem_cons.mp this with rfl | hin
              · exact hnul rfl
              · exact hcs hin
            obtain ⟨ps, hps, hspell⟩ := ih rest.length hlt hrest rfl
            refine ⟨p :: ps, ?_, ?_⟩
            · intro q hq
              rcases List.mem_cons.mp hq with rfl | hq
              · exact hp
              · exact hps q hq
            · rcases hspell with rfl | ⟨sp, hsp, hspec, htext⟩
              · exact .inl (heq.trans (spell_cons p ps).symm)
              · refine .inr ⟨sp, hsp, hspec, ?_⟩
                rw [heq, List.append_assoc, htext, spell_cons, List.append_assoc]
          simp only [List.length_cons] at hlen
          by_cases hpercent : c = '%'
          · subst hpercent
            obtain ⟨sp, rest, htext, hsp, hmem⟩ :=
              exists_spelling (List.mem_append_right cs (List.mem_singleton.mpr rfl))
            rcases List.eq_nil_or_concat rest with rfl | ⟨rest, e, rfl⟩
            · -- the terminator is the specifier
              refine ⟨[], by simp, .inr ⟨sp, hsp, ?_, ?_⟩⟩
              · exact (List.mem_singleton.mp hmem).symm
              · rw [List.append_nil] at htext
                simp [spell, htext]
            · have hsplit : cs ++ [NUL] = sp.text ++ rest ++ [e] := by
                rw [htext, List.concat_eq_append, List.append_assoc]
              obtain ⟨rfl, -⟩ := List.append_inj' hsplit rfl
              have hspec : sp.spec ≠ NUL := by
                intro hs
                refine hcs (List.mem_append_left _ ?_)
                simp [Spelling.text, Spelling.behindFlags, Spelling.behindWidth,
                  Spelling.behindPrecision]
                cases sp.precision <;> simp [hs]
              exact more (.conv sp) rest ⟨hsp, hspec⟩ rfl (by simp at hlen; omega)
          · exact more (.lit c) cs ⟨Ne.symm hnul, hpercent⟩ rfl (by omega)

/-- **When a call stays inside its format.** With string arguments that end, `_vsnprintf` returns
if and only if the format is spelled by characters and complete directives; when it ends within a
directive, the loop goes on behind the terminator. -/
theorem vsnprintf_inside_iff {B : Type} (out : OutFct B) (maxlen : Nat)
    {string : Word → List Char} (ends : ∀ p, NUL ∈ string p) (buffer : B) {cs : List Char}
    (h : NUL ∉ cs) (va : Va) :
    ((∃ r, vsnprintf out maxlen string buffer (cs ++ [NUL]) va = .ok r)
        ↔ ∃ ps, (∀ p ∈ ps, Piece.Ok p) ∧ cs = spell ps)
      ∧ ((¬ ∃ r, vsnprintf out maxlen string buffer (cs ++ [NUL]) va = .ok r)
        → vsnprintf out maxlen string buffer (cs ++ [NUL]) va = .error .format) := by
  obtain ⟨ps, hok, rfl | ⟨sp, hsp, -, htext⟩⟩ := exists_spell h
  · obtain ⟨text, hrender⟩ := render_ends ends ps va
    have hret := vsnprintf_spelled out maxlen string buffer hok [] va
    rw [hrender] at hret
    exact ⟨⟨fun _ => ⟨ps, hok, rfl⟩, fun _ => ⟨_, hret⟩⟩, fun hno => absurd ⟨_, hret⟩ hno⟩
  · have herr : vsnprintf out maxlen string buffer (cs ++ [NUL]) va = .error .format := by
      rw [vsnprintf_eq, formatText, htext, textLoop_unfinished ends hok hsp]
      rfl
    refine ⟨⟨?_, ?_⟩, fun _ => herr⟩
    · rintro ⟨r, hr⟩
      rw [herr] at hr
      cases hr
    · rintro ⟨qs, hqs, rfl⟩
      obtain ⟨text, hrender⟩ := render_ends ends qs va
      have hret := vsnprintf_spelled out maxlen string buffer hqs [] va
      rw [hrender, herr] at hret
      cases hret

/-- `100%` is read behind its end, by a call with no other arguments. -/
theorem vsnprintf_inside_iff_percent :
    vprintf (fun _ => [NUL]) [] "100%\x00".toList (fun _ => 0) = .error .format := by
  have hnul : NUL ∉ "100%".toList := by decide
  have ends : ∀ p : Word, NUL ∈ (fun _ : Word => [NUL]) p := fun _ => List.mem_singleton.mpr rfl
  refine (vsnprintf_inside_iff outChar SIZE_MAX ends [] hnul (fun _ => 0)).2 ?_
  have herr : vsnprintf outChar SIZE_MAX (fun _ => [NUL]) [] ("100%".toList ++ [NUL]) (fun _ => 0)
      = .error .format := by
    decide
  rw [herr]
  rintro ⟨r, hr⟩
  cases hr

end NoobKernel.Misc.Printf
