import NoobKernel.Misc.Printf

set_option autoImplicit false

/-! # What is put out (`misc/printf.c`)

`formatText` is the text of a format: the characters that `_vsnprintf` hands to its output
function. It is the same for every output function, and the indices count it up from zero
(`vsnprintf_eq`). So a call that prints and one that fills a buffer agree, and the buffer holds
the beginning of the text (`snprintf_truncates`). A terminator in the text, which `%c` and a format
that ends in a directive put there, is stored in a buffer and not printed.
-/

namespace NoobKernel.Misc.Printf

/-! ## The text of a conversion -/

def revText (buf : List Char) (width : Nat) (flags : Flags) : List Char :=
  if flags.left then buf.reverse ++ List.replicate (width - buf.length) ' '
  else if flags.zeropad then buf.reverse
  else List.replicate (width - buf.length) ' ' ++ buf.reverse

def ntoaFormatText (buf : List Char) (negative : Bool) (base prec width : Nat) (flags : Flags) :
    List Char :=
  let width := if flags.left then width else fillWidth negative width flags
  revText (formatBuf buf negative base prec width flags) width flags

def ntoaText (value : Nat) (negative : Bool) (base prec width : Nat) (flags : Flags) : List Char :=
  let flags := if value = 0 then { flags with hash := false } else flags
  ntoaFormatText (digitBuf value base flags) negative base prec width flags

def integerText (spec : Char) (d : Directive) : List Char :=
  let base := specBase spec
  let flags := specFlags spec d.flags
  if spec = 'i' ∨ spec = 'd' then
    let value := signedArg flags (d.va 0)
    ntoaText value.natAbs (decide (value < 0)) base d.prec d.width flags
  else ntoaText (unsignedArg flags (d.va 0)) false base d.prec d.width flags

/-- `cs` in a field of `width` characters, where `l` of them are counted. -/
def fieldText (flags : Flags) (width l : Nat) (cs : List Char) : List Char :=
  if flags.left then cs ++ List.replicate (width - l) ' '
  else List.replicate (width - l) ' ' ++ cs

def charText (d : Directive) : List Char :=
  fieldText d.flags d.width 1 [Char.ofNat ((d.va 0).setWidth 8).toNat]

def pointerText (d : Directive) : List Char :=
  ntoaText (d.va 0).toNat false 16 d.prec 16 { d.flags with zeropad := true, uppercase := true }

section Text

variable (string : Word → List Char)

def stringText (d : Directive) : Except Fault (List Char) := do
  let p := string (d.va 0)
  let l ← strnlenS p (if d.prec ≠ 0 then d.prec else SIZE_MAX)
  let l := l % 2 ^ 32
  let l := if d.flags.precision then min l d.prec else l
  let cs ← strChars p (if d.flags.precision then some d.prec else none)
  .ok (fieldText d.flags d.width l cs)

def specifierText (spec : Char) (d : Directive) : Except Fault (List Char × Va) :=
  if spec ∈ ['d', 'i', 'u', 'x', 'X', 'o', 'b'] then .ok (integerText spec d, d.va.next)
  else if spec = 'c' then .ok (charText d, d.va.next)
  else if spec = 's' then do
    let cs ← stringText string d
    .ok (cs, d.va.next)
  else if spec = 'p' then .ok (pointerText d, d.va.next)
  else .ok ([spec], d.va)

/-- The text of a directive, with the rest of the format and of the arguments. -/
def directiveText (format : List Char) (va : Va) : Except Fault (List Char × List Char × Va) := do
  let (d, format) ← evalFields va format
  match format with
  | [] => .error .format
  | spec :: format =>
      let (cs, va) ← specifierText string spec d
      .ok (cs, format, va)

def textLoop : Nat → List Char → Va → Except Fault (List Char)
  | 0, _, _ => .error .format
  | _ + 1, [], _ => .error .format
  | n + 1, c :: format, va =>
      if c = NUL then .ok []
      else if c ≠ '%' then (c :: ·) <$> textLoop n format va
      else do
        let (cs, format, va) ← directiveText string format va
        (cs ++ ·) <$> textLoop n format va

def formatText (format : List Char) (va : Va) : Except Fault (List Char) :=
  textLoop string format.length format va

end Text

/-! ## Every output function gets the text -/

section Puts

variable {B : Type} (out : OutFct B) (maxlen : Nat)

@[simp] theorem puts_nil (s : Sink B) : puts out maxlen s [] = s := rfl

@[simp] theorem puts_cons (s : Sink B) (c : Char) (cs : List Char) :
    puts out maxlen s (c :: cs) = puts out maxlen (put out maxlen s c) cs := rfl

@[simp] theorem puts_append (s : Sink B) (cs ds : List Char) :
    puts out maxlen s (cs ++ ds) = puts out maxlen (puts out maxlen s cs) ds := by
  simp [puts, List.foldl_append]

@[simp] theorem puts_idx (s : Sink B) (cs : List Char) :
    (puts out maxlen s cs).idx = s.idx + cs.length := by
  induction cs generalizing s with
  | nil => rfl
  | cons c cs ih =>
      rw [puts_cons, ih, List.length_cons]
      simp only [put]
      omega

theorem outRev_eq (buf : List Char) (width : Nat) (flags : Flags) (s : Sink B) :
    outRev out maxlen buf width flags s = puts out maxlen s (revText buf width flags) := by
  unfold outRev revText padding
  cases hleft : flags.left <;> cases hzero : flags.zeropad <;> simp

theorem ntoaFormat_eq (buf : List Char) (negative : Bool) (base prec width : Nat) (flags : Flags)
    (s : Sink B) :
    ntoaFormat out maxlen buf negative base prec width flags s
      = puts out maxlen s (ntoaFormatText buf negative base prec width flags) :=
  outRev_eq out maxlen _ _ _ s

theorem ntoa_eq (value : Nat) (negative : Bool) (base prec width : Nat) (flags : Flags)
    (s : Sink B) :
    ntoa out maxlen value negative base prec width flags s
      = puts out maxlen s (ntoaText value negative base prec width flags) :=
  ntoaFormat_eq out maxlen _ _ _ _ _ _ s

theorem convInteger_eq (spec : Char) (d : Directive) (s : Sink B) :
    convInteger out maxlen spec d s = puts out maxlen s (integerText spec d) := by
  unfold convInteger integerText
  simp only [ntoa_eq]
  split <;> rfl

theorem convChar_eq (d : Directive) (s : Sink B) :
    convChar out maxlen d s = puts out maxlen s (charText d) := by
  unfold convChar charText fieldText padding
  cases d.flags.left <;> simp

theorem convPointer_eq (d : Directive) (s : Sink B) :
    convPointer out maxlen d s = puts out maxlen s (pointerText d) :=
  ntoa_eq out maxlen _ _ _ _ _ _ s

variable (string : Word → List Char)

theorem convString_eq (d : Directive) (s : Sink B) :
    convString out maxlen string d s = (stringText string d).map (puts out maxlen s) := by
  unfold convString stringText fieldText padding
  dsimp only [bind, Except.bind, Except.map]
  generalize strnlenS (string (d.va 0)) (if d.prec ≠ 0 then d.prec else SIZE_MAX) = len
  generalize strChars (string (d.va 0)) (if d.flags.precision then some d.prec else none) = text
  cases len with
  | error e => rfl
  | ok l =>
      cases text with
      | error e => rfl
      | ok cs => cases d.flags.left <;> simp

theorem evalSpecifier_eq (spec : Char) (d : Directive) (s : Sink B) :
    evalSpecifier out maxlen string spec d s
      = (specifierText string spec d).map fun r => (puts out maxlen s r.1, r.2) := by
  unfold evalSpecifier specifierText
  split_ifs
  · rw [convInteger_eq]; rfl
  · rw [convChar_eq]; rfl
  · rw [convString_eq]
    cases stringText string d <;> rfl
  · rw [convPointer_eq]; rfl
  · rfl

theorem evalDirective_eq (format : List Char) (va : Va) (s : Sink B) :
    evalDirective out maxlen string format va s
      = (directiveText string format va).map fun r => (puts out maxlen s r.1, r.2) := by
  unfold evalDirective directiveText
  cases evalFields va format with
  | error e => rfl
  | ok r =>
      obtain ⟨d, format⟩ := r
      cases format with
      | nil => rfl
      | cons spec format =>
          simp only [bind, Except.bind, evalSpecifier_eq]
          cases specifierText string spec d <;> rfl

theorem vsnprintfLoop_eq (n : Nat) (format : List Char) (va : Va) (s : Sink B) :
    vsnprintfLoop out maxlen string n format va s
      = (textLoop string n format va).map (puts out maxlen s) := by
  induction n generalizing format va s with
  | zero => rfl
  | succ n ih =>
      cases format with
      | nil => rfl
      | cons c format =>
          unfold vsnprintfLoop textLoop
          split_ifs with hnul hpercent
          · rfl
          · rw [ih]
            cases textLoop string n format va <;> rfl
          · rw [evalDirective_eq]
            cases directiveText string format va with
            | error e => rfl
            | ok r =>
                obtain ⟨cs, format, va⟩ := r
                simp only [bind, Except.bind, Except.map, ih]
                cases textLoop string n format va with
                | error e => rfl
                | ok ds => simp [Functor.map, Except.map]

/-- The returned number of characters, as the `int` it is converted to. -/
def returned (cs : List Char) : Int := (BitVec.ofNat 32 cs.length).toInt

/-- Where the terminator goes. -/
def lastIdx (cs : List Char) : Nat :=
  if cs.length < maxlen then cs.length else (maxlen + 2 ^ 64 - 1) % 2 ^ 64

theorem vsnprintf_eq (buffer : B) (format : List Char) (va : Va) :
    vsnprintf out maxlen string buffer format va
      = (formatText string format va).map fun cs =>
          (returned cs,
            out NUL (puts out maxlen ⟨buffer, 0⟩ cs).buffer (lastIdx maxlen cs) maxlen) := by
  unfold vsnprintf formatText lastIdx returned
  rw [vsnprintfLoop_eq]
  cases textLoop string format.length format va with
  | error e => simp only [bind, Except.bind, Except.map]
  | ok cs => simp only [bind, Except.bind, Except.map, puts_idx, Nat.zero_add]

end Puts

/-! ## The output functions -/

theorem puts_outBuffer (maxlen : Nat) (buffer : Buffer) (cs : List Char) (i : Nat) :
    (puts outBuffer maxlen ⟨buffer, 0⟩ cs).buffer i
      = if i < min cs.length maxlen then cs.getD i NUL else buffer i := by
  induction cs using List.reverseRecOn with
  | nil => simp
  | append_singleton cs c ih =>
      rw [puts_append, puts_cons, puts_nil]
      simp only [put, outBuffer, puts_idx, Nat.zero_add, List.length_append, List.length_singleton]
      by_cases hi : i = cs.length
      · subst hi
        by_cases hlt : cs.length < maxlen
        · rw [if_pos hlt, Function.update_self, if_pos (by omega)]
          simp [List.getD_eq_getElem?_getD]
        · rw [if_neg hlt, ih, if_neg (by omega), if_neg (by omega)]
      · have hget : i < cs.length → (cs ++ [c]).getD i NUL = cs.getD i NUL := by
          intro hlt
          simp [List.getD_eq_getElem?_getD, List.getElem?_append_left hlt]
        have hcond : i < min (cs.length + 1) maxlen ↔ i < min cs.length maxlen := by omega
        have hold : (if cs.length < maxlen then
            Function.update (puts outBuffer maxlen ⟨buffer, 0⟩ cs).buffer cs.length c
            else (puts outBuffer maxlen ⟨buffer, 0⟩ cs).buffer) i
              = (puts outBuffer maxlen ⟨buffer, 0⟩ cs).buffer i := by
          split_ifs
          · exact Function.update_of_ne hi _ _
          · rfl
        rw [hold, ih]
        split_ifs with h₁ h₂ h₂
        · rw [hget (by omega)]
        · exact absurd (hcond.mpr h₁) h₂
        · exact absurd (hcond.mp h₂) h₁
        · rfl

theorem puts_outNull (maxlen : Nat) (s : Sink Buffer) (cs : List Char) :
    (puts outNull maxlen s cs).buffer = s.buffer := by
  induction cs generalizing s with
  | nil => rfl
  | cons c cs ih => rw [puts_cons, ih]; rfl

theorem puts_outChar (maxlen : Nat) (s : Sink (List Char)) (cs : List Char) :
    (puts outChar maxlen s cs).buffer = s.buffer ++ cs.filter (· ≠ NUL) := by
  induction cs generalizing s with
  | nil => simp
  | cons c cs ih =>
      rw [puts_cons, ih]
      by_cases hc : c = NUL
      · simp [put, outChar, hc]
      · simp [put, outChar, hc]

/-- What a buffer of `count` characters holds after the text `cs` has been put there: its first
`count - 1` characters and the terminator. -/
def truncated (buffer : Buffer) (count : Nat) (cs : List Char) : Buffer := fun i =>
  if i < min cs.length (count - 1) then cs.getD i NUL
  else if i = min cs.length (count - 1) ∧ 0 < count then NUL
  else buffer i

theorem outBuffer_truncated (buffer : Buffer) (count : Word) (cs : List Char) :
    outBuffer NUL (puts outBuffer count.toNat ⟨buffer, 0⟩ cs).buffer (lastIdx count.toNat cs)
      count.toNat = truncated buffer count.toNat cs := by
  have hlt := count.isLt
  generalize count.toNat = n at hlt
  have hlast : 0 < n → lastIdx n cs = min cs.length (n - 1) := by
    intro hn
    unfold lastIdx
    split
    · omega
    · rw [show n + 2 ^ 64 - 1 = n - 1 + 2 ^ 64 by omega, Nat.add_mod_right,
        Nat.mod_eq_of_lt (by omega)]
      omega
  funext i
  rcases Nat.eq_zero_or_pos n with rfl | hn
  · -- nothing is written where there is no room
    have hnot : ¬ lastIdx 0 cs < 0 := by omega
    simp [outBuffer, truncated, puts_outBuffer]
  · have hput : outBuffer NUL (puts outBuffer n ⟨buffer, 0⟩ cs).buffer (lastIdx n cs) n
        = Function.update (puts outBuffer n ⟨buffer, 0⟩ cs).buffer (min cs.length (n - 1)) NUL := by
      rw [hlast hn]
      exact if_pos (by omega)
    rw [hput]
    unfold truncated
    by_cases hi : i = min cs.length (n - 1)
    · subst hi
      simp [hn]
    · rw [Function.update_of_ne hi, puts_outBuffer]
      by_cases hlo : i < min cs.length (n - 1)
      · rw [if_pos (by omega), if_pos hlo]
      · rw [if_neg (by omega), if_neg hlo, if_neg (fun h => hi h.1)]

/-- **A buffer gets the beginning of the text.** For every format, every arguments
and every count, `snprintf` fails where `vprintf` does and returns the same number of characters.
`vprintf` prints the text without the terminators in it; of the text with them the buffer holds
the first `count - 1` characters, then the terminator, and nothing else of the memory at the
buffer changes. A null buffer is not written at all. -/
theorem snprintf_truncates (string : Word → List Char) (format : List Char) (va : Va)
    (console : List Char) :
    (∃ e, vprintf string console format va = .error e
        ∧ ∀ buffer (count : Word), snprintf string buffer count.toNat format va = .error e)
      ∨ ∃ cs, vprintf string console format va
            = .ok (returned cs, console ++ cs.filter (· ≠ NUL))
          ∧ ∀ count : Word,
              snprintf string none count.toNat format va = .ok (returned cs, none)
                ∧ ∀ buffer, snprintf string (some buffer) count.toNat format va
                    = .ok (returned cs, some (truncated buffer count.toNat cs)) := by
  have hprint : vprintf string console format va = _ :=
    vsnprintf_eq outChar SIZE_MAX string console format va
  have hfill := fun (buffer : Buffer) (count : Word) =>
    vsnprintf_eq outBuffer count.toNat string buffer format va
  have hnull := fun (count : Word) => vsnprintf_eq outNull count.toNat string (fun _ => NUL) format va
  cases htext : formatText string format va with
  | error e =>
      rw [htext] at hprint
      simp only [htext] at hfill hnull
      refine .inl ⟨e, hprint, fun buffer count => ?_⟩
      cases buffer with
      | none => simp [snprintf, hnull, Except.map, bind, Except.bind]
      | some buffer => simp [snprintf, hfill, Except.map, bind, Except.bind]
  | ok cs =>
      rw [htext] at hprint
      simp only [htext] at hfill hnull
      refine .inr ⟨cs, ?_, fun count => ⟨?_, fun buffer => ?_⟩⟩
      · rw [hprint]
        simp [Except.map, puts_outChar, outChar]
      · simp [snprintf, hnull, Except.map, bind, Except.bind]
      · simp [snprintf, hfill, Except.map, bind, Except.bind, outBuffer_truncated]

end NoobKernel.Misc.Printf
