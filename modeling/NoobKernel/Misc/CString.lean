import Mathlib.Tactic

set_option autoImplicit false

/-! # Strings in memory (`misc/string.c`)

A C string is at an address if its bytes are there with a zero behind them (`CString`). The loops of
the string functions run over the memory, and a loop that finds no end stops with the memory.

`strcmp` is the order of the strings as lists of bytes (`strcmp_spec`), so that models can compare
names as lists. `strtok` is a machine with a pointer of its own that it keeps between the calls:
called again and again it returns the parts of a string between delimiters, each of them in place,
and `NULL` behind the last (`strtok_tokens`).

`memmove` copies whatever areas overlap. `memcpy` copies upwards, so that it does the same unless
the destination begins inside the source (`memcpy_iff`).
-/

namespace NoobKernel.Misc.Str

abbrev Memory := Nat → UInt8

def ADDRESSES : Nat := 2 ^ 64

/-- The string `s` is at the address. -/
inductive CString (mem : Memory) : Nat → List UInt8 → Prop
  | nil {a : Nat} (h : mem a = 0) (ha : a < ADDRESSES) : CString mem a []
  | cons {a : Nat} {b : UInt8} {s : List UInt8} (hb : b ≠ 0) (h : mem a = b)
      (hs : CString mem (a + 1) s) : CString mem a (b :: s)

/-! ## The functions -/

/-- `while (!stop(*s)) s++;` from `a` on. -/
def scan (mem : Memory) (stop : UInt8 → Option Bool) : Nat → Nat → Option Nat
  | 0, _ => none
  | fuel + 1, a => do if ← stop (mem a) then some a else scan mem stop fuel (a + 1)

/-- The same, as far as there is memory. -/
def scanFrom (mem : Memory) (stop : UInt8 → Option Bool) (a : Nat) : Option Nat :=
  scan mem stop (ADDRESSES - a) a

def strlen (mem : Memory) (s : Nat) : Option Nat :=
  (scanFrom mem (fun b => some (b = 0)) s).map (· - s)

/-- `0` for `NULL`. -/
def strchr (mem : Memory) (s : Nat) (c : UInt8) : Option Nat :=
  (scanFrom mem (fun b => some (b = c ∨ b = 0)) s).map fun a => if mem a = c then a else 0

def strcmpLoop (mem : Memory) : Nat → Nat → Nat → Option Int
  | 0, _, _ => none
  | fuel + 1, s1, s2 =>
      if mem s1 ≠ 0 ∧ mem s1 = mem s2 then strcmpLoop mem fuel (s1 + 1) (s2 + 1)
      else some ((mem s1).toNat - (mem s2).toNat)

def strcmp (mem : Memory) (s1 s2 : Nat) : Option Int := strcmpLoop mem ADDRESSES s1 s2

/-- What a call of `strtok` returns, the memory after it, and its static variable. -/
structure Strtok where
  ret : Nat
  mem : Memory
  last : Nat

def strtok (mem : Memory) (last str delim : Nat) : Option Strtok :=
  if str = 0 ∧ last = 0 then some ⟨0, mem, last⟩
  else do
    let last := if str ≠ 0 then str else last
    let last ← scanFrom mem
      (fun b => if b = 0 then some true else (strchr mem delim b).map (· = 0)) last
    if mem last = 0 then some ⟨0, mem, 0⟩
    else
      let token := last
      let last ← scanFrom mem
        (fun b => if b = 0 then some true else (strchr mem delim b).map (· ≠ 0)) last
      if mem last ≠ 0 then some ⟨token, Function.update mem last 0, last + 1⟩
      else some ⟨token, mem, 0⟩

/-- `n` calls with `NULL` for the string, and what they return. -/
def strtokNext (delim : Nat) (mem : Memory) (last : Nat) : Nat → Option (List Nat × Memory)
  | 0 => some ([], mem)
  | n + 1 => do
      let r ← strtok mem last 0 delim
      let (ps, mem) ← strtokNext delim r.mem r.last n
      some (r.ret :: ps, mem)

/-- A call with a string and `n` more for the rest of it. -/
def strtokAll (mem : Memory) (last str delim n : Nat) : Option (List Nat × Memory) := do
  let r ← strtok mem last str delim
  let (ps, mem) ← strtokNext delim r.mem r.last n
  some (r.ret :: ps, mem)

/-! ## Strings -/

variable {mem mem' : Memory} {a a' n fuel last delim : Nat} {s t d : List UInt8}

namespace CString

theorem lt (h : CString mem a s) : a + s.length < ADDRESSES := by
  induction h with
  | nil _ ha => exact ha
  | cons _ _ _ ih =>
      rw [List.length_cons]
      omega

theorem ne_zero (h : CString mem a s) : ∀ b ∈ s, b ≠ 0 := by
  induction h with
  | nil => exact fun _ hb => absurd hb List.not_mem_nil
  | cons hb _ _ ih =>
      intro c hc
      rcases List.mem_cons.mp hc with rfl | hc
      · exact hb
      · exact ih c hc

/-- A string depends on its own bytes. -/
theorem congr (h : CString mem a s) (heq : ∀ i, a ≤ i → i ≤ a + s.length → mem' i = mem i) :
    CString mem' a s := by
  induction h with
  | nil h ha => exact .nil ((heq _ (Nat.le_refl _) (Nat.le_refl _)).trans h) ha
  | cons hb h hs ih =>
      rw [List.length_cons] at heq
      exact .cons hb ((heq _ (Nat.le_refl _) (by omega)).trans h)
        (ih fun i hi hle => heq i (by omega) (by omega))

/-- What is behind a part of a string is a string. -/
theorem drop (h : CString mem a (s ++ t)) : CString mem (a + s.length) t := by
  induction s generalizing a with
  | nil => exact h
  | cons b s ih =>
      cases h with
      | cons _ _ hs =>
          have hrest := ih hs
          rwa [List.length_cons, show a + (s.length + 1) = a + 1 + s.length by omega]

/-- A part of a string is one when a zero is written behind it. -/
theorem cut (h : CString mem a (s ++ t)) :
    CString (Function.update mem (a + s.length) 0) a s := by
  induction s generalizing a with
  | nil => exact .nil (Function.update_self ..) (by have := h.lt; omega)
  | cons b s ih =>
      cases h with
      | cons hb hmem hs =>
          have hrest := ih hs
          rw [List.length_cons]
          refine .cons hb ?_ ?_
          · rw [Function.update_of_ne (by omega)]
            exact hmem
          · rwa [show a + (s.length + 1) = a + 1 + s.length by omega]

theorem head (h : CString mem a s) : mem a = s.headD 0 := by
  cases h with
  | nil h _ => exact h
  | cons _ h _ => exact h

/-! ### Loops -/

/-- A loop that stops at the end at the latest splits the string where it stops. -/
theorem scan_split (h : CString mem a s) {stop : UInt8 → Option Bool} {p : UInt8 → Bool}
    (hstop : ∀ b, stop b = some (p b)) (hend : p 0 = true) (hfuel : s.length < fuel) :
    ∃ t r, s = t ++ r ∧ (∀ b ∈ t, p b = false) ∧ (∀ b r', r = b :: r' → p b = true)
      ∧ scan mem stop fuel a = some (a + t.length) := by
  induction h generalizing fuel with
  | nil h _ =>
      obtain ⟨fuel, rfl⟩ : ∃ k, fuel = k + 1 := ⟨fuel - 1, by omega⟩
      refine ⟨[], [], rfl, fun _ hb => absurd hb List.not_mem_nil, ?_, ?_⟩
      · rintro _ _ ⟨⟩
      · rw [scan, hstop, h, hend]
        rfl
  | @cons a b s _ h _ ih =>
      obtain ⟨fuel, rfl⟩ : ∃ k, fuel = k + 1 := ⟨fuel - 1, by omega⟩
      have hfuel' : s.length < fuel := by
        rw [List.length_cons] at hfuel
        omega
      rw [scan, hstop, h, Option.bind_eq_bind, Option.bind_some]
      cases hp : p b with
      | true =>
          refine ⟨[], b :: s, rfl, fun _ hb => absurd hb List.not_mem_nil, ?_, if_pos rfl⟩
          rintro _ _ ⟨⟩
          exact hp
      | false =>
          obtain ⟨t, r, rfl, hbefore, hfirst, hscan⟩ := ih hfuel'
          refine ⟨b :: t, r, rfl, List.forall_mem_cons.mpr ⟨hp, hbefore⟩, hfirst, ?_⟩
          rw [if_neg Bool.false_ne_true, hscan, List.length_cons]
          exact congrArg some (by omega)

theorem scanFrom_split (h : CString mem a s) {stop : UInt8 → Option Bool} {p : UInt8 → Bool}
    (hstop : ∀ b, stop b = some (p b)) (hend : p 0 = true) :
    ∃ t r, s = t ++ r ∧ (∀ b ∈ t, p b = false) ∧ (∀ b r', r = b :: r' → p b = true)
      ∧ scanFrom mem stop a = some (a + t.length) := by
  have hlt := h.lt
  exact h.scan_split hstop hend (by omega)

theorem strlen_eq (h : CString mem a s) : strlen mem a = some s.length := by
  obtain ⟨t, r, rfl, -, hfirst, hscan⟩ := h.scanFrom_split
    (fun b => rfl : ∀ b : UInt8, some (decide (b = 0)) = some (decide (b = 0))) (decide_eq_true rfl)
  rw [strlen, hscan, Option.map_some, Nat.add_sub_cancel_left]
  cases r with
  | nil => rw [List.append_nil]
  | cons b r =>
      have hmem : b ∈ t ++ b :: r := List.mem_append_right _ List.mem_cons_self
      exact absurd (of_decide_eq_true (hfirst b r rfl)) (h.ne_zero b hmem)

/-- `strchr` finds a character exactly if the string has it. -/
theorem strchr_eq (h : CString mem a s) (ha : a ≠ 0) {c : UInt8} (hc : c ≠ 0) :
    ∃ r, strchr mem a c = some r ∧ (r = 0 ↔ c ∉ s) := by
  obtain ⟨t, r, rfl, hbefore, hfirst, hscan⟩ := h.scanFrom_split
    (fun b => rfl : ∀ b, some (decide (b = c ∨ b = 0)) = some (decide (b = c ∨ b = 0)))
    (decide_eq_true (.inr rfl))
  have hnot : c ∉ t := fun hmem => of_decide_eq_false (hbefore c hmem) (.inl rfl)
  have hhead := h.drop.head
  rw [strchr, hscan, Option.map_some, hhead]
  refine ⟨_, rfl, ?_⟩
  cases r with
  | nil =>
      rw [List.headD_nil, if_neg hc.symm, List.append_nil]
      exact iff_of_true rfl hnot
  | cons b r =>
      have hmem : b ∈ t ++ b :: r := List.mem_append_right _ List.mem_cons_self
      have hb : b = c := (of_decide_eq_true (hfirst b r rfl)).resolve_right (h.ne_zero b hmem)
      subst hb
      rw [List.headD_cons, if_pos rfl]
      exact iff_of_false (by omega) (not_not.mpr hmem)

end CString

/-! ## Comparison -/

/-- Bytes are subtracted as numbers. -/
theorem byte_sub (b c : UInt8) : ((b.toNat : Int) - c.toNat < 0 ↔ b < c)
    ∧ ((b.toNat : Int) - c.toNat = 0 ↔ b = c) := by
  rw [UInt8.lt_iff_toNat_lt, ← UInt8.toNat_inj]
  omega

/-- The result is zero for equal strings, and else it is negative or positive as the first byte that
differs is, a string being less than one that goes on. -/
theorem strcmpLoop_spec (hs : CString mem a s) (ht : CString mem a' t) (hfuel : s.length < fuel) :
    ∃ r, strcmpLoop mem fuel a a' = some r ∧ (r < 0 ↔ s < t) ∧ (r = 0 ↔ s = t) := by
  induction hs generalizing fuel a' t with
  | nil h _ =>
      obtain ⟨fuel, rfl⟩ : ∃ k, fuel = k + 1 := ⟨fuel - 1, by omega⟩
      rw [strcmpLoop, h, if_neg fun hand => hand.1 rfl, ht.head]
      refine ⟨_, rfl, ?_⟩
      rw [(byte_sub 0 _).1, (byte_sub 0 _).2]
      cases t with
      | nil => simp
      | cons c t =>
          have hc := ht.ne_zero c List.mem_cons_self
          exact ⟨iff_of_true (UInt8.pos_iff_ne_zero.mpr hc) (List.nil_lt_cons c t),
            iff_of_false hc.symm (List.cons_ne_nil c t).symm⟩
  | @cons a b s hb h hs ih =>
      obtain ⟨fuel, rfl⟩ : ∃ k, fuel = k + 1 := ⟨fuel - 1, by omega⟩
      have hfuel' : s.length < fuel := by
        rw [List.length_cons] at hfuel
        omega
      rw [strcmpLoop, h, ht.head]
      cases ht with
      | nil h' _ =>
          rw [if_neg fun hand => hb hand.2]
          refine ⟨_, rfl, ?_⟩
          rw [(byte_sub b _).1, (byte_sub b _).2]
          exact ⟨iff_of_false UInt8.not_lt_zero (List.not_lt_nil _),
            iff_of_false hb (List.cons_ne_nil b s)⟩
      | @cons _ c t hc h' ht =>
          rw [List.headD_cons]
          by_cases hbc : b = c
          · subst hbc
            rw [if_pos ⟨hb, rfl⟩]
            obtain ⟨r, hrun, hlt, heq⟩ := ih ht hfuel'
            refine ⟨r, hrun, ?_, ?_⟩
            · rw [hlt, List.cons_lt_cons_iff]
              simp
            · rw [heq]
              simp
          · rw [if_neg fun hand => hbc hand.2]
            refine ⟨_, rfl, ?_⟩
            rw [(byte_sub b c).1, (byte_sub b c).2, List.cons_lt_cons_iff, List.cons.injEq]
            exact ⟨(or_iff_left fun hand => hbc hand.1).symm,
              iff_of_false hbc fun hand => hbc hand.1⟩

/-- **`strcmp` is the order of strings**, and says equal of equal strings only. -/
theorem strcmp_spec (hs : CString mem a s) (ht : CString mem a' t) :
    ∃ r, strcmp mem a a' = some r ∧ (r < 0 ↔ s < t) ∧ (r = 0 ↔ s = t) := by
  have hlt := hs.lt
  exact strcmpLoop_spec hs ht (by omega)

/-- Two strings of which one goes on. -/
def twoStrings : Memory := fun a => if a = 16 ∨ a = 32 then 97 else if a = 33 then 98 else 0

theorem strcmp_spec_less : ∃ r, strcmp twoStrings 16 32 = some r
    ∧ (r < 0 ↔ ([97] : List UInt8) < [97, 98]) ∧ (r = 0 ↔ ([97] : List UInt8) = [97, 98]) :=
  strcmp_spec (.cons (by decide) rfl (.nil rfl (by decide)))
    (.cons (by decide) rfl (.cons (by decide) rfl (.nil rfl (by decide))))

/-! ## Parts of a string -/

/-- The parts of a string between delimiters, without empty ones. -/
def tokens (d s : List UInt8) : List (List UInt8) := (s.splitOnP (· ∈ d)).filter (· ≠ [])

theorem tokens_cons_of_mem {b : UInt8} (hb : b ∈ d) : tokens d (b :: s) = tokens d s := by
  rw [tokens, List.splitOnP_cons_eq_if_modifyHead, if_pos (decide_eq_true hb)]
  rfl

/-- Delimiters in front do not count. -/
theorem tokens_append_of_mem (ht : ∀ b ∈ t, b ∈ d) : tokens d (t ++ s) = tokens d s := by
  induction t with
  | nil => rfl
  | cons b t ih =>
      rw [List.cons_append, tokens_cons_of_mem (ht b List.mem_cons_self),
        ih fun c hc => ht c (List.mem_cons_of_mem _ hc)]

theorem tokens_eq_singleton (ht : ∀ b ∈ t, b ∉ d) (hne : t ≠ []) : tokens d t = [t] := by
  rw [tokens, List.splitOnP_eq_singleton fun b hb => decide_eq_false (ht b hb)]
  exact List.filter_cons_of_pos (decide_eq_true hne)

theorem tokens_append (ht : ∀ b ∈ t, b ∉ d) (hne : t ≠ []) {b : UInt8} (hb : b ∈ d) :
    tokens d (t ++ b :: s) = t :: tokens d s := by
  rw [tokens, List.splitOnP_append_cons_of_forall_mem (fun c hc => decide_eq_false (ht c hc)) b
    (decide_eq_true hb)]
  exact List.filter_cons_of_pos (decide_eq_true hne)

/-- What pointers returned by calls point to: strings, and `NULL` when there are no more. -/
def Reads (mem : Memory) : List Nat → List (List UInt8) → Prop
  | [], _ => True
  | p :: ps, [] => p = 0 ∧ Reads mem ps []
  | p :: ps, t :: ts => CString mem p t ∧ Reads mem ps ts

/-! ### One call -/

theorem notMem_zero (hd : CString mem delim d) : (0 : UInt8) ∉ d := fun h => hd.ne_zero 0 h rfl

/-- The loop over delimiters, and the one over the other characters. -/
theorem skips (hd : CString mem delim d) (hdelim : delim ≠ 0) (b : UInt8) :
    (if b = 0 then some true else (strchr mem delim b).map (· = 0)) = some (!decide (b ∈ d)) := by
  by_cases hb : b = 0
  · subst hb
    simp [notMem_zero hd]
  · obtain ⟨r, hr, hzero⟩ := hd.strchr_eq hdelim hb
    rw [if_neg hb, hr, Option.map_some]
    simp [hzero]

theorem passes (hd : CString mem delim d) (hdelim : delim ≠ 0) (b : UInt8) :
    (if b = 0 then some true else (strchr mem delim b).map (· ≠ 0))
      = some (decide (b = 0 ∨ b ∈ d)) := by
  by_cases hb : b = 0
  · subst hb
    simp
  · obtain ⟨r, hr, hzero⟩ := hd.strchr_eq hdelim hb
    rw [if_neg hb, hr, Option.map_some]
    simp [hzero, hb]

/-- **A call for the next part**: there is none, or it is the last one, or the delimiter behind it
becomes its end. -/
theorem strtok_step (hs : CString mem last s) (hlast : last ≠ 0) (hd : CString mem delim d)
    (hdelim : delim ≠ 0) :
    (tokens d s = [] ∧ strtok mem last 0 delim = some ⟨0, mem, 0⟩)
      ∨ (∃ p t, tokens d s = [t] ∧ CString mem p t ∧ strtok mem last 0 delim = some ⟨p, mem, 0⟩)
      ∨ ∃ p t b s', tokens d s = t :: tokens d s' ∧ CString mem p (t ++ b :: s') ∧ last ≤ p
        ∧ p + t.length + 1 + s'.length = last + s.length
        ∧ strtok mem last 0 delim
          = some ⟨p, Function.update mem (p + t.length) 0, p + t.length + 1⟩ := by
  obtain ⟨ds, s₁, rfl, hds, hfirst, hskip⟩ :=
    hs.scanFrom_split (skips hd hdelim) (by simp [notMem_zero hd])
  have hs₁ := hs.drop
  have hcall : ¬((0 : Nat) = 0 ∧ last = 0) := fun hand => hlast hand.2
  rw [tokens_append_of_mem fun b hb => by simpa using hds b hb, strtok, if_neg hcall]
  simp only [ne_eq, not_true_eq_false, if_false, Option.bind_eq_bind]
  rw [hskip, Option.bind_some, hs₁.head]
  cases s₁ with
  | nil => exact .inl ⟨rfl, if_pos rfl⟩
  | cons c s₁ =>
      have hc : c ≠ 0 := hs₁.ne_zero c List.mem_cons_self
      have hc' : c ∉ d := by simpa using hfirst c s₁ rfl
      obtain ⟨t, r, heq, ht, hstop, hpass⟩ := hs₁.scanFrom_split (passes hd hdelim) (by simp)
      have hne : t ≠ [] := by
        rintro rfl
        rcases of_decide_eq_true (hstop c s₁ heq.symm) with hzero | hmem
        · exact hc hzero
        · exact hc' hmem
      have ht' : ∀ b ∈ t, b ∉ d := fun b hb hmem => of_decide_eq_false (ht b hb) (.inr hmem)
      rw [List.headD_cons, if_neg hc, hpass, Option.bind_some, heq]
      rw [heq] at hs₁
      rw [hs₁.drop.head]
      right
      cases r with
      | nil =>
          rw [List.append_nil] at hs₁ ⊢
          exact .inl ⟨_, t, tokens_eq_singleton ht' hne, hs₁, if_neg (not_not.mpr rfl)⟩
      | cons b s' =>
          have hmem : b ∈ t ++ b :: s' := List.mem_append_right _ List.mem_cons_self
          have hb : b ≠ 0 := hs₁.ne_zero b hmem
          have hbd : b ∈ d := (of_decide_eq_true (hstop b s' rfl)).resolve_left hb
          refine .inr ⟨_, t, b, s', tokens_append ht' hne hbd, hs₁, Nat.le_add_right _ _, ?_, ?_⟩
          · rw [List.length_append, List.length_append, List.length_cons]
            omega
          · rw [List.headD_cons, if_pos hb]

/-! ### All calls -/

/-- Behind the last part every call returns `NULL`. -/
theorem strtokNext_done (n : Nat) :
    strtokNext delim mem 0 n = some (List.replicate n 0, mem) := by
  induction n with
  | zero => rfl
  | succ n ih =>
      rw [strtokNext, strtok, if_pos ⟨rfl, rfl⟩, Option.bind_eq_bind, Option.bind_some, ih]
      rfl

theorem reads_done (n : Nat) : Reads mem (List.replicate n 0) [] := by
  induction n with
  | zero => trivial
  | succ n ih => exact ⟨rfl, ih⟩

/-- Calls with `NULL` return the parts of what is left, in place, and write to nothing else. -/
theorem strtokNext_reads (n : Nat) (hs : CString mem last s) (hlast : last ≠ 0)
    (hd : CString mem delim d) (hdelim : delim ≠ 0)
    (hapart : last + s.length < delim ∨ delim + d.length < last) :
    ∃ ps mem', strtokNext delim mem last n = some (ps, mem') ∧ ps.length = n
      ∧ Reads mem' ps (tokens d s) ∧ ∀ a, a < last ∨ last + s.length ≤ a → mem' a = mem a := by
  induction n generalizing mem last s with
  | zero => exact ⟨[], mem, rfl, rfl, trivial, fun _ _ => rfl⟩
  | succ n ih =>
      rcases strtok_step hs hlast hd hdelim with ⟨htokens, hcall⟩ | ⟨p, t, htokens, ht, hcall⟩ |
        ⟨p, t, b, s', htokens, ht, hle, hlen, hcall⟩
      · refine ⟨0 :: List.replicate n 0, mem, ?_, ?_, ?_, fun _ _ => rfl⟩
        · rw [strtokNext, hcall, Option.bind_eq_bind, Option.bind_some, strtokNext_done]
          rfl
        · rw [List.length_cons, List.length_replicate]
        · rw [htokens]
          exact ⟨rfl, reads_done n⟩
      · refine ⟨p :: List.replicate n 0, mem, ?_, ?_, ?_, fun _ _ => rfl⟩
        · rw [strtokNext, hcall, Option.bind_eq_bind, Option.bind_some, strtokNext_done]
          rfl
        · rw [List.length_cons, List.length_replicate]
        · rw [htokens]
          exact ⟨ht, reads_done n⟩
      · -- the write is behind the part and before what is left
        have hrest : CString mem (p + t.length + 1) s' := by
          cases ht.drop with
          | cons _ _ hrest => exact hrest
        have hupdate : ∀ i, i ≠ p + t.length →
            Function.update mem (p + t.length) 0 i = mem i := fun i hi =>
          Function.update_of_ne hi ..
        obtain ⟨ps, mem', hnext, hps, hreads, hsame⟩ :=
          ih (hrest.congr fun i hi _ => hupdate i (by omega)) (Nat.succ_ne_zero _)
            (hd.congr fun i hi hi' => hupdate i (by omega)) (by omega)
        refine ⟨p :: ps, mem', ?_, ?_, ?_, fun i hi => ?_⟩
        · rw [strtokNext, hcall, Option.bind_eq_bind, Option.bind_some, hnext]
          rfl
        · rw [List.length_cons, hps]
        · rw [htokens]
          exact ⟨ht.cut.congr fun i _ hi => hsame i (.inl (by omega)), hreads⟩
        · rw [hsame i (by omega), hupdate i (by omega)]

/-- **`strtok` splits a string.** Called with a string and then any number of times with `NULL`, it
returns the parts of the string between delimiters in their order, and `NULL` behind the last. After
all calls each pointer is to its part, and no byte outside the string has changed. -/
theorem strtok_tokens {str : Nat} (hs : CString mem str s) (hstr : str ≠ 0)
    (hd : CString mem delim d) (hdelim : delim ≠ 0)
    (hapart : str + s.length < delim ∨ delim + d.length < str) (last n : Nat) :
    ∃ ps mem', strtokAll mem last str delim n = some (ps, mem') ∧ ps.length = n + 1
      ∧ Reads mem' ps (tokens d s) ∧ ∀ a, a < str ∨ str + s.length ≤ a → mem' a = mem a := by
  have hfirst : strtok mem last str delim = strtok mem str 0 delim := by
    simp [strtok, hstr]
  have hall : strtokAll mem last str delim n = strtokNext delim mem str (n + 1) := by
    rw [strtokAll, strtokNext, hfirst]
  rw [hall]
  exact strtokNext_reads (n + 1) hs hstr hd hdelim hapart

/-- Two parts, `x` and `y`, at `16`, with the delimiter at `32`. -/
def twoParts : Memory := fun a =>
  if a = 16 then 120 else if a = 17 ∨ a = 32 then 44 else if a = 18 then 121 else 0

theorem strtok_tokens_two : ∃ ps mem', strtokAll twoParts 0 16 32 2 = some (ps, mem')
    ∧ ps.length = 3 ∧ Reads mem' ps (tokens [44] [120, 44, 121])
    ∧ ∀ a, a < 16 ∨ 19 ≤ a → mem' a = twoParts a :=
  strtok_tokens (.cons (by decide) rfl (.cons (by decide) rfl (.cons (by decide) rfl
    (.nil rfl (by decide))))) (by decide) (.cons (by decide) rfl (.nil rfl (by decide)))
    (by decide) (.inl (by decide)) 0 2

/-! ## Copies -/

/-- The loop of a copy over the indices, in their order. -/
def copyLoop (dest src : Nat) (mem : Memory) (is : List Nat) : Memory :=
  is.foldl (fun mem i => Function.update mem (dest + i) (mem (src + i))) mem

def memcpy (mem : Memory) (dest src n : Nat) : Memory := copyLoop dest src mem (List.range n)

/-- Upwards or downwards. -/
def memmove (mem : Memory) (dest src n : Nat) : Memory :=
  if dest < src then copyLoop dest src mem (List.range n)
  else if dest > src then copyLoop dest src mem (List.range n).reverse
  else mem

/-- The memory with `n` bytes at `dest` that were at `src`. -/
def copied (mem : Memory) (dest src n : Nat) : Memory := fun a =>
  if dest ≤ a ∧ a < dest + n then mem (src + (a - dest)) else mem a

variable {dest src : Nat}

/-- Upwards, a byte is read before it is written if the destination does not begin inside the
source. -/
theorem copyLoop_range (h : ¬(src < dest ∧ dest < src + n)) :
    copyLoop dest src mem (List.range n) = copied mem dest src n := by
  induction n with
  | zero =>
      funext a
      rw [copied, if_neg (by omega)]
      rfl
  | succ n ih =>
      have hloop := ih (by omega)
      unfold copyLoop at hloop ⊢
      rw [List.range_succ, List.foldl_append, hloop, List.foldl_cons, List.foldl_nil]
      have hread : copied mem dest src n (src + n) = mem (src + n) := by
        by_cases hin : dest ≤ src + n ∧ src + n < dest + n
        · omega
        · exact if_neg hin
      rw [hread]
      funext a
      by_cases ha : a = dest + n
      · rw [ha, Function.update_self, copied, if_pos (by omega), Nat.add_sub_cancel_left]
      · rw [Function.update_of_ne ha, copied, copied]
        exact if_congr (by omega) rfl rfl

/-- Downwards, it is if the source begins below. -/
theorem copyLoop_reverse (h : src < dest) :
    copyLoop dest src mem (List.range n).reverse = copied mem dest src n := by
  induction n generalizing mem with
  | zero =>
      funext a
      rw [copied, if_neg (by omega)]
      rfl
  | succ n ih =>
      rw [List.range_succ, List.reverse_append, List.reverse_singleton, List.singleton_append]
      refine Eq.trans (@ih (Function.update mem (dest + n) (mem (src + n)))) ?_
      funext a
      rw [copied, copied]
      by_cases ha : a = dest + n
      · rw [ha, if_neg (by omega), Function.update_self, if_pos (by omega),
          Nat.add_sub_cancel_left]
      · by_cases hin : dest ≤ a ∧ a < dest + n
        · rw [if_pos hin, if_pos (by omega), Function.update_of_ne (by omega)]
        · rw [if_neg hin, if_neg (by omega), Function.update_of_ne ha]

theorem memmove_eq (mem : Memory) (dest src n : Nat) :
    memmove mem dest src n = copied mem dest src n := by
  unfold memmove
  split
  · exact copyLoop_range (by omega)
  split
  · exact copyLoop_reverse ‹_›
  · obtain rfl : dest = src := by omega
    funext a
    rw [copied]
    split
    · rw [Nat.add_sub_cancel' (by omega)]
    · rfl

theorem copyLoop_zero (is : List Nat) : copyLoop dest src (fun _ => 0) is = fun _ => 0 := by
  induction is with
  | nil => rfl
  | cons i is ih =>
      have hwrite : Function.update (fun _ => 0 : Memory) (dest + i) 0 = fun _ => 0 :=
        Function.update_eq_self (dest + i) (fun _ => 0 : Memory)
      rw [copyLoop, List.foldl_cons, hwrite]
      exact ih

/-- **Copies and overlaps.** `memmove` copies every memory right, and `memcpy` does exactly if the
destination does not begin behind the first byte of the source and before its end. -/
theorem memcpy_iff (dest src n : Nat) :
    (∀ mem, memmove mem dest src n = copied mem dest src n)
      ∧ ((∀ mem, memcpy mem dest src n = copied mem dest src n)
        ↔ ¬(src < dest ∧ dest < src + n)) := by
  refine ⟨fun mem => memmove_eq mem dest src n, fun h => ?_, fun h mem => copyLoop_range h⟩
  rintro ⟨hlt, hin⟩
  obtain ⟨n, rfl⟩ : ∃ k, n = k + 1 := ⟨n - 1, by omega⟩
  -- the only byte that is not zero is overwritten first
  have hwrite : Function.update (Function.update (fun _ => 0 : Memory) dest 1) dest 0
      = fun _ => 0 := by
    rw [Function.update_idem]
    exact Function.update_eq_self dest (fun _ => 0 : Memory)
  have hzero : memcpy (Function.update (fun _ => 0) dest 1) dest src (n + 1) = fun _ => 0 := by
    rw [memcpy, List.range_succ_eq_map, copyLoop, List.foldl_cons, Nat.add_zero, Nat.add_zero,
      Function.update_of_ne (by omega), hwrite]
    exact copyLoop_zero _
  have hbyte := congrFun ((h _).symm.trans hzero) (dest + (dest - src))
  rw [copied, if_pos (by omega), Nat.add_sub_cancel_left, Nat.add_sub_cancel' (by omega),
    Function.update_self] at hbyte
  exact absurd hbyte (by decide)

end NoobKernel.Misc.Str
