import NoobKernel.Lib.Fips180

set_option autoImplicit false

/-! # The rounds of the SHA-2 family

The members of the family differ in the width of a word, in their functions and in their
constants (`Variant`). The standard says what a word of the schedule is and what a round does
(`schedule`, `round`); a program runs two loops over an array and eight variables
(`scheduleLoop`, `roundLoop`). Both compute the same chaining value (`transform_eq`).
-/

namespace Fips180

/-- The functions and constants of a member of the family, with words of `w` bits. -/
structure Variant (w : Nat) where
  Sigma0 : BitVec w → BitVec w
  Sigma1 : BitVec w → BitVec w
  sigma0 : BitVec w → BitVec w
  sigma1 : BitVec w → BitVec w
  Ch : BitVec w → BitVec w → BitVec w → BitVec w
  Maj : BitVec w → BitVec w → BitVec w → BitVec w
  /-- one constant for each round -/
  K : List (BitVec w)
  /-- the bytes in a word -/
  size : Nat
  wordOf : List Byte → BitVec w

namespace Variant

variable {w : Nat} (V : Variant w)

/-! ## The standard -/

/-- The message schedule of a block. -/
def schedule (block : List Byte) (t : Nat) : BitVec w :=
  if t < 16 then V.wordOf (block.drop (V.size * t))
  else
    V.sigma1 (schedule block (t - 2)) + schedule block (t - 7) + V.sigma0 (schedule block (t - 15))
      + schedule block (t - 16)

/-- One round on the working variables. -/
def round (v : Vector (BitVec w) 8) (k x : BitVec w) : Vector (BitVec w) 8 :=
  let v := Vars.ofChain v
  let t₁ := v.h + V.Sigma1 v.e + V.Ch v.e v.f v.g + k + x
  let t₂ := V.Sigma0 v.a + V.Maj v.a v.b v.c
  #v[t₁ + t₂, v.a, v.b, v.c, v.d + t₁, v.e, v.f, v.g]

def rounds (block : List Byte) (v : Vector (BitVec w) 8) : Nat → Vector (BitVec w) 8
  | 0 => v
  | t + 1 => V.round (rounds block v t) (V.K.getD t 0) (V.schedule block t)

def compress (chain : Vector (BitVec w) 8) (block : List Byte) : Vector (BitVec w) 8 :=
  Vector.zipWith (· + ·) chain (V.rounds block chain V.K.length)

/-! ## The loops -/

/-- The loops that fill the array of the schedule. -/
def scheduleLoop (data : List Byte) : List (BitVec w) :=
  (List.range' 16 (V.K.length - 16)).foldl
    (fun s i => s ++ [V.sigma1 (s.getD (i - 2) 0) + s.getD (i - 7) 0 + V.sigma0 (s.getD (i - 15) 0)
      + s.getD (i - 16) 0])
    ((List.range 16).map fun i => V.wordOf (data.drop (V.size * i)))

def roundLoop (v : Vars w) (k x : BitVec w) : Vars w :=
  let t1 := v.h + V.Sigma1 v.e + V.Ch v.e v.f v.g + k + x
  let t2 := V.Sigma0 v.a + V.Maj v.a v.b v.c
  { a := t1 + t2, b := v.a, c := v.b, d := v.c, e := v.d + t1, f := v.e, g := v.f, h := v.g }

def transform (s : Vector (BitVec w) 8) (data : List Byte) : Vector (BitVec w) 8 :=
  let x := V.scheduleLoop data
  let s := Vars.ofChain s
  let v := (List.range V.K.length).foldl (fun v i => V.roundLoop v (V.K.getD i 0) (x.getD i 0)) s
  #v[s.a + v.a, s.b + v.b, s.c + v.c, s.d + v.d, s.e + v.e, s.f + v.f, s.g + v.g, s.h + v.h]

/-! ## They agree -/

theorem schedule_lt {block : List Byte} {t : Nat} (h : t < 16) :
    V.schedule block t = V.wordOf (block.drop (V.size * t)) := by
  rw [schedule, if_pos h]

theorem schedule_ge {block : List Byte} {t : Nat} (h : 16 ≤ t) :
    V.schedule block t = V.sigma1 (V.schedule block (t - 2)) + V.schedule block (t - 7)
      + V.sigma0 (V.schedule block (t - 15)) + V.schedule block (t - 16) := by
  rw [schedule, if_neg (Nat.not_lt.mpr h)]

/-- The loop builds the schedule. -/
theorem scheduleLoop_getD (hK : 16 ≤ V.K.length) (data : List Byte) {t : Nat}
    (ht : t < V.K.length) : (V.scheduleLoop data).getD t 0 = V.schedule data t := by
  have loop : ∀ n, ((List.range' 16 n).foldl
      (fun s i => s ++ [V.sigma1 (s.getD (i - 2) 0) + s.getD (i - 7) 0
        + V.sigma0 (s.getD (i - 15) 0) + s.getD (i - 16) 0])
      ((List.range 16).map fun i => V.wordOf (data.drop (V.size * i))))
      = (List.range (16 + n)).map (V.schedule data) := by
    intro n
    induction n with
    | zero =>
        rw [List.range'_zero, List.foldl_nil]
        exact List.map_congr_left fun i hi => (V.schedule_lt (List.mem_range.mp hi)).symm
    | succ n ih =>
        have hget : ∀ k, k < 16 + n → ((List.range (16 + n)).map (V.schedule data)).getD k 0
            = V.schedule data k := by
          intro k hk
          rw [List.getD_eq_getElem?_getD, List.getElem?_map, List.getElem?_range hk]
          rfl
        rw [List.range'_concat, List.foldl_append, ih, List.foldl_cons, List.foldl_nil, Nat.one_mul,
          hget _ (by omega), hget _ (by omega), hget _ (by omega), hget _ (by omega),
          ← V.schedule_ge (by omega), ← Nat.add_assoc, List.range_succ, List.map_append,
          List.map_singleton]
  rw [scheduleLoop, loop, List.getD_eq_getElem?_getD, List.getElem?_map,
    List.getElem?_range (by omega)]
  rfl

theorem chain_roundLoop (v : Vars w) (k x : BitVec w) :
    (V.roundLoop v k x).chain = V.round v.chain k x := rfl

theorem chain_rounds (hK : 16 ≤ V.K.length) (data : List Byte) (v : Vars w) {n : Nat}
    (hn : n ≤ V.K.length) :
    ((List.range n).foldl (fun v i => V.roundLoop v (V.K.getD i 0)
      ((V.scheduleLoop data).getD i 0)) v).chain = V.rounds data v.chain n := by
  induction n with
  | zero => rfl
  | succ n ih =>
      rw [List.range_succ, List.foldl_append, List.foldl_cons, List.foldl_nil, chain_roundLoop,
        ih (by omega), V.scheduleLoop_getD hK data hn]
      rfl

/-- **The loops compute the compression of the standard.** -/
theorem transform_eq (hK : 16 ≤ V.K.length) (s : Vector (BitVec w) 8) (data : List Byte) :
    V.transform s data = V.compress s data := by
  have hrounds := V.chain_rounds hK data (Vars.ofChain s) (Nat.le_refl V.K.length)
  rw [Vars.chain_ofChain] at hrounds
  rw [compress, ← hrounds]
  refine Vector.ext fun i hi => ?_
  rw [Vector.getElem_zipWith]
  interval_cases i <;> rfl

end Variant

end Fips180
