import Mathlib.Tactic

set_option autoImplicit false

/-! # Programs that may fault, with a log of events

A program over a state `K` either returns a value and a new state or faults; on the way it
may log events. What a program does is stated with `Yields`: relative to a policy that says
which events a run may rely on (`safe`), which it must show (`fine`) and which faults it may
end in (`allowed`), every outcome whose events are all safe is fine, and a normal one satisfies
the postcondition. The rules follow the structure of the program, so a run that logs an unsafe
event asks nothing of what comes after it.
-/

/-- What a program does from one state. -/
inductive Outcome (K R F α : Type) : Type
  | ok (a : α) (k : K) (log : List R)
  | fault (f : F) (log : List R)

/-- A program over the state `K` with events `R` and faults `F`. -/
def Exec (K R F α : Type) : Type := K → Outcome K R F α

variable {K R F α β γ : Type}

namespace Outcome

/-- The same outcome after the events `l`. -/
def after (l : List R) : Outcome K R F α → Outcome K R F α
  | ok a k l' => ok a k (l ++ l')
  | fault f l' => fault f (l ++ l')

@[simp] theorem after_nil (o : Outcome K R F α) : o.after [] = o := by
  cases o <;> rfl

theorem after_after (o : Outcome K R F α) (l l' : List R) :
    (o.after l').after l = o.after (l ++ l') := by
  cases o with
  | ok a k l₂ => rw [after, after, after, List.append_assoc]
  | fault f l₂ => rw [after, after, after, List.append_assoc]

/-- The program has returned, and `p` accepts what it has left. -/
def check (p : α → K → Bool) : Outcome K R F α → Bool
  | ok a k _ => p a k
  | fault _ _ => false

theorem of_check {p : α → K → Bool} {o : Outcome K R F α} (h : o.check p = true) :
    ∃ a k log, o = .ok a k log ∧ p a k = true := by
  cases o with
  | ok a k log => exact ⟨a, k, log, rfl, h⟩
  | fault f log => cases h

end Outcome

namespace Exec

instance : Monad (Exec K R F) where
  pure a := fun k => .ok a k []
  bind x f := fun k =>
    match x k with
    | .ok a k' l => (f a k').after l
    | .fault e l => .fault e l

def read : Exec K R F K := fun k => .ok k k []
def modify (g : K → K) : Exec K R F Unit := fun k => .ok () (g k) []
def fault (f : F) : Exec K R F α := fun _ => .fault f []
def emit (r : R) : Exec K R F Unit := fun k => .ok () k [r]

/-- A program over a part of the state. -/
def zoom {J : Type} (get : K → J) (put : J → K → K) (x : Exec J R F α) : Exec K R F α := fun k =>
  match x (get k) with
  | .ok a j l => .ok a (put j k) l
  | .fault f l => .fault f l

theorem bind_ok {x : Exec K R F α} {f : α → Exec K R F β} {k k' : K} {a : α} {l : List R}
    (h : x k = .ok a k' l) : (x >>= f) k = (f a k').after l := by
  show (match x k with | .ok a k' l => (f a k').after l | .fault e l => .fault e l) = _
  rw [h]

theorem bind_fault {x : Exec K R F α} {f : α → Exec K R F β} {k : K} {e : F} {l : List R}
    (h : x k = .fault e l) : (x >>= f) k = .fault e l := by
  show (match x k with | .ok a k' l => (f a k').after l | .fault e l => .fault e l) = _
  rw [h]

/-- A sequence that returns has returned from both parts. -/
theorem bind_ok_inv {x : Exec K R F α} {f : α → Exec K R F β} {k k' : K} {b : β} {l : List R}
    (h : (x >>= f) k = .ok b k' l) :
    ∃ a k₁ l₁ l₂, x k = .ok a k₁ l₁ ∧ f a k₁ = .ok b k' l₂ := by
  cases hx : x k with
  | ok a k₁ l₁ =>
      rw [bind_ok hx] at h
      cases hf : f a k₁ with
      | ok b' k₂ l₂ =>
          rw [hf] at h
          cases h
          exact ⟨a, k₁, l₁, l₂, rfl, hf⟩
      | fault e l₂ =>
          rw [hf] at h
          cases h
  | fault e l₁ =>
      rw [bind_fault hx] at h
      cases h

@[simp] theorem pure_apply (a : α) (k : K) : (pure a : Exec K R F α) k = .ok a k [] := rfl

@[simp] theorem read_apply (k : K) : (read : Exec K R F K) k = .ok k k [] := rfl

@[simp] theorem modify_apply (g : K → K) (k : K) :
    (modify g : Exec K R F Unit) k = .ok () (g k) [] := rfl

@[simp] theorem fault_apply (f : F) (k : K) : (fault f : Exec K R F α) k = .fault f [] := rfl

@[simp] theorem pure_bind_apply (a : α) (f : α → Exec K R F β) (k : K) :
    ((pure a : Exec K R F α) >>= f) k = f a k := by
  rw [bind_ok (pure_apply a k), Outcome.after_nil]

@[simp] theorem read_bind_apply (f : K → Exec K R F β) (k : K) :
    ((read : Exec K R F K) >>= f) k = f k k := by
  rw [bind_ok (read_apply k), Outcome.after_nil]

@[simp] theorem modify_bind_apply (g : K → K) (f : Unit → Exec K R F β) (k : K) :
    ((modify g : Exec K R F Unit) >>= f) k = f () (g k) := by
  rw [bind_ok (modify_apply g k), Outcome.after_nil]

@[simp] theorem fault_bind_apply (e : F) (f : α → Exec K R F β) (k : K) :
    ((fault e : Exec K R F α) >>= f) k = .fault e [] := rfl

theorem bind_bind (x : Exec K R F α) (f : α → Exec K R F β) (g : β → Exec K R F γ) :
    x >>= f >>= g = x >>= fun a => f a >>= g := by
  funext k
  cases hx : x k with
  | ok a k₁ l₁ =>
      rw [bind_ok hx]
      cases hf : f a k₁ with
      | ok b k₂ l₂ =>
          have hxf : (x >>= f) k = .ok b k₂ (l₁ ++ l₂) := by
            rw [bind_ok hx, hf]
            rfl
          rw [bind_ok hxf, bind_ok hf, ← Outcome.after_after]
      | fault e l₂ =>
          have hxf : (x >>= f) k = .fault e (l₁ ++ l₂) := by
            rw [bind_ok hx, hf]
            rfl
          rw [bind_fault hxf, bind_fault hf]
          rfl
  | fault e l₁ => rw [bind_fault hx, bind_fault (bind_fault hx)]

/-- Only what the first part does from the state matters. -/
theorem bind_congr_apply {x y : Exec K R F α} {f : α → Exec K R F β} {k : K} (h : x k = y k) :
    (x >>= f) k = (y >>= f) k := by
  show (match x k with | .ok a k' l => (f a k').after l | .fault e l => .fault e l) = _
  rw [h]
  rfl

instance : LawfulMonad (Exec K R F) := LawfulMonad.mk' _
  (fun x => by
    funext k
    show (x >>= pure) k = x k
    cases hx : x k with
    | ok a k₁ l => rw [bind_ok hx, pure_apply]; simp [Outcome.after]
    | fault e l => rw [bind_fault hx])
  (fun a f => funext fun k => pure_bind_apply a f k)
  bind_bind


end Exec

/-- What a statement about programs relies on and promises. -/
structure Policy (R F : Type) where
  /-- events a run may rely on -/
  safe : R → Prop
  /-- events a run must show -/
  fine : R → Prop
  /-- faults a run may end in -/
  allowed : F → Prop

/-- Whatever happens there is no event and no fault. -/
def Policy.silent : Policy R F where
  safe _ := True
  fine _ := False
  allowed _ := False

/-- The outcome is as the policy asks, and a normal one satisfies `Q`, unless an unsafe event
has been logged. -/
def Yields (pol : Policy R F) (o : Outcome K R F α) (Q : α → K → Prop) : Prop :=
  match o with
  | .ok a k l => (∀ r ∈ l, pol.safe r) → (∀ r ∈ l, pol.fine r) ∧ Q a k
  | .fault f l => (∀ r ∈ l, pol.safe r) → (∀ r ∈ l, pol.fine r) ∧ pol.allowed f

namespace Yields

variable {pol : Policy R F} {Q : α → K → Prop} {Q' : β → K → Prop} {k : K}

theorem ok {a : α} (h : Q a k) : Yields pol (.ok a k ([] : List R)) Q :=
  fun _ => ⟨by simp, h⟩

theorem pure {a : α} (h : Q a k) : Yields pol ((Pure.pure a : Exec K R F α) k) Q := ok h

theorem fault {f : F} (h : pol.allowed f) :
    Yields pol (Outcome.fault f [] : Outcome K R F α) Q :=
  fun _ => ⟨by simp, h⟩

theorem mono {o : Outcome K R F α} {Q₁ : α → K → Prop} (h : Yields pol o Q₁)
    (himp : ∀ a k, Q₁ a k → Q a k) : Yields pol o Q := by
  cases o with
  | ok a k l => exact fun hs => ⟨(h hs).1, himp a k (h hs).2⟩
  | fault f l => exact h

/-- A policy that relies on more and promises less. -/
theorem weaken {pol' : Policy R F} {o : Outcome K R F α} (h : Yields pol o Q)
    (hsafe : ∀ r, pol'.safe r → pol.safe r) (hfine : ∀ r, pol.fine r → pol'.fine r)
    (hallowed : ∀ f, pol.allowed f → pol'.allowed f) : Yields pol' o Q := by
  cases o with
  | ok a k l =>
      intro hs
      obtain ⟨hfines, hQ⟩ := h fun r hr => hsafe r (hs r hr)
      exact ⟨fun r hr => hfine r (hfines r hr), hQ⟩
  | fault f l =>
      intro hs
      obtain ⟨hfines, hf⟩ := h fun r hr => hsafe r (hs r hr)
      exact ⟨fun r hr => hfine r (hfines r hr), hallowed f hf⟩

theorem and {o : Outcome K R F α} {Q₁ : α → K → Prop} (h : Yields pol o Q) (h₁ : Yields pol o Q₁) :
    Yields pol o fun a k => Q a k ∧ Q₁ a k := by
  cases o with
  | ok a k l => exact fun hs => ⟨(h hs).1, (h hs).2, (h₁ hs).2⟩
  | fault f l => exact h

/-- A postcondition that may use how the program has returned. -/
theorem mono_ok {o : Outcome K R F α} {Q₁ : α → K → Prop} (h : Yields pol o Q₁)
    (himp : ∀ a k l, o = .ok a k l → Q₁ a k → Q a k) : Yields pol o Q := by
  cases o with
  | ok a k l => exact fun hs => ⟨(h hs).1, himp a k l rfl (h hs).2⟩
  | fault f l => exact h

theorem after {o : Outcome K R F α} {l : List R} (hfine : (∀ r ∈ l, pol.safe r) →
    (∀ r ∈ l, pol.fine r) ∧ Yields pol o Q) : Yields pol (o.after l) Q := by
  have key : ∀ {l' : List R} {P : Prop}, ((∀ r ∈ l, pol.safe r) → (∀ r ∈ l, pol.fine r)
      ∧ ((∀ r ∈ l', pol.safe r) → (∀ r ∈ l', pol.fine r) ∧ P)) →
      (∀ r ∈ l ++ l', pol.safe r) → (∀ r ∈ l ++ l', pol.fine r) ∧ P := by
    intro l' P h hs
    obtain ⟨h₁, h₂⟩ := h fun r hr => hs r (List.mem_append_left _ hr)
    obtain ⟨h₃, hP⟩ := h₂ fun r hr => hs r (List.mem_append_right _ hr)
    refine ⟨fun r hr => ?_, hP⟩
    rcases List.mem_append.mp hr with hr | hr
    · exact h₁ r hr
    · exact h₃ r hr
  cases o with
  | ok a k l' => exact key hfine
  | fault f l' => exact key hfine

/-- **Sequencing.** -/
theorem bind {x : Exec K R F α} {f : α → Exec K R F β} (hx : Yields pol (x k) Q)
    (hf : ∀ a k', Q a k' → Yields pol (f a k') Q') : Yields pol ((x >>= f) k) Q' := by
  show Yields pol (match x k with | .ok a k' l => (f a k').after l | .fault e l => .fault e l) Q'
  cases hxk : x k with
  | ok a k' l =>
      rw [hxk] at hx
      exact after fun hs => ⟨(hx hs).1, hf a k' (hx hs).2⟩
  | fault e l =>
      rw [hxk] at hx
      exact hx

theorem zoom {J : Type} {get : K → J} {put : J → K → K} {x : Exec J R F α} {P : α → J → Prop}
    (hx : Yields pol (x (get k)) P) (himp : ∀ a j, P a j → Q a (put j k)) :
    Yields pol (Exec.zoom get put x k) Q := by
  rw [Exec.zoom]
  cases hxk : x (get k) with
  | ok a j l =>
      rw [hxk] at hx
      exact fun hs => ⟨(hx hs).1, himp a j (hx hs).2⟩
  | fault e l =>
      rw [hxk] at hx
      exact hx

/-- Logging an event: what follows may rely on it, if it is safe. -/
theorem emit_bind {r : R} {f : Unit → Exec K R F β}
    (h : pol.safe r → pol.fine r ∧ Yields pol (f () k) Q') :
    Yields pol ((Exec.emit r >>= f) k) Q' := by
  refine after fun hs => ?_
  obtain ⟨hr, hy⟩ := h (hs r (List.mem_singleton.mpr rfl))
  refine ⟨fun r' hr' => ?_, hy⟩
  rw [List.mem_singleton.mp hr']
  exact hr

/-- With no event ever unsafe and no fault allowed, the program returns with fine events. -/
theorem returns_fine {o : Outcome K R F α} (h : Yields pol o Q) (hsafe : ∀ r, pol.safe r)
    (hfault : ∀ f, ¬pol.allowed f) :
    ∃ a k l, o = .ok a k l ∧ (∀ r ∈ l, pol.fine r) ∧ Q a k := by
  cases o with
  | ok a k l => exact ⟨a, k, l, rfl, h fun r _ => hsafe r⟩
  | fault f l => exact absurd (h fun r _ => hsafe r).2 (hfault f)

theorem returns {o : Outcome K R F α} (h : Yields pol o Q) (hsafe : ∀ r, pol.safe r)
    (hfault : ∀ f, ¬pol.allowed f) : ∃ a k l, o = .ok a k l ∧ Q a k := by
  obtain ⟨a, k, l, heq, -, hQ⟩ := h.returns_fine hsafe hfault
  exact ⟨a, k, l, heq, hQ⟩

theorem silent {o : Outcome K R F α} (h : Yields Policy.silent o Q) :
    ∃ a k, o = .ok a k [] ∧ Q a k := by
  obtain ⟨a, k, l, heq, hfine, hQ⟩ := h.returns_fine (fun _ => trivial) fun _ => id
  have hlog : l = [] := List.eq_nil_iff_forall_not_mem.mpr hfine
  exact ⟨a, k, hlog ▸ heq, hQ⟩

end Yields
