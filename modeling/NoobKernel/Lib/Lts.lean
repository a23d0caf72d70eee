import Mathlib.Tactic

set_option autoImplicit false

/-! # Labelled runs

A transition system over states `S` whose steps are silent (`none`) or carry an observable
event (`some l`). A run collects the events in order. An invariant is carried along a run
(`Run.invariant`), and a system whose every step is matched by a second one, up to silent
steps, has no traces the second one lacks (`Run.simulation`).

A system may also be a function of the state and an action (`Steps`); a list of actions is then
executed, and what it reaches is reached by a run (`run_of_exec`). `Throughout` is about all states
on the way; where single actions can end a property, `throughout_iff_allowed` says which.
-/

namespace Lts

variable {S A L : Type}

/-- A run with its observable events, oldest first. -/
inductive Run (step : S → Option L → S → Prop) (s₀ : S) : List L → S → Prop
  | refl : Run step s₀ [] s₀
  | tail {es : List L} {s t : S} {e : Option L} (run : Run step s₀ es s) (last : step s e t) :
      Run step s₀ (es ++ e.toList) t

namespace Run

variable {step : S → Option L → S → Prop} {s₀ s t : S} {es : List L}

theorem silent (run : Run step s₀ es s) (last : step s none t) : Run step s₀ es t := by
  have := run.tail last
  rwa [Option.toList_none, List.append_nil] at this

/-- A property that holds at the start and that every step preserves holds at the end. -/
theorem invariant {P : S → Prop} (init : P s₀) (preserved : ∀ s e t, P s → step s e t → P t)
    (run : Run step s₀ es s) : P s := by
  induction run with
  | refl => exact init
  | tail _ last ih => exact preserved _ _ _ ih last

/-- **Forward simulation.** If every step from a state with the invariant is matched by a run
of the second system over the same event, every run is. -/
theorem simulation {astep : A → Option L → A → Prop} {a₀ : A} {P : S → Prop} {abs : S → A}
    (init : P s₀) (start : abs s₀ = a₀) (preserved : ∀ s e t, P s → step s e t → P t)
    (matched : ∀ s e t, P s → step s e t →
      (e = none ∧ abs t = abs s) ∨ astep (abs s) e (abs t))
    (run : Run step s₀ es s) : Run astep a₀ es (abs s) := by
  induction run with
  | refl => rw [← start]; exact .refl
  | tail run last ih =>
      rcases matched _ _ _ (run.invariant init preserved) last with ⟨rfl, heq⟩ | hstep
      · rw [Option.toList_none, List.append_nil, heq]
        exact ih
      · exact ih.tail hstep

end Run

/-! ## Systems given by a function -/

/-- The steps of `next`, of those actions that are allowed where they are taken. -/
def Steps (next : S → L → Option S) (ok : S → L → Prop) (s : S) (e : Option L) (t : S) : Prop :=
  ∃ a, ok s a ∧ e = some a ∧ next s a = some t

/-- The actions one after the other, as long as they are allowed and can be taken. -/
def exec (next : S → L → Option S) (ok : S → L → Prop) [∀ s a, Decidable (ok s a)] (s : S)
    (as : List L) : Option S :=
  as.foldlM (fun s a => if ok s a then next s a else none) s

theorem run_of_exec {next : S → L → Option S} {ok : S → L → Prop} [∀ s a, Decidable (ok s a)]
    {s t : S} {as : List L} (h : exec next ok s as = some t) : Run (Steps next ok) s as t := by
  induction as using List.reverseRecOn generalizing t with
  | nil =>
      obtain rfl := Option.some.inj h
      exact .refl
  | append_singleton as a ih =>
      unfold exec at h ih
      rw [List.foldlM_append, Option.bind_eq_bind, Option.bind_eq_some_iff] at h
      obtain ⟨u, hu, hlast⟩ := h
      simp only [List.foldlM_cons, List.foldlM_nil, bind_pure] at hlast
      split at hlast
      · rename_i hok
        exact (ih hu).tail (e := some a) ⟨a, hok, rfl, hlast⟩
      · cases hlast

/-- Where every state with the invariant has a next one, all actions are executed. -/
theorem exec_isSome {next : S → L → Option S} {J : S → Prop}
    (keeps : ∀ s a t, J s → next s a = some t → J t) (total : ∀ s a, J s → ∃ t, next s a = some t)
    {s : S} (start : J s) (as : List L) : ∃ t, exec next (fun _ _ => True) s as = some t ∧ J t := by
  induction as generalizing s with
  | nil => exact ⟨s, rfl, start⟩
  | cons a as ih =>
      obtain ⟨u, hu⟩ := total s a start
      obtain ⟨t, ht, hJ⟩ := ih (keeps s a u start hu)
      refine ⟨t, ?_, hJ⟩
      unfold exec at ht ⊢
      rw [List.foldlM_cons, if_pos trivial, hu]
      exact ht

/-! ### What is seen of a run -/

section Observe

variable {B : Type} {next : S → B → Option S} {see : S → B → Option L}

/-- The steps of `next`, with what is seen of them. -/
def Observed (next : S → B → Option S) (see : S → B → Option L) (s : S) (e : Option L) (t : S) :
    Prop :=
  ∃ a, e = see s a ∧ next s a = some t

/-- The actions one after the other, and all that is seen. -/
def observe (next : S → B → Option S) (see : S → B → Option L) : S → List B → Option (List L × S)
  | s, [] => some ([], s)
  | s, a :: as => do
      let t ← next s a
      let (es, u) ← observe next see t as
      some ((see s a).toList ++ es, u)

theorem Run.head {step : S → Option L → S → Prop} {s t u : S} {e : Option L} {es : List L}
    (first : step s e t) (run : Run step t es u) : Run step s (e.toList ++ es) u := by
  induction run with
  | refl =>
      have hone : Run step s ([] ++ e.toList) t := Run.refl.tail first
      rwa [List.nil_append, ← List.append_nil e.toList] at hone
  | tail _ last ih =>
      rw [← List.append_assoc]
      exact ih.tail last

theorem run_of_observe {s t : S} {as : List B} {es : List L}
    (h : observe next see s as = some (es, t)) : Run (Observed next see) s es t := by
  induction as generalizing s es with
  | nil =>
      obtain ⟨rfl, rfl⟩ := Prod.mk.inj (Option.some.inj h)
      exact .refl
  | cons a as ih =>
      simp only [observe, Option.bind_eq_bind, Option.bind_eq_some_iff] at h
      obtain ⟨u, hu, ⟨es', t'⟩, hrest, hend⟩ := h
      obtain ⟨rfl, rfl⟩ := Prod.mk.inj (Option.some.inj hend)
      exact Run.head ⟨a, rfl, hu⟩ (ih hrest)

end Observe

/-! ### All states of a run -/

section Throughout

variable {next : S → L → Option S} {ok : S → L → Prop} {P J : S → Prop} {s t : S} {as : List L}

/-- `P` holds where the actions start and after each of them, as long as they can be taken. -/
def Throughout (next : S → L → Option S) (P : S → Prop) : S → List L → Prop
  | s, [] => P s
  | s, a :: as => P s ∧ ∀ t, next s a = some t → Throughout next P t as

/-- The actions are allowed where they are taken. -/
def Allowed (next : S → L → Option S) (ok : S → L → Prop) : S → List L → Prop
  | _, [] => True
  | s, a :: as => ∀ t, next s a = some t → ok s a ∧ Allowed next ok t as

theorem Throughout.head (h : Throughout next P s as) : P s := by
  cases as with
  | nil => exact h
  | cons a as => exact h.1

theorem Throughout.of_exec (h : Throughout next P s as)
    (run : exec next (fun _ _ => True) s as = some t) : P t := by
  induction as generalizing s with
  | nil =>
      obtain rfl := Option.some.inj run
      exact h
  | cons a as ih =>
      unfold exec at run
      rw [List.foldlM_cons, if_pos trivial, Option.bind_eq_bind, Option.bind_eq_some_iff] at run
      obtain ⟨u, hu, hrest⟩ := run
      exact ih (h.2 u hu) hrest

/-- **What decides a property of all states.** The allowed actions keep an invariant that gives
the property, and the others end it. -/
theorem throughout_iff_allowed (gives : ∀ s, J s → P s)
    (keeps : ∀ s a t, J s → next s a = some t → ok s a → J t)
    (ends : ∀ s a t, J s → next s a = some t → P t → ok s a) (start : J s) :
    Throughout next P s as ↔ Allowed next ok s as := by
  induction as generalizing s with
  | nil => exact iff_of_true (gives s start) trivial
  | cons a as ih =>
      constructor
      · intro h t ht
        have hok := ends s a t start ht (h.2 t ht).head
        exact ⟨hok, (ih (keeps s a t start ht hok)).mp (h.2 t ht)⟩
      · intro h
        refine ⟨gives s start, fun t ht => ?_⟩
        obtain ⟨hok, hrest⟩ := h t ht
        exact (ih (keeps s a t start ht hok)).mpr hrest

end Throughout

end Lts
