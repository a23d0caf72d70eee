import NoobKernel.Lib.Exec

set_option autoImplicit false

/-! # Which locks a program may take

A state has locks, each held or not. `acquire` of a lock that is held already and `release` of
one that is not are faults. `Takes s pol A P x` says of a program `x`: from every state in which
none of the locks `A` is held, `x` ends in no fault that the policy forbids, and where it returns,
exactly the locks are held that were held before. `A` is the set of locks that `x` may take; what
is held besides makes no difference to it.

`Gives l` is the same for a program that starts with the lock `l` held and gives it back. The
rules follow the structure of a program: between an acquisition and the release on each path
there is a `Gives` (`Takes.acquire`, `Gives.release`), and a program under a lock must not take
that lock (`Gives.bind`). A part of the state that the rules keep track of (`frame`) is unchanged
by every program; `P` is a condition on it.
-/

/-- The locks of a state, and a part of it that is followed. -/
structure Locking (K L X : Type) where
  held : K → L → Bool
  set : K → L → Bool → K
  frame : K → X
  held_set_self : ∀ k l b, held (set k l b) l = b
  held_set_of_ne : ∀ k l b l', l' ≠ l → held (set k l b) l' = held k l'
  frame_set : ∀ k l b, frame (set k l b) = frame k

namespace Locking

variable {K L X R F α β : Type} (s : Locking K L X)

def acquire (e : F) (l : L) : Exec K R F Unit := do
  let k ← Exec.read
  if s.held k l then Exec.fault e else Exec.modify fun k => s.set k l true

def release (e : F) (l : L) : Exec K R F Unit := do
  let k ← Exec.read
  if s.held k l then Exec.modify fun k => s.set k l false else Exec.fault e

/-- The same locks, with a coarser frame. -/
def coarsen {Y : Type} (g : X → Y) : Locking K L Y where
  held := s.held
  set := s.set
  frame k := g (s.frame k)
  held_set_self := s.held_set_self
  held_set_of_ne := s.held_set_of_ne
  frame_set k l b := by rw [s.frame_set]

/-- The same locks are held, and the frame is the same. -/
structure Same (k k' : K) : Prop where
  held : ∀ l, s.held k' l = s.held k l
  frame : s.frame k' = s.frame k

/-- `k'` differs from `k` in that `l` is not held. -/
structure Given (l : L) (k k' : K) : Prop where
  self : s.held k' l = false
  held : ∀ l', l' ≠ l → s.held k' l' = s.held k l'
  frame : s.frame k' = s.frame k

/-- From `k`, where none of the locks `A` is held, the program keeps what is held. -/
def TakesAt (pol : Policy R F) (A : Set L) (x : Exec K R F α) (k : K) : Prop :=
  (∀ l ∈ A, s.held k l = false) → Yields pol (x k) fun _ k' => s.Same k k'

def Takes (pol : Policy R F) (A : Set L) (P : X → Prop) (x : Exec K R F α) : Prop :=
  ∀ k, P (s.frame k) → s.TakesAt pol A x k

/-- The same for a program that starts with `l` held and gives it back. -/
def Gives (pol : Policy R F) (l : L) (A : Set L) (P : X → Prop) (x : Exec K R F α) : Prop :=
  ∀ k, P (s.frame k) → s.held k l = true → (∀ l' ∈ A, l' ≠ l → s.held k l' = false) →
    Yields pol (x k) fun _ k' => s.Given l k k'

variable {s} {pol : Policy R F} {A B : Set L} {P : X → Prop} {l : L} {k : K}

theorem Same.refl (k : K) : s.Same k k := ⟨fun _ => rfl, rfl⟩

theorem Same.trans {k₁ k₂ k₃ : K} (h : s.Same k₁ k₂) (h' : s.Same k₂ k₃) : s.Same k₁ k₃ :=
  ⟨fun l => (h'.held l).trans (h.held l), h'.frame.trans h.frame⟩

theorem Same.given {k₁ k₂ k₃ : K} (h : s.Same k₁ k₂) (h' : s.Given l k₂ k₃) : s.Given l k₁ k₃ :=
  ⟨h'.self, fun l' hne => (h'.held l' hne).trans (h.held l'), h'.frame.trans h.frame⟩

theorem Given.same {k₁ k₂ k₃ : K} (h : s.Given l k₁ k₂) (h' : s.Same k₂ k₃) : s.Given l k₁ k₃ :=
  ⟨(h'.held l).trans h.self, fun l' hne => (h'.held l').trans (h.held l' hne),
    h'.frame.trans h.frame⟩

theorem given_set (k : K) (l : L) : s.Given l k (s.set k l false) :=
  ⟨s.held_set_self k l false, fun l' hne => s.held_set_of_ne k l false l' hne,
    s.frame_set k l false⟩

/-- Taking a lock that is not held and giving it back. -/
theorem Given.of_set {k₁ k₂ : K} (hfree : s.held k₁ l = false)
    (h : s.Given l (s.set k₁ l true) k₂) : s.Same k₁ k₂ := by
  refine ⟨fun l' => ?_, h.frame.trans (s.frame_set k₁ l true)⟩
  by_cases heq : l' = l
  · rw [heq, h.self, hfree]
  · rw [h.held l' heq, s.held_set_of_ne k₁ l true l' heq]

theorem acquire_apply {e : F} (h : s.held k l = false) :
    (s.acquire e l : Exec K R F Unit) k = .ok () (s.set k l true) [] := by
  rw [Locking.acquire, Exec.read_bind_apply, h]
  rfl

theorem release_apply {e : F} (h : s.held k l = true) :
    (s.release e l : Exec K R F Unit) k = .ok () (s.set k l false) [] := by
  rw [Locking.release, Exec.read_bind_apply, if_pos h]
  rfl

theorem acquire_held {e : F} (h : s.held k l = true) :
    (s.acquire e l : Exec K R F Unit) k = .fault e [] := by
  rw [Locking.acquire, Exec.read_bind_apply, if_pos h]
  rfl

/-! ## Programs that keep what is held -/

theorem TakesAt.bind {x : Exec K R F α} {f : α → Exec K R F β} (hx : s.TakesAt pol A x k)
    (hP : P (s.frame k)) (hf : ∀ a, s.Takes pol A P (f a)) : s.TakesAt pol A (x >>= f) k := by
  intro hfree
  refine Yields.bind (hx hfree) fun a k' hsame => ?_
  have hrest := hf a k' (hsame.frame ▸ hP) fun l hl => (hsame.held l).trans (hfree l hl)
  exact hrest.mono fun _ _ h => hsame.trans h

theorem TakesAt.mono {x : Exec K R F α} (h : s.TakesAt pol A x k) (hsub : A ⊆ B) :
    s.TakesAt pol B x k :=
  fun hfree => h fun l hl => hfree l (hsub hl)

theorem TakesAt.coarsen {Y : Type} {g : X → Y} {x : Exec K R F α} (h : s.TakesAt pol A x k) :
    (s.coarsen g).TakesAt pol A x k :=
  fun hfree => (h hfree).mono fun _ _ hsame => ⟨hsame.held, congrArg g hsame.frame⟩

namespace Takes

theorem mono {x : Exec K R F α} (h : s.Takes pol A P x) (hsub : A ⊆ B) : s.Takes pol B P x :=
  fun k hP => (h k hP).mono hsub

theorem weaken {x : Exec K R F α} {P' : X → Prop} (h : s.Takes pol A P x)
    (hP : ∀ f, P' f → P f) : s.Takes pol A P' x :=
  fun k hP' => h k (hP _ hP')

theorem coarsen {Y : Type} {g : X → Y} {Q : Y → Prop} {x : Exec K R F α}
    (h : s.Takes pol A (fun f => Q (g f)) x) : (s.coarsen g).Takes pol A Q x :=
  fun k hQ => (h k hQ).coarsen

theorem pure (a : α) : s.Takes pol A P (Pure.pure a : Exec K R F α) :=
  fun k _ _ => Yields.pure (Same.refl k)

theorem fault {f : F} (h : pol.allowed f) : s.Takes pol A P (Exec.fault f : Exec K R F α) :=
  fun _ _ _ => Yields.fault h

theorem modify {g : K → K} (h : ∀ k, s.Same k (g k)) :
    s.Takes pol A P (Exec.modify g : Exec K R F Unit) :=
  fun k _ _ => Yields.ok (h k)

/-- A lock that is initialised is free before. -/
theorem init (hl : l ∈ A) :
    s.Takes pol A P (Exec.modify fun k => s.set k l false : Exec K R F Unit) := by
  refine fun k _ hfree => Yields.ok ⟨fun l' => ?_, s.frame_set k l false⟩
  by_cases heq : l' = l
  · rw [heq, s.held_set_self, hfree l hl]
  · exact s.held_set_of_ne k l false l' heq

theorem bind {x : Exec K R F α} {f : α → Exec K R F β} (hx : s.Takes pol A P x)
    (hf : ∀ a, s.Takes pol A P (f a)) : s.Takes pol A P (x >>= f) :=
  fun k hP => (hx k hP).bind hP hf

/-- What follows a reading of the state may rely on what has been read. -/
theorem read_at {f : K → Exec K R F α} (h : ∀ k, P (s.frame k) → s.TakesAt pol A (f k) k) :
    s.Takes pol A P (Exec.read >>= f) := by
  intro k hP hfree
  rw [Exec.read_bind_apply]
  exact h k hP hfree

theorem read {f : K → Exec K R F α} (h : ∀ k, s.Takes pol A P (f k)) :
    s.Takes pol A P (Exec.read >>= f) :=
  read_at fun k hP => h k k hP

end Takes

/-! ## Programs that give a lock back -/

namespace Gives

theorem mono {x : Exec K R F α} (h : s.Gives pol l A P x) (hsub : A ⊆ B) : s.Gives pol l B P x :=
  fun k hP hheld hfree => h k hP hheld fun l' hl' => hfree l' (hsub hl')

theorem fault {f : F} (h : pol.allowed f) : s.Gives pol l A P (Exec.fault f : Exec K R F α) :=
  fun _ _ _ _ => Yields.fault h

/-- **Under a lock**, a program that does not take it. -/
theorem bind {x : Exec K R F α} {f : α → Exec K R F β} (hx : s.Takes pol B P x) (hl : l ∉ B)
    (hsub : B ⊆ A) (hf : ∀ a, s.Gives pol l A P (f a)) : s.Gives pol l A P (x >>= f) := by
  intro k hP hheld hfree
  have hfreeB : ∀ l' ∈ B, s.held k l' = false := fun l' hl' =>
    hfree l' (hsub hl') fun heq => hl (heq ▸ hl')
  refine Yields.bind (hx k hP hfreeB) fun a k' hsame => ?_
  refine (hf a k' (hsame.frame ▸ hP) ((hsame.held l).trans hheld) fun l' hl' hne => ?_).mono
    fun _ _ h => hsame.given h
  exact (hsame.held l').trans (hfree l' hl' hne)

/-- **Release.** -/
theorem release {e : F} {f : Unit → Exec K R F α} (h : s.Takes pol A P (f ())) :
    s.Gives pol l A P (s.release e l >>= f) := by
  intro k hP hheld hfree
  have hgiven := given_set (s := s) k l
  rw [Exec.bind_ok (release_apply hheld), Outcome.after_nil]
  refine (h _ (hgiven.frame ▸ hP) fun l' hl' => ?_).mono fun _ _ hsame => hgiven.same hsame
  by_cases heq : l' = l
  · rw [heq]
    exact hgiven.self
  · exact (hgiven.held l' heq).trans (hfree l' hl' heq)

theorem release_last {e : F} :
    s.Gives pol l A P (s.release e l : Exec K R F Unit) := by
  intro k _ hheld _
  rw [release_apply hheld]
  exact Yields.ok (given_set k l)

theorem read {f : K → Exec K R F α} (h : ∀ k, s.Gives pol l A P (f k)) :
    s.Gives pol l A P (Exec.read >>= f) := by
  intro k
  rw [Exec.read_bind_apply]
  exact h k k

/-- A program that takes no lock. -/
theorem quiet {x : Exec K R F α} {f : α → Exec K R F β} (hx : s.Takes pol ∅ P x)
    (hf : ∀ a, s.Gives pol l A P (f a)) : s.Gives pol l A P (x >>= f) :=
  bind hx (Set.notMem_empty l) (Set.empty_subset A) hf

end Gives

namespace Takes

/-- **Acquisition**: what follows gives the lock back. -/
theorem acquire {e : F} {f : Unit → Exec K R F α} (hl : l ∈ A) (h : s.Gives pol l A P (f ())) :
    s.Takes pol A P (s.acquire e l >>= f) := by
  intro k hP hfree
  have hnot := hfree l hl
  rw [Exec.bind_ok (acquire_apply hnot), Outcome.after_nil]
  refine (h _ ?_ (s.held_set_self k l true) fun l' hl' hne => ?_).mono fun _ _ => Given.of_set hnot
  · rwa [s.frame_set]
  · rw [s.held_set_of_ne k l true l' hne]
    exact hfree l' hl'

/-- **A lock that is taken unless it is held already**, for `x`; `y` gives it back. -/
theorem holding {e : F} {x y : Exec K R F α} (hx : s.Takes pol A P x) (hy : s.Gives pol l A P y) :
    s.Takes pol A P (do
      let k ← Exec.read
      if s.held k l then x
      else do
        s.acquire e l
        y) := by
  refine read_at fun k hP hfree => ?_
  split
  · exact hx k hP hfree
  · rename_i hnot
    have hsection : s.Takes pol (insert l A) P (s.acquire e l >>= fun _ => y) :=
      acquire (Set.mem_insert l A) (hy.mono (Set.subset_insert l A))
    refine hsection k hP fun l' hl' => ?_
    rcases Set.mem_insert_iff.mp hl' with rfl | hl'
    · exact Bool.eq_false_iff.mpr hnot
    · exact hfree l' hl'

end Takes

end Locking
