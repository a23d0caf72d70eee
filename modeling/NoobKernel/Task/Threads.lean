import NoobKernel.Lib.Lts
import NoobKernel.Trap.Kernelvec

set_option autoImplicit false

/-! # Threads on one hart (`task/switch.S`)

The threads of the kernel share one hart. Each has a `struct context` that `context_switch` saves
and loads, and a stack; what runs between two switches is any code that leaves the contexts and the
stacks of the other threads alone. `threads_refine` says what the switches are for: the hart with
its memory behaves as a machine in which every thread has registers and a stack of its own and a
switch only changes which of them runs.
-/

namespace NoobKernel.Task

open Rv64 Trap

/-! ## What a context holds -/

/-- The registers of the hart as a `struct context` has them. -/
def contextOf (h : Hart) : List Word := contextSlots.map (fun p => h.x p.1) ++ [h.csr .sstatus]

/-- The doublewords of the `struct context` at `ctx`. -/
def contextAt (mem : Word → Word) (ctx : Word) : List Word := (contextArea ctx).map mem

theorem contextArea_eq (ctx : Word) :
    contextArea ctx = slotAddrs ctx contextSlots ++ [ctx + BitVec.ofNat 64 120] := rfl

/-- The saving half writes what the hart has. -/
theorem contextAt_saveHalf (h : Hart) :
    contextAt (h.exec saveHalf).mem (h.x .a0) = contextOf h := by
  rw [contextAt, contextArea_eq, contextOf, List.map_append, slotAddrs, List.map_map]
  refine congrArg₂ (· ++ ·) ?_ ?_
  · exact List.map_congr_left fun p hp => saveHalf_mem h p hp
  · rw [exec_saveHalf]
    exact congrArg (fun v => [v]) (Hart.store_mem_self _ (h.addr .a0 120) (h.csr .sstatus))

/-- The loading half takes over what the context says. -/
theorem contextOf_loadHalf (h : Hart) :
    contextOf (h.exec loadHalf) = contextAt h.mem (h.x .a1) := by
  rw [contextAt, contextArea_eq, contextOf, List.map_append, slotAddrs, List.map_map]
  refine congrArg₂ (· ++ ·) ?_ ?_
  · exact List.map_congr_left fun p hp => loadHalf_x h p hp
  · have hmem := Hart.loads_mem .a1 contextSlots h
    have hbase := Hart.loads_x_of_notMem .a1 contextSlots h .a1 (by decide)
    rw [loadHalf, Hart.exec_append]
    generalize h.exec (loads .a1 contextSlots) = h₁ at hmem hbase ⊢
    simp only [Hart.exec_cons, Hart.exec_nil, Hart.step, Hart.setX_x_self, Hart.setCsr_csr_self,
      Hart.addr, hmem, hbase, List.map_cons, List.map_nil]

/-- Control goes to where the context says. -/
theorem loadHalf_pc (h : Hart) : (h.exec loadHalf).pc = (h.exec loadHalf).x .ra := by
  rw [loadHalf, Hart.exec_append]
  generalize h.exec (loads .a1 contextSlots) = h₁
  rfl

/-! ## The hart and its threads -/

/-- Where the threads have their contexts and stacks, none of which overlap. -/
structure ThreadMap (T : Type) where
  ctx : T → Word
  stack : T → List Word
  ctx_apart : ∀ t t', t ≠ t' → ∀ a ∈ contextArea (ctx t), a ∉ contextArea (ctx t')
  stack_ctx_apart : ∀ t t', ∀ a ∈ stack t, a ∉ contextArea (ctx t')
  stack_apart : ∀ t t', t ≠ t' → ∀ a ∈ stack t, a ∉ stack t'

structure OneHart (T : Type) where
  hart : Hart
  running : T

/-- What a thread has: the sixteen words of a context, and its stack. -/
structure Thread where
  regs : List Word
  stack : List Word
  deriving DecidableEq

inductive ThreadEvent (T : Type)
  | created (t : T) (th : Thread)
  /-- `t` is resumed, with `regs` -/
  | resumed (t : T) (regs : List Word)

variable {T : Type}

namespace ThreadMap

variable (c : ThreadMap T)

/-- The memory of `t` is the same. -/
def Keeps (t : T) (mem mem' : Word → Word) : Prop :=
  ∀ a ∈ contextArea (c.ctx t) ++ c.stack t, mem' a = mem a

/-- A step of what runs on the hart. -/
inductive Step : OneHart T → Option (ThreadEvent T) → OneHart T → Prop
  /-- any code of the thread that runs -/
  | work {s : OneHart T} {h : Hart} (others : ∀ t, t ≠ s.running → c.Keeps t s.hart.mem h.mem) :
      Step s none ⟨h, s.running⟩
  /-- code that sets up another thread -/
  | create {s : OneHart T} {h : Hart} {t : T} (other : t ≠ s.running)
      (others : ∀ t', t' ≠ s.running → t' ≠ t → c.Keeps t' s.hart.mem h.mem) :
      Step s (some (.created t ⟨contextAt h.mem (c.ctx t), (c.stack t).map h.mem⟩)) ⟨h, s.running⟩
  /-- `context_switch(old, new)`, of the thread that runs to any other, or to itself -/
  | switch {s : OneHart T} {t : T} (old : s.hart.x .a0 = c.ctx s.running)
      (new : s.hart.x .a1 = c.ctx t) :
      Step s (some (.resumed t (contextOf (s.hart.exec contextSwitch))))
        ⟨s.hart.exec contextSwitch, t⟩

end ThreadMap

/-! ## Threads of their own -/

/-- Threads that share nothing. -/
structure Threads (T : Type) where
  thread : T → Thread
  running : T

inductive Threads.Step [DecidableEq T] : Threads T → Option (ThreadEvent T) → Threads T → Prop
  | work {s : Threads T} (th : Thread) :
      Step s none { s with thread := Function.update s.thread s.running th }
  | create {s : Threads T} {t : T} (other : t ≠ s.running) (own th : Thread) :
      Step s (some (.created t th))
        { s with thread := Function.update (Function.update s.thread s.running own) t th }
  | switch {s : Threads T} (t : T) :
      Step s (some (.resumed t (s.thread t).regs)) { s with running := t }

/-! ## The hart behaves as threads of their own -/

variable [DecidableEq T] (c : ThreadMap T)

/-- What a thread has: on the hart if it runs, in its context if it does not. -/
def OneHart.threads (s : OneHart T) : Threads T where
  thread t := ⟨if t = s.running then contextOf s.hart else contextAt s.hart.mem (c.ctx t),
    (c.stack t).map s.hart.mem⟩
  running := s.running

variable {c} {s : OneHart T} {h : Hart}

/-- A thread that does not run has what its memory says. -/
theorem thread_of_ne {t : T} (hne : t ≠ s.running) :
    (s.threads c).thread t = ⟨contextAt s.hart.mem (c.ctx t), (c.stack t).map s.hart.mem⟩ := by
  simp [OneHart.threads, hne]

theorem ThreadMap.Keeps.thread_eq {t : T} (hne : t ≠ s.running)
    (keeps : c.Keeps t s.hart.mem h.mem) :
    ((⟨h, s.running⟩ : OneHart T).threads c).thread t = (s.threads c).thread t := by
  rw [thread_of_ne hne, thread_of_ne (s := ⟨h, s.running⟩) hne]
  refine congrArg₂ Thread.mk ?_ ?_
  · exact List.map_congr_left fun a ha => keeps a (List.mem_append_left _ ha)
  · exact List.map_congr_left fun a ha => keeps a (List.mem_append_right _ ha)

/-- **A switch** takes nothing from any thread: the one that has run finds on its next turn what it
has now, and so does the one that is resumed. -/
theorem threads_switch {t : T} (old : s.hart.x .a0 = c.ctx s.running)
    (new : s.hart.x .a1 = c.ctx t) :
    ((⟨s.hart.exec contextSwitch, t⟩ : OneHart T).threads c).thread = (s.threads c).thread := by
  have hmem : (s.hart.exec contextSwitch).mem = (s.hart.exec saveHalf).mem := by
    rw [exec_contextSwitch, loadHalf_mem]
  have hsame : ∀ a, a ∉ contextArea (c.ctx s.running) →
      (s.hart.exec saveHalf).mem a = s.hart.mem a := by
    intro a ha
    exact saveHalf_mem_of_notMem s.hart a (by rwa [old])
  -- the contexts after the switch, of all threads but the one resumed
  have hctx : ∀ t', contextAt (s.hart.exec saveHalf).mem (c.ctx t')
      = ((s.threads c).thread t').regs := by
    intro t'
    by_cases hrun : t' = s.running
    · rw [hrun, ← old, contextAt_saveHalf]
      simp [OneHart.threads]
    · rw [thread_of_ne hrun]
      exact List.map_congr_left fun a ha => hsame a (c.ctx_apart t' s.running hrun a ha)
  have hloaded : contextOf (s.hart.exec contextSwitch) = ((s.threads c).thread t).regs := by
    rw [exec_contextSwitch, contextOf_loadHalf, saveHalf_x (by decide), new, hctx]
  funext t'
  have hstack : (c.stack t').map (s.hart.exec contextSwitch).mem = (c.stack t').map s.hart.mem := by
    rw [hmem]
    exact List.map_congr_left fun a ha => hsame a (c.stack_ctx_apart t' s.running a ha)
  refine congrArg₂ Thread.mk ?_ hstack
  by_cases hnew : t' = t
  · rw [hnew, if_pos rfl, hloaded]
    rfl
  · rw [if_neg hnew, hmem, hctx]
    rfl

theorem threads_matched {e : Option (ThreadEvent T)} {s' : OneHart T} (hstep : c.Step s e s') :
    Threads.Step (s.threads c) e (s'.threads c) := by
  cases hstep with
  | @work h others =>
      have heq : (⟨h, s.running⟩ : OneHart T).threads c = { s.threads c with
          thread := Function.update (s.threads c).thread s.running
            (((⟨h, s.running⟩ : OneHart T).threads c).thread s.running) } := by
        refine congrArg₂ Threads.mk (funext fun t => ?_) rfl
        by_cases hrun : t = s.running
        · rw [hrun, Function.update_self]
          rfl
        · rw [Function.update_of_ne hrun]
          exact (others t hrun).thread_eq hrun
      rw [heq]
      exact .work _
  | @create h t other others =>
      have hcreated := thread_of_ne (c := c) (s := ⟨h, s.running⟩) other
      have heq : (⟨h, s.running⟩ : OneHart T).threads c = { s.threads c with
          thread := Function.update (Function.update (s.threads c).thread s.running
            (((⟨h, s.running⟩ : OneHart T).threads c).thread s.running)) t
              ⟨contextAt h.mem (c.ctx t), (c.stack t).map h.mem⟩ } := by
        refine congrArg₂ Threads.mk (funext fun t' => ?_) rfl
        by_cases hnew : t' = t
        · rw [hnew, Function.update_self, ← hcreated]
          rfl
        · rw [Function.update_of_ne hnew]
          by_cases hrun : t' = s.running
          · rw [hrun, Function.update_self]
            rfl
          · rw [Function.update_of_ne hrun]
            exact (others t' hrun hnew).thread_eq hrun
      rw [heq]
      exact .create other _ _
  | @switch t old new =>
      have hthread := threads_switch old new
      have hregs : contextOf (s.hart.exec contextSwitch) = ((s.threads c).thread t).regs := by
        rw [← hthread]
        simp [OneHart.threads]
      have heq : (⟨s.hart.exec contextSwitch, t⟩ : OneHart T).threads c
          = { s.threads c with running := t } := congrArg₂ Threads.mk hthread rfl
      rw [hregs, heq]
      exact .switch t

/-- **One hart runs as many.** Every run of the threads on one hart, with `context_switch` between
any of them in any order, is a run of threads that share nothing: what one of them does between two
switches changes its own registers and stack only, and it is resumed with those it had. -/
theorem threads_refine {es : List (ThreadEvent T)} {s s' : OneHart T}
    (run : Lts.Run c.Step s es s') : Lts.Run Threads.Step (s.threads c) es (s'.threads c) :=
  run.simulation (P := fun _ => True) trivial rfl (fun _ _ _ _ _ => trivial)
    fun _ _ _ _ hstep => .inr (threads_matched hstep)

/-- Two threads, the second with a stack of a page. -/
def twoThreads : ThreadMap Bool where
  ctx t := if t then 0x80401000 else 0x80400000
  stack t := if t then area 0x80402000 512 else []
  ctx_apart := by
    rintro (_ | _) (_ | _) hne a ha ha'
    · exact hne rfl
    · exact notMem_area_of_le (by decide) (by decide) ha ha'
    · exact notMem_area_of_le (by decide) (by decide) ha' ha
    · exact hne rfl
  stack_ctx_apart := by
    rintro (_ | _) t' a ha hctx
    · cases ha
    · cases t'
      · exact notMem_area_of_le (by decide) (by decide) hctx ha
      · exact notMem_area_of_le (by decide) (by decide) hctx ha
  stack_apart := by
    rintro (_ | _) (_ | _) hne a ha ha'
    · exact hne rfl
    · cases ha
    · cases ha'
    · exact hne rfl

/-- The first of them calls `context_switch`. -/
def creator : OneHart Bool :=
  ⟨⟨fun r => if r = .a0 then 0x80400000 else if r = .a1 then 0x80401000 else 0, fun _ => 0, 0,
    fun _ => 0⟩, false⟩

/-- There and back. -/
theorem threads_refine_back : ∃ es s', es.length = 2 ∧ s'.running = false
    ∧ Lts.Run Threads.Step (creator.threads twoThreads) es s' := by
  have there : twoThreads.Step creator _ _ := .switch (t := true) rfl rfl
  let away : OneHart Bool := ⟨creator.hart.exec contextSwitch, true⟩
  let h : Hart := (away.hart.setX .a0 0x80401000).setX .a1 0x80400000
  have work : twoThreads.Step away none ⟨h, true⟩ := .work fun _ _ _ _ => rfl
  have ha0 : h.x .a0 = 0x80401000 := by
    rw [Hart.setX_x_of_ne _ _ (by decide), Hart.setX_x_self]
  have back : twoThreads.Step ⟨h, true⟩ _ _ := .switch (t := false) ha0 (Hart.setX_x_self _ _ _)
  exact ⟨_, _, rfl, rfl, threads_refine (((Lts.Run.refl.tail there).tail work).tail back)⟩

/-! ## Threads that do not run -/

def ThreadEvent.thread : ThreadEvent T → T
  | .created t _ | .resumed t _ => t

/-- As long as a thread is not resumed, it has what it had. -/
theorem Threads.kept {a a' : Threads T} {es : List (ThreadEvent T)} {t : T}
    (run : Lts.Run Threads.Step a es a') (quiet : ∀ e ∈ es, e.thread ≠ t) (hne : t ≠ a.running) :
    a'.thread t = a.thread t ∧ t ≠ a'.running := by
  induction run with
  | refl => exact ⟨rfl, hne⟩
  | tail _ last ih =>
      obtain ⟨hthread, hrun⟩ := ih fun e he => quiet e (List.mem_append_left _ he)
      cases last with
      | work th =>
          refine ⟨?_, hrun⟩
          rw [← hthread]
          exact Function.update_of_ne hrun _ _
      | create other own th =>
          have hnew := quiet _ (List.mem_append_right _ List.mem_cons_self)
          refine ⟨?_, hrun⟩
          rw [← hthread]
          exact (Function.update_of_ne (Ne.symm hnew) _ _).trans (Function.update_of_ne hrun _ _)
      | switch t' =>
          have hnew := quiet _ (List.mem_append_right _ List.mem_cons_self)
          exact ⟨hthread, Ne.symm hnew⟩

end NoobKernel.Task
