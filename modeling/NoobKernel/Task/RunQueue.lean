import NoobKernel.Task.Sched

set_option autoImplicit false

/-! # Conservation of processes

`Fifo` is what a run queue is for, on the events alone: processes leave the queue in the order in
which they entered it, and the idle process is picked when nobody waits. The scheduler's log has
this form, with the list on the links of `runq` as the queue, and every created process is
`Placed`: it runs, it waits once in the queue, or it is a zombie.
-/

namespace NoobKernel.Task

variable {P : Type}

/-! ## First in, first out -/

/-- The events `log` have left `queue` waiting. -/
inductive Fifo (idle : P) : List (SchedEvent P) → List P → Prop
  | nil : Fifo idle [] []
  | create {log : List (SchedEvent P)} {queue : List P} (p : P) (h : Fifo idle log queue) :
      Fifo idle (log ++ [.create p]) queue
  | enqueue {log : List (SchedEvent P)} {queue : List P} {p : P} (h : Fifo idle log queue)
      (hp : p ≠ idle) : Fifo idle (log ++ [.enqueue p]) (queue ++ [p])
  | pick {log : List (SchedEvent P)} {queue : List P} {p : P} (h : Fifo idle log (p :: queue)) :
      Fifo idle (log ++ [.pick p]) queue
  | idle {log : List (SchedEvent P)} (h : Fifo idle log []) :
      Fifo idle (log ++ [.pick idle]) []

theorem Fifo.idle_not_mem {idle : P} {log : List (SchedEvent P)} {queue : List P}
    (h : Fifo idle log queue) : idle ∉ queue ∧ .enqueue idle ∉ log := by
  induction h with
  | nil => exact ⟨List.not_mem_nil, List.not_mem_nil⟩
  | create p h ih =>
      refine ⟨ih.1, fun hmem => ?_⟩
      rcases List.mem_append.mp hmem with hmem | hmem
      · exact ih.2 hmem
      · cases List.mem_singleton.mp hmem
  | enqueue h hp ih =>
      constructor <;> intro hmem <;> rcases List.mem_append.mp hmem with hmem | hmem
      · exact ih.1 hmem
      · exact hp (List.mem_singleton.mp hmem).symm
      · exact ih.2 hmem
      · cases List.mem_singleton.mp hmem
        exact hp rfl
  | pick h ih | idle h ih =>
      refine ⟨fun hmem => ih.1 (by first | exact List.mem_cons_of_mem _ hmem | exact hmem),
        fun hmem => ?_⟩
      rcases List.mem_append.mp hmem with hmem | hmem
      · exact ih.2 hmem
      · cases List.mem_singleton.mp hmem

/-! ## The invariant -/

variable [DecidableEq P]

/-- Where a process that has been created is. -/
def Placed (s : Sched P) (queue : List P) (p : P) : Prop :=
  (s.proc = some p ∧ s.state p = .running ∧ p ∉ queue)
    ∨ (s.proc ≠ some p ∧ s.state p = .runnable ∧ queue.count p = 1)
    ∨ (s.proc ≠ some p ∧ s.state p = .zombie ∧ p ∉ queue)

structure SchedInv (idle : P) (s : Sched P) (queue : List P) : Prop where
  circle : s.runq.Circle none (queue.map some)
  fifo : Fifo idle s.log queue
  placed : ∀ p, .create p ∈ s.log → Placed s queue p
  queued : ∀ p ∈ queue, .create p ∈ s.log
  current : ∀ p, s.proc = some p → p = idle ∨ .create p ∈ s.log
  idle_state : s.state idle ≠ .running
  idle_new : .create idle ∉ s.log

variable {idle p : P} {s s' : Sched P} {queue : List P} {state : P → ProcState}
  {runq : Links (Option P)}

theorem SchedInv.nodup (h : SchedInv idle s queue) : queue.Nodup :=
  List.Nodup.of_map some (List.nodup_cons.mp h.circle.1).2

theorem SchedInv.idle_not_mem (h : SchedInv idle s queue) : idle ∉ queue :=
  h.fifo.idle_not_mem.1

theorem schedInv_initCpu (idle : P) (state : P → ProcState) (runq : Links (Option P)) :
    SchedInv idle (initCpu idle state runq) [] where
  circle := Links.circle_init runq none
  fifo := .nil
  placed _ hp := absurd hp List.not_mem_nil
  queued _ hp := absurd hp List.not_mem_nil
  current _ hp := .inl (Option.some.inj hp).symm
  idle_state := by
    have hidle : (initCpu idle state runq).state idle = .idle := Function.update_self _ _ _
    rw [hidle]
    decide
  idle_new := List.not_mem_nil

/-- Entering the queue at its end. -/
theorem SchedInv.circle_enqueue (h : SchedInv idle s queue) (hp : p ∉ queue) :
    (s.runq.addTail (some p) none).Circle none ((queue ++ [p]).map some) := by
  rw [List.map_append]
  refine h.circle.addTail fun hmem => ?_
  rcases List.mem_cons.mp hmem with hnone | hmem
  · cases hnone
  · obtain ⟨q, hq, heq⟩ := List.mem_map.mp hmem
    exact hp (Option.some.inj heq ▸ hq)

omit [DecidableEq P] in
theorem mem_log_append {log : List (SchedEvent P)} {e : SchedEvent P} (he : e ≠ .create p) :
    .create p ∈ log ++ [e] ↔ .create p ∈ log := by
  rw [List.mem_append, List.mem_singleton]
  exact or_iff_left he.symm

theorem Placed.congr (h : Placed s queue p) (hproc : s'.proc = some p ↔ s.proc = some p)
    (hstate : s'.state p = s.state p) : Placed s' queue p := by
  unfold Placed
  rw [Ne, hproc, hstate]
  exact h

theorem Placed.append {q : P} (h : Placed s queue q) (hne : q ≠ p) :
    Placed s (queue ++ [p]) q := by
  have hmem : q ∈ queue ++ [p] ↔ q ∈ queue := by
    rw [List.mem_append, List.mem_singleton]
    exact or_iff_left hne
  have hcount : (queue ++ [p]).count q = queue.count q := by
    rw [List.count_append, List.count_singleton, if_neg (by simpa using hne.symm), Nat.add_zero]
  unfold Placed
  rw [hmem, hcount]
  exact h

/-- A runnable process that has entered the queue. -/
theorem placed_enqueued (hproc : s.proc ≠ some p) (hstate : s.state p = .runnable)
    (hnew : p ∉ queue) : Placed s (queue ++ [p]) p := by
  refine .inr (.inl ⟨hproc, hstate, ?_⟩)
  rw [List.count_append, List.count_eq_zero_of_not_mem hnew, List.count_singleton_self]

/-! ## Leaving the CPU -/

/-- The running process goes back into the queue. -/
theorem SchedInv.yielded (h : SchedInv idle s queue) (hproc : s.proc = some p)
    (hstate : s.state p = .running) :
    SchedInv idle { enqueueProc (s.setState p .runnable) p with proc := none }
      (queue ++ [p]) := by
  have hidle : p ≠ idle := fun heq => h.idle_state (heq ▸ hstate)
  have hcreated : .create p ∈ s.log := (h.current p hproc).resolve_left hidle
  -- a process that runs is in no queue
  have hnew : p ∉ queue := by
    rcases h.placed p hcreated with ⟨-, -, hq⟩ | ⟨hne, -⟩ | ⟨hne, -⟩
    · exact hq
    · exact absurd hproc hne
    · exact absurd hproc hne
  have hlog : ∀ q, .create q ∈ s.log ++ [.enqueue p] ↔ .create q ∈ s.log := fun q =>
    mem_log_append (by simp)
  constructor
  · exact h.circle_enqueue hnew
  · exact h.fifo.enqueue hidle
  · intro q hq
    by_cases hqp : q = p
    · subst hqp
      exact placed_enqueued (by simp) (Function.update_self _ _ _) hnew
    · refine ((h.placed q ((hlog q).mp hq)).append hqp).congr ?_ (Function.update_of_ne hqp _ _)
      rw [hproc, Option.some_inj]
      exact iff_of_false (by simp) (Ne.symm hqp)
  · intro q hq
    refine (hlog q).mpr ?_
    rcases List.mem_append.mp hq with hq | hq
    · exact h.queued q hq
    · exact List.mem_singleton.mp hq ▸ hcreated
  · intro q hq
    cases hq
  · exact fun heq => h.idle_state ((Function.update_of_ne hidle.symm _ _).symm.trans heq)
  · exact fun hmem => h.idle_new ((hlog idle).mp hmem)

/-- A process that does not run any more is left where it is. -/
theorem SchedInv.left (h : SchedInv idle s queue) (hproc : s.proc = some p)
    (hstate : s.state p ≠ .running) : SchedInv idle { s with proc := none } queue := by
  constructor
  · exact h.circle
  · exact h.fifo
  · intro q hq
    refine (h.placed q hq).congr ?_ rfl
    rcases h.placed q hq with ⟨hrun, hst, -⟩ | ⟨hne, -⟩ | ⟨hne, -⟩
    · obtain rfl := Option.some.inj (hproc.symm.trans hrun)
      exact absurd hst hstate
    · exact iff_of_false (by simp) hne
    · exact iff_of_false (by simp) hne
  · exact h.queued
  · intro q hq
    cases hq
  · exact h.idle_state
  · exact h.idle_new

/-- A process that exits becomes a zombie. -/
theorem SchedInv.exited (h : SchedInv idle s queue) (hproc : s.proc = some p) :
    SchedInv idle { s.setState p .zombie with proc := none } queue := by
  constructor
  · exact h.circle
  · exact h.fifo
  · intro q hq
    by_cases hqp : q = p
    · subst hqp
      refine .inr (.inr ⟨by simp, Function.update_self _ _ _, ?_⟩)
      rcases h.placed q hq with ⟨-, -, hout⟩ | ⟨hne, -⟩ | ⟨-, -, hout⟩
      · exact hout
      · exact absurd hproc hne
      · exact hout
    · refine (h.placed q hq).congr ?_ (Function.update_of_ne hqp _ _)
      rw [hproc, Option.some_inj]
      exact iff_of_false (by simp) (Ne.symm hqp)
  · exact h.queued
  · intro q hq
    cases hq
  · show Function.update s.state p .zombie idle ≠ .running
    by_cases hidle : idle = p
    · subst hidle
      rw [Function.update_self]
      decide
    · rw [Function.update_of_ne hidle]
      exact h.idle_state
  · exact h.idle_new

/-! ## Taking the CPU -/

/-- With nobody in the queue the idle process is picked. -/
theorem SchedInv.picked_idle (h : SchedInv idle s []) (hproc : s.proc = none) :
    SchedInv idle (contextSwitchYield idle s) [] := by
  have hempty : isRunqEmpty s = true := decide_eq_true h.circle.2.1
  have hlog : ∀ q, .create q ∈ s.log ++ [.pick idle] ↔ .create q ∈ s.log := fun q =>
    mem_log_append (by simp)
  have hnext : contextSwitchYield idle s
      = { s with proc := some idle, log := s.log ++ [.pick idle] } := by
    rw [contextSwitchYield, dequeueProc, if_pos hempty]
    simp
  rw [hnext]
  constructor
  · exact h.circle
  · exact h.fifo.idle
  · intro q hq
    refine (h.placed q ((hlog q).mp hq)).congr ?_ rfl
    rw [hproc, Option.some_inj]
    refine iff_of_false ?_ (by simp)
    rintro rfl
    exact h.idle_new ((hlog _).mp hq)
  · intro q hq
    cases hq
  · rintro q ⟨⟩
    exact .inl rfl
  · exact h.idle_state
  · exact fun hmem => h.idle_new ((hlog idle).mp hmem)

/-- The process at the front is picked. -/
theorem SchedInv.picked (h : SchedInv idle s (p :: queue)) (hproc : s.proc = none) :
    SchedInv idle (contextSwitchYield idle s) queue := by
  have hfront : s.runq.next none = some p := h.circle.2.1.1
  have hidle : p ≠ idle := fun heq => h.idle_not_mem (heq ▸ List.mem_cons_self)
  have hlog : ∀ q, .create q ∈ s.log ++ [.pick p] ↔ .create q ∈ s.log := fun q =>
    mem_log_append (by simp)
  have hnext : contextSwitchYield idle s = { s with
      proc := some p
      state := Function.update s.state p .running
      runq := s.runq.del (some p)
      log := s.log ++ [.pick p] } := by
    have hempty : isRunqEmpty s = false := decide_eq_false (by rw [hfront]; simp)
    rw [contextSwitchYield, dequeueProc, hempty, hfront]
    simp [Sched.setState, hidle]
  obtain ⟨hout, -⟩ := List.nodup_cons.mp h.nodup
  rw [hnext]
  constructor
  · exact h.circle.del_head
  · exact h.fifo.pick
  · intro q hq
    by_cases hqp : q = p
    · -- the process itself is running now, and once in the queue it was
      subst hqp
      exact .inl ⟨rfl, Function.update_self _ _ _, hout⟩
    · have hcount : (p :: queue).count q = queue.count q := List.count_cons_of_ne (Ne.symm hqp)
      have hmem : q ∈ p :: queue ↔ q ∈ queue := by
        rw [List.mem_cons]
        exact or_iff_right hqp
      -- the others are where they were: taking the front off does not count for them
      have hold : Placed s queue q := by
        have hq' := h.placed q ((hlog q).mp hq)
        unfold Placed at hq'
        rwa [hcount, hmem] at hq'
      refine hold.congr ?_ (Function.update_of_ne hqp _ _)
      rw [hproc, Option.some_inj]
      exact iff_of_false (Ne.symm hqp) (by simp)
  · exact fun q hq => (hlog q).mpr (h.queued q (List.mem_cons_of_mem _ hq))
  · rintro q ⟨⟩
    exact .inr ((hlog p).mpr (h.queued p List.mem_cons_self))
  · exact fun heq => h.idle_state ((Function.update_of_ne hidle.symm _ _).symm.trans heq)
  · exact fun hmem => h.idle_new ((hlog idle).mp hmem)

theorem SchedInv.contextSwitchYield (h : SchedInv idle s queue) (hproc : s.proc = none) :
    ∃ queue', SchedInv idle (contextSwitchYield idle s) queue' := by
  cases queue with
  | nil => exact ⟨[], h.picked_idle hproc⟩
  | cons p queue => exact ⟨queue, h.picked hproc⟩

/-! ## The operations -/

theorem SchedInv.schedYield (h : SchedInv idle s queue)
    (hyield : schedYield idle s = some s') : ∃ queue', SchedInv idle s' queue' := by
  unfold Task.schedYield at hyield
  split at hyield
  · cases hyield
  · rename_i p hproc
    obtain rfl := Option.some.inj hyield
    by_cases hstate : s.state p = .running
    · rw [hstate]
      exact (h.yielded hproc hstate).contextSwitchYield rfl
    · have hleft := h.left hproc hstate
      split
      · exact absurd ‹_› hstate
      · exact hleft.contextSwitchYield rfl

theorem SchedInv.kthreadExit (h : SchedInv idle s queue)
    (hexit : kthreadExit idle s = some s') : ∃ queue', SchedInv idle s' queue' := by
  unfold Task.kthreadExit at hexit
  split at hexit
  · cases hexit
  · rename_i p hproc
    have hzombie : (s.setState p .zombie).state p = .zombie := Function.update_self _ _ _
    have hyield : Task.schedYield idle (s.setState p .zombie)
        = some (Task.contextSwitchYield idle { s.setState p .zombie with proc := none }) := by
      unfold Task.schedYield
      rw [show (s.setState p .zombie).proc = some p from hproc]
      simp only [hzombie]
    rw [hyield] at hexit
    obtain rfl := Option.some.inj hexit
    exact (h.exited hproc).contextSwitchYield rfl

theorem SchedInv.kthreadCreate (h : SchedInv idle s queue) (mem : Option P) (kstack : Bool)
    (hfresh : ∀ p, mem = some p → p ≠ idle ∧ .create p ∉ s.log) :
    ∃ queue', SchedInv idle (kthreadCreate s mem kstack).2 queue' := by
  cases mem with
  | none => exact ⟨queue, h⟩
  | some p =>
      obtain ⟨hidle, hcreate⟩ := hfresh p rfl
      have hnew : p ∉ queue := fun hmem => hcreate (h.queued p hmem)
      have hproc : s.proc ≠ some p := fun heq =>
        (h.current p heq).elim hidle hcreate
      -- the memory of the new process is that of none before it
      have hother : ∀ (state : ProcState) q, .create q ∈ s.log →
          Function.update s.state p state q = s.state q := by
        intro state q hq
        refine Function.update_of_ne ?_ _ _
        rintro rfl
        exact hcreate hq
      have hidle_state : ∀ state : ProcState,
          Function.update s.state p state idle ≠ .running := fun _ heq =>
        h.idle_state ((Function.update_of_ne hidle.symm _ _).symm.trans heq)
      cases kstack with
      | false =>
          -- without a stack the process is given up before it is in the log
          refine ⟨queue, h.circle, h.fifo, fun q hq => ?_, h.queued, h.current, hidle_state _,
            h.idle_new⟩
          exact (h.placed q hq).congr Iff.rfl (hother _ q hq)
      | true =>
          have hlog : ∀ q, .create q ∈ s.log ++ [.create p] ++ [.enqueue p]
              ↔ .create q ∈ s.log ∨ q = p := by
            intro q
            rw [mem_log_append (by simp), List.mem_append, List.mem_singleton,
              SchedEvent.create.injEq]
          have hstate : ((s.setState p .unused).setState p .runnable).state
              = Function.update s.state p .runnable := Function.update_idem _ _ _
          refine ⟨queue ++ [p], h.circle_enqueue hnew, (h.fifo.create p).enqueue hidle,
            fun q hq => ?_, fun q hq => (hlog q).mpr ?_, fun q hq => ?_, ?_, fun hmem => ?_⟩
          · rcases (hlog q).mp hq with hq | rfl
            · have hqp : q ≠ p := fun heq => hcreate (heq ▸ hq)
              exact ((h.placed q hq).append hqp).congr Iff.rfl
                ((congrFun hstate q).trans (hother _ q hq))
            · exact placed_enqueued hproc
                ((congrFun hstate q).trans (Function.update_self _ _ _)) hnew
          · rcases List.mem_append.mp hq with hq | hq
            · exact .inl (h.queued q hq)
            · exact .inr (List.mem_singleton.mp hq)
          · exact (h.current q hq).imp_right fun hq => (hlog q).mpr (.inl hq)
          · exact fun heq => hidle_state .runnable ((congrFun hstate idle).symm.trans heq)
          · rcases (hlog idle).mp hmem with hmem | hmem
            · exact h.idle_new hmem
            · exact hidle hmem.symm

theorem SchedInv.next (h : SchedInv idle s queue) {a : SchedAction P} (ha : FreshProc idle s a)
    (hnext : s.next idle a = some s') : ∃ queue', SchedInv idle s' queue' := by
  cases a with
  | create mem kstack =>
      obtain rfl := Option.some.inj hnext
      refine h.kthreadCreate mem kstack ?_
      rintro p rfl
      exact ha
  | yield => exact h.schedYield hnext
  | exit => exact h.kthreadExit hnext

/-! ## Runs -/

/-- There is a current process, and it stays so. -/
theorem next_proc {a : SchedAction P} (hproc : s.proc.isSome) :
    ∃ s', s.next idle a = some s' ∧ s'.proc.isSome := by
  obtain ⟨p, hp⟩ := Option.isSome_iff_exists.mp hproc
  have hyield : ∀ s : Sched P, s.proc = some p →
      ∃ s', schedYield idle s = some s' ∧ s'.proc.isSome := by
    intro s hp
    unfold schedYield
    rw [hp]
    exact ⟨_, rfl, rfl⟩
  cases a with
  | create mem kstack =>
      refine ⟨_, rfl, ?_⟩
      cases mem with
      | none => exact hproc
      | some q => cases kstack <;> exact hproc
  | yield => exact hyield s hp
  | exit =>
      rw [Sched.next, kthreadExit, hp]
      exact hyield _ hp

/-- **Processes are conserved.** In every run each created process runs, waits once in the queue
or is a zombie; the queue is served in order, and the idle process never enters it and is picked
only when it is empty; and no operation panics. -/
theorem runq_conserved {as : List (SchedAction P)} (run : SchedRun idle state runq as s) :
    (∃ queue, s.runq.Circle none (queue.map some) ∧ Fifo idle s.log queue
        ∧ idle ∉ queue ∧ .enqueue idle ∉ s.log
        ∧ ∀ p, .create p ∈ s.log → Placed s queue p)
      ∧ ∀ a, (s.next idle a).isSome := by
  have hinv : ∃ queue, SchedInv idle s queue := by
    refine run.invariant (P := fun s => ∃ queue, SchedInv idle s queue)
      ⟨[], schedInv_initCpu idle state runq⟩ ?_
    rintro s - s' ⟨queue, inv⟩ ⟨a, ha, -, hnext⟩
    exact inv.next ha hnext
  have hproc : s.proc.isSome := by
    refine run.invariant (P := fun s => s.proc.isSome) rfl ?_
    rintro s - s' hproc ⟨a, -, -, hnext⟩
    obtain ⟨_, hnext', hproc'⟩ := next_proc hproc
    obtain rfl := Option.some.inj (hnext.symm.trans hnext')
    exact hproc'
  obtain ⟨queue, inv⟩ := hinv
  constructor
  · exact ⟨queue, inv.circle, inv.fifo, inv.idle_not_mem, inv.fifo.idle_not_mem.2, inv.placed⟩
  · intro a
    obtain ⟨s', hnext, -⟩ := next_proc hproc
    rw [hnext]
    rfl

/-- Two threads take turns; the first one exits, then the second. -/
theorem runq_conserved_two :
    ∃ s : Sched Nat, SchedRun 0 (fun _ => .unused) ⟨id, id⟩
        [.create (some 1) true, .create (some 2) true, .yield, .yield, .yield, .exit, .exit] s
      ∧ s.log = [.create 1, .enqueue 1, .create 2, .enqueue 2, .pick 1, .enqueue 1, .pick 2,
          .enqueue 2, .pick 1, .pick 2, .pick 0]
      ∧ ∃ queue, Fifo 0 s.log queue := by
  have hexec : (Lts.exec (Sched.next 0) (FreshProc 0) (initCpu 0 (fun _ => .unused) ⟨id, id⟩)
      [.create (some 1) true, .create (some 2) true, .yield, .yield, .yield, .exit, .exit]).map
        Sched.log = some [.create 1, .enqueue 1, .create 2, .enqueue 2, .pick 1, .enqueue 1,
          .pick 2, .enqueue 2, .pick 1, .pick 2, .pick 0] := by
    decide
  obtain ⟨s, hs, hlog⟩ := Option.map_eq_some_iff.mp hexec
  obtain ⟨⟨queue, -, hfifo, -⟩, -⟩ := runq_conserved (Lts.run_of_exec hs)
  exact ⟨s, Lts.run_of_exec hs, hlog, queue, hfifo⟩

end NoobKernel.Task
