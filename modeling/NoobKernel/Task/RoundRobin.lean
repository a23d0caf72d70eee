import NoobKernel.Task.RunQueue

set_option autoImplicit false

/-! # Turns

Who gets the CPU is read off the log, as the list of its picks. In a first-in first-out order the
processes that wait are the next ones to be picked, whatever is created, yields or exits meanwhile
(`Fifo.next_picks`). For the scheduler: a process that yields runs again as soon as each process
that waits has had one turn (`round_robin`).
-/

namespace NoobKernel.Task

variable {P : Type} {idle p : P}

/-! ## Picks -/

def SchedEvent.picked : SchedEvent P → Option P
  | .pick p => some p
  | _ => none

/-- The processes picked, in order. -/
def picks (log : List (SchedEvent P)) : List P := log.filterMap SchedEvent.picked

@[simp] theorem picks_nil : picks ([] : List (SchedEvent P)) = [] := rfl

theorem picks_append (log log' : List (SchedEvent P)) :
    picks (log ++ log') = picks log ++ picks log' := List.filterMap_append

@[simp] theorem picks_pick (log : List (SchedEvent P)) (p : P) :
    picks (.pick p :: log) = p :: picks log := rfl

@[simp] theorem picks_enqueue (log : List (SchedEvent P)) (p : P) :
    picks (.enqueue p :: log) = picks log := rfl

@[simp] theorem picks_create (log : List (SchedEvent P)) (p : P) :
    picks (.create p :: log) = picks log := rfl

/-! ## The order of the picks -/

variable {log log' : List (SchedEvent P)} {queue queue' : List P}

theorem Fifo.of_create (h : Fifo idle (log ++ [.create p]) queue) : Fifo idle log queue := by
  generalize heq : log ++ [SchedEvent.create p] = whole at h
  cases h with
  | create q h =>
      obtain ⟨rfl, -⟩ := List.append_inj' heq rfl
      exact h
  | nil => exact absurd heq (List.append_ne_nil_of_right_ne_nil _ (List.cons_ne_nil _ _))
  | enqueue _ _ | pick _ | idle _ => cases (List.append_inj' heq rfl).2

theorem Fifo.of_enqueue (h : Fifo idle (log ++ [.enqueue p]) queue) :
    ∃ front, queue = front ++ [p] ∧ Fifo idle log front := by
  generalize heq : log ++ [SchedEvent.enqueue p] = whole at h
  cases h with
  | enqueue h _ =>
      obtain ⟨rfl, hlast⟩ := List.append_inj' heq rfl
      cases hlast
      exact ⟨_, rfl, h⟩
  | nil => exact absurd heq (List.append_ne_nil_of_right_ne_nil _ (List.cons_ne_nil _ _))
  | create _ _ | pick _ | idle _ => cases (List.append_inj' heq rfl).2

theorem Fifo.of_pick (h : Fifo idle (log ++ [.pick p]) queue) :
    Fifo idle log (p :: queue) ∨ (Fifo idle log [] ∧ queue = [] ∧ p = idle) := by
  generalize heq : log ++ [SchedEvent.pick p] = whole at h
  cases h with
  | pick h =>
      obtain ⟨rfl, hlast⟩ := List.append_inj' heq rfl
      cases hlast
      exact .inl h
  | idle h =>
      obtain ⟨rfl, hlast⟩ := List.append_inj' heq rfl
      cases hlast
      exact .inr ⟨h, rfl, rfl⟩
  | nil => exact absurd heq (List.append_ne_nil_of_right_ne_nil _ (List.cons_ne_nil _ _))
  | create _ _ | enqueue _ _ => cases (List.append_inj' heq rfl).2

/-- A log leaves one queue. -/
theorem Fifo.unique (h : Fifo idle log queue) (h' : Fifo idle log queue') : queue = queue' := by
  induction h generalizing queue' with
  | nil =>
      generalize heq : ([] : List (SchedEvent P)) = log at h'
      cases h' with
      | nil => rfl
      | create _ _ | enqueue _ _ | pick _ | idle _ =>
          exact absurd heq.symm (List.append_ne_nil_of_right_ne_nil _ (List.cons_ne_nil _ _))
  | create p _ ih => exact ih h'.of_create
  | enqueue _ _ ih =>
      obtain ⟨front, rfl, hfront⟩ := h'.of_enqueue
      rw [ih hfront]
  | pick _ ih =>
      rcases h'.of_pick with h' | ⟨h', -⟩
      · exact (List.cons.inj (ih h')).2
      · cases ih h'
  | idle _ ih =>
      rcases h'.of_pick with h' | ⟨-, rfl, -⟩
      · cases ih h'
      · rfl

/-- Those that wait have been picked in their order up to some point, and the rest of them still
waits in front; or they all have been picked. -/
theorem Fifo.served (h : Fifo idle log queue) (h' : Fifo idle (log ++ log') queue') :
    (∃ rest added, queue = picks log' ++ rest ∧ queue' = rest ++ added)
      ∨ queue <+: picks log' := by
  induction log' using List.reverseRecOn generalizing queue' with
  | nil =>
      rw [List.append_nil] at h'
      exact .inl ⟨queue, [], rfl, by rw [List.append_nil, h'.unique h]⟩
  | append_singleton log' e ih =>
      rw [← List.append_assoc] at h'
      rw [picks_append]
      cases e with
      | create p =>
          rw [picks_create, picks_nil, List.append_nil]
          exact ih h'.of_create
      | enqueue p =>
          rw [picks_enqueue, picks_nil, List.append_nil]
          obtain ⟨front, rfl, hfront⟩ := h'.of_enqueue
          refine (ih hfront).imp_left ?_
          rintro ⟨rest, added, hqueue, rfl⟩
          exact ⟨rest, added ++ [p], hqueue, List.append_assoc _ _ _⟩
      | pick p =>
          have hbefore : ∃ queue₀, Fifo idle (log ++ log') queue₀
              ∧ (queue₀ = p :: queue' ∨ queue₀ = []) :=
            h'.of_pick.elim (fun h => ⟨_, h, .inl rfl⟩) fun h => ⟨_, h.1, .inr rfl⟩
          obtain ⟨queue₀, h₀, hfront⟩ := hbefore
          rcases ih h₀ with ⟨rest, added, hqueue, happend⟩ | hall
          · cases rest with
            | nil =>
                rw [List.append_nil] at hqueue
                exact .inr (hqueue ▸ List.prefix_append _ _)
            | cons q rest =>
                -- the pick is the first of those that still wait
                rw [happend] at hfront
                rcases hfront with hfront | hfront
                · obtain ⟨rfl, rfl⟩ := List.cons.inj hfront
                  refine .inl ⟨rest, added, ?_, rfl⟩
                  rw [hqueue, picks_pick, picks_nil, List.append_assoc]
                  rfl
                · cases hfront
          · exact .inr (hall.trans (List.prefix_append _ _))

/-- **No overtaking.** Those that wait are the next ones to be picked. -/
theorem Fifo.next_picks (h : Fifo idle log queue) (h' : Fifo idle (log ++ log') queue') :
    queue.take (picks log').length <+: picks log' := by
  rcases h.served h' with ⟨rest, added, hqueue, -⟩ | hall
  · rw [hqueue, List.take_left]
  · exact (List.take_prefix _ _).trans hall

/-! ## The log of a run -/

/-- The actions that give the CPU to the next process. -/
def SchedAction.switches : SchedAction P → Bool
  | .create _ _ => false
  | .yield | .exit => true

variable [DecidableEq P] {s s' : Sched P} {state : P → ProcState} {runq : Links (Option P)}

theorem contextSwitchYield_log (idle : P) (s : Sched P) :
    ∃ x, (contextSwitchYield idle s).log = s.log ++ [.pick x]
      ∧ (contextSwitchYield idle s).proc = some x := by
  have hlog : (dequeueProc s).2.log = s.log := by
    unfold dequeueProc
    split <;> rfl
  refine ⟨(dequeueProc s).1.getD idle, ?_, rfl⟩
  rw [← hlog]
  unfold contextSwitchYield
  dsimp only
  split <;> rfl

/-- A running process waits again before the next one is picked. -/
theorem schedYield_log (hyield : schedYield idle s = some s') :
    ∃ x, s'.proc = some x ∧ ∃ p, s.proc = some p
      ∧ s'.log = s.log ++ (if s.state p = .running then [.enqueue p] else []) ++ [.pick x] := by
  unfold schedYield at hyield
  split at hyield
  · cases hyield
  · rename_i p hproc
    obtain rfl := Option.some.inj hyield
    obtain ⟨x, hlog, hx⟩ := contextSwitchYield_log idle _
    refine ⟨x, hx, p, hproc, hlog.trans (congrArg (· ++ [_]) ?_)⟩
    dsimp only
    split
    · rw [if_pos ‹_›]
      rfl
    · rw [if_neg ‹_›, List.append_nil]

theorem kthreadCreate_log (s : Sched P) (mem : Option P) (kstack : Bool) :
    (kthreadCreate s mem kstack).2.proc = s.proc
      ∧ ∃ new, (kthreadCreate s mem kstack).2.log = s.log ++ new ∧ picks new = [] := by
  cases mem with
  | none => exact ⟨rfl, [], (List.append_nil _).symm, rfl⟩
  | some p =>
      cases kstack with
      | false => exact ⟨rfl, [], (List.append_nil _).symm, rfl⟩
      | true => exact ⟨rfl, [.create p, .enqueue p], List.append_assoc _ _ _, rfl⟩

/-- One action picks one process or none. -/
theorem next_log {a : SchedAction P} (hnext : s.next idle a = some s') :
    ∃ new, s'.log = s.log ++ new ∧ (picks new).length = [a].countP SchedAction.switches
      ∧ s'.proc = (picks new).getLast?.or s.proc
      ∧ ∀ p, a = .yield → s.proc = some p → s.state p = .running →
        ∃ new', new = .enqueue p :: new' := by
  cases a with
  | create mem kstack =>
      obtain rfl := Option.some.inj hnext
      obtain ⟨hproc, new, hlog, hnew⟩ := kthreadCreate_log s mem kstack
      exact ⟨new, hlog, by rw [hnew]; rfl, by rw [hnew]; exact hproc, fun _ h => by cases h⟩
  | yield =>
      obtain ⟨x, hx, p, hproc, hlog⟩ := schedYield_log hnext
      rw [List.append_assoc] at hlog
      refine ⟨_, hlog, ?_, ?_, fun q _ hq hstate => ?_⟩
      · split <;> rfl
      · split <;> exact hx
      · obtain rfl := Option.some.inj (hproc.symm.trans hq)
        rw [if_pos hstate]
        exact ⟨_, rfl⟩
  | exit =>
      unfold Sched.next kthreadExit at hnext
      dsimp only at hnext
      split at hnext
      · cases hnext
      · obtain ⟨x, hx, p, hproc, hlog⟩ := schedYield_log hnext
        rw [List.append_assoc] at hlog
        refine ⟨_, hlog, ?_, ?_, fun _ h => by cases h⟩
        · split <;> rfl
        · split <;> exact hx

/-- The turns of a run. -/
theorem run_log {bs : List (SchedAction P)}
    (run : Lts.Run (Lts.Steps (Sched.next idle) (FreshProc idle)) s bs s') :
    ∃ new, s'.log = s.log ++ new ∧ (picks new).length = bs.countP SchedAction.switches
      ∧ s'.proc = (picks new).getLast?.or s.proc ∧ (bs = [] → s' = s)
      ∧ ∀ p cs, bs = .yield :: cs → s.proc = some p → s.state p = .running →
        ∃ new', new = .enqueue p :: new' := by
  induction run with
  | refl =>
      exact ⟨[], (List.append_nil _).symm, rfl, rfl, fun _ => rfl, fun _ _ h => by cases h⟩
  | @tail es t s' _ _ last ih =>
      obtain ⟨a, -, rfl, hnext⟩ := last
      obtain ⟨new, hlog, hcount, hproc, hnil, hfirst⟩ := ih
      obtain ⟨new', hlog', hcount', hproc', hyield⟩ := next_log hnext
      refine ⟨new ++ new', ?_, ?_, ?_, fun h => ?_, fun p cs hbs hp hstate => ?_⟩
      · rw [hlog', hlog, List.append_assoc]
      · rw [picks_append, List.length_append, hcount, hcount', ← List.countP_append]
        rfl
      · rw [hproc', hproc, picks_append, List.getLast?_append, Option.or_assoc]
      · exact absurd h (List.append_ne_nil_of_right_ne_nil _ (List.cons_ne_nil _ _))
      · cases es with
        | nil =>
            obtain rfl := hnil rfl
            obtain ⟨new'', rfl⟩ := hyield p (List.cons.inj hbs).1 hp hstate
            rw [List.self_eq_append_right.mp hlog]
            exact ⟨new'', rfl⟩
        | cons e es =>
            obtain ⟨new'', rfl⟩ := hfirst p es (by rw [(List.cons.inj hbs).1]) hp hstate
            exact ⟨new'' ++ new', rfl⟩

/-! ## Turns -/

theorem SchedRun.inv {as : List (SchedAction P)} (run : SchedRun idle state runq as s) :
    ∃ queue, SchedInv idle s queue := by
  refine run.invariant (P := fun s => ∃ queue, SchedInv idle s queue)
    ⟨[], schedInv_initCpu idle state runq⟩ ?_
  rintro s - s' ⟨queue, inv⟩ ⟨a, ha, -, hnext⟩
  exact inv.next ha hnext

theorem SchedInv.running (h : SchedInv idle s queue) (hproc : s.proc = some p) (hp : p ≠ idle) :
    s.state p = .running := by
  have hcreated := (h.current p hproc).resolve_left hp
  rcases h.placed p hcreated with ⟨-, hstate, -⟩ | ⟨hne, -⟩ | ⟨hne, -⟩
  · exact hstate
  · exact absurd hproc hne
  · exact absurd hproc hne

/-- **Round robin.** In every run the CPU goes, switch by switch, to the processes that wait, in the
order of the queue, whatever is created, yields or exits on the way; and the process that yields has
the CPU again right after each of them has had one turn. -/
theorem round_robin {as bs : List (SchedAction P)} (run : SchedRun idle state runq as s)
    (run' : Lts.Run (Lts.Steps (Sched.next idle) (FreshProc idle)) s bs s') :
    ∃ queue turns, s.runq.Circle none (queue.map some)
      ∧ picks s'.log = picks s.log ++ turns
      ∧ turns.length = bs.countP SchedAction.switches
      ∧ s'.proc = turns.getLast?.or s.proc
      ∧ queue.take turns.length <+: turns
      ∧ ∀ p cs, s.proc = some p → p ≠ idle → bs = .yield :: cs →
        (queue ++ [p]).take turns.length <+: turns := by
  obtain ⟨queue, inv⟩ := run.inv
  obtain ⟨queue', inv'⟩ : ∃ queue, SchedInv idle s' queue := by
    refine run'.invariant (P := fun s => ∃ queue, SchedInv idle s queue) ⟨queue, inv⟩ ?_
    rintro s - s' ⟨queue, inv⟩ ⟨a, ha, -, hnext⟩
    exact inv.next ha hnext
  obtain ⟨new, hlog, hcount, hproc, -, hyield⟩ := run_log run'
  have hfifo : Fifo idle (s.log ++ new) queue' := hlog ▸ inv'.fifo
  refine ⟨queue, picks new, inv.circle, by rw [hlog, picks_append], hcount, hproc,
    inv.fifo.next_picks hfifo, fun p cs hp hidle hbs => ?_⟩
  obtain ⟨new', rfl⟩ := hyield p cs hbs hp (inv.running hp hidle)
  -- with the process at its end the queue is a first-in first-out one again
  rw [List.append_cons] at hfifo
  rw [picks_enqueue]
  exact (inv.fifo.enqueue hidle).next_picks hfifo

/-- The first of three threads yields, and runs again after the others, one of which has exited. -/
theorem round_robin_three : ∃ (s s' : Sched Nat) (queue turns : List Nat),
    SchedRun 0 (fun _ => .unused) ⟨id, id⟩
        [.create (some 1) true, .create (some 2) true, .create (some 3) true, .yield] s
      ∧ s.proc = some 1
      ∧ Lts.Run (Lts.Steps (Sched.next 0) (FreshProc 0)) s
        [.yield, .create (some 4) true, .exit, .yield] s'
      ∧ picks s'.log = picks s.log ++ turns ∧ (queue ++ [1]).take 3 <+: turns := by
  have hexec : ((Lts.exec (Sched.next 0) (FreshProc 0) (initCpu 0 (fun _ => .unused) ⟨id, id⟩)
      [.create (some 1) true, .create (some 2) true, .create (some 3) true, .yield]).bind fun s =>
        (Lts.exec (Sched.next 0) (FreshProc 0) s
          [.yield, .create (some 4) true, .exit, .yield]).map fun _ => s.proc) =
      some (some 1) := by
    decide
  obtain ⟨s, hs, hrest⟩ := Option.bind_eq_some_iff.mp hexec
  obtain ⟨s', hs', hproc⟩ := Option.map_eq_some_iff.mp hrest
  obtain ⟨queue, turns, -, hpicks, hcount, -, -, hturn⟩ :=
    round_robin (Lts.run_of_exec hs) (Lts.run_of_exec hs')
  refine ⟨s, s', queue, turns, Lts.run_of_exec hs, hproc, Lts.run_of_exec hs', hpicks, ?_⟩
  have hprefix := hturn 1 _ hproc (by decide) rfl
  rwa [hcount] at hprefix

end NoobKernel.Task
