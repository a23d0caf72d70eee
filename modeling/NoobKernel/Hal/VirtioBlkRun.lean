import NoobKernel.Hal.VirtioBlk
import NoobKernel.Lib.Lts

set_option autoImplicit false

/-! # Calls of the block driver and their requests

Any number of calls of `virtio_blk_rw_internal` wait at a time. Each of them polls the used ring for
all, as the interrupt handler `virtio_blk_isr` does in rounds of the same loop, and the device
finishes requests in any order. A round gets one report and marks its request completed, without
being interrupted by another one.

A call is, for its caller, one request to the device and one answer. In every interleaving this is
what calls are (`blk_calls_refine`): no completion is lost, none goes to another call or into memory
that has been freed, and a call returns by the status the device has written for it.
-/

namespace NoobKernel.Hal

/-! ## The system -/

/-- The queue with the requests on their way, the memory of the requests and those whose calls have
not returned. -/
structure BlkState where
  queue : QueueState Nat
  capacity : Nat
  reqs : Nat → VirtioBlkRequest
  waiting : List Nat

def BlkState.dev (s : BlkState) : VirtioBlkDevice := ⟨some s.queue.vq, s.capacity, s.reqs⟩

def BlkState.initial (num capacity : Nat) (reqs : Nat → VirtioBlkRequest) : BlkState :=
  ⟨QueueState.initial Nat num, capacity, reqs, []⟩

inductive BlkEvent
  | call (req : Nat)
  | finish (req status : Nat)
  | ret (req : Nat) (ret : Int)

/-- The last lines of `virtio_blk_rw_internal`. -/
def blkRet (status : Nat) : Int := if status ≠ VIRTIO_BLK_S_OK then -1 else 0

namespace BlkState

/-- What a call, the device, a round and a return do besides what they write to the queue and to
the requests: the requests on their way and the calls that wait. -/
def call (s : BlkState) (r : Request Nat) (vq : Virtq Nat) (reqs : Nat → VirtioBlkRequest) :
    BlkState where
  queue := ⟨vq, s.queue.inflight ++ [r], s.queue.reported, s.queue.accepted ++ [r],
    s.queue.returned⟩
  capacity := s.capacity
  reqs := reqs
  waiting := s.waiting ++ [r.token]

def refuse (s : BlkState) (vq : Virtq Nat) (reqs : Nat → VirtioBlkRequest) : BlkState where
  queue := ⟨vq, s.queue.inflight, s.queue.reported, s.queue.accepted, s.queue.returned⟩
  capacity := s.capacity
  reqs := reqs
  waiting := s.waiting

def finish (s : BlkState) (r : Request Nat) (inflight : List (Request Nat)) (vq : Virtq Nat)
    (reqs : Nat → VirtioBlkRequest) : BlkState where
  queue := ⟨vq, inflight, s.queue.reported ++ [r], s.queue.accepted, s.queue.returned⟩
  capacity := s.capacity
  reqs := reqs
  waiting := s.waiting

/-- The oldest report is gone, if there was one. -/
def poll (s : BlkState) (vq : Virtq Nat) (reqs : Nat → VirtioBlkRequest) : BlkState where
  queue := ⟨vq, s.queue.inflight, s.queue.reported.tail, s.queue.accepted,
    s.queue.returned ++ (s.queue.reported.head?.map Request.token).toList⟩
  capacity := s.capacity
  reqs := reqs
  waiting := s.waiting

def ret (s : BlkState) (req : Nat) : BlkState := { s with waiting := s.waiting.erase req }

end BlkState

/-- Memory from `kzalloc` is that of no other call. A refused call frees it and returns `-1`. -/
inductive BlkStep (s : BlkState) : Option BlkEvent → BlkState → Prop
  | call {req sector buf nsectors head : Nat} {write : Bool} {vq : Virtq Nat}
      {dev : VirtioBlkDevice} (fresh : req ∉ s.waiting)
      (run : virtioBlkSubmit s.dev req sector buf nsectors write = (some head, dev))
      (hvq : dev.vq = some vq) :
      BlkStep s (some (.call req))
        (s.call ⟨head, blkIn req, blkOut req buf nsectors, req⟩ vq dev.reqs)
  | refuse {req sector buf nsectors : Nat} {write : Bool} {vq : Virtq Nat}
      {dev : VirtioBlkDevice} (fresh : req ∉ s.waiting)
      (run : virtioBlkSubmit s.dev req sector buf nsectors write = (none, dev))
      (hvq : dev.vq = some vq) : BlkStep s none (s.refuse vq dev.reqs)
  | finish {l₁ l₂ : List (Request Nat)} {r : Request Nat} {len status : Nat} {vq : Virtq Nat}
      {dev : VirtioBlkDevice} (pick : s.queue.inflight = l₁ ++ r :: l₂)
      (run : finishBlk r.token r.head len status s.dev = dev) (hvq : dev.vq = some vq) :
      BlkStep s (some (.finish r.token status)) (s.finish r (l₁ ++ l₂) vq dev.reqs)
  /-- a round of a waiting call or of the handler -/
  | poll {vq : Virtq Nat} {dev : VirtioBlkDevice} (run : pollUsed s.dev = some dev)
      (hvq : dev.vq = some vq) : BlkStep s none (s.poll vq dev.reqs)
  | ret {req : Nat} (wait : req ∈ s.waiting) (completed : (s.reqs req).completed = true) :
      BlkStep s (some (.ret req (blkRet (s.reqs req).status))) (s.ret req)

/-! ## Calls -/

/-- Where the call of a request is. -/
inductive Phase
  | idle
  | pending
  | finished (status : Nat)
  deriving DecidableEq

/-- Calls that have nothing to do with each other. -/
inductive CallStep : (Nat → Phase) → Option BlkEvent → (Nat → Phase) → Prop
  | call {phase : Nat → Phase} {req : Nat} (h : phase req = .idle) :
      CallStep phase (some (.call req)) (Function.update phase req .pending)
  | finish {phase : Nat → Phase} {req status : Nat} (h : phase req = .pending) :
      CallStep phase (some (.finish req status)) (Function.update phase req (.finished status))
  | ret {phase : Nat → Phase} {req status : Nat} (h : phase req = .finished status) :
      CallStep phase (some (.ret req (blkRet status))) (Function.update phase req .idle)

def BlkState.phase (s : BlkState) (req : Nat) : Phase :=
  if req ∉ s.waiting then .idle
  else if req ∈ s.queue.inflight.map Request.token then .pending
  else .finished (s.reqs req).status

/-! ## The invariant -/

/-- A call waits until its request has been reported and the report taken off the ring. -/
structure BlkInv (num : Nat) (s : BlkState) : Prop where
  queue : Inv num s.queue
  waiting : s.waiting.Nodup
  tokens : (s.queue.outstanding.map Request.token).Nodup
  awaited : ∀ req ∈ s.queue.outstanding.map Request.token, req ∈ s.waiting
  completed : ∀ req ∈ s.waiting, (s.reqs req).completed = true
    ↔ req ∉ s.queue.outstanding.map Request.token

variable {num : Nat} {s s' : BlkState} {dev dev' : VirtioBlkDevice}
  {req sector buf nsectors head : Nat} {write : Bool} {vq : Virtq Nat}

theorem blkInv_initial (num capacity : Nat) (reqs : Nat → VirtioBlkRequest) :
    BlkInv num (BlkState.initial num capacity reqs) where
  queue := Inv.initial num
  waiting := List.nodup_nil
  tokens := List.nodup_nil
  awaited _ h := absurd h List.not_mem_nil
  completed _ h := absurd h List.not_mem_nil

/-! ### Calls and refusals -/

/-- A call writes its own request only. -/
theorem virtioBlkSubmit_reqs (dev : VirtioBlkDevice) (sector buf nsectors : Nat) (write : Bool)
    {other : Nat} (h : other ≠ req) :
    (virtioBlkSubmit dev req sector buf nsectors write).2.reqs other = dev.reqs other := by
  unfold virtioBlkSubmit
  split
  · rfl
  · split
    · rfl
    · split
      · rfl
      · exact Function.update_of_ne h _ _

/-- A refused request leaves the queue. -/
theorem virtioBlkSubmit_none (hvq : dev.vq = some vq)
    (run : virtioBlkSubmit dev req sector buf nsectors write = (none, dev')) :
    dev'.vq = some vq := by
  unfold virtioBlkSubmit at run
  rw [hvq] at run
  simp only [ite_self] at run
  split at run
  · obtain rfl := (Prod.mk.inj run).2
    exact hvq
  · split at run
    · obtain rfl := (Prod.mk.inj run).2
      exact hvq
    · obtain ⟨hnone, rfl⟩ := Prod.mk.inj run
      exact congrArg some ((virtqAddBuf_none_iff _ _ _ _).2 hnone)

theorem BlkInv.call (inv : BlkInv num s) (fresh : req ∉ s.waiting)
    (run : virtioBlkSubmit s.dev req sector buf nsectors write = (some head, dev))
    (hvq : dev.vq = some vq) :
    BlkInv num (s.call ⟨head, blkIn req, blkOut req buf nsectors, req⟩ vq dev.reqs) := by
  have haccepted : (virtioBlkSubmit s.dev req sector buf nsectors write).1 = some head := by
    rw [run]
  obtain ⟨vq', reqs, hadd, hsubmit, hwait⟩ := virtioBlkSubmit_spec rfl haccepted
  have hreqs := fun {other : Nat} (h : other ≠ req) =>
    virtioBlkSubmit_reqs s.dev sector buf nsectors write h
  rw [hsubmit] at run hreqs
  obtain rfl := (Prod.mk.inj run).2
  obtain rfl := Option.some.inj hvq
  have htokens : ∀ other, other ∈ (s.queue.reported ++ (s.queue.inflight ++
        [(⟨head, blkIn req, blkOut req buf nsectors, req⟩ : Request Nat)])).map Request.token
      ↔ other ∈ s.queue.outstanding.map Request.token ∨ other = req := by
    intro other
    rw [← List.append_assoc, List.map_append, List.mem_append]
    exact or_congr_right List.mem_singleton
  have hnew : req ∉ s.queue.outstanding.map Request.token := fun h => fresh (inv.awaited req h)
  refine ⟨inv.queue.addBuf (blk_length_pos req buf nsectors) hadd, ?_, ?_, ?_, ?_⟩
  · show (s.waiting ++ [req]).Nodup
    rw [List.nodup_append]
    refine ⟨inv.waiting, List.nodup_singleton _, ?_⟩
    rintro a ha b hb rfl
    exact fresh (List.mem_singleton.mp hb ▸ ha)
  · show ((s.queue.reported ++ (s.queue.inflight ++ [_])).map Request.token).Nodup
    rw [← List.append_assoc, List.map_append, List.nodup_append]
    refine ⟨inv.tokens, List.nodup_singleton _, ?_⟩
    rintro a ha b hb rfl
    have hreq : a = req := List.mem_singleton.mp hb
    exact hnew (hreq ▸ ha)
  · intro other hother
    rcases (htokens other).mp hother with hother | rfl
    · exact List.mem_append_left _ (inv.awaited other hother)
    · exact List.mem_append_right _ (List.mem_singleton_self _)
  · intro other hother
    show (reqs other).completed = true ↔ other ∉ List.map Request.token
      (s.queue.reported ++ (s.queue.inflight ++ [_]))
    rw [htokens]
    by_cases heq : other = req
    · rw [heq, hwait]
      exact iff_of_false Bool.false_ne_true (not_not.mpr (.inr rfl))
    · rw [show reqs other = s.reqs other from hreqs heq, or_iff_left heq]
      refine inv.completed other ?_
      rcases List.mem_append.mp hother with hother | hother
      · exact hother
      · exact absurd (List.mem_singleton.mp hother) heq

theorem BlkInv.refuse (inv : BlkInv num s) (fresh : req ∉ s.waiting)
    (run : virtioBlkSubmit s.dev req sector buf nsectors write = (none, dev))
    (hvq : dev.vq = some vq) :
    BlkInv num (s.refuse vq dev.reqs) := by
  obtain rfl : s.queue.vq = vq := Option.some.inj ((virtioBlkSubmit_none rfl run).symm.trans hvq)
  refine ⟨inv.queue, inv.waiting, inv.tokens, inv.awaited, fun other hother => ?_⟩
  have hreqs := virtioBlkSubmit_reqs s.dev sector buf nsectors write
    (fun heq => fresh (heq ▸ hother) : other ≠ req)
  rw [run] at hreqs
  show (dev.reqs other).completed = true ↔ _
  rw [hreqs]
  exact inv.completed other hother

/-! ### The device, rounds and returns -/

theorem BlkInv.finish (hnum : ValidNum num) (inv : BlkInv num s) {l₁ l₂ : List (Request Nat)}
    {r : Request Nat} {len status : Nat} (pick : s.queue.inflight = l₁ ++ r :: l₂)
    (run : finishBlk r.token r.head len status s.dev = dev) (hvq : dev.vq = some vq) :
    BlkInv num (s.finish r (l₁ ++ l₂) vq dev.reqs) := by
  subst run
  obtain rfl := Option.some.inj hvq
  have hperm : (s.queue.reported ++ [r] ++ (l₁ ++ l₂)).Perm s.queue.outstanding := by
    rw [QueueState.outstanding, pick, List.append_assoc, List.singleton_append]
    exact List.Perm.append_left _ (List.perm_middle.symm)
  have htokens := hperm.map Request.token
  refine ⟨inv.queue.complete (.inl hnum.dvd) len pick, inv.waiting,
    htokens.nodup_iff.mpr inv.tokens, fun req hreq => inv.awaited req (htokens.mem_iff.mp hreq),
    fun req hreq => ?_⟩
  have hcompleted : ((finishBlk r.token r.head len status s.dev).reqs req).completed
      = (s.reqs req).completed := by
    show (Function.update s.reqs r.token _ req).completed = _
    by_cases heq : req = r.token
    · subst heq
      rw [Function.update_self]
      rfl
    · rw [Function.update_of_ne heq]
  show ((finishBlk r.token r.head len status s.dev).reqs req).completed = true
    ↔ req ∉ (s.queue.reported ++ [r] ++ (l₁ ++ l₂)).map Request.token
  rw [hcompleted, inv.completed req hreq]
  exact not_congr htokens.mem_iff.symm

/-- **What a round does**: nothing without a report; otherwise it takes the oldest one, and marks
the request of a call that waits. -/
theorem BlkInv.pollUsed (hnum : ValidNum num) (inv : BlkInv num s) :
    (s.queue.reported = [] ∧ pollUsed s.dev = some s.dev)
      ∨ ∃ r rest vq, s.queue.reported = r :: rest ∧ r.token ∈ s.waiting
        ∧ pollUsed s.dev = some
          { s.dev with
            vq := some vq
            reqs := Function.update s.reqs r.token { s.reqs r.token with completed := true } }
        ∧ Inv num
          { s.queue with
            vq := vq
            reported := rest
            returned := s.queue.returned ++ [r.token] } := by
  have hvq : s.dev.vq = some s.queue.vq := rfl
  have hused := inv.queue.used_idx
  rcases inv.queue.getBuf hnum.le (.inl hnum.dvd) with
    ⟨hrep, -⟩ | ⟨r, rest, len, vq, hrep, hget, hinv⟩
  · refine .inl ⟨hrep, ?_⟩
    rw [hrep, List.length_nil, Nat.add_zero, Nat.mod_eq_of_lt inv.queue.usedIdx_lt] at hused
    rw [Hal.pollUsed, hvq]
    simp only [virtqHasBuf, hused, ne_eq, not_true_eq_false, decide_false, Bool.false_eq_true,
      if_false]
  · refine .inr ⟨r, rest, vq, hrep, ?_, ?_, hinv⟩
    · refine inv.awaited r.token (List.mem_map_of_mem ?_)
      rw [QueueState.outstanding, hrep]
      exact List.mem_cons_self
    · have hlt := inv.queue.length_reported_lt hnum.le
      have hidx := inv.queue.usedIdx_lt
      have hne : s.queue.vq.usedIdx ≠ s.queue.vq.used.idx := by
        rw [hused]
        rw [hrep, List.length_cons] at hlt ⊢
        omega
      rw [Hal.pollUsed, hvq]
      simp only [virtqHasBuf, hne, ne_eq, not_false_eq_true, decide_true, if_true, hget]
      rfl

/-- Without a report a round changes nothing. -/
theorem poll_idle (hrep : s.queue.reported = []) : s.poll s.queue.vq s.reqs = s := by
  have hqueue : (s.poll s.queue.vq s.reqs).queue = s.queue := by
    show QueueState.mk s.queue.vq s.queue.inflight s.queue.reported.tail s.queue.accepted
      (s.queue.returned ++ (s.queue.reported.head?.map Request.token).toList) = s.queue
    rw [hrep]
    show QueueState.mk s.queue.vq s.queue.inflight [] s.queue.accepted
      (s.queue.returned ++ []) = s.queue
    rw [List.append_nil, ← hrep]
  exact congrArg (BlkState.mk · s.capacity s.reqs s.waiting) hqueue

theorem poll_cons {r : Request Nat} {rest : List (Request Nat)}
    (hrep : s.queue.reported = r :: rest) (vq : Virtq Nat) (reqs : Nat → VirtioBlkRequest) :
    s.poll vq reqs = ⟨⟨vq, s.queue.inflight, rest, s.queue.accepted, s.queue.returned ++ [r.token]⟩,
      s.capacity, reqs, s.waiting⟩ := by
  rw [BlkState.poll, hrep]
  rfl

theorem BlkInv.poll (hnum : ValidNum num) (inv : BlkInv num s) (run : Hal.pollUsed s.dev = some dev)
    (hvq : dev.vq = some vq) : BlkInv num (s.poll vq dev.reqs) := by
  rcases inv.pollUsed hnum with ⟨hrep, hpoll⟩ | ⟨r, rest, vq', hrep, hwait, hpoll, hinv⟩
  · obtain rfl := Option.some.inj (run.symm.trans hpoll)
    obtain rfl : s.queue.vq = vq := Option.some.inj hvq
    exact (poll_idle hrep).symm ▸ inv
  · obtain rfl := Option.some.inj (run.symm.trans hpoll)
    obtain rfl := Option.some.inj hvq
    have hout : s.queue.outstanding = r :: (rest ++ s.queue.inflight) := by
      rw [QueueState.outstanding, hrep, List.cons_append]
    have htokens := inv.tokens
    have hcompleted := inv.completed
    have hawaited := inv.awaited
    rw [hout, List.map_cons, List.nodup_cons] at htokens
    rw [hout] at hcompleted hawaited
    rw [poll_cons hrep]
    refine ⟨hinv, inv.waiting, htokens.2,
      fun req hreq => hawaited req (List.mem_cons_of_mem _ hreq), fun req hreq => ?_⟩
    show (Function.update s.reqs r.token _ req).completed = true
      ↔ req ∉ (rest ++ s.queue.inflight).map Request.token
    by_cases heq : req = r.token
    · rw [heq, Function.update_self]
      exact iff_of_true rfl htokens.1
    · rw [Function.update_of_ne heq, hcompleted req hreq, List.map_cons, List.mem_cons,
        or_iff_right heq]

theorem BlkInv.ret (inv : BlkInv num s) (wait : req ∈ s.waiting)
    (completed : (s.reqs req).completed = true) :
    BlkInv num (s.ret req) := by
  have hout := (inv.completed req wait).mp completed
  refine ⟨inv.queue, inv.waiting.erase req, inv.tokens, fun other hother => ?_,
    fun other hother => inv.completed other (List.mem_of_mem_erase hother)⟩
  refine (List.mem_erase_of_ne ?_).mpr (inv.awaited other hother)
  rintro rfl
  exact hout hother

theorem BlkInv.step (hnum : ValidNum num) (inv : BlkInv num s) {e : Option BlkEvent}
    (step : BlkStep s e s') : BlkInv num s' := by
  cases step with
  | call fresh run hvq => exact inv.call fresh run hvq
  | refuse fresh run hvq => exact inv.refuse fresh run hvq
  | finish pick run hvq => exact inv.finish hnum pick run hvq
  | poll run hvq => exact inv.poll hnum run hvq
  | ret wait completed => exact inv.ret wait completed

/-! ## Refinement -/

variable {status : Nat}

theorem phase_eq_idle (h : req ∉ s.waiting) : s.phase req = .idle := if_pos h

theorem phase_eq_pending (h : req ∈ s.waiting) (hin : req ∈ s.queue.inflight.map Request.token) :
    s.phase req = .pending := by
  rw [BlkState.phase, if_neg (not_not.mpr h), if_pos hin]

theorem phase_eq_finished (h : req ∈ s.waiting)
    (hin : req ∉ s.queue.inflight.map Request.token) :
    s.phase req = .finished (s.reqs req).status := by
  rw [BlkState.phase, if_neg (not_not.mpr h), if_neg hin]

/-- The phase of a request depends on what there is about it. -/
theorem phase_congr (hwait : req ∈ s'.waiting ↔ req ∈ s.waiting)
    (hin : req ∈ s'.queue.inflight.map Request.token ↔ req ∈ s.queue.inflight.map Request.token)
    (hstatus : req ∈ s.waiting → (s'.reqs req).status = (s.reqs req).status) :
    s'.phase req = s.phase req := by
  by_cases h : req ∈ s.waiting
  · by_cases hi : req ∈ s.queue.inflight.map Request.token
    · rw [phase_eq_pending h hi, phase_eq_pending (hwait.mpr h) (hin.mpr hi)]
    · rw [phase_eq_finished h hi, phase_eq_finished (hwait.mpr h) (fun hi' => hi (hin.mp hi')),
        hstatus h]
  · rw [phase_eq_idle h, phase_eq_idle fun h' => h (hwait.mp h')]

/-- A step that changes the phase of one request. -/
theorem phase_update {phase : Phase} (h : s'.phase req = phase)
    (hother : ∀ other ≠ req, s'.phase other = s.phase other) :
    s'.phase = Function.update s.phase req phase := by
  funext other
  by_cases heq : other = req
  · rw [heq, h, Function.update_self]
  · rw [hother other heq, Function.update_of_ne heq]

/-! ### The steps -/

theorem mem_inflight_outstanding (h : req ∈ s.queue.inflight.map Request.token) :
    req ∈ s.queue.outstanding.map Request.token := by
  rw [QueueState.outstanding, List.map_append]
  exact List.mem_append_right _ h

theorem phase_call (fresh : req ∉ s.waiting)
    (run : virtioBlkSubmit s.dev req sector buf nsectors write = (some head, dev))
    (vq : Virtq Nat) :
    CallStep s.phase (some (.call req))
      (s.call ⟨head, blkIn req, blkOut req buf nsectors, req⟩ vq dev.reqs).phase := by
  generalize hs' : s.call ⟨head, blkIn req, blkOut req buf nsectors, req⟩ vq dev.reqs = s'
  have hmem : ∀ other, other ∈ s'.waiting ↔ other ∈ s.waiting ∨ other = req := by
    subst hs'
    exact fun other => List.mem_append.trans (or_congr_right List.mem_singleton)
  have hin : ∀ other, other ∈ s'.queue.inflight.map Request.token
      ↔ other ∈ s.queue.inflight.map Request.token ∨ other = req := by
    subst hs'
    intro other
    show other ∈ (s.queue.inflight ++ [_]).map Request.token ↔ _
    rw [List.map_append, List.mem_append]
    exact or_congr_right List.mem_singleton
  have hother : ∀ other ≠ req, s'.phase other = s.phase other := by
    intro other hne
    refine phase_congr ((hmem other).trans (or_iff_left hne)) ((hin other).trans (or_iff_left hne))
      fun _ => ?_
    have hreqs := virtioBlkSubmit_reqs s.dev sector buf nsectors write hne
    rw [run] at hreqs
    subst hs'
    exact congrArg VirtioBlkRequest.status hreqs
  have hpending := phase_eq_pending ((hmem req).mpr (.inr rfl)) ((hin req).mpr (.inr rfl))
  rw [phase_update hpending hother]
  exact .call (phase_eq_idle fresh)

theorem phase_refuse (fresh : req ∉ s.waiting)
    (run : virtioBlkSubmit s.dev req sector buf nsectors write = (none, dev)) (vq : Virtq Nat) :
    (s.refuse vq dev.reqs).phase = s.phase := by
  funext other
  refine phase_congr Iff.rfl Iff.rfl fun hwait => ?_
  have hreqs := virtioBlkSubmit_reqs s.dev sector buf nsectors write
    (fun heq => fresh (heq ▸ hwait) : other ≠ req)
  rw [run] at hreqs
  exact congrArg VirtioBlkRequest.status hreqs

theorem BlkInv.phase_finish (inv : BlkInv num s) {l₁ l₂ : List (Request Nat)} {r : Request Nat}
    {len status : Nat} (pick : s.queue.inflight = l₁ ++ r :: l₂)
    (run : finishBlk r.token r.head len status s.dev = dev) (vq : Virtq Nat) :
    CallStep s.phase (some (.finish r.token status)) (s.finish r (l₁ ++ l₂) vq dev.reqs).phase := by
  have hmem : r.token ∈ s.queue.inflight.map Request.token := by
    rw [pick]
    exact List.mem_map_of_mem (List.mem_append_right _ List.mem_cons_self)
  have hwait := inv.awaited _ (mem_inflight_outstanding hmem)
  -- no other request has this token
  have hout : r.token ∉ (l₁ ++ l₂).map Request.token := by
    have htokens := inv.tokens
    rw [QueueState.outstanding, List.map_append] at htokens
    have hnodup := htokens.of_append_right
    rw [pick, List.map_append, List.map_cons, List.nodup_middle, ← List.map_append] at hnodup
    exact (List.nodup_cons.mp hnodup).1
  have hreqs : ∀ other, dev.reqs other
      = Function.update s.reqs r.token { s.reqs r.token with status := status } other := by
    subst run
    exact fun _ => rfl
  have hfinished : (s.finish r (l₁ ++ l₂) vq dev.reqs).phase r.token = .finished status := by
    have hphase := phase_eq_finished (s := s.finish r (l₁ ++ l₂) vq dev.reqs) hwait hout
    rw [hphase]
    show Phase.finished (dev.reqs r.token).status = _
    rw [hreqs, Function.update_self]
  have hother : ∀ other ≠ r.token,
      (s.finish r (l₁ ++ l₂) vq dev.reqs).phase other = s.phase other := by
    intro other hne
    refine phase_congr Iff.rfl ?_ fun _ => ?_
    · show other ∈ (l₁ ++ l₂).map Request.token ↔ _
      rw [pick, List.map_append, List.map_append, List.map_cons, List.mem_append, List.mem_append,
        List.mem_cons, or_iff_right hne]
    · show (dev.reqs other).status = _
      rw [hreqs, Function.update_of_ne hne]
  rw [phase_update hfinished hother]
  exact .finish (phase_eq_pending hwait hmem)

theorem BlkInv.phase_poll (hnum : ValidNum num) (inv : BlkInv num s)
    (run : Hal.pollUsed s.dev = some dev) (hvq : dev.vq = some vq) :
    (s.poll vq dev.reqs).phase = s.phase := by
  rcases inv.pollUsed hnum with ⟨hrep, hpoll⟩ | ⟨r, rest, vq', hrep, hwait, hpoll, hinv⟩
  · obtain rfl := Option.some.inj (run.symm.trans hpoll)
    obtain rfl : s.queue.vq = vq := Option.some.inj hvq
    exact congrArg BlkState.phase (poll_idle hrep)
  · obtain rfl := Option.some.inj (run.symm.trans hpoll)
    rw [poll_cons hrep]
    funext other
    refine phase_congr Iff.rfl Iff.rfl fun _ => ?_
    show (Function.update s.reqs r.token _ other).status = (s.reqs other).status
    by_cases heq : other = r.token
    · rw [heq, Function.update_self]
    · rw [Function.update_of_ne heq]

theorem BlkInv.phase_ret (inv : BlkInv num s) (wait : req ∈ s.waiting)
    (completed : (s.reqs req).completed = true) :
    CallStep s.phase (some (.ret req (blkRet (s.reqs req).status))) (s.ret req).phase := by
  have hout := (inv.completed req wait).mp completed
  have hgone : (s.ret req).phase req = .idle := phase_eq_idle inv.waiting.not_mem_erase
  have hother : ∀ other ≠ req, (s.ret req).phase other = s.phase other := fun other hne =>
    phase_congr (List.mem_erase_of_ne hne) Iff.rfl fun _ => rfl
  rw [phase_update hgone hother]
  exact .ret (phase_eq_finished wait fun h => hout (mem_inflight_outstanding h))

/-- Each step is one of the calls, or none of them moves. -/
theorem BlkInv.matched (hnum : ValidNum num) (inv : BlkInv num s) {e : Option BlkEvent}
    (step : BlkStep s e s') :
    (e = none ∧ s'.phase = s.phase) ∨ CallStep s.phase e s'.phase := by
  cases step with
  | call fresh run hvq => exact .inr (phase_call fresh run _)
  | refuse fresh run hvq => exact .inl ⟨rfl, phase_refuse fresh run _⟩
  | finish pick run hvq => exact .inr (inv.phase_finish pick run _)
  | poll run hvq => exact .inl ⟨rfl, inv.phase_poll hnum run hvq⟩
  | ret wait completed => exact .inr (inv.phase_ret wait completed)

/-! ## Every run -/

/-- **Calls share a queue without noticing.** Whatever calls, device, rounds and handler do, and in
whatever order, each call sends one request, which the device finishes once, and returns by the
status written for it. A round never hangs and writes only requests whose calls wait; a request that
the device has finished is completed or reported, for the next rounds to take; and with no call
waiting all descriptors are free. -/
theorem blk_calls_refine {capacity : Nat} {reqs : Nat → VirtioBlkRequest} {es : List BlkEvent}
    (hnum : ValidNum num) (run : Lts.Run BlkStep (BlkState.initial num capacity reqs) es s) :
    Lts.Run CallStep (fun _ => .idle) es s.phase
      ∧ (∃ dev, pollUsed s.dev = some dev ∧ ∀ req ∉ s.waiting, dev.reqs req = s.reqs req)
      ∧ (∀ req status, s.phase req = .finished status →
          (s.reqs req).completed = true ∨ req ∈ s.queue.reported.map Request.token)
      ∧ (s.waiting = [] → s.queue.vq.freeDescs.Perm (List.range num)) := by
  have inv : BlkInv num s := run.invariant (blkInv_initial num capacity reqs)
    fun _ _ _ inv step => inv.step hnum step
  refine ⟨?_, ?_, fun req status hphase => ?_, fun hnone => ?_⟩
  · exact run.simulation (P := BlkInv num) (blkInv_initial num capacity reqs) rfl
      (fun _ _ _ inv step => inv.step hnum step) fun _ _ _ inv step => inv.matched hnum step
  · rcases inv.pollUsed hnum with ⟨-, hpoll⟩ | ⟨r, rest, vq, -, hwait, hpoll, -⟩
    · exact ⟨_, hpoll, fun _ _ => rfl⟩
    · refine ⟨_, hpoll, fun req hreq => Function.update_of_ne ?_ _ _⟩
      rintro rfl
      exact hreq hwait
  · by_cases hwait : req ∈ s.waiting
    · by_cases hin : req ∈ s.queue.inflight.map Request.token
      · rw [phase_eq_pending hwait hin] at hphase
        cases hphase
      · rw [inv.completed req hwait, QueueState.outstanding, List.map_append, List.mem_append,
          or_iff_left hin]
        exact (em _).symm
    · rw [phase_eq_idle hwait] at hphase
      cases hphase
  · have hout : s.queue.outstanding = [] := by
      refine List.eq_nil_iff_forall_not_mem.mpr fun r hr => ?_
      have hwait := inv.awaited r.token (List.mem_map_of_mem hr)
      rw [hnone] at hwait
      exact List.not_mem_nil hwait
    have hperm := inv.queue.partition
    rwa [hout, List.flatMap_nil, List.append_nil] at hperm

/-- Two reads of one sector on a queue of eight descriptors. The device serves the second and then
fails the first; both reports wait on the ring before a round takes them off. -/
theorem blk_calls_refine_failed : ∃ s : BlkState,
    Lts.Run BlkStep (BlkState.initial 8 100 (idleBlk 100).reqs)
        [.call 8, .call 16, .finish 16 VIRTIO_BLK_S_OK, .finish 8 VIRTIO_BLK_S_IOERR,
          .ret 16 0, .ret 8 (-1)] s
      ∧ s.queue.vq.freeDescs.Perm (List.range 8) := by
  have hnum : ValidNum 8 := ⟨⟨3, rfl⟩, by decide⟩
  have called₁ := (@Lts.Run.refl _ _ BlkStep (BlkState.initial 8 100 (idleBlk 100).reqs)).tail
    (@BlkStep.call _ 8 0 0x1000 1 0 false _ _ List.not_mem_nil rfl rfl)
  have called₂ := called₁.tail
    (@BlkStep.call _ 16 1 0x2000 1 3 false _ _ (by decide) rfl rfl)
  have finished₂ := called₂.tail
    (@BlkStep.finish _ [_] [] _ 512 VIRTIO_BLK_S_OK _ _ rfl rfl rfl)
  have finished₁ := finished₂.tail
    (@BlkStep.finish _ [] [] _ 1 VIRTIO_BLK_S_IOERR _ _ rfl rfl rfl)
  have polled₂ := finished₁.silent (@BlkStep.poll _ _ _ rfl rfl)
  have polled₁ := polled₂.silent (@BlkStep.poll _ _ _ rfl rfl)
  have returned₂ := polled₁.tail (@BlkStep.ret _ 16 (by decide) rfl)
  have run := returned₂.tail (@BlkStep.ret _ 8 (by decide) rfl)
  exact ⟨_, run, (blk_calls_refine hnum run).2.2.2 rfl⟩

end NoobKernel.Hal
