import NoobKernel.Hal.VirtqRun

set_option autoImplicit false

/-! # The avail ring of the virtqueue

`virtq_add_buf` writes the head of a chain to slot `avail_idx % num` of the avail ring, where
the device reads it at its own pace. The entries the device has not read yet are kept beside
the queue, each with its slot. When `num` divides `2 ^ 16` they fill a window of the ring, so
their slots differ; otherwise the wrap of `avail_idx` moves the window, and a run of 65536
requests and some more overwrites an entry (`slots_distinct_iff`).
-/

namespace NoobKernel.Hal

open Ring

variable {T : Type}

/-- The size `virtio_setup_vq` configures for a requested one and `QUEUE_NUM_MAX`; `none` is
a queue that is not available. -/
def virtioSetupNum (num max : Nat) : Option Nat :=
  let num := if max < num then max else num
  if num = 0 then none else some num

/-! ## Entries on their way to the device -/

/-- A queue with the entries of the avail ring the device has not taken, oldest first: the
request and the slot its head was written to. -/
structure AvailState (T : Type) where
  queue : QueueState T
  untaken : List (Request T × Nat)

namespace AvailState

def initial (T : Type) (num : Nat) : AvailState T := ⟨QueueState.initial T num, []⟩

/-- The slots of the entries not yet taken are pairwise distinct. -/
def SlotsDistinct (s : AvailState T) : Prop := (s.untaken.map Prod.snd).Nodup

end AvailState

/-- The steps of the driver and the device. The device completes only requests whose entries it
has taken: the others are the last ones in flight. -/
inductive AvailStep : AvailState T → AvailState T → Prop
  | addBuf {s : AvailState T} {inBufs outBufs : List VirtqBuf} {token : T} {head : Nat}
      {vq : Virtq T} (pos : 1 ≤ inBufs.length + outBufs.length)
      (run : virtqAddBuf s.queue.vq inBufs outBufs token = (some head, vq)) :
      AvailStep s
        ⟨{ s.queue with
            vq := vq
            inflight := s.queue.inflight ++ [⟨head, inBufs, outBufs, token⟩]
            accepted := s.queue.accepted ++ [⟨head, inBufs, outBufs, token⟩] },
          s.untaken
            ++ [(⟨head, inBufs, outBufs, token⟩, s.queue.vq.availIdx % s.queue.vq.num)]⟩
  | addBufFull {s : AvailState T} {inBufs outBufs : List VirtqBuf} {token : T} {vq : Virtq T}
      (run : virtqAddBuf s.queue.vq inBufs outBufs token = (none, vq)) :
      AvailStep s { s with queue := { s.queue with vq := vq } }
  /-- The device takes the oldest entry. -/
  | take {s : AvailState T} {entry : Request T × Nat} {rest : List (Request T × Nat)}
      (oldest : s.untaken = entry :: rest) : AvailStep s { s with untaken := rest }
  | complete {s : AvailState T} {l₁ l₂ : List (Request T)} {r : Request T} {len : Nat}
      (pick : s.queue.inflight = l₁ ++ r :: l₂ ++ s.untaken.map Prod.fst) :
      AvailStep s
        { s with
          queue := { s.queue with
            vq := deviceReport s.queue.vq r.head len
            inflight := l₁ ++ l₂ ++ s.untaken.map Prod.fst
            reported := s.queue.reported ++ [r] } }
  | getBuf {s : AvailState T} {res : GetResult T} {vq : Virtq T}
      (run : virtqGetBuf s.queue.vq = some (res, vq)) :
      AvailStep s
        { s with
          queue := { s.queue with
            vq := vq
            reported := s.queue.reported.drop res.token.toList.length
            returned := s.queue.returned ++ res.token.toList } }

/-- A state some run from the fresh queue reaches. -/
def AvailReachable (num : Nat) (s : AvailState T) : Prop :=
  Relation.ReflTransGen AvailStep (AvailState.initial T num) s

/-! ## What the driver does to the avail ring -/

theorem virtqAllocDesc_avail (vq : Virtq T) :
    (virtqAllocDesc vq).2.num = vq.num ∧ (virtqAllocDesc vq).2.availIdx = vq.availIdx
      ∧ (virtqAllocDesc vq).2.avail = vq.avail := by
  rw [virtqAllocDesc]
  split <;> exact ⟨rfl, rfl, rfl⟩

theorem fillBufs_avail (w : BitVec 16) (more : Bool) (bs : List VirtqBuf) (prev : Nat)
    (vq : Virtq T) :
    (fillBufs w more bs prev vq).2.num = vq.num
      ∧ (fillBufs w more bs prev vq).2.availIdx = vq.availIdx
      ∧ (fillBufs w more bs prev vq).2.avail = vq.avail := by
  induction bs generalizing prev vq with
  | nil => exact ⟨rfl, rfl, rfl⟩
  | cons b bs ih =>
      rw [fillBufs]
      split
      · have halloc := virtqAllocDesc_avail (vq.setDesc prev
          { vq.descs prev with addr := b.addr, len := b.len, flags := w })
        simp only [ih]
        exact halloc
      · simp only [ih]
        exact ⟨rfl, rfl, rfl⟩

/-- An accepted request writes its head to the slot of the index and moves the index on. -/
theorem virtqAddBuf_avail {vq vq' : Virtq T} {ins outs : List VirtqBuf} {token : T} {head : Nat}
    (run : virtqAddBuf vq ins outs token = (some head, vq')) :
    vq'.availIdx = succU16 vq.availIdx
      ∧ vq'.avail = ⟨succU16 vq.availIdx,
          Function.update vq.avail.ring (vq.availIdx % vq.num) head⟩ := by
  have halloc := virtqAllocDesc_avail vq
  rw [virtqAddBuf] at run
  simp only at run
  split at run
  · cases run
  · obtain ⟨h₁, rfl⟩ := Prod.mk.inj run
    obtain rfl := Option.some.inj h₁
    simp only [Virtq.setDesc, fillBufs_avail, Virtq.setData, halloc]
    exact ⟨trivial, trivial⟩

theorem freeChain_avail {fuel head : Nat} {vq vq' : Virtq T}
    (run : freeChain fuel head vq = some vq') :
    vq'.num = vq.num ∧ vq'.availIdx = vq.availIdx ∧ vq'.avail = vq.avail := by
  induction fuel generalizing head vq with
  | zero => cases run
  | succ fuel ih =>
      rw [freeChain] at run
      split at run
      · have h := ih run
        exact h
      · obtain rfl := Option.some.inj run
        exact ⟨rfl, rfl, rfl⟩

/-- `virtq_get_buf` leaves the avail ring alone. -/
theorem virtqGetBuf_avail {vq vq' : Virtq T} {res : GetResult T}
    (run : virtqGetBuf vq = some (res, vq')) :
    vq'.num = vq.num ∧ vq'.availIdx = vq.availIdx ∧ vq'.avail = vq.avail := by
  rw [virtqGetBuf] at run
  split at run
  · obtain ⟨-, rfl⟩ := Prod.mk.inj (Option.some.inj run)
    exact ⟨rfl, rfl, rfl⟩
  · simp only at run
    split at run
    · cases run
    · rename_i hchain
      obtain ⟨-, rfl⟩ := Prod.mk.inj (Option.some.inj run)
      have h := freeChain_avail hchain
      exact h

/-! ## Sizes that divide the range of the index -/

variable {num : Nat} {s s' : AvailState T}

/-- The entries not yet taken fill the window of the ring between the device's index and the
driver's. -/
structure AvailInv (num : Nat) (s : AvailState T) : Prop where
  inv : Inv num s.queue
  inflight : ∃ l, s.queue.inflight = l ++ s.untaken.map Prod.fst
  ring : ∃ a, s.queue.vq.availIdx = (a + s.untaken.length) % 2 ^ 16
    ∧ s.untaken.map Prod.snd = window id num a s.untaken.length
    ∧ s.untaken.map (fun e => e.1.head) = window s.queue.vq.avail.ring num a s.untaken.length

theorem AvailInv.length_le (h : AvailInv num s) : s.untaken.length ≤ num := by
  obtain ⟨l, hl⟩ := h.inflight
  have hle := h.inv.length_outstanding_le
  rw [QueueState.outstanding, hl, List.length_append, List.length_append, List.length_map] at hle
  omega

theorem AvailInv.slotsDistinct (h : AvailInv num s) : s.SlotsDistinct := by
  obtain ⟨a, -, hslots, -⟩ := h.ring
  rw [AvailState.SlotsDistinct, hslots]
  exact nodup_window_id a h.length_le

theorem AvailInv.initial (num : Nat) : AvailInv num (AvailState.initial T num) :=
  ⟨Inv.initial num, ⟨[], rfl⟩, ⟨0, rfl, rfl, rfl⟩⟩

theorem AvailInv.step (hnum : ValidNum num) (h : AvailInv num s) (step : AvailStep s s') :
    AvailInv num s' := by
  obtain ⟨a, hidx, hslots, hring⟩ := h.ring
  cases step with
  | addBuf pos run =>
      obtain ⟨l, hl⟩ := h.inflight
      obtain ⟨havailIdx, havail⟩ := virtqAddBuf_avail run
      have inv' := h.inv.addBuf pos run
      -- the entry has a slot of its own, since its request has a descriptor of its own
      have hlt : s.untaken.length < num := by
        have hle := inv'.length_outstanding_le
        rw [QueueState.outstanding] at hle
        simp only [hl, List.length_append, List.length_map, List.length_singleton] at hle
        omega
      have hslot : s.queue.vq.availIdx % s.queue.vq.num = (a + s.untaken.length) % num := by
        rw [hidx, h.inv.num_eq, Nat.mod_mod_of_dvd _ hnum.dvd]
      refine ⟨inv', ⟨l, ?_⟩, a, ?_, ?_, ?_⟩
      · rw [hl, List.map_append, List.append_assoc]
        rfl
      · rw [havailIdx, hidx, succU16, Nat.mod_add_mod, List.length_append, List.length_singleton,
          Nat.add_assoc]
      · rw [List.map_append, List.length_append, List.length_singleton, window_append, hslots,
          ← hslot]
        rfl
      · rw [havail, List.map_append, List.length_append, List.length_singleton, hslot,
          window_push hlt, hring]
        rfl
  | addBufFull run =>
      rename_i ins outs token vq
      have hnone := virtqAddBuf_none_iff s.queue.vq ins outs token
      rw [run] at hnone
      obtain rfl : vq = s.queue.vq := hnone.2 rfl
      exact h
  | take oldest =>
      rename_i entry rest
      obtain ⟨l, hl⟩ := h.inflight
      rw [oldest] at hl hidx hslots hring
      rw [List.length_cons, window_succ] at hslots hring
      refine ⟨h.inv, ⟨l ++ [entry.1], ?_⟩, a + 1, ?_, (List.cons.inj hslots).2, (List.cons.inj hring).2⟩
      · rw [List.append_assoc]
        exact hl
      · show s.queue.vq.availIdx = (a + 1 + rest.length) % 2 ^ 16
        rw [hidx, List.length_cons, Nat.add_assoc, Nat.add_comm 1]
  | complete pick =>
      rename_i l₁ l₂ r len
      rw [List.append_assoc, List.cons_append] at pick
      refine ⟨?_, ⟨l₁ ++ l₂, rfl⟩, a, hidx, hslots, hring⟩
      have inv' := h.inv.complete (.inl hnum.dvd) len pick
      rw [← List.append_assoc] at inv'
      exact inv'
  | getBuf run =>
      obtain ⟨-, havailIdx, havail⟩ := virtqGetBuf_avail run
      refine ⟨h.inv.step hnum (.getBuf run), h.inflight, a, ?_, hslots, ?_⟩
      · rw [← hidx]
        exact havailIdx
      · rw [hring, havail]

theorem AvailReachable.inv (hnum : ValidNum num) (h : AvailReachable num s) : AvailInv num s := by
  induction h with
  | refl => exact AvailInv.initial num
  | tail _ step ih => exact ih.step hnum step

/-! ## Sizes that do not -/

/-- Nothing is on its way, after `k` requests. -/
structure Idle (num k : Nat) (s : AvailState T) : Prop where
  inv : Inv num s.queue
  outstanding : s.queue.outstanding = []
  untaken : s.untaken = []
  index : s.queue.vq.availIdx = k % 2 ^ 16

theorem Idle.numFree {k : Nat} (h : Idle num k s) : s.queue.vq.numFree = num := by
  have hlen := h.inv.length_add
  rwa [h.outstanding, List.flatMap_nil, List.length_nil, Nat.add_zero] at hlen

/-- A request of one buffer is accepted while a descriptor is free. -/
theorem exists_addBuf (inv : Inv num s.queue) (token : T) (hfree : 1 ≤ s.queue.vq.numFree) :
    ∃ r vq, AvailStep s
        ⟨{ s.queue with
            vq := vq
            inflight := s.queue.inflight ++ [r]
            accepted := s.queue.accepted ++ [r] },
          s.untaken ++ [(r, s.queue.vq.availIdx % num)]⟩
      ∧ Inv num
        { s.queue with
          vq := vq
          inflight := s.queue.inflight ++ [r]
          accepted := s.queue.accepted ++ [r] }
      ∧ vq.availIdx = succU16 s.queue.vq.availIdx ∧ vq.numFree = s.queue.vq.numFree - 1 := by
  have pos : 1 ≤ ([] : List VirtqBuf).length + [(⟨0, 0⟩ : VirtqBuf)].length := by decide
  obtain ⟨head, vq, run, -, hrest, -⟩ := virtqAddBuf_spec token pos hfree inv.freeDescs_nodup
  have hstep := AvailStep.addBuf pos run
  have hlen := congrArg List.length hrest
  rw [List.length_drop, Virtq.length_freeDescs, Virtq.length_freeDescs] at hlen
  rw [inv.num_eq] at hstep
  exact ⟨_, vq, hstep, inv.addBuf pos run, (virtqAddBuf_avail run).1, hlen⟩

/-- One request is made, taken, completed and got back. -/
theorem Idle.cycle {k : Nat} (hpos : 1 ≤ num) (hle : num ≤ VIRTQ_SIZE) (token : T)
    (h : Idle num k s) : ∃ s', Relation.ReflTransGen AvailStep s s' ∧ Idle num (k + 1) s' := by
  obtain ⟨hrep, hin⟩ := List.append_eq_nil_iff.mp h.outstanding
  obtain ⟨r, vq, hadd, inv₁, hidx, -⟩ := exists_addBuf h.inv token (by rw [h.numFree]; exact hpos)
  rw [hin, h.untaken, List.nil_append, List.nil_append] at hadd
  rw [hin, List.nil_append] at inv₁
  set q₁ : QueueState T :=
    { s.queue with vq := vq, inflight := [r], accepted := s.queue.accepted ++ [r] }
  have htake : AvailStep ⟨q₁, [(r, s.queue.vq.availIdx % num)]⟩ ⟨q₁, []⟩ := .take rfl
  -- no index wraps between the report and the call that gets it
  have hused : q₁.vq.usedIdx + q₁.reported.length < 2 ^ 16 := by
    have hnil : q₁.reported = [] := hrep
    rw [hnil]
    exact inv₁.usedIdx_lt
  set q₂ : QueueState T :=
    { q₁ with
      vq := deviceReport vq r.head 0, inflight := [], reported := s.queue.reported ++ [r] }
  have hcomplete : AvailStep ⟨q₁, []⟩ ⟨q₂, []⟩ := @AvailStep.complete _ ⟨q₁, []⟩ [] [] r 0 rfl
  have inv₂ : Inv num q₂ := @Inv.complete _ _ q₁ inv₁ (.inr hused) [] [] r 0 rfl
  have hreported : q₂.reported = [r] := by
    show s.queue.reported ++ [r] = _
    rw [hrep, List.nil_append]
  have hgetWrap : q₂.vq.usedIdx + q₂.reported.length ≤ 2 ^ 16 := by
    rw [hreported]
    exact inv₁.usedIdx_lt
  rcases inv₂.getBuf hle (.inr hgetWrap) with ⟨hnone, -⟩ | ⟨r', rest, len, vq', hcons, hrun, inv₃⟩
  · rw [hreported] at hnone
    cases hnone
  · obtain rfl : rest = [] := (List.cons.inj (hcons.symm.trans hreported)).2
    have hget := @AvailStep.getBuf _ ⟨q₂, []⟩ _ vq' hrun
    have havail := (virtqGetBuf_avail hrun).2.1
    have hdrop : q₂.reported.drop 1 = [] := by
      rw [hreported]
      rfl
    rw [Option.toList_some, List.length_singleton, hdrop] at hget
    refine ⟨_, (((Relation.ReflTransGen.single hadd).tail htake).tail hcomplete).tail hget, inv₃,
      rfl, rfl, ?_⟩
    calc vq'.availIdx = vq.availIdx := havail
      _ = (k + 1) % 2 ^ 16 := by rw [hidx, h.index, succU16, Nat.mod_add_mod]

theorem exists_idle (hpos : 1 ≤ num) (hle : num ≤ VIRTQ_SIZE) (token : T) (k : Nat) :
    ∃ s : AvailState T, AvailReachable num s ∧ Idle num k s := by
  induction k with
  | zero => exact ⟨_, .refl, Inv.initial num, rfl, rfl, rfl⟩
  | succ k ih =>
      obtain ⟨s, hs, idle⟩ := ih
      obtain ⟨s', hrun, idle'⟩ := idle.cycle hpos hle token
      exact ⟨s', hs.trans hrun, idle'⟩

/-- Requests that the device does not take fill slot after slot from the index on. -/
theorem exists_burst (token : T) {k : Nat} (idle : Idle num k s) (n : Nat) (hn : n ≤ num) :
    ∃ s', Relation.ReflTransGen AvailStep s s' ∧ Inv num s'.queue
      ∧ s'.queue.vq.numFree = num - n ∧ s'.queue.vq.availIdx = (k + n) % 2 ^ 16
      ∧ s'.untaken.map Prod.snd = (List.range n).map fun i => (k + i) % 2 ^ 16 % num := by
  induction n with
  | zero => exact ⟨s, .refl, idle.inv, idle.numFree, idle.index, by rw [idle.untaken]; rfl⟩
  | succ n ih =>
      obtain ⟨s', hrun, inv, hfree, hidx, hslots⟩ := ih (by omega)
      obtain ⟨r, vq, hadd, inv', hidx', hfree'⟩ := exists_addBuf inv token (by omega)
      refine ⟨_, hrun.tail hadd, inv', ?_, ?_, ?_⟩
      · show vq.numFree = num - (n + 1)
        rw [hfree', hfree]
        omega
      · show vq.availIdx = (k + (n + 1)) % 2 ^ 16
        rw [hidx', hidx, succU16, Nat.mod_add_mod, Nat.add_assoc]
      · rw [List.map_append, hslots, List.range_succ, List.map_append, hidx]
        rfl

/-- **The wrap overwrites an entry.** The entry at index `2 ^ 16 - 1` and the one `2 ^ 16 % num`
entries later share a slot. -/
theorem exists_overwritten (token : T) (hpos : 1 ≤ num) (hle : num ≤ VIRTQ_SIZE)
    (hdvd : ¬num ∣ 2 ^ 16) : ∃ s : AvailState T, AvailReachable num s ∧ ¬s.SlotsDistinct := by
  have hr : 2 ^ 16 % num ≠ 0 := fun h => hdvd (Nat.dvd_of_mod_eq_zero h)
  have hrlt : 2 ^ 16 % num < num := Nat.mod_lt _ hpos
  have hnum : num ≤ 32 := hle
  have hdiv := Nat.div_add_mod (2 ^ 16) num
  generalize hrdef : 2 ^ 16 % num = r at hr hrlt hdiv
  obtain ⟨s, hs, idle⟩ := exists_idle hpos hle token (2 ^ 16 - 1)
  obtain ⟨s', hrun, -, -, -, hslots⟩ := exists_burst token idle (r + 1) hrlt
  refine ⟨s', hs.trans hrun, fun hdistinct => ?_⟩
  rw [AvailState.SlotsDistinct, hslots, List.nodup_map_iff_inj_on List.nodup_range] at hdistinct
  have hfirst : (2 ^ 16 - 1 + 0) % 2 ^ 16 % num = r - 1 := by
    have hsum : (2 ^ 16 - 1 + 0) % 2 ^ 16 = r - 1 + num * (2 ^ 16 / num) := by omega
    rw [hsum, Nat.add_mul_mod_self_left, Nat.mod_eq_of_lt (by omega)]
  have hlast : (2 ^ 16 - 1 + r) % 2 ^ 16 % num = r - 1 := by
    have hsum : (2 ^ 16 - 1 + r) % 2 ^ 16 = r - 1 := by omega
    rw [hsum, Nat.mod_eq_of_lt (by omega)]
  exact hr (hdistinct r (by simp) 0 (by simp) (hlast.trans hfirst.symm))

/-! ## Which sizes are safe -/

theorem virtioSetupNum_spec {req max num : Nat} (hreq : req ≤ VIRTQ_SIZE)
    (h : virtioSetupNum req max = some num) : 1 ≤ num ∧ num ≤ VIRTQ_SIZE := by
  have hmin : (if max < req then max else req) ≤ req := by
    split
    · exact Nat.le_of_lt ‹_›
    · exact le_rfl
  rw [virtioSetupNum] at h
  generalize (if max < req then max else req) = k at h hmin
  split at h
  · cases h
  · obtain rfl := Option.some.inj h
    omega

/-- **Entries not yet taken are never overwritten exactly when** the size of the queue divides the
range of the index. -/
theorem slots_distinct_iff (token : T) {req max num : Nat} (hreq : req ≤ VIRTQ_SIZE)
    (hnum : virtioSetupNum req max = some num) :
    (∀ s : AvailState T, AvailReachable num s → s.SlotsDistinct) ↔ num ∣ 2 ^ 16 := by
  obtain ⟨hpos, hle⟩ := virtioSetupNum_spec hreq hnum
  constructor
  · intro h
    by_contra hdvd
    obtain ⟨s, hs, hoverwritten⟩ := exists_overwritten token hpos hle hdvd
    exact hoverwritten (h s hs)
  · intro hdvd s hs
    obtain ⟨k, -, hk⟩ := (Nat.dvd_prime_pow Nat.prime_two).mp hdvd
    exact (hs.inv ⟨⟨k, hk⟩, hle⟩).slotsDistinct

/-- The size the driver asks for, on a device that has as many. -/
theorem slots_distinct_iff_full :
    (∀ s : AvailState Nat, AvailReachable VIRTQ_SIZE s → s.SlotsDistinct) ↔ VIRTQ_SIZE ∣ 2 ^ 16 :=
  @slots_distinct_iff Nat 7 VIRTQ_SIZE 1024 VIRTQ_SIZE le_rfl rfl

/-- A device with three descriptors. -/
theorem not_slots_distinct :
    virtioSetupNum VIRTQ_SIZE 3 = some 3
      ∧ ∃ s : AvailState Nat, AvailReachable 3 s ∧ ¬s.SlotsDistinct :=
  ⟨rfl, exists_overwritten 7 (by decide) (by decide) (by decide)⟩

end NoobKernel.Hal
