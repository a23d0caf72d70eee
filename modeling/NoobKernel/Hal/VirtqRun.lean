import NoobKernel.Hal.VirtqInv
import Mathlib.Logic.Relation

set_option autoImplicit false

/-! # Runs of the virtqueue

The invariant of a queue in use, its preservation by every step of the driver and the
device, and what follows in every reachable state: the descriptors are conserved, every
outstanding chain carries its request, and every accepted token comes back exactly once.

The number of descriptors is a power of two, so it divides `2 ^ 16` and the slots of the used
ring stay in order when the 16-bit indices wrap.
-/

namespace NoobKernel.Hal

open Ring

variable {T : Type}

/-- The queue invariant. -/
structure Inv (num : Nat) (s : QueueState T) : Prop where
  num_eq : s.vq.num = num
  partition : (s.vq.freeDescs ++ s.outstanding.flatMap (Request.chain s.vq)).Perm (List.range num)
  linked : ∀ r ∈ s.outstanding, Linked s.vq.descs r.bufs (r.chain s.vq)
  data : ∀ r ∈ s.outstanding, s.vq.data r.head = some r.token
  usedIdx_lt : s.vq.usedIdx < 2 ^ 16
  used_idx : s.vq.used.idx = (s.vq.usedIdx + s.reported.length) % 2 ^ 16
  used_ring : (window s.vq.used.ring num s.vq.usedIdx s.reported.length).map VirtqUsedElem.id
    = s.reported.map Request.head
  history : (s.accepted.map Request.token).Perm (s.returned ++ s.outstanding.map Request.token)

/-- The queue sizes the driver is used with: powers of two up to `VIRTQ_SIZE`. -/
structure ValidNum (num : Nat) : Prop where
  pow : ∃ k, num = 2 ^ k
  le : num ≤ VIRTQ_SIZE

theorem ValidNum.pos {num : Nat} (h : ValidNum num) : 0 < num := by
  obtain ⟨k, rfl⟩ := h.pow
  positivity

theorem ValidNum.dvd {num : Nat} (h : ValidNum num) : num ∣ 2 ^ 16 := by
  obtain ⟨k, rfl⟩ := h.pow
  refine pow_dvd_pow 2 ?_
  by_contra hk
  have h17 : 2 ^ 17 ≤ 2 ^ k := Nat.pow_le_pow_right (by omega) (by omega)
  exact absurd (Nat.le_trans h17 h.le) (by decide)

/-! ## Consequences of the invariant -/

variable {num : Nat} {s s' : QueueState T}

theorem Linked.head_mem_chain {vq : Virtq T} {r : Request T}
    (h : Linked vq.descs r.bufs (r.chain vq)) : ∃ c, r.chain vq = r.head :: c := by
  cases hnum : vq.num with
  | zero =>
      have hnil : r.chain vq = [] := by rw [Request.chain, hnum, chainFrom]
      exact absurd hnil h.ne_nil
  | succ n => exact ⟨_, by rw [Request.chain, hnum, chainFrom]⟩

/-- A request's chain does not change while its own descriptors do not. -/
theorem chain_congr {vq vq' : Virtq T} (hnum : vq'.num = vq.num) {r : Request T}
    (h : ∀ i ∈ r.chain vq, vq'.descs i = vq.descs i) : r.chain vq' = r.chain vq := by
  rw [Request.chain, Request.chain, hnum]
  exact chainFrom_congr _ _ h

namespace Inv

theorem nodup (inv : Inv num s) :
    (s.vq.freeDescs ++ s.outstanding.flatMap (Request.chain s.vq)).Nodup :=
  inv.partition.nodup_iff.mpr List.nodup_range

theorem freeDescs_nodup (inv : Inv num s) : s.vq.freeDescs.Nodup :=
  (List.nodup_append.mp inv.nodup).1

theorem notMem_freeDescs (inv : Inv num s) {r : Request T} (hr : r ∈ s.outstanding) {i : Nat}
    (hi : i ∈ r.chain s.vq) : i ∉ s.vq.freeDescs := fun hfree =>
  (List.nodup_append.mp inv.nodup).2.2 i hfree i (List.mem_flatMap.mpr ⟨r, hr, hi⟩) rfl

/-- The free descriptors and the chains together are as many as the table has. -/
theorem length_add (inv : Inv num s) :
    s.vq.numFree + (s.outstanding.flatMap (Request.chain s.vq)).length = num := by
  have := inv.partition.length_eq
  simpa using this

/-- Every outstanding request owns a descriptor, so there are at most `num` of them. -/
theorem length_outstanding_le (inv : Inv num s) : s.outstanding.length ≤ num := by
  have hle : s.outstanding.length
      ≤ (s.outstanding.flatMap (Request.chain s.vq)).length := by
    rw [List.length_flatMap]
    have hall : ∀ n ∈ s.outstanding.map (fun r => (r.chain s.vq).length), 1 ≤ n := by
      intro n hn
      obtain ⟨r, hr, rfl⟩ := List.mem_map.mp hn
      exact List.length_pos_iff.mpr (inv.linked r hr).ne_nil
    have hsum := List.card_nsmul_le_sum _ 1 hall
    simpa using hsum
  have := inv.length_add
  omega

theorem length_reported_lt (hle : num ≤ VIRTQ_SIZE) (inv : Inv num s) :
    s.reported.length < 2 ^ 16 := by
  have h1 := inv.length_outstanding_le
  rw [QueueState.outstanding, List.length_append] at h1
  have h3 : VIRTQ_SIZE < 2 ^ 16 := by decide
  omega

end Inv

/-! ## The initial queue -/

theorem freeDescs_virtqCreate (num : Nat) :
    (virtqCreate T num).freeDescs = List.range num := by
  have hnext : ∀ i, i < num →
      (fun i => ((virtqCreate T num).descs i).next)^[i] 0 = i := by
    intro i
    induction i with
    | zero => intro _; rfl
    | succ i ih =>
        intro hi
        rw [Function.iterate_succ_apply', ih (by omega)]
        simp only [virtqCreate]
        rw [if_neg (by omega), if_pos (by omega), Nat.mod_eq_of_lt hi]
  show List.iterate _ 0 num = List.range num
  rw [← List.range_map_iterate]
  conv_rhs => rw [← List.map_id (List.range num)]
  exact List.map_congr_left fun i hi => hnext i (List.mem_range.mp hi)

theorem Inv.initial (num : Nat) : Inv num (QueueState.initial T num) where
  num_eq := rfl
  partition := by
    show ((virtqCreate T num).freeDescs ++ []).Perm _
    rw [List.append_nil, freeDescs_virtqCreate]
  linked := by simp [QueueState.outstanding, QueueState.initial]
  data := by simp [QueueState.outstanding, QueueState.initial]
  usedIdx_lt := by simp [QueueState.initial, virtqCreate]
  used_idx := by simp [QueueState.initial, virtqCreate]
  used_ring := rfl
  history := by simp [QueueState.outstanding, QueueState.initial]

/-! ## Preservation, one step at a time -/

/-- An accepted request moves the first free descriptors to its chain. -/
theorem Inv.addBuf (inv : Inv num s) {ins outs : List VirtqBuf} {token : T} {head : Nat}
    {vq : Virtq T} (pos : 1 ≤ ins.length + outs.length)
    (run : virtqAddBuf s.vq ins outs token = (some head, vq)) :
    Inv num
      { s with
        vq := vq
        inflight := s.inflight ++ [⟨head, ins, outs, token⟩]
        accepted := s.accepted ++ [⟨head, ins, outs, token⟩] } := by
  have fits := virtqAddBuf_fits run
  obtain ⟨head', vq', hrun, hhead, hfree, hlinked, hframe, hdata, hnum, hused, husedIdx⟩ :=
    virtqAddBuf_spec token pos fits inv.freeDescs_nodup
  obtain ⟨h₁, h₂⟩ := Prod.mk.inj (run.symm.trans hrun)
  obtain rfl := Option.some.inj h₁
  subst h₂
  set r : Request T := ⟨head, ins, outs, token⟩ with hr
  -- the chain the driver built is the one the flags describe
  have hlen : (s.vq.freeDescs.take (ins.length + outs.length)).length ≤ num := by
    have := inv.length_add
    rw [List.length_take, Virtq.length_freeDescs]
    omega
  have hchain : r.chain vq = s.vq.freeDescs.take (ins.length + outs.length) := by
    have hne := hlinked.ne_nil
    obtain ⟨c, hc⟩ : ∃ c, s.vq.freeDescs.take (ins.length + outs.length) = head :: c := by
      obtain ⟨l, hl⟩ := List.head?_eq_some_iff.mp hhead
      rw [hl, List.take_cons pos]
      exact ⟨_, rfl⟩
    rw [hc] at hlinked hlen ⊢
    rw [Request.chain, hnum, inv.num_eq]
    exact hlinked.chainFrom_eq r.directed (by simpa using hlen)
  -- the chains of the other requests have no free descriptor, so they stay
  have hkeep : ∀ r' ∈ s.outstanding, ∀ i ∈ r'.chain s.vq, vq.descs i = s.vq.descs i :=
    fun r' hr' i hi => hframe i fun hmem =>
      inv.notMem_freeDescs hr' hi (List.mem_of_mem_take hmem)
  have hold : ∀ r' ∈ s.outstanding, r'.chain vq = r'.chain s.vq :=
    fun r' hr' => chain_congr hnum (hkeep r' hr')
  have hout : ({ s with
      vq := vq, inflight := s.inflight ++ [r], accepted := s.accepted ++ [r] } :
        QueueState T).outstanding = s.outstanding ++ [r] := by
    simp [QueueState.outstanding]
  refine ⟨hnum.trans inv.num_eq, ?_, ?_, ?_, ?_, ?_, ?_, ?_⟩
  · rw [hout]
    show (vq.freeDescs ++ (s.outstanding ++ [r]).flatMap (Request.chain vq)).Perm _
    have hflat : (s.outstanding ++ [r]).flatMap (Request.chain vq)
        = s.outstanding.flatMap (Request.chain s.vq)
          ++ s.vq.freeDescs.take (ins.length + outs.length) := by
      rw [List.flatMap_append, List.flatMap_singleton, hchain]
      congr 1
      exact List.flatMap_congr hold
    rw [hfree, hflat]
    refine List.Perm.trans ?_ inv.partition
    calc (s.vq.freeDescs.drop _ ++ (s.outstanding.flatMap (Request.chain s.vq)
            ++ s.vq.freeDescs.take _)).Perm
          (s.vq.freeDescs.drop _ ++ (s.vq.freeDescs.take _
            ++ s.outstanding.flatMap (Request.chain s.vq))) :=
            List.Perm.append_left _ List.perm_append_comm
      _ |>.Perm ((s.vq.freeDescs.take _ ++ s.vq.freeDescs.drop _)
            ++ s.outstanding.flatMap (Request.chain s.vq)) := by
            rw [← List.append_assoc]
            exact List.Perm.append_right _ List.perm_append_comm
      _ |>.Perm _ := by rw [List.take_append_drop]
  · intro r' hr'
    rw [hout] at hr'
    rcases List.mem_append.mp hr' with hr' | hr'
    · show Linked vq.descs r'.bufs (r'.chain vq)
      rw [hold r' hr']
      exact (inv.linked r' hr').congr (hkeep r' hr')
    · obtain rfl := List.mem_singleton.mp hr'
      show Linked vq.descs r.bufs (r.chain vq)
      rw [hchain]
      exact hlinked
  · intro r' hr'
    rw [hout] at hr'
    show vq.data r'.head = some r'.token
    rw [hdata]
    rcases List.mem_append.mp hr' with hr' | hr'
    · have hne : r'.head ≠ head := by
        obtain ⟨c, hc⟩ := (inv.linked r' hr').head_mem_chain
        obtain ⟨l, hl⟩ := List.head?_eq_some_iff.mp hhead
        intro heq
        exact inv.notMem_freeDescs hr' (i := r'.head) (by rw [hc]; simp)
          (by rw [hl, heq]; simp)
      rw [Function.update_of_ne hne]
      exact inv.data r' hr'
    · obtain rfl := List.mem_singleton.mp hr'
      exact Function.update_self _ _ _
  · show vq.usedIdx < _
    rw [husedIdx]
    exact inv.usedIdx_lt
  · show vq.used.idx = (vq.usedIdx + _) % _
    rw [hused, husedIdx]
    exact inv.used_idx
  · show (window vq.used.ring num vq.usedIdx _).map _ = _
    rw [hused, husedIdx]
    exact inv.used_ring
  · rw [hout, List.map_append, List.map_append, ← List.append_assoc]
    exact inv.history.append_right _

/-- A report appends the request to the unconsumed part of the used ring, as long as a wrap of
the index keeps the order of the slots or does not come. -/
theorem Inv.complete (inv : Inv num s)
    (hwrap : num ∣ 2 ^ 16 ∨ s.vq.usedIdx + s.reported.length < 2 ^ 16) {l₁ l₂ : List (Request T)}
    {r : Request T} (len : Nat) (pick : s.inflight = l₁ ++ r :: l₂) :
    Inv num
      { s with
        vq := deviceReport s.vq r.head len
        inflight := l₁ ++ l₂
        reported := s.reported ++ [r] } := by
  have hperm : (s.reported ++ [r] ++ (l₁ ++ l₂)).Perm s.outstanding := by
    rw [QueueState.outstanding, pick, List.append_assoc, List.singleton_append]
    exact List.Perm.append_left _ (List.perm_middle.symm)
  have hlt : s.reported.length < num := by
    have := inv.length_outstanding_le
    rw [QueueState.outstanding, pick] at this
    simp only [List.length_append, List.length_cons] at this
    omega
  -- here the wrap of the index of 16 bits comes in
  have hused : (s.vq.used.idx % s.vq.num) = (s.vq.usedIdx + s.reported.length) % num := by
    rw [inv.used_idx, inv.num_eq]
    rcases hwrap with hdvd | hlt
    · rw [Nat.mod_mod_of_dvd _ hdvd]
    · rw [Nat.mod_eq_of_lt hlt]
  refine ⟨inv.num_eq, ?_, ?_, ?_, inv.usedIdx_lt, ?_, ?_, ?_⟩
  · exact (List.Perm.append_left _ (hperm.flatMap_right _)).trans inv.partition
  · intro r' hr'
    exact inv.linked r' (hperm.mem_iff.mp hr')
  · intro r' hr'
    exact inv.data r' (hperm.mem_iff.mp hr')
  · show succU16 s.vq.used.idx = (s.vq.usedIdx + (s.reported ++ [r]).length) % 2 ^ 16
    rw [succU16, inv.used_idx, List.length_append, List.length_singleton, Nat.mod_add_mod,
      Nat.add_assoc]
  · show (window (Function.update s.vq.used.ring (s.vq.used.idx % s.vq.num) ⟨r.head, len⟩) num
      s.vq.usedIdx (s.reported ++ [r]).length).map _ = _
    rw [hused, List.length_append, List.length_singleton, window_push hlt, List.map_append,
      List.map_append, inv.used_ring]
    rfl
  · exact inv.history.trans (List.Perm.append_left _ (hperm.symm.map _))

/-- **What `virtq_get_buf` finds.** With nothing reported it returns `NULL` and changes nothing;
otherwise it returns the token of the oldest reported request. -/
theorem Inv.getBuf (hle : num ≤ VIRTQ_SIZE) (inv : Inv num s)
    (hwrap : num ∣ 2 ^ 16 ∨ s.vq.usedIdx + s.reported.length ≤ 2 ^ 16) :
    (s.reported = [] ∧ virtqGetBuf s.vq = some (⟨none, none⟩, s.vq))
      ∨ ∃ r rest len vq, s.reported = r :: rest
        ∧ virtqGetBuf s.vq = some (⟨some r.token, some len⟩, vq)
        ∧ Inv num { s with vq := vq, reported := rest, returned := s.returned ++ [r.token] } := by
  cases hrep : s.reported with
  | nil =>
      left
      have heq : s.vq.usedIdx = s.vq.used.idx := by
        rw [inv.used_idx, hrep, List.length_nil, Nat.add_zero, Nat.mod_eq_of_lt inv.usedIdx_lt]
      exact ⟨rfl, by rw [virtqGetBuf, if_pos heq]⟩
  | cons r rest =>
      right
      have hlt := inv.length_reported_lt hle
      rw [hrep, List.length_cons] at hlt
      have hne : s.vq.usedIdx ≠ s.vq.used.idx := by
        rw [inv.used_idx, hrep, List.length_cons]
        have := inv.usedIdx_lt
        omega
      -- the slot at the consumer index names the oldest report
      have hring := inv.used_ring
      rw [hrep, List.length_cons, window_succ, List.map_cons, List.map_cons] at hring
      obtain ⟨hid, hrest⟩ := List.cons.inj hring
      have hout : s.outstanding = r :: (rest ++ s.inflight) := by
        rw [QueueState.outstanding, hrep, List.cons_append]
      have hr : r ∈ s.outstanding := by rw [hout]; simp
      obtain ⟨c, hc⟩ := (inv.linked r hr).head_mem_chain
      have hnd := inv.nodup
      rw [hout, List.flatMap_cons] at hnd
      have hcnd : (r.chain s.vq).Nodup :=
        (List.nodup_append.mp (List.nodup_append.mp hnd).2.1).1
      have hlen := inv.length_add
      rw [hout, List.flatMap_cons, List.length_append] at hlen
      have hnum : num < 2 ^ 16 := Nat.lt_of_le_of_lt hle (by decide)
      have hlinked := inv.linked r hr
      rw [hc] at hcnd hlinked hlen
      -- its chain goes to the front of the free list, in reverse order
      obtain ⟨vq, hrun, hfree, hframe, hvnum, hvused, hvusedIdx, hvdata⟩ :=
        freeChain_spec r.bufs r.head c s.vq.num (s.vq.setData r.head none) hlinked r.directed hcnd
          (fun i hi => inv.notMem_freeDescs hr (by rw [hc]; exact hi))
          (by rw [inv.num_eq]; simp only [List.length_cons] at hlen; omega)
          (by show s.vq.numFree + _ < _; omega)
      refine ⟨r, rest, (s.vq.used.ring (s.vq.usedIdx % s.vq.num)).len,
        { vq with usedIdx := succU16 vq.usedIdx }, rfl, ?_, ?_⟩
      · rw [← inv.data r hr]
        exact virtqGetBuf_of_chain hne (by rw [inv.num_eq]; exact hid) hrun
      · have hother : ∀ r' ∈ rest ++ s.inflight, ∀ i ∈ r'.chain s.vq,
            vq.descs i = s.vq.descs i := by
          intro r' hr' i hi
          refine hframe i fun hmem => ?_
          exact (List.nodup_append.mp (List.nodup_append.mp hnd).2.1).2.2 i (by rw [hc]; exact hmem)
            i (List.mem_flatMap.mpr ⟨r', hr', hi⟩) rfl
        have hmem : ∀ r' ∈ rest ++ s.inflight, r' ∈ s.outstanding := by
          intro r' hr'
          rw [hout]
          exact List.mem_cons_of_mem _ hr'
        have hchain : ∀ r' ∈ rest ++ s.inflight, r'.chain vq = r'.chain s.vq :=
          fun r' hr' => chain_congr hvnum (hother r' hr')
        refine ⟨hvnum.trans inv.num_eq, ?_, ?_, ?_, ?_, ?_, ?_, ?_⟩
        · have hflat : (rest ++ s.inflight).flatMap (Request.chain vq)
              = (rest ++ s.inflight).flatMap (Request.chain s.vq) := List.flatMap_congr hchain
          show (vq.freeDescs ++ (rest ++ s.inflight).flatMap (Request.chain vq)).Perm _
          rw [hfree, hflat]
          refine List.Perm.trans ?_ inv.partition
          rw [hout, List.flatMap_cons, hc]
          refine (List.Perm.append_right _ (List.perm_append_comm.trans
            (List.Perm.append_left _ (List.reverse_perm _)))).trans ?_
          rw [List.append_assoc]
          rfl
        · intro r' hr'
          show Linked vq.descs r'.bufs (r'.chain vq)
          rw [hchain r' hr']
          exact (inv.linked r' (hmem r' hr')).congr (hother r' hr')
        · intro r' hr'
          show vq.data r'.head = _
          have hne' : r'.head ≠ r.head := by
            obtain ⟨c', hc'⟩ := (inv.linked r' (hmem r' hr')).head_mem_chain
            intro heq
            exact (List.nodup_append.mp (List.nodup_append.mp hnd).2.1).2.2 r.head
              (by rw [hc]; simp) r.head
              (List.mem_flatMap.mpr ⟨r', hr', by rw [hc', heq]; simp⟩) rfl
          -- heads of outstanding requests differ, since their chains are disjoint
          rw [hvdata]
          show Function.update s.vq.data r.head none r'.head = _
          rw [Function.update_of_ne hne']
          exact inv.data r' (hmem r' hr')
        · exact Nat.mod_lt _ (by decide)
        · show vq.used.idx = (succU16 vq.usedIdx + rest.length) % 2 ^ 16
          rw [hvused, hvusedIdx]
          show s.vq.used.idx = (succU16 s.vq.usedIdx + rest.length) % 2 ^ 16
          rw [inv.used_idx, hrep, List.length_cons, succU16, Nat.mod_add_mod]
          congr 1
          omega
        · show (window vq.used.ring num (succU16 vq.usedIdx) rest.length).map _ = _
          rw [hvused, hvusedIdx]
          show (window s.vq.used.ring num (succU16 s.vq.usedIdx) rest.length).map _ = _
          -- the index may wrap here
          have hnext : window s.vq.used.ring num ((s.vq.usedIdx + 1) % 2 ^ 16) rest.length
              = window s.vq.used.ring num (s.vq.usedIdx + 1) rest.length := by
            rcases hwrap with hdvd | hend
            · exact window_mod hdvd _ _ _
            · rw [hrep, List.length_cons] at hend
              rcases Nat.eq_zero_or_pos rest.length with hnil | hpos
              · rw [hnil, window_zero, window_zero]
              · rw [Nat.mod_eq_of_lt (by omega)]
          rw [succU16, hnext]
          exact hrest
        · refine inv.history.trans ?_
          show (s.returned ++ s.outstanding.map _).Perm
            (s.returned ++ [r.token] ++ (rest ++ s.inflight).map _)
          rw [hout, List.map_cons, List.append_assoc, List.singleton_append]

/-- Every step of the driver or the device preserves the invariant. -/
theorem Inv.step (hnum : ValidNum num) (inv : Inv num s) (step : Step s s') : Inv num s' := by
  cases step with
  | addBuf pos run => exact inv.addBuf pos run
  | addBufFull run =>
      rename_i ins outs token vq
      have hnone := virtqAddBuf_none_iff s.vq ins outs token
      rw [run] at hnone
      have hvq : vq = s.vq := hnone.2 rfl
      rw [hvq]
      exact inv
  | complete pick => exact inv.complete (.inl hnum.dvd) _ pick
  | getBuf run =>
      rcases inv.getBuf hnum.le (.inl hnum.dvd) with ⟨hrep, hget⟩ | ⟨r, rest, len, vq, hrep, hget, inv'⟩
      · obtain ⟨rfl, rfl⟩ := Prod.mk.inj (Option.some.inj (run.symm.trans hget))
        rw [Option.toList_none, List.length_nil, List.drop_zero, List.append_nil]
        exact inv
      · obtain ⟨rfl, rfl⟩ := Prod.mk.inj (Option.some.inj (run.symm.trans hget))
        simpa [hrep] using inv'

/-- A state some run from the fresh queue reaches. -/
def Reachable (num : Nat) (s : QueueState T) : Prop :=
  Relation.ReflTransGen Step (QueueState.initial T num) s

theorem Reachable.inv (hnum : ValidNum num) (h : Reachable num s) : Inv num s := by
  induction h with
  | refl => exact Inv.initial num
  | tail _ step ih => exact ih.step hnum step

/-! ## Conservation -/

/-- What the queue promises its users, in one state. -/
structure Conserved (num : Nat) (s : QueueState T) : Prop where
  /-- Free list and chains partition the table. -/
  partition : (s.vq.freeDescs ++ s.outstanding.flatMap (Request.chain s.vq)).Perm (List.range num)
  /-- A chain ends by itself: walking further finds no further descriptor. -/
  walk_ends : ∀ r ∈ s.outstanding, ∀ fuel, num ≤ fuel →
    chainFrom s.vq.descs fuel r.head = r.chain s.vq
  chain_length : ∀ r ∈ s.outstanding,
    (r.chain s.vq).length = r.inBufs.length + r.outBufs.length
  /-- A chain carries its buffers in order, with `VRING_DESC_F_WRITE` on `out_bufs` only. -/
  chain_bufs : ∀ r ∈ s.outstanding,
    (r.chain s.vq).map (fun i => ((s.vq.descs i).addr, (s.vq.descs i).len,
        (s.vq.descs i).flags &&& VRING_DESC_F_WRITE))
      = r.inBufs.map (fun b => (b.addr, b.len, 0))
        ++ r.outBufs.map fun b => (b.addr, b.len, VRING_DESC_F_WRITE)
  /-- The returned and the outstanding tokens are the accepted ones, each as often. -/
  tokens : (s.accepted.map Request.token).Perm (s.returned ++ s.outstanding.map Request.token)
  /-- `virtq_get_buf` finds the oldest report, and `NULL` only when there is none. -/
  get : (virtqGetBuf s.vq).map (fun p => p.1.token) = some (s.reported.head?.map Request.token)
  /-- `virtq_add_buf` is refused exactly when the free list is too short. -/
  add_none : ∀ ins outs token, (virtqAddBuf s.vq ins outs token).1 = none
    ↔ s.vq.numFree < ins.length + outs.length
  /-- A refused request leaves the queue unchanged. -/
  add_unchanged : ∀ ins outs token, (virtqAddBuf s.vq ins outs token).1 = none →
    (virtqAddBuf s.vq ins outs token).2 = s.vq

theorem Inv.conserved (hnum : ValidNum num) (inv : Inv num s) : Conserved num s where
  partition := inv.partition
  walk_ends := by
    intro r hr fuel hfuel
    have hlinked := inv.linked r hr
    obtain ⟨c, hc⟩ := hlinked.head_mem_chain
    have hlen : (r.chain s.vq).length ≤ num := by
      have hadd := inv.length_add
      obtain ⟨l₁, l₂, hsplit⟩ := List.append_of_mem hr
      rw [hsplit, List.flatMap_append, List.flatMap_cons, List.length_append,
        List.length_append] at hadd
      omega
    rw [hc] at hlinked hlen ⊢
    exact hlinked.chainFrom_eq r.directed (by simp only [List.length_cons] at hlen; omega)
  chain_length := by
    intro r hr
    rw [(inv.linked r hr).length_eq, Request.bufs, List.length_append, List.length_map,
      List.length_map]
  chain_bufs := by
    intro r hr
    rw [(inv.linked r hr).map_descs r.directed, Request.bufs, List.map_append, List.map_map,
      List.map_map]
    rfl
  tokens := inv.history
  get := by
    rcases inv.getBuf hnum.le (.inl hnum.dvd) with
      ⟨hrep, hget⟩ | ⟨r, rest, len, vq, hrep, hget, -⟩
    · rw [hrep, hget]
      rfl
    · rw [hrep, hget]
      rfl
  add_none ins outs token := (virtqAddBuf_none_iff s.vq ins outs token).1
  add_unchanged ins outs token := (virtqAddBuf_none_iff s.vq ins outs token).2

/-- **Descriptor conservation.** For every power-of-two size and in every state a run of
requests, completions in any order and `virtq_get_buf` calls reaches, the descriptors are
conserved, every chain is its request's, and each accepted token is returned once. -/
theorem reachable_conserved (hnum : ValidNum num) (h : Reachable num s) : Conserved num s :=
  (h.inv hnum).conserved hnum

/-- One request of a read buffer and a write buffer, completed and returned, on four
descriptors. -/
theorem reachable_conserved_one : ValidNum 4 ∧ ∃ s : QueueState Nat,
    Reachable 4 s ∧ s.returned = [7] ∧ Conserved 4 s := by
  have hnum : ValidNum 4 := ⟨⟨2, rfl⟩, by decide⟩
  have hreach : ∃ s : QueueState Nat, Reachable 4 s ∧ s.returned = [7] :=
    ⟨_, .tail (.tail (.tail .refl
      (@Step.addBuf Nat _ [⟨0x1000, 16⟩] [⟨0x2000, 512⟩] 7 _ _ (by decide) rfl))
      (@Step.complete Nat _ [] [] _ 512 rfl)) (Step.getBuf rfl), rfl⟩
  obtain ⟨s, hs, hret⟩ := hreach
  exact ⟨hnum, s, hs, hret, reachable_conserved hnum hs⟩

end NoobKernel.Hal
