import NoobKernel.Hal.Virtq

set_option autoImplicit false

/-! # Descriptor conservation of the virtqueue

The free list and the chains of the outstanding requests share the `next` fields of one
descriptor table. The invariant `Inv` says that together they are exactly the table, that
every chain carries its request's buffers, and that the part of the used ring the driver has
not consumed lists the reported requests in order. Each driver function has one spec lemma
(`virtqAddBuf_spec`, `freeChain_spec`), and `Inv` is preserved by every step.
-/

namespace NoobKernel.Hal

open Ring

variable {T : Type}

/-! ## Chains in the descriptor table -/

/-- The descriptors visited from `head` by following `VRING_DESC_F_NEXT`, at most `fuel` of
them. -/
def chainFrom (descs : Nat → VirtqDesc) : Nat → Nat → List Nat
  | 0, _ => []
  | fuel + 1, head =>
      head ::
        if (descs head).flags &&& VRING_DESC_F_NEXT ≠ 0 then
          chainFrom descs fuel (descs head).next
        else []

/-- The chain of a request in a queue. -/
def Request.chain (vq : Virtq T) (r : Request T) : List Nat :=
  chainFrom vq.descs vq.num r.head

/-- The descriptors `c` carry the buffers `bufs`, linked in order; the last one carries no
`VRING_DESC_F_NEXT`. -/
def Linked (descs : Nat → VirtqDesc) : List (VirtqBuf × BitVec 16) → List Nat → Prop
  | [(b, w)], [i] => descs i = ⟨b.addr, b.len, w, 0⟩
  | (b, w) :: x :: xs, i :: j :: c =>
      descs i = ⟨b.addr, b.len, w ||| VRING_DESC_F_NEXT, j⟩ ∧ Linked descs (x :: xs) (j :: c)
  | _, _ => False

/-- The direction flags of a list of buffers are those `virtq_add_buf` uses. -/
def Directed (bufs : List (VirtqBuf × BitVec 16)) : Prop :=
  ∀ p ∈ bufs, p.2 = 0 ∨ p.2 = VRING_DESC_F_WRITE

theorem Request.directed (r : Request T) : Directed r.bufs := by
  intro p hp
  rcases List.mem_append.mp hp with h | h
  · obtain ⟨b, -, rfl⟩ := List.mem_map.mp h
    exact Or.inl rfl
  · obtain ⟨b, -, rfl⟩ := List.mem_map.mp h
    exact Or.inr rfl

theorem and_next_of_directed {w : BitVec 16} (h : w = 0 ∨ w = VRING_DESC_F_WRITE) :
    w &&& VRING_DESC_F_NEXT = 0 ∧ w &&& ~~~VRING_DESC_F_NEXT = w
      ∧ (w ||| VRING_DESC_F_NEXT) &&& VRING_DESC_F_NEXT ≠ 0
      ∧ (w ||| VRING_DESC_F_NEXT) &&& VRING_DESC_F_WRITE = w
      ∧ w &&& VRING_DESC_F_WRITE = w := by
  rcases h with rfl | rfl <;> decide

theorem Linked.ne_nil {descs : Nat → VirtqDesc} {bufs : List (VirtqBuf × BitVec 16)}
    {c : List Nat} (h : Linked descs bufs c) : c ≠ [] := by
  rintro rfl
  unfold Linked at h
  split at h <;> simp_all

theorem Linked.length_eq {descs : Nat → VirtqDesc} :
    ∀ {bufs : List (VirtqBuf × BitVec 16)} {c : List Nat}, Linked descs bufs c →
      c.length = bufs.length
  | [_], [_], _ => rfl
  | (_, _) :: x :: xs, _ :: j :: c, h => by
      have := Linked.length_eq h.2
      simp only [List.length_cons] at this ⊢
      omega
  | [], _, h => by simp [Linked] at h
  | [_], [], h => by simp [Linked] at h
  | [_], _ :: _ :: _, h => by simp [Linked] at h
  | _ :: _ :: _, [], h => by simp [Linked] at h
  | _ :: _ :: _, [_], h => by simp [Linked] at h

/-- A chain depends on its own descriptors only. -/
theorem Linked.congr {d d' : Nat → VirtqDesc} :
    ∀ {bufs : List (VirtqBuf × BitVec 16)} {c : List Nat}, Linked d bufs c →
      (∀ i ∈ c, d' i = d i) → Linked d' bufs c
  | [(b, w)], [i], h, heq => by
      show d' i = _
      rw [heq i (by simp)]
      exact h
  | (b, w) :: x :: xs, i :: j :: c, h, heq =>
      ⟨by rw [heq i (by simp)]; exact h.1,
        Linked.congr h.2 fun k hk => heq k (List.mem_cons_of_mem _ hk)⟩
  | [], _, h, _ => by simp [Linked] at h
  | [_], [], h, _ => by simp [Linked] at h
  | [_], _ :: _ :: _, h, _ => by simp [Linked] at h
  | _ :: _ :: _, [], h, _ => by simp [Linked] at h
  | _ :: _ :: _, [_], h, _ => by simp [Linked] at h

/-- Following the flags walks exactly the linked descriptors. -/
theorem Linked.chainFrom_eq {descs : Nat → VirtqDesc} :
    ∀ {bufs : List (VirtqBuf × BitVec 16)} {h : Nat} {c : List Nat} {fuel : Nat},
      Linked descs bufs (h :: c) → Directed bufs → c.length < fuel →
        chainFrom descs fuel h = h :: c
  | [(b, w)], i, [], fuel + 1, hl, hd, _ => by
      have hw := and_next_of_directed (hd (b, w) (by simp))
      have hi : descs i = ⟨b.addr, b.len, w, 0⟩ := hl
      rw [chainFrom, hi, if_neg (by simp [hw.1])]
  | (b, w) :: x :: xs, i, j :: c, fuel + 1, hl, hd, hlen => by
      have hw := and_next_of_directed (hd (b, w) (by simp))
      have hlen' : c.length < fuel := by simpa using hlen
      have hrest := Linked.chainFrom_eq hl.2
        (fun p hp => hd p (List.mem_cons_of_mem _ hp)) hlen'
      rw [chainFrom, hl.1, if_pos hw.2.2.1, hrest]
  | [], _, _, _, hl, _, _ => by simp [Linked] at hl
  | [_], _, _ :: _, _, hl, _, _ => by simp [Linked] at hl
  | _ :: _ :: _, _, [], _, hl, _, _ => by simp [Linked] at hl
  | _, _, _, 0, _, _, hlen => by simp at hlen

theorem chainFrom_congr {d d' : Nat → VirtqDesc} (fuel h : Nat)
    (heq : ∀ i ∈ chainFrom d fuel h, d' i = d i) : chainFrom d' fuel h = chainFrom d fuel h := by
  induction fuel generalizing h with
  | zero => rfl
  | succ fuel ih =>
      have hh : d' h = d h := heq h (by simp [chainFrom])
      rw [chainFrom, chainFrom, hh]
      by_cases hf : (d h).flags &&& VRING_DESC_F_NEXT ≠ 0
      · rw [if_pos hf, if_pos hf, ih]
        intro i hi
        refine heq i ?_
        rw [chainFrom, if_pos hf]
        exact List.mem_cons_of_mem _ hi
      · rw [if_neg hf, if_neg hf]

/-- The buffers a chain carries, read from the table: address, length and direction. -/
theorem Linked.map_descs {descs : Nat → VirtqDesc} :
    ∀ {bufs : List (VirtqBuf × BitVec 16)} {c : List Nat}, Linked descs bufs c →
      Directed bufs →
      c.map (fun i => ((descs i).addr, (descs i).len, (descs i).flags &&& VRING_DESC_F_WRITE))
        = bufs.map fun p => (p.1.addr, p.1.len, p.2)
  | [(b, w)], [i], h, hd => by
      have hw := and_next_of_directed (hd (b, w) (by simp))
      have hi : descs i = ⟨b.addr, b.len, w, 0⟩ := h
      simp [hi, hw.2.2.2.2]
  | (b, w) :: x :: xs, i :: j :: c, h, hd => by
      have hw := and_next_of_directed (hd (b, w) (by simp))
      have hrest := Linked.map_descs h.2 fun p hp => hd p (List.mem_cons_of_mem _ hp)
      rw [List.map_cons, hrest, h.1, hw.2.2.2.1]
      rfl
  | [], _, h, _ => by simp [Linked] at h
  | [_], [], h, _ => by simp [Linked] at h
  | [_], _ :: _ :: _, h, _ => by simp [Linked] at h
  | _ :: _ :: _, [], h, _ => by simp [Linked] at h
  | _ :: _ :: _, [_], h, _ => by simp [Linked] at h

/-! ## Taking and returning descriptors -/

namespace Virtq

@[simp] theorem length_freeDescs (vq : Virtq T) : vq.freeDescs.length = vq.numFree := by
  simp [freeDescs]

@[simp] theorem setDesc_descs_self (vq : Virtq T) (i : Nat) (d : VirtqDesc) :
    (vq.setDesc i d).descs i = d := by
  simp [setDesc]

theorem setDesc_descs_of_ne (vq : Virtq T) {i j : Nat} (d : VirtqDesc) (h : j ≠ i) :
    (vq.setDesc i d).descs j = vq.descs j := by
  simp [setDesc, h]

/-- The free list does not change when a descriptor outside it is written. -/
theorem freeDescs_congr {vq vq' : Virtq T} (hhead : vq'.freeHead = vq.freeHead)
    (hnum : vq'.numFree = vq.numFree) (h : ∀ i ∈ vq.freeDescs, vq'.descs i = vq.descs i) :
    vq'.freeDescs = vq.freeDescs := by
  rw [freeDescs, hhead, hnum]
  symm
  exact iterate_congr _ _ fun i hi => by rw [h i hi]

theorem freeDescs_setDesc {vq : Virtq T} {i : Nat} (d : VirtqDesc) (h : i ∉ vq.freeDescs) :
    (vq.setDesc i d).freeDescs = vq.freeDescs :=
  freeDescs_congr rfl rfl fun _ hj =>
    setDesc_descs_of_ne vq d fun heq => h (heq ▸ hj)

end Virtq

/-- Taking a descriptor takes the first of the free list. -/
theorem virtqAllocDesc_spec {vq : Virtq T} {i : Nat} {l : List Nat}
    (h : vq.freeDescs = i :: l) :
    virtqAllocDesc vq
        = (i, { vq with freeHead := (vq.descs i).next, numFree := vq.numFree - 1 })
      ∧ ({ vq with freeHead := (vq.descs i).next, numFree := vq.numFree - 1 } :
          Virtq T).freeDescs = l := by
  have hlen := congrArg List.length h
  rw [Virtq.length_freeDescs, List.length_cons] at hlen
  have hiter : vq.freeHead :: List.iterate (fun i => (vq.descs i).next)
      (vq.descs vq.freeHead).next l.length = i :: l := by
    rw [← h, Virtq.freeDescs, hlen]
    rfl
  obtain ⟨hi, hl⟩ := List.cons.inj hiter
  subst hi
  refine ⟨?_, ?_⟩
  · rw [virtqAllocDesc, if_neg (by omega)]
  · show List.iterate _ _ (vq.numFree - 1) = l
    rw [hlen, Nat.add_sub_cancel]
    exact hl

/-- A returned descriptor becomes the first of the free list. -/
theorem freeDescs_virtqFreeDesc {vq : Virtq T} {i : Nat} (hi : i ∉ vq.freeDescs)
    (hlt : vq.numFree + 1 < 2 ^ 16) : (virtqFreeDesc vq i).freeDescs = i :: vq.freeDescs := by
  have hn : succU16 vq.numFree = vq.numFree + 1 := Nat.mod_eq_of_lt hlt
  have hnext : ((virtqFreeDesc vq i).descs i).next = vq.freeHead := by
    simp [virtqFreeDesc]
  show List.iterate (fun j => ((virtqFreeDesc vq i).descs j).next) i (succU16 vq.numFree) = _
  rw [hn, List.iterate, hnext]
  congr 1
  exact Virtq.freeDescs_setDesc _ hi

/-! ## Filling a chain -/

/-- The two loops of `virtq_add_buf` as one, over all buffers of the request. -/
def fillAll : List (VirtqBuf × BitVec 16) → Nat → Virtq T → Nat × Virtq T
  | [], prev, vq => (prev, vq)
  | [(b, w)], prev, vq =>
      (prev, vq.setDesc prev { vq.descs prev with addr := b.addr, len := b.len, flags := w })
  | (b, w) :: x :: xs, prev, vq =>
      let vq := vq.setDesc prev { vq.descs prev with addr := b.addr, len := b.len, flags := w }
      let (next, vq) := virtqAllocDesc vq
      let vq := vq.setDesc prev
        { vq.descs prev with next := next, flags := (vq.descs prev).flags ||| VRING_DESC_F_NEXT }
      fillAll (x :: xs) next vq

theorem fillBufs_false (w : BitVec 16) (bs : List VirtqBuf) (prev : Nat) (vq : Virtq T) :
    fillBufs w false bs prev vq = fillAll (bs.map (·, w)) prev vq := by
  induction bs generalizing prev vq with
  | nil => rfl
  | cons b bs ih =>
      cases bs with
      | nil => simp [fillBufs, fillAll]
      | cons b' bs =>
          rw [fillBufs, if_pos (Or.inl (by simp))]
          exact ih _ _

theorem fillBufs_true (w : BitVec 16) (bs : List VirtqBuf) (x : VirtqBuf × BitVec 16)
    (rest : List (VirtqBuf × BitVec 16)) (prev : Nat) (vq : Virtq T) :
    fillAll (x :: rest) (fillBufs w true bs prev vq).1 (fillBufs w true bs prev vq).2
      = fillAll (bs.map (·, w) ++ x :: rest) prev vq := by
  induction bs generalizing prev vq with
  | nil => rfl
  | cons b bs ih =>
      rw [fillBufs, if_pos (Or.inr rfl)]
      cases bs with
      | nil => rfl
      | cons b' bs => exact ih _ _

/-- The loops of `virtq_add_buf` fill the request's buffers in order. -/
theorem fillBufs_eq_fillAll (ins outs : List VirtqBuf) (prev : Nat) (vq : Virtq T) :
    fillBufs VRING_DESC_F_WRITE false outs
        (fillBufs 0 (!outs.isEmpty) ins prev vq).1 (fillBufs 0 (!outs.isEmpty) ins prev vq).2
      = fillAll (ins.map (·, 0) ++ outs.map (·, VRING_DESC_F_WRITE)) prev vq := by
  cases outs with
  | nil =>
      show fillBufs 0 false ins prev vq = _
      rw [List.map_nil, List.append_nil]
      exact fillBufs_false 0 ins prev vq
  | cons o os =>
      rw [fillBufs_false]
      exact fillBufs_true 0 ins (o, VRING_DESC_F_WRITE) (os.map (·, VRING_DESC_F_WRITE)) prev vq

/-- The last descriptor of a chain is closed. -/
def closed (d : VirtqDesc) : VirtqDesc :=
  { d with flags := d.flags &&& ~~~VRING_DESC_F_NEXT, next := 0 }

/-- **Filling a chain.** With `prev` in hand and enough free descriptors, the loops take the
next ones of the free list in order and link them; only these descriptors change, and once
the last is closed they carry the buffers. -/
theorem fillAll_spec :
    ∀ (bufs : List (VirtqBuf × BitVec 16)) (prev : Nat) (vq : Virtq T), bufs ≠ [] →
      Directed bufs → (prev :: vq.freeDescs).Nodup → bufs.length ≤ vq.numFree + 1 →
      ∃ last descs freeHead,
        fillAll bufs prev vq
            = (last, { vq with
                descs := descs, freeHead := freeHead, numFree := vq.numFree - (bufs.length - 1) })
          ∧ ({ vq with
                descs := descs, freeHead := freeHead,
                numFree := vq.numFree - (bufs.length - 1) } : Virtq T).freeDescs
              = vq.freeDescs.drop (bufs.length - 1)
          ∧ last ∈ prev :: vq.freeDescs.take (bufs.length - 1)
          ∧ (∀ i ∉ prev :: vq.freeDescs.take (bufs.length - 1), descs i = vq.descs i)
          ∧ Linked (Function.update descs last (closed (descs last))) bufs
              (prev :: vq.freeDescs.take (bufs.length - 1))
  | [], _, _, hne, _, _, _ => absurd rfl hne
  | [(b, w)], prev, vq, _, hd, hnd, _ => by
      have hw := and_next_of_directed (hd (b, w) (by simp))
      have hprev : prev ∉ vq.freeDescs := (List.nodup_cons.mp hnd).1
      refine ⟨prev, _, vq.freeHead, rfl, ?_, by simp, ?_, ?_⟩
      · exact Virtq.freeDescs_setDesc _ hprev
      · intro i hi
        exact Virtq.setDesc_descs_of_ne vq _ fun heq => hi (by simp [heq])
      · show Function.update _ prev _ prev = _
        simp [closed, hw.2.1]
  | (b, w) :: x :: xs, prev, vq, _, hd, hnd, hlen => by
      have hprev : prev ∉ vq.freeDescs := (List.nodup_cons.mp hnd).1
      -- a further descriptor is there to be taken
      obtain ⟨i, l, hil⟩ : ∃ i l, vq.freeDescs = i :: l := by
        cases hfree : vq.freeDescs with
        | nil =>
            have := congrArg List.length hfree
            rw [Virtq.length_freeDescs] at this
            simp only [List.length_cons, List.length_nil] at hlen this
            omega
        | cons i l => exact ⟨i, l, rfl⟩
      have hne : prev ≠ i := fun heq => hprev (by rw [hil, heq]; simp)
      set d₁ : VirtqDesc := { vq.descs prev with addr := b.addr, len := b.len, flags := w }
        with hd₁
      have hfree₁ : (vq.setDesc prev d₁).freeDescs = i :: l := by
        rw [Virtq.freeDescs_setDesc _ hprev, hil]
      obtain ⟨halloc, hfree₂⟩ := virtqAllocDesc_spec hfree₁
      set vq₂ : Virtq T :=
        { vq.setDesc prev d₁ with
          freeHead := ((vq.setDesc prev d₁).descs i).next
          numFree := (vq.setDesc prev d₁).numFree - 1 } with hvq₂
      have hprev₂ : prev ∉ vq₂.freeDescs := by
        rw [hfree₂]
        exact fun hmem => hprev (by rw [hil]; exact List.mem_cons_of_mem _ hmem)
      set d₂ : VirtqDesc := ⟨b.addr, b.len, w ||| VRING_DESC_F_NEXT, i⟩ with hd₂
      have hdesc₂ : ({ vq₂.descs prev with
          next := i, flags := (vq₂.descs prev).flags ||| VRING_DESC_F_NEXT } : VirtqDesc) = d₂ := by
        have : vq₂.descs prev = d₁ := Virtq.setDesc_descs_self _ _ _
        rw [this]
      have hfree₃ : (vq₂.setDesc prev d₂).freeDescs = l := by
        rw [Virtq.freeDescs_setDesc _ hprev₂, hfree₂]
      have hnum₃ : (vq₂.setDesc prev d₂).numFree = vq.numFree - 1 := rfl
      have hnd₃ : (i :: (vq₂.setDesc prev d₂).freeDescs).Nodup := by
        rw [hfree₃, ← hil]
        exact (List.nodup_cons.mp hnd).2
      obtain ⟨last, descs, freeHead, hrun, hfree, hlast, hframe, hlinked⟩ :=
        fillAll_spec (x :: xs) i (vq₂.setDesc prev d₂) (by simp)
          (fun p hp => hd p (List.mem_cons_of_mem _ hp)) hnd₃
          (by rw [hnum₃]; simp only [List.length_cons] at hlen ⊢; omega)
      rw [hfree₃] at hfree hlast hframe hlinked
      have htake : vq.freeDescs.take ((x :: xs).length) = i :: l.take ((x :: xs).length - 1) := by
        rw [hil]
        simp
      have hprevTail : prev ∉ i :: l.take ((x :: xs).length - 1) := by
        rw [← htake]
        exact fun hmem => hprev (List.mem_of_mem_take hmem)
      have hnumEq : (vq₂.setDesc prev d₂).numFree - ((x :: xs).length - 1)
          = vq.numFree - (((b, w) :: x :: xs).length - 1) := by
        rw [hnum₃]
        simp only [List.length_cons]
        omega
      refine ⟨last, descs, freeHead, ?_, ?_, ?_, ?_, ?_⟩
      · rw [fillAll, halloc]
        show fillAll (x :: xs) i (vq₂.setDesc prev _) = _
        rw [hdesc₂, hrun, hnumEq]
        rfl
      · rw [hnumEq] at hfree
        show Virtq.freeDescs _ = vq.freeDescs.drop ((x :: xs).length)
        rw [hil]
        exact hfree
      · show last ∈ prev :: vq.freeDescs.take ((x :: xs).length)
        rw [htake]
        exact List.mem_cons_of_mem _ hlast
      · intro k hk
        have hk' : k ∉ prev :: i :: l.take ((x :: xs).length - 1) := by
          rw [← htake]
          exact hk
        rw [hframe k fun hmem => hk' (List.mem_cons_of_mem _ hmem)]
        have hkp : k ≠ prev := fun heq => hk' (by simp [heq])
        rw [Virtq.setDesc_descs_of_ne _ _ hkp]
        exact Virtq.setDesc_descs_of_ne _ _ hkp
      · show Linked _ _ (prev :: vq.freeDescs.take ((x :: xs).length))
        rw [htake]
        refine ⟨?_, hlinked⟩
        have hpl : prev ≠ last := fun heq => hprevTail (heq ▸ hlast)
        rw [Function.update_of_ne hpl, hframe prev hprevTail, Virtq.setDesc_descs_self]

/-- **`virtq_add_buf` on a queue with room.** The chain is made of the first free descriptors
in order; nothing else in the table changes. -/
theorem virtqAddBuf_spec {vq : Virtq T} {ins outs : List VirtqBuf} (token : T)
    (pos : 1 ≤ ins.length + outs.length) (fits : ins.length + outs.length ≤ vq.numFree)
    (hnd : vq.freeDescs.Nodup) :
    ∃ head vq',
      virtqAddBuf vq ins outs token = (some head, vq')
        ∧ vq.freeDescs.head? = some head
        ∧ vq'.freeDescs = vq.freeDescs.drop (ins.length + outs.length)
        ∧ Linked vq'.descs (ins.map (·, 0) ++ outs.map (·, VRING_DESC_F_WRITE))
            (vq.freeDescs.take (ins.length + outs.length))
        ∧ (∀ i ∉ vq.freeDescs.take (ins.length + outs.length), vq'.descs i = vq.descs i)
        ∧ vq'.data = Function.update vq.data head (some token)
        ∧ vq'.num = vq.num ∧ vq'.used = vq.used ∧ vq'.usedIdx = vq.usedIdx := by
  obtain ⟨head, l, hhl⟩ : ∃ head l, vq.freeDescs = head :: l := by
    cases hfree : vq.freeDescs with
    | nil =>
        have := congrArg List.length hfree
        rw [Virtq.length_freeDescs, List.length_nil] at this
        omega
    | cons head l => exact ⟨head, l, rfl⟩
  -- the first descriptor is allocated before the loop, the others in it
  obtain ⟨halloc, hfree₁⟩ := virtqAllocDesc_spec hhl
  set vq₁ : Virtq T := { vq with freeHead := (vq.descs head).next, numFree := vq.numFree - 1 }
    with hvq₁
  set bufs := ins.map (·, (0 : BitVec 16)) ++ outs.map (·, VRING_DESC_F_WRITE) with hbufs
  have hlen : bufs.length = ins.length + outs.length := by simp [hbufs]
  have hne : bufs ≠ [] := fun h => by rw [h, List.length_nil] at hlen; omega
  have hfree₂ : (vq₁.setData head (some token)).freeDescs = l := hfree₁
  obtain ⟨last, descs, freeHead, hrun, hfree, hlast, hframe, hlinked⟩ :=
    fillAll_spec bufs head (vq₁.setData head (some token)) hne
      (Request.directed ⟨head, ins, outs, token⟩)
      (by rw [hfree₂, ← hhl]; exact hnd)
      (by rw [hlen]; show _ ≤ vq.numFree - 1 + 1; omega)
  rw [hfree₂, hlen] at hfree hlast hframe hlinked
  have htake : vq.freeDescs.take (ins.length + outs.length)
      = head :: l.take (ins.length + outs.length - 1) := by
    rw [hhl, List.take_cons pos]
  set vq₃ : Virtq T :=
    { vq₁.setData head (some token) with
      descs := descs, freeHead := freeHead,
      numFree := (vq₁.setData head (some token)).numFree - (ins.length + outs.length - 1) }
    with hvq₃
  refine ⟨head,
    { vq₃.setDesc last (closed (descs last)) with
      availIdx := succU16 vq.availIdx
      avail := ⟨succU16 vq.availIdx,
        Function.update vq.avail.ring (vq.availIdx % vq.num) head⟩ },
    ?_, by rw [hhl]; rfl, ?_, ?_, ?_, rfl, rfl, rfl, rfl⟩
  · unfold virtqAddBuf
    simp only [Nat.not_lt.mpr fits, if_false, halloc, fillBufs_eq_fillAll, hrun, ← hbufs, hlen]
    rfl
  · -- closing the last descriptor does not touch the free list
    rw [hhl, List.drop_cons pos, ← hfree]
    refine Virtq.freeDescs_setDesc _ fun hmem => ?_
    rw [hfree] at hmem
    have hndl : (head :: l).Nodup := hhl ▸ hnd
    rcases List.mem_cons.mp hlast with rfl | hmem'
    · exact (List.nodup_cons.mp hndl).1 (List.mem_of_mem_drop hmem)
    · exact List.disjoint_take_drop (List.nodup_cons.mp hndl).2 (Nat.le_refl _) hmem' hmem
  · rw [htake]
    exact hlinked
  · intro i hi
    rw [htake] at hi
    have hil : i ≠ last := fun heq => hi (heq ▸ hlast)
    show Function.update descs last _ i = vq.descs i
    rw [Function.update_of_ne hil, hframe i hi]
    rfl

/-- `virtq_add_buf` refuses a request exactly when it does not fit, and then changes
nothing. -/
theorem virtqAddBuf_none_iff (vq : Virtq T) (ins outs : List VirtqBuf) (token : T) :
    ((virtqAddBuf vq ins outs token).1 = none ↔ vq.numFree < ins.length + outs.length)
      ∧ ((virtqAddBuf vq ins outs token).1 = none → (virtqAddBuf vq ins outs token).2 = vq) := by
  by_cases h : vq.numFree < ins.length + outs.length
  · simp [virtqAddBuf, h]
  · simp [virtqAddBuf, h]

/-- An accepted request fits. -/
theorem virtqAddBuf_fits {vq vq' : Virtq T} {ins outs : List VirtqBuf} {token : T} {head : Nat}
    (run : virtqAddBuf vq ins outs token = (some head, vq')) :
    ins.length + outs.length ≤ vq.numFree := by
  by_contra hfull
  have hnone := (virtqAddBuf_none_iff vq ins outs token).1.mpr (Nat.not_le.mp hfull)
  rw [run] at hnone
  cases hnone

/-- **The loop of `virtq_get_buf`** returns the whole chain to the free list. -/
theorem freeChain_spec :
    ∀ (bufs : List (VirtqBuf × BitVec 16)) (h : Nat) (c : List Nat) (fuel : Nat) (vq : Virtq T),
      Linked vq.descs bufs (h :: c) → Directed bufs → (h :: c).Nodup →
      (∀ i ∈ h :: c, i ∉ vq.freeDescs) → c.length < fuel →
      vq.numFree + (h :: c).length < 2 ^ 16 →
      ∃ vq', freeChain fuel h vq = some vq'
        ∧ vq'.freeDescs = (h :: c).reverse ++ vq.freeDescs
        ∧ (∀ i ∉ h :: c, vq'.descs i = vq.descs i)
        ∧ vq'.num = vq.num ∧ vq'.used = vq.used ∧ vq'.usedIdx = vq.usedIdx
        ∧ vq'.data = vq.data
  | [(b, w)], i, [], fuel + 1, vq, hl, hd, _, hfree, _, hlt => by
      have hw := and_next_of_directed (hd (b, w) (by simp))
      have hi : vq.descs i = ⟨b.addr, b.len, w, 0⟩ := hl
      refine ⟨virtqFreeDesc vq i, ?_, ?_, ?_, rfl, rfl, rfl, rfl⟩
      · rw [freeChain, hi, if_neg (by simp [hw.1])]
      · exact freeDescs_virtqFreeDesc (hfree i (by simp)) (by simpa using hlt)
      · intro k hk
        exact Virtq.setDesc_descs_of_ne vq _ fun heq => hk (by simp [heq])
  | (b, w) :: x :: xs, i, j :: c, fuel + 1, vq, hl, hd, hnd, hfree, hlen, hlt => by
      have hw := and_next_of_directed (hd (b, w) (by simp))
      -- freeing `i` rewrites its descriptor only, so the rest of the chain is still linked
      obtain ⟨hij, hnd'⟩ := List.nodup_cons.mp hnd
      have hnum : (virtqFreeDesc vq i).numFree = vq.numFree + 1 :=
        Nat.mod_eq_of_lt (by simp only [List.length_cons] at hlt; omega)
      have hfree₁ : (virtqFreeDesc vq i).freeDescs = i :: vq.freeDescs :=
        freeDescs_virtqFreeDesc (hfree i (by simp))
          (by simp only [List.length_cons] at hlt; omega)
      have hdescs : ∀ k, k ≠ i → (virtqFreeDesc vq i).descs k = vq.descs k :=
        fun k hk => Virtq.setDesc_descs_of_ne vq _ hk
      obtain ⟨vq', hrun, hfree', hframe, hnum', hused, husedIdx, hdata⟩ :=
        freeChain_spec (x :: xs) j c fuel (virtqFreeDesc vq i)
          (hl.2.congr fun k hk => hdescs k fun heq => hij (heq ▸ hk))
          (fun p hp => hd p (List.mem_cons_of_mem _ hp)) hnd'
          (by
            intro k hk hmem
            rw [hfree₁] at hmem
            rcases List.mem_cons.mp hmem with rfl | hmem
            · exact hij hk
            · exact hfree k (List.mem_cons_of_mem _ hk) hmem)
          (by simpa using hlen)
          (by rw [hnum]; simp only [List.length_cons] at hlt ⊢; omega)
      refine ⟨vq', ?_, ?_, ?_, hnum', hused, husedIdx, hdata⟩
      · rw [freeChain, hl.1, if_pos hw.2.2.1]
        exact hrun
      · rw [hfree', hfree₁]
        simp
      · intro k hk
        rw [hframe k fun hmem => hk (List.mem_cons_of_mem _ hmem)]
        exact hdescs k fun heq => hk (by simp [heq])
  | [], _, _, _, _, hl, _, _, _, _, _ => by simp [Linked] at hl
  | [_], _, _ :: _, _, _, hl, _, _, _, _, _ => by simp [Linked] at hl
  | _ :: _ :: _, _, [], _, _, hl, _, _, _, _, _ => by simp [Linked] at hl
  | _, _, _, 0, _, _, _, _, _, hlen, _ => by simp at hlen

/-- `virtq_get_buf` once the chain of the oldest report has been found. -/
theorem virtqGetBuf_of_chain {vq vq' : Virtq T} {head : Nat} (hne : vq.usedIdx ≠ vq.used.idx)
    (hid : (vq.used.ring (vq.usedIdx % vq.num)).id = head)
    (hchain : freeChain vq.num head (vq.setData head none) = some vq') :
    virtqGetBuf vq
      = some (⟨vq.data head, some (vq.used.ring (vq.usedIdx % vq.num)).len⟩,
          { vq' with usedIdx := succU16 vq'.usedIdx }) := by
  unfold virtqGetBuf
  simp only [if_neg hne, hid, hchain]

end NoobKernel.Hal
