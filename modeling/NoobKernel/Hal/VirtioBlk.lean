import NoobKernel.Hal.VirtqAvail
import NoobKernel.Misc.Config

set_option autoImplicit false

/-! # The virtio block driver (`hal/virtio/virtio_blk.c`)

A request is a header, a data buffer and a status byte, three buffers that `virtq_add_buf`
strings into one chain: those in `in_bufs` for the device to read, those in `out_bufs` for the
device to write. The driver puts the data buffer into `out_bufs` for reads and for writes
(`rw_direction_iff`), and it checks and sizes the request with sums and products that wrap
(`rw_range_iff`).

Requests live in allocated memory and are named by their addresses, which are also the tokens
of the queue.
-/

namespace NoobKernel.Hal

def VIRTIO_BLK_T_IN : Nat := 0
def VIRTIO_BLK_T_OUT : Nat := 1

def VIRTIO_BLK_S_OK : Nat := 0
def VIRTIO_BLK_S_IOERR : Nat := 1

/-- The header of a request, 16 bytes. -/
structure VirtioBlkReq where
  type : Nat
  reserved : Nat
  sector : Nat

structure VirtioBlkRequest where
  hdr : VirtioBlkReq
  data : Nat
  status : Nat
  nsectors : Nat
  completed : Bool

/-- The device with its queue `vdev.vqs[0]`, `none` for `NULL`, and the requests in memory. -/
structure VirtioBlkDevice where
  vq : Option (Virtq Nat)
  capacity : Nat
  reqs : Nat → VirtioBlkRequest

/-- `sizeof(req->hdr)`. -/
def HDR_SIZE : Nat := 16

/-- The offset of `status`, behind the header and the data pointer. -/
def STATUS_OFFSET : Nat := 24

/-! ## The driver -/

/-- `virtio_blk_rw_internal` up to the kick: the head of the chain that has been published, or
`none` where it returns `-1`. `req` is the result of `kzalloc`, `0` for `NULL`. -/
def virtioBlkSubmit (dev : VirtioBlkDevice) (req sector buf nsectors : Nat) (write : Bool) :
    Option Nat × VirtioBlkDevice :=
  match dev.vq with
  | none => (none, dev)
  | some vq =>
      if dev.capacity < (sector + nsectors) % 2 ^ 64 then (none, dev)
      else if req = 0 then (none, dev)
      else
        let type := if write then VIRTIO_BLK_T_OUT else VIRTIO_BLK_T_IN
        let reqs := Function.update dev.reqs req
          ⟨⟨type, 0, sector⟩, buf, VIRTIO_BLK_S_IOERR, nsectors, false⟩
        let inBufs : List VirtqBuf := [⟨req, HDR_SIZE⟩]
        let outBufs : List VirtqBuf :=
          if write then [⟨buf, nsectors * BLOCK_SIZE % 2 ^ 32⟩, ⟨req + STATUS_OFFSET, 1⟩]
          else [⟨buf, nsectors * BLOCK_SIZE % 2 ^ 32⟩, ⟨req + STATUS_OFFSET, 1⟩]
        let (head, vq) := virtqAddBuf vq inBufs outBufs req
        (head, { dev with vq := some vq, reqs := reqs })

def virtqHasBuf (vq : Virtq Nat) : Bool := vq.usedIdx ≠ vq.used.idx

/-- One round of the wait: a request the device has reported is marked completed. `none` is a
call that does not return. -/
def pollUsed (dev : VirtioBlkDevice) : Option VirtioBlkDevice :=
  match dev.vq with
  | none => some dev
  | some vq =>
      if virtqHasBuf vq then
        match virtqGetBuf vq with
        | none => none
        | some (res, vq) =>
            match res.token with
            | none => some { dev with vq := some vq }
            | some done =>
                some
                  { dev with
                    vq := some vq
                    reqs := Function.update dev.reqs done
                      { dev.reqs done with completed := true } }
      else some dev

/-- The wait, with what the device does before each round; `none` is a wait that goes on. -/
def waitCompleted (req : Nat) :
    List (VirtioBlkDevice → VirtioBlkDevice) → VirtioBlkDevice → Option VirtioBlkDevice
  | [], dev => if (dev.reqs req).completed then some dev else none
  | act :: acts, dev =>
      if (dev.reqs req).completed then some dev
      else (pollUsed (act dev)).bind (waitCompleted req acts)

def virtioBlkRwInternal (acts : List (VirtioBlkDevice → VirtioBlkDevice)) (dev : VirtioBlkDevice)
    (req sector buf nsectors : Nat) (write : Bool) : Option (Int × VirtioBlkDevice) :=
  match virtioBlkSubmit dev req sector buf nsectors write with
  | (none, dev) => some (-1, dev)
  | (some _, dev) =>
      (waitCompleted req acts dev).map fun dev =>
        (if (dev.reqs req).status ≠ VIRTIO_BLK_S_OK then -1 else 0, dev)

/-! ## The chain of a request -/

/-- What the device reads of a chain: the address, length and direction of its buffers. -/
def chainBufs (descs : Nat → VirtqDesc) (fuel head : Nat) : List (Nat × Nat × BitVec 16) :=
  (chainFrom descs fuel head).map fun i =>
    ((descs i).addr, (descs i).len, (descs i).flags &&& VRING_DESC_F_WRITE)

/-- The chain that a queue has published since `vq`, walked to its end. -/
def Publishes (vq : Virtq Nat) (dev : VirtioBlkDevice) (bufs : List (Nat × Nat × BitVec 16)) :
    Prop :=
  ∃ vq', dev.vq = some vq' ∧ vq'.avail.idx = succU16 vq.availIdx
    ∧ ∀ fuel, bufs.length ≤ fuel →
      chainBufs vq'.descs fuel (vq'.avail.ring (vq.availIdx % vq.num)) = bufs

/-- The chain of a request: the header and, for a write, the data for the device to read; the
status and, for a read, the data for the device to write. -/
def blkChain (req buf nsectors : Nat) (write : Bool) : List (Nat × Nat × BitVec 16) :=
  [(req, HDR_SIZE, 0),
    (buf, nsectors * BLOCK_SIZE, if write then 0 else VRING_DESC_F_WRITE),
    (req + STATUS_OFFSET, 1, VRING_DESC_F_WRITE)]

/-- The chain the driver publishes. -/
def submittedChain (req buf nsectors : Nat) : List (Nat × Nat × BitVec 16) :=
  [(req, HDR_SIZE, 0), (buf, nsectors * BLOCK_SIZE % 2 ^ 32, VRING_DESC_F_WRITE),
    (req + STATUS_OFFSET, 1, VRING_DESC_F_WRITE)]

variable {dev : VirtioBlkDevice} {vq : Virtq Nat} {req sector buf nsectors head : Nat}
  {write : Bool}

/-- The buffers of a request, whether it reads or writes. -/
def blkIn (req : Nat) : List VirtqBuf := [⟨req, HDR_SIZE⟩]
def blkOut (req buf nsectors : Nat) : List VirtqBuf :=
  [⟨buf, nsectors * BLOCK_SIZE % 2 ^ 32⟩, ⟨req + STATUS_OFFSET, 1⟩]

theorem blk_length (req buf nsectors : Nat) :
    (blkIn req).length + (blkOut req buf nsectors).length = 3 := rfl

theorem blk_length_pos (req buf nsectors : Nat) :
    1 ≤ (blkIn req).length + (blkOut req buf nsectors).length := by
  rw [blk_length]
  decide

/-- A request is published exactly when the checks pass and `virtq_add_buf` accepts its
buffers. -/
theorem virtioBlkSubmit_some_iff (hvq : dev.vq = some vq) :
    (virtioBlkSubmit dev req sector buf nsectors write).1 = some head
      ↔ (sector + nsectors) % 2 ^ 64 ≤ dev.capacity ∧ req ≠ 0
        ∧ (virtqAddBuf vq (blkIn req) (blkOut req buf nsectors) req).1 = some head := by
  rw [virtioBlkSubmit, hvq]
  simp only [ite_self]
  by_cases hcap : dev.capacity < (sector + nsectors) % 2 ^ 64
  · rw [if_pos hcap]
    exact iff_of_false nofun fun h => absurd h.1 (Nat.not_le.mpr hcap)
  · rw [if_neg hcap]
    by_cases hreq : req = 0
    · rw [if_pos hreq]
      exact iff_of_false nofun fun h => h.2.1 hreq
    · rw [if_neg hreq]
      exact ⟨fun h => ⟨Nat.not_lt.mp hcap, hreq, h⟩, fun h => h.2.2⟩

/-- An accepted request is written to memory and its chain to the queue. -/
theorem virtioBlkSubmit_spec (hvq : dev.vq = some vq)
    (haccepted : (virtioBlkSubmit dev req sector buf nsectors write).1 = some head) :
    ∃ vq' reqs, virtqAddBuf vq (blkIn req) (blkOut req buf nsectors) req = (some head, vq')
      ∧ virtioBlkSubmit dev req sector buf nsectors write
        = (some head, { dev with vq := some vq', reqs := reqs })
      ∧ (reqs req).completed = false := by
  obtain ⟨hcap, hreq, hadd⟩ := (virtioBlkSubmit_some_iff hvq).mp haccepted
  refine ⟨_, Function.update dev.reqs req
    ⟨⟨if write then VIRTIO_BLK_T_OUT else VIRTIO_BLK_T_IN, 0, sector⟩, buf, VIRTIO_BLK_S_IOERR,
      nsectors, false⟩, Prod.ext hadd rfl, ?_, ?_⟩
  · rw [virtioBlkSubmit, hvq]
    simp only [ite_self]
    rw [if_neg (Nat.not_lt.mpr hcap), if_neg hreq]
    exact Prod.ext hadd rfl
  · simp only [Function.update_self]

/-- **What the driver publishes**: the three descriptors of `submittedChain`, for reads and for
writes. -/
theorem virtioBlkSubmit_publishes (hvq : dev.vq = some vq) (hnd : vq.freeDescs.Nodup)
    (haccepted : (virtioBlkSubmit dev req sector buf nsectors write).1 = some head) :
    Publishes vq (virtioBlkSubmit dev req sector buf nsectors write).2
      (submittedChain req buf nsectors) := by
  obtain ⟨vq', reqs, hrun, hsubmit, -⟩ := virtioBlkSubmit_spec hvq haccepted
  obtain ⟨head', vq'', hrun', hhead, -, hlinked, -⟩ :=
    virtqAddBuf_spec req (blk_length_pos req buf nsectors) (virtqAddBuf_fits hrun) hnd
  obtain ⟨h, rfl⟩ := Prod.mk.inj (hrun.symm.trans hrun')
  obtain rfl := Option.some.inj h
  obtain ⟨-, havail⟩ := virtqAddBuf_avail hrun
  rw [hsubmit]
  refine ⟨vq', rfl, by rw [havail], fun fuel hfuel => ?_⟩
  -- the chain is made of the first three free descriptors
  obtain ⟨l, hl⟩ := List.head?_eq_some_iff.mp hhead
  rw [hl, blk_length, List.take_cons (Nat.succ_pos 2)] at hlinked
  let r : Request Nat := ⟨head, blkIn req, blkOut req buf nsectors, req⟩
  have hlen : _ = 3 := hlinked.length_eq
  have hmap := hlinked.map_descs r.directed
  have hshort : (l.take (3 - 1)).length < fuel := by
    rw [List.length_cons] at hlen
    exact Nat.lt_of_lt_of_le (Nat.lt_of_succ_le (Nat.le_of_eq hlen)) hfuel
  have hwalk := hlinked.chainFrom_eq r.directed hshort
  rw [havail]
  simp only [Function.update_self]
  rw [chainBufs, hwalk, hmap]
  rfl

/-- A queue publishes one chain. -/
theorem Publishes.unique {bufs bufs' : List (Nat × Nat × BitVec 16)} (h : Publishes vq dev bufs)
    (h' : Publishes vq dev bufs') : bufs = bufs' := by
  obtain ⟨vq₁, hvq₁, -, hbufs⟩ := h
  obtain ⟨vq₂, hvq₂, -, hbufs'⟩ := h'
  obtain rfl := Option.some.inj (hvq₁.symm.trans hvq₂)
  exact (hbufs _ (Nat.le_max_left bufs.length bufs'.length)).symm.trans
    (hbufs' _ (Nat.le_max_right bufs.length bufs'.length))

/-! ## The direction of the data -/

/-- **The chain of a request is right exactly when** the request reads and its length fits 32
bits: the data buffer of a write is published for the device to write. -/
theorem rw_direction_iff (hvq : dev.vq = some vq) (hnd : vq.freeDescs.Nodup)
    (haccepted : (virtioBlkSubmit dev req sector buf nsectors write).1 = some head) :
    Publishes vq (virtioBlkSubmit dev req sector buf nsectors write).2
        (blkChain req buf nsectors write)
      ↔ write = false ∧ nsectors * BLOCK_SIZE < 2 ^ 32 := by
  have hpublished := virtioBlkSubmit_publishes hvq hnd haccepted
  have hflag : (0 : BitVec 16) ≠ VRING_DESC_F_WRITE := by decide
  constructor
  · intro h
    have heq := hpublished.unique h
    cases write with
    | true =>
        simp only [submittedChain, blkChain, if_true, List.cons.injEq, Prod.mk.injEq] at heq
        exact absurd heq.2.1.2.2.symm hflag
    | false =>
        simp only [submittedChain, blkChain, List.cons.injEq, Prod.mk.injEq] at heq
        refine ⟨rfl, ?_⟩
        rw [← heq.2.1.2.1]
        exact Nat.mod_lt _ (by decide)
  · rintro ⟨rfl, hlen⟩
    rw [submittedChain, Nat.mod_eq_of_lt hlen] at hpublished
    exact hpublished

/-- A device with the whole queue free, and nothing in memory. -/
def idleBlk (capacity : Nat) : VirtioBlkDevice :=
  ⟨some (virtqCreate Nat VIRTQ_SIZE), capacity, fun _ => ⟨⟨0, 0, 0⟩, 0, 0, 0, false⟩⟩

theorem idleBlk_nodup : (virtqCreate Nat VIRTQ_SIZE).freeDescs.Nodup := by
  rw [freeDescs_virtqCreate]
  exact List.nodup_range

/-- A read of one sector. -/
theorem rw_direction_iff_read :
    Publishes (virtqCreate Nat VIRTQ_SIZE) (virtioBlkSubmit (idleBlk 100) 8 0 0x1000 1 false).2
        (blkChain 8 0x1000 1 false)
      ↔ false = false ∧ 1 * BLOCK_SIZE < 2 ^ 32 :=
  @rw_direction_iff (idleBlk 100) _ 8 0 0x1000 1 0 false rfl idleBlk_nodup (by decide)

/-- A write of one sector: its data is published for the device to write. -/
theorem not_rw_direction :
    (virtioBlkSubmit (idleBlk 100) 8 0 0x1000 1 true).1 = some 0
      ∧ ¬Publishes (virtqCreate Nat VIRTQ_SIZE) (virtioBlkSubmit (idleBlk 100) 8 0 0x1000 1 true).2
          (blkChain 8 0x1000 1 true) := by
  have haccepted : (virtioBlkSubmit (idleBlk 100) 8 0 0x1000 1 true).1 = some 0 := by decide
  refine ⟨haccepted, fun h => ?_⟩
  have heq := (virtioBlkSubmit_publishes rfl idleBlk_nodup haccepted).unique h
  exact absurd heq (by decide)

/-! ## The range and the length -/

/-- Every request for these sectors that is published, on whatever queue and for whatever buffer,
lies within the capacity and has the length of its sectors in the data descriptor. -/
def RangeChecked (sector nsectors capacity : Nat) : Prop :=
  ∀ (dev : VirtioBlkDevice) (vq : Virtq Nat) (req buf head : Nat) (write : Bool),
    dev.capacity = capacity → dev.vq = some vq → vq.freeDescs.Nodup →
    (virtioBlkSubmit dev req sector buf nsectors write).1 = some head →
    sector + nsectors ≤ capacity
      ∧ ∃ hdr data status, Publishes vq (virtioBlkSubmit dev req sector buf nsectors write).2
          [hdr, data, status]
        ∧ data.2.1 = nsectors * BLOCK_SIZE

/-- The fresh queue publishes every request that the check lets pass. -/
theorem idleBlk_accepts {capacity : Nat} (hcap : (sector + nsectors) % 2 ^ 64 ≤ capacity) :
    ∃ head, (virtioBlkSubmit (idleBlk capacity) 8 sector buf nsectors write).1 = some head := by
  have hfits : (blkIn 8).length + (blkOut 8 buf nsectors).length
      ≤ (virtqCreate Nat VIRTQ_SIZE).numFree := by
    rw [blk_length]
    decide
  obtain ⟨head, vq', hrun, -⟩ := virtqAddBuf_spec 8 (blk_length_pos 8 buf nsectors) hfits idleBlk_nodup
  refine ⟨head, (virtioBlkSubmit_some_iff rfl).mpr ⟨hcap, by decide, ?_⟩⟩
  rw [hrun]

/-- **The range of a request is checked exactly when** the sum of 64 bits exceeds the capacity, or
neither that sum nor the length in bytes wraps. -/
theorem rw_range_iff {sector nsectors capacity : Nat} (hcap : capacity < 2 ^ 64) :
    RangeChecked sector nsectors capacity
      ↔ capacity < (sector + nsectors) % 2 ^ 64
        ∨ sector + nsectors < 2 ^ 64 ∧ nsectors * BLOCK_SIZE < 2 ^ 32 := by
  by_cases hrej : capacity < (sector + nsectors) % 2 ^ 64
  · -- nothing is published
    refine iff_of_true (fun dev vq req buf head write hdev hvq hnd haccepted => ?_) (.inl hrej)
    have hle := ((virtioBlkSubmit_some_iff hvq).mp haccepted).1
    rw [hdev] at hle
    exact absurd hrej (Nat.not_lt.mpr hle)
  · rw [or_iff_right hrej]
    constructor
    · intro h
      obtain ⟨head, haccepted⟩ :=
        @idleBlk_accepts sector 0 nsectors false capacity (Nat.not_lt.mp hrej)
      obtain ⟨hrange, hdr, data, status, hpublished, hlen⟩ :=
        h (idleBlk capacity) _ 8 0 head false rfl rfl idleBlk_nodup haccepted
      have heq := (virtioBlkSubmit_publishes rfl idleBlk_nodup haccepted).unique hpublished
      rw [submittedChain] at heq
      obtain rfl := (List.cons.inj (List.cons.inj heq).2).1
      refine ⟨Nat.lt_of_le_of_lt hrange hcap, ?_⟩
      rw [← hlen]
      exact Nat.mod_lt _ (by decide)
    · rintro ⟨hsum, hbytes⟩ dev vq req buf head write hdev hvq hnd haccepted
      rw [Nat.mod_eq_of_lt hsum] at hrej
      exact ⟨Nat.not_lt.mp hrej, _, _, _, virtioBlkSubmit_publishes hvq hnd haccepted,
        Nat.mod_eq_of_lt hbytes⟩

/-- Eight sectors of a hundred. -/
theorem rw_range_iff_eight :
    RangeChecked 0 8 100
      ↔ 100 < (0 + 8) % 2 ^ 64 ∨ 0 + 8 < 2 ^ 64 ∧ 8 * BLOCK_SIZE < 2 ^ 32 :=
  rw_range_iff (by decide)

/-- Two sectors from the last one of 64 bits on: the sum wraps to `1` and passes the check. -/
theorem not_rw_range : ¬RangeChecked (2 ^ 64 - 1) 2 100 := by
  intro h
  obtain ⟨head, haccepted⟩ := @idleBlk_accepts (2 ^ 64 - 1) 0 2 false 100 (by decide)
  have hrange := (h (idleBlk 100) _ 8 0 head false rfl rfl idleBlk_nodup haccepted).1
  exact absurd hrange (by decide)

/-! ## The wait -/

/-- The device finishes a request: it writes the status byte and reports the chain. -/
def finishBlk (req head len status : Nat) (dev : VirtioBlkDevice) : VirtioBlkDevice :=
  { dev with
    vq := dev.vq.map (deviceReport · head len)
    reqs := Function.update dev.reqs req { dev.reqs req with status := status } }

theorem succU16_ne (n : Nat) : n ≠ succU16 n := by
  rw [succU16]
  omega

/-- While nothing is reported, the rounds of the wait change nothing. -/
theorem waitCompleted_idle (hvq : dev.vq = some vq) (hidle : vq.usedIdx = vq.used.idx)
    (hwait : (dev.reqs req).completed = false) (k : Nat)
    (acts : List (VirtioBlkDevice → VirtioBlkDevice)) :
    waitCompleted req (List.replicate k id ++ acts) dev = waitCompleted req acts dev := by
  have hpoll : pollUsed (id dev) = some dev := by
    rw [id, pollUsed, hvq]
    simp only [virtqHasBuf, hidle, ne_eq, not_true_eq_false, decide_false, Bool.false_eq_true,
      if_false]
  induction k with
  | zero => rfl
  | succ k ih =>
      rw [List.replicate_succ, List.cons_append, waitCompleted, hwait, if_neg Bool.false_ne_true,
        hpoll, Option.bind_some, ih]

/-- The round in which the device has finished the request gets its token back and its chain. -/
theorem pollUsed_finished {ins outs : List VirtqBuf} {vq' : Virtq Nat}
    (hrun : virtqAddBuf vq ins outs req = (some head, vq')) (pos : 1 ≤ ins.length + outs.length)
    (hnd : vq.freeDescs.Nodup) (hidle : vq.usedIdx = vq.used.idx) (hnum : vq.numFree ≤ vq.num)
    (hle : vq.num ≤ VIRTQ_SIZE) (hvq : dev.vq = some vq') (len status : Nat) :
    ∃ dev' vq'', pollUsed (finishBlk req head len status dev) = some dev'
      ∧ (dev'.reqs req).completed = true ∧ (dev'.reqs req).status = status
      ∧ dev'.vq = some vq'' ∧ vq''.freeDescs.Perm vq.freeDescs := by
  have hfits := virtqAddBuf_fits hrun
  obtain ⟨head', _, hrun', hhead, hfree, hlinked, -, hdata, hnum', hused, husedIdx⟩ :=
    virtqAddBuf_spec req pos hfits hnd
  obtain ⟨h, rfl⟩ := Prod.mk.inj (hrun.symm.trans hrun')
  obtain rfl := Option.some.inj h
  obtain ⟨l, hl⟩ := List.head?_eq_some_iff.mp hhead
  have hsplit := List.take_append_drop (ins.length + outs.length) vq.freeDescs
  have hnd' := hnd
  rw [← hsplit, List.nodup_append] at hnd'
  obtain ⟨htake, -, hdisjoint⟩ := hnd'
  have hlen : (vq.freeDescs.take (ins.length + outs.length)).length = ins.length + outs.length := by
    rw [List.length_take, Virtq.length_freeDescs, Nat.min_eq_left hfits]
  have hlen' := congrArg List.length hfree
  rw [List.length_drop, Virtq.length_freeDescs, Virtq.length_freeDescs] at hlen'
  have hcons : vq.freeDescs.take (ins.length + outs.length)
      = head :: l.take (ins.length + outs.length - 1) := by
    rw [hl, List.take_cons pos]
  have hsize : VIRTQ_SIZE < 2 ^ 16 := by decide
  rw [hcons] at hlinked htake hlen hdisjoint
  -- the chain goes back to the free list
  let r : Request Nat := ⟨head, ins, outs, req⟩
  obtain ⟨vq'', hchain, hfree'', -, -, -, -, -⟩ :=
    freeChain_spec r.bufs head _ vq'.num ((deviceReport vq' head len).setData head none) hlinked
      r.directed htake (fun i hi hmem => hdisjoint i hi i (hfree ▸ hmem) rfl)
      (by rw [hnum']; rw [List.length_cons] at hlen; omega)
      (by show vq'.numFree + _ < _; rw [hlen, hlen']; omega)
  have hne : (deviceReport vq' head len).usedIdx ≠ (deviceReport vq' head len).used.idx := by
    show vq'.usedIdx ≠ succU16 vq'.used.idx
    rw [husedIdx, hused, hidle]
    exact succU16_ne _
  have hid : ((deviceReport vq' head len).used.ring
      ((deviceReport vq' head len).usedIdx % (deviceReport vq' head len).num)).id = head := by
    show (Function.update vq'.used.ring (vq'.used.idx % vq'.num) ⟨head, len⟩
      (vq'.usedIdx % vq'.num)).id = head
    rw [husedIdx, hidle, ← hused, Function.update_self]
  have hget := virtqGetBuf_of_chain hne hid hchain
  have htoken : (deviceReport vq' head len).data head = some req := by
    show vq'.data head = some req
    rw [hdata, Function.update_self]
  rw [htoken] at hget
  have hpoll : pollUsed (finishBlk req head len status dev)
      = some { finishBlk req head len status dev with
          vq := some { vq'' with usedIdx := succU16 vq''.usedIdx }
          reqs := Function.update (finishBlk req head len status dev).reqs req
            { (finishBlk req head len status dev).reqs req with completed := true } } := by
    have hvq' : (finishBlk req head len status dev).vq = some (deviceReport vq' head len) := by
      rw [finishBlk, hvq, Option.map_some]
    rw [pollUsed, hvq']
    simp only [virtqHasBuf, hne, ne_eq, not_false_eq_true, decide_true, if_true, hget]
  refine ⟨_, _, hpoll, by simp only [Function.update_self],
    by simp only [Function.update_self, finishBlk], rfl, ?_⟩
  show vq''.freeDescs.Perm vq.freeDescs
  calc vq''.freeDescs = (head :: l.take (ins.length + outs.length - 1)).reverse
        ++ vq.freeDescs.drop (ins.length + outs.length) := by
        rw [hfree'']
        congr 1
    _ |>.Perm (vq.freeDescs.take (ins.length + outs.length)
        ++ vq.freeDescs.drop (ins.length + outs.length)) := by
        rw [hcons]
        exact List.Perm.append_right _ (List.reverse_perm _)
    _ |>.Perm vq.freeDescs := by rw [hsplit]

/-- **A request is served.** On a queue with nothing pending, a published request waits until the
device has finished it, returns by its status and gives all descriptors back. -/
theorem virtioBlkRwInternal_serves (hvq : dev.vq = some vq) (hnd : vq.freeDescs.Nodup)
    (hidle : vq.usedIdx = vq.used.idx) (hnum : vq.numFree ≤ vq.num) (hle : vq.num ≤ VIRTQ_SIZE)
    (haccepted : (virtioBlkSubmit dev req sector buf nsectors write).1 = some head)
    (k len status : Nat) :
    ∃ dev' vq', virtioBlkRwInternal (List.replicate k id ++ [finishBlk req head len status]) dev req
          sector buf nsectors write
        = some (if status ≠ VIRTIO_BLK_S_OK then -1 else 0, dev')
      ∧ dev'.vq = some vq' ∧ vq'.freeDescs.Perm vq.freeDescs := by
  obtain ⟨vq₁, reqs, hrun, hsubmit, hwait⟩ := virtioBlkSubmit_spec hvq haccepted
  obtain ⟨_, _, hrun', -, -, -, -, -, -, hused, husedIdx⟩ :=
    virtqAddBuf_spec req (blk_length_pos req buf nsectors) (virtqAddBuf_fits hrun) hnd
  obtain ⟨-, rfl⟩ := Prod.mk.inj (hrun.symm.trans hrun')
  have hidle₁ : vq₁.usedIdx = vq₁.used.idx := by rw [husedIdx, hused, hidle]
  have hvq₁ : ({ dev with vq := some vq₁, reqs := reqs } : VirtioBlkDevice).vq = some vq₁ := rfl
  obtain ⟨dev', vq', hpoll, hdone, hstatus, hvq', hperm⟩ :=
    pollUsed_finished hrun (blk_length_pos req buf nsectors) hnd hidle hnum hle hvq₁ len status
  refine ⟨dev', vq', ?_, hvq', hperm⟩
  rw [virtioBlkRwInternal, hsubmit]
  simp only
  rw [waitCompleted_idle rfl hidle₁ hwait, waitCompleted, hwait, if_neg Bool.false_ne_true, hpoll,
    Option.bind_some, waitCompleted, hdone, if_pos rfl, Option.map_some, hstatus]

end NoobKernel.Hal
