import NoobKernel.Hal.VirtioMmio

set_option autoImplicit false

/-! # What the transport functions do to a device

One lemma for each function of `virtio_mmio.c`, over all that the device may do meanwhile. The
device's own steps leave the registers alone, so a function acts on them as if it were alone with
the device (`Known`); the configuration is what may change, and `Since` records that it only
gains new versions.
-/

namespace NoobKernel.Hal

open Mmio

variable {d : VirtioTraits} {r : VirtioRegs} {s₀ s t u : VirtioState}

/-! ## Time -/

namespace VirtioState

/-- All configurations so far, latest first. -/
def confs (s : VirtioState) : List (Nat → U32) := s.words :: s.older

end VirtioState

/-- `t` is `s` or a later state: the device has had some more configurations. -/
def Since (s t : VirtioState) : Prop :=
  ∃ new, t.confs = new ++ s.confs ∧ t.changes + new.length = s.changes

theorem Since.refl (s : VirtioState) : Since s s := ⟨[], rfl, rfl⟩

theorem Since.trans (h : Since s t) (h' : Since t u) : Since s u := by
  obtain ⟨new, hconfs, hleft⟩ := h
  obtain ⟨new', hconfs', hleft'⟩ := h'
  refine ⟨new' ++ new, ?_, ?_⟩
  · rw [hconfs', hconfs, List.append_assoc]
  · rw [List.length_append]
    omega

/-- Where no configuration has been added, the last one is still in force. -/
theorem Since.words_eq (h : Since s t) (left : t.changes = s.changes) : t.words = s.words := by
  obtain ⟨new, hconfs, hleft⟩ := h
  obtain rfl : new = [] := List.eq_nil_of_length_eq_zero (by omega)
  exact (List.cons.inj hconfs).1

theorem Since.changes_le (h : Since s t) : t.changes ≤ s.changes := by
  obtain ⟨new, -, hleft⟩ := h
  omega

theorem Since.words_mem (h : Since s t) : s.words ∈ t.confs := by
  obtain ⟨new, hconfs, -⟩ := h
  rw [hconfs]
  exact List.mem_append_right _ List.mem_cons_self

theorem since_own (own : VirtioOwn s t) : Since s t := by
  cases own with
  | interrupt bits => exact ⟨[], rfl, rfl⟩
  | configure n words left => exact ⟨[words], rfl, left.symm⟩

theorem since_moves (moves : (virtioDevice d).Moves s t) : Since s t := by
  induction moves with
  | refl => exact Since.refl _
  | tail _ last ih => exact ih.trans (since_own last)

theorem regs_own (own : VirtioOwn s t) : t.regs = s.regs := by
  cases own with
  | interrupt bits => rfl
  | configure n words left => rfl

theorem regs_moves (moves : (virtioDevice d).Moves s t) : t.regs = s.regs :=
  Device.moves_keep (fun _ _ => regs_own) moves

/-- The registers are `r`, at `s₀` or later. -/
structure Known (r : VirtioRegs) (s₀ s : VirtioState) : Prop where
  regs : s.regs = r
  since : Since s₀ s

theorem Known.moves (known : Known r s₀ s) (moves : (virtioDevice d).Moves s t) :
    Known r s₀ t :=
  ⟨(regs_moves moves).trans known.regs, known.since.trans (since_moves moves)⟩

/-- A register that only the driver changes is read as it is known. -/
theorem Known.load {Q : U32 → VirtioState → Prop} {reg : VirtioReg} {v : U32}
    (known : Known r s₀ s) (value : ∀ t, t.regs = r → readReg d t reg = v)
    (then_ : ∀ t, Known r s₀ t → Q v t) : Ensures (virtioDevice d) (load reg) Q s := by
  intro t moves
  have hknown := known.moves moves
  show Q (readReg d t reg) t
  rw [value t hknown.regs]
  exact then_ t hknown

theorem Known.store {Q : Unit → VirtioState → Prop} {reg : VirtioReg} {v : U32}
    (known : Known r s₀ s) (then_ : ∀ t, Known (writeReg d r v reg) s₀ t → Q () t) :
    Ensures (virtioDevice d) (store reg v) Q s := by
  intro t moves
  obtain ⟨hregs, hsince⟩ := known.moves moves
  refine then_ _ ⟨?_, hsince⟩
  show writeReg d t.regs v reg = _
  rw [hregs]

/-! ## The functions -/

/-- The probe only reads, and finds a device of the right kind. -/
theorem virtioMmioProbe_spec {Q : Int → VirtioState → Prop} (known : Known r s₀ s)
    (then_ : ∀ t, Known r s₀ t →
      Q (if d.magic = VIRTIO_MMIO_MAGIC ∧ d.version = VIRTIO_MMIO_VERSION ∧ d.deviceId ≠ 0
        then 0 else -1) t) :
    Ensures (virtioDevice d) virtioMmioProbe Q s := by
  unfold virtioMmioProbe
  rw [ensures_bind]
  refine known.load (fun _ _ => rfl) fun s₁ known₁ => ?_
  rw [ensures_bind]
  refine known₁.load (fun _ _ => rfl) fun s₂ known₂ => ?_
  rw [ensures_bind]
  refine known₂.load (fun _ _ => rfl) fun s₃ known₃ => ?_
  rw [ensures_bind]
  refine known₃.load (fun _ _ => rfl) fun s₄ known₄ => ?_
  have hQ := then_ s₄ known₄
  by_cases hmagic : d.magic = VIRTIO_MMIO_MAGIC
  · by_cases hversion : d.version = VIRTIO_MMIO_VERSION
    · by_cases hid : d.deviceId = 0
      · rw [if_neg (fun h => h.2.2 hid)] at hQ
        rw [if_neg (not_not.mpr hmagic), if_neg (not_not.mpr hversion), if_pos hid]
        exact hQ
      · rw [if_pos ⟨hmagic, hversion, hid⟩] at hQ
        rw [if_neg (not_not.mpr hmagic), if_neg (not_not.mpr hversion), if_neg hid]
        exact hQ
    · rw [if_neg (fun h => hversion h.2.1)] at hQ
      rw [if_neg (not_not.mpr hmagic), if_pos hversion]
      exact hQ
  · rw [if_neg (fun h => hmagic h.1)] at hQ
    rw [if_pos hmagic]
    exact hQ

/-- The registers after `virtio_mmio_init`. -/
def VirtioRegs.initialised (r : VirtioRegs) (resetsSel : Bool) : VirtioRegs :=
  { r.reset resetsSel with status := VIRTIO_CONFIG_S_ACKNOWLEDGE ||| VIRTIO_CONFIG_S_DRIVER }

/-- A status that takes no bit back and keeps the order is taken, up to `FEATURES_OK`. -/
theorem writeStatus_ordered (old : U32) {v : U32} (hold : r.status = old) (hv : v ≠ 0)
    (keeps : old &&& ~~~v = 0) (order : statusOrder v = true) :
    writeReg d r v .status
      = { r with
          status :=
            if d.accepts r.driverFeatures then v else v &&& ~~~VIRTIO_CONFIG_S_FEATURES_OK } := by
  show writeStatus d r v = _
  rw [writeStatus, if_neg hv, hold, decide_eq_true keeps, order, Bool.and_true, Bool.and_true]

theorem writeStatus_plain (old : U32) {v : U32} (hold : r.status = old) (hv : v ≠ 0)
    (plain : v &&& ~~~VIRTIO_CONFIG_S_FEATURES_OK = v) (keeps : old &&& ~~~v = 0)
    (order : statusOrder v = true) :
    writeReg d r v .status = { r with status := v } := by
  rw [writeStatus_ordered old hold hv keeps order, plain, ite_self]

theorem virtioMmioInit_spec {Q : Int × VirtioDevice → VirtioState → Prop} {dev : VirtioDevice}
    (known : Known r s₀ s)
    (then_ : ∀ t, Known (r.initialised d.resetsSel) s₀ t →
      Q (0, { dev with deviceId := d.deviceId, vendorId := d.vendorId }) t) :
    Ensures (virtioDevice d) (virtioMmioInit dev) Q s := by
  unfold virtioMmioInit virtioSetStatus virtioGetStatus
  have hreset : writeReg d r 0 .status = r.reset d.resetsSel := rfl
  have hack : writeReg d (r.reset d.resetsSel) VIRTIO_CONFIG_S_ACKNOWLEDGE .status
      = { r.reset d.resetsSel with status := VIRTIO_CONFIG_S_ACKNOWLEDGE } :=
    writeStatus_plain 0 rfl (by decide) (by decide) (by decide) (by decide)
  have hdriver : writeReg d { r.reset d.resetsSel with status := VIRTIO_CONFIG_S_ACKNOWLEDGE }
      (VIRTIO_CONFIG_S_ACKNOWLEDGE ||| VIRTIO_CONFIG_S_DRIVER) .status
        = r.initialised d.resetsSel :=
    writeStatus_plain VIRTIO_CONFIG_S_ACKNOWLEDGE rfl (by decide) (by decide) (by decide) (by decide)
  rw [ensures_bind]
  refine known.store fun s₁ known₁ => ?_
  rw [hreset] at known₁
  rw [ensures_bind]
  refine known₁.store fun s₂ known₂ => ?_
  rw [hack] at known₂
  rw [ensures_bind]
  refine known₂.load (v := VIRTIO_CONFIG_S_ACKNOWLEDGE)
    (fun t h => congrArg VirtioRegs.status h) fun s₃ known₃ => ?_
  rw [if_neg (by decide), ensures_bind]
  refine known₃.store fun s₄ known₄ => ?_
  rw [hdriver] at known₄
  rw [ensures_bind]
  refine known₄.load (v := VIRTIO_CONFIG_S_ACKNOWLEDGE ||| VIRTIO_CONFIG_S_DRIVER)
    (fun t h => congrArg VirtioRegs.status h) fun s₅ known₅ => ?_
  rw [if_neg (by decide), ensures_bind]
  refine known₅.load (fun _ _ => rfl) fun s₆ known₆ => ?_
  rw [ensures_bind]
  exact known₆.load (fun _ _ => rfl) fun s₇ known₇ => then_ s₇ known₇

/-- The registers when the features `v` have been written: into the word that is selected, and
against the rules where one of them is not offered there. -/
def VirtioRegs.wrote (d : VirtioTraits) (r : VirtioRegs) (v : U32) : VirtioRegs :=
  { r with
    driverFeatures := Function.update r.driverFeatures r.driverFeaturesSel v
    obeyed := r.obeyed && v &&& ~~~d.features r.driverFeaturesSel = 0 }

/-- The registers once the device works with the features `v`. -/
def VirtioRegs.negotiated (d : VirtioTraits) (r : VirtioRegs) (v : U32) : VirtioRegs :=
  { r.wrote d v with
    status := VIRTIO_CONFIG_S_ACKNOWLEDGE ||| VIRTIO_CONFIG_S_DRIVER
      ||| VIRTIO_CONFIG_S_FEATURES_OK }

theorem configuring_negotiated (r : VirtioRegs) (v : U32) :
    (r.negotiated d v).configuring = true := by
  show decide ((VIRTIO_CONFIG_S_ACKNOWLEDGE ||| VIRTIO_CONFIG_S_DRIVER
    ||| VIRTIO_CONFIG_S_FEATURES_OK) &&& _ = _) = true
  decide

/-- The registers once it has refused them: `FAILED` has been written over all other bits. -/
def VirtioRegs.refused (d : VirtioTraits) (r : VirtioRegs) (v : U32) : VirtioRegs :=
  { r.wrote d v with status := VIRTIO_CONFIG_S_FAILED, obeyed := false }

theorem virtioNegotiateFeatures_spec {Q : Int × VirtioDevice → VirtioState → Prop}
    {dev : VirtioDevice} {rejected v : U32}
    (hv : v = d.features r.deviceFeaturesSel &&& ~~~rejected ||| 0)
    (hstatus : r.status = VIRTIO_CONFIG_S_ACKNOWLEDGE ||| VIRTIO_CONFIG_S_DRIVER)
    (known : Known r s₀ s)
    (accepted : d.accepts (r.wrote d v).driverFeatures = true → ∀ t,
      Known (r.negotiated d v) s₀ t → Q (0, { dev with negotiatedFeatures := v }) t)
    (refused : d.accepts (r.wrote d v).driverFeatures = false → ∀ t,
      Known (r.refused d v) s₀ t → Q (-1, { dev with negotiatedFeatures := v }) t) :
    Ensures (virtioDevice d) (virtioNegotiateFeatures dev 0 rejected) Q s := by
  unfold virtioNegotiateFeatures virtioSetStatus virtioGetStatus
  have hfeatures : writeReg d r v .driverFeatures = r.wrote d v := by
    show VirtioRegs.mk _ _ _ _ _ _ _ = VirtioRegs.mk _ _ _ _ _ _ _
    rw [hstatus, decide_eq_true (show (VIRTIO_CONFIG_S_ACKNOWLEDGE ||| VIRTIO_CONFIG_S_DRIVER)
      &&& (VIRTIO_CONFIG_S_DRIVER ||| VIRTIO_CONFIG_S_FEATURES_OK) = VIRTIO_CONFIG_S_DRIVER
      by decide), Bool.and_true]
  rw [ensures_bind]
  refine known.load (v := d.features r.deviceFeaturesSel)
    (fun t h => congrArg (fun r' => d.features (VirtioRegs.deviceFeaturesSel r')) h)
    fun s₁ known₁ => ?_
  rw [← hv, ensures_bind]
  refine known₁.store fun s₂ known₂ => ?_
  rw [hfeatures] at known₂
  rw [ensures_bind]
  refine known₂.load (v := VIRTIO_CONFIG_S_ACKNOWLEDGE ||| VIRTIO_CONFIG_S_DRIVER)
    (fun t h => (congrArg VirtioRegs.status h).trans hstatus) fun s₃ known₃ => ?_
  rw [ensures_bind]
  refine known₃.store fun s₄ known₄ => ?_
  rw [ensures_bind]
  have hok := writeStatus_ordered (d := d) (r := r.wrote d v)
    (v := VIRTIO_CONFIG_S_ACKNOWLEDGE ||| VIRTIO_CONFIG_S_DRIVER ||| VIRTIO_CONFIG_S_FEATURES_OK)
    _ hstatus (by decide) (by decide) (by decide)
  rw [hok] at known₄
  cases hacc : d.accepts (r.wrote d v).driverFeatures with
  | true =>
      simp only [hacc, ↓reduceIte] at known₄
      refine known₄.load (v := VIRTIO_CONFIG_S_ACKNOWLEDGE ||| VIRTIO_CONFIG_S_DRIVER
        ||| VIRTIO_CONFIG_S_FEATURES_OK) (fun t h => congrArg VirtioRegs.status h)
        fun s₅ known₅ => ?_
      rw [if_neg (by decide)]
      exact accepted hacc s₅ known₅
  | false =>
      have hback : (VIRTIO_CONFIG_S_ACKNOWLEDGE ||| VIRTIO_CONFIG_S_DRIVER
          ||| VIRTIO_CONFIG_S_FEATURES_OK) &&& ~~~VIRTIO_CONFIG_S_FEATURES_OK
            = VIRTIO_CONFIG_S_ACKNOWLEDGE ||| VIRTIO_CONFIG_S_DRIVER := by decide
      simp only [hacc, Bool.false_eq_true, ↓reduceIte, hback] at known₄
      have hfailed : ∀ r' : VirtioRegs,
          r'.status = VIRTIO_CONFIG_S_ACKNOWLEDGE ||| VIRTIO_CONFIG_S_DRIVER →
          writeReg d r' VIRTIO_CONFIG_S_FAILED .status
            = { r' with status := VIRTIO_CONFIG_S_FAILED, obeyed := false } := by
        intro r' hr'
        show writeStatus d r' _ = _
        rw [writeStatus, if_neg (by decide), hr', show VIRTIO_CONFIG_S_FAILED
          &&& ~~~VIRTIO_CONFIG_S_FEATURES_OK = VIRTIO_CONFIG_S_FAILED by decide, ite_self,
          decide_eq_false (by decide), Bool.and_false, Bool.false_and]
      refine known₄.load (v := VIRTIO_CONFIG_S_ACKNOWLEDGE ||| VIRTIO_CONFIG_S_DRIVER)
        (fun t h => congrArg VirtioRegs.status h) fun s₅ known₅ => ?_
      rw [if_pos (by decide), ensures_bind]
      refine known₅.store fun s₆ known₆ => ?_
      rw [hfailed _ rfl] at known₆
      exact refused hacc s₆ known₆

/-! ### A queue -/

namespace VirtioRegs

@[simp] theorem queue_withQueue (r : VirtioRegs) (q : VirtioQueue) : (r.withQueue q).queue = q :=
  Function.update_self _ _ _

theorem withQueue_withQueue (r : VirtioRegs) (q q' : VirtioQueue) :
    (r.withQueue q).withQueue q' = r.withQueue q' := by
  show VirtioRegs.mk _ _ _ _ _ _ _ = VirtioRegs.mk _ _ _ _ _ _ _
  rw [withQueue, Function.update_idem]

theorem withQueue_queue (r : VirtioRegs) : r.withQueue r.queue = r := by
  rw [withQueue, queue, Function.update_eq_self]

/-- While queues are set up, a register of one that is not in use is written as asked. -/
theorem setup_eq (hc : r.configuring = true) {q : VirtioQueue} (hq : q.ready = false)
    (q' : VirtioQueue) : (r.withQueue q).setup true q' = r.withQueue q' := by
  have hconf : (r.withQueue q).configuring = true := hc
  rw [setup, hconf, queue_withQueue, hq, withQueue_withQueue]
  show VirtioRegs.mk _ _ _ _ _ _ _ = VirtioRegs.mk _ _ _ _ _ _ _
  rw [Bool.not_false, Bool.and_true, Bool.and_true, Bool.and_true]
  rfl

end VirtioRegs

/-- The registers of the selected queue, written one after the other. -/
theorem Known.setup {Q : Unit → VirtioState → Prop} {reg : VirtioReg} {v : U32}
    {q : VirtioQueue} (q' : VirtioQueue) (known : Known (r.withQueue q) s₀ s)
    (hc : r.configuring = true) (hq : q.ready = false)
    (effect : writeReg d (r.withQueue q) v reg = (r.withQueue q).setup true q')
    (then_ : ∀ t, Known (r.withQueue q') s₀ t → Q () t) :
    Ensures (virtioDevice d) (Mmio.store reg v) Q s := by
  refine known.store fun t known' => then_ t ?_
  rwa [effect, VirtioRegs.setup_eq hc hq] at known'

/-- What the driver programs into the queue. -/
def programmed (vq : VirtqRings) : VirtioQueue where
  num := BitVec.ofNat 32 vq.num
  descLo := loHalf vq.descs
  descHi := hiHalf vq.descs
  availLo := loHalf vq.avail
  availHi := hiHalf vq.avail
  usedLo := loHalf vq.used
  usedHi := hiHalf vq.used
  ready := true

theorem programVq_spec {Q : Unit → VirtioState → Prop} {vq : VirtqRings}
    (hc : r.configuring = true) (hunused : r.queue.ready = false)
    (hmax : BitVec.ofNat 32 vq.num ≤ d.queueNumMax r.queueSel)
    (hne : BitVec.ofNat 32 vq.num ≠ 0) (known : Known r s₀ s)
    (then_ : ∀ t, Known (r.withQueue (programmed vq)) s₀ t → Q () t) :
    Ensures (virtioDevice d) (programVq vq) Q s := by
  unfold programVq
  have hload (q : VirtioQueue) (f : VirtioQueue → VirtioQueue) :
      (r.withQueue q).setup true (f (r.withQueue q).queue) = (r.withQueue q).setup true (f q) := by
    rw [VirtioRegs.queue_withQueue]
  rw [← VirtioRegs.withQueue_queue r] at known
  rw [ensures_bind]
  refine known.setup { r.queue with num := BitVec.ofNat 32 vq.num } hc hunused ?_
    fun s₁ known₁ => ?_
  · show VirtioRegs.setup _ (decide (_ ≤ d.queueNumMax r.queueSel)) _ = _
    rw [decide_eq_true hmax]
    exact hload _ ({ · with num := BitVec.ofNat 32 vq.num })
  rw [ensures_bind]
  refine known₁.setup _ hc hunused (hload _ ({ · with descLo := _ })) fun s₂ known₂ => ?_
  rw [ensures_bind]
  refine known₂.setup _ hc hunused (hload _ ({ · with descHi := _ })) fun s₃ known₃ => ?_
  rw [ensures_bind]
  refine known₃.setup _ hc hunused (hload _ ({ · with availLo := _ })) fun s₄ known₄ => ?_
  rw [ensures_bind]
  refine known₄.setup _ hc hunused (hload _ ({ · with availHi := _ })) fun s₅ known₅ => ?_
  rw [ensures_bind]
  refine known₅.setup _ hc hunused (hload _ ({ · with usedLo := _ })) fun s₆ known₆ => ?_
  rw [ensures_bind]
  refine known₆.setup _ hc hunused (hload _ ({ · with usedHi := _ })) fun s₇ known₇ => ?_
  refine known₇.setup (programmed vq) hc hunused ?_ then_
  show VirtioRegs.setup _ (decide ((VirtioRegs.queue _).num ≠ 0)) _ = _
  rw [VirtioRegs.queue_withQueue, decide_eq_true hne]
  rfl

/-- The size that is left of the one asked for. -/
def queueSize (d : VirtioTraits) (vqIdx num : Nat) : Nat :=
  min num (d.queueNumMax (BitVec.ofNat 32 vqIdx)).toNat

theorem queueSize_eq (d : VirtioTraits) (vqIdx num : Nat) :
    (if (d.queueNumMax (BitVec.ofNat 32 vqIdx)).toNat < num
      then (d.queueNumMax (BitVec.ofNat 32 vqIdx)).toNat else num) = queueSize d vqIdx num := by
  rw [queueSize]
  split <;> omega

theorem ofNat_queueSize_le (d : VirtioTraits) (vqIdx num : Nat) :
    BitVec.ofNat 32 (queueSize d vqIdx num) ≤ d.queueNumMax (BitVec.ofNat 32 vqIdx) := by
  have hle : queueSize d vqIdx num ≤ (d.queueNumMax (BitVec.ofNat 32 vqIdx)).toNat :=
    Nat.min_le_right _ _
  rw [BitVec.le_def, BitVec.toNat_ofNat]
  exact (Nat.mod_le _ _).trans hle

theorem toNat_queueSize (d : VirtioTraits) (vqIdx num : Nat) :
    (BitVec.ofNat 32 (queueSize d vqIdx num)).toNat = queueSize d vqIdx num := by
  have hle : queueSize d vqIdx num ≤ (d.queueNumMax (BitVec.ofNat 32 vqIdx)).toNat :=
    Nat.min_le_right _ _
  rw [BitVec.toNat_ofNat, Nat.mod_eq_of_lt (hle.trans_lt (BitVec.isLt _))]

theorem virtioSetupVq_spec {Q : Int × VirtioDevice × List Nat → VirtioState → Prop}
    {dev : VirtioDevice} {m : VirtqMem} {vqIdx num : Nat} (hidx : vqIdx < 8)
    (hc : r.configuring = true)
    (hunused : (r.queues (BitVec.ofNat 32 vqIdx)).ready = false) (known : Known r s₀ s)
    (none_ : ¬(0 < queueSize d vqIdx num ∧ m.rings ≠ 0 ∧ m.vq ≠ 0) → ∀ t freed,
      Known { r with queueSel := BitVec.ofNat 32 vqIdx } s₀ t → Q (-1, dev, freed) t)
    (some_ : 0 < queueSize d vqIdx num → m.rings ≠ 0 → m.vq ≠ 0 → ∀ t,
      Known ({ r with queueSel := BitVec.ofNat 32 vqIdx }.withQueue
        (programmed (vringAt m.rings (queueSize d vqIdx num)))) s₀ t →
      Q (0,
        { dev with
          vqs := Function.update dev.vqs vqIdx (some (vringAt m.rings (queueSize d vqIdx num)))
          numVqs := dev.numVqs + 1 }, []) t) :
    Ensures (virtioDevice d) (virtioSetupVq m dev vqIdx num) Q s := by
  unfold virtioSetupVq
  rw [if_neg (Nat.not_le.mpr hidx), ensures_bind]
  refine known.store fun s₁ known₁ => ?_
  rw [ensures_bind]
  refine known₁.load (v := d.queueNumMax (BitVec.ofNat 32 vqIdx))
    (fun t h => congrArg (fun r' => d.queueNumMax (VirtioRegs.queueSel r')) h) fun s₂ known₂ => ?_
  rw [queueSize_eq]
  by_cases hsize : queueSize d vqIdx num = 0
  · rw [if_pos hsize]
    exact none_ (fun h => h.1.ne' hsize) s₂ [] known₂
  rw [if_neg hsize]
  by_cases hrings : m.rings = 0
  · rw [virtqCreateRings, if_pos hrings]
    exact none_ (fun h => h.2.1 hrings) s₂ [] known₂
  by_cases hvq : m.vq = 0
  · rw [virtqCreateRings, if_neg hrings, if_pos hvq]
    exact none_ (fun h => h.2.2 hvq) s₂ [m.rings] known₂
  rw [virtqCreateRings, if_neg hrings, if_neg hvq]
  have hne : BitVec.ofNat 32 (queueSize d vqIdx num) ≠ 0 := by
    intro h
    have hzero := toNat_queueSize d vqIdx num
    rw [h] at hzero
    exact hsize hzero.symm
  show Ensures _ (programVq _ >>= _) _ _
  rw [ensures_bind]
  refine programVq_spec (r := { r with queueSel := BitVec.ofNat 32 vqIdx }) hc hunused
    (ofNat_queueSize_le d vqIdx num) hne known₂ fun t known => ?_
  exact some_ (Nat.pos_of_ne_zero hsize) hrings hvq t known

/-! ### The configuration -/

/-- The word returned is the one of some moment of the call, which returns once the device has
stopped changing its configuration. -/
theorem virtioReadConfig_spec {Q : Option U32 → VirtioState → Prop} {fuel offset : Nat}
    (enough : s.changes < fuel) (known : Known r s₀ s)
    (then_ : ∀ u t, Since s u → Since u t → Known r s₀ t → Q (some (u.words offset)) t) :
    Ensures (virtioDevice d) (virtioReadConfig fuel offset) Q s := by
  induction fuel generalizing s with
  | zero => exact absurd enough (Nat.not_lt_zero _)
  | succ fuel ih =>
      rw [virtioReadConfig, ensures_bind, ensures_load]
      intro s₁ moves₁
      rw [ensures_bind, ensures_load]
      intro s₂ moves₂
      rw [ensures_bind, ensures_load]
      intro s₃ moves₃
      have since₁ : Since s s₁ := since_moves moves₁
      have since₂ : Since s₁ s₂ := since_moves moves₂
      have since₃ : Since s₂ s₃ := since_moves moves₃
      have known₃ := ((known.moves moves₁).moves moves₂).moves moves₃
      show Ensures _ (if BitVec.ofNat 32 s₁.older.length ≠ BitVec.ofNat 32 s₃.older.length
        then virtioReadConfig fuel offset else pure (some (s₂.words offset))) Q s₃
      by_cases hgen : BitVec.ofNat 32 s₁.older.length = BitVec.ofNat 32 s₃.older.length
      · rw [if_neg (not_not.mpr hgen)]
        exact then_ s₂ s₃ (since₁.trans since₂) since₃ known₃
      · -- the generation has changed, so fewer changes are left for the next round
        rw [if_pos hgen]
        have since := since₁.trans (since₂.trans since₃)
        refine ih ?_ known₃ fun u t hu ht known => then_ u t (since.trans hu) ht known
        have hless : s₃.changes ≠ s₁.changes := by
          intro heq
          obtain ⟨new, hconfs, hleft⟩ := since₂.trans since₃
          obtain rfl : new = [] := List.eq_nil_of_length_eq_zero (by omega)
          rw [(List.cons.inj hconfs).2] at hgen
          exact hgen rfl
        have hle₁ := since₁.changes_le
        have hle₃ := (since₂.trans since₃).changes_le
        omega

end NoobKernel.Hal
