import NoobKernel.Hal.Blk
import NoobKernel.Hal.VirtioTransport
import NoobKernel.Misc.Config

set_option autoImplicit false

/-! # Bringing the disk up (`virtio_blk_init` of `hal/virtio/virtio_blk.c`) -/

namespace NoobKernel.Hal

open Mmio

def VIRTIO_DEVICE_TYPE_DISK : U32 := 2
def BLK_MAJOR_VIRTIO : Nat := 1

def VIRTIO_BLK_F_RO : U32 := 1 <<< 5
def VIRTIO_BLK_F_SCSI : U32 := 1 <<< 7
def VIRTIO_BLK_F_CONFIG_WCE : U32 := 1 <<< 11
def VIRTIO_BLK_F_MQ : U32 := 1 <<< 12
def VIRTIO_F_ANY_LAYOUT : U32 := 1 <<< 27
def VIRTIO_RING_F_INDIRECT_DESC : U32 := 1 <<< 28
def VIRTIO_RING_F_EVENT_IDX : U32 := 1 <<< 29

def rejected : U32 :=
  VIRTIO_BLK_F_RO ||| VIRTIO_BLK_F_SCSI ||| VIRTIO_BLK_F_CONFIG_WCE ||| VIRTIO_BLK_F_MQ
    ||| VIRTIO_F_ANY_LAYOUT ||| VIRTIO_RING_F_INDIRECT_DESC ||| VIRTIO_RING_F_EVENT_IDX

/-- What `kzalloc` returns for the device, and the memory of its queue. -/
structure BlkMem where
  dev : Nat
  queue : VirtqMem

/-- The end of `virtio_blk_init`: the result, the static `virtio_blk`, what is behind it, what
has been freed, and the registry. -/
structure BlkInit (W : Type) where
  ret : Int
  virtioBlk : Nat
  vdev : VirtioDevice
  capacity : BitVec 64
  blockSize : U32
  freed : List Nat
  registry : List (BlockDevice W)

variable {W : Type}

/-- The device right after `kzalloc`. -/
def zeroedDevice : VirtioDevice := ⟨0, 0, 0, fun _ => none, 0⟩

/-- What is registered. -/
def blkDevice (m : BlkMem) (ops : BlkOperations W) : BlockDevice W :=
  ⟨MKDEV BLK_MAJOR_VIRTIO 0, some ops, m.dev⟩

/-- The part of `virtio_blk_init` that reads the capacity and the block size. -/
def blkReadConfig (fuel : Nat) : Driver (Option (BitVec 64 × U32)) := do
  match ← virtioReadConfig fuel 0 with
  | none => pure none
  | some capacityLo =>
      match ← virtioReadConfig fuel 4 with
      | none => pure none
      | some capacityHi =>
          match ← virtioReadConfig fuel 20 with
          | none => pure none
          | some size =>
              pure (some (capacityHi ++ capacityLo,
                if size = 0 then BitVec.ofNat 32 BLOCK_SIZE else size))

/-- `virtio_blk_ops` is `ops` when the device is registered, and `virtioBlk` the value of the
static pointer before. `none` is a call that has not returned after `fuel` rounds of one of the
loops of `virtio_read_config`. -/
def virtioBlkInit (fuel : Nat) (m : BlkMem) (ops : BlkOperations W) (virtioBlk : Nat)
    (reg : List (BlockDevice W)) : Driver (Option (BlkInit W)) := do
  let fail (virtioBlk : Nat) (vdev : VirtioDevice) (freed : List Nat) :=
    pure (some ⟨-1, virtioBlk, vdev, 0, 0, freed, reg⟩)
  let ret ← virtioMmioProbe
  if ret < 0 then fail virtioBlk zeroedDevice []
  else
    let deviceId ← load .deviceId
    if deviceId ≠ VIRTIO_DEVICE_TYPE_DISK then fail virtioBlk zeroedDevice []
    else if m.dev = 0 then fail 0 zeroedDevice []
    else
      let (ret, vdev) ← virtioMmioInit zeroedDevice
      if ret < 0 then fail m.dev vdev [m.dev]
      else
        let (ret, vdev) ← virtioNegotiateFeatures vdev 0 rejected
        if ret < 0 then fail m.dev vdev [m.dev]
        else
          let (ret, vdev, freed) ← virtioSetupVq m.queue vdev 0 VIRTQ_SIZE
          if ret < 0 then fail m.dev vdev (freed ++ [m.dev])
          else
            match ← blkReadConfig fuel with
            | none => pure none
            | some (capacity, blockSize) =>
                let status ← virtioGetStatus
                virtioSetStatus (status ||| VIRTIO_CONFIG_S_DRIVER_OK)
                let (ret, registry) := blkRegister reg (blkDevice m ops)
                pure (some
                  { ret := if ret < 0 then -1 else 0
                    virtioBlk := m.dev
                    vdev := vdev
                    capacity := capacity
                    blockSize := blockSize
                    freed := if ret < 0 then [m.dev] else []
                    registry := registry })

/-! ## What the call can find -/

variable {d : VirtioTraits} {r₀ : VirtioRegs} {m : BlkMem} {ops : BlkOperations W} {ptr fuel : Nat}
  {reg : List (BlockDevice W)} {s t : VirtioState} {res : Option (BlkInit W)}

/-- The device is a virtio disk. -/
def IsDisk (d : VirtioTraits) : Prop :=
  d.magic = VIRTIO_MMIO_MAGIC ∧ d.version = VIRTIO_MMIO_VERSION
    ∧ d.deviceId = VIRTIO_DEVICE_TYPE_DISK

instance (d : VirtioTraits) : Decidable (IsDisk d) := inferInstanceAs (Decidable (_ ∧ _ ∧ _))

/-- The features the driver writes, after a start with the registers `r`: of the word of offered
features that is selected, those not rejected. -/
def wanted (d : VirtioTraits) (r : VirtioRegs) : U32 :=
  d.features (r.initialised d.resetsSel).deviceFeaturesSel &&& ~~~rejected

/-- The features the driver accepts: those, in the word selected for writing, and no other. -/
def accepted (d : VirtioTraits) (r : VirtioRegs) : U32 → U32 :=
  ((r.initialised d.resetsSel).wrote d (wanted d r)).driverFeatures

/-- Every feature that is written is one that the device offers in that word. -/
def Offered (d : VirtioTraits) (r : VirtioRegs) : Prop :=
  wanted d r &&& ~~~d.features (r.initialised d.resetsSel).driverFeaturesSel = 0

instance (d : VirtioTraits) (r : VirtioRegs) : Decidable (Offered d r) :=
  inferInstanceAs (Decidable (_ = _))

theorem and_not_offered (features rejected : U32) :
    (features &&& ~~~rejected) &&& ~~~features = 0 := by
  ext i hi
  simp
  tauto

/-- So it is where both registers select the same word, and where a reset clears them. -/
theorem offered_of_sel {d : VirtioTraits} {r : VirtioRegs}
    (h : d.resetsSel = true ∨ r.deviceFeaturesSel = r.driverFeaturesSel) : Offered d r := by
  have hsel : (r.initialised d.resetsSel).deviceFeaturesSel
      = (r.initialised d.resetsSel).driverFeaturesSel := by
    show (if d.resetsSel then 0 else r.deviceFeaturesSel)
      = if d.resetsSel then 0 else r.driverFeaturesSel
    obtain h | h := h
    · rw [if_pos h, if_pos h]
    · rw [h]
  rw [Offered, wanted, hsel, and_not_offered]

/-- The size of the queue. -/
def blkQueueSize (d : VirtioTraits) : Nat := queueSize d 0 VIRTQ_SIZE

/-- The device has the queue, and there is memory for it. -/
def HasQueue (d : VirtioTraits) (m : VirtqMem) : Prop :=
  0 < blkQueueSize d ∧ m.rings ≠ 0 ∧ m.vq ≠ 0

instance (d : VirtioTraits) (m : VirtqMem) : Decidable (HasQueue d m) :=
  inferInstanceAs (Decidable (_ ∧ _ ∧ _))

/-- The registry takes the disk. -/
def HasRoom (reg : List (BlockDevice W)) : Prop :=
  reg.length < BLK_MAX_DEVICES ∧ ∀ b ∈ reg, b.devno ≠ MKDEV BLK_MAJOR_VIRTIO 0

/-- The registers of a disk in operation, with the queue in the memory at `rings`. -/
def operating (d : VirtioTraits) (r : VirtioRegs) (rings : Nat) : VirtioRegs where
  status := VIRTIO_CONFIG_S_ACKNOWLEDGE ||| VIRTIO_CONFIG_S_DRIVER
    ||| VIRTIO_CONFIG_S_FEATURES_OK ||| VIRTIO_CONFIG_S_DRIVER_OK
  deviceFeaturesSel := (r.initialised d.resetsSel).deviceFeaturesSel
  driverFeaturesSel := (r.initialised d.resetsSel).driverFeaturesSel
  driverFeatures := accepted d r
  queueSel := 0
  queues := fun i =>
    if i = 0 then programmed (vringAt rings (blkQueueSize d))
    else ⟨0, 0, 0, 0, 0, 0, 0, false⟩
  obeyed := Offered d r

/-- The static pointer is left pointing to memory that has been freed. -/
def Dangling (m : BlkMem) (out : BlkInit W) : Prop := out.virtioBlk = m.dev ∧ m.dev ∈ out.freed

theorem operating_driverOk (d : VirtioTraits) (r : VirtioRegs) (rings : Nat) :
    (operating d r rings).status &&& VIRTIO_CONFIG_S_DRIVER_OK ≠ 0 := by
  show (VIRTIO_CONFIG_S_ACKNOWLEDGE ||| VIRTIO_CONFIG_S_DRIVER ||| VIRTIO_CONFIG_S_FEATURES_OK
    ||| VIRTIO_CONFIG_S_DRIVER_OK) &&& VIRTIO_CONFIG_S_DRIVER_OK ≠ 0
  decide

/-- How `virtio_blk_init` can end, with the registers of the device: the device is not looked at
further (`absent`); it refuses the features (`refused`); it has no queue or there is no memory
for one (`queueless`); the disk operates, and the registry has refused or taken it. -/
inductive Ended (d : VirtioTraits) (m : BlkMem) (ops : BlkOperations W)
    (reg : List (BlockDevice W)) (r₀ : VirtioRegs) : BlkInit W → VirtioRegs → Prop
  | absent (out : BlkInit W) (h : ¬(IsDisk d ∧ m.dev ≠ 0)) (ret : out.ret = -1)
      (registry : out.registry = reg) (freed : out.freed = []) : Ended d m ops reg r₀ out r₀
  | refused (out : BlkInit W) (disk : IsDisk d) (mem : m.dev ≠ 0)
      (h : d.accepts (accepted d r₀) = false) (ret : out.ret = -1) (registry : out.registry = reg)
      (dangling : Dangling m out) :
      Ended d m ops reg r₀ out ((r₀.initialised d.resetsSel).refused d (wanted d r₀))
  | queueless (out : BlkInit W) (disk : IsDisk d) (mem : m.dev ≠ 0)
      (accepts : d.accepts (accepted d r₀) = true) (h : ¬HasQueue d m.queue) (ret : out.ret = -1)
      (registry : out.registry = reg) (dangling : Dangling m out) :
      Ended d m ops reg r₀ out ((r₀.initialised d.resetsSel).negotiated d (wanted d r₀))
  | unregistered (out : BlkInit W) (disk : IsDisk d) (mem : m.dev ≠ 0)
      (accepts : d.accepts (accepted d r₀) = true) (queue : HasQueue d m.queue) (h : ¬HasRoom reg)
      (ret : out.ret = -1) (registry : out.registry = reg) (dangling : Dangling m out) :
      Ended d m ops reg r₀ out (operating d r₀ m.queue.rings)
  | ready (out : BlkInit W) (disk : IsDisk d) (mem : m.dev ≠ 0)
      (accepts : d.accepts (accepted d r₀) = true) (queue : HasQueue d m.queue) (room : HasRoom reg)
      (ret : out.ret = 0) (registry : out.registry = reg ++ [blkDevice m ops])
      (live : out.virtioBlk = m.dev ∧ out.freed = []) :
      Ended d m ops reg r₀ out (operating d r₀ m.queue.rings)

/-- What the driver keeps of the disk, read between `s` and `t`: the two halves of the capacity
and the block size, each from the configuration at the moment of its reading. -/
def Keeps (out : BlkInit W) (s t : VirtioState) : Prop :=
  ∃ u₀ u₁ u₂, Since s u₀ ∧ Since u₀ u₁ ∧ Since u₁ u₂ ∧ Since u₂ t
    ∧ out.capacity = u₁.words 4 ++ u₀.words 0
    ∧ out.blockSize = if u₂.words 20 = 0 then BitVec.ofNat 32 BLOCK_SIZE else u₂.words 20

/-! ## The call -/

theorem blkRegister_eq (reg : List (BlockDevice W)) (dev : BlockDevice W)
    (hdev : dev.devno = MKDEV BLK_MAJOR_VIRTIO 0) :
    (HasRoom reg ∧ blkRegister reg dev = (0, reg ++ [dev]))
      ∨ (¬HasRoom reg ∧ blkRegister reg dev = (-1, reg)) := by
  rw [blkRegister, HasRoom, hdev]
  by_cases hfull : BLK_MAX_DEVICES ≤ reg.length
  · exact .inr ⟨fun h => absurd h.1 (Nat.not_lt.mpr hfull), if_pos hfull⟩
  rw [if_neg hfull]
  by_cases hany : reg.any (·.devno = MKDEV BLK_MAJOR_VIRTIO 0) = true
  · obtain ⟨b, hb, heq⟩ := List.any_eq_true.mp hany
    exact .inr ⟨fun h => h.2 b hb (of_decide_eq_true heq), if_pos hany⟩
  · refine .inl ⟨⟨Nat.lt_of_not_le hfull, fun b hb heq => hany ?_⟩, if_neg hany⟩
    exact List.any_eq_true.mpr ⟨b, hb, decide_eq_true heq⟩

/-- The last write: the queue is programmed, and `DRIVER_OK` is added to the status. -/
theorem writeReg_driverOk (hob : r₀.obeyed = true) (hacc : d.accepts (accepted d r₀) = true)
    (rings : Nat) :
    writeReg d
      ({ (r₀.initialised d.resetsSel).negotiated d (wanted d r₀) with
        queueSel := BitVec.ofNat 32 0 }.withQueue (programmed (vringAt rings (blkQueueSize d))))
      (VIRTIO_CONFIG_S_ACKNOWLEDGE ||| VIRTIO_CONFIG_S_DRIVER ||| VIRTIO_CONFIG_S_FEATURES_OK
        ||| VIRTIO_CONFIG_S_DRIVER_OK) .status = operating d r₀ rings := by
  rw [writeStatus_ordered (VIRTIO_CONFIG_S_ACKNOWLEDGE ||| VIRTIO_CONFIG_S_DRIVER
    ||| VIRTIO_CONFIG_S_FEATURES_OK) rfl (by decide) (by decide) (by decide)]
  have hacc' : d.accepts (VirtioRegs.driverFeatures
      ({ (r₀.initialised d.resetsSel).negotiated d (wanted d r₀) with
        queueSel := BitVec.ofNat 32 0 }.withQueue
        (programmed (vringAt rings (blkQueueSize d))))) = true := hacc
  rw [if_pos hacc']
  show VirtioRegs.mk _ _ _ _ _ _ _ = VirtioRegs.mk _ _ _ _ _ _ _
  congr 1
  · funext i
    exact Function.update_apply _ _ _ _
  · show (r₀.obeyed && decide (Offered d r₀)) = decide (Offered d r₀)
    rw [hob, Bool.true_and]

theorem blkReadConfig_spec {s₀ : VirtioState}
    {Q : Option (BitVec 64 × U32) → VirtioState → Prop} {r : VirtioRegs}
    (enough : s.changes < fuel) (known : Known r s₀ s)
    (then_ : ∀ u₀ u₁ u₂ t, Since s u₀ → Since u₀ u₁ → Since u₁ u₂ → Since u₂ t → Known r s₀ t →
      Q (some (u₁.words 4 ++ u₀.words 0,
        if u₂.words 20 = 0 then BitVec.ofNat 32 BLOCK_SIZE else u₂.words 20)) t) :
    Ensures (virtioDevice d) (blkReadConfig fuel) Q s := by
  unfold blkReadConfig
  rw [ensures_bind]
  refine virtioReadConfig_spec enough known fun u₀ t₀ hu₀ ht₀ known₀ => ?_
  have enough₀ : t₀.changes < fuel := (hu₀.trans ht₀).changes_le.trans_lt enough
  show Ensures _ (virtioReadConfig fuel 4 >>= _) _ _
  rw [ensures_bind]
  refine virtioReadConfig_spec enough₀ known₀ fun u₁ t₁ hu₁ ht₁ known₁ => ?_
  have enough₁ : t₁.changes < fuel := (hu₁.trans ht₁).changes_le.trans_lt enough₀
  show Ensures _ (virtioReadConfig fuel 20 >>= _) _ _
  rw [ensures_bind]
  refine virtioReadConfig_spec enough₁ known₁ fun u₂ t₂ hu₂ ht₂ known₂ => ?_
  exact then_ u₀ u₁ u₂ t₂ hu₀ (ht₀.trans hu₁) (ht₁.trans hu₂) ht₂ known₂

/-- The probe and the device number together find a disk. -/
theorem isDisk_iff (d : VirtioTraits) :
    IsDisk d ↔ (d.magic = VIRTIO_MMIO_MAGIC ∧ d.version = VIRTIO_MMIO_VERSION ∧ d.deviceId ≠ 0)
      ∧ d.deviceId = VIRTIO_DEVICE_TYPE_DISK := by
  constructor
  · rintro ⟨hmagic, hversion, hid⟩
    exact ⟨⟨hmagic, hversion, by rw [hid]; decide⟩, hid⟩
  · rintro ⟨⟨hmagic, hversion, -⟩, hid⟩
    exact ⟨hmagic, hversion, hid⟩

theorem virtioBlkInit_spec (hob : s.regs.obeyed = true) (enough : s.changes < fuel) :
    Ensures (virtioDevice d) (virtioBlkInit fuel m ops ptr reg)
      (fun res t => ∃ out, res = some out ∧ Ended d m ops reg s.regs out t.regs
        ∧ (out.ret = 0 → Keeps out s t)) s := by
  unfold virtioBlkInit virtioGetStatus virtioSetStatus
  have hstart : Known s.regs s s := ⟨rfl, Since.refl s⟩
  rw [ensures_bind]
  refine virtioMmioProbe_spec hstart fun s₁ known₁ => ?_
  by_cases hprobe : d.magic = VIRTIO_MMIO_MAGIC ∧ d.version = VIRTIO_MMIO_VERSION ∧ d.deviceId ≠ 0
  swap
  · rw [if_neg hprobe, if_pos (by decide)]
    refine ⟨_, rfl, ?_, nofun⟩
    rw [known₁.regs]
    exact .absent _ (fun h => hprobe ((isDisk_iff d).mp h.1).1) rfl rfl rfl
  rw [if_pos hprobe, if_neg (by decide), ensures_bind]
  refine known₁.load (fun _ _ => rfl) fun s₂ known₂ => ?_
  by_cases hid : d.deviceId = VIRTIO_DEVICE_TYPE_DISK
  swap
  · rw [if_pos hid]
    refine ⟨_, rfl, ?_, nofun⟩
    rw [known₂.regs]
    exact .absent _ (fun h => hid h.1.2.2) rfl rfl rfl
  rw [if_neg (not_not.mpr hid)]
  have hdisk : IsDisk d := (isDisk_iff d).mpr ⟨hprobe, hid⟩
  by_cases hmem : m.dev = 0
  · rw [if_pos hmem]
    refine ⟨_, rfl, ?_, nofun⟩
    rw [known₂.regs]
    exact .absent _ (fun h => h.2 hmem) rfl rfl rfl
  rw [if_neg hmem, ensures_bind]
  refine virtioMmioInit_spec known₂ fun s₃ known₃ => ?_
  simp only [lt_self_iff_false, ↓reduceIte]
  rw [ensures_bind]
  have hwanted : wanted d s.regs = d.features (s.regs.initialised d.resetsSel).deviceFeaturesSel
      &&& ~~~rejected ||| 0 := (BitVec.or_zero).symm
  refine virtioNegotiateFeatures_spec hwanted rfl known₃ (fun hacc s₄ known₄ => ?_)
    fun hacc s₄ known₄ => ?_
  swap
  · simp only [Int.reduceNeg, Int.reduceLT, ↓reduceIte]
    refine ⟨_, rfl, ?_, nofun⟩
    rw [known₄.regs]
    exact .refused _ hdisk hmem hacc rfl rfl ⟨rfl, List.mem_singleton_self _⟩
  simp only [lt_self_iff_false, ↓reduceIte]
  rw [ensures_bind]
  refine virtioSetupVq_spec (by decide) (configuring_negotiated _ _) rfl known₄ (fun hqueue s₅ freed known₅ => ?_)
    fun hsize hrings hvq s₅ known₅ => ?_
  · simp only [Int.reduceNeg, Int.reduceLT, ↓reduceIte]
    refine ⟨_, rfl, ?_, nofun⟩
    rw [known₅.regs]
    exact .queueless _ hdisk hmem hacc hqueue rfl rfl
      ⟨rfl, List.mem_append_right _ (List.mem_singleton_self _)⟩
  simp only [lt_self_iff_false, ↓reduceIte]
  rw [ensures_bind]
  have enough₅ : s₅.changes < fuel := known₅.since.changes_le.trans_lt enough
  refine blkReadConfig_spec enough₅ known₅ fun u₀ u₁ u₂ s₆ h₀ h₁ h₂ h₆ known₆ => ?_
  have known₆' : Known _ u₂ s₆ := ⟨known₆.regs, h₆⟩
  show Ensures _ (load _ >>= _) _ _
  rw [ensures_bind]
  refine known₆'.load (v := VIRTIO_CONFIG_S_ACKNOWLEDGE ||| VIRTIO_CONFIG_S_DRIVER
    ||| VIRTIO_CONFIG_S_FEATURES_OK) (fun t h => congrArg VirtioRegs.status h) fun s₇ known₇ => ?_
  rw [ensures_bind]
  refine known₇.store fun t known => ?_
  have hlast := writeReg_driverOk hob hacc m.queue.rings
  rw [blkQueueSize] at hlast
  rw [hlast] at known
  have hkeeps := fun out : BlkInit W => fun hcap hsize =>
    (⟨u₀, u₁, u₂, known₅.since.trans h₀, h₁, h₂, known.since, hcap, hsize⟩ : Keeps out s t)
  rcases blkRegister_eq reg (blkDevice m ops) rfl with ⟨hroom, heq⟩ | ⟨hroom, heq⟩
  · simp only [heq, lt_self_iff_false, ↓reduceIte]
    refine ⟨_, rfl, ?_, fun _ => hkeeps _ rfl rfl⟩
    rw [known.regs]
    exact .ready _ hdisk hmem hacc ⟨hsize, hrings, hvq⟩ hroom rfl rfl ⟨rfl, rfl⟩
  · simp only [heq, Int.reduceNeg, Int.reduceLT, ↓reduceIte]
    refine ⟨_, rfl, ?_, nofun⟩
    rw [known.regs]
    exact .unregistered _ hdisk hmem hacc ⟨hsize, hrings, hvq⟩ hroom rfl rfl
      ⟨rfl, List.mem_singleton_self _⟩

/-! ## The queue as the device sees it -/

/-- The rings of a queue of `num` entries, as the device finds them in its registers: aligned,
apart from each other, and inside the memory from `mem` to `mem + len`. -/
@[mk_iff]
structure Laid (q : VirtioQueue) (num mem len : Nat) : Prop where
  size : q.num.toNat = num
  descs : mem ≤ (q.descHi ++ q.descLo).toNat ∧ (q.descHi ++ q.descLo).toNat % 16 = 0
  avail : (q.descHi ++ q.descLo).toNat + sizeofDesc * num ≤ (q.availHi ++ q.availLo).toNat
    ∧ (q.availHi ++ q.availLo).toNat % 2 = 0
  used : (q.availHi ++ q.availLo).toNat + 2 * (3 + num) ≤ (q.usedHi ++ q.usedLo).toNat
    ∧ (q.usedHi ++ q.usedLo).toNat % 4 = 0
  inside : (q.usedHi ++ q.usedLo).toNat + (2 * 3 + sizeofUsedElem * num) ≤ mem + len

/-- `size` in `virtq_create`. -/
def vringBytes (num : Nat) : Nat := Misc.ALIGN_UP (vringSize num) PAGE_SIZE

/-- The two halves of an address make the address. -/
theorem halves_toNat {pa : Nat} (h : pa < 2 ^ 64) : (hiHalf pa ++ loHalf pa).toNat = pa := by
  have hhi : pa >>> 32 < 2 ^ 32 := by
    rw [Nat.shiftRight_eq_div_pow]
    omega
  rw [BitVec.toNat_append, hiHalf, loHalf, BitVec.toNat_ofNat, BitVec.toNat_ofNat,
    Nat.mod_eq_of_lt hhi, ← Nat.shiftLeft_add_eq_or_of_lt (Nat.mod_lt _ (Nat.two_pow_pos 32)),
    Nat.shiftLeft_eq, Nat.shiftRight_eq_div_pow]
  omega

/-- The offset of the used ring. -/
theorem usedOffset_eq {num : Nat} (hnum : num ≤ 2 ^ 16) :
    Misc.ALIGN_UP (sizeofDesc * num + 2 * (3 + num)) VRING_ALIGN
      = (sizeofDesc * num + 2 * (3 + num) + 4095) / 4096 * 4096 := by
  rw [show VRING_ALIGN = 2 ^ 12 from rfl, Misc.ALIGN_UP_two_pow _ (by decide), sizeofDesc,
    Nat.mod_eq_of_lt (by omega)]
  omega

theorem vringBytes_eq {num : Nat} (hnum : num ≤ 2 ^ 16) :
    vringBytes num = (vringSize num + 4095) / 4096 * 4096 := by
  rw [vringBytes, PAGE_SIZE_eq, Misc.ALIGN_UP_two_pow _ (by decide), vringSize, sizeofDesc,
    sizeofUsedElem, VRING_ALIGN, Nat.mod_eq_of_lt (by omega)]
  omega

/-- The rings that `virtq_create` lays out in whole pages fit, whatever their size. -/
theorem laid_programmed {num mem : Nat} (hnum : num ≤ 2 ^ 16) (page : mem % PAGE_SIZE = 0)
    (fits : mem + vringBytes num ≤ 2 ^ 64) :
    Laid (programmed (vringAt mem num)) num mem (vringBytes num) := by
  have hbytes := vringBytes_eq hnum
  rw [vringSize, sizeofDesc, sizeofUsedElem, VRING_ALIGN] at hbytes
  have hused := usedOffset_eq hnum
  rw [sizeofDesc] at hused
  rw [PAGE_SIZE_eq] at page
  have hdescs : (hiHalf mem ++ loHalf mem).toNat = mem := halves_toNat (by omega)
  have havail : (hiHalf (mem + 16 * num) ++ loHalf (mem + 16 * num)).toNat = mem + 16 * num :=
    halves_toNat (by omega)
  have husedAt : (hiHalf (mem + Misc.ALIGN_UP (16 * num + 2 * (3 + num)) VRING_ALIGN)
      ++ loHalf (mem + Misc.ALIGN_UP (16 * num + 2 * (3 + num)) VRING_ALIGN)).toNat
      = mem + Misc.ALIGN_UP (16 * num + 2 * (3 + num)) VRING_ALIGN := halves_toNat (by omega)
  rw [laid_iff]
  simp only [programmed, vringAt, sizeofDesc, sizeofUsedElem, hdescs, havail, husedAt,
    BitVec.toNat_ofNat]
  omega

/-! ## A disk that changes its configuration -/

/-- A disk of 1024 requests. -/
def disk : VirtioTraits where
  magic := VIRTIO_MMIO_MAGIC
  version := VIRTIO_MMIO_VERSION
  deviceId := VIRTIO_DEVICE_TYPE_DISK
  vendorId := 0x554d4551
  features := fun i => if i = 0 then VIRTIO_BLK_F_MQ ||| VIRTIO_RING_F_EVENT_IDX ||| 1 <<< 9 else 1
  accepts := fun _ => true
  resetsSel := true
  queueNumMax := fun i => if i = 0 then 1024 else 0

/-- Its capacity is `2 ^ 32 - 1` sectors, and it changes once. -/
def diskState : VirtioState where
  regs := ⟨0, 1, 1, fun _ => 0, 0, fun _ => ⟨0, 0, 0, 0, 0, 0, 0, false⟩, true⟩
  intStatus := 0
  words := fun offset => if offset = 0 then 0xffffffff else 0
  older := []
  changes := 1

/-- Between the two halves of the capacity it becomes one of `2 ^ 32` sectors. -/
def grows (n : Nat) (s : VirtioState) : VirtioState :=
  if s.changes = 1 ∧ n = 30 then
    { s with
      words := fun offset => if offset = 4 then 1 else 0
      older := s.words :: s.older
      changes := 0 }
  else s

theorem grows_moves (n : Nat) (s : VirtioState) : (virtioDevice disk).Moves s (grows n s) := by
  rw [grows]
  split
  · rename_i h
    exact .single (.configure s 0 _ h.1)
  · exact .refl

def diskMem : BlkMem := ⟨0x1000, ⟨0x80400000, 0x2000⟩⟩

def noOps : BlkOperations Unit := ⟨none, none, none, none, none⟩

/-- The run with that device. -/
def grownRun : Option (BlkInit Unit) × VirtioState :=
  exec (virtioDevice disk) grows 0 (virtioBlkInit 2 diskMem noOps 0 []) diskState

theorem run_grownRun :
    Run (virtioDevice disk) (virtioBlkInit 2 diskMem noOps 0 []) diskState grownRun.1 grownRun.2 :=
  run_exec grows_moves _ _ _

theorem grownRun_returns :
    ∃ out, grownRun.1 = some out ∧ out.ret = 0 ∧ out.capacity = 0x1ffffffff := by
  have hany : grownRun.1.any (fun out => decide (out.ret = 0 ∧ out.capacity = 0x1ffffffff))
      = true := by decide
  obtain ⟨out, hout, h⟩ := (Option.any_eq_true _ _).mp hany
  exact ⟨out, hout, of_decide_eq_true h⟩

/-! ## Runs of `virtio_blk_init` -/

/-- All that `virtio_blk_init` needs. -/
def Usable (d : VirtioTraits) (r : VirtioRegs) (m : BlkMem) (reg : List (BlockDevice W)) : Prop :=
  IsDisk d ∧ m.dev ≠ 0 ∧ d.accepts (accepted d r) = true ∧ HasQueue d m.queue ∧ HasRoom reg

theorem virtioBlkInit_ended (hob : s.regs.obeyed = true) (enough : s.changes < fuel)
    (run : Run (virtioDevice d) (virtioBlkInit fuel m ops ptr reg) s res t) :
    ∃ out, res = some out ∧ Ended d m ops reg s.regs out t.regs ∧ (out.ret = 0 → Keeps out s t) :=
  (ensures_iff _).mp (virtioBlkInit_spec hob enough) res t run

namespace Ended

variable {out : BlkInit W} {r : VirtioRegs}

theorem ret_iff (h : Ended d m ops reg r₀ out r) : out.ret = 0 ↔ Usable d r₀ m reg := by
  cases h with
  | absent h ret => exact iff_of_false (by rw [ret]; decide) fun u => h ⟨u.1, u.2.1⟩
  | refused disk mem h ret =>
      exact iff_of_false (by rw [ret]; decide) fun u => absurd u.2.2.1 (by rw [h]; decide)
  | queueless disk mem accepts h ret =>
      exact iff_of_false (by rw [ret]; decide) fun u => h u.2.2.2.1
  | unregistered disk mem accepts queue h ret =>
      exact iff_of_false (by rw [ret]; decide) fun u => h u.2.2.2.2
  | ready disk mem accepts queue room ret =>
      exact iff_of_true ret ⟨disk, mem, accepts, queue, room⟩

theorem of_ready (h : Ended d m ops reg r₀ out r) (ret : out.ret = 0) :
    r = operating d r₀ m.queue.rings ∧ out.registry = reg ++ [blkDevice m ops]
      ∧ out.virtioBlk = m.dev ∧ out.freed = [] := by
  cases h with
  | absent h ret' => rw [ret'] at ret; cases ret
  | refused disk mem h ret' => rw [ret'] at ret; cases ret
  | queueless disk mem accepts h ret' => rw [ret'] at ret; cases ret
  | unregistered disk mem accepts queue h ret' => rw [ret'] at ret; cases ret
  | ready disk mem accepts queue room ret' registry live => exact ⟨rfl, registry, live⟩

end Ended

/-- **The disk is brought up exactly when everything it takes is there, and then the device
operates.** For every virtio device, whatever its registers hold before, however it changes its
configuration and raises interrupts meanwhile, `virtio_blk_init` returns; it returns 0 exactly
when the device is a virtio disk that accepts the features offered and not rejected (of the word
that is selected after the reset, in the word selected there, and none elsewhere), has a queue,
and there is memory and room in the registry. Then the status is complete, the features are those
accepted, and the device finds its rings aligned, apart and inside the memory they were given. -/
theorem virtio_blk_init_ready (hob : s.regs.obeyed = true) (enough : s.changes < fuel)
    (page : m.queue.rings % PAGE_SIZE = 0)
    (fits : m.queue.rings + vringBytes (blkQueueSize d) ≤ 2 ^ 64)
    (run : Run (virtioDevice d) (virtioBlkInit fuel m ops ptr reg) s res t) :
    ∃ out, res = some out ∧ (out.ret = 0 ↔ Usable d s.regs m reg)
      ∧ (out.ret = 0 →
          t.regs = operating d s.regs m.queue.rings
            ∧ Laid (t.regs.queues 0) (blkQueueSize d) m.queue.rings (vringBytes (blkQueueSize d))
            ∧ (t.regs.queues 0).ready = true
            ∧ out.registry = reg ++ [blkDevice m ops]) := by
  obtain ⟨out, hres, hended, -⟩ := virtioBlkInit_ended hob enough run
  refine ⟨out, hres, hended.ret_iff, fun hret => ?_⟩
  obtain ⟨hregs, hregistry, -⟩ := hended.of_ready hret
  have hsize : blkQueueSize d ≤ 2 ^ 16 := (Nat.min_le_left _ _).trans (by decide)
  rw [hregs]
  exact ⟨rfl, laid_programmed hsize page fits, rfl, hregistry⟩

theorem virtio_blk_init_ready_disk :
    ∃ out, grownRun.1 = some out ∧ (out.ret = 0 ↔ Usable disk diskState.regs diskMem ([] : List (BlockDevice Unit)))
      ∧ (out.ret = 0 →
          grownRun.2.regs = operating disk diskState.regs diskMem.queue.rings
            ∧ Laid (grownRun.2.regs.queues 0) (blkQueueSize disk) diskMem.queue.rings
              (vringBytes (blkQueueSize disk))
            ∧ (grownRun.2.regs.queues 0).ready = true
            ∧ out.registry = [] ++ [blkDevice diskMem noOps]) :=
  virtio_blk_init_ready rfl (by decide) (by decide) (by decide) run_grownRun

/-- Past the negotiation the protocol has been kept exactly where the features are offered. -/
theorem obeyed_iff {obeyed : Bool} {r₀ : VirtioRegs} (hob : obeyed = true) (disk : IsDisk d)
    (mem : m.dev ≠ 0) (accepts : d.accepts (accepted d r₀) = true) :
    (obeyed && decide (Offered d r₀)) = true
      ↔ ¬(IsDisk d ∧ m.dev ≠ 0 ∧ (d.accepts (accepted d r₀) = false ∨ ¬Offered d r₀)) := by
  rw [hob, Bool.true_and, decide_eq_true_iff, accepts]
  constructor
  · rintro hoffered ⟨-, -, h | h⟩
    · cases h
    · exact h hoffered
  · exact fun h => by_contra fun hnot => h ⟨disk, mem, .inr hnot⟩

/-- **The capacity is put together from two moments.** In every run that brings the disk up, the
low half of the capacity is from one configuration of the device and the high half from the same
or a later one; only where the device has not changed its configuration meanwhile is the whole
the device's capacity. -/
theorem virtio_blk_init_capacity {out : BlkInit W} (hob : s.regs.obeyed = true)
    (enough : s.changes < fuel)
    (run : Run (virtioDevice d) (virtioBlkInit fuel m ops ptr reg) s (some out) t)
    (ret : out.ret = 0) :
    (∃ u₀ u₁, Since s u₀ ∧ Since u₀ u₁ ∧ Since u₁ t ∧ out.capacity = u₁.words 4 ++ u₀.words 0)
      ∧ (t.changes = s.changes → out.capacity = s.words 4 ++ s.words 0) := by
  obtain ⟨out', hres, -, hkeeps⟩ := virtioBlkInit_ended hob enough run
  obtain rfl := Option.some.inj hres
  obtain ⟨u₀, u₁, u₂, h₀, h₁, h₂, hend, hcap, -⟩ := hkeeps ret
  refine ⟨⟨u₀, u₁, h₀, h₁, h₂.trans hend, hcap⟩, fun hsame => ?_⟩
  have hle₁ := h₁.changes_le
  have hle := (h₂.trans hend).changes_le
  have hle₀ := h₀.changes_le
  rw [hcap, (h₀.trans h₁).words_eq (by omega), h₀.words_eq (by omega)]

/-- A disk that grows by one sector is taken for one of nearly twice its size. -/
theorem virtio_blk_init_capacity_torn :
    ∃ out, grownRun.1 = some out ∧ out.capacity = 0x1ffffffff
      ∧ ∃ u₀ u₁, Since diskState u₀ ∧ Since u₀ u₁ ∧ Since u₁ grownRun.2
        ∧ out.capacity = u₁.words 4 ++ u₀.words 0 := by
  obtain ⟨out, hout, hret, hcap⟩ := grownRun_returns
  have hrun := run_grownRun
  rw [hout] at hrun
  exact ⟨out, hout, hcap, (virtio_blk_init_capacity rfl (by decide) hrun hret).1⟩

end NoobKernel.Hal
