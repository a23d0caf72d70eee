import NoobKernel.Hal.Virtq
import NoobKernel.Lib.Mmio
import NoobKernel.Misc.Align

set_option autoImplicit false

/-! # The virtio transport (`hal/virtio/virtio_mmio.c`) and its device

The driver is a program over the registers of the transport (`Mmio.Prog`). What stands behind the
registers is stated here as well (`virtioDevice`): a device is what it is (`VirtioTraits`), has
the registers the driver writes (`VirtioRegs`), raises interrupts and may change its configuration
at any time, each time with a new generation. `obeyed` records whether the driver has kept to what a virtio
device asks of it: the order of the status bits, no bit taken back but by a reset, features only
before they are confirmed and only from those offered, a queue set up once, within the device's
maximum, between the confirmation and `DRIVER_OK`. The features are read and written 32 at a
time, those that two select registers choose; the driver writes neither of the two.
-/

namespace NoobKernel.Hal

open Mmio

abbrev U32 := BitVec 32

/-- The registers of `struct virtio_mmio_regs`; `config` is the one at `VIRTIO_REG_CONFIG` and
the given number of bytes. -/
inductive VirtioReg
  | magicValue
  | version
  | deviceId
  | vendorId
  | deviceFeatures
  | deviceFeaturesSel
  | driverFeatures
  | driverFeaturesSel
  | queueSel
  | queueNumMax
  | queueNum
  | queueReady
  | intStatus
  | intAck
  | status
  | queueDescLo
  | queueDescHi
  | queueAvailLo
  | queueAvailHi
  | queueUsedLo
  | queueUsedHi
  | configGen
  | config (offset : Nat)
  deriving DecidableEq

def VIRTIO_MMIO_MAGIC : U32 := 0x74726976
def VIRTIO_MMIO_VERSION : U32 := 2

def VIRTIO_CONFIG_S_ACKNOWLEDGE : U32 := 1
def VIRTIO_CONFIG_S_DRIVER : U32 := 2
def VIRTIO_CONFIG_S_DRIVER_OK : U32 := 4
def VIRTIO_CONFIG_S_FEATURES_OK : U32 := 8
def VIRTIO_CONFIG_S_FAILED : U32 := 128

/-! ## The device -/

/-- What does not change about a device: its identity, the features it offers (a word for each
value of the select register), the choices of features it works with, whether a reset clears the
select registers, and the largest size of each queue (`0` for one it does not have). -/
structure VirtioTraits where
  magic : U32
  version : U32
  deviceId : U32
  vendorId : U32
  features : U32 → U32
  accepts : (U32 → U32) → Bool
  resetsSel : Bool
  queueNumMax : U32 → U32

structure VirtioQueue where
  num : U32
  descLo : U32
  descHi : U32
  availLo : U32
  availHi : U32
  usedLo : U32
  usedHi : U32
  ready : Bool
  deriving DecidableEq

structure VirtioRegs where
  status : U32
  deviceFeaturesSel : U32
  driverFeaturesSel : U32
  driverFeatures : U32 → U32
  queueSel : U32
  queues : U32 → VirtioQueue
  obeyed : Bool

/-- The registers the driver writes, the interrupts that wait to be acknowledged, and the
configuration as 32-bit words with the `older` ones, latest first. The device changes its
configuration at most `changes` times more. -/
structure VirtioState where
  regs : VirtioRegs
  intStatus : U32
  words : Nat → U32
  older : List (Nat → U32)
  changes : Nat

namespace VirtioRegs

def queue (s : VirtioRegs) : VirtioQueue := s.queues s.queueSel

def withQueue (s : VirtioRegs) (q : VirtioQueue) : VirtioRegs :=
  { s with queues := Function.update s.queues s.queueSel q }

/-- The time at which queues are set up. -/
def configuring (s : VirtioRegs) : Bool :=
  s.status &&& (VIRTIO_CONFIG_S_FEATURES_OK ||| VIRTIO_CONFIG_S_DRIVER_OK)
    = VIRTIO_CONFIG_S_FEATURES_OK

/-- A register of the selected queue is written, which must not be in use yet. -/
def setup (s : VirtioRegs) (ok : Bool) (q : VirtioQueue) : VirtioRegs :=
  { s.withQueue q with obeyed := s.obeyed && (ok && s.configuring && !s.queue.ready) }

/-- After a reset no queue is ready and no feature accepted. -/
def reset (s : VirtioRegs) (resetsSel : Bool) : VirtioRegs where
  status := 0
  deviceFeaturesSel := if resetsSel then 0 else s.deviceFeaturesSel
  driverFeaturesSel := if resetsSel then 0 else s.driverFeaturesSel
  driverFeatures := fun _ => 0
  queueSel := 0
  queues := fun _ => ⟨0, 0, 0, 0, 0, 0, 0, false⟩
  obeyed := s.obeyed

end VirtioRegs

/-- The bits in the order in which they are set, each with those it needs. -/
def statusOrder (v : U32) : Bool :=
  (v &&& VIRTIO_CONFIG_S_DRIVER = 0 ∨ v &&& VIRTIO_CONFIG_S_ACKNOWLEDGE ≠ 0)
    ∧ (v &&& VIRTIO_CONFIG_S_FEATURES_OK = 0 ∨ v &&& VIRTIO_CONFIG_S_DRIVER ≠ 0)
    ∧ (v &&& VIRTIO_CONFIG_S_DRIVER_OK = 0 ∨ v &&& VIRTIO_CONFIG_S_FEATURES_OK ≠ 0)

/-- `0` resets; `FEATURES_OK` stays clear where the device does not work with the features. -/
def writeStatus (d : VirtioTraits) (s : VirtioRegs) (v : U32) : VirtioRegs :=
  if v = 0 then s.reset d.resetsSel
  else
    { s with
      status := if d.accepts s.driverFeatures then v else v &&& ~~~VIRTIO_CONFIG_S_FEATURES_OK
      obeyed := s.obeyed && (s.status &&& ~~~v = 0) && statusOrder v }

def readReg (d : VirtioTraits) (s : VirtioState) : VirtioReg → U32
  | .magicValue => d.magic
  | .version => d.version
  | .deviceId => d.deviceId
  | .vendorId => d.vendorId
  | .deviceFeatures => d.features s.regs.deviceFeaturesSel
  | .queueNumMax => d.queueNumMax s.regs.queueSel
  | .queueReady => if s.regs.queue.ready then 1 else 0
  | .intStatus => s.intStatus
  | .status => s.regs.status
  | .configGen => BitVec.ofNat 32 s.older.length
  | .config offset => s.words offset
  | _ => 0

def writeReg (d : VirtioTraits) (s : VirtioRegs) (v : U32) : VirtioReg → VirtioRegs
  | .status => writeStatus d s v
  | .deviceFeaturesSel => { s with deviceFeaturesSel := v }
  | .driverFeaturesSel => { s with driverFeaturesSel := v }
  | .driverFeatures =>
      { s with
        driverFeatures := Function.update s.driverFeatures s.driverFeaturesSel v
        obeyed := s.obeyed && (v &&& ~~~d.features s.driverFeaturesSel = 0)
          && (s.status &&& (VIRTIO_CONFIG_S_DRIVER ||| VIRTIO_CONFIG_S_FEATURES_OK)
            = VIRTIO_CONFIG_S_DRIVER) }
  | .queueSel => { s with queueSel := v }
  | .queueNum => s.setup (v ≤ d.queueNumMax s.queueSel) { s.queue with num := v }
  | .queueDescLo => s.setup true { s.queue with descLo := v }
  | .queueDescHi => s.setup true { s.queue with descHi := v }
  | .queueAvailLo => s.setup true { s.queue with availLo := v }
  | .queueAvailHi => s.setup true { s.queue with availHi := v }
  | .queueUsedLo => s.setup true { s.queue with usedLo := v }
  | .queueUsedHi => s.setup true { s.queue with usedHi := v }
  | .queueReady => s.setup (s.queue.num ≠ 0) { s.queue with ready := v ≠ 0 }
  | _ => s

/-- What a device does by itself: it raises interrupts, and it changes its configuration. -/
inductive VirtioOwn : VirtioState → VirtioState → Prop
  | interrupt (s : VirtioState) (bits : U32) :
      VirtioOwn s { s with intStatus := s.intStatus ||| bits }
  | configure (s : VirtioState) (n : Nat) (words : Nat → U32) (left : s.changes = n + 1) :
      VirtioOwn s { s with words := words, older := s.words :: s.older, changes := n }

def virtioDevice (d : VirtioTraits) : Device VirtioReg U32 VirtioState where
  read s r := (readReg d s r, s)
  write s r v :=
    { s with
      regs := writeReg d s.regs v r
      intStatus :=
        if r = .intAck then s.intStatus &&& ~~~v
        else if r = .status ∧ v = 0 then 0 else s.intStatus }
  own := VirtioOwn

/-! ## The driver -/

/-- The rings of a queue in memory, as `struct virtq` points to them. -/
structure VirtqRings where
  num : Nat
  descs : Nat
  avail : Nat
  used : Nat
  deriving DecidableEq

def VRING_ALIGN : Nat := 4096

/-- `sizeof(struct virtq_desc)`, and of `struct virtq_used_elem`. -/
def sizeofDesc : Nat := 16
def sizeofUsedElem : Nat := 8

def vringSize (num : Nat) : Nat :=
  sizeofDesc * num + 2 * (3 + num) + (2 * 3 + sizeofUsedElem * num) + VRING_ALIGN * 2

/-- Where `virtq_create` puts the rings in the memory it got. -/
def vringAt (mem num : Nat) : VirtqRings :=
  let availOffset := sizeofDesc * num
  let usedOffset := Misc.ALIGN_UP (availOffset + 2 * (3 + num)) VRING_ALIGN
  ⟨num, mem, mem + availOffset, mem + usedOffset⟩

/-- The memory of `virtq_create`: what `kmalloc` returns for the rings and for the
`struct virtq`, `0` for `NULL`. -/
structure VirtqMem where
  rings : Nat
  vq : Nat

/-- The rings, `none` for `NULL`, and what has been given back. -/
def virtqCreateRings (m : VirtqMem) (num : Nat) : Option VirtqRings × List Nat :=
  if m.rings = 0 then (none, [])
  else if m.vq = 0 then (none, [m.rings])
  else (some (vringAt m.rings num), [])

structure VirtioDevice where
  deviceId : U32
  vendorId : U32
  negotiatedFeatures : U32
  vqs : Nat → Option VirtqRings
  numVqs : Nat

abbrev Driver (α : Type) := Prog VirtioReg U32 α

def virtioSetStatus (v : U32) : Driver Unit := store .status v

def virtioGetStatus : Driver U32 := load .status

def virtioMmioProbe : Driver Int := do
  let magic ← load .magicValue
  let version ← load .version
  let deviceId ← load .deviceId
  let _vendorId ← load .vendorId
  if magic ≠ VIRTIO_MMIO_MAGIC then pure (-1)
  else if version ≠ VIRTIO_MMIO_VERSION then pure (-1)
  else if deviceId = 0 then pure (-1)
  else pure 0

def virtioMmioInit (dev : VirtioDevice) : Driver (Int × VirtioDevice) := do
  virtioSetStatus 0
  virtioSetStatus VIRTIO_CONFIG_S_ACKNOWLEDGE
  let status ← virtioGetStatus
  if status &&& VIRTIO_CONFIG_S_ACKNOWLEDGE = 0 then pure (-1, dev)
  else
    virtioSetStatus (VIRTIO_CONFIG_S_ACKNOWLEDGE ||| VIRTIO_CONFIG_S_DRIVER)
    let status ← virtioGetStatus
    if status &&& VIRTIO_CONFIG_S_DRIVER = 0 then pure (-1, dev)
    else
      let deviceId ← load .deviceId
      let vendorId ← load .vendorId
      pure (0, { dev with deviceId := deviceId, vendorId := vendorId })

def virtioNegotiateFeatures (dev : VirtioDevice) (required rejected : U32) :
    Driver (Int × VirtioDevice) := do
  let deviceFeatures ← load .deviceFeatures
  let driverFeatures := deviceFeatures &&& ~~~rejected ||| required
  store .driverFeatures driverFeatures
  let dev := { dev with negotiatedFeatures := driverFeatures }
  let status ← virtioGetStatus
  virtioSetStatus (status ||| VIRTIO_CONFIG_S_FEATURES_OK)
  let status ← virtioGetStatus
  if status &&& VIRTIO_CONFIG_S_FEATURES_OK = 0 then
    virtioSetStatus VIRTIO_CONFIG_S_FAILED
    pure (-1, dev)
  else pure (0, dev)

/-- The low half of an address, and its high half. -/
def loHalf (pa : Nat) : U32 := BitVec.ofNat 32 pa
def hiHalf (pa : Nat) : U32 := BitVec.ofNat 32 (pa >>> 32)

/-- The writes of `virtio_setup_vq` for the selected queue. -/
def programVq (vq : VirtqRings) : Driver Unit := do
  store .queueNum (BitVec.ofNat 32 vq.num)
  store .queueDescLo (loHalf vq.descs)
  store .queueDescHi (hiHalf vq.descs)
  store .queueAvailLo (loHalf vq.avail)
  store .queueAvailHi (hiHalf vq.avail)
  store .queueUsedLo (loHalf vq.used)
  store .queueUsedHi (hiHalf vq.used)
  store .queueReady 1

/-- The result of `virtio_setup_vq`, with what has been freed on the way. -/
def virtioSetupVq (m : VirtqMem) (dev : VirtioDevice) (vqIdx num : Nat) :
    Driver (Int × VirtioDevice × List Nat) := do
  if 8 ≤ vqIdx then pure (-1, dev, [])
  else
    store .queueSel (BitVec.ofNat 32 vqIdx)
    let max ← load .queueNumMax
    let num := if max.toNat < num then max.toNat else num
    if num = 0 then pure (-1, dev, [])
    else
      match virtqCreateRings m num with
      | (none, freed) => pure (-1, dev, freed)
      | (some vq, freed) =>
          programVq vq
          pure (0,
            { dev with
              vqs := Function.update dev.vqs vqIdx (some vq)
              numVqs := dev.numVqs + 1 }, freed)

def virtioIrqHandler : Driver Unit := do
  let status ← load .intStatus
  store .intAck status

/-- The loop of `virtio_read_config`; `none` is a loop that goes on. -/
def virtioReadConfig : Nat → Nat → Driver (Option U32)
  | 0, _ => pure none
  | fuel + 1, offset => do
      let oldGen ← load .configGen
      let value ← load (.config offset)
      let newGen ← load .configGen
      if oldGen ≠ newGen then virtioReadConfig fuel offset else pure (some value)

end NoobKernel.Hal
