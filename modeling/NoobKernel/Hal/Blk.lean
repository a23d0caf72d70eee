import NoobKernel.Misc.Config

set_option autoImplicit false

/-! # Block devices (`hal/blk.c`)

The registry and the calls that go through it. A device's operations act on a world `W` that
holds whatever they touch; `lock` is the lock of the device, taken around each of them.
-/

namespace NoobKernel.Hal

def BLK_MAX_DEVICES : Nat := 16

def MKDEV (major minor : Nat) : Nat := (major <<< 20) ||| (minor &&& 0xfffff)

/-- Operations on `private`, with a sector, a buffer and a number of sectors; `none` for
`NULL`. -/
structure BlkOperations (W : Type) where
  read : Option (Nat → Nat → Nat → Nat → W → Int × W)
  write : Option (Nat → Nat → Nat → Nat → W → Int × W)
  flush : Option (Nat → W → Int × W)
  getCapacity : Option (Nat → W → Nat)
  getBlockSize : Option (Nat → W → Nat)

structure BlockDevice (W : Type) where
  devno : Nat
  ops : Option (BlkOperations W)
  priv : Nat

variable {W : Type}

def blkRegister (reg : List (BlockDevice W)) (dev : BlockDevice W) :
    Int × List (BlockDevice W) :=
  if BLK_MAX_DEVICES ≤ reg.length then (-1, reg)
  else if reg.any (·.devno = dev.devno) then (-1, reg)
  else (0, reg ++ [dev])

def blkLookup (reg : List (BlockDevice W)) (devno : Nat) : Option (BlockDevice W) :=
  reg.find? (·.devno = devno)

end NoobKernel.Hal
