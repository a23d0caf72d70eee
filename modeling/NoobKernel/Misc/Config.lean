import Mathlib.Tactic

set_option autoImplicit false

/-! # Configuration (`config.h`, `platform/qemu_virt.h`) and error codes (`misc/errno.h`) -/

namespace NoobKernel

def CPU_NUM : Nat := 1
def MEM_SIZE : Nat := 128 * 1024 * 1024
def PM_START : Nat := 0x80000000
def PM_END : Nat := PM_START + MEM_SIZE

def PAGE_SHIFT : Nat := 12
def PAGE_SIZE : Nat := 1 <<< PAGE_SHIFT

def SLAB_BLOB_SIZE : Nat := 16 * PAGE_SIZE

def EARLY_HEAP_SIZE : Nat := PAGE_SIZE

def BUDDY_MAX_ORDER : Nat := 11
def BUDDY_BLOB_SIZE : Nat := (1 <<< BUDDY_MAX_ORDER) * PAGE_SIZE

def BLOCK_SIZE : Nat := 512
def BCACHE_SIZE : Nat := 128
def BCACHE_HASH_SIZE : Nat := 17

def TIMEBASE_FREQ : UInt64 := 10000000
def TIMER_IRQ_HZ : UInt64 := 100

def PID_MIN : Int := 2
def PID_MAX : Int := 0x7fffffff

def ENOENT : Int := 2
def EBADF : Int := 9
def ENOMEM : Int := 12
def EACCES : Int := 13
def EEXIST : Int := 17
def ENOTDIR : Int := 20
def EISDIR : Int := 21
def EINVAL : Int := 22
def EMFILE : Int := 24
def ENOSYS : Int := 38

theorem PAGE_SIZE_eq : PAGE_SIZE = 2 ^ 12 := rfl

end NoobKernel
