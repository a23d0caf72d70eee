import NoobKernel.Mm.Slab

set_option autoImplicit false

/-! # `kmalloc` and `kfree` (`mm/kalloc.c`)

The allocator of the kernel, on top of slabs and the buddy system, which takes its own `mem_block`s
from it (`alloc_mem_block` and `free_mem_block` of `mm/buddy.c`). The calls are nested: `kmalloc`
of a `mem_block` may need a slab, which the buddy system provides. `memOps d` follows the nesting
`d` levels deep.
-/

namespace NoobKernel.Mm

open Misc Exec

variable {E R : Type}

def MEM_OBJ_SIZES : List Nat :=
  [8, 16, 24, 32, 48, 64, 96, 128, 192, 256, 384, 512, 768, 1024, 1536, 2048, 3072, 4096]

def KALLOC_MEM_POOL_NUM : Nat := 18

def KALLOC_MAX_MEM_OBJ_SIZE : Nat := 4096

/-- The class of a size, which is the index of the cache in `kalloc_mem_pool`. -/
def size2index (size : Nat) : Nat :=
  (MEM_OBJ_SIZES.take (KALLOC_MEM_POOL_NUM - 1)).findIdx fun objSize => size ≤ objSize

def sizeofMemBlock : Nat := 24

/-- The cache of the `mem_block`s. -/
def memBlockPool : Nat := size2index sizeofMemBlock

section

variable (lay : Layout) (warnf : Mem E R Unit)

def kmalloc (ops : MetaOps E R) (size : Nat) : Mem E R Nat :=
  if size = 0 then pure 0
  else if size ≤ KALLOC_MAX_MEM_OBJ_SIZE then kmemCacheAlloc warnf ops (some (size2index size))
  else if size ≤ PAGE_SIZE <<< BUDDY_MAX_ORDER then buddyAlloc ops size
  else pure 0

def kfree (ops : MetaOps E R) (addr : Nat) : Mem E R Unit := do
  let k ← read
  match addr2index (ALIGN_DOWN addr PAGE_SIZE) with
  | none => warnf
  | some _ =>
      let page := k.page (ALIGN_DOWN addr PAGE_SIZE)
      if page.flags &&& PM_BUDDY = 0 then warnf
      else if page.flags &&& PM_SLAB ≠ 0 then kmemCacheFree warnf addr
      else buddyFree ops addr

namespace Kalloc

/-- The largest `size_t`. -/
def SIZE_MAX : Nat := 2 ^ 64 - 1

/-- The call of `memset` writes to the memory of the caller, which the environment keeps. -/
def kzalloc (memset : Nat → Nat → E → E) (ops : MetaOps E R) (size : Nat) : Mem E R Nat := do
  let ptr ← kmalloc warnf ops size
  if ptr = 0 then pure 0
  else do
    modify fun k => { k with ext := memset ptr size k.ext }
    pure ptr

def kcalloc (memset : Nat → Nat → E → E) (ops : MetaOps E R) (nitems size : Nat) : Mem E R Nat :=
  if nitems ≠ 0 ∧ SIZE_MAX / nitems < size then do
    warnf
    pure 0
  else kzalloc warnf memset ops (nitems * size % 2 ^ 64)

def krealloc (ops : MetaOps E R) (ptr size : Nat) : Mem E R Nat := do
  kfree warnf ops ptr
  kmalloc warnf ops size

end Kalloc

def allocMemBlock (ops : MetaOps E R) : Mem E R Nat := do
  let k ← read
  if k.kallocInited then kmalloc warnf ops sizeofMemBlock else earlyAlloc lay sizeofMemBlock

/-- The pointer lies in pages of the buddy system that are not a slab. -/
def Kernel.outsideSlabs (k : Kernel E) (ptr : Nat) : Bool :=
  (addr2index (ALIGN_DOWN ptr PAGE_SIZE)).isSome
    && (k.page (ALIGN_DOWN ptr PAGE_SIZE)).flags &&& PM_BUDDY ≠ 0
    && (k.page (ALIGN_DOWN ptr PAGE_SIZE)).flags &&& PM_SLAB = 0

/-- A block that is not of the early heap comes from `kmalloc`, so it lies in a slab; the lists of
the buddy system are corrupt if they hold anything else. -/
def freeMemBlock (ops : MetaOps E R) (ptr : Nat) : Mem E R Unit := do
  let k ← read
  if isEarlyMem lay k ptr then pure ()
  else if k.outsideSlabs ptr then fault .environment
  else kfree warnf ops ptr

def memOps : Nat → MetaOps E R
  | 0 => ⟨fun _ => fault .depth, fun _ => fault .depth⟩
  | d + 1 => ⟨fun _ => allocMemBlock lay warnf (memOps d), freeMemBlock lay warnf (memOps d)⟩

end

end NoobKernel.Mm
