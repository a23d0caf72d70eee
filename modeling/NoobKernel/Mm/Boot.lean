import NoobKernel.Mm.Kalloc

set_option autoImplicit false

/-! # Boot of the memory manager (`pm_init` of `mm/pm.c`, `kalloc_init`)

The early heap provides the `mem_block`s of the buddy system until the caches of `kmalloc` are
there, which begin with a slab each. From then on an allocation of a `mem_block` may enter the
buddy system again, while `split_blocks` holds a block that it has taken off its list; `kernelOps`
keeps a log of these moments, and of the objects that are handed out.
-/

namespace NoobKernel.Mm

open Misc Exec

variable {E R : Type}

def earlyInit (lay : Layout) : Mem E R Unit :=
  modify fun k => { k with earlyBrk := lay.EARLY_HEAP_BASE }

/-- `kmem_cache_init`, with or without an initial slab. -/
def kmemCacheInitAt (ops : MetaOps E R) (c size : Nat) (withInitialAlloc : Bool) : Mem E R Int := do
  modify fun k => k.updateCache c fun _ => kmemCacheInit size
  if withInitialAlloc = false then pure 0
  else do
    let k ← read
    if k.buddyInited = false then fault .buddyNotInited
    else do
      let s ← buddyAlloc ops SLAB_BLOB_SIZE
      if s = 0 then pure (-ENOMEM)
      else do
        slabInit c s
        countSlab c s
        pure 0

/-- The length of the buffer for the name of a cache. -/
def CACHE_NAME_SIZE : Nat := 24

/-- The loop of `kalloc_init` over the classes from `j` on. -/
def kallocInitFrom (lay : Layout) (ops : MetaOps E R) : List Nat → Nat → Mem E R Unit
  | [], _ => pure ()
  | size :: sizes, j => do
      let _ ← earlyAlloc lay CACHE_NAME_SIZE
      let _ ← kmemCacheInitAt ops j size true
      kallocInitFrom lay ops sizes (j + 1)

def kallocInit (lay : Layout) (ops : MetaOps E R) : Mem E R Unit := do
  kallocInitFrom lay ops MEM_OBJ_SIZES 0
  modify fun k => { k with kallocInited := true }

def pmInit (lay : Layout) (ops : MetaOps E R) : Mem E R Int := do
  let ret ← pmPagesInit lay
  if ret ≠ 0 then pure ret
  else do
    earlyInit lay
    let ret ← buddyInit lay ops
    if ret ≠ 0 then pure ret
    else do
      kallocInit lay ops
      pure 0

/-- A warning that leaves the memory manager alone. -/
def quiet : Mem E R Unit := pure ()

/-! ## What is logged -/

/-- `alloc_mem_block` is called while `split_blocks` holds a block: the block and the state. -/
structure Reentry (E : Type) where
  held : Entry
  kernel : Kernel E

inductive HeapEvent (E : Type)
  | reentry (ev : Reentry E)
  /-- an allocation of an object of the class has returned the pointer -/
  | object (c ptr : Nat)

def watch : Option Entry → Mem E (HeapEvent E) Unit
  | none => pure ()
  | some e => do
      let k ← read
      emit (.reentry ⟨e, k⟩)

def logObject (size r : Nat) : Mem E (HeapEvent E) Unit :=
  if size ≤ KALLOC_MAX_MEM_OBJ_SIZE then emit (.object (size2index size) r) else pure ()

/-- An allocation of `size` bytes. -/
def logged (size : Nat) (alloc : Mem E (HeapEvent E) Nat) : Mem E (HeapEvent E) Nat := do
  let r ← alloc
  logObject size r
  pure r

/-- `alloc_mem_block` and `free_mem_block`, `d` levels deep. What they log has no influence. -/
def kernelOpsAt (lay : Layout) : Nat → MetaOps E (HeapEvent E)
  | 0 => ⟨fun _ => fault .depth, fun _ => fault .depth⟩
  | d + 1 =>
      { allocMemBlock := fun held => do
          watch held
          logged sizeofMemBlock (allocMemBlock lay quiet (kernelOpsAt lay d))
        freeMemBlock := freeMemBlock lay quiet (kernelOpsAt lay d) }

/-- The functions that `split_blocks`, `merge_blocks` and `buddy_free` call. -/
def kernelOps (lay : Layout) : MetaOps E (HeapEvent E) := kernelOpsAt lay 2

end NoobKernel.Mm
