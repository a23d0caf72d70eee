import NoobKernel.Mm.Buddy
import NoobKernel.Mm.SlabLayout

set_option autoImplicit false

/-! # The slab allocator (`mm/slab.c`)

The functions of the slab allocator over the state of `Kernel.lean`. A cache is an index, `none`
for a `NULL` one, and a slab is the address of its blob. A slab is on one of the three lists of
its cache. The lock of a cache is taken unless it is held already, except in `kmem_cache_flush`.

Printing a warning takes a lock as well; it is a parameter (`warnf`).
-/

namespace NoobKernel.Mm

open Misc Exec

variable {E R : Type}

def SLAB_MAGIC : BitVec 16 := 0x51AB

def SLAB_ALIGN_DOWN (a : Nat) : Nat := ALIGN_DOWN a SLAB_BLOB_SIZE

/-- `divuw`: the quotient by `0` is all ones. -/
def divu32 (a b : Nat) : Nat := if b = 0 then 2 ^ 32 - 1 else a / b

/-! ## Caches and their lists -/

namespace KmemCache

/-- The slab is on a list of the cache. -/
def linked (kmem : KmemCache) (s : Nat) : Bool :=
  kmem.slabsFull.contains s || kmem.slabsPartial.contains s || kmem.slabsFree.contains s

def unlink (kmem : KmemCache) (s : Nat) : KmemCache :=
  { kmem with
    slabsFull := kmem.slabsFull.erase s
    slabsPartial := kmem.slabsPartial.erase s
    slabsFree := kmem.slabsFree.erase s }

def addFull (s : Nat) (kmem : KmemCache) : KmemCache :=
  { kmem with slabsFull := s :: kmem.slabsFull }

def addPartial (s : Nat) (kmem : KmemCache) : KmemCache :=
  { kmem with slabsPartial := s :: kmem.slabsPartial }

def addFree (s : Nat) (kmem : KmemCache) : KmemCache :=
  { kmem with slabsFree := s :: kmem.slabsFree }

def setLocked (b : Bool) (kmem : KmemCache) : KmemCache := { kmem with locked := b }

def setExpanding (b : Bool) (kmem : KmemCache) : KmemCache := { kmem with expanding := b }

end KmemCache

namespace Kernel

def updateCache (k : Kernel E) (c : Nat) (f : KmemCache → KmemCache) : Kernel E :=
  { k with caches := Function.update k.caches c (f (k.caches c)) }

def updateSlab (k : Kernel E) (s : Nat) (f : Slab → Slab) : Kernel E :=
  { k with slabs := Function.update k.slabs s (f (k.slabs s)) }

end Kernel

/-- `kmem->expanding = expanding`. -/
def setExpanding (c : Nat) (expanding : Bool) : Mem E R Unit :=
  modify fun k => k.updateCache c (.setExpanding expanding)

/-- `kmem->total += slab->total; kmem->free += slab->free`. -/
def countSlab (c s : Nat) : Mem E R Unit :=
  modify fun k => k.updateCache c fun kmem =>
    { kmem with total := kmem.total + (k.slabs s).total, free := kmem.free + (k.slabs s).free }

/-- `list_move` of a slab to the list of the cache that `add` puts it on. -/
def listMove (c s : Nat) (add : Nat → KmemCache → KmemCache) : Mem E R Unit := do
  let k ← read
  if (k.caches c).linked s then modify fun k => k.updateCache c fun kmem => add s (kmem.unlink s)
  else fault (.listDelUnlinked s)

def listMoveIf (b : Bool) (c s : Nat) (add : Nat → KmemCache → KmemCache) : Mem E R Unit :=
  if b then listMove c s add else pure ()

/-! ## Locks -/

def lockCache (c : Nat) : Mem E R Unit := do
  let k ← read
  if (k.caches c).locked then fault .lock
  else modify fun k => k.updateCache c (.setLocked true)

def unlockCache (c : Nat) : Mem E R Unit := do
  let k ← read
  if (k.caches c).locked then modify fun k => k.updateCache c (.setLocked false) else fault .lock

/-! ## Slabs -/

/-- The loop of `slab_init` over the pages of the blob, `n` of them left from `p`. -/
def slabInitPages : Nat → Nat → Mem E R Unit
  | 0, _ => pure ()
  | n + 1, p => do
      modifyPage p fun page => { page with flags := page.flags ||| PM_SLAB }
      slabInitPages n (p + PAGE_SIZE)

/-- The header that `slab_init` writes, with an empty bitmap. -/
def newSlab (c : Nat) (kmem : KmemCache) : Slab :=
  let total := objectNum kmem.allocSize
  { kmem := c
    bm := ⟨fun _ => 0, total⟩
    total := total
    free := total
    offset := slabOffset total kmem.objSize
    magic := SLAB_MAGIC }

def slabInit (c blob : Nat) : Mem E R Unit := do
  slabInitPages (SLAB_BLOB_SIZE / PAGE_SIZE) blob
  modify fun k => k.updateSlab blob fun _ => newSlab c (k.caches c)
  modify fun k => k.updateCache c fun kmem =>
    { kmem with slabsPartial := kmem.slabsPartial ++ [blob] }

/-- `s->free == 0` after `s->free--`, which wraps. -/
def slabAlloc (s : Nat) : Mem E R Nat := do
  modify fun k => k.updateSlab s fun slab => { slab with free := (slab.free + (2 ^ 32 - 1)) % 2 ^ 32 }
  let k ← read
  listMoveIf ((k.slabs s).free = 0) (k.slabs s).kmem s .addFull
  let idx := (k.slabs s).bm.findNextClear 0 % 2 ^ 32
  if idx = (k.slabs s).bm.len then fault .slabMetadata
  else do
    modify fun k => k.updateSlab s fun slab => { slab with bm := slab.bm.set idx }
    pure (s + slabObject (k.slabs s).offset idx (k.caches (k.slabs s).kmem).allocSize)

/-- The object is marked as free, after the checks. -/
def slabPut (s idx : Nat) : Mem E R Unit := do
  let k ← read
  if (k.slabs s).free = (k.slabs s).total then fault .slabMetadata
  else do
    listMoveIf ((k.slabs s).free = 0) (k.slabs s).kmem s .addPartial
    modify fun k => k.updateSlab s fun slab =>
      { slab with bm := slab.bm.clear idx, free := (slab.free + 1) % 2 ^ 32 }

section

variable (warnf : Mem E R Unit)

def slabFree (addr : Nat) : Mem E R Unit := do
  let s := SLAB_ALIGN_DOWN addr
  let k ← read
  let slab := k.slabs s
  let objOffset := (addr - s) % 2 ^ 32
  if slab.magic ≠ SLAB_MAGIC then fault .slabMetadata
  else if objOffset < slab.offset then fault .slabMetadata
  else
    let idx := divu32 (objOffset - slab.offset) (k.caches slab.kmem).allocSize
    if slab.total ≤ idx then fault .slabMetadata
    else if slab.bm.get idx = false then warnf
    else slabPut s idx

/-! ## Caches -/

/-- `kmem_cache_init` without an initial slab. -/
def kmemCacheInit (size : Nat) : KmemCache where
  objSize := cacheObjSize size
  allocSize := cacheAllocSize size
  total := 0
  free := 0
  low := objectNum (cacheAllocSize size)
  high := 2 * objectNum (cacheAllocSize size) % 2 ^ 32
  expanding := false
  locked := false
  slabsFull := []
  slabsPartial := []
  slabsFree := []

/-- A slab for a cache that is short of objects; `false` when `kmem_cache_alloc_nolock` returns
`NULL`. -/
def kmemCacheRefill (ops : MetaOps E R) (c : Nat) : Mem E R Bool := do
  let k ← read
  match (k.caches c).slabsFree with
  | s :: _ => do
      listMove c s .addPartial
      countSlab c s
      pure true
  | [] => do
      setExpanding c true
      let s ← buddyAlloc ops SLAB_BLOB_SIZE
      setExpanding c false
      if s = 0 then do
        let k ← read
        if 0 < (k.caches c).free then pure true
        else do
          warnf
          pure false
      else do
        slabInit c s
        countSlab c s
        pure true

/-- The rest of `kmem_cache_alloc_nolock`. -/
def kmemCacheTake (c : Nat) : Mem E R Nat := do
  let k ← read
  if (k.caches c).free = 0 then do
    warnf
    pure 0
  else do
    let s ← firstEntry (k.caches c).slabsPartial
    let mem ← slabAlloc s
    modify fun k => k.updateCache c fun kmem => { kmem with free := kmem.free - 1 }
    pure mem

def kmemCacheAllocNolock (ops : MetaOps E R) (c : Nat) : Mem E R Nat := do
  let k ← read
  if (k.caches c).expanding = false ∧ (k.caches c).free < (k.caches c).low then do
    let refilled ← kmemCacheRefill warnf ops c
    if refilled then kmemCacheTake warnf c else pure 0
  else kmemCacheTake warnf c

def kmemCacheAlloc (ops : MetaOps E R) (kmem : Option Nat) : Mem E R Nat :=
  match kmem with
  | none => fault .nullDeref
  | some c => do
      let k ← read
      if (k.caches c).locked then kmemCacheAllocNolock warnf ops c
      else do
        lockCache c
        let mem ← kmemCacheAllocNolock warnf ops c
        unlockCache c
        pure mem

/-- `slab_free(addr); kmem->free++`. -/
def kmemCacheFreeNolock (c addr : Nat) : Mem E R Unit := do
  slabFree warnf addr
  modify fun k => k.updateCache c fun kmem => { kmem with free := kmem.free + 1 }

def kmemCacheFree (addr : Nat) : Mem E R Unit := do
  let k ← read
  let c := (k.slabs (SLAB_ALIGN_DOWN addr)).kmem
  if (k.caches c).locked then kmemCacheFreeNolock warnf c addr
  else do
    lockCache c
    kmemCacheFreeNolock warnf c addr
    unlockCache c

end

/-- The loop of `kmem_cache_flush` over the slabs of `slabs_partial`. -/
def flushSlabs (c : Nat) : List Nat → Mem E R Unit
  | [] => pure ()
  | s :: ss => do
      let k ← read
      listMoveIf ((k.slabs s).total = (k.slabs s).free) c s .addFree
      flushSlabs c ss

def kmemCacheFlush (kmem : Option Nat) : Mem E R Unit :=
  match kmem with
  | none => fault .nullDeref
  | some c => do
      lockCache c
      let k ← read
      if (k.caches c).free < (k.caches c).high then pure ()
      else do
        flushSlabs c (k.caches c).slabsPartial
        unlockCache c

end NoobKernel.Mm
