import NoobKernel.Lib.Dyadic
import NoobKernel.Misc.Math
import NoobKernel.Mm.Kernel

set_option autoImplicit false

/-! # The buddy system (`mm/buddy.c`)

The functions of the buddy system over the state of `Kernel.lean`. They allocate and free
`mem_block`s, which is where the slab allocator, and through it the buddy system again, comes
in; the two functions are a parameter (`MetaOps`), so that the same code is run with an opaque
allocator, with the early heap and with `kmalloc`.
-/

namespace NoobKernel.Mm

open Misc Exec

variable {E R : Type}

/-- A `mem_block`: its address, `block->start` and the order it stands for. -/
structure Entry where
  ptr : Nat
  start : Nat
  order : Nat
  deriving DecidableEq, Repr

/-- The memory an entry stands for. -/
def Entry.block (e : Entry) : Dyadic.Block := (e.start, e.order)

/-- `alloc_mem_block` and `free_mem_block`. The argument of `allocMemBlock` is the entry the
caller has taken off its list and not yet put back; the code passes nothing, and only the
events of a run make use of it. -/
structure MetaOps (E R : Type) where
  allocMemBlock : Option Entry → Mem E R Nat
  freeMemBlock : Nat → Mem E R Unit

/-- The cast to `u8` of a difference of two `int`s. -/
def size2order (size : Nat) : Nat := ((log2Ceil size - PAGE_SHIFT) % 256).toNat

def getBuddyAddr (addr order : Nat) : Nat := addr ^^^ (PAGE_SIZE <<< order)

/-! ## The lists -/

/-- The entries before and behind `p` on a list whose entries follow `prev`. -/
def neighbours (p : Nat) : Option Nat → List Nat → Option (Option Nat × Option Nat)
  | _, [] => none
  | prev, q :: l => if q = p then some (prev, l.head?) else neighbours p (some q) l

/-- `next` follows `prev` on a list whose entries follow `q`. -/
def adjacent (prev next : Option Nat) : Option Nat → List Nat → Bool
  | q, [] => q = prev ∧ next = none
  | q, r :: l => (q = prev ∧ next = some r) ∨ adjacent prev next (some r) l

namespace Kernel

def linked (k : Kernel E) (p : Nat) : Bool :=
  (List.range (BUDDY_MAX_ORDER + 1)).any fun i => (k.buddyFreeList i).contains p

/-- The links of an entry, or those that it had when it was taken off its list. -/
def linksOf (k : Kernel E) (p : Nat) : Option StaleLinks :=
  ((List.range (BUDDY_MAX_ORDER + 1)).findSome? fun i =>
    (neighbours p none (k.buddyFreeList i)).map fun n => ⟨i, n.1, n.2⟩).or (k.staleLinks p)

/-- The neighbours that an entry had on its list are neighbours of each other. -/
def closed (k : Kernel E) (p : Nat) : Bool :=
  (k.staleLinks p).any fun s => adjacent s.prev s.next none (k.buddyFreeList s.list)

def unlink (k : Kernel E) (p : Nat) : Kernel E :=
  { k with
    buddyFreeList := fun i => (k.buddyFreeList i).erase p
    staleLinks := Function.update k.staleLinks p (k.linksOf p) }

def setList (k : Kernel E) (i : Nat) (l : List Nat) : Kernel E :=
  { k with buddyFreeList := Function.update k.buddyFreeList i l }

def setStart (k : Kernel E) (p start : Nat) : Kernel E :=
  { k with memBlock := Function.update k.memBlock p start }

variable (k : Kernel E) (a p i start : Nat) (l : List Nat) (pg : Page)

@[simp] theorem setPage_freeList : (k.setPage a pg).buddyFreeList = k.buddyFreeList := rfl
@[simp] theorem setPage_memBlock : (k.setPage a pg).memBlock = k.memBlock := rfl
@[simp] theorem setPage_freePages : (k.setPage a pg).buddyFreePages = k.buddyFreePages := rfl
@[simp] theorem setPage_locked : (k.setPage a pg).buddyLocked = k.buddyLocked := rfl

@[simp] theorem unlink_page : (k.unlink p).page a = k.page a := rfl
@[simp] theorem unlink_memBlock : (k.unlink p).memBlock = k.memBlock := rfl
@[simp] theorem unlink_freePages : (k.unlink p).buddyFreePages = k.buddyFreePages := rfl
@[simp] theorem unlink_locked : (k.unlink p).buddyLocked = k.buddyLocked := rfl

@[simp] theorem unlink_freeList :
    (k.unlink p).buddyFreeList = fun i => (k.buddyFreeList i).erase p := rfl

@[simp] theorem setList_page : (k.setList i l).page a = k.page a := rfl
@[simp] theorem setList_memBlock : (k.setList i l).memBlock = k.memBlock := rfl
@[simp] theorem setList_freePages : (k.setList i l).buddyFreePages = k.buddyFreePages := rfl
@[simp] theorem setList_locked : (k.setList i l).buddyLocked = k.buddyLocked := rfl

@[simp] theorem setList_freeList :
    (k.setList i l).buddyFreeList = Function.update k.buddyFreeList i l := rfl

@[simp] theorem setStart_page : (k.setStart p start).page a = k.page a := rfl
@[simp] theorem setStart_freeList : (k.setStart p start).buddyFreeList = k.buddyFreeList := rfl
@[simp] theorem setStart_freePages : (k.setStart p start).buddyFreePages = k.buddyFreePages := rfl
@[simp] theorem setStart_locked : (k.setStart p start).buddyLocked = k.buddyLocked := rfl

@[simp] theorem setStart_memBlock :
    (k.setStart p start).memBlock = Function.update k.memBlock p start := rfl

end Kernel

/-- `list_del`. For an entry that is on no list the neighbours it had are linked to each other, which
changes nothing if they already are. -/
def listDel (p : Nat) : Mem E R Unit := do
  let k ← read
  if k.linked p ∨ k.closed p then modify fun k => k.unlink p else fault (.listDelUnlinked p)

def listAdd (p i : Nat) : Mem E R Unit := modify fun k => k.setList i (p :: k.buddyFreeList i)

def listAddTail (p i : Nat) : Mem E R Unit :=
  modify fun k => k.setList i (k.buddyFreeList i ++ [p])

/-! ## Initialisation -/

/-- The loop of `buddy_init`, `n` blobs left from `p`. -/
def buddyInitFrom (ops : MetaOps E R) : Nat → Nat → Mem E R Int
  | 0, _ => pure 0
  | n + 1, p =>
      match addr2index p with
      | none => pure (-EINVAL)
      | some _ => do
          let t ← ops.allocMemBlock none
          if t = 0 then fault .metadataOOM
          else do
            modify fun k => k.setStart t p
            modifyPage p fun pg => { pg with priv := t }
            modifyPage p fun pg => { pg with order := BUDDY_MAX_ORDER }
            modify fun k => { k with buddyFreePages := k.buddyFreePages + (1 <<< BUDDY_MAX_ORDER) }
            listAddTail t BUDDY_MAX_ORDER
            buddyInitFrom ops n (p + BUDDY_BLOB_SIZE)

/-- `buddy_init` for `n` blobs from `base`. -/
def buddyInitBlobs (ops : MetaOps E R) (n base : Nat) : Mem E R Int := do
  modify fun k => { k with buddyFreeList := fun _ => [] }
  let ret ← buddyInitFrom ops n base
  if ret ≠ 0 then pure ret
  else do
    modify fun k => { k with buddyInited := true }
    pure 0

def buddyInit (lay : Layout) (ops : MetaOps E R) : Mem E R Int :=
  buddyInitBlobs ops lay.BUDDY_BLOB_NUM lay.BUDDY_SYSTEM_BASE

/-! ## Merging -/

/-- The scan of `buddy_free_list[i]`: the first block whose buddy is free, and the buddy. -/
def mergeScan (i : Nat) : List Nat → Mem E R (Option (Nat × Nat))
  | [] => pure none
  | p :: ps => do
      let k ← read
      let page ← readPage (k.memBlock p)
      let buddyPage ← readPage (getBuddyAddr (k.memBlock p) page.order)
      if buddyPage.priv = 0 ∨ buddyPage.order ≠ i then mergeScan i ps
      else pure (some (p, buddyPage.priv))

/-- The two branches after the `list_del`s: the block with the higher start is `gone`. -/
def absorb (ops : MetaOps E R) (gone goneStart kept keptStart : Nat) : Mem E R Unit := do
  ops.freeMemBlock gone
  modifyPage goneStart fun pg => { pg with priv := 0 }
  modifyPage goneStart fun pg => { pg with order := BUDDY_MAX_ORDER + 1 }
  modifyPage keptStart fun pg => { pg with order := pg.order + 1 }
  let keptPage ← readPage keptStart
  listAdd kept keptPage.order

def mergePair (ops : MetaOps E R) (block buddyBlock : Nat) : Mem E R Unit := do
  let k ← read
  let start := k.memBlock block
  let page ← readPage start
  let buddyStart := getBuddyAddr start page.order
  listDel block
  listDel buddyBlock
  if k.memBlock buddyBlock < k.memBlock block then absorb ops block start buddyBlock buddyStart
  else absorb ops buddyBlock buddyStart block start

/-- `while (p != &buddy_free_list[i])`: scans are repeated until one runs to the end. -/
def mergeLevel (ops : MetaOps E R) (i : Nat) : Nat → Mem E R Unit
  | 0 => fault .rounds
  | fuel + 1 => do
      let k ← read
      let found ← mergeScan i (k.buddyFreeList i)
      match found with
      | none => pure ()
      | some (block, buddyBlock) => do
          mergePair ops block buddyBlock
          mergeLevel ops i fuel

/-- `for (i = 0; i < order; i++)`, by its last round. A round of the inner loop takes a block off
the list; it comes back at most once, and then only if its page had the wrong order, so twice
the length bounds the number of rounds. -/
def mergeBlocks (ops : MetaOps E R) : Nat → Mem E R Unit
  | 0 => pure ()
  | i + 1 => do
      mergeBlocks ops i
      let k ← read
      if k.buddyFreeList i = [] then pure ()
      else mergeLevel ops i (2 * (k.buddyFreeList i).length + 1)

/-! ## Splitting -/

/-- The search for a list that is not empty, in `n` orders from `order` on. -/
def sourceOrder (freeList : Nat → List Nat) : Nat → Nat → Option Nat
  | 0, _ => none
  | n + 1, order => if freeList order = [] then sourceOrder freeList n (order + 1) else some order

/-- One round of `split_blocks`, from `order = newOrder + 1`. -/
def splitOne (ops : MetaOps E R) (newOrder : Nat) : Mem E R Unit := do
  let k ← read
  let block ← firstEntry (k.buddyFreeList (newOrder + 1))
  let start := k.memBlock block
  let page ← readPage start
  if page.order ≠ newOrder + 1 then fault .orderMismatch
  else do
    listDel block
    -- the block is off its list, and its page still describes a free block
    let buddyBlock ← ops.allocMemBlock (some ⟨block, start, newOrder + 1⟩)
    if buddyBlock = 0 then fault .metadataOOM
    else do
      modifyPage start fun pg => { pg with order := newOrder }
      let k ← read
      let buddyStart := getBuddyAddr (k.memBlock block) newOrder
      modify fun k => k.setStart buddyBlock buddyStart
      modifyPage buddyStart fun pg => { pg with order := newOrder }
      modifyPage buddyStart fun pg => { pg with priv := buddyBlock }
      listAddTail block newOrder
      listAddTail buddyBlock newOrder

/-- `n` rounds, down to `targetOrder`. -/
def splitDown (ops : MetaOps E R) (targetOrder : Nat) : Nat → Mem E R Unit
  | 0 => pure ()
  | n + 1 => do
      splitOne ops (targetOrder + n)
      splitDown ops targetOrder n

def splitBlocks (ops : MetaOps E R) (targetOrder : Nat) : Mem E R Unit := do
  let k ← read
  match sourceOrder k.buddyFreeList (BUDDY_MAX_ORDER - targetOrder) (targetOrder + 1) with
  | none => pure ()
  | some source => splitDown ops targetOrder (source - targetOrder)

/-! ## Allocating and freeing -/

def buddyAllocInner (ops : MetaOps E R) (order : Nat) : Mem E R Nat := do
  let k ← read
  let block ← firstEntry (k.buddyFreeList order)
  let page ← readPage (k.memBlock block)
  if page.order ≠ order then fault .orderMismatch
  else do
    modifyPage (k.memBlock block) fun pg => { pg with priv := 0 }
    listDel block
    ops.freeMemBlock block
    modify fun k => { k with buddyFreePages := k.buddyFreePages - (1 <<< order) }
    pure (k.memBlock block)

def buddyAllocNolock (ops : MetaOps E R) (size : Nat) : Mem E R Nat := do
  let order := size2order size
  let k ← read
  if k.buddyFreeList order ≠ [] then buddyAllocInner ops order
  else do
    mergeBlocks ops order
    let k ← read
    if k.buddyFreeList order ≠ [] then buddyAllocInner ops order
    else do
      splitBlocks ops order
      let k ← read
      if k.buddyFreeList order ≠ [] then buddyAllocInner ops order
      else pure 0

def buddyAlloc (ops : MetaOps E R) (size : Nat) : Mem E R Nat := do
  if size < PAGE_SIZE ∨ BUDDY_BLOB_SIZE < size then pure 0
  else do
    let k ← read
    if k.buddyLocked then buddyAllocNolock ops size
    else do
      lockBuddy
      let addr ← buddyAllocNolock ops size
      unlockBuddy
      pure addr

def buddyFree (ops : MetaOps E R) (addr : Nat) : Mem E R Unit := do
  let block ← ops.allocMemBlock none
  if block = 0 then fault .metadataOOM
  else do
    modify fun k => k.setStart block addr
    modifyPage addr fun pg => { pg with priv := block }
    lockBuddy
    let page ← readPage addr
    modify fun k => { k with buddyFreePages := k.buddyFreePages + (1 <<< page.order) }
    listAdd block page.order
    unlockBuddy

/-! ## Orders of sizes -/

/-- `size2order` is the least order whose blocks are large enough. -/
theorem size2order_spec {size : Nat} (hlo : PAGE_SIZE ≤ size) (hhi : size ≤ BUDDY_BLOB_SIZE) :
    size2order size ≤ BUDDY_MAX_ORDER ∧ size ≤ Dyadic.size PAGE_SHIFT (size2order size)
      ∧ ∀ o < size2order size, Dyadic.size PAGE_SHIFT o < size := by
  have hpage : PAGE_SIZE = 2 ^ 12 := rfl
  have hblob : BUDDY_BLOB_SIZE = 2 ^ 23 := rfl
  have hshift : PAGE_SHIFT = 12 := rfl
  rw [hpage] at hlo
  rw [hblob] at hhi
  obtain ⟨r, hr, hle, hleast⟩ := @log2Ceil_spec size (by omega) (by omega)
  have hr12 : 12 ≤ r := by
    by_contra hlt
    have : 2 ^ r ≤ 2 ^ 11 := Nat.pow_le_pow_right (by omega) (by omega)
    omega
  have hr23 : r ≤ 23 := by
    by_contra hgt
    have := hleast 23 (by omega)
    omega
  have horder : size2order size = r - 12 := by
    rw [size2order, hr, hshift]
    omega
  rw [horder, hshift]
  refine ⟨by rw [BUDDY_MAX_ORDER]; omega, ?_, fun o ho => ?_⟩
  · rwa [Dyadic.size, Nat.add_sub_cancel' hr12]
  · rw [Dyadic.size]
    exact hleast _ (by omega)

theorem size_eq (o : Nat) : Dyadic.size PAGE_SHIFT o = PAGE_SIZE <<< o := by
  rw [Dyadic.size, PAGE_SIZE_eq, Nat.shiftLeft_eq, ← pow_add]
  rfl

/-- **`log2_ceil` is exact** on every `size_t`, and `size2order` on every size that the buddy system
serves. -/
theorem log2Ceil_exact {size : Nat} (hpos : 1 ≤ size) (hlt : size < 2 ^ 64) :
    (∃ n : Nat, log2Ceil size = n ∧ IsLeast {n | size ≤ 2 ^ n} n)
      ∧ (2 ^ 63 < size → log2Ceil size = 64)
      ∧ (PAGE_SIZE ≤ size → size ≤ BUDDY_BLOB_SIZE → size2order size ≤ BUDDY_MAX_ORDER
        ∧ IsLeast {o | size ≤ PAGE_SIZE <<< o} (size2order size)) := by
  obtain ⟨n, hn, hle, hleast⟩ := log2Ceil_spec hpos hlt
  have hmin : ∀ {m}, size ≤ 2 ^ m → n ≤ m := fun hm =>
    Nat.le_of_not_lt fun hmn => absurd hm (Nat.not_le.mpr (hleast _ hmn))
  refine ⟨⟨n, hn, hle, fun m hm => hmin hm⟩, fun hbig => ?_, fun hlo hhi => ?_⟩
  · have h64 : n ≤ 64 := hmin hlt.le
    have h63 : 63 < n := by
      by_contra hle63
      have hpow : 2 ^ n ≤ 2 ^ 63 := Nat.pow_le_pow_right (by omega) (by omega)
      omega
    rw [hn]
    omega
  · obtain ⟨hmax, hle, hleast⟩ := size2order_spec hlo hhi
    refine ⟨hmax, ?_, fun o ho => Nat.le_of_not_lt fun hlt => ?_⟩
    · rwa [size_eq] at hle
    · have hsmall := hleast o hlt
      rw [size_eq] at hsmall
      exact absurd ho (Nat.not_le.mpr hsmall)

theorem log2Ceil_exact_two_pages : IsLeast {o | 8193 ≤ PAGE_SIZE <<< o} (size2order 8193)
    ∧ log2Ceil (2 ^ 63 + 1) = 64 :=
  ⟨((log2Ceil_exact (by decide) (by decide)).2.2 (by decide) (by decide)).2,
    (log2Ceil_exact (by decide) (by decide)).2.1 (by decide)⟩

theorem getBuddyAddr_eq (addr order : Nat) :
    getBuddyAddr addr order = Dyadic.buddy PAGE_SHIFT addr order := by
  rw [getBuddyAddr, Dyadic.buddy, size_eq]

end NoobKernel.Mm
