import NoobKernel.Lib.Exec
import NoobKernel.Misc.Align
import NoobKernel.Misc.Bitmap
import NoobKernel.Misc.Config

set_option autoImplicit false

/-! # State of the memory manager

The data of `mm/pm.c`, `mm/early.c`, `mm/buddy.c` and `mm/slab.c` on one hart. Pointers are
addresses, `0` is `NULL`. A `struct list_head` is the list of the addresses of its entries, in
order. A slab header and a `mem_block` are records under their address, apart from the memory
they lie in. `u64` counters of objects and pages are natural numbers.

Where the C code would go on with a bad pointer or a corrupted list, the model stops with a
`Fault`: a `NULL` dereference, `list_first_entry` of an empty list, `list_del` of an entry that
is on no list. The panics of the code are faults too.
-/

namespace NoobKernel.Mm

open Misc

inductive Fault
  /-- a `NULL` pointer, or a page outside the memory, is dereferenced -/
  | nullDeref
  /-- `list_first_entry` of an empty list -/
  | emptyList
  /-- `list_del` of an entry that is on no list, which changes another one -/
  | listDelUnlinked (entry : Nat)
  /-- `recursive lock acquire` and `release unlocked lock` -/
  | lock
  /-- `split_blocks: page->order != list order`, `buddy order broken` -/
  | orderMismatch
  /-- `buddy metadata OOM in split_blocks`, `OOM during buddy free` -/
  | metadataOOM
  /-- `early heap not usable`, `early heap too small` -/
  | earlyHeap
  /-- `slab meta data error`, `meta data error in slab` and the checks of `slab_free` -/
  | slabMetadata
  /-- `trying create slab without buddy inited` -/
  | buddyNotInited
  /-- a loop of the model has used up its rounds -/
  | rounds
  /-- allocations are nested deeper than the model follows -/
  | depth
  /-- the environment broke its part of the contract -/
  | environment
  deriving DecidableEq, Repr

def PM_BUDDY : BitVec 16 := 0x01
def PM_SLAB : BitVec 16 := 0x02
def PM_STATIC : BitVec 16 := 0x04

/-- `struct page`; `private` is a `mem_block` or `NULL`. -/
structure Page where
  flags : BitVec 16
  order : Nat
  priv : Nat
  deriving DecidableEq, Repr

structure KmemCache where
  objSize : Nat
  allocSize : Nat
  total : Nat
  free : Nat
  low : Nat
  high : Nat
  expanding : Bool
  locked : Bool
  slabsFull : List Nat
  slabsPartial : List Nat
  slabsFree : List Nat
  deriving DecidableEq, Repr

/-- `struct slab`; `kmem` is the index of the cache. -/
structure Slab where
  kmem : Nat
  bm : Bitmap
  total : Nat
  free : Nat
  offset : Nat
  magic : BitVec 16

/-- What `list_del` leaves in an entry: its list and the entries before and behind it, `none` for
the head of the list. -/
structure StaleLinks where
  list : Nat
  prev : Option Nat
  next : Option Nat

/-- The memory manager, with a component `ext` for the environment of a group of results. -/
structure Kernel (E : Type) where
  pages : Nat → Page
  earlyBrk : Nat
  buddyInited : Bool
  buddyFreePages : Nat
  buddyFreeList : Nat → List Nat
  /-- the links of a `mem_block` that has been taken off its list -/
  staleLinks : Nat → Option StaleLinks
  buddyLocked : Bool
  /-- `block->start` of the `mem_block` at an address -/
  memBlock : Nat → Nat
  kallocInited : Bool
  caches : Nat → KmemCache
  slabs : Nat → Slab
  ext : E

variable {E R α : Type}

/-- The static variables before boot. -/
def bss (ext : E) : Kernel E where
  pages _ := ⟨0, 0, 0⟩
  earlyBrk := 0
  buddyInited := false
  buddyFreePages := 0
  buddyFreeList _ := []
  staleLinks _ := none
  buddyLocked := false
  memBlock _ := 0
  kallocInited := false
  caches _ := ⟨0, 0, 0, 0, 0, 0, false, false, [], [], []⟩
  slabs _ := ⟨0, ⟨fun _ => 0, 0⟩, 0, 0, 0, 0⟩
  ext := ext

/-- A function of the memory manager. -/
abbrev Mem (E R α : Type) := Exec (Kernel E) R Fault α

open Exec

/-! ## Pages (`mm/pm.c`) -/

/-- `none` is `-1`. -/
def addr2index (addr : Nat) : Option Nat :=
  if PM_START ≤ addr ∧ addr < PM_END then some ((addr - PM_START) / PAGE_SIZE) else none

namespace Kernel

/-- The page of an address in the memory. -/
def page (k : Kernel E) (addr : Nat) : Page := k.pages ((addr - PM_START) / PAGE_SIZE)

def setPage (k : Kernel E) (addr : Nat) (p : Page) : Kernel E :=
  { k with pages := Function.update k.pages ((addr - PM_START) / PAGE_SIZE) p }

end Kernel

/-- `addr2page(addr)`, dereferenced. -/
def readPage (addr : Nat) : Mem E R Page :=
  match addr2index addr with
  | none => fault .nullDeref
  | some _ => do
      let k ← read
      pure (k.page addr)

/-- An assignment to fields of `*addr2page(addr)`. -/
def modifyPage (addr : Nat) (f : Page → Page) : Mem E R Unit :=
  match addr2index addr with
  | none => fault .nullDeref
  | some _ => modify fun k => k.setPage addr (f (k.page addr))

/-! ## Lists -/

/-- `list_first_entry`. -/
def firstEntry : List Nat → Mem E R Nat
  | [] => fault .emptyList
  | p :: _ => pure p

/-! ## Locks (`sync/spinlock.c`), on one hart -/

def lockBuddy : Mem E R Unit := do
  let k ← read
  if k.buddyLocked then fault .lock else modify fun k => { k with buddyLocked := true }

def unlockBuddy : Mem E R Unit := do
  let k ← read
  if k.buddyLocked then modify fun k => { k with buddyLocked := false } else fault .lock

/-! ## Layout (`mm/layout.h`) and the early heap (`mm/early.c`) -/

/-- The end of the kernel image, which the linker script puts into the memory. -/
structure Layout where
  ekernel : Nat
  start_le : PM_START ≤ ekernel
  le_end : ekernel ≤ PM_END

namespace Layout

variable (lay : Layout)

def KERNEL_END : Nat := ALIGN_UP lay.ekernel PAGE_SIZE
def EARLY_HEAP_BASE : Nat := ALIGN_UP (lay.KERNEL_END + PAGE_SIZE) PAGE_SIZE
def EARLY_HEAP_END : Nat := lay.EARLY_HEAP_BASE + EARLY_HEAP_SIZE
def BUDDY_SYSTEM_BASE : Nat := ALIGN_UP lay.EARLY_HEAP_END BUDDY_BLOB_SIZE
def BUDDY_SYSTEM_END : Nat := ALIGN_DOWN PM_END BUDDY_BLOB_SIZE
def BUDDY_BLOB_NUM : Nat := (BUDDY_SYSTEM_END - lay.BUDDY_SYSTEM_BASE) / BUDDY_BLOB_SIZE

end Layout

/-- The record of a page after the loops of `pm_pages_init`, the last one that reaches it. -/
def pmPage (lay : Layout) (addr : Nat) (page : Page) : Page :=
  if lay.BUDDY_SYSTEM_BASE ≤ addr ∧ addr < Layout.BUDDY_SYSTEM_END then
    ⟨PM_STATIC ||| PM_BUDDY, BUDDY_MAX_ORDER + 1, 0⟩
  else if addr < lay.KERNEL_END ∨ lay.EARLY_HEAP_BASE ≤ addr ∧ addr < lay.EARLY_HEAP_END then
    { page with flags := PM_STATIC }
  else { page with flags := 0 }

/-- The loops run over the firmware and the kernel, the early heap and the buddy system; they
fail at the first page outside the memory, which ends `pm_init`. -/
def pmPagesInit (lay : Layout) : Mem E R Int :=
  if PM_END < lay.EARLY_HEAP_END then pure (-EINVAL)
  else do
    modify fun k => { k with pages := fun i => pmPage lay (PM_START + i * PAGE_SIZE) (k.pages i) }
    pure 0

theorem pmPagesInit_apply {lay : Layout} (h : lay.EARLY_HEAP_END ≤ PM_END) (k : Kernel E) :
    (pmPagesInit lay : Mem E R Int) k
      = .ok 0 { k with pages := fun i => pmPage lay (PM_START + i * PAGE_SIZE) (k.pages i) } [] := by
  rw [pmPagesInit, if_neg (Nat.not_lt.mpr h), modify_bind_apply, pure_apply]

def isEarlyMem (lay : Layout) (k : Kernel E) (ptr : Nat) : Bool :=
  lay.EARLY_HEAP_BASE ≤ ptr ∧ ptr < k.earlyBrk

def earlyAlloc (lay : Layout) (size : Nat) : Mem E R Nat := do
  let k ← read
  if k.kallocInited then fault .earlyHeap
  else if lay.EARLY_HEAP_END ≤ k.earlyBrk + ALIGN_UP size 8 then fault .earlyHeap
  else do
    modify fun k => { k with earlyBrk := k.earlyBrk + ALIGN_UP size 8 }
    pure k.earlyBrk

/-! ## Small facts about the state -/

theorem addr2index_eq {addr : Nat} (h₁ : PM_START ≤ addr) (h₂ : addr < PM_END) :
    addr2index addr = some ((addr - PM_START) / PAGE_SIZE) := if_pos ⟨h₁, h₂⟩

theorem readPage_apply {addr : Nat} (h₁ : PM_START ≤ addr) (h₂ : addr < PM_END) (k : Kernel E) :
    (readPage addr : Mem E R Page) k = .ok (k.page addr) k [] := by
  rw [readPage, addr2index_eq h₁ h₂]
  exact read_bind_apply _ k

theorem modifyPage_apply {addr : Nat} (h₁ : PM_START ≤ addr) (h₂ : addr < PM_END) (f : Page → Page)
    (k : Kernel E) :
    (modifyPage addr f : Mem E R Unit) k = .ok () (k.setPage addr (f (k.page addr))) [] := by
  rw [modifyPage, addr2index_eq h₁ h₂]
  rfl

theorem page_setPage_self (k : Kernel E) (addr : Nat) (p : Page) :
    (k.setPage addr p).page addr = p := Function.update_self _ _ _

/-- Pages of distinct page-aligned addresses are distinct. -/
theorem page_setPage_of_ne (k : Kernel E) {a b : Nat} (p : Page) (ha : PM_START ≤ a)
    (hb : PM_START ≤ b) (haligned : PAGE_SIZE ∣ a) (hbligned : PAGE_SIZE ∣ b) (hne : b ≠ a) :
    (k.setPage a p).page b = k.page b := by
  have hstart : PAGE_SIZE ∣ PM_START := ⟨0x80000, rfl⟩
  have hda := Nat.dvd_sub haligned hstart
  have hdb := Nat.dvd_sub hbligned hstart
  have hindex : (b - PM_START) / PAGE_SIZE ≠ (a - PM_START) / PAGE_SIZE := by
    intro heq
    have hsub : b - PM_START = a - PM_START := by
      rw [← Nat.div_mul_cancel hda, ← Nat.div_mul_cancel hdb, heq]
    exact hne (by omega)
  unfold Kernel.page Kernel.setPage
  dsimp only
  rw [Function.update_of_ne hindex]

/-! ## The region of the buddy system -/

namespace Layout

variable (lay : Layout)

theorem BUDDY_SYSTEM_END_eq : Layout.BUDDY_SYSTEM_END = PM_END := by decide

theorem le_ALIGN_UP {x k : Nat} (hk : k ≤ 23) (hx : x < 2 ^ 63) :
    x ≤ ALIGN_UP x (2 ^ k) ∧ ALIGN_UP x (2 ^ k) < x + 2 ^ 23 := by
  have hle : 2 ^ k ≤ 2 ^ 23 := Nat.pow_le_pow_right (by omega) hk
  have hpos : 0 < 2 ^ k := Nat.two_pow_pos k
  rw [ALIGN_UP_two_pow x (by omega), Nat.mod_eq_of_lt (by omega)]
  have hdm := Nat.div_add_mod (x + (2 ^ k - 1)) (2 ^ k)
  have hlt := Nat.mod_lt (x + (2 ^ k - 1)) hpos
  rw [Nat.mul_comm] at hdm
  omega

/-- The early heap lies behind the kernel image. -/
theorem ekernel_le_EARLY : lay.ekernel ≤ lay.EARLY_HEAP_BASE
    ∧ lay.EARLY_HEAP_BASE < lay.ekernel + 2 ^ 25 := by
  have hend : lay.ekernel ≤ 0x88000000 := lay.le_end
  have hpage : PAGE_SIZE = 2 ^ 12 := rfl
  rw [EARLY_HEAP_BASE, KERNEL_END, hpage]
  have h₁ := le_ALIGN_UP (x := lay.ekernel) (k := 12) (by omega) (by omega)
  generalize ALIGN_UP lay.ekernel (2 ^ 12) = a at h₁ ⊢
  have h₂ := le_ALIGN_UP (x := a + 2 ^ 12) (k := 12) (by omega) (by omega)
  omega

/-- The buddy system begins behind the early heap. -/
theorem EARLY_HEAP_END_le_BASE : lay.EARLY_HEAP_END ≤ lay.BUDDY_SYSTEM_BASE := by
  have hend : lay.ekernel ≤ 0x88000000 := lay.le_end
  have hblob : BUDDY_BLOB_SIZE = 2 ^ 23 := rfl
  have hsize : EARLY_HEAP_SIZE = 2 ^ 12 := rfl
  have hearly := lay.ekernel_le_EARLY
  rw [BUDDY_SYSTEM_BASE, EARLY_HEAP_END, hblob, hsize]
  exact (le_ALIGN_UP (by omega) (by omega)).1

/-- The buddy system begins behind the kernel image. -/
theorem ekernel_le_BASE : lay.ekernel ≤ lay.BUDDY_SYSTEM_BASE :=
  (lay.ekernel_le_EARLY.1.trans (Nat.le_add_right _ _)).trans lay.EARLY_HEAP_END_le_BASE

/-- The region is not reversed when the early heap is in the memory. -/
theorem BASE_le_END (h : lay.EARLY_HEAP_END ≤ PM_END) :
    lay.BUDDY_SYSTEM_BASE ≤ Layout.BUDDY_SYSTEM_END := by
  have hblob : BUDDY_BLOB_SIZE = 2 ^ 23 := rfl
  have hend : PM_END = 0x88000000 := rfl
  rw [BUDDY_SYSTEM_END_eq, BUDDY_SYSTEM_BASE, hblob, ALIGN_UP_two_pow _ (by omega)]
  rw [hend] at h ⊢
  omega

theorem BUDDY_BLOB_NUM_eq : lay.BUDDY_BLOB_NUM
    = (BUDDY_SYSTEM_END - lay.BUDDY_SYSTEM_BASE) / BUDDY_BLOB_SIZE := rfl

theorem BUDDY_SYSTEM_BASE_dvd : BUDDY_BLOB_SIZE ∣ lay.BUDDY_SYSTEM_BASE := by
  have hblob : BUDDY_BLOB_SIZE = 2 ^ 23 := rfl
  rw [BUDDY_SYSTEM_BASE, hblob, ALIGN_UP_two_pow _ (by omega)]
  exact Nat.dvd_mul_left _ _

-- the bounds are large numbers: no proof from here on computes with them
attribute [irreducible] BUDDY_SYSTEM_BASE BUDDY_SYSTEM_END BUDDY_BLOB_NUM

end Layout

end NoobKernel.Mm
