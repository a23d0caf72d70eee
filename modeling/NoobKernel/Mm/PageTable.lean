import NoobKernel.Lib.Radix
import NoobKernel.Misc.Align
import NoobKernel.Misc.Config

set_option autoImplicit false

/-! # Sv39 page tables (`mm/pagetable.c`, `mm/pagetable.h`)

Addresses and entries are `u64` values, natural numbers with the wrap written out. A page of
table memory is named by its base address and holds 512 entries, so a `pte_t *` is a base
address and an index.

Page allocation is a parameter: `kzalloc log` is the address the next call returns after the
calls that returned `log`, `0` for `NULL`. Every possible allocator behaves like one such
function along a run. A `NULL` that `mappages` dereferences ends the run with `none`.
-/

namespace NoobKernel.Mm

open Radix Misc

def VM_END : Nat := 1 <<< (9 + 9 + 9 + 12 - 1)

def PTE_V : Nat := 1 <<< 0
def PTE_M : Nat := 1 <<< 8

def ERANGE : Int := 34
def EADDRINUSE : Int := 98

def PA2PTE (pa : Nat) : Nat := ((pa >>> PAGE_SHIFT) <<< 10) % 2 ^ 64
def PTE2PA (pte : Nat) : Nat := ((pte >>> 10) <<< PAGE_SHIFT) % 2 ^ 64

def PXMASK : Nat := 0x1FF
def PXSHIFT (level : Nat) : Nat := PAGE_SHIFT + 9 * level
def PX (level va : Nat) : Nat := (va >>> PXSHIFT level) &&& PXMASK

def PAGE_ALIGN_DOWN (a : Nat) : Nat := ALIGN_DOWN a PAGE_SIZE
def PAGE_ALIGNED (a : Nat) : Bool := ALIGNED a PAGE_SIZE

/-- The pages that hold page tables, with the results of the page allocations so far. -/
structure PtMem where
  tab : Nat → Nat → Nat
  log : List Nat

/-- `kzalloc(PAGE_SIZE)`. -/
def kzalloc (alloc : List Nat → Nat) (m : PtMem) : Nat × PtMem :=
  let page := alloc m.log
  if page = 0 then (0, { m with log := m.log ++ [0] })
  else (page, ⟨Function.update m.tab page fun _ => 0, m.log ++ [page]⟩)

/-- `*pte = v`. -/
def PtMem.store (m : PtMem) (pte : Nat × Nat) (v : Nat) : PtMem :=
  { m with tab := set m.tab pte.1 pte.2 v }

/-- `*pte`. -/
def PtMem.load (m : PtMem) (pte : Nat × Nat) : Nat := m.tab pte.1 pte.2

/-- The loop of `va2pte` from `level` down, then the slot in the last table. -/
def va2pteFrom (alloc : List Nat → Nat) (va : Nat) (create : Bool) :
    Nat → Nat → PtMem → Option (Nat × Nat) × PtMem
  | 0, pagetable, m => (some (pagetable, PX 0 va), m)
  | level + 1, pagetable, m =>
      let pte := (pagetable, PX (level + 1) va)
      if m.load pte &&& PTE_V ≠ 0 then
        va2pteFrom alloc va create level (PTE2PA (m.load pte)) m
      else if create = false then (none, m)
      else
        let (page, m) := kzalloc alloc m
        if page = 0 then (none, m)
        else va2pteFrom alloc va create level page (m.store pte (PA2PTE page ||| PTE_V))

def va2pte (alloc : List Nat → Nat) (m : PtMem) (pagetable va : Nat) (create : Bool) :
    Option (Nat × Nat) × PtMem :=
  va2pteFrom alloc va create 2 pagetable m

/-- A lookup allocates nothing, so `walkaddr` needs no allocator. -/
def walkaddr (m : PtMem) (pagetable va : Nat) : Nat :=
  if VM_END ≤ va then 0
  else
    match (va2pte (fun _ => 0) m pagetable va false).1 with
    | none => 0
    | some pte => if m.load pte &&& PTE_M = 0 then 0 else PTE2PA (m.load pte)

def pagetableCreate (alloc : List Nat → Nat) (m : PtMem) : Nat × PtMem := kzalloc alloc m

/-- The loop of `mappages` from page `i`, `n` pages before the end; `none` is the
dereference of `NULL`. -/
def mappagesFrom (alloc : List Nat → Nat) (pagetable va pa perm : Nat) :
    Nat → Nat → PtMem → Option Int × PtMem
  | 0, _, m => (some 0, m)
  | n + 1, i, m =>
      match va2pte alloc m pagetable ((va + i * PAGE_SIZE) % 2 ^ 64) true with
      | (none, m) => (none, m)
      | (some pte, m) =>
          if m.load pte &&& PTE_M ≠ 0 then (some (-EADDRINUSE), m)
          else
            let v := PA2PTE ((pa + i * PAGE_SIZE) % 2 ^ 64) ||| perm ||| PTE_M
            mappagesFrom alloc pagetable va pa perm n (i + 1) (m.store pte v)

def mappages (alloc : List Nat → Nat) (m : PtMem) (pagetable va pa npages : Nat)
    (perm : BitVec 32) : Option Int × PtMem :=
  if pagetable = 0 then (some (-EINVAL), m)
  else if !PAGE_ALIGNED va || !PAGE_ALIGNED pa then (some (-EINVAL), m)
  else if npages = 0 then (some 0, m)
  else if VM_END < (va + npages * PAGE_SIZE) % 2 ^ 64 then (some (-ERANGE), m)
  else if PM_END < (pa + npages * PAGE_SIZE) % 2 ^ 64 then (some (-ERANGE), m)
  else mappagesFrom alloc pagetable va pa (perm &&& 0x3f).toNat npages 0 m

/-- One round of the loop of `unmappages`. -/
def unmapPage (m : PtMem) (pagetable a : Nat) : PtMem :=
  match (va2pte (fun _ => 0) m pagetable a false).1 with
  | none => m
  | some pte => if m.load pte &&& PTE_M ≠ 0 then m.store pte 0 else m

/-- The loop runs over the pages from `PAGE_ALIGN_DOWN(vm)` below `start + npages * PAGE_SIZE`,
a bound that wraps; both are page aligned. -/
def unmappages (m : PtMem) (pagetable vm npages : Nat) : Int × PtMem :=
  let start := PAGE_ALIGN_DOWN vm
  let stop := (start + npages * PAGE_SIZE) % 2 ^ 64
  let rounds := (stop - start) / PAGE_SIZE
  (0, (List.range rounds).foldl (fun m i => unmapPage m pagetable (start + i * PAGE_SIZE)) m)

/-- The page tables a kernel can build: `pagetable_create`, then calls of `mappages` and
`unmappages` with any arguments, including calls that fail. -/
inductive Built (alloc : List Nat → Nat) (root : Nat) : PtMem → Prop
  | create {tab : Nat → Nat → Nat} {m : PtMem} (run : pagetableCreate alloc ⟨tab, []⟩ = (root, m)) :
      Built alloc root m
  | mappages {m : PtMem} (built : Built alloc root m) (va pa npages : Nat) (perm : BitVec 32) :
      Built alloc root (mappages alloc m root va pa npages perm).2
  | unmappages {m : PtMem} (built : Built alloc root m) (vm npages : Nat) :
      Built alloc root (unmappages m root vm npages).2

/-- Page allocation behaved: it never returned `NULL`, only page-aligned addresses, and each
page once. -/
structure Fresh (log : List Nat) : Prop where
  nodup : log.Nodup
  ne_zero : ∀ p ∈ log, p ≠ 0
  aligned : ∀ p ∈ log, PAGE_ALIGNED p = true
  lt : ∀ p ∈ log, p < 2 ^ 64

/-- The leaf entry of an address is marked mapped. -/
def mapped (m : PtMem) (pagetable va : Nat) : Bool :=
  match (va2pte (fun _ => 0) m pagetable va false).1 with
  | none => false
  | some pte => m.load pte &&& PTE_M ≠ 0

end NoobKernel.Mm
