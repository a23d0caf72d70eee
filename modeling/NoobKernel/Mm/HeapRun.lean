import NoobKernel.Mm.HeapBoot
import NoobKernel.Mm.HeapBytes

set_option autoImplicit false

/-! # Runs of the heap

The heap with what its users hold, from boot on (`HeapRun`). In every run with safe events (without
a collision, and without an object that reaches into the next blob) the invariant of the heap holds
(`heapRun_inv`), so every call serves its user as documented (`heap_serves`). A collision makes a
slab of memory that `split_blocks` hands to a user (`not_heap_serves`).
-/

namespace NoobKernel.Mm

open Misc Exec
open Dyadic hiding Mem

variable {E : Type}

/-- The memory manager and what its users hold. -/
structure Heap (E : Type) where
  kernel : Kernel E
  /-- classes and addresses of the objects -/
  objects : List (Nat × Nat)
  blocks : List Block

namespace Heap

/-- A pointer that has been handed out and not been given back. -/
def Live (h : Heap E) (ptr : Nat) : Prop :=
  ptr ∈ h.objects.map Prod.snd ∨ ptr ∈ h.blocks.map Prod.fst

def giveObject (c r : Nat) (h : Heap E) : Heap E :=
  if r = 0 then h else { h with objects := (c, r) :: h.objects }

def giveBlock (o r : Nat) (h : Heap E) : Heap E :=
  if r = 0 then h else { h with blocks := (r, o) :: h.blocks }

/-- A user gets what `kmalloc` has returned for a size. -/
def give (size r : Nat) (h : Heap E) : Heap E :=
  if size ≤ KALLOC_MAX_MEM_OBJ_SIZE then h.giveObject (size2index size) r
  else h.giveBlock (size2order size) r

def dropBlock (ptr : Nat) (h : Heap E) : Heap E :=
  { h with blocks := h.blocks.eraseP fun b => b.1 = ptr }

/-- A user gives a pointer back. -/
def drop (ptr : Nat) (h : Heap E) : Heap E :=
  if ptr ∈ h.objects.map Prod.snd then
    { h with objects := h.objects.eraseP fun o => o.2 = ptr }
  else h.dropBlock ptr

/-- A function of the memory manager. -/
def run {α : Type} (x : Mem E (HeapEvent E) α) : Exec (Heap E) (HeapEvent E) Fault α :=
  zoom Heap.kernel (fun k h => { h with kernel := k }) x

end Heap

/-- What the users of the heap do. -/
inductive HeapCall (E : Type)
  | kmalloc (size : Nat)
  | kcalloc (nitems size : Nat)
  | krealloc (ptr size : Nat)
  | kfree (ptr : Nat)
  | buddyAlloc (size : Nat)
  | buddyFree (ptr : Nat)
  /-- they use their memory -/
  | write (f : E → E)

namespace HeapCall

/-- Only live pointers are given back. -/
def Allowed (h : Heap E) : HeapCall E → Prop
  | .krealloc ptr _ => h.Live ptr
  | .kfree ptr => h.Live ptr
  | .buddyFree ptr => ptr ∈ h.blocks.map Prod.fst
  | _ => True

instance (h : Heap E) : (call : HeapCall E) → Decidable (call.Allowed h)
  | .krealloc _ _ | .kfree _ => inferInstanceAs (Decidable (_ ∨ _))
  | .buddyFree ptr => inferInstanceAs (Decidable (ptr ∈ h.blocks.map Prod.fst))
  | .kmalloc _ | .kcalloc _ _ | .buddyAlloc _ | .write _ => inferInstanceAs (Decidable True)

variable (lay : Layout) (memset : Nat → Nat → E → E)

def exec : HeapCall E → Exec (Heap E) (HeapEvent E) Fault Unit
  | .kmalloc size => do
      let r ← Heap.run (logged size (Mm.kmalloc quiet (kernelOps lay) size))
      modify (Heap.give size r)
  | .kcalloc nitems size => do
      let r ← Heap.run
        (logged (nitems * size) (Kalloc.kcalloc quiet memset (kernelOps lay) nitems size))
      modify (Heap.give (nitems * size) r)
  | .krealloc ptr size => do
      let r ← Heap.run (logged size (Kalloc.krealloc quiet (kernelOps lay) ptr size))
      modify fun h => (h.drop ptr).give size r
  | .kfree ptr => do
      Heap.run (Mm.kfree quiet (kernelOps lay) ptr)
      modify (Heap.drop ptr)
  | .buddyAlloc size => do
      let r ← Heap.run (Mm.buddyAlloc (kernelOps lay) size)
      modify (Heap.giveBlock (size2order size) r)
  | .buddyFree ptr => do
      Heap.run (Mm.buddyFree (kernelOps lay) ptr)
      modify (Heap.dropBlock ptr)
  | .write f => modify fun h => { h with kernel := { h.kernel with ext := f h.kernel.ext } }

end HeapCall

/-- **The states of the heap** in runs from boot on with safe events. -/
inductive HeapRun (safe : HeapEvent E → Prop) (lay : Layout) (memset : Nat → Nat → E → E) :
    Heap E → Prop
  | boot {ext : E} {k : Kernel E} {log : List (HeapEvent E)}
      (run : pmInit lay (kernelOps lay) (bss ext) = .ok 0 k log) :
      HeapRun safe lay memset ⟨k, [], []⟩
  | step {h h' : Heap E} {call : HeapCall E} {log : List (HeapEvent E)}
      (before : HeapRun safe lay memset h) (allowed : call.Allowed h)
      (run : call.exec lay memset h = .ok () h' log) (events : ∀ ev ∈ log, safe ev) :
      HeapRun safe lay memset h'

/-- **The invariant of the heap** between two calls. -/
structure HeapInv (lay : Layout) (h : Heap E) : Prop where
  unlocked : h.kernel.buddyLocked = false
  good : ∃ A, HeapGood lay (holding h.objects h.blocks) h.kernel A []

variable {lay : Layout} {memset : Nat → Nat → E → E} {h : Heap E}

/-! ## One call -/

/-- Between calls all caches may change. -/
theorem thawed (objects : List (Nat × Nat)) (blocks : List Block) (c : Nat) :
    (holding objects blocks).Thawed c := fun _ hq => absurd hq List.not_mem_nil

theorem Heap.run_yields {α β : Type} {pol : Policy (HeapEvent E) Fault} {x : Mem E (HeapEvent E) α}
    {f : α → Exec (Heap E) (HeapEvent E) Fault β} {Q : α → Kernel E → Prop} {Q' : β → Heap E → Prop}
    (hx : Yields pol (x h.kernel) Q)
    (hf : ∀ a k, Q a k → Yields pol (f a { h with kernel := k }) Q') :
    Yields pol ((Heap.run x >>= f) h) Q' := by
  refine Yields.bind (Q := fun a h' => ∃ k, h' = { h with kernel := k } ∧ Q a k)
    (Yields.zoom hx fun a k hQ => ⟨k, rfl, hQ⟩) ?_
  rintro a _ ⟨k, rfl, hQ⟩
  exact hf a k hQ

theorem HeapInv.giveObject {c r : Nat} (hlocked : h.kernel.buddyLocked = false) {A : List Block}
    (hnull : r = 0 → HeapGood lay (holding h.objects h.blocks) h.kernel A [])
    (hsome : r ≠ 0 → HeapGood lay (holding ((c, r) :: h.objects) h.blocks) h.kernel A []) :
    HeapInv lay (h.giveObject c r) := by
  rw [Heap.giveObject]
  split
  · rename_i hr
    exact ⟨hlocked, A, hnull hr⟩
  · rename_i hr
    exact ⟨hlocked, A, hsome hr⟩

theorem HeapInv.giveBlock {o r : Nat} (hlocked : h.kernel.buddyLocked = false) {A : List Block}
    (hnull : r = 0 → HeapGood lay (holding h.objects h.blocks) h.kernel A [])
    (hsome : r ≠ 0 → HeapGood lay (holding h.objects ((r, o) :: h.blocks)) h.kernel A []) :
    HeapInv lay (h.giveBlock o r) := by
  rw [Heap.giveBlock]
  split
  · rename_i hr
    exact ⟨hlocked, A, hnull hr⟩
  · rename_i hr
    exact ⟨hlocked, A, hsome hr⟩

theorem Heap.give_null (size : Nat) (h : Heap E) : h.give size 0 = h := by
  rw [Heap.give, Heap.giveObject, Heap.giveBlock, if_pos rfl, if_pos rfl, ite_self]

theorem Heap.drop_kernel (ptr : Nat) (h : Heap E) (k : Kernel E) :
    ({ h with kernel := k } : Heap E).drop ptr = { h.drop ptr with kernel := k } := by
  unfold Heap.drop
  split <;> rfl

theorem Heap.give_kernel (size r : Nat) (h : Heap E) (k : Kernel E) :
    ({ h with kernel := k } : Heap E).give size r = { h.give size r with kernel := k } := by
  unfold Heap.give Heap.giveObject Heap.giveBlock
  split <;> split <;> rfl

/-- What passes the guard of `kcalloc` is no more than the largest `size_t`. -/
theorem kcalloc_product {nitems size : Nat}
    (hguard : ¬(nitems ≠ 0 ∧ Kalloc.SIZE_MAX / nitems < size)) :
    nitems * size % 2 ^ 64 = nitems * size := by
  refine Nat.mod_eq_of_lt ?_
  rcases Nat.eq_zero_or_pos nitems with rfl | hpos
  · rw [Nat.zero_mul]
    exact Nat.two_pow_pos 64
  · have hle : size ≤ Kalloc.SIZE_MAX / nitems :=
      Nat.not_lt.mp fun hlt => hguard ⟨hpos.ne', hlt⟩
    have hmul : nitems * size ≤ Kalloc.SIZE_MAX := by
      rw [Nat.mul_comm]
      exact (Nat.le_div_iff_mul_le hpos).mp hle
    exact Nat.lt_of_le_of_lt hmul (by decide)

/-- The element that `eraseP` takes out of a list. -/
theorem perm_eraseP_map {α : Type} {f : α → Nat} {l : List α} {x : Nat} (hx : x ∈ l.map f) :
    ∃ a, f a = x ∧ l.Perm (a :: l.eraseP fun b => f b = x) := by
  obtain ⟨a, ha, hfa⟩ := List.mem_map.mp hx
  obtain ⟨b, l₁, l₂, -, hb, hl, herase⟩ :=
    List.exists_of_eraseP (p := fun b => f b = x) ha (decide_eq_true hfa)
  refine ⟨b, of_decide_eq_true hb, ?_⟩
  rw [herase, hl]
  exact List.perm_middle

/-- What has been returned for a size does not reach into the next blob, if it is an object. -/
def Whole (size r : Nat) : Prop := size ≤ KALLOC_MAX_MEM_OBJ_SIZE → InBlob (size2index size) r

/-- The invariant holds with what an allocation has returned for a size, which is not too large. -/
def Given (lay : Layout) (h : Heap E) (size r : Nat) (k : Kernel E) : Prop :=
  (Whole size r → HeapInv lay (({ h with kernel := k } : Heap E).give size r))
    ∧ (r ≠ 0 → size ≤ BUDDY_BLOB_SIZE)

/-- An allocation that is logged, with safe events. -/
theorem Heap.logged_yields {size : Nat} {x : Mem E (HeapEvent E) Nat} {Q : Nat → Kernel E → Prop}
    (hx : Yields (heldPolicy lay) (x h.kernel) Q) :
    Yields (heldPolicy lay) (logged size x h.kernel) fun r k => Q r k ∧ Whole size r :=
  Mm.logged_yields (fun _ _ => trivial) hx

namespace HeapInv

theorem given_null (inv : HeapInv lay h) (size : Nat) : Given lay h size 0 h.kernel := by
  rw [Given, Heap.give_null]
  exact ⟨fun _ => inv, fun hr => absurd rfl hr⟩

/-- **`buddy_alloc`.** -/
theorem buddyAlloc (inv : HeapInv lay h) (size : Nat) :
    Yields (heldPolicy lay) (Mm.buddyAlloc (kernelOps lay) size h.kernel) fun r k =>
      HeapInv lay (({ h with kernel := k } : Heap E).giveBlock (size2order size) r) := by
  obtain ⟨A, good⟩ := inv.good
  by_cases hsize : size < PAGE_SIZE ∨ BUDDY_BLOB_SIZE < size
  · rw [Mm.buddyAlloc, if_pos hsize]
    exact Yields.pure inv
  · rw [not_or, Nat.not_lt, Nat.not_lt] at hsize
    refine (buddyAlloc_heap rfl rfl (fun _ _ => id) hsize.1 hsize.2 good).mono ?_
    rintro r k ⟨hlocked, A', hnull, hsome⟩
    exact giveBlock (hlocked.trans inv.unlocked) hnull hsome

/-- **`kmalloc`.** -/
theorem kmalloc (inv : HeapInv lay h) (size : Nat) :
    Yields (heldPolicy lay) (Mm.kmalloc quiet (kernelOps lay) size h.kernel) (Given lay h size) := by
  obtain ⟨A, good⟩ := inv.good
  by_cases hzero : size = 0
  · rw [Mm.kmalloc, if_pos hzero]
    exact Yields.pure (inv.given_null size)
  · by_cases hsize : size ≤ KALLOC_MAX_MEM_OBJ_SIZE
    · refine (kmalloc_object rfl rfl (fun _ _ => id) (thawed _ _ _) hzero hsize good).mono ?_
      rintro r k ⟨hlocked, A', hnull, hsome⟩
      rw [Given, Heap.give, if_pos hsize]
      exact ⟨fun hwhole => giveObject (hlocked.trans inv.unlocked) hnull fun hr =>
        hsome hr (hwhole hsize), fun _ => hsize.trans (by decide)⟩
    · rw [Mm.kmalloc, if_neg hzero, if_neg hsize]
      split
      · rename_i hmax
        refine (inv.buddyAlloc size).mono fun r k hinv => ?_
        rw [Given, Heap.give, if_neg hsize]
        exact ⟨fun _ => hinv, fun _ => hmax⟩
      · exact Yields.pure (inv.given_null size)

/-- The memory of the users is no part of the heap. -/
theorem write (inv : HeapInv lay h) (f : E → E) :
    HeapInv lay { h with kernel := { h.kernel with ext := f h.kernel.ext } } := by
  obtain ⟨A, good⟩ := inv.good
  have hsame : HeapSame h.kernel { h.kernel with ext := f h.kernel.ext } :=
    ⟨fun _ => rfl, rfl, rfl, rfl, rfl⟩
  exact ⟨inv.unlocked, A, good.of_owns ⟨rfl, rfl, rfl, rfl, rfl⟩ (HeapOwns.congr hsame good.owns)⟩

/-- **`kcalloc`.** The product of the sizes does not wrap around where memory is allocated. -/
theorem kcalloc (inv : HeapInv lay h) (nitems size : Nat) :
    Yields (heldPolicy lay) (Kalloc.kcalloc quiet memset (kernelOps lay) nitems size h.kernel)
      (Given lay h (nitems * size)) := by
  rw [Kalloc.kcalloc]
  split
  · rw [quiet, pure_bind_apply]
    exact Yields.pure (inv.given_null _)
  · rename_i hguard
    rw [kcalloc_product hguard, Kalloc.kzalloc]
    refine Yields.bind (inv.kmalloc (nitems * size)) ?_
    rintro r k ⟨hinv, hmax⟩
    split
    · rename_i hr
      rw [hr] at hinv
      exact Yields.pure ⟨hinv, fun h => absurd rfl h⟩
    · rw [modify_bind_apply]
      refine Yields.pure ⟨fun hwhole => ?_, hmax⟩
      have hwrite := (hinv hwhole).write (memset r (nitems * size))
      rw [Heap.give_kernel] at hwrite ⊢
      exact hwrite

/-- **`buddy_free`** of a block that a user holds. -/
theorem buddyFree (inv : HeapInv lay h) {ptr : Nat} (hptr : ptr ∈ h.blocks.map Prod.fst) :
    Yields (heldPolicy lay) (Mm.buddyFree (kernelOps lay) ptr h.kernel) fun _ k =>
      HeapInv lay (({ h with kernel := k } : Heap E).dropBlock ptr) := by
  obtain ⟨A, good⟩ := inv.good
  obtain ⟨b, hb, hperm⟩ := perm_eraseP_map hptr
  rw [← hb]
  refine (buddyFree_heap rfl rfl (fun _ _ => id) hperm good inv.unlocked).mono ?_
  rintro - k ⟨hlocked, A', hgood⟩
  rw [← hb] at hgood
  exact ⟨hlocked, A', hgood⟩

/-- **`kfree`** of a live pointer. -/
theorem kfree (inv : HeapInv lay h) {ptr : Nat} (hlive : h.Live ptr) :
    Yields (heldPolicy lay) (Mm.kfree quiet (kernelOps lay) ptr h.kernel) fun _ k =>
      HeapInv lay (({ h with kernel := k } : Heap E).drop ptr) := by
  obtain ⟨A, good⟩ := inv.good
  by_cases hobj : ptr ∈ h.objects.map Prod.snd
  · obtain ⟨o, ho, hperm⟩ := perm_eraseP_map hobj
    rw [← ho]
    refine (kfree_object_spec hperm (thawed _ _ _) good).mono ?_
    rintro - k ⟨hlocked, hgood⟩
    rw [Heap.drop, if_pos (by rw [ho]; exact hobj)]
    rw [← ho] at hgood
    exact ⟨hlocked.trans inv.unlocked, A, hgood⟩
  · have hblock : ptr ∈ h.blocks.map Prod.fst := hlive.resolve_left hobj
    obtain ⟨b, hb, hmem⟩ := List.mem_map.mp hblock
    have hroute := good.owns.heap.kfree_block good.inv hb quiet (kernelOps lay)
    rw [← hmem, hroute, hmem]
    refine (inv.buddyFree hblock).mono fun _ k hinv => ?_
    rw [Heap.drop, if_neg hobj]
    exact hinv

/-- **`krealloc`** of a live pointer. -/
theorem krealloc (inv : HeapInv lay h) {ptr : Nat} (hlive : h.Live ptr) (size : Nat) :
    Yields (heldPolicy lay) (Kalloc.krealloc quiet (kernelOps lay) ptr size h.kernel) fun r k =>
      Whole size r → HeapInv lay ((({ h with kernel := k } : Heap E).drop ptr).give size r) := by
  refine Yields.bind (inv.kfree hlive) fun _ k hinv => ?_
  rw [Heap.drop_kernel] at hinv
  refine (hinv.kmalloc size).mono fun r k' hgiven => ?_
  rw [Heap.drop_kernel]
  exact hgiven.1

end HeapInv

/-! ## Runs -/

variable (memset) in
/-- **Every call** keeps the invariant, unless a re-entry collides or there is no memory for a
`mem_block`. -/
theorem heap_step (inv : HeapInv lay h) {call : HeapCall E} (hallowed : call.Allowed h) :
    Yields (heldPolicy lay) (call.exec lay memset h) fun _ h' => HeapInv lay h' := by
  cases call with
  | kmalloc size =>
      exact Heap.run_yields (Heap.logged_yields (inv.kmalloc size)) fun _ _ hgiven =>
        Yields.ok (hgiven.1.1 hgiven.2)
  | kcalloc nitems size =>
      exact Heap.run_yields (Heap.logged_yields (inv.kcalloc nitems size)) fun _ _ hgiven =>
        Yields.ok (hgiven.1.1 hgiven.2)
  | krealloc ptr size =>
      exact Heap.run_yields (Heap.logged_yields (inv.krealloc hallowed size)) fun _ _ hinv =>
        Yields.ok (hinv.1 hinv.2)
  | kfree ptr => exact Heap.run_yields (inv.kfree hallowed) fun _ _ hinv => Yields.ok hinv
  | buddyAlloc size => exact Heap.run_yields (inv.buddyAlloc size) fun _ _ hinv => Yields.ok hinv
  | buddyFree ptr => exact Heap.run_yields (inv.buddyFree hallowed) fun _ _ hinv => Yields.ok hinv
  | write f => exact Yields.ok (inv.write f)

/-- **The invariant of the heap** holds in every run with safe events. -/
theorem heapRun_inv (run : HeapRun HeapEvent.Safe lay memset h) : HeapInv lay h := by
  induction run with
  | boot hboot => exact ⟨(pmInit_good hboot).1, (pmInit_good hboot).2⟩
  | step before allowed hrun reentry ih =>
      have hstep := heap_step memset ih allowed
      rw [hrun] at hstep
      exact (hstep reentry).2

/-! ## What the users get -/

/-- The address is that of an object, of the smallest class that is large enough, which lies in its
slab. -/
def ObjectFits (k : Kernel E) (size r : Nat) : Prop :=
  ∃ c < KALLOC_MEM_POOL_NUM, (ObjectInUse k c r ∧ InBlob c r) ∧ size ≤ classSize c
    ∧ ∀ c' < c, classSize c' < size

/-- The address is that of a block that neither a list of the buddy system nor a slab has. -/
structure HandedOut (lay : Layout) (k : Kernel E) (r o : Nat) : Prop where
  le_max : o ≤ BUDDY_MAX_ORDER
  order : (k.page r).order = o
  aligned : PAGE_SIZE <<< o ∣ r
  region : lay.BUDDY_SYSTEM_BASE ≤ r ∧ r + PAGE_SIZE <<< o ≤ Layout.BUDDY_SYSTEM_END
  taken : ∀ x, Dyadic.Mem PAGE_SHIFT (r, o) x → ¬FreeAt k x
  slab : ∀ c < KALLOC_MEM_POOL_NUM, ∀ s ∈ (k.caches c).slabs, Apart PAGE_SHIFT (s, SLAB_ORDER) (r, o)

/-- No class is large enough, and the address is that of a block of the smallest order that is. -/
def BlockFits (lay : Layout) (k : Kernel E) (size r : Nat) : Prop :=
  (∀ c < KALLOC_MEM_POOL_NUM, classSize c < size)
    ∧ ∃ o, HandedOut lay k r o ∧ size ≤ PAGE_SIZE <<< o ∧ ∀ o' < o, PAGE_SIZE <<< o' < size

/-- A run relies on safe events, and may end in a panic for want of a `mem_block`. -/
def heapPolicyOf (safe : HeapEvent E → Prop) : Policy (HeapEvent E) Fault where
  safe := safe
  fine _ := True
  allowed f := f = .metadataOOM

/-- **What the heap promises**: the capacity of what `kmalloc` and `kcalloc` return, and that
`kfree` passes a live pointer to the allocator it comes from. -/
structure HeapServes (safe : HeapEvent E → Prop) (lay : Layout) (memset : Nat → Nat → E → E)
    (h : Heap E) : Prop where
  null : ∀ size, size = 0 ∨ PAGE_SIZE <<< BUDDY_MAX_ORDER < size →
    kmalloc quiet (kernelOps lay) size h.kernel = .ok 0 h.kernel []
  kmalloc : ∀ size, Yields (heapPolicyOf safe)
    (logged size (kmalloc quiet (kernelOps lay) size) h.kernel)
    fun r k => r ≠ 0 → ObjectFits k size r ∨ BlockFits lay k size r
  kcalloc : ∀ nitems size, Yields (heapPolicyOf safe)
    (logged (nitems * size) (Kalloc.kcalloc quiet memset (kernelOps lay) nitems size) h.kernel)
    fun r k => r ≠ 0 → ObjectFits k (nitems * size) r ∨ BlockFits lay k (nitems * size) r
  kfree_object : ∀ o ∈ h.objects, (h.kernel.slabs (SLAB_ALIGN_DOWN o.2)).kmem = o.1
    ∧ kfree quiet (kernelOps lay) o.2 h.kernel = kmemCacheFree quiet o.2 h.kernel
  kfree_block : ∀ b ∈ h.blocks,
    kfree quiet (kernelOps lay) b.1 h.kernel = buddyFree (kernelOps lay) b.1 h.kernel
  slab : ∀ a, PAGE_SIZE ∣ a → PM_START ≤ a → ((h.kernel.page a).flags &&& PM_SLAB ≠ 0 ↔
    ∃ c < KALLOC_MEM_POOL_NUM, ∃ s ∈ (h.kernel.caches c).slabs ++ (h.kernel.caches c).slabsFree,
      s ≤ a ∧ a < s + SLAB_BLOB_SIZE)

namespace HeapInv

theorem object_fits (inv : HeapInv lay h) {size r : Nat} (hsize : size ≤ KALLOC_MAX_MEM_OBJ_SIZE)
    (hr : (size2index size, r) ∈ h.objects) : ObjectFits h.kernel size r := by
  obtain ⟨A, good⟩ := inv.good
  obtain ⟨hle, hleast⟩ := size2index_spec hsize
  have cl := good.owns.clients
  exact ⟨_, size2index_lt size, ⟨(cl.object _ hr).2, cl.objectFits _ hr⟩, hle, hleast⟩

theorem handedOut (inv : HeapInv lay h) {b : Block} (hb : b ∈ h.blocks) :
    HandedOut lay h.kernel b.1 b.2 := by
  obtain ⟨A, good⟩ := inv.good
  have ok := good.owns.heap
  have part := Partition.of_inv good.inv
  have hA : b ∈ A := ok.handed.mem_iff.mpr (List.mem_append_right _ hb)
  obtain ⟨hmax, haligned, hregion⟩ := part.placed b (List.mem_append_right _ hA)
  refine ⟨hmax, part.allocated b hA, haligned, hregion, ?_, fun c hc s hs => ?_⟩
  · rintro x hx ⟨f, hf, hxf⟩
    exact (List.pairwise_append.mp part.disjoint).2.2 f hf b hA x hxf hx
  · exact ok.block_apart good.inv hb (HeapOk.mem_owned hc hs)

theorem block_fits (inv : HeapInv lay h) {size r : Nat} (hlo : KALLOC_MAX_MEM_OBJ_SIZE < size)
    (hhi : size ≤ BUDDY_BLOB_SIZE) (hr : (r, size2order size) ∈ h.blocks) :
    BlockFits lay h.kernel size r := by
  have hclass : ∀ c < KALLOC_MEM_POOL_NUM, classSize c ≤ KALLOC_MAX_MEM_OBJ_SIZE := by decide
  obtain ⟨-, hle, hleast⟩ := size2order_spec hlo.le hhi
  rw [size_eq] at hle
  refine ⟨fun c hc => (hclass c hc).trans_lt hlo, _, inv.handedOut hr, hle, fun o ho => ?_⟩
  have hlt := hleast o ho
  rwa [size_eq] at hlt

end HeapInv

/-- What a user gets for a size. -/
theorem Given.fits {size r : Nat} {k : Kernel E} (given : Given lay h size r k)
    (hwhole : Whole size r) (hr : r ≠ 0) : ObjectFits k size r ∨ BlockFits lay k size r := by
  obtain ⟨hinv, hmax⟩ := given
  have inv := hinv hwhole
  rw [Heap.give] at inv
  split at inv
  · rename_i hsize
    rw [Heap.giveObject, if_neg hr] at inv
    exact Or.inl (inv.object_fits hsize List.mem_cons_self)
  · rename_i hsize
    rw [Heap.giveBlock, if_neg hr] at inv
    exact Or.inr (inv.block_fits (Nat.not_le.mp hsize) (hmax hr) List.mem_cons_self)

theorem kmalloc_null {size : Nat} (hsize : size = 0 ∨ PAGE_SIZE <<< BUDDY_MAX_ORDER < size)
    (k : Kernel E) : kmalloc quiet (kernelOps lay) size k = .ok 0 k [] := by
  have hmax : KALLOC_MAX_MEM_OBJ_SIZE < PAGE_SIZE <<< BUDDY_MAX_ORDER := by decide
  rw [kmalloc]
  rcases hsize with hzero | hlarge
  · rw [if_pos hzero, pure_apply]
  · rw [if_neg (Nat.ne_zero_of_lt hlarge), if_neg (Nat.not_le.mpr (hmax.trans hlarge)),
      if_neg (Nat.not_le.mpr hlarge), pure_apply]

/-- **The invariant of the heap is enough** for what it promises. -/
theorem HeapInv.serves (inv : HeapInv lay h) :
    HeapServes HeapEvent.Safe lay memset h := by
  obtain ⟨A, good⟩ := inv.good
  have ok := good.owns.heap
  have cl := good.owns.clients
  refine ⟨fun size hsize => kmalloc_null hsize _, fun size => ?_, fun nitems size => ?_, fun o ho => ?_,
    fun b hb => ok.kfree_block good.inv hb quiet (kernelOps lay), fun a hdvd ha => ?_⟩
  · exact (heap_of_held (Heap.logged_yields (inv.kmalloc size))).mono fun r k given hr =>
      given.1.fits given.2 hr
  · exact (heap_of_held (Heap.logged_yields (inv.kcalloc nitems size))).mono fun r k given hr =>
      given.1.fits given.2 hr
  · obtain ⟨hc, huse⟩ := cl.object o ho
    exact ⟨good.owns.slab_kmem hc huse, ok.kfree_object hc huse quiet (kernelOps lay)⟩
  · rw [ok.slab a hdvd ha]
    constructor
    · rintro ⟨s, hs, hmem⟩
      obtain ⟨c, hc, hsc⟩ := mem_ownedBlobs.mp hs
      exact ⟨c, hc, s, List.mem_append_left _ hsc, hmem⟩
    · rintro ⟨c, hc, s, hs, hmem⟩
      rw [(ok.cache c hc).parked, List.append_nil] at hs
      exact ⟨s, mem_ownedBlobs.mpr ⟨c, hc, hs⟩, hmem⟩

/-- **In runs with safe events** the heap keeps its promises. -/
theorem heap_serves (run : HeapRun HeapEvent.Safe lay memset h) :
    HeapServes HeapEvent.Safe lay memset h := (heapRun_inv run).serves

/-! ## Runs that are computed -/

/-- The calls one after the other, as long as they are allowed, return and have re-entries that pass
`p`. -/
def runCalls (lay : Layout) (memset : Nat → Nat → E → E) (p : HeapEvent E → Bool) :
    List (HeapCall E) → Heap E → Option (Heap E)
  | [], h => some h
  | call :: calls, h =>
      if call.Allowed h then
        match call.exec lay memset h with
        | .ok _ h' log => if log.all p then runCalls lay memset p calls h' else none
        | .fault _ _ => none
      else none

/-- The calls after `pm_init` has returned. -/
def bootCalls (lay : Layout) (memset : Nat → Nat → E → E) (p : HeapEvent E → Bool)
    (calls : List (HeapCall E)) : Outcome (Kernel E) (HeapEvent E) Fault Int → Option (Heap E)
  | .ok r k _ => if r = 0 then runCalls lay memset p calls ⟨k, [], []⟩ else none
  | .fault _ _ => none

section

variable {safe : HeapEvent E → Prop} {p : HeapEvent E → Bool} {calls : List (HeapCall E)} {h' : Heap E}

theorem HeapRun.of_calls (hp : ∀ ev, p ev = true → safe ev) (before : HeapRun safe lay memset h)
    (hrun : runCalls lay memset p calls h = some h') : HeapRun safe lay memset h' := by
  induction calls generalizing h with
  | nil =>
      cases hrun
      exact before
  | cons call calls ih =>
      rw [runCalls] at hrun
      split at hrun
      · rename_i hallowed
        split at hrun
        · rename_i h₁ log hcall
          split at hrun
          · rename_i hlog
            refine ih (before.step hallowed hcall fun ev hev => hp ev ?_) hrun
            exact List.all_eq_true.mp hlog ev hev
          · cases hrun
        · cases hrun
      · cases hrun

theorem HeapRun.of_boot {ext : E} {o : Outcome (Kernel E) (HeapEvent E) Fault Int}
    (hp : ∀ ev, p ev = true → safe ev) (hboot : pmInit lay (kernelOps lay) (bss ext) = o)
    (hrun : bootCalls lay memset p calls o = some h') : HeapRun safe lay memset h' := by
  cases o with
  | ok r k log =>
      rw [bootCalls] at hrun
      split at hrun
      · rename_i hr
        rw [hr] at hboot
        exact HeapRun.of_calls hp (HeapRun.boot hboot) hrun
      · cases hrun
  | fault f log => cases hrun

end

/-- A re-entry with a block for a slab on the list, or with objects enough; an object in its blob. -/
def HeapEvent.harmless : HeapEvent E → Bool
  | .reentry ev => ev.kernel.buddyFreeList SLAB_ORDER ≠ []
      ∨ (ev.kernel.caches memBlockPool).low ≤ (ev.kernel.caches memBlockPool).free
  | .object c ptr => InBlob c ptr

theorem HeapEvent.safe_of_harmless (ev : HeapEvent E) (h : ev.harmless = true) : ev.Safe := by
  cases ev with
  | reentry ev =>
      intro hcol
      rcases of_decide_eq_true h with hlist | hlow
      · exact hlist hcol.empty
      · exact absurd hcol.low (Nat.not_lt.mpr hlow)
  | object c ptr =>
      have hin : InBlob c ptr := of_decide_eq_true h
      exact hin

/-- An object and a block are allocated after boot. -/
theorem heap_serves_boot : ∃ h : Heap Unit, h.objects ≠ [] ∧ h.blocks ≠ []
    ∧ HeapServes HeapEvent.Safe smallKernel (fun _ _ e => e) h := by
  have hrun : (bootCalls smallKernel (fun _ _ e => e) HeapEvent.harmless [.kmalloc 64, .kmalloc 8192]
      (pmInit smallKernel (kernelOps smallKernel) (bss ()))).any (fun h =>
        h.objects ≠ [] ∧ h.blocks ≠ []) = true := by
    decide +kernel
  obtain ⟨h, hcalls, hcheck⟩ := (Option.any_eq_true _ _).mp hrun
  obtain ⟨hobjects, hblocks⟩ := of_decide_eq_true hcheck
  exact ⟨h, hobjects, hblocks, heap_serves (.of_boot HeapEvent.safe_of_harmless rfl hcalls)⟩

/-! ## A collision -/

/-- All memory but two blocks of 64 KiB is in use. These are cut into halves, of which both of the
first block and one of the second are free, and not merged. To halve the first of them, `split_blocks`
allocates a `mem_block`. -/
def collidingCalls : List (HeapCall Unit) :=
  List.replicate 14 (.kmalloc 0x800000) ++
    [.kmalloc 0x400000, .kmalloc 0x200000, .kmalloc 0x80000, .kmalloc 0x40000,
      .kmalloc 0x10000, .kmalloc 0x10000,
      .kfree 0x80920000, .kmalloc 0x8000, .kmalloc 0x8000,
      .kfree 0x80930000, .kmalloc 0x8000, .kmalloc 0x8000,
      .kfree 0x80920000, .kfree 0x80938000, .kfree 0x80928000,
      .kmalloc 0x4000]

/-- The block that the last call returns lies in a slab, so `kfree` does not give it back to the
buddy system. -/
theorem not_heap_serves : ¬∀ h : Heap Unit,
    HeapRun (fun _ => True) smallKernel (fun _ _ e => e) h →
      HeapServes (fun _ => True) smallKernel (fun _ _ e => e) h := by
  intro hall
  have hrun : (bootCalls smallKernel (fun _ _ e => e) (fun _ => true) collidingCalls
      (pmInit smallKernel (kernelOps smallKernel) (bss ()))).any (fun h =>
        (0x80928000, 2) ∈ h.blocks
          ∧ (kfree quiet (kernelOps smallKernel) 0x80928000 h.kernel).check
            (fun _ k => k.buddyFreePages = 4)
          ∧ ¬(buddyFree (kernelOps smallKernel) 0x80928000 h.kernel).check
            (fun _ k => k.buddyFreePages = 4)) = true := by
    decide +kernel
  obtain ⟨h, hcalls, hcheck⟩ := (Option.any_eq_true _ _).mp hrun
  obtain ⟨hmem, hkfree, hbuddy⟩ := of_decide_eq_true hcheck
  have hserves := hall h (.of_boot (fun _ _ => trivial) rfl hcalls)
  rw [hserves.kfree_block _ hmem] at hkfree
  exact hbuddy hkfree

end NoobKernel.Mm
