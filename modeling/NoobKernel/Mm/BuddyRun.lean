import NoobKernel.Mm.BuddySpec

set_option autoImplicit false

/-! # Runs of the buddy system with an opaque allocator of `mem_block`s

The partition invariant over all runs of `buddy_alloc` and `buddy_free` from the state that
`buddy_init` leaves (`reachable_partition`), and the completeness of allocation by merging on
demand (`buddyAlloc_null_iff`). The `mem_block`s come from an allocator that does not use the
buddy system: any function of its own history that never returns an address in use.
-/

namespace NoobKernel.Mm

open Misc Exec
open Dyadic hiding Mem

/-! ## The allocator of `mem_block`s -/

inductive MetaCall
  | alloc (p : Nat)
  | free (p : Nat)

/-- The addresses in use after a history, the latest call first. -/
def liveMeta : List MetaCall → List Nat
  | [] => []
  | .alloc p :: log => p :: liveMeta log
  | .free p :: log => (liveMeta log).erase p

/-- An allocator that always succeeds, as a function of its history. -/
structure MetaAllocator where
  next : List MetaCall → Nat
  next_ne : ∀ log, next log ≠ 0
  next_fresh : ∀ log, next log ∉ liveMeta log

/-- The state of a kernel with the history of the allocator; its runs have no events. -/
abbrev MetaKernel := Kernel (List MetaCall)

namespace MetaAllocator

variable (al : MetaAllocator)

def ops : MetaOps (List MetaCall) Empty where
  allocMemBlock _ := do
    let k ← read
    modify fun k => { k with ext := .alloc (al.next k.ext) :: k.ext }
    pure (al.next k.ext)
  freeMemBlock p := modify fun k => { k with ext := .free p :: k.ext }

end MetaAllocator

/-- The `mem_block`s of the buddy system are in use, and no block is allocated behind its back. -/
def metaContract : Contract (List MetaCall) where
  Owns k _ M := M ⊆ liveMeta k.ext
  Grows A A' := A = A'
  rest h hM := by rwa [h.ext]
  subset hsub hM := List.Subset.trans hsub hM
  refl _ := rfl
  trans h h' := h.trans h'
  mono h := by rw [h]; exact List.Subset.refl _

/-- No fault is allowed and there are no events to rely on. -/
def strict : Policy Empty Fault where
  safe _ := True
  fine _ := True
  allowed _ := False

theorem MetaAllocator.plain (al : MetaAllocator) : PlainSpec strict metaContract al.ops where
  alloc X k A M howns := by
    show Yields strict ((read >>= _ : Mem _ Empty Nat) k) _
    rw [read_bind_apply, modify_bind_apply]
    refine Yields.pure ⟨⟨rfl, rfl, rfl, rfl, rfl⟩, ?_, fun h => absurd h (al.next_ne _), fun _ => ?_⟩
    · exact List.subset_cons_of_subset _ howns
    · refine ⟨fun hmem => al.next_fresh k.ext (howns hmem), ?_⟩
      exact List.cons_subset_cons _ howns
  free {k A p M} howns hp _ := by
    refine Yields.ok ⟨⟨rfl, rfl, rfl, rfl, rfl⟩, fun q hq => ?_⟩
    have hne : q ≠ p := by
      rintro rfl
      exact hp hq
    exact (List.mem_erase_of_ne hne).mpr (howns (List.mem_cons_of_mem _ hq))

/-! ## The partition invariant -/

/-- The free blocks of all orders. -/
def freeBlocks {E : Type} (k : Kernel E) : List Block := (entries k).map Entry.block

/-- The memory at an address is covered by a free block. -/
def FreeAt {E : Type} (k : Kernel E) (x : Nat) : Prop := ∃ b ∈ freeBlocks k, Dyadic.Mem PAGE_SHIFT b x

/-- **The partition invariant** of the buddy system with the allocated blocks `A`. -/
structure Partition {E : Type} (lay : Layout) (k : Kernel E) (A : List Block) : Prop where
  /-- free and allocated blocks are pairwise disjoint -/
  disjoint : (freeBlocks k ++ A).Pairwise (Apart PAGE_SHIFT)
  /-- a block of order `o` is aligned to `PAGE_SIZE << o` and lies in the region -/
  placed : ∀ b ∈ freeBlocks k ++ A, b.2 ≤ BUDDY_MAX_ORDER ∧ PAGE_SIZE <<< b.2 ∣ b.1
    ∧ lay.BUDDY_SYSTEM_BASE ≤ b.1 ∧ b.1 + PAGE_SIZE <<< b.2 ≤ Layout.BUDDY_SYSTEM_END
  /-- together they cover the region -/
  cover : ∀ x, lay.BUDDY_SYSTEM_BASE ≤ x → x < Layout.BUDDY_SYSTEM_END →
    ∃ b ∈ freeBlocks k ++ A, Dyadic.Mem PAGE_SHIFT b x
  /-- a page has an entry exactly when it is the head of a block linked on its order's list -/
  head : ∀ a, PageIn lay.BUDDY_SYSTEM_BASE Layout.BUDDY_SYSTEM_END a →
    ((k.page a).priv ≠ 0 ↔ ∃ p ∈ k.buddyFreeList (k.page a).order, k.memBlock p = a)
  /-- the page of a linked block has the order of the list and leads back to the entry -/
  linked : ∀ o, ∀ p ∈ k.buddyFreeList o, p ≠ 0 ∧ o ≤ BUDDY_MAX_ORDER
    ∧ (k.page (k.memBlock p)).order = o ∧ (k.page (k.memBlock p)).priv = p
  /-- the head of an allocated block keeps the order it was allocated with -/
  allocated : ∀ b ∈ A, (k.page b.1).order = b.2
  freePages : k.buddyFreePages = ((freeBlocks k).map fun b => 2 ^ b.2).sum

section Partition

variable {E : Type} {lay : Layout} {k : Kernel E} {A : List Block}

theorem Partition.of_inv (h : BuddyInv lay.BUDDY_SYSTEM_BASE Layout.BUDDY_SYSTEM_END k A []) :
    Partition lay k A := by
  have hrec := h.records
  have hfree := h.freePages
  rw [List.append_nil] at hrec hfree
  have htiles : Tiles PAGE_SHIFT lay.BUDDY_SYSTEM_BASE Layout.BUDDY_SYSTEM_END
      (freeBlocks k ++ A) := hrec.tiles
  refine ⟨htiles.apart, ?_, fun x h₁ h₂ => (htiles.cover x).mp ⟨h₁, h₂⟩, ?_, ?_,
    fun b hb => (hrec.allocated b hb).1, ?_⟩
  · intro b hb
    rw [← size_eq]
    exact ⟨hrec.le_max b hb, htiles.aligned b hb, htiles.bounds hb⟩
  · intro a ha
    constructor
    · intro hpriv
      obtain ⟨e, he, rfl⟩ := hrec.head a ha hpriv
      obtain ⟨-, hlist, hstart⟩ := mem_entries.mp he
      rw [(hrec.entry e he).1]
      exact ⟨e.ptr, hlist, hstart.symm⟩
    · rintro ⟨p, hp, rfl⟩
      have hmem := mem_entries_of (h.mem_list hp) hp
      rw [(hrec.entry _ hmem).2]
      exact hrec.ptr_ne _ hmem
  · intro o p hp
    have hmem := mem_entries_of (h.mem_list hp) hp
    have hpage := hrec.entry ⟨p, k.memBlock p, o⟩ hmem
    dsimp only at hpage
    exact ⟨hrec.ptr_ne _ hmem, h.mem_list hp, hpage.1, hpage.2⟩
  · rw [hfree, freeBlocks, List.map_map]
    rfl

theorem Partition.inv (h : Partition lay k A) :
    BuddyInv lay.BUDDY_SYSTEM_BASE Layout.BUDDY_SYSTEM_END k A [] := by
  have hentry : ∀ e ∈ entries k, e.ptr ≠ 0 ∧ (k.page e.start).order = e.order
      ∧ (k.page e.start).priv = e.ptr := by
    intro e he
    obtain ⟨-, hlist, hstart⟩ := mem_entries.mp he
    rw [hstart]
    exact ⟨(h.linked _ _ hlist).1, (h.linked _ _ hlist).2.2⟩
  have hpage : ∀ b ∈ freeBlocks k ++ A,
      PageIn lay.BUDDY_SYSTEM_BASE Layout.BUDDY_SYSTEM_END b.1 := by
    intro b hb
    obtain ⟨-, hdvd, hlo, hhi⟩ := h.placed b hb
    rw [← size_eq] at hdvd hhi
    exact ⟨page_dvd hdvd, hlo, Nat.lt_of_lt_of_le (Nat.lt_add_of_pos_right (size_pos _)) hhi⟩
  refine ⟨?_, by simp, ?_, ?_⟩
  · rw [List.append_nil]
    refine ⟨⟨?_, h.disjoint, fun x => ⟨fun hx => h.cover x hx.1 hx.2, ?_⟩⟩, ?_,
      fun e he => (hentry e he).1, fun b hb => (h.placed b hb).1,
      fun e he => (hentry e he).2, ?_, ?_⟩
    · intro b hb
      rw [Aligned, size_eq]
      exact (h.placed b hb).2.1
    · rintro ⟨b, hb, hx⟩
      obtain ⟨-, -, hlo, hhi⟩ := h.placed b hb
      rw [← size_eq] at hhi
      exact ⟨hlo.trans hx.1, Nat.lt_of_lt_of_le hx.2 hhi⟩
    · -- two entries with one address would be two free blocks with one start
      have hpair : ((entries k).map Entry.block).Pairwise (Apart PAGE_SHIFT) :=
        (List.pairwise_append.mp h.disjoint).1
      refine List.pairwise_map.mpr (List.Pairwise.imp_of_mem ?_ (List.pairwise_map.mp hpair))
      intro e e' he he' hap heq
      have hstart : e.start = e'.start := by
        rw [(mem_entries.mp he).2.2, (mem_entries.mp he').2.2, heq]
      refine hap e.start (mem_start e.block) ?_
      rw [hstart]
      exact mem_start e'.block
    · intro b hb
      refine ⟨h.allocated b hb, by_contra fun hpriv => ?_⟩
      obtain ⟨p, hp, hstart⟩ := (h.head b.1 (hpage b (List.mem_append_right _ hb))).mp hpriv
      have hmem := mem_entries_of (h.linked _ _ hp).2.1 hp
      refine (List.pairwise_append.mp h.disjoint).2.2 _ (List.mem_map_of_mem hmem) b hb b.1 ?_
        (mem_start b)
      rw [← hstart]
      exact mem_start (k.memBlock p, _)
    · intro a ha hpriv
      obtain ⟨p, hp, hstart⟩ := (h.head a ha).mp hpriv
      exact ⟨_, mem_entries_of (h.linked _ _ hp).2.1 hp, hstart⟩
  · rw [List.append_nil, h.freePages, freeBlocks, List.map_map]
    rfl
  · intro o ho
    refine List.eq_nil_iff_forall_not_mem.mpr fun p hp => ?_
    exact absurd (h.linked o p hp).2.1 (Nat.not_le.mpr ho)

/-- Free is what is in the region and not allocated. -/
theorem freeAt_iff {B : List Block}
    (h : Tiles PAGE_SHIFT lay.BUDDY_SYSTEM_BASE Layout.BUDDY_SYSTEM_END (freeBlocks k ++ B))
    (x : Nat) : FreeAt k x ↔ (lay.BUDDY_SYSTEM_BASE ≤ x ∧ x < Layout.BUDDY_SYSTEM_END)
      ∧ ¬∃ b ∈ B, Dyadic.Mem PAGE_SHIFT b x := by
  constructor
  · rintro ⟨b, hb, hx⟩
    refine ⟨(h.cover x).mpr ⟨b, List.mem_append_left _ hb, hx⟩, ?_⟩
    rintro ⟨c, hc, hx'⟩
    exact (List.pairwise_append.mp h.apart).2.2 b hb c hc x hx hx'
  · rintro ⟨hx, hnot⟩
    obtain ⟨b, hb, hxb⟩ := (h.cover x).mp hx
    rcases List.mem_append.mp hb with hb | hb
    · exact ⟨b, hb, hxb⟩
    · exact absurd ⟨b, hb, hxb⟩ hnot

end Partition

/-! ## Runs -/

/-- The state `buddy_init` leaves on a machine whose buddy system has not been used. -/
def Initial (al : MetaAllocator) (lay : Layout) (k : MetaKernel) : Prop :=
  ∃ k₀ k₁ : MetaKernel, k₀.buddyFreePages = 0 ∧ k₀.buddyLocked = false
    ∧ (pmPagesInit lay : Mem _ Empty Int) k₀ = .ok 0 k₁ []
    ∧ buddyInit lay al.ops k₁ = .ok 0 k []

/-- One call, with the list of the allocated blocks. -/
inductive BuddyStep (al : MetaAllocator) : MetaKernel × List Block → MetaKernel × List Block → Prop
  | alloc {k k' : MetaKernel} {A : List Block} {size addr : Nat} (lo : PAGE_SIZE ≤ size)
      (hi : size ≤ BUDDY_BLOB_SIZE) (call : buddyAlloc al.ops size k = .ok addr k' []) :
      BuddyStep al (k, A) (k', if addr = 0 then A else (addr, size2order size) :: A)
  | free {k k' : MetaKernel} {A : List Block} {b : Block} (mem : b ∈ A)
      (call : buddyFree al.ops b.1 k = .ok () k' []) : BuddyStep al (k, A) (k', A.erase b)

/-- What every state of a run satisfies. -/
structure Running (lay : Layout) (s : MetaKernel × List Block) : Prop where
  good : Good metaContract lay.BUDDY_SYSTEM_BASE Layout.BUDDY_SYSTEM_END s.1 s.2 []
  unlocked : s.1.buddyLocked = false

variable {al : MetaAllocator} {lay : Layout}

variable (al) in
theorem initial_returns {k₀ k₁ : MetaKernel} (hpages : k₀.buddyFreePages = 0)
    (hlocked : k₀.buddyLocked = false)
    (hpm : (pmPagesInit lay : Mem _ Empty Int) k₀ = .ok 0 k₁ []) :
    ∃ k l, buddyInit lay al.ops k₁ = .ok 0 k l ∧ Running lay (k, []) := by
  obtain ⟨hfit, hclean, heq⟩ := pmPagesInit_spec hpm
  have hpages₁ : k₁.buddyFreePages = 0 := by rw [heq]; exact hpages
  have hlocked₁ : k₁.buddyLocked = false := by rw [heq]; exact hlocked
  clear heq
  obtain ⟨r, k, l, hrun, rfl, hl, k', hgood, rfl⟩ := (buddyInit_spec al.plain hfit hpages₁
    (fun x hx => by rw [hclean x hx]) (List.nil_subset _)).returns (fun _ => trivial) fun _ => id
  exact ⟨_, l, hrun, ⟨⟨hgood.inv.records, hgood.inv.suspended, hgood.inv.freePages,
    hgood.inv.above⟩, hgood.owns⟩, hl.trans hlocked₁⟩

theorem running_initial {k : MetaKernel} (h : Initial al lay k) : Running lay (k, []) := by
  obtain ⟨k₀, k₁, hpages, hlocked, hpm, hinit⟩ := h
  obtain ⟨k', l, hrun, hrunning⟩ := initial_returns al hpages hlocked hpm
  rw [hinit] at hrun
  cases hrun
  exact hrunning

variable (al) in
/-- **`buddy_alloc` returns**, and hands out a block of the order or changes no allocation. -/
theorem running_alloc {k : MetaKernel} {A : List Block} {size : Nat} (h : Running lay (k, A))
    (hlo : PAGE_SIZE ≤ size) (hhi : size ≤ BUDDY_BLOB_SIZE) :
    ∃ r k', buddyAlloc al.ops size k = .ok r k' []
      ∧ Running lay (k', if r = 0 then A else (r, size2order size) :: A) := by
  obtain ⟨r, k', l, hrun, hl, A', rfl, howns, hres⟩ := (buddyAlloc_spec lay.region
    (al.plain.toOps _ _ []) hlo hhi h.good (Or.inr fun e he => by cases he)).returns
    (fun _ => trivial) fun _ => id
  have hlog : l = [] := Subsingleton.elim l []
  refine ⟨r, k', hlog ▸ hrun, ?_, hl.trans h.unlocked⟩
  rcases hres with ⟨rfl, hinv, -⟩ | ⟨hr, hinv⟩
  · rw [if_pos rfl]
    exact ⟨hinv, howns⟩
  · rw [if_neg hr]
    exact ⟨hinv, howns⟩

variable (al) in
/-- **`buddy_free` of an allocated block returns.** -/
theorem running_free {k : MetaKernel} {A : List Block} {b : Block} (h : Running lay (k, A))
    (hb : b ∈ A) : ∃ k', buddyFree al.ops b.1 k = .ok () k' []
      ∧ Running lay (k', A.erase b) := by
  obtain ⟨_, k', l, hrun, hl, A', rfl, hinv, howns⟩ := (buddyFree_spec lay.region
    (al.plain.toOps _ _ []) hb h.good h.unlocked).returns (fun _ => trivial) fun _ => id
  have hlog : l = [] := Subsingleton.elim l []
  exact ⟨k', hlog ▸ hrun, ⟨hinv, howns⟩, hl⟩

theorem running_step {s s' : MetaKernel × List Block} (h : Running lay s)
    (hstep : BuddyStep al s s') : Running lay s' := by
  cases hstep with
  | alloc lo hi call =>
      obtain ⟨r, k', hrun, hrunning⟩ := running_alloc al h lo hi
      rw [call] at hrun
      cases hrun
      exact hrunning
  | free mem call =>
      obtain ⟨k', hrun, hrunning⟩ := running_free al h mem
      rw [call] at hrun
      cases hrun
      exact hrunning

theorem running_steps {s s' : MetaKernel × List Block} (h : Running lay s)
    (hsteps : Relation.ReflTransGen (BuddyStep al) s s') : Running lay s' := by
  induction hsteps with
  | refl => exact h
  | tail _ hstep ih => exact running_step ih hstep

/-- **The partition invariant holds in every reachable state**, whatever the allocator of
`mem_block`s and whatever the sequence of allocations and frees. -/
theorem reachable_partition (al : MetaAllocator) (lay : Layout) {k₀ k : MetaKernel}
    {A : List Block} (hinit : Initial al lay k₀)
    (hsteps : Relation.ReflTransGen (BuddyStep al) (k₀, []) (k, A)) : Partition lay k A :=
  Partition.of_inv (running_steps (running_initial hinit) hsteps).good.inv

/-- An allocator that returns an address above all in use. -/
def topAllocator : MetaAllocator where
  next log := (liveMeta log).sum + 1
  next_ne _ := Nat.succ_ne_zero _
  next_fresh _ hmem := absurd (List.le_sum_of_mem hmem) (Nat.not_succ_le_self _)

def smallKernel : Layout where
  ekernel := 0x80210000
  start_le := by decide
  le_end := by decide

theorem initial_small :
    ∃ k, Initial topAllocator smallKernel k ∧ Running smallKernel (k, []) := by
  have hfit : smallKernel.EARLY_HEAP_END ≤ PM_END := by decide
  have hpm := pmPagesInit_apply (E := List MetaCall) (R := Empty) hfit (bss [])
  obtain ⟨k, l, hrun, hrunning⟩ := initial_returns topAllocator rfl rfl hpm
  have hlog : l = [] := Subsingleton.elim l []
  exact ⟨k, ⟨_, _, rfl, rfl, hpm, hlog ▸ hrun⟩, hrunning⟩

/-- One allocation after `buddy_init`. -/
theorem reachable_partition_one : ∃ k₀ k A, Initial topAllocator smallKernel k₀
    ∧ BuddyStep topAllocator (k₀, []) (k, A) ∧ Partition smallKernel k A := by
  obtain ⟨k₀, hinit, hrunning⟩ := initial_small
  obtain ⟨r, k, hcall, -⟩ := running_alloc topAllocator hrunning
    (by decide : PAGE_SIZE ≤ 4096) (by decide)
  have hstep := BuddyStep.alloc (A := []) (by decide) (by decide) hcall
  exact ⟨k₀, k, _, hinit, hstep, reachable_partition _ _ hinit (.single hstep)⟩

/-! ## Completeness -/

/-- `2 ^ o` free pages in a row, aligned like a block of order `o`. -/
def FreeRun {E : Type} (k : Kernel E) (a o : Nat) : Prop :=
  PAGE_SIZE <<< o ∣ a ∧ ∀ i < 2 ^ o, FreeAt k (a + i * PAGE_SIZE)

/-- A run of free pages is free at every byte. -/
theorem FreeRun.freeAt {k : MetaKernel} {A : List Block} {a o : Nat} (h : FreeRun k a o)
    (hpart : Partition lay k A) {x : Nat} (hx : Dyadic.Mem PAGE_SHIFT (a, o) x) : FreeAt k x := by
  have hpage : 0 < PAGE_SIZE := by decide
  have hunit : size PAGE_SHIFT 0 = PAGE_SIZE := rfl
  have hsize : size PAGE_SHIFT o = 2 ^ o * PAGE_SIZE := by
    rw [size_eq, Nat.shiftLeft_eq, Nat.mul_comm]
  obtain ⟨y, rfl⟩ := Nat.exists_eq_add_of_le hx.1
  have hy : y < 2 ^ o * PAGE_SIZE := by
    have := hx.2
    rw [hsize] at this
    exact Nat.lt_of_add_lt_add_left this
  have hi : y / PAGE_SIZE < 2 ^ o := (Nat.div_lt_iff_lt_mul hpage).mpr hy
  obtain ⟨b, hb, hmem⟩ := h.2 _ hi
  refine ⟨b, hb, ?_⟩
  -- the page of `x` lies in one block
  have hdvd : PAGE_SIZE ∣ a := by
    have := h.1
    rw [← size_eq] at this
    exact page_dvd (b := (a, o)) this
  have hal : Aligned PAGE_SHIFT (a + y / PAGE_SIZE * PAGE_SIZE, 0) :=
    hdvd.add (Nat.dvd_mul_left _ _)
  have hbal : Aligned PAGE_SHIFT b := by
    have := (hpart.placed b (List.mem_append_left _ hb)).2.1
    rwa [← size_eq] at this
  refine mem_of_mem hal hbal (Nat.zero_le _) (mem_start _) hmem ⟨?_, ?_⟩
  · exact Nat.add_le_add_left (Nat.div_mul_le_self y _) a
  · show a + y < a + y / PAGE_SIZE * PAGE_SIZE + size PAGE_SHIFT 0
    rw [hunit, Nat.add_assoc]
    exact Nat.add_lt_add_left (Nat.lt_div_mul_add hpage) a

/-- With nothing at or above the order and no buddies below it, there is no free run. -/
theorem no_freeRun {k : MetaKernel} {A : List Block} {o : Nat}
    (h : BuddyInv lay.BUDDY_SYSTEM_BASE Layout.BUDDY_SYSTEM_END k A [])
    (hempty : ∀ o', o ≤ o' → k.buddyFreeList o' = []) (hpairs : ∀ i < o, NoPairs k i) (a : Nat)
    (hal : Aligned PAGE_SHIFT (a, o)) : ¬∀ x, Dyadic.Mem PAGE_SHIFT (a, o) x → FreeAt k x := by
  intro hfree
  have htiles : Tiles PAGE_SHIFT lay.BUDDY_SYSTEM_BASE Layout.BUDDY_SYSTEM_END
      (freeBlocks k ++ A) := by
    have := h.records.tiles
    rwa [List.append_nil] at this
  have hsmall : ∀ b ∈ freeBlocks k, b.2 < o := by
    intro b hb
    obtain ⟨e, he, rfl⟩ := List.mem_map.mp hb
    by_contra hge
    have hlist := (mem_entries.mp he).2.1
    rw [hempty e.order (Nat.not_lt.mp hge)] at hlist
    cases hlist
  obtain ⟨b, hb, hbuddy⟩ := exists_buddies htiles hal hfree hsmall
  obtain ⟨e, he, rfl⟩ := List.mem_map.mp hb
  obtain ⟨e', he', heq⟩ := List.mem_map.mp hbuddy
  have hstart : e'.start = buddy PAGE_SHIFT e.start e.order := congrArg Prod.fst heq
  have horder : e'.order = e.order := congrArg Prod.snd heq
  exact hpairs e.order (hsmall _ hb) e he e' he' rfl horder hstart

/-- **Allocation is complete.** `buddy_alloc` returns, and it returns `NULL` exactly when there
is no aligned run of free pages of the size, however the free pages are cut into blocks. -/
theorem buddyAlloc_null_iff (al : MetaAllocator) (lay : Layout) {k : MetaKernel} {A : List Block}
    {size : Nat} (hpart : Partition lay k A)
    (hlive : ∀ o, ∀ p ∈ k.buddyFreeList o, p ∈ liveMeta k.ext) (hlo : PAGE_SIZE ≤ size)
    (hhi : size ≤ BUDDY_BLOB_SIZE) : ∃ r k', buddyAlloc al.ops size k = .ok r k' []
      ∧ (r = 0 ↔ ¬∃ a, FreeRun k a (size2order size)) := by
  have hinv := hpart.inv
  have howns : metaContract.Owns k A (ptrs k []) := by
    intro p hp
    rcases mem_ptrs.mp hp with ⟨o, -, hp⟩ | ⟨e, he, -⟩
    · exact hlive o p hp
    · cases he
  obtain ⟨r, k', l, hrun, -, A', rfl, -, hres⟩ := (buddyAlloc_spec lay.region
    (al.plain.toOps _ _ []) hlo hhi ⟨hinv, howns⟩ (Or.inr fun e he => by cases he)).returns
    (fun _ => trivial) fun _ => id
  have hlog : l = [] := Subsingleton.elim l []
  have htiles : ∀ {k : MetaKernel} {B : List Block},
      BuddyInv lay.BUDDY_SYSTEM_BASE Layout.BUDDY_SYSTEM_END k B [] →
      Tiles PAGE_SHIFT lay.BUDDY_SYSTEM_BASE Layout.BUDDY_SYSTEM_END (freeBlocks k ++ B) := by
    intro k B h
    have := h.records.tiles
    rwa [List.append_nil] at this
  refine ⟨r, k', hlog ▸ hrun, ?_⟩
  rcases hres with ⟨rfl, hinv', hempty, hpairs⟩ | ⟨hr, hinv'⟩
  · refine iff_of_true rfl ?_
    rintro ⟨a, hfree⟩
    have hal : Aligned PAGE_SHIFT (a, size2order size) := by
      rw [Aligned, size_eq]
      exact hfree.1
    refine no_freeRun hinv' hempty hpairs a hal fun x hx => ?_
    -- merging has changed no allocation
    have := (freeAt_iff (htiles hinv) x).mp (hfree.freeAt hpart hx)
    exact (freeAt_iff (htiles hinv') x).mpr this
  · refine iff_of_false hr (not_not.mpr ⟨r, ?_, fun i hi => ?_⟩)
    · rw [← size_eq]
      exact (htiles hinv').aligned (r, size2order size) (by simp)
    · have hx : Dyadic.Mem PAGE_SHIFT (r, size2order size) (r + i * PAGE_SIZE) := by
        refine ⟨Nat.le_add_right _ _, ?_⟩
        show r + i * PAGE_SIZE < r + Dyadic.size PAGE_SHIFT (size2order size)
        rw [size_eq, Nat.shiftLeft_eq, Nat.mul_comm PAGE_SIZE]
        exact Nat.add_lt_add_left (Nat.mul_lt_mul_of_pos_right hi (by decide)) r
      have ht := htiles hinv'
      refine (freeAt_iff (htiles hinv) _).mpr ⟨(ht.cover _).mpr ⟨_, by simp, hx⟩, ?_⟩
      rintro ⟨c, hc, hxc⟩
      have hap := (List.pairwise_append.mp ht.apart).2.1
      exact (List.pairwise_cons.mp hap).1 c hc _ hx hxc

/-- The state after `buddy_init`, asked for a page. -/
theorem buddyAlloc_null_iff_initial : ∃ k, Partition smallKernel k []
    ∧ ∃ r k', buddyAlloc topAllocator.ops 4096 k = .ok r k' []
      ∧ (r = 0 ↔ ¬∃ a, FreeRun k a (size2order 4096)) := by
  obtain ⟨k₀, -, hrunning⟩ := initial_small
  have hpart := Partition.of_inv hrunning.good.inv
  refine ⟨k₀, hpart, buddyAlloc_null_iff topAllocator smallKernel hpart ?_ (by decide) (by decide)⟩
  intro o p hp
  exact hrunning.good.owns (mem_ptrs.mpr (Or.inl ⟨o, hrunning.good.inv.mem_list hp, hp⟩))

end NoobKernel.Mm
