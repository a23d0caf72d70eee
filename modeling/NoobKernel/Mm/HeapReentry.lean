import NoobKernel.Mm.HeapRun

set_option autoImplicit false

/-! # Re-entry of the buddy system

`split_blocks` holds a block off its list while it allocates a `mem_block`, which may enter the
buddy system again. In runs with safe events every nested call leaves the block alone that is held,
and the memory stays divided among the free blocks, the slabs and the blocks of the users
(`heap_reentry`). With a collision it does not (`not_heap_reentry`).
-/

namespace NoobKernel.Mm

open Misc Exec
open Dyadic hiding Mem

variable {E : Type} {lay : Layout} {memset : Nat → Nat → E → E} {h : Heap E}

/-- The free blocks, the slabs and the blocks of the users. -/
def Heap.pieces (h : Heap E) : List Block :=
  freeBlocks h.kernel
    ++ (((ownedBlobs h.kernel KALLOC_MEM_POOL_NUM).map fun s => (s, SLAB_ORDER)) ++ h.blocks)

/-- Every page of the buddy system belongs to one block. -/
def Heap.Tiled (lay : Layout) (h : Heap E) : Prop :=
  Tiles PAGE_SHIFT lay.BUDDY_SYSTEM_BASE Layout.BUDDY_SYSTEM_END h.pieces

theorem HeapInv.tiled (inv : HeapInv lay h) : h.Tiled lay := by
  obtain ⟨A, good⟩ := inv.good
  have htiles := good.inv.records.tiles
  rw [List.append_nil] at htiles
  exact htiles.perm (good.owns.heap.handed.append_left _)

/-- The data of the allocator and of its users have no byte in common. -/
def Heap.Separated (h : Heap E) : Prop :=
  (heapRanges h.kernel [] h.objects h.blocks).Pairwise Separate

theorem HeapInv.separated (inv : HeapInv lay h) : h.Separated := by
  obtain ⟨A, good⟩ := inv.good
  exact good.separate rfl fun _ _ => id

/-- A run relies on safe events, its re-entries leave the held blocks alone, and it may end in a
panic for want of a `mem_block`. -/
def reentryPolicy (lay : Layout) (safe : HeapEvent E → Prop) : Policy (HeapEvent E) Fault where
  safe := safe
  fine ev := ev.LeavesHeld lay
  allowed f := f = .metadataOOM

/-- **What holds of the buddy system** in a state and during the next call. -/
structure ReentrySafe (safe : HeapEvent E → Prop) (lay : Layout) (memset : Nat → Nat → E → E)
    (h : Heap E) : Prop where
  tiled : h.Tiled lay
  separated : h.Separated
  calls : ∀ call : HeapCall E, call.Allowed h →
    Yields (reentryPolicy lay safe) (call.exec lay memset h) fun _ h' =>
      h'.Tiled lay ∧ h'.Separated

/-- **In runs with safe events** no nested call touches the block that `split_blocks` holds, and no
page belongs to two blocks when a call has returned. -/
theorem heap_reentry (run : HeapRun HeapEvent.Safe lay memset h) :
    ReentrySafe HeapEvent.Safe lay memset h where
  tiled := (heapRun_inv run).tiled
  separated := (heapRun_inv run).separated
  calls _ hallowed := (heap_step memset (heapRun_inv run) hallowed).mono fun _ _ inv =>
    ⟨inv.tiled, inv.separated⟩

/-- Halving blocks for the second page, `split_blocks` allocates `mem_block`s. -/
theorem heap_reentry_boot : ∃ h : Heap Unit, h.blocks ≠ []
    ∧ ReentrySafe HeapEvent.Safe smallKernel (fun _ _ e => e) h := by
  have hrun : (bootCalls smallKernel (fun _ _ e => e) HeapEvent.harmless [.kmalloc 64, .kmalloc 8192]
      (pmInit smallKernel (kernelOps smallKernel) (bss ()))).any
        (fun h => h.blocks ≠ []) = true := by
    decide +kernel
  obtain ⟨h, hcalls, hblocks⟩ := (Option.any_eq_true _ _).mp hrun
  exact ⟨h, of_decide_eq_true hblocks, heap_reentry (.of_boot HeapEvent.safe_of_harmless rfl hcalls)⟩

/-- The nested call makes a slab of the block that `split_blocks` holds and its buddy, and the outer
call returns a part of the slab. -/
theorem not_heap_reentry : ¬∀ h : Heap Unit,
    HeapRun (fun _ => True) smallKernel (fun _ _ e => e) h →
      ReentrySafe (fun _ => True) smallKernel (fun _ _ e => e) h := by
  intro hall
  have hrun : (bootCalls smallKernel (fun _ _ e => e) (fun _ => true) collidingCalls
      (pmInit smallKernel (kernelOps smallKernel) (bss ()))).any
        (fun h => (0x80928000, 2) ∈ h.blocks
          ∧ 0x80920000 ∈ ownedBlobs h.kernel KALLOC_MEM_POOL_NUM) = true := by
    decide +kernel
  obtain ⟨h, hcalls, hcheck⟩ := (Option.any_eq_true _ _).mp hrun
  obtain ⟨hblock, hslab⟩ := of_decide_eq_true hcheck
  have htiled : Tiles PAGE_SHIFT _ _ h.pieces :=
    (hall h (.of_boot (fun _ _ => trivial) rfl hcalls)).tiled
  have hfirst : (0x80920000, SLAB_ORDER) ∈ h.pieces :=
    List.mem_append_right _ (List.mem_append_left _ (List.mem_map_of_mem hslab))
  have hsecond : (0x80928000, 2) ∈ h.pieces :=
    List.mem_append_right _ (List.mem_append_right _ hblock)
  have heq := htiled.eq_of_mem hfirst hsecond (x := 0x80928000) (by decide) (mem_start _)
  exact absurd heq (by decide)

end NoobKernel.Mm
