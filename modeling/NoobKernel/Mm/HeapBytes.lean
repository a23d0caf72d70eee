import NoobKernel.Mm.HeapSpec

set_option autoImplicit false

/-! # Where the data of the heap lies

The model keeps slab headers, `mem_block`s and the memory of the users apart from each other; in
the memory of the machine they lie next to each other. While no object reaches into the next blob,
their bytes have nothing in common (`HeapGood.separate`): nobody who writes to his own memory
changes the data of the allocator or of another user. The last object of a slab is the only one
that may reach into the next blob, and does so in the classes of 24 and 48 bytes (`inBlob_iff`).
-/

namespace NoobKernel.Mm

open Misc Exec
open Dyadic hiding Mem

variable {E : Type} {lay : Layout} {P : Holding} {k : Kernel E} {A : List Block}
  {S : List Entry} {c x : Nat}

/-- Ranges of bytes, given by begin and end, that have none in common. -/
def Separate (r r' : Nat × Nat) : Prop := r.2 ≤ r'.1 ∨ r'.2 ≤ r.1

theorem Separate.symm {r r' : Nat × Nat} (h : Separate r r') : Separate r' r := Or.symm h

/-- The header of a slab, with its bitmap. -/
def headerRange (k : Kernel E) (s : Nat) : Nat × Nat :=
  (s, s + (sizeofSlab + slabBitmapSize (k.slabs s).total))

def objectRange (o : Nat × Nat) : Nat × Nat := (o.2, o.2 + classSize o.1)

def blockRange (b : Block) : Nat × Nat := (b.1, b.1 + PAGE_SIZE <<< b.2)

/-- The `mem_block`s of the blocks that are free or held, and the objects of the users. -/
def cells (k : Kernel E) (S : List Entry) (objects : List (Nat × Nat)) : List (Nat × Nat) :=
  (ptrs k S).map (fun p => (memBlockPool, p)) ++ objects

/-- What holds data: the headers of the slabs, the `mem_block`s, the objects and the blocks. -/
def heapRanges (k : Kernel E) (S : List Entry) (objects : List (Nat × Nat)) (blocks : List Block) :
    List (Nat × Nat) :=
  (ownedBlobs k KALLOC_MEM_POOL_NUM).map (headerRange k)
    ++ ((cells k S objects).map objectRange ++ blocks.map blockRange)

/-! ## Objects in their slabs -/

theorem classSize_le {c : Nat} (hc : c < KALLOC_MEM_POOL_NUM) :
    classSize c ≤ cacheAllocSize (classSize c) := by
  revert c
  decide

/-- The objects of a slab begin behind its bitmap. -/
theorem header_le {c : Nat} (hc : c < KALLOC_MEM_POOL_NUM) :
    sizeofSlab + slabBitmapSize (slabCapacity (classSize c)) ≤ slabStart (classSize c) := by
  revert c
  decide

theorem mod_objectAt {s i : Nat} (hs : SLAB_BLOB_SIZE ∣ s) (us : Usable (classSize c))
    (hi : i < slabCapacity (classSize c)) : objectAt (classSize c) s i % SLAB_BLOB_SIZE
      = slabStart (classSize c) + i * cacheAllocSize (classSize c) := by
  obtain ⟨q, rfl⟩ := hs
  rw [objectAt, Nat.mul_add_mod, Nat.mod_eq_of_lt (us.object_lt hi)]

/-- **Only the last object** of a slab of 24 or 48 bytes reaches into the next blob. -/
theorem inBlob_iff {s i : Nat} (hc : c < KALLOC_MEM_POOL_NUM) (hs : SLAB_BLOB_SIZE ∣ s)
    (hi : i < slabCapacity (classSize c)) : InBlob c (objectAt (classSize c) s i)
      ↔ ¬((classSize c = 24 ∨ classSize c = 48) ∧ i + 1 = slabCapacity (classSize c)) := by
  have hfits : ∀ c < KALLOC_MEM_POOL_NUM, classSize c ≠ 24 ∧ classSize c ≠ 48 →
      slabStart (classSize c) + (slabCapacity (classSize c) - 1) * cacheAllocSize (classSize c)
        + classSize c ≤ SLAB_BLOB_SIZE := by decide
  have hmisfits : ∀ c < KALLOC_MEM_POOL_NUM, classSize c = 24 ∨ classSize c = 48 →
      SLAB_BLOB_SIZE < slabStart (classSize c)
        + (slabCapacity (classSize c) - 1) * cacheAllocSize (classSize c) + classSize c := by decide
  have us := usable_class hc
  have hle := classSize_le hc
  rw [InBlob, mod_objectAt hs us hi]
  constructor
  · rintro hin ⟨hsize, hlast⟩
    have hout := hmisfits c hc hsize
    rw [← hlast, Nat.add_sub_cancel] at hout
    exact absurd hin (Nat.not_le.mpr hout)
  · intro hnot
    rcases Nat.lt_or_ge (i + 1) (slabCapacity (classSize c)) with hlt | hge
    · -- another object follows in the blob
      have hnext := us.object_lt hlt
      rw [Nat.succ_mul] at hnext
      omega
    · have hlast : i + 1 = slabCapacity (classSize c) := Nat.le_antisymm hi hge
      have hin := hfits c hc (not_or.mp fun hsize => hnot ⟨hsize, hlast⟩)
      rwa [← hlast, Nat.add_sub_cancel] at hin

/-- An object in use that does not reach into the next blob. -/
structure InSlab (k : Kernel E) (o : Nat × Nat) : Prop where
  cache : o.1 < KALLOC_MEM_POOL_NUM
  inUse : ObjectInUse k o.1 o.2
  inBlob : InBlob o.1 o.2

section

variable (ok : HeapOk lay P k A) (hclasses : P.classes = KALLOC_MEM_POOL_NUM)

include ok hclasses

/-- The bytes of an object lie between the bitmap of its slab and the end of the blob. -/
theorem InSlab.slab {o : Nat × Nat} (h : InSlab k o) : ∃ s ∈ (k.caches o.1).slabs,
    SLAB_BLOB_SIZE ∣ s ∧ (∃ i, o.2 = objectAt (classSize o.1) s i)
      ∧ (headerRange k s).2 ≤ o.2 ∧ o.2 + classSize o.1 ≤ s + SLAB_BLOB_SIZE := by
  obtain ⟨hc, ⟨s, hs, i, hi, hx, -⟩, hin⟩ := h
  have hcache := ok.cache o.1 (hclasses ▸ hc)
  have hdvd := hcache.aligned s hs
  have htotal := (hcache.slab s hs).total
  have hheader := header_le hc
  rw [InBlob, hx, mod_objectAt hdvd (usable_class hc) hi] at hin
  refine ⟨s, hs, hdvd, ⟨i, hx⟩, ?_, ?_⟩
  · rw [headerRange, htotal, hx, objectAt]
    omega
  · rw [hx, objectAt]
    omega

/-- Different objects lie next to each other. -/
theorem InSlab.separate {o o' : Nat × Nat} (h : InSlab k o) (h' : InSlab k o')
    (hne : o.2 ≠ o'.2) : Separate (objectRange o) (objectRange o') := by
  obtain ⟨s, hs, hdvd, ⟨i, hi⟩, hheader, hend⟩ := h.slab ok hclasses
  obtain ⟨s', hs', hdvd', ⟨i', hi'⟩, hheader', hend'⟩ := h'.slab ok hclasses
  have hblob : SLAB_BLOB_SIZE = 65536 := rfl
  unfold Separate objectRange headerRange at *
  dsimp only at *
  by_cases heq : s = s'
  · subst heq
    have hclass : o.1 = o'.1 :=
      owned_unique ok.distinct (hclasses ▸ h.cache) (hclasses ▸ h'.cache) hs hs'
    have hle := classSize_le h.cache
    rw [hi, hi', ← hclass] at hne ⊢
    rw [objectAt, objectAt] at hne ⊢
    -- objects of a slab follow each other
    rcases Nat.lt_trichotomy i i' with hlt | rfl | hlt
    · have := Nat.mul_le_mul_right (cacheAllocSize (classSize o.1)) (Nat.succ_le_of_lt hlt)
      rw [Nat.succ_mul] at this
      omega
    · exact absurd rfl hne
    · have := Nat.mul_le_mul_right (cacheAllocSize (classSize o.1)) (Nat.succ_le_of_lt hlt)
      rw [Nat.succ_mul] at this
      omega
  · obtain ⟨q, rfl⟩ := hdvd
    obtain ⟨q', rfl⟩ := hdvd'
    rw [hblob] at *
    omega

/-- The bitmap of a slab ends in the blob. -/
theorem HeapOk.header_slab {s : Nat} (hs : s ∈ ownedBlobs k KALLOC_MEM_POOL_NUM) :
    SLAB_BLOB_SIZE ∣ s ∧ (headerRange k s).2 ≤ s + SLAB_BLOB_SIZE := by
  obtain ⟨c, hc, hsc⟩ := mem_ownedBlobs.mp hs
  have hcache := ok.cache c (hclasses ▸ hc)
  have hheader := header_le hc
  have hbegins := (usable_class hc).begins
  rw [headerRange, (hcache.slab s hsc).total]
  exact ⟨hcache.aligned s hsc, by dsimp only; omega⟩

theorem InSlab.header {o : Nat × Nat} (h : InSlab k o) {s : Nat}
    (hs : s ∈ ownedBlobs k KALLOC_MEM_POOL_NUM) :
    Separate (headerRange k s) (objectRange o) := by
  obtain ⟨s', -, hdvd', -, hheader', hend'⟩ := h.slab ok hclasses
  obtain ⟨hdvd, hend⟩ := ok.header_slab hclasses hs
  have hblob : SLAB_BLOB_SIZE = 65536 := rfl
  unfold Separate objectRange headerRange at *
  dsimp only at *
  by_cases heq : s = s'
  · subst heq
    exact Or.inl hheader'
  · obtain ⟨q, rfl⟩ := hdvd
    obtain ⟨q', rfl⟩ := hdvd'
    rw [hblob] at *
    omega

end

/-! ## The early heap -/

/-- A `mem_block` of the early heap. -/
structure EarlySlot (lay : Layout) (o : Nat × Nat) : Prop where
  pool : o.1 = memBlockPool
  slot : sizeofMemBlock ∣ o.2 - lay.EARLY_HEAP_BASE
  ge : lay.EARLY_HEAP_BASE ≤ o.2
  le : o.2 + sizeofMemBlock ≤ lay.EARLY_HEAP_END

theorem classSize_memBlock : classSize memBlockPool = sizeofMemBlock := by decide

theorem EarlySlot.range {o : Nat × Nat} (h : EarlySlot lay o) :
    objectRange o = (o.2, o.2 + sizeofMemBlock) := by
  rw [objectRange, h.pool, classSize_memBlock]

/-- The early heap lies below the buddy system. -/
theorem EarlySlot.below {o : Nat × Nat} (h : EarlySlot lay o) {r : Nat × Nat}
    (hr : lay.BUDDY_SYSTEM_BASE ≤ r.1) : Separate (objectRange o) r := by
  rw [h.range]
  exact Or.inl ((h.le.trans lay.EARLY_HEAP_END_le_BASE).trans hr)

theorem EarlySlot.separate {o o' : Nat × Nat} (h : EarlySlot lay o) (h' : EarlySlot lay o')
    (hne : o.2 ≠ o'.2) : Separate (objectRange o) (objectRange o') := by
  obtain ⟨q, hq⟩ := h.slot
  obtain ⟨q', hq'⟩ := h'.slot
  have hge := h.ge
  have hge' := h'.ge
  have hsize : sizeofMemBlock = 24 := rfl
  rw [h.range, h'.range, Separate, hsize]
  rw [hsize] at hq hq'
  dsimp only
  omega

/-! ## All of the heap -/

/-- Ranges in blocks that have no number in common. -/
theorem separate_of_apart {b b' : Block} (h : Apart PAGE_SHIFT b b') :
    b.1 + size PAGE_SHIFT b.2 ≤ b'.1 ∨ b'.1 + size PAGE_SHIFT b'.2 ≤ b.1 := by
  rcases Nat.le_total b.1 b'.1 with hle | hle
  · refine Or.inl (Nat.not_lt.mp fun hlt => ?_)
    exact h b'.1 ⟨hle, hlt⟩ (mem_start b')
  · refine Or.inr (Nat.not_lt.mp fun hlt => ?_)
    exact h b.1 (mem_start b) ⟨hle, hlt⟩

section

variable (good : HeapGood lay P k A S)

include good

theorem HeapGood.blocks_separate : (P.blocks.map blockRange).Pairwise Separate := by
  have hpair := (good.owns.heap.handed.pairwise_iff Apart.symm).mp
    (List.pairwise_append.mp good.inv.records.tiles.apart).2.1
  refine List.pairwise_map.mpr ((List.pairwise_append.mp hpair).2.1.imp fun hapart => ?_)
  have hsep := separate_of_apart hapart
  rwa [size_eq, size_eq] at hsep

theorem HeapGood.cells_nodup : ((cells k S P.objects).map Prod.snd).Nodup := by
  have cl := good.owns.clients
  have hptrs : (ptrs k S).Nodup := good.inv.records.nodup
  rw [cells, List.map_append, List.map_map]
  refine List.nodup_append.mpr ⟨?_, cl.nodup, ?_⟩
  · simpa using hptrs
  · rintro p hp q hq rfl
    obtain ⟨o, ho, rfl⟩ := List.mem_map.mp hq
    exact cl.apart o ho (by simpa using hp)

variable (hclasses : P.classes = KALLOC_MEM_POOL_NUM)

include hclasses

theorem HeapGood.header_ge {s : Nat} (hs : s ∈ ownedBlobs k KALLOC_MEM_POOL_NUM) :
    lay.BUDDY_SYSTEM_BASE ≤ s :=
  (good.owns.heap.region s (hclasses ▸ hs)).1

theorem HeapGood.headers_separate :
    ((ownedBlobs k KALLOC_MEM_POOL_NUM).map (headerRange k)).Pairwise Separate := by
  have ok := good.owns.heap
  have hnodup : (ownedBlobs k KALLOC_MEM_POOL_NUM).Nodup := hclasses ▸ ok.distinct
  refine List.pairwise_map.mpr (hnodup.imp_of_mem fun {s s'} hs hs' hne => ?_)
  obtain ⟨⟨q, rfl⟩, hend⟩ := ok.header_slab hclasses hs
  obtain ⟨⟨q', rfl⟩, hend'⟩ := ok.header_slab hclasses hs'
  have hblob : SLAB_BLOB_SIZE = 65536 := rfl
  unfold Separate headerRange at *
  dsimp only at *
  rw [hblob] at hne hend hend' ⊢
  omega

/-- What lies in a blob of a slab is apart from the blocks of the users. -/
theorem HeapGood.blob_block {s : Nat} (hs : s ∈ ownedBlobs k KALLOC_MEM_POOL_NUM) {b : Block}
    (hb : b ∈ P.blocks) {r : Nat × Nat} (hlo : s ≤ r.1) (hhi : r.2 ≤ s + SLAB_BLOB_SIZE) :
    Separate r (blockRange b) := by
  have hsep := separate_of_apart
    (good.owns.heap.block_apart good.inv hb (hclasses ▸ hs))
  rw [size_eq, size_eq] at hsep
  exact hsep.imp hhi.trans fun h => h.trans hlo

theorem HeapGood.cell {o : Nat × Nat} (hfits : ∀ c x, P.fits c x → InBlob c x)
    (ho : o ∈ cells k S P.objects) : EarlySlot lay o ∨ InSlab k o := by
  have ok := good.owns.heap
  have cl := good.owns.clients
  rcases List.mem_append.mp ho with ho | ho
  · obtain ⟨p, hp, rfl⟩ := List.mem_map.mp ho
    rcases cl.mem p hp with hearly | ⟨hc, huse⟩
    · obtain ⟨q, hq⟩ := cl.slot p hp (hearly.2.trans_le ok.brk_le)
      obtain ⟨q', hq'⟩ := ok.brk_slot
      refine Or.inl ⟨rfl, ⟨q, hq⟩, hearly.1, ?_⟩
      have hbrk := ok.brk_le
      have hge := ok.brk_ge
      have hsize : sizeofMemBlock = 24 := rfl
      rw [hsize] at hq hq' ⊢
      dsimp only
      omega
    · have hregion := (ok.object_region hc huse).1
      refine Or.inr ⟨hclasses ▸ hc, huse, hfits _ _ ?_⟩
      exact cl.memFits p hp (lay.EARLY_HEAP_END_le_BASE.trans hregion)
  · obtain ⟨hc, huse⟩ := cl.object o ho
    exact Or.inr ⟨hclasses ▸ hc, huse, hfits _ _ (cl.objectFits o ho)⟩

/-- **The data of the heap** lies in ranges of bytes that have none in common. -/
theorem HeapGood.separate (hfits : ∀ c x, P.fits c x → InBlob c x) :
    (heapRanges k S P.objects P.blocks).Pairwise Separate := by
  have ok := good.owns.heap
  have hcell := fun {o} => good.cell hclasses (o := o) hfits
  have hblock_ge : ∀ b ∈ P.blocks, lay.BUDDY_SYSTEM_BASE ≤ b.1 := fun b hb =>
    (ok.block_page good.inv hb).1.2.1
  refine List.pairwise_append.mpr ⟨good.headers_separate hclasses,
    List.pairwise_append.mpr ⟨?_, good.blocks_separate, ?_⟩, ?_⟩
  · -- two cells
    refine List.pairwise_map.mpr ((List.pairwise_map.mp good.cells_nodup).imp_of_mem ?_)
    intro o o' ho ho' hne
    rcases hcell ho with h | h <;> rcases hcell ho' with h' | h'
    · exact h.separate h' hne
    · exact h.below (ok.object_region (hclasses ▸ h'.cache) h'.inUse).1
    · exact (h'.below (ok.object_region (hclasses ▸ h.cache) h.inUse).1).symm
    · exact h.separate ok hclasses h' hne
  · -- a cell and a block
    intro r hr r' hr'
    obtain ⟨o, ho, rfl⟩ := List.mem_map.mp hr
    obtain ⟨b, hb, rfl⟩ := List.mem_map.mp hr'
    rcases hcell ho with h | h
    · exact h.below (hblock_ge b hb)
    · obtain ⟨s, hs, -, -, hheader, hend⟩ := h.slab ok hclasses
      refine good.blob_block hclasses (mem_ownedBlobs.mpr ⟨_, h.cache, hs⟩) hb ?_ hend
      exact (Nat.le_add_right _ _).trans hheader
  · -- a header and another range
    intro r hr r' hr'
    obtain ⟨s, hs, rfl⟩ := List.mem_map.mp hr
    rcases List.mem_append.mp hr' with hr' | hr'
    · obtain ⟨o, ho, rfl⟩ := List.mem_map.mp hr'
      rcases hcell ho with h | h
      · exact (h.below (good.header_ge hclasses hs)).symm
      · exact h.header ok hclasses hs
    · obtain ⟨b, hb, rfl⟩ := List.mem_map.mp hr'
      exact good.blob_block hclasses hs hb (le_refl s) (ok.header_slab hclasses hs).2

end

end NoobKernel.Mm
