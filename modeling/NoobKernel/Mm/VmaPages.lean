import NoobKernel.Mm.PageTableErrors
import NoobKernel.Mm.Vma

set_option autoImplicit false

/-! # New VMAs and their pages (`mm/vma.c`)

`vma_create` refuses every area: its two tests of the type are joined by an "or" and point away
from each other's bounds, so that no `int` passes both. `vma_map_pages` marks pages as mapped with
the physical address 0, which `mappages` advances with every page, and leaves out the last page of a
length that is no multiple of `PAGE_SIZE`: what it maps is lazy exactly for a single page
(`vmaMapPages_lazy_iff`).
-/

namespace NoobKernel.Mm

open Misc

def VM_START : Nat := 0

def VMA_TYPE_START : Int := 0
def VMA_ANON : Int := 0
def VMA_FILE : Int := 1
def VMA_STACK : Int := 2
def VMA_DEV : Int := 3
def VMA_TYPE_END : Int := 3

/-- `kzalloc` is where `kzalloc` finds memory. -/
def vmaCreate (kzalloc : Option Addr) (start length : UInt64) (perm type : Int) :
    Option (Addr × Vma) :=
  if start < UInt64.ofNat VM_START ∨ UInt64.ofNat VM_END ≤ start + length
      ∨ VMA_TYPE_START ≤ type ∨ type ≤ VMA_TYPE_END then none
  else kzalloc.map fun a => (a, ⟨start, length, perm, type⟩)

/-- The lazy mapping: the physical address is 0. -/
def vmaMapPages (alloc : List Nat → Nat) (m : PtMem) (pagetable : Nat) (v : Vma) :
    Option Int × PtMem :=
  mappages alloc m pagetable v.start.toNat 0 (v.length.toNat / PAGE_SIZE) (BitVec.ofInt 32 v.perm)

/-! ## Creation -/

/-- The area ends below `VM_END`, and its type is one of the four. -/
def ValidArea (start length : UInt64) (type : Int) : Prop :=
  start.toNat + length.toNat < VM_END ∧ type ∈ [VMA_ANON, VMA_FILE, VMA_STACK, VMA_DEV]

instance (start length : UInt64) (type : Int) : Decidable (ValidArea start length type) :=
  inferInstanceAs (Decidable (_ ∧ _))

/-- A valid area becomes a VMA, and any other is refused. -/
def AcceptsValid (a : Addr) (start length : UInt64) (perm type : Int) : Prop :=
  vmaCreate (some a) start length perm type
    = if ValidArea start length type then some (a, ⟨start, length, perm, type⟩) else none

/-- No type passes both tests. -/
theorem vmaCreate_eq_none (kzalloc : Option Addr) (start length : UInt64) (perm type : Int) :
    vmaCreate kzalloc start length perm type = none := by
  have htype : VMA_TYPE_START ≤ type ∨ type ≤ VMA_TYPE_END := by
    rw [VMA_TYPE_START, VMA_TYPE_END]
    omega
  rw [vmaCreate, if_pos (.inr (.inr htype))]

/-- **`vma_create` is right exactly for the areas that are not valid.** -/
theorem acceptsValid_iff (a : Addr) (start length : UInt64) (perm type : Int) :
    AcceptsValid a start length perm type ↔ ¬ValidArea start length type := by
  rw [AcceptsValid, vmaCreate_eq_none]
  constructor
  · intro h hvalid
    rw [if_pos hvalid] at h
    cases h
  · intro hinvalid
    rw [if_neg hinvalid]

/-- A page of anonymous memory. -/
theorem not_acceptsValid : ¬AcceptsValid 0x80400000 0x1000 0x1000 7 VMA_ANON := by
  rw [acceptsValid_iff, not_not]
  decide

/-! ## Lazy mapping -/

/-- The leaf of the address is marked as mapped, is not valid, and names no frame. -/
structure LazilyMapped (m : PtMem) (root va : Nat) : Prop where
  marked : leaf m root va &&& PTE_M ≠ 0
  invalid : leaf m root va &&& PTE_V = 0
  noFrame : walkaddr m root va = 0

variable {alloc : List Nat → Nat} {root va pa npages : Nat} {m : PtMem} {v : Vma}

/-- A call that returns 0 has passed the checks. -/
theorem not_rejected_of_zero {perm : BitVec 32}
    (h : (mappages alloc m root va pa npages perm).1 = some 0) : ¬Rejected va pa npages := by
  intro hrej
  unfold mappages at h
  split at h
  · exact absurd (Option.some.inj h) (by decide)
  split at h
  · exact absurd (Option.some.inj h) (by decide)
  rename_i haligned
  rw [Bool.or_eq_true, not_or, Bool.not_eq_true', Bool.not_eq_true'] at haligned
  rcases hrej with hva | hpa | ⟨hn, hrange⟩
  · exact haligned.1 hva
  · exact haligned.2 hpa
  rw [if_neg hn] at h
  split at h
  · exact absurd (Option.some.inj h) (by decide)
  rename_i hvm
  rw [if_pos (hrange.resolve_left hvm)] at h
  exact absurd (Option.some.inj h) (by decide)

theorem PTE_V_leafPte {perm : Nat} (h : perm &&& PTE_V = 0) : leafPte 0 perm 0 &&& PTE_V = 0 := by
  have hzero : PA2PTE (0 + 0 * PAGE_SIZE) = 0 := rfl
  have hm : PTE_M &&& PTE_V = 0 := rfl
  rw [leafPte, hzero, Nat.zero_or, Nat.and_or_distrib_right, h, hm, Nat.or_zero]

/-- A successful call for a VMA whose range was not mapped. -/
structure LazyCall (alloc : List Nat → Nat) (root : Nat) (m : PtMem) (v : Vma) : Prop where
  proper : v.Proper
  built : Built alloc root m
  unmapped : ∀ va ∈ v.range, mapped m root va = false
  fresh : Fresh (vmaMapPages alloc m root v).2.log
  zero : (vmaMapPages alloc m root v).1 = some 0

namespace LazyCall

/-- What the checks have let through. -/
theorem bounds (h : LazyCall alloc root m v) (hn : v.length.toNat / PAGE_SIZE ≠ 0) :
    v.start.toNat % PAGE_SIZE = 0
      ∧ v.start.toNat + v.length.toNat / PAGE_SIZE * PAGE_SIZE ≤ VM_END
      ∧ 0 + v.length.toNat / PAGE_SIZE * PAGE_SIZE ≤ PM_END := by
  have hpass := not_rejected_of_zero h.zero
  have hproper := h.proper.2
  have hle := Nat.div_mul_le_self v.length.toNat PAGE_SIZE
  simp only [Rejected, not_or, not_and_or, not_not, Nat.not_lt] at hpass
  obtain ⟨hva, -, hrange⟩ := hpass
  obtain ⟨hvm, hpm⟩ := hrange.resolve_left hn
  rw [Nat.mod_eq_of_lt (by omega)] at hvm hpm
  exact ⟨(PAGE_ALIGNED_iff _).mp (Bool.eq_true_of_not_eq_false hva), hvm, hpm⟩

/-- The leaves of its pages. -/
theorem leaf_page (h : LazyCall alloc root m v) {k off : Nat}
    (hk : k < v.length.toNat / PAGE_SIZE) (hoff : off < PAGE_SIZE) :
    v.start.toNat + k * PAGE_SIZE + off < VM_END
      ∧ leaf (vmaMapPages alloc m root v).2 root (v.start.toNat + k * PAGE_SIZE + off)
        = leafPte 0 (BitVec.ofInt 32 v.perm &&& 0x3f).toNat k := by
  have hsize : PAGE_SIZE = 4096 := rfl
  obtain ⟨hva, hvm, hpm⟩ := h.bounds (by omega)
  obtain ⟨path, shape⟩ := h.built.shape (h.fresh.of_prefix (mappages_log _ _ _ _ _ _ _))
  have hunmapped : ∀ i < v.length.toNat / PAGE_SIZE,
      mapped m root (v.start.toNat + i * PAGE_SIZE) = false := by
    intro i hi
    refine h.unmapped _ ⟨Nat.le_add_right _ _, ?_⟩
    rw [hsize] at hi ⊢
    show v.start.toNat + i * 4096 < v.start.toNat + v.length.toNat
    omega
  obtain ⟨-, m', hrun, -, hleaf⟩ := mappages_leaf shape hva rfl hvm hpm hunmapped h.fresh
  have ha : v.start.toNat + k * PAGE_SIZE + off < VM_END := by
    rw [hsize] at hk hoff hvm ⊢
    omega
  have hdiv : (v.start.toNat + k * PAGE_SIZE + off) / PAGE_SIZE = v.start.toNat / PAGE_SIZE + k := by
    rw [hsize] at hva hoff ⊢
    omega
  have hm' : (vmaMapPages alloc m root v).2 = m' := congrArg Prod.snd hrun
  rw [hm', hleaf _ ha, hdiv, if_pos (by omega), Nat.add_sub_cancel_left]
  exact ⟨ha, rfl⟩

/-- Behind its pages nothing is mapped. -/
theorem leaf_behind (h : LazyCall alloc root m v) {va : Nat} (hva : va ∈ v.range)
    (hbehind : v.start.toNat + v.length.toNat / PAGE_SIZE * PAGE_SIZE ≤ va) :
    leaf (vmaMapPages alloc m root v).2 root va &&& PTE_M = 0 := by
  have hsize : PAGE_SIZE = 4096 := rfl
  have hend : VM_END = 2 ^ 38 := rfl
  have hunmapped := h.unmapped va hva
  rw [mapped_eq, decide_eq_false_iff_not, not_not] at hunmapped
  obtain ⟨path, shape⟩ := h.built.shape (h.fresh.of_prefix (mappages_log _ _ _ _ _ _ _))
  have hroot := (h.fresh.of_prefix (mappages_log _ _ _ _ _ _ _)).ne_zero _ shape.root_mem
  have hrun : vmaMapPages alloc m root v = _ :=
    mappages_of_not_rejected hroot (not_rejected_of_zero h.zero) _
  have hfresh := h.fresh
  rw [hrun] at hfresh ⊢
  rcases mappagesFrom_leaf shape hfresh va with ⟨hsame, -⟩ | ⟨-, w, hw, hkey, -⟩
  · rw [hsame, hunmapped]
  · -- the page written is another one, also where the address reaches `VM_END`
    obtain ⟨k, -, hk, rfl⟩ := mem_mappagesWrites hw
    obtain ⟨hstart, hvm, -⟩ := h.bounds (by omega)
    have hhi : va < v.start.toNat + v.length.toNat := hva.2
    rw [hsize] at hk hbehind hstart hvm
    rw [hend] at hvm
    simp only [keyFrom, PX_eq, List.cons.injEq, and_true, hsize] at hkey
    omega

/-- **What `vma_map_pages` maps is lazy exactly on the first page**, which must be a whole one. -/
theorem lazy_iff (h : LazyCall alloc root m v)
    (hperm : (BitVec.ofInt 32 v.perm &&& 0x3f).toNat &&& PTE_V = 0) {va : Nat} (hva : va ∈ v.range) :
    LazilyMapped (vmaMapPages alloc m root v).2 root va
      ↔ PAGE_SIZE ≤ v.length.toNat ∧ va < v.start.toNat + PAGE_SIZE := by
  have hsize : PAGE_SIZE = 4096 := rfl
  have hmask : (BitVec.ofInt 32 v.perm &&& 0x3f).toNat < 2 ^ 6 := by
    rw [BitVec.toNat_and]
    exact Nat.lt_of_le_of_lt Nat.and_le_right (by decide)
  have hlo : v.start.toNat ≤ va := hva.1
  have hhi : va < v.start.toNat + v.length.toNat := hva.2
  obtain ⟨k, off, hoff, rfl⟩ : ∃ k off, off < PAGE_SIZE
      ∧ va = v.start.toNat + k * PAGE_SIZE + off := by
    refine ⟨(va - v.start.toNat) / PAGE_SIZE, (va - v.start.toNat) % PAGE_SIZE,
      Nat.mod_lt _ (by decide), ?_⟩
    rw [hsize]
    omega
  by_cases hk : k < v.length.toNat / PAGE_SIZE
  · -- the page has been mapped, with the physical address `k * PAGE_SIZE`
    obtain ⟨hlt, hleaf⟩ := h.leaf_page hk hoff
    have hproper := h.proper.2
    rw [hsize] at hk hoff hhi ⊢
    have hframe : walkaddr (vmaMapPages alloc m root v).2 root (v.start.toNat + k * PAGE_SIZE + off)
        = 0 + k * PAGE_SIZE := by
      rw [walkaddr_eq, hleaf, if_neg (Nat.not_le.mpr hlt), if_neg (leafPte_and _ _ _)]
      refine PTE2PA_leafPte ?_ rfl hmask
      rw [hsize]
      omega
    rw [hsize] at hleaf hframe
    constructor
    · intro hlazy
      have hzero := hlazy.noFrame
      rw [hframe] at hzero
      omega
    · rintro ⟨-, hfirst⟩
      obtain rfl : k = 0 := by omega
      refine ⟨?_, ?_, hframe⟩
      · rw [hleaf]
        exact leafPte_and _ _ _
      · rw [hleaf]
        exact PTE_V_leafPte hperm
  · -- the last page, of which the VMA has a part only
    have hle : v.start.toNat + v.length.toNat / PAGE_SIZE * PAGE_SIZE
        ≤ v.start.toNat + k * PAGE_SIZE + off := by
      rw [hsize] at hk hoff ⊢
      omega
    refine iff_of_false (fun hlazy => hlazy.marked (h.leaf_behind hva hle)) ?_
    rw [hsize] at hk hoff hhi ⊢
    omega

end LazyCall

/-- `perm` without `PTE_V` stays so under the mask of `mappages`. -/
theorem perm_invalid {perm : BitVec 32} (h : perm &&& 1 = 0) :
    (perm &&& 0x3f).toNat &&& PTE_V = 0 := by
  have hone : PTE_V = (1 : BitVec 32).toNat := rfl
  rw [hone, ← BitVec.toNat_and, BitVec.and_assoc, BitVec.and_comm (0x3f : BitVec 32),
    ← BitVec.and_assoc, h]
  rfl

/-- `vma_find` only goes by the range of a VMA, whatever the list. -/
theorem VmaSpace.range_of_find {s : VmaSpace} {va : UInt64} {fuel : Nat} {a : Addr}
    (h : s.find va fuel = some (some a)) : (s.vma a).Proper ∧ va.toNat ∈ (s.vma a).range := by
  unfold VmaSpace.find VmaSpace.loop at h
  rw [Option.map_map, Option.map_eq_some_iff] at h
  obtain ⟨pos, hscan, hpos⟩ := h
  obtain ⟨hjoin, hstart⟩ := Option.filter_eq_some_iff.mp hpos
  obtain rfl : pos = some (some a) := by
    cases pos with
    | none => cases hjoin
    | some n => exact congrArg some hjoin
  have hstop := Links.scan_some hscan
  simp only [Option.any_some, Bool.or_eq_true, decide_eq_true_eq, Bool.not_eq_true',
    decide_eq_false_iff_not] at hstop hstart
  have hend := hstop.resolve_left hstart
  rw [UInt64.lt_iff_toNat_lt] at hstart
  rw [UInt64.lt_iff_toNat_lt, UInt64.toNat_add] at hend
  have hlength := (s.vma a).length.toNat_lt
  refine ⟨⟨?_, ?_⟩, ?_, ?_⟩
  · omega
  · omega
  · show (s.vma a).start.toNat ≤ _
    omega
  · show _ < (s.vma a).start.toNat + (s.vma a).length.toNat
    omega

/-- **Lazy mapping.** After a successful `vma_map_pages`, what `vma_find` attributes to the VMA is
lazily mapped exactly when all of it lies on the first page and that is a whole one. In the lists
that `vma_insert` and `vma_remove` keep, this is a length of `PAGE_SIZE`. -/
theorem vmaMapPages_lazy_iff {s : VmaSpace} {a : Addr} {fuel : Nat} (built : Built alloc root m)
    (unmapped : ∀ va ∈ (s.vma a).range, mapped m root va = false)
    (hperm : BitVec.ofInt 32 (s.vma a).perm &&& 1 = 0)
    (fresh : Fresh (vmaMapPages alloc m root (s.vma a)).2.log)
    (hzero : (vmaMapPages alloc m root (s.vma a)).1 = some 0) :
    ((∀ va : UInt64, s.find va fuel = some (some a) →
        LazilyMapped (vmaMapPages alloc m root (s.vma a)).2 root va.toNat)
      ↔ ∀ va : UInt64, s.find va fuel = some (some a) →
          PAGE_SIZE ≤ (s.vma a).length.toNat ∧ va.toNat < (s.vma a).start.toNat + PAGE_SIZE)
      ∧ ∀ xs, s.Holds xs → a ∈ xs → xs.length < fuel →
        ((∀ va : UInt64, s.find va fuel = some (some a) →
            LazilyMapped (vmaMapPages alloc m root (s.vma a)).2 root va.toNat)
          ↔ (s.vma a).length.toNat = PAGE_SIZE) := by
  have hlazy : ∀ va : UInt64, s.find va fuel = some (some a) →
      (LazilyMapped (vmaMapPages alloc m root (s.vma a)).2 root va.toNat
        ↔ PAGE_SIZE ≤ (s.vma a).length.toNat ∧ va.toNat < (s.vma a).start.toNat + PAGE_SIZE) := by
    intro va hva
    obtain ⟨hproper, hrange⟩ := VmaSpace.range_of_find hva
    exact LazyCall.lazy_iff ⟨hproper, built, unmapped, fresh, hzero⟩ (perm_invalid hperm) hrange
  have hall := forall₂_congr hlazy
  refine ⟨hall, fun xs hxs hmem hfuel => hall.trans ?_⟩
  obtain ⟨hpos, hwrap⟩ := hxs.proper a hmem
  have hfind : ∀ va : Nat, va ∈ (s.vma a).range →
      s.find (UInt64.ofNat va) fuel = some (some a) ∧ (UInt64.ofNat va).toNat = va := by
    intro va hva
    have htoNat : (UInt64.ofNat va).toNat = va := UInt64.toNat_ofNat_of_lt' (hva.2.trans hwrap)
    obtain ⟨r, hr, hiff⟩ := hxs.find (UInt64.ofNat va) hfuel
    rw [hr, (hiff a).mpr ⟨hmem, by rwa [htoNat]⟩]
    exact ⟨rfl, htoNat⟩
  constructor
  · intro h
    obtain ⟨hfirst, htoNat⟩ := hfind (s.vma a).start.toNat ⟨le_refl _, Nat.lt_add_of_pos_right hpos⟩
    have hlong := (h _ hfirst).1
    by_contra hne
    -- a longer VMA has an address behind the first page
    obtain ⟨hsecond, htoNat'⟩ := hfind ((s.vma a).start.toNat + PAGE_SIZE)
      ⟨Nat.le_add_right _ _, Nat.add_lt_add_left (Nat.lt_of_le_of_ne hlong (Ne.symm hne)) _⟩
    have hlt := (h _ hsecond).2
    rw [htoNat'] at hlt
    exact Nat.lt_irrefl _ hlt
  · intro hlen va hva
    have hhi := (VmaSpace.range_of_find hva).2.2
    exact ⟨hlen.ge, hlen ▸ hhi⟩

/-- The table of a process that has nothing mapped. -/
def emptyTable : PtMem := (pagetableCreate bumpAlloc ⟨fun _ _ => 0, []⟩).2

theorem built_emptyTable : Built bumpAlloc 0x80400000 emptyTable := by
  have hroot : (pagetableCreate bumpAlloc ⟨fun _ _ => 0, []⟩).1 = 0x80400000 := by decide
  exact .create (Prod.ext hroot rfl)

theorem mapped_emptyTable (va : Nat) : mapped emptyTable 0x80400000 va = false := by
  have hload : emptyTable.load (0x80400000, PX 2 va) = 0 := by
    have htab : emptyTable.tab = Function.update (fun _ _ => 0) 0x80400000 fun _ => 0 := by
      rw [emptyTable, pagetableCreate, kzalloc, if_neg (by decide)]
      rfl
    rw [PtMem.load, htab, Function.update_self]
  rw [mapped, va2pte, va2pteFrom]
  simp [hload]

/-- One VMA of the length, readable and writable. -/
def oneArea (length : UInt64) : List VmaOp :=
  [.foreign 64 none none ⟨0x5000, length, 6, 0⟩, .insert 64]

/-- The VMA is in the list, and the two tables for its pages are new. -/
theorem oneArea_spec {length : UInt64} (hlength : length = 0x1000 ∨ length = 0x2000) :
    ∃ s, Lts.Run (Lts.Steps VmaMachine.next VmaOp.Ok)
        ⟨⟨(Links.mk id id).init none, fun _ => ⟨0, 0, 0, 0⟩⟩, []⟩ (oneArea length) s
      ∧ 64 ∈ s.inserted ∧ s.space.vma 64 = ⟨0x5000, length, 6, 0⟩
      ∧ Fresh (vmaMapPages bumpAlloc emptyTable 0x80400000 ⟨0x5000, length, 6, 0⟩).2.log
      ∧ (vmaMapPages bumpAlloc emptyTable 0x80400000 ⟨0x5000, length, 6, 0⟩).1 = some 0 := by
  have hrun : ∀ n : UInt64, n = 0x1000 ∨ n = 0x2000 →
      ∃ s, Lts.exec VmaMachine.next VmaOp.Ok
          ⟨⟨(Links.mk id id).init none, fun _ => ⟨0, 0, 0, 0⟩⟩, []⟩ (oneArea n) = some s
        ∧ 64 ∈ s.inserted ∧ s.space.vma 64 = ⟨0x5000, n, 6, 0⟩ := by
    rintro n (rfl | rfl)
    · exact ⟨_, rfl, by decide, rfl⟩
    · exact ⟨_, rfl, by decide, rfl⟩
  obtain ⟨s, hs, hmem, hvma⟩ := hrun length hlength
  refine ⟨s, Lts.run_of_exec hs, hmem, hvma, ?_, ?_⟩
  · have hlog : (vmaMapPages bumpAlloc emptyTable 0x80400000 ⟨0x5000, length, 6, 0⟩).2.log
        = [0x80400000, 0x80401000, 0x80402000] := by
      rcases hlength with rfl | rfl <;> decide
    rw [hlog]
    exact ⟨by decide, by decide, by decide, by decide⟩
  · rcases hlength with rfl | rfl <;> decide

/-- A VMA of one page. -/
theorem vmaMapPages_lazy_page :
    ∃ s : VmaMachine, 64 ∈ s.inserted
      ∧ ∀ va : UInt64, s.space.find va (s.inserted.length + 1) = some (some 64) →
          LazilyMapped (vmaMapPages bumpAlloc emptyTable 0x80400000 (s.space.vma 64)).2 0x80400000
            va.toNat := by
  obtain ⟨s, run, hmem, hvma, hfresh, hzero⟩ := oneArea_spec (.inl rfl)
  rw [← hvma] at hfresh hzero
  obtain ⟨xs, hperm, hxs⟩ := vma_list_holds run
  refine ⟨s, hmem, ((vmaMapPages_lazy_iff built_emptyTable (fun va _ => mapped_emptyTable va) ?_
    hfresh hzero).2 xs hxs (hperm.mem_iff.mpr hmem) ?_).mpr ?_⟩
  · rw [hvma]
    decide
  · rw [hperm.length_eq]
    exact Nat.lt_succ_self _
  · rw [hvma]
    decide

/-- The second page of a VMA of two pages names the frame at `PAGE_SIZE`. -/
theorem not_vmaMapPages_lazy :
    ∃ s : VmaMachine, Lts.Run (Lts.Steps VmaMachine.next VmaOp.Ok)
        ⟨⟨(Links.mk id id).init none, fun _ => ⟨0, 0, 0, 0⟩⟩, []⟩ (oneArea 0x2000) s
      ∧ 64 ∈ s.inserted ∧ s.space.vma 64 = ⟨0x5000, 0x2000, 6, 0⟩
      ∧ Built bumpAlloc 0x80400000 emptyTable
      ∧ (∀ va, mapped emptyTable 0x80400000 va = false)
      ∧ Fresh (vmaMapPages bumpAlloc emptyTable 0x80400000 (s.space.vma 64)).2.log
      ∧ (vmaMapPages bumpAlloc emptyTable 0x80400000 (s.space.vma 64)).1 = some 0
      ∧ s.space.find 0x6000 (s.inserted.length + 1) = some (some 64)
      ∧ walkaddr (vmaMapPages bumpAlloc emptyTable 0x80400000 (s.space.vma 64)).2 0x80400000 0x6000
        = 0x1000
      ∧ ¬LazilyMapped (vmaMapPages bumpAlloc emptyTable 0x80400000 (s.space.vma 64)).2 0x80400000
          0x6000 := by
  obtain ⟨s, run, hmem, hvma, hfresh, hzero⟩ := oneArea_spec (.inr rfl)
  have hwalk : walkaddr (vmaMapPages bumpAlloc emptyTable 0x80400000 ⟨0x5000, 0x2000, 6, 0⟩).2
      0x80400000 0x6000 = 0x1000 := by decide +kernel
  rw [← hvma] at hfresh hzero hwalk
  obtain ⟨xs, hperm, hxs⟩ := vma_list_holds run
  have hfuel : xs.length < s.inserted.length + 1 := by
    rw [hperm.length_eq]
    exact Nat.lt_succ_self _
  obtain ⟨r, hr, hiff⟩ := hxs.find 0x6000 hfuel
  have hin : (0x6000 : UInt64).toNat ∈ (s.space.vma 64).range := by
    rw [hvma]
    exact ⟨by decide, by decide⟩
  rw [(hiff 64).mpr ⟨hperm.mem_iff.mpr hmem, hin⟩] at hr
  exact ⟨s, run, hmem, hvma, built_emptyTable, mapped_emptyTable, hfresh, hzero, hr, hwalk,
    fun h => absurd (hwalk.symm.trans h.noFrame) (by decide)⟩

end NoobKernel.Mm
