import NoobKernel.Mm.PageTableErrors

set_option autoImplicit false

/-! # Unmapping a range

A round of `unmappages` clears the leaf of one page if the page is mapped and has a table at all
(`leaf_unmapPage`). The loop clears the mapped leaves of its pages and no other
(`leaf_unmappages`), so that unmapping undoes a `mappages` of unmapped pages
(`unmappages_unmaps`).
-/

namespace NoobKernel.Mm

open Radix Misc

variable {alloc : List Nat → Nat} {root : Nat} {path : Nat → List Nat} {m : PtMem}

/-- One round: the mapped leaf of the page is cleared, whether its table exists or not. -/
theorem leaf_unmapPage (shape : Shape root path m) (a b : Nat) :
    leaf (unmapPage m root a) root b
      = if keyFrom b 2 = keyFrom a 2 ∧ leaf m root b &&& PTE_M ≠ 0 then 0 else leaf m root b := by
  have hsame : keyFrom b 2 = keyFrom a 2 → leaf m root b = leaf m root a := by
    intro h
    rw [leaf, leaf, h]
  rw [unmapPage, va2pte, va2pteFrom_false]
  cases hloc : locate nextTable m.tab root (keyFrom a 2) with
  | none =>
      -- no table for the page, which is unmapped then
      have hleaf : leaf m root a = 0 := by rw [leaf, lookup, hloc]
      simp only
      rw [if_neg]
      rintro ⟨hkey, hmapped⟩
      rw [hsame hkey, hleaf, Nat.zero_and] at hmapped
      exact hmapped rfl
  | some pte =>
      have hload := leaf_of_locate hloc
      simp only
      rw [hload]
      by_cases hm : leaf m root a &&& PTE_M ≠ 0
      · rw [if_pos hm, (store_spec shape hloc).2 b]
        by_cases hkey : keyFrom b 2 = keyFrom a 2
        · rw [if_pos hkey, if_pos ⟨hkey, by rw [hsame hkey]; exact hm⟩]
        · rw [if_neg hkey, if_neg (fun h => hkey h.1)]
      · rw [if_neg hm, if_neg]
        rintro ⟨hkey, hmapped⟩
        rw [hsame hkey] at hmapped
        exact hm hmapped

/-- The loop over some pages clears their mapped leaves and no other. -/
theorem leaf_unmapPages (shape : Shape root path m) (pages : List Nat) (b : Nat) :
    leaf (pages.foldl (fun m a => unmapPage m root a) m) root b
      = if (∃ a ∈ pages, keyFrom b 2 = keyFrom a 2) ∧ leaf m root b &&& PTE_M ≠ 0 then 0
        else leaf m root b := by
  induction pages generalizing m with
  | nil => simp
  | cons a pages ih =>
      have hstep := leaf_unmapPage shape a b
      rw [List.foldl_cons, ih ((unmapPage_spec m root a).2 path shape)]
      by_cases hmapped : leaf m root b &&& PTE_M ≠ 0
      · by_cases hkey : keyFrom b 2 = keyFrom a 2
        · rw [if_pos ⟨hkey, hmapped⟩] at hstep
          have hexists : ∃ a' ∈ a :: pages, keyFrom b 2 = keyFrom a' 2 :=
            ⟨a, List.mem_cons_self, hkey⟩
          rw [hstep, if_pos (c := (∃ a' ∈ a :: pages, _) ∧ _) ⟨hexists, hmapped⟩]
          exact if_neg fun h => h.2 (Nat.zero_and _)
        · rw [if_neg (fun h => hkey h.1)] at hstep
          rw [hstep]
          simp only [List.mem_cons, exists_eq_or_imp, hkey, false_or]
      · rw [if_neg (fun h => hmapped h.2)] at hstep
        rw [hstep, if_neg (fun h => hmapped h.2), if_neg (fun h => hmapped h.2)]

theorem PAGE_ALIGN_DOWN_eq {a : Nat} (h : a < 2 ^ 64) :
    PAGE_ALIGN_DOWN a = a / PAGE_SIZE * PAGE_SIZE := by
  rw [PAGE_ALIGN_DOWN, PAGE_SIZE_eq]
  exact ALIGN_DOWN_two_pow h (by decide)

/-- **The leaves after `unmappages`** of a range of the address space. -/
theorem leaf_unmappages (shape : Shape root path m) {vm npages : Nat} (hvm : vm < 2 ^ 64)
    (hend : PAGE_ALIGN_DOWN vm + npages * PAGE_SIZE ≤ VM_END) {b : Nat} (hb : b < VM_END) :
    leaf (unmappages m root vm npages).2 root b
      = if (PAGE_ALIGN_DOWN vm ≤ b ∧ b < PAGE_ALIGN_DOWN vm + npages * PAGE_SIZE)
            ∧ leaf m root b &&& PTE_M ≠ 0 then 0
        else leaf m root b := by
  have hsize : PAGE_SIZE = 4096 := rfl
  have hvmEnd : VM_END = 2 ^ 38 := rfl
  have hstart := PAGE_ALIGN_DOWN_eq hvm
  rw [unmappages]
  simp only
  generalize PAGE_ALIGN_DOWN vm = start at hstart hend ⊢
  have hrounds : ((start + npages * PAGE_SIZE) % 2 ^ 64 - start) / PAGE_SIZE = npages := by
    rw [hvmEnd, hsize] at hend
    rw [hsize]
    omega
  -- the rounds hit the leaf of `b` if and only if `b` is in the range
  have hpages : (∃ a ∈ (List.range npages).map fun i => start + i * PAGE_SIZE,
      keyFrom b 2 = keyFrom a 2) ↔ start ≤ b ∧ b < start + npages * PAGE_SIZE := by
    have hkey : ∀ i < npages, (keyFrom b 2 = keyFrom (start + i * PAGE_SIZE) 2
        ↔ b / PAGE_SIZE = vm / PAGE_SIZE + i) := by
      intro i hi
      have hlt : start + i * PAGE_SIZE < VM_END := by
        rw [hsize] at hend ⊢
        omega
      rw [keyFrom_inj hb hlt, hstart, hsize]
      omega
    simp only [List.mem_map, List.mem_range]
    constructor
    · rintro ⟨a, ⟨i, hi, rfl⟩, h⟩
      have hdiv := (hkey i hi).mp h
      rw [hsize] at hstart hdiv ⊢
      omega
    · rintro ⟨hle, hlt⟩
      have hi : b / PAGE_SIZE - vm / PAGE_SIZE < npages := by
        rw [hsize] at hstart hlt ⊢
        omega
      refine ⟨_, ⟨_, hi, rfl⟩, (hkey _ hi).mpr ?_⟩
      rw [hsize] at hstart ⊢
      omega
  rw [hrounds]
  have hloop := leaf_unmapPages shape ((List.range npages).map fun i => start + i * PAGE_SIZE) b
  rw [List.foldl_map] at hloop
  rw [hloop]
  simp only [hpages]

/-- `walkaddr` after `unmappages`: the range walks to nothing, everything else as before. -/
theorem walkaddr_unmappages (shape : Shape root path m) {vm npages : Nat} (hvm : vm < 2 ^ 64)
    (hend : PAGE_ALIGN_DOWN vm + npages * PAGE_SIZE ≤ VM_END) (a : Nat) :
    walkaddr (unmappages m root vm npages).2 root a
      = if PAGE_ALIGN_DOWN vm ≤ a ∧ a < PAGE_ALIGN_DOWN vm + npages * PAGE_SIZE then 0
        else walkaddr m root a := by
  rw [walkaddr_eq, walkaddr_eq]
  by_cases ha : VM_END ≤ a
  · rw [if_pos ha, if_pos ha, ite_self]
  · have hleaf := leaf_unmappages shape hvm hend (Nat.not_le.mp ha)
    rw [if_neg ha, if_neg ha]
    by_cases hrange : PAGE_ALIGN_DOWN vm ≤ a ∧ a < PAGE_ALIGN_DOWN vm + npages * PAGE_SIZE
    · rw [if_pos hrange, if_pos]
      by_cases hmapped : leaf m root a &&& PTE_M ≠ 0
      · rw [hleaf, if_pos ⟨hrange, hmapped⟩, Nat.zero_and]
      · rw [hleaf, if_neg (fun h => hmapped h.2)]
        exact not_not.mp hmapped
    · rw [if_neg (fun h => hrange h.1)] at hleaf
      rw [if_neg hrange, hleaf]

/-- `mappages` of a range of the address space, whatever it returns, changes no leaf outside the
range. -/
theorem leaf_mappages_outside (shape : Shape root path m) {va pa npages : Nat} {perm : BitVec 32}
    (hend : va + npages * PAGE_SIZE ≤ VM_END)
    (fresh : Fresh (mappages alloc m root va pa npages perm).2.log) {a : Nat} (ha : a < VM_END)
    (hout : ∀ i < npages, a / PAGE_SIZE ≠ (va + i * PAGE_SIZE) / PAGE_SIZE) :
    leaf (mappages alloc m root va pa npages perm).2 root a = leaf m root a := by
  have hsize : PAGE_SIZE = 4096 := rfl
  have hvmEnd : VM_END = 2 ^ 38 := rfl
  rcases mappages_cases alloc m root va pa npages perm with h | h
  · rw [h]
  · rw [h] at fresh ⊢
    rcases mappagesFrom_leaf shape fresh a with ⟨hsame, -⟩ | ⟨-, w, hw, hkey, -⟩
    · exact hsame
    · obtain ⟨i, -, hi, rfl⟩ := mem_mappagesWrites hw
      have hlt : va + i * PAGE_SIZE < VM_END := by
        rw [hsize] at hend ⊢
        omega
      rw [keyFrom_mod, keyFrom_inj ha hlt] at hkey
      exact absurd hkey (hout i (by omega))

/-- **Unmapping a range** of whole pages of the address space leaves every page of it unmapped
and every other translation as it was. Unmapping a range that was unmapped before a `mappages`
undoes the `mappages`, whatever that returned. -/
theorem unmappages_unmaps (built : Built alloc root m) (fresh : Fresh m.log) {vm npages : Nat}
    (hvm : vm < 2 ^ 64) (hend : PAGE_ALIGN_DOWN vm + npages * PAGE_SIZE ≤ VM_END) :
    (∀ a, PAGE_ALIGN_DOWN vm ≤ a → a < PAGE_ALIGN_DOWN vm + npages * PAGE_SIZE →
        mapped (unmappages m root vm npages).2 root a = false
          ∧ walkaddr (unmappages m root vm npages).2 root a = 0)
      ∧ (∀ a, ¬(PAGE_ALIGN_DOWN vm ≤ a ∧ a < PAGE_ALIGN_DOWN vm + npages * PAGE_SIZE) →
        walkaddr (unmappages m root vm npages).2 root a = walkaddr m root a)
      ∧ ∀ pa perm, (∀ i < npages, mapped m root (PAGE_ALIGN_DOWN vm + i * PAGE_SIZE) = false) →
        Fresh (mappages alloc m root (PAGE_ALIGN_DOWN vm) pa npages perm).2.log →
        ∀ a, walkaddr (unmappages (mappages alloc m root (PAGE_ALIGN_DOWN vm) pa npages perm).2
          root vm npages).2 root a = walkaddr m root a := by
  have hsize : PAGE_SIZE = 4096 := rfl
  obtain ⟨path, shape⟩ := built.shape fresh
  refine ⟨fun a hle hlt => ?_, fun a hout => ?_, fun pa perm unmapped hfresh a => ?_⟩
  · refine ⟨?_, by rw [walkaddr_unmappages shape hvm hend, if_pos ⟨hle, hlt⟩]⟩
    rw [mapped_eq, leaf_unmappages shape hvm hend (Nat.lt_of_lt_of_le hlt hend)]
    by_cases hmapped : leaf m root a &&& PTE_M ≠ 0
    · rw [if_pos ⟨⟨hle, hlt⟩, hmapped⟩, Nat.zero_and]
      rfl
    · rw [if_neg (fun h => hmapped h.2)]
      exact decide_eq_false hmapped
  · rw [walkaddr_unmappages shape hvm hend, if_neg hout]
  · obtain ⟨path', shape'⟩ :=
      (built.mappages (PAGE_ALIGN_DOWN vm) pa npages perm).shape hfresh
    have hstart := PAGE_ALIGN_DOWN_eq hvm
    rw [walkaddr_unmappages shape' hvm hend]
    generalize PAGE_ALIGN_DOWN vm = start at hstart hend unmapped hfresh ⊢
    rw [hsize] at hstart
    by_cases ha : VM_END ≤ a
    · rw [walkaddr_eq, walkaddr_eq, if_pos ha, if_pos ha, ite_self]
    · rw [not_le] at ha
      by_cases hrange : start ≤ a ∧ a < start + npages * PAGE_SIZE
      · -- a page of the range: unmapped before and after
        rw [if_pos hrange, walkaddr_eq, if_neg (Nat.not_le.mpr ha)]
        rw [hsize] at hrange
        have hpage := unmapped ((a - start) / PAGE_SIZE) (by rw [hsize]; omega)
        have hlt : start + (a - start) / PAGE_SIZE * PAGE_SIZE < VM_END := by
          rw [hsize]
          omega
        have hkey : keyFrom a 2 = keyFrom (start + (a - start) / PAGE_SIZE * PAGE_SIZE) 2 := by
          rw [keyFrom_inj ha hlt, hsize]
          omega
        have hleaf : leaf m root a &&& PTE_M = 0 := by
          rw [leaf, hkey, ← leaf]
          rw [mapped_eq] at hpage
          simpa using hpage
        rw [if_pos hleaf]
      · rw [if_neg hrange, walkaddr_eq, walkaddr_eq,
          leaf_mappages_outside shape hend hfresh ha]
        intro i hi
        rw [hsize] at hrange ⊢
        omega

/-- The two pages across the border of two leaf tables, unmapped in a fresh page table and after
a `mappages`. -/
theorem unmappages_unmaps_two :
    let m := (pagetableCreate bumpAlloc ⟨fun _ _ => 0, []⟩).2
    let m' := (mappages bumpAlloc m 0x80400000 0x1ff000 0x80000000 2 7).2
    walkaddr (unmappages m' 0x80400000 0x1ff123 2).2 0x80400000 0x200fff = 0
      ∧ ∀ a, walkaddr (unmappages m' 0x80400000 0x1ff123 2).2 0x80400000 a
        = walkaddr m 0x80400000 a := by
  intro m m'
  have hroot : (pagetableCreate bumpAlloc ⟨fun _ _ => 0, []⟩).1 = 0x80400000 := by decide
  have built : Built bumpAlloc 0x80400000 m := .create (Prod.ext hroot rfl)
  have hlog : m.log = [0x80400000] := by decide
  have hlog' : m'.log = [0x80400000, 0x80401000, 0x80402000, 0x80403000] := by decide
  have fresh : Fresh m.log := by
    rw [hlog]
    exact ⟨by decide, by decide, by decide, by decide⟩
  have fresh' : Fresh m'.log := by
    rw [hlog']
    exact ⟨by decide, by decide, by decide, by decide⟩
  have hstart : PAGE_ALIGN_DOWN 0x1ff123 = 0x1ff000 := by decide
  have hend : PAGE_ALIGN_DOWN 0x1ff123 + 2 * PAGE_SIZE ≤ VM_END := by decide
  have hvm : 0x1ff123 < 2 ^ 64 := by decide
  have hle : PAGE_ALIGN_DOWN 0x1ff123 ≤ 0x200fff := by decide
  have hlt : 0x200fff < PAGE_ALIGN_DOWN 0x1ff123 + 2 * PAGE_SIZE := by decide
  have hmapped := unmappages_unmaps (built.mappages 0x1ff000 0x80000000 2 7) fresh'
    hvm hend
  have hundone := unmappages_unmaps built fresh hvm hend
  rw [hstart] at hundone
  exact ⟨(hmapped.1 0x200fff hle hlt).2, hundone.2.2 0x80000000 7 (by decide) fresh'⟩

end NoobKernel.Mm
