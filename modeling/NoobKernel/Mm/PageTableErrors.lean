import NoobKernel.Mm.PageTableMap

set_option autoImplicit false

/-! # Errors of `mappages`

`mappages` checks its arguments first and then writes one entry after the other, so what an
error leaves behind depends on where it strikes. A range that the checks reject leaves the memory
as it was. A page that is mapped already ends the loop, with the pages before it mapped
(`mappages_atomic_iff`). A page of table memory that cannot be had is a `NULL` that the loop
dereferences (`mappages_survives_iff`). The checks themselves are made on sums of 64 bits
(`mappages_confined_iff`).

`mappagesWrites` lists the pages the loop writes entries for; `mappagesFrom_leaf` says that these
are the leaves that change.
-/

namespace NoobKernel.Mm

open Radix Misc

variable {alloc : List Nat → Nat} {root va pa npages perm n i : Nat} {path : Nat → List Nat}
  {m m' : PtMem}

/-! ## The checks -/

/-- The tests of `mappages` on its addresses. -/
def Rejected (va pa npages : Nat) : Prop :=
  PAGE_ALIGNED va = false ∨ PAGE_ALIGNED pa = false
    ∨ npages ≠ 0 ∧ (VM_END < (va + npages * PAGE_SIZE) % 2 ^ 64
      ∨ PM_END < (pa + npages * PAGE_SIZE) % 2 ^ 64)

theorem mappages_of_rejected (h : Rejected va pa npages) (perm : BitVec 32) :
    ∃ e, mappages alloc m root va pa npages perm = (some e, m) := by
  unfold mappages
  split
  · exact ⟨_, rfl⟩
  · split
    · exact ⟨_, rfl⟩
    · rename_i haligned
      rw [Bool.or_eq_true, not_or, Bool.not_eq_true', Bool.not_eq_true'] at haligned
      rcases h with hva | hpa | ⟨hn, hrange⟩
      · exact absurd hva haligned.1
      · exact absurd hpa haligned.2
      · rw [if_neg hn]
        split
        · exact ⟨_, rfl⟩
        · rename_i hvm
          rw [if_pos (hrange.resolve_left hvm)]
          exact ⟨_, rfl⟩

/-- The checks pass, and the loop runs over the whole range. -/
theorem mappages_of_not_rejected (hroot : root ≠ 0) (h : ¬Rejected va pa npages)
    (perm : BitVec 32) :
    mappages alloc m root va pa npages perm
      = mappagesFrom alloc root va pa (perm &&& 0x3f).toNat npages 0 m := by
  unfold Rejected at h
  simp only [not_or, not_and_or, not_not] at h
  obtain ⟨hva, hpa, hrange⟩ := h
  rw [Bool.not_eq_false] at hva hpa
  rw [mappages, if_neg hroot, hva, hpa, if_neg (by simp)]
  by_cases hn : npages = 0
  · rw [if_pos hn, hn]
    rfl
  · obtain ⟨hvm, hpm⟩ := hrange.resolve_left hn
    rw [if_neg hn, if_neg hvm, if_neg hpm]

/-! ## The pages the loop writes -/

/-- The pages the loop of `mappages` writes entries for, with their physical pages, from page `i`,
`n` pages before the end. -/
def mappagesWrites (alloc : List Nat → Nat) (root va pa perm : Nat) :
    Nat → Nat → PtMem → List (Nat × Nat)
  | 0, _, _ => []
  | n + 1, i, m =>
      match va2pte alloc m root ((va + i * PAGE_SIZE) % 2 ^ 64) true with
      | (none, _) => []
      | (some pte, m) =>
          if m.load pte &&& PTE_M ≠ 0 then []
          else
            let v := PA2PTE ((pa + i * PAGE_SIZE) % 2 ^ 64) ||| perm ||| PTE_M
            ((va + i * PAGE_SIZE) % 2 ^ 64, (pa + i * PAGE_SIZE) % 2 ^ 64)
              :: mappagesWrites alloc root va pa perm n (i + 1) (m.store pte v)

/-- The pages written are pages of the range. -/
theorem mem_mappagesWrites {w : Nat × Nat}
    (h : w ∈ mappagesWrites alloc root va pa perm n i m) :
    ∃ k, i ≤ k ∧ k < i + n
      ∧ w = ((va + k * PAGE_SIZE) % 2 ^ 64, (pa + k * PAGE_SIZE) % 2 ^ 64) := by
  induction n generalizing i m with
  | zero => cases h
  | succ n ih =>
      rw [mappagesWrites] at h
      cases hwalk : va2pte alloc m root ((va + i * PAGE_SIZE) % 2 ^ 64) true with
      | mk pte m₁ =>
          rw [hwalk] at h
          cases pte with
          | none => cases h
          | some pte =>
              simp only at h
              split at h
              · cases h
              · rcases List.mem_cons.mp h with rfl | h
                · exact ⟨i, le_rfl, by omega, rfl⟩
                · obtain ⟨k, hle, hlt, hw⟩ := ih h
                  exact ⟨k, by omega, by omega, hw⟩

/-- **The leaves that change** are those of the pages written; none of these was mapped. -/
theorem mappagesFrom_leaf (shape : Shape root path m)
    (fresh : Fresh (mappagesFrom alloc root va pa perm n i m).2.log) (a : Nat) :
    leaf (mappagesFrom alloc root va pa perm n i m).2 root a = leaf m root a
        ∧ (∀ w ∈ mappagesWrites alloc root va pa perm n i m, keyFrom a 2 ≠ keyFrom w.1 2)
      ∨ leaf m root a &&& PTE_M = 0
        ∧ ∃ w ∈ mappagesWrites alloc root va pa perm n i m, keyFrom a 2 = keyFrom w.1 2
          ∧ leaf (mappagesFrom alloc root va pa perm n i m).2 root a
            = PA2PTE w.2 ||| perm ||| PTE_M := by
  induction n generalizing i path m with
  | zero => exact .inl ⟨rfl, by simp [mappagesWrites]⟩
  | succ n ih =>
      obtain ⟨pte, path', m', hwalk, -, hleaf, hload, hstore⟩ := mappagesFrom_walk shape fresh
      rw [mappagesFrom, hwalk] at fresh
      rw [mappagesFrom, mappagesWrites, hwalk]
      simp only at fresh ⊢
      by_cases hm : m'.load pte &&& PTE_M ≠ 0
      · rw [if_pos hm, if_pos hm]
        exact .inl ⟨hleaf a, by simp⟩
      · rw [if_neg hm] at fresh
        rw [if_neg hm, if_neg hm]
        obtain ⟨shape', hleaf'⟩ :=
          hstore (PA2PTE ((pa + i * PAGE_SIZE) % 2 ^ 64) ||| perm ||| PTE_M)
        have hfree : leaf m root ((va + i * PAGE_SIZE) % 2 ^ 64) &&& PTE_M = 0 := by
          rw [← hload]
          exact not_not.mp hm
        have ha := hleaf' a
        by_cases hkey : keyFrom a 2 = keyFrom ((va + i * PAGE_SIZE) % 2 ^ 64) 2
        · -- the page written in this round, which no later round writes
          rw [if_pos hkey] at ha
          have hsame : leaf m root a = leaf m root ((va + i * PAGE_SIZE) % 2 ^ 64) := by
            rw [leaf, leaf, hkey]
          refine .inr ⟨hsame ▸ hfree, _, List.mem_cons_self, hkey, ?_⟩
          rcases ih shape' fresh with ⟨hrest, -⟩ | ⟨hzero, -⟩
          · rw [hrest, ha]
          · rw [ha] at hzero
            exact absurd hzero (or_two_pow_and _ 8)
        · rw [if_neg hkey] at ha
          rw [← ha]
          rcases ih shape' fresh with ⟨hrest, hother⟩ | ⟨hzero, w, hw, hw', hrest⟩
          · refine .inl ⟨hrest, fun w hw => ?_⟩
            rcases List.mem_cons.mp hw with rfl | hw
            · exact hkey
            · exact hother w hw
          · exact .inr ⟨hzero, w, List.mem_cons_of_mem _ hw, hw', hrest⟩

/-! ## A page that is mapped already -/

/-- A caller sees no difference between the memories. -/
def Unaffected (root : Nat) (m m' : PtMem) : Prop :=
  ∀ a, mapped m' root a = mapped m root a ∧ walkaddr m' root a = walkaddr m root a

theorem unaffected_of_leaf (h : ∀ a, leaf m' root a = leaf m root a) : Unaffected root m m' := by
  intro a
  rw [mapped_eq, mapped_eq, walkaddr_eq, walkaddr_eq, h]
  exact ⟨rfl, rfl⟩

theorem keyFrom_mod (a : Nat) : keyFrom (a % 2 ^ 64) 2 = keyFrom a 2 := by
  simp only [keyFrom, PX_eq, List.cons.injEq, and_true]
  omega

theorem leaf_mod (m : PtMem) (root a : Nat) : leaf m root (a % 2 ^ 64) = leaf m root a := by
  rw [leaf, leaf, keyFrom_mod]

/-- **An error of `mappages` changes nothing exactly when** the checks have rejected the range or
its first page is mapped already. A page further on that is mapped leaves the pages before it
mapped. -/
theorem mappages_atomic_iff (built : Built alloc root m) {perm : BitVec 32} {e : Int}
    (herr : e < 0) (hrun : mappages alloc m root va pa npages perm = (some e, m'))
    (fresh : Fresh m'.log) :
    Unaffected root m m' ↔ Rejected va pa npages ∨ mapped m root va = true := by
  have hprefix : m.log <+: m'.log := by
    have h := mappages_log alloc m root va pa npages perm
    rwa [hrun] at h
  obtain ⟨path, shape⟩ := built.shape (fresh.of_prefix hprefix)
  have hroot : root ≠ 0 := (fresh.of_prefix hprefix).ne_zero _ shape.root_mem
  by_cases hrej : Rejected va pa npages
  · obtain ⟨e', hsame⟩ : ∃ e', mappages alloc m root va pa npages perm = (some e', m) :=
      mappages_of_rejected hrej perm
    rw [hrun] at hsame
    obtain rfl : m' = m := congrArg Prod.snd hsame
    exact iff_of_true (fun _ => ⟨rfl, rfl⟩) (.inl hrej)
  · rw [mappages_of_not_rejected hroot hrej] at hrun
    have hn : npages ≠ 0 := by
      rintro rfl
      obtain rfl : 0 = e := Option.some.inj (congrArg Prod.fst hrun)
      exact absurd herr (lt_irrefl 0)
    obtain ⟨n, rfl⟩ := Nat.exists_eq_succ_of_ne_zero hn
    have hlog : Fresh (mappagesFrom alloc root va pa (perm &&& 0x3f).toNat (n + 1) 0 m).2.log := by
      rw [hrun]
      exact fresh
    have hfirst : leaf m root ((va + 0 * PAGE_SIZE) % 2 ^ 64) = leaf m root va := by
      rw [Nat.zero_mul, Nat.add_zero, leaf_mod]
    have hstep := mappagesFrom_succ shape hlog
    rw [hfirst, hrun] at hstep
    rw [or_iff_right hrej, mapped_eq]
    obtain ⟨path', m₁, -, hleaf, ⟨hmapped, hend⟩ | ⟨hfree, m₂, shape₂, hleaf₂, hgo⟩⟩ := hstep
    · -- the first page is mapped: nothing has been written
      obtain rfl : m' = m₁ := congrArg Prod.snd hend
      exact iff_of_true (unaffected_of_leaf hleaf) (decide_eq_true hmapped)
    · -- the first page has been mapped, and stays mapped
      refine iff_of_false (fun hsame => ?_) (by simpa using hfree)
      have hva := hleaf₂ va
      rw [Nat.zero_mul, Nat.add_zero, if_pos (keyFrom_mod va).symm] at hva
      have hstays := mappagesFrom_leaf shape₂ (by rw [← hgo]; exact fresh) va
      rw [← hgo, hva] at hstays
      have hset : leaf m' root va &&& PTE_M ≠ 0 := by
        rcases hstays with ⟨heq, -⟩ | ⟨hzero, -⟩
        · rw [heq]
          exact or_two_pow_and _ 8
        · exact absurd hzero (or_two_pow_and _ 8)
      have hbit := (hsame va).1
      rw [mapped_eq, mapped_eq, decide_eq_true hset] at hbit
      exact of_decide_eq_true hbit.symm hfree

/-- A fresh page table in which page `0x1000` has been mapped. -/
def onePage : PtMem :=
  (mappages bumpAlloc (pagetableCreate bumpAlloc ⟨fun _ _ => 0, []⟩).2 0x80400000 0x1000
    0x80000000 1 7).2

theorem built_onePage : Built bumpAlloc 0x80400000 onePage := by
  have hroot : (pagetableCreate bumpAlloc ⟨fun _ _ => 0, []⟩).1 = 0x80400000 := by decide
  exact .mappages (.create (Prod.ext hroot rfl)) 0x1000 0x80000000 1 7

theorem fresh_onePage {va : Nat} (hlog : (mappages bumpAlloc onePage 0x80400000 va 0x80000000 2
    7).2.log = [0x80400000, 0x80401000, 0x80402000]) :
    Fresh (mappages bumpAlloc onePage 0x80400000 va 0x80000000 2 7).2.log := by
  rw [hlog]
  exact ⟨by decide, by decide, by decide, by decide⟩

/-- Two pages of which the first one is mapped. -/
theorem mappages_atomic_first :
    Unaffected 0x80400000 onePage (mappages bumpAlloc onePage 0x80400000 0x1000 0x80000000 2 7).2
      ↔ Rejected 0x1000 0x80000000 2 ∨ mapped onePage 0x80400000 0x1000 = true := by
  have hcode : (mappages bumpAlloc onePage 0x80400000 0x1000 0x80000000 2 7).1
      = some (-EADDRINUSE) := by decide
  exact mappages_atomic_iff built_onePage (by decide) (Prod.ext hcode rfl)
    (fresh_onePage (by decide))

/-- Two pages of which the second one is mapped: the call fails and leaves the first one mapped. -/
theorem not_mappages_atomic :
    Built bumpAlloc 0x80400000 onePage
      ∧ (mappages bumpAlloc onePage 0x80400000 0 0x80000000 2 7).1 = some (-EADDRINUSE)
      ∧ Fresh (mappages bumpAlloc onePage 0x80400000 0 0x80000000 2 7).2.log
      ∧ ¬Unaffected 0x80400000 onePage
          (mappages bumpAlloc onePage 0x80400000 0 0x80000000 2 7).2 := by
  refine ⟨built_onePage, by decide +kernel, fresh_onePage (by decide +kernel), fun h => ?_⟩
  exact absurd (h 0).1 (by decide +kernel)

/-! ## Pages of table memory that cannot be had -/

/-- Between the two memories a page allocation has returned `NULL`. -/
def AllocFailed (m m' : PtMem) : Prop := 0 ∈ m'.log.drop m.log.length

theorem allocFailed_iff {pages : List Nat} (h : m'.log = m.log ++ pages) :
    AllocFailed m m' ↔ 0 ∈ pages := by
  rw [AllocFailed, h, List.drop_left]

/-- `va2pte` that may create returns `NULL` exactly when an allocation has failed. -/
theorem va2pteFrom_none_iff (alloc : List Nat → Nat) (va level pagetable : Nat) (m : PtMem) :
    ∃ pages, (va2pteFrom alloc va true level pagetable m).2.log = m.log ++ pages
      ∧ ((va2pteFrom alloc va true level pagetable m).1 = none ↔ 0 ∈ pages) := by
  induction level generalizing pagetable m with
  | zero => exact ⟨[], (List.append_nil _).symm, by simp [va2pteFrom]⟩
  | succ level ih =>
      rw [va2pteFrom]
      by_cases hv : m.load (pagetable, PX (level + 1) va) &&& PTE_V ≠ 0
      · simp only [if_pos hv]
        exact ih _ _
      · simp only [if_neg hv, Bool.true_eq_false, if_false]
        by_cases hz : (kzalloc alloc m).1 = 0
        · refine ⟨[0], ?_, ?_⟩
          · rw [if_pos hz, kzalloc_log]
            rw [kzalloc_fst] at hz
            rw [hz]
          · simp [if_pos hz]
        · obtain ⟨pages, hlog, hnone⟩ := ih (kzalloc alloc m).1
            ((kzalloc alloc m).2.store (pagetable, PX (level + 1) va)
              (PA2PTE (kzalloc alloc m).1 ||| PTE_V))
          refine ⟨(kzalloc alloc m).1 :: pages, ?_, ?_⟩
          · rw [if_neg hz, hlog, List.append_cons]
            congr 1
            rw [kzalloc_fst]
            exact kzalloc_log alloc m
          · rw [if_neg hz, hnone, List.mem_cons, or_iff_right (Ne.symm hz)]

/-- The loop dereferences `NULL` exactly when an allocation has failed. -/
theorem mappagesFrom_none_iff (alloc : List Nat → Nat) (root va pa perm n i : Nat) (m : PtMem) :
    ∃ pages, (mappagesFrom alloc root va pa perm n i m).2.log = m.log ++ pages
      ∧ ((mappagesFrom alloc root va pa perm n i m).1 = none ↔ 0 ∈ pages) := by
  induction n generalizing i m with
  | zero => exact ⟨[], (List.append_nil _).symm, by simp [mappagesFrom]⟩
  | succ n ih =>
      obtain ⟨pages, hlog, hnone⟩ :=
        va2pteFrom_none_iff alloc ((va + i * PAGE_SIZE) % 2 ^ 64) 2 root m
      rw [mappagesFrom, va2pte]
      cases hwalk : va2pteFrom alloc ((va + i * PAGE_SIZE) % 2 ^ 64) true 2 root m with
      | mk pte m₁ =>
          rw [hwalk] at hlog hnone
          cases pte with
          | none => exact ⟨pages, hlog, iff_of_true rfl (hnone.mp rfl)⟩
          | some pte =>
              have hpages : 0 ∉ pages := mt hnone.mpr (Option.some_ne_none pte)
              simp only
              by_cases hm : m₁.load pte &&& PTE_M ≠ 0
              · rw [if_pos hm]
                exact ⟨pages, hlog, iff_of_false (Option.some_ne_none _) hpages⟩
              · rw [if_neg hm]
                obtain ⟨pages', hlog', hnone'⟩ := ih (i + 1) (m₁.store pte
                  (PA2PTE ((pa + i * PAGE_SIZE) % 2 ^ 64) ||| perm ||| PTE_M))
                refine ⟨pages ++ pages', ?_, ?_⟩
                · rw [hlog', ← List.append_assoc]
                  congr 1
                · rw [hnone', List.mem_append, or_iff_right hpages]

/-- The call returns, with a negative error if an allocation has failed. -/
def Survives (alloc : List Nat → Nat) (m : PtMem) (root va pa npages : Nat) (perm : BitVec 32) :
    Prop :=
  ∃ e, (mappages alloc m root va pa npages perm).1 = some e
    ∧ (AllocFailed m (mappages alloc m root va pa npages perm).2 → e < 0)

/-- **`mappages` survives exactly the walks that get all their pages.** The `NULL` that `va2pte`
returns when an allocation fails is dereferenced, at whatever level and page it strikes. -/
theorem mappages_survives_iff (alloc : List Nat → Nat) (m : PtMem) (root va pa npages : Nat)
    (perm : BitVec 32) :
    Survives alloc m root va pa npages perm
      ↔ ¬AllocFailed m (mappages alloc m root va pa npages perm).2 := by
  have key : ∃ pages, (mappages alloc m root va pa npages perm).2.log = m.log ++ pages
      ∧ ((mappages alloc m root va pa npages perm).1 = none ↔ 0 ∈ pages) := by
    by_cases hrej : Rejected va pa npages
    · obtain ⟨e, h⟩ : ∃ e, mappages alloc m root va pa npages perm = (some e, m) :=
        mappages_of_rejected hrej perm
      rw [h]
      exact ⟨[], (List.append_nil _).symm, by simp⟩
    · by_cases hroot : root = 0
      · rw [mappages, if_pos hroot]
        exact ⟨[], (List.append_nil _).symm, by simp⟩
      · rw [mappages_of_not_rejected hroot hrej]
        exact mappagesFrom_none_iff _ _ _ _ _ _ _ _
  obtain ⟨pages, hlog, hnone⟩ := key
  rw [Survives, allocFailed_iff hlog]
  constructor
  · rintro ⟨e, he, -⟩ hzero
    rw [hnone.mpr hzero] at he
    cases he
  · intro hzero
    obtain ⟨e, he⟩ := Option.ne_none_iff_exists'.mp (mt hnone.mp hzero)
    exact ⟨e, he, fun h => absurd h hzero⟩

/-- An allocator that has one page. -/
def onePageAlloc (log : List Nat) : Nat := if log = [] then 0x80400000 else 0

/-- With no page left for the first inner table, mapping a page dereferences `NULL`. -/
theorem not_mappages_survives :
    (pagetableCreate onePageAlloc ⟨fun _ _ => 0, []⟩).1 = 0x80400000
      ∧ ¬Survives onePageAlloc (pagetableCreate onePageAlloc ⟨fun _ _ => 0, []⟩).2 0x80400000 0
          0x80000000 1 7 := by
  refine ⟨by decide, ?_⟩
  rintro ⟨e, he, -⟩
  have hnull : (mappages onePageAlloc (pagetableCreate onePageAlloc ⟨fun _ _ => 0, []⟩).2 0x80400000
      0 0x80000000 1 7).1 = none := by decide
  rw [hnull] at he
  cases he

/-! ## Ranges that wrap -/

/-- The range ends within the address space and the memory. -/
def InRange (va pa npages : Nat) : Prop :=
  va + npages * PAGE_SIZE ≤ VM_END ∧ pa + npages * PAGE_SIZE ≤ PM_END

/-- Every entry written is for a page of the address space and a page of the memory, and a range
that goes beyond is refused before anything is written. -/
def Confined (alloc : List Nat → Nat) (m : PtMem) (root va pa npages : Nat) (perm : BitVec 32) :
    Prop :=
  (¬Rejected va pa npages → ∀ w ∈ mappagesWrites alloc root va pa (perm &&& 0x3f).toNat npages 0 m,
      w.1 < VM_END ∧ w.2 < PM_END)
    ∧ (¬InRange va pa npages → mappages alloc m root va pa npages perm = (some (-ERANGE), m))

/-- The loop does not end with `-ERANGE`. -/
theorem mappagesFrom_ne_range (alloc : List Nat → Nat) (root va pa perm n i : Nat) (m : PtMem) :
    (mappagesFrom alloc root va pa perm n i m).1 ≠ some (-ERANGE) := by
  have hzero : some (0 : Int) ≠ some (-ERANGE) := by decide
  have hinuse : some (-EADDRINUSE) ≠ some (-ERANGE) := by decide
  induction n generalizing i m with
  | zero => exact hzero
  | succ n ih =>
      rw [mappagesFrom]
      cases va2pte alloc m root ((va + i * PAGE_SIZE) % 2 ^ 64) true with
      | mk pte m₁ =>
          cases pte with
          | none => exact (Option.some_ne_none _).symm
          | some pte =>
              simp only
              by_cases hm : m₁.load pte &&& PTE_M ≠ 0
              · rw [if_pos hm]
                exact hinuse
              · rw [if_neg hm]
                exact ih _ _

/-- **`mappages` stays within bounds exactly when** the sums of 64 bits reject the range or the
range ends within them as a sum of natural numbers. -/
theorem mappages_confined_iff (alloc : List Nat → Nat) (m : PtMem) {root va pa npages : Nat}
    (perm : BitVec 32) (hroot : root ≠ 0) (hva : va % PAGE_SIZE = 0) (hpa : pa % PAGE_SIZE = 0)
    (hn : 1 ≤ npages) :
    Confined alloc m root va pa npages perm
      ↔ VM_END < (va + npages * PAGE_SIZE) % 2 ^ 64 ∨ PM_END < (pa + npages * PAGE_SIZE) % 2 ^ 64
        ∨ InRange va pa npages := by
  have hend : VM_END = 2 ^ 38 := rfl
  have hpend : PM_END = 0x88000000 := rfl
  have hsize : PAGE_SIZE = 4096 := rfl
  have hva' := (PAGE_ALIGNED_iff va).mpr hva
  have hpa' := (PAGE_ALIGNED_iff pa).mpr hpa
  have hn' : npages ≠ 0 := by omega
  have hrej : Rejected va pa npages ↔ VM_END < (va + npages * PAGE_SIZE) % 2 ^ 64
      ∨ PM_END < (pa + npages * PAGE_SIZE) % 2 ^ 64 := by
    unfold Rejected
    simp only [hva', hpa', hn', Bool.true_eq_false, false_or, ne_eq, not_false_eq_true, true_and]
  by_cases hwrapped : Rejected va pa npages
  · -- the checks refuse the range
    have hrange : mappages alloc m root va pa npages perm = (some (-ERANGE), m) := by
      rw [mappages, if_neg hroot, hva', hpa', if_neg (by simp), if_neg hn']
      rcases hrej.mp hwrapped with h | h
      · rw [if_pos h]
      · rw [if_pos h]
        split <;> rfl
    refine iff_of_true ⟨fun h => absurd hwrapped h, fun _ => hrange⟩ ?_
    exact (hrej.mp hwrapped).imp_right Or.inl
  · have hnot : ¬(VM_END < (va + npages * PAGE_SIZE) % 2 ^ 64
        ∨ PM_END < (pa + npages * PAGE_SIZE) % 2 ^ 64) := fun h => hwrapped (hrej.mpr h)
    rw [← or_assoc, or_iff_right hnot]
    constructor
    · rintro ⟨-, hrange⟩
      by_contra hout
      have hcode := congrArg Prod.fst (hrange hout)
      rw [mappages_of_not_rejected hroot hwrapped] at hcode
      exact mappagesFrom_ne_range _ _ _ _ _ _ _ _ hcode
    · rintro ⟨hvm, hpm⟩
      refine ⟨fun _ w hw => ?_, fun hout => absurd ⟨hvm, hpm⟩ hout⟩
      obtain ⟨k, -, hk, rfl⟩ := mem_mappagesWrites hw
      rw [hend, hsize] at hvm
      rw [hpend, hsize] at hpm
      rw [hend, hpend, hsize]
      dsimp only
      omega

/-- One page at the start of the memory. -/
theorem mappages_confined_page :
    Confined bumpAlloc (pagetableCreate bumpAlloc ⟨fun _ _ => 0, []⟩).2 0x80400000 0 0x80000000 1 7
      ↔ VM_END < (0 + 1 * PAGE_SIZE) % 2 ^ 64 ∨ PM_END < (0x80000000 + 1 * PAGE_SIZE) % 2 ^ 64
        ∨ InRange 0 0x80000000 1 :=
  mappages_confined_iff _ _ 7 (by decide) (by decide) (by decide) (by decide)

/-- The last page of 64 bits is accepted: the end of the range wraps to `0`. -/
theorem not_mappages_confined :
    ¬Confined bumpAlloc (pagetableCreate bumpAlloc ⟨fun _ _ => 0, []⟩).2 0x80400000
      0xfffffffffffff000 0x80000000 1 7 := by
  rintro ⟨-, hrange⟩
  have hout : ¬InRange 0xfffffffffffff000 0x80000000 1 := fun h => absurd h.1 (by decide)
  exact absurd (congrArg Prod.fst (hrange hout)) (by decide)

end NoobKernel.Mm
