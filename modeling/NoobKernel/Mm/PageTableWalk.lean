import NoobKernel.Lib.Sv39
import NoobKernel.Mm.PageTableMap

set_option autoImplicit false

/-! # What the hardware makes of the page tables

`walkaddr` reads the entry of an address by the marks that the kernel puts there, and the hardware
by its own. Both find the same entry: the tables that `va2pte` creates are linked by entries that
are bare pointers, so that the hardware descends where the code does (`walk_leaf`).
-/

namespace NoobKernel.Mm

open Radix Misc

/-- An entry that links a table, or none. The tables are in the physical address space. -/
def Link (pte : Nat) : Prop :=
  pte = 0 ∨ ∃ page, page < 2 ^ 56 ∧ page % PAGE_SIZE = 0 ∧ pte = PA2PTE page ||| PTE_V

theorem testBit_link {page : Nat} (h : page < 2 ^ 64) {k : Nat} (hk : 0 < k) (hk' : k < 10) :
    (PA2PTE page ||| PTE_V).testBit k = false := by
  have hv : PTE_V.testBit k = false := Nat.testBit_two_pow_of_ne (Nat.ne_of_lt hk)
  rw [Nat.testBit_or, hv, PA2PTE_eq h, Nat.testBit_two_pow_mul]
  simp [Nat.not_le.mpr hk']

theorem testBit_link_zero (page : Nat) : (PA2PTE page ||| PTE_V).testBit 0 = true := by
  rw [Nat.testBit_or]
  exact Bool.or_eq_true_iff.mpr (.inr rfl)

/-- The hardware descends along a link where the code does. -/
theorem Link.next {pte : Nat} (h : Link pte) :
    Sv39.bare pte = true ∧ Sv39.child pte = nextTable pte := by
  rcases h with rfl | ⟨page, hlt, haligned, rfl⟩
  · exact ⟨rfl, nextTable_zero.symm⟩
  · have hlt64 : page < 2 ^ 64 := Nat.lt_trans hlt (by decide)
    have hbit := fun k (hk : 0 < k) (hk' : k < 10) => testBit_link hlt64 hk hk'
    refine ⟨?_, ?_⟩
    · simp [Sv39.bare, Sv39.isLeaf, Sv39.R, Sv39.W, Sv39.X, hbit 1, hbit 2, hbit 3]
    · rw [nextTable_link hlt64 haligned, Sv39.child, Sv39.V, testBit_link_zero, if_pos rfl]
      have hdiv : (PA2PTE page ||| PTE_V) / 2 ^ 10 = page / 4096 := by
        rw [PA2PTE_eq hlt64, ← Nat.shiftRight_eq_div_pow, Nat.shiftRight_or_distrib,
          Nat.shiftRight_eq_div_pow, Nat.shiftRight_eq_div_pow, Nat.mul_div_cancel_left _ (by decide)]
        exact Nat.or_zero _
      have hsize : PAGE_SIZE = 4096 := rfl
      rw [hsize] at haligned
      rw [Sv39.target, hdiv, Sv39.PAGE, Nat.mod_eq_of_lt (by omega),
        Nat.div_mul_cancel (Nat.dvd_of_mod_eq_zero haligned)]

/-- The tables form a tree, and those above the last level hold links only. -/
structure Walkable (root : Nat) (path : Nat → List Nat) (m : PtMem) : Prop where
  shape : Shape root path m
  link : ∀ n ∈ m.log, (path n).length < 2 → ∀ i, Link (m.tab n i)

theorem vpn_eq (level va : Nat) : Sv39.vpn level va = PX level va := (PX_eq level va).symm

theorem key_eq (va level : Nat) : Sv39.key va level = keyFrom va level := by
  induction level with
  | zero => rw [Sv39.key, keyFrom, vpn_eq]
  | succ level ih => rw [Sv39.key, keyFrom, vpn_eq, ih]

/-- **The hardware finds the entry that the code finds.** -/
theorem Walkable.walk_leaf {root : Nat} {path : Nat → List Nat} {m : PtMem}
    (w : Walkable root path m) (va : Nat) (acc : Sv39.Access) :
    Sv39.walk m.tab va acc 2 root = Sv39.page (leaf m root va) va acc := by
  have hinner : ∀ n ∈ m.log, (path n).length < 2 → ∀ i,
      Sv39.bare (m.tab n i) = true ∧ Sv39.child (m.tab n i) = nextTable (m.tab n i) :=
    fun n hn hlen i => (w.link n hn hlen i).next
  rw [Sv39.walk_eq w.shape hinner va acc 2 w.shape.root_mem (by rw [w.shape.root_path]; rfl), key_eq]
  rfl

/-! ## `va2pte` and `mappages` keep it -/

/-- The entries that a walk leaves are those that were there, links to tables, or blank. -/
theorem va2pteFrom_entries {alloc : List Nat → Nat} {va : Nat} (level : Nat) {table : Nat}
    {m : PtMem} (fresh : Fresh (va2pteFrom alloc va true level table m).2.log) {t : Nat}
    (ht : t ∈ (va2pteFrom alloc va true level table m).2.log) (i : Nat) :
    let m' := (va2pteFrom alloc va true level table m).2
    (t ∈ m.log ∧ m'.tab t i = m.tab t i)
      ∨ m'.tab t i = 0 ∨ ∃ p ∈ m'.log, m'.tab t i = PA2PTE p ||| PTE_V := by
  induction level generalizing table m with
  | zero => exact .inl ⟨ht, rfl⟩
  | succ level ih =>
      intro m'
      rcases va2pteFrom_succ fresh with ⟨next, -, hrun⟩ | ⟨-, hfresh, hrun⟩
      · have hm' : m' = (va2pteFrom alloc va true level next m).2 := congrArg Prod.snd hrun
        rw [hm']
        rw [hrun] at fresh ht
        exact ih fresh ht
      · -- the new table is blank, and one entry links it
        have hm' : m' = _ := congrArg Prod.snd hrun
        rw [hm']
        rw [hrun] at fresh ht
        have hne : alloc m.log ≠ 0 := hfresh.ne_zero _ (by simp)
        have hk : kzalloc alloc m = (alloc m.log,
            ⟨Function.update m.tab (alloc m.log) fun _ => 0, m.log ++ [alloc m.log]⟩) := by
          rw [kzalloc, if_neg hne]
        have hlog := va2pteFrom_log alloc va level (alloc m.log) true
          ((kzalloc alloc m).2.store (table, PX (level + 1) va) (PA2PTE (alloc m.log) ||| PTE_V))
        rcases ih fresh ht with ⟨hmem, heq⟩ | hrest
        · rw [heq]
          rw [hk] at hmem hlog
          by_cases hslot : t = table ∧ i = PX (level + 1) va
          · obtain ⟨rfl, rfl⟩ := hslot
            refine .inr (.inr ⟨alloc m.log, ?_, set_self _ _ _ _⟩)
            rw [hk]
            exact hlog.subset (List.mem_append_right _ List.mem_cons_self)
          · have hset : ((kzalloc alloc m).2.store (table, PX (level + 1) va)
                (PA2PTE (alloc m.log) ||| PTE_V)).tab t i = (kzalloc alloc m).2.tab t i :=
              set_of_ne _ _ hslot
            rw [hset, hk]
            by_cases hnew : t = alloc m.log
            · rw [hnew]
              simp
            · refine .inl ⟨?_, by simp [Function.update_of_ne hnew]⟩
              rcases List.mem_append.mp hmem with h | h
              · exact h
              · exact absurd (List.mem_singleton.mp h) hnew
        · exact .inr hrest

variable {alloc : List Nat → Nat} {root : Nat} {path : Nat → List Nat} {m : PtMem}

/-- A walk that creates tables. -/
theorem Walkable.va2pte (w : Walkable root path m) {va : Nat}
    (fresh : Fresh (va2pte alloc m root va true).2.log)
    (phys : ∀ p ∈ (Mm.va2pte alloc m root va true).2.log, p < 2 ^ 56) :
    ∃ pte path' m', Mm.va2pte alloc m root va true = (some pte, m') ∧ Walkable root path' m'
      ∧ locate nextTable m'.tab root (keyFrom va 2) = some pte := by
  obtain ⟨pte, path', m', hrun, shape, grown, hloc⟩ := va2pte_true w.shape fresh
  refine ⟨pte, path', m', hrun, ⟨shape, fun n hn hlen i => ?_⟩, hloc⟩
  have hm' : (va2pteFrom alloc va true 2 root m).2 = m' := congrArg Prod.snd hrun
  have hentry := va2pteFrom_entries 2 fresh (t := n) (by rw [hm']; exact hn) i
  simp only [hm'] at hentry
  rw [hrun] at fresh phys
  rcases hentry with ⟨hold, heq⟩ | heq | ⟨p, hp, heq⟩
  · rw [heq]
    rw [grown.path_eq n hold] at hlen
    exact w.link n hold hlen i
  · exact .inl heq
  · exact .inr ⟨p, phys p hp, (PAGE_ALIGNED_iff p).mp (fresh.aligned p hp), heq⟩

/-- Writing a leaf. -/
theorem Walkable.store (w : Walkable root path m) {va v : Nat} {pte : Nat × Nat}
    (hloc : locate nextTable m.tab root (keyFrom va 2) = some pte) :
    Walkable root path (m.store pte v) := by
  refine ⟨(store_spec w.shape hloc).1, fun n hn hlen i => ?_⟩
  have hdepth : (path root).length + (keyFrom va 2).length = 3 := by
    rw [w.shape.root_path, length_keyFrom]
    rfl
  obtain ⟨-, hpath⟩ := locate_mem w.shape w.shape.root_mem hdepth hloc
  have hlast : (path pte.1).length = 2 := by
    have hlen := congrArg List.length hpath
    rw [w.shape.root_path, List.nil_append, List.length_append, List.length_singleton,
      length_keyFrom] at hlen
    exact Nat.succ.inj hlen
  have hne : ¬(n = pte.1 ∧ i = pte.2) := by
    rintro ⟨rfl, -⟩
    omega
  have hset : (m.store pte v).tab n i = m.tab n i := set_of_ne _ _ hne
  rw [hset]
  exact w.link n hn hlen i

theorem Walkable.mappagesFrom {va pa perm n i : Nat} (w : Walkable root path m)
    (fresh : Fresh (mappagesFrom alloc root va pa perm n i m).2.log)
    (phys : ∀ p ∈ (Mm.mappagesFrom alloc root va pa perm n i m).2.log, p < 2 ^ 56) :
    ∃ path', Walkable root path' (Mm.mappagesFrom alloc root va pa perm n i m).2 := by
  induction n generalizing i path m with
  | zero => exact ⟨path, w⟩
  | succ n ih =>
      obtain ⟨pte₀, -, m₀, hwalk, -⟩ := mappagesFrom_walk w.shape fresh
      have hlog : (Mm.va2pte alloc m root ((va + i * PAGE_SIZE) % 2 ^ 64) true).2.log
          <+: (Mm.mappagesFrom alloc root va pa perm (n + 1) i m).2.log := by
        rw [Mm.mappagesFrom, hwalk]
        simp only
        by_cases hm : m₀.load pte₀ &&& PTE_M ≠ 0
        · rw [if_pos hm]
        · rw [if_neg hm]
          exact mappagesFrom_log alloc root va pa perm n (i + 1) (m₀.store pte₀ _)
      obtain ⟨pte, path', m', hrun, w', hloc⟩ := w.va2pte (fresh.of_prefix hlog)
        fun p hp => phys p (hlog.subset hp)
      rw [Mm.mappagesFrom, hrun] at fresh phys ⊢
      simp only at fresh phys ⊢
      by_cases hm : m'.load pte &&& PTE_M ≠ 0
      · rw [if_pos hm]
        exact ⟨path', w'⟩
      · rw [if_neg hm] at fresh phys ⊢
        exact ih (w'.store hloc) fresh phys

theorem Walkable.mappages {va pa npages : Nat} {perm : BitVec 32} (w : Walkable root path m)
    (fresh : Fresh (mappages alloc m root va pa npages perm).2.log)
    (phys : ∀ p ∈ (Mm.mappages alloc m root va pa npages perm).2.log, p < 2 ^ 56) :
    ∃ path', Walkable root path' (Mm.mappages alloc m root va pa npages perm).2 := by
  rcases mappages_cases alloc m root va pa npages perm with h | h
  · rw [h]
    exact ⟨path, w⟩
  · rw [h] at fresh phys ⊢
    exact w.mappagesFrom fresh phys

/-! ## The entries of `mappages` -/

theorem testBit_leafPte {pa perm k : Nat} (h : pa + k * PAGE_SIZE < 2 ^ 64) {i : Nat} (hi : i < 8) :
    (leafPte pa perm k).testBit i = perm.testBit i := by
  have hm : PTE_M.testBit i = false := Nat.testBit_two_pow_of_ne (Nat.ne_of_gt hi)
  rw [leafPte, Nat.testBit_or, Nat.testBit_or, hm, PA2PTE_eq h, Nat.testBit_two_pow_mul]
  simp [show ¬10 ≤ i by omega]

theorem target_leafPte {pa perm k : Nat} (h : pa + k * PAGE_SIZE < 2 ^ 56)
    (hpa : pa % PAGE_SIZE = 0) (hperm : perm < 2 ^ 6) :
    Sv39.target (leafPte pa perm k) = pa + k * PAGE_SIZE := by
  have hsize : PAGE_SIZE = 4096 := rfl
  have hmul : (pa + k * PAGE_SIZE) % 4096 = 0 := by
    rw [hsize] at hpa ⊢
    omega
  have hflags : perm / 2 ^ 10 = 0 := Nat.div_eq_of_lt (Nat.lt_trans hperm (by decide))
  have hdiv : leafPte pa perm k / 2 ^ 10 = (pa + k * PAGE_SIZE) / 4096 := by
    rw [leafPte, PA2PTE_eq (Nat.lt_trans h (by decide)), ← Nat.shiftRight_eq_div_pow,
      Nat.shiftRight_or_distrib, Nat.shiftRight_or_distrib, Nat.shiftRight_eq_div_pow,
      Nat.shiftRight_eq_div_pow, Nat.shiftRight_eq_div_pow, Nat.mul_div_cancel_left _ (by decide),
      hflags, Nat.or_zero]
    exact Nat.or_zero _
  rw [Sv39.target, hdiv, Sv39.PAGE, Nat.mod_eq_of_lt (by omega),
    Nat.div_mul_cancel (Nat.dvd_of_mod_eq_zero hmul)]

end NoobKernel.Mm
