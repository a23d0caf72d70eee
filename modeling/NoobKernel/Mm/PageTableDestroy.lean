import NoobKernel.Mm.PageTableMap

set_option autoImplicit false

/-! # Freeing a page table (`mm/pagetable.c`)

`pagetable_destroy` follows the valid entries of the tables of the two inner levels and frees
every table after those below it. What `kfree` leaves in a freed page is a parameter. In a page
table that a run has built, every table is at the end of a walk from the root over inner entries
(`Linked`), and there is only one such walk to it, so that each page of table memory is freed once
(`pagetable_destroy_frees`); entries of the last level, which look the same, are not followed.
-/

namespace NoobKernel.Mm

open Radix Misc

/-- The page tables on the way, and the pages passed to `kfree`. -/
structure Teardown where
  tab : Nat → Nat → Nat
  freed : List Nat

/-- `kfree`; `junk` is what the page holds afterwards. -/
def Teardown.kfree (junk : List Nat → Nat → Nat) (t : Teardown) (page : Nat) : Teardown :=
  ⟨Function.update t.tab page (junk t.freed), t.freed ++ [page]⟩

def pagetableDestroyLevel (junk : List Nat → Nat → Nat) : Nat → Nat → Teardown → Teardown
  | 0, pagetable, t => if pagetable = 0 then t else t.kfree junk pagetable
  | level + 1, pagetable, t =>
      if pagetable = 0 then t
      else
        ((List.range 512).foldl (fun t i =>
          let pte := t.tab pagetable i
          if pte &&& PTE_V ≠ 0 then pagetableDestroyLevel junk level (PTE2PA pte) t else t)
          t).kfree junk pagetable

def pagetableDestroy (junk : List Nat → Nat → Nat) (pagetable : Nat) (t : Teardown) : Teardown :=
  if pagetable = 0 then t else pagetableDestroyLevel junk 2 pagetable t

/-! ## The order of the traversal -/

/-- The tables of a page table, each after those below it. -/
def tablesBelow (tab : Nat → Nat → Nat) (level n : Nat) : List Nat :=
  subtree nextTable (List.range 512) tab level n

variable {junk : List Nat → Nat → Nat} {tab : Nat → Nat → Nat} {level n : Nat} {t : Teardown}

/-- The page is freed, behind those of `pages`. -/
def Frees (t t' : Teardown) (pages : List Nat) : Prop :=
  t'.freed = t.freed ++ pages ∧ ∀ p ∉ pages, t'.tab p = t.tab p

theorem Frees.refl (t : Teardown) : Frees t t [] := ⟨(List.append_nil _).symm, fun _ _ => rfl⟩

theorem Frees.trans {t t' t'' : Teardown} {xs ys : List Nat} (h : Frees t t' xs)
    (h' : Frees t' t'' ys) : Frees t t'' (xs ++ ys) := by
  refine ⟨?_, fun p hp => ?_⟩
  · rw [h'.1, h.1, List.append_assoc]
  · rw [List.mem_append, not_or] at hp
    rw [h'.2 p hp.2, h.2 p hp.1]

theorem Frees.kfree (junk : List Nat → Nat → Nat) (t : Teardown) (page : Nat) :
    Frees t (t.kfree junk page) [page] :=
  ⟨rfl, fun _ hp => Function.update_of_ne (fun heq => hp (List.mem_singleton.mpr heq)) _ _⟩

/-- What lies below an entry. -/
def below (tab : Nat → Nat → Nat) (level n i : Nat) : List Nat :=
  ((nextTable (tab n i)).map (tablesBelow tab level)).getD []

/-- The loop over the entries of a table, some of which are left. No page is read after it has
been freed. -/
theorem loop_frees {is : List Nat} (hlevel : ∀ {n : Nat} {t : Teardown},
      (∀ p ∈ tablesBelow tab level n, t.tab p = tab p) → (tablesBelow tab level n).Nodup →
      (∀ p ∈ tablesBelow tab level n, p ≠ 0) →
      Frees t (pagetableDestroyLevel junk level n t) (tablesBelow tab level n))
    (hsame : ∀ p ∈ is.flatMap (below tab level n), t.tab p = tab p)
    (hnodup : (is.flatMap (below tab level n)).Nodup)
    (hne : ∀ p ∈ is.flatMap (below tab level n), p ≠ 0)
    (htab : t.tab n = tab n) (hnot : n ∉ is.flatMap (below tab level n)) :
    Frees t (is.foldl (fun t i =>
        let pte := t.tab n i
        if pte &&& PTE_V ≠ 0 then pagetableDestroyLevel junk level (PTE2PA pte) t else t) t)
      (is.flatMap (below tab level n)) := by
  induction is generalizing t with
  | nil => exact .refl t
  | cons i is ih =>
      rw [List.flatMap_cons] at hsame hnodup hne hnot ⊢
      rw [List.mem_append, not_or] at hnot
      obtain ⟨hfirst, hrest, hdisj⟩ := List.nodup_append.mp hnodup
      -- the first entry
      have hstep : Frees t (if t.tab n i &&& PTE_V ≠ 0 then
          pagetableDestroyLevel junk level (PTE2PA (t.tab n i)) t else t) (below tab level n i) := by
        rw [htab]
        by_cases hv : tab n i &&& PTE_V ≠ 0
        · have hbelow : below tab level n i = tablesBelow tab level (PTE2PA (tab n i)) := by
            rw [below, nextTable, if_pos hv]
            rfl
          rw [if_pos hv]
          rw [hbelow] at hsame hfirst hne ⊢
          exact hlevel (fun p hp => hsame p (List.mem_append_left _ hp)) hfirst
            fun p hp => hne p (List.mem_append_left _ hp)
        · have hbelow : below tab level n i = [] := by
            rw [below, nextTable, if_neg hv]
            rfl
          rw [if_neg hv, hbelow]
          exact .refl t
      rw [List.foldl_cons]
      refine hstep.trans (ih (fun p hp => ?_) hrest (fun p hp => hne p (List.mem_append_right _ hp))
        ?_ hnot.2)
      · have hp' : p ∉ below tab level n i := fun hmem => hdisj p hmem p hp rfl
        rw [hstep.2 p hp', hsame p (List.mem_append_right _ hp)]
      · rw [hstep.2 n hnot.1, htab]

/-- The recursion frees the tables in this order, if no page occurs twice. -/
theorem pagetableDestroyLevel_frees (hsame : ∀ p ∈ tablesBelow tab level n, t.tab p = tab p)
    (hnodup : (tablesBelow tab level n).Nodup) (hne : ∀ p ∈ tablesBelow tab level n, p ≠ 0) :
    Frees t (pagetableDestroyLevel junk level n t) (tablesBelow tab level n) := by
  induction level generalizing n t with
  | zero =>
      have hn : n ≠ 0 := hne n (List.mem_singleton_self n)
      rw [pagetableDestroyLevel, if_neg hn]
      exact .kfree junk t n
  | succ level ih =>
      have hself : n ∈ [n] := List.mem_singleton_self n
      have hlist : tablesBelow tab (level + 1) n
          = (List.range 512).flatMap (below tab level n) ++ [n] := rfl
      rw [hlist] at hsame hnodup hne ⊢
      obtain ⟨hbelow, -, hdisj⟩ := List.nodup_append.mp hnodup
      have hn : n ≠ 0 := hne n (List.mem_append_right _ hself)
      rw [pagetableDestroyLevel, if_neg hn]
      refine Frees.trans (loop_frees ih (fun p hp => hsame p (List.mem_append_left _ hp)) hbelow
        (fun p hp => hne p (List.mem_append_left _ hp)) (hsame n (List.mem_append_right _ hself))
        fun hmem => hdisj n hmem n hself rfl) (.kfree junk _ n)

/-! ## The tables of a run -/

/-- A walk over entries that exist leads to every table. -/
def Linked (root : Nat) (m : PtMem) : Prop :=
  Covered nextTable 3 root m.log (List.range 512) m.tab

variable {alloc : List Nat → Nat} {root va : Nat} {path : Nat → List Nat} {m : PtMem}

theorem PX_lt (level va : Nat) : PX level va < 512 := by
  rw [PX_eq]
  exact Nat.mod_lt _ (by decide)

/-- What `va2pte` creates is linked. -/
theorem va2pteFrom_linked {table : Nat} {key : List Nat} (shape : Shape root path m)
    (linked : Linked root m) (hkey : ∀ i ∈ key, i ∈ List.range 512)
    (hwalk : walk nextTable m.tab root key = some table) (hlen : key.length + level = 2)
    (fresh : Fresh (va2pteFrom alloc va true level table m).2.log) :
    Linked root (va2pteFrom alloc va true level table m).2 := by
  induction level generalizing table key path m with
  | zero => exact linked
  | succ level ih =>
      have hroot : (path root).length + key.length < 3 := by
        rw [shape.root_path, List.length_nil]
        omega
      obtain ⟨htable, hpath⟩ := walk_mem shape shape.root_mem hroot hwalk
      rw [shape.root_path, List.nil_append] at hpath
      have hinner : (path table).length + 1 < 3 := by
        rw [hpath]
        omega
      have hindex : ∀ i ∈ key ++ [PX (level + 1) va], i ∈ List.range 512 := by
        intro i hi
        rcases List.mem_append.mp hi with hi | hi
        · exact hkey i hi
        · rw [List.mem_singleton.mp hi, List.mem_range]
          exact PX_lt _ _
      have hlen' : (key ++ [PX (level + 1) va]).length + level = 2 := by
        rw [List.length_append, List.length_singleton]
        omega
      rcases va2pteFrom_succ fresh with ⟨next, hnext, hrun⟩ | ⟨hnext, hfresh, hrun⟩
      · -- the table of the next level is there
        rw [hrun] at fresh ⊢
        refine ih shape linked hindex ?_ hlen' fresh
        rw [walk_append, hwalk, Option.bind_some, walk, hnext]
        rfl
      · -- it is made, and the new page is reached by one more index
        obtain ⟨path₁, -, hchild, shape₁, grown₁⟩ := grown_link shape htable hinner hnext hfresh
        have hlog : ((kzalloc alloc m).2.store (table, PX (level + 1) va)
            (PA2PTE (alloc m.log) ||| PTE_V)).log = m.log ++ [alloc m.log] := kzalloc_log alloc m
        rw [hrun] at fresh ⊢
        generalize (kzalloc alloc m).2.store (table, PX (level + 1) va)
          (PA2PTE (alloc m.log) ||| PTE_V) = m₁ at fresh hchild shape₁ grown₁ hlog ⊢
        have hwalk₁ : walk nextTable m₁.tab root (key ++ [PX (level + 1) va])
            = some (alloc m.log) := by
          have hsame := walk_mono shape grown₁.links shape.root_mem hroot hwalk
          rw [walk_append, hsame, Option.bind_some, walk, hchild]
          rfl
        refine ih shape₁ (fun p hp => ?_) hindex hwalk₁ hlen' fresh
        rw [hlog, List.mem_append, List.mem_singleton] at hp
        rcases hp with hp | rfl
        · exact linked.mono shape grown₁.links p hp
        · exact ⟨_, by omega, hindex, hwalk₁⟩

theorem va2pte_linked (shape : Shape root path m) (linked : Linked root m)
    (fresh : Fresh (va2pte alloc m root va true).2.log) :
    Linked root (va2pte alloc m root va true).2 := by
  have hempty : ∀ i ∈ ([] : List Nat), i ∈ List.range 512 := fun _ h => absurd h List.not_mem_nil
  exact va2pteFrom_linked shape linked hempty rfl rfl fresh

/-- A leaf entry links nothing. -/
theorem store_linked {pte : Nat × Nat} (shape : Shape root path m) (linked : Linked root m)
    (h : locate nextTable m.tab root (keyFrom va 2) = some pte) (v : Nat) :
    Linked root (m.store pte v) := by
  have hdepth : (path root).length + (keyFrom va 2).length = 3 := by
    rw [shape.root_path, length_keyFrom]
    rfl
  obtain ⟨-, hpath⟩ := locate_mem shape shape.root_mem hdepth h
  refine Covered.mono linked shape fun n _ hinner i _ _ => set_of_ne _ _ ?_
  rintro ⟨rfl, -⟩
  have hlen := congrArg List.length hpath
  rw [shape.root_path, List.nil_append, List.length_append, List.length_singleton,
    length_keyFrom] at hlen
  omega

/-- Whatever the outcome of `mappages`, the tables stay linked. -/
theorem mappagesFrom_linked {pa perm n i : Nat} (shape : Shape root path m)
    (linked : Linked root m) (fresh : Fresh (mappagesFrom alloc root va pa perm n i m).2.log) :
    Linked root (mappagesFrom alloc root va pa perm n i m).2 := by
  induction n generalizing i path m with
  | zero => exact linked
  | succ n ih =>
      have hlog : (va2pte alloc m root ((va + i * PAGE_SIZE) % 2 ^ 64) true).2.log
          <+: (mappagesFrom alloc root va pa perm (n + 1) i m).2.log := by
        rw [mappagesFrom]
        split
        · rename_i hwalk
          rw [hwalk]
        · rename_i hwalk
          rw [hwalk]
          split
          · exact List.prefix_rfl
          · exact mappagesFrom_log _ _ _ _ _ _ _ (PtMem.store _ _ _)
      -- the walk links the tables it makes; the entry of a page is in a table of the last level
      have hwalked := va2pte_linked shape linked (fresh.of_prefix hlog)
      obtain ⟨pte, path', m', hwalk, shape', -, hloc⟩ := va2pte_true shape (fresh.of_prefix hlog)
      rw [hwalk] at hwalked
      rw [mappagesFrom, hwalk] at fresh ⊢
      simp only at fresh ⊢
      split at fresh
      · rename_i hmapped
        rw [if_pos hmapped]
        exact hwalked
      · rename_i hfree
        rw [if_neg hfree]
        exact ih (store_spec shape' hloc).1 (store_linked shape' hwalked hloc _) fresh

theorem unmappages_linked (shape : Shape root path m) (linked : Linked root m) (vm npages : Nat) :
    Linked root (unmappages m root vm npages).2 := by
  rw [unmappages]
  simp only
  generalize List.range _ = l
  induction l generalizing m with
  | nil => exact linked
  | cons i l ih =>
      rw [List.foldl_cons]
      refine ih ((unmapPage_spec m root _).2 path shape) ?_
      generalize PAGE_ALIGN_DOWN vm + i * PAGE_SIZE = a
      rw [unmapPage, va2pte, va2pteFrom_false]
      cases hloc : locate nextTable m.tab root (keyFrom a 2) with
      | none => exact linked
      | some pte =>
          simp only
          split
          · exact store_linked shape linked hloc 0
          · exact linked

theorem Built.linked (built : Built alloc root m) (fresh : Fresh m.log) : Linked root m := by
  induction built with
  | create run =>
      rename_i tab m
      have hlog : m.log = [root] := by
        have hfst := kzalloc_fst alloc ⟨tab, []⟩
        have hsnd := kzalloc_log alloc ⟨tab, []⟩
        rw [pagetableCreate] at run
        rw [run] at hfst hsnd
        rw [hsnd, List.nil_append, ← hfst]
      intro p hp
      rw [hlog, List.mem_singleton] at hp
      rw [hp]
      exact ⟨[], by decide, fun _ h => absurd h List.not_mem_nil, rfl⟩
  | mappages built va pa npages perm ih =>
      rename_i m
      have hprefix := fresh.of_prefix (mappages_log alloc m root va pa npages perm)
      obtain ⟨path, shape⟩ := built.shape hprefix
      rcases mappages_cases alloc m root va pa npages perm with h | h
      · rw [h]
        exact ih hprefix
      · rw [h] at fresh ⊢
        exact mappagesFrom_linked shape (ih hprefix) fresh
  | unmappages built vm npages ih =>
      rename_i m
      obtain ⟨hlog, -⟩ := unmappages_spec m root vm npages
      rw [hlog] at fresh
      obtain ⟨path, shape⟩ := built.shape fresh
      exact unmappages_linked shape (ih fresh) vm npages

/-- **Freeing a page table** passes the root and every table that `va2pte` has ever allocated for
it to `kfree` once, and no other page, whichever pages the leaf entries map. -/
theorem pagetable_destroy_frees (built : Built alloc root m) (fresh : Fresh m.log)
    (junk : List Nat → Nat → Nat) (page : Nat) :
    (pagetableDestroy junk root ⟨m.tab, []⟩).freed.count page
      = if page ∈ m.log then 1 else 0 := by
  obtain ⟨path, shape⟩ := built.shape fresh
  have hperm : (tablesBelow m.tab 2 root).Perm m.log :=
    subtree_perm shape (built.linked fresh) fresh.nodup List.nodup_range
  have hfrees : Frees ⟨m.tab, []⟩ (pagetableDestroyLevel junk 2 root ⟨m.tab, []⟩)
      (tablesBelow m.tab 2 root) :=
    pagetableDestroyLevel_frees (fun _ _ => rfl) (hperm.nodup_iff.mpr fresh.nodup)
      fun p hp => fresh.ne_zero p (hperm.mem_iff.mp hp)
  have hroot := fresh.ne_zero root shape.root_mem
  rw [pagetableDestroy, if_neg hroot, hfrees.1, List.nil_append, hperm.count_eq]
  split
  · rename_i hmem
    exact List.count_eq_one_of_mem fresh.nodup hmem
  · rename_i hmem
    exact List.count_eq_zero_of_not_mem hmem

/-- Two pages across the border of two leaf tables, with every permission bit set in the entries;
one is unmapped again, and mapping the other a second time fails. -/
def twoTables : PtMem :=
  let m := (pagetableCreate bumpAlloc ⟨fun _ _ => 0, []⟩).2
  let m := (mappages bumpAlloc m 0x80400000 0x1ff000 0x80000000 2 0x3f).2
  let m := (unmappages m 0x80400000 0x1ff000 1).2
  (mappages bumpAlloc m 0x80400000 0x200000 0x80000000 1 0x3f).2

/-- A leaf table is freed once, and the mapped page is not. -/
theorem pagetable_destroy_frees_two :
    (pagetableDestroy (fun _ _ => 1) 0x80400000 ⟨twoTables.tab, []⟩).freed.count 0x80403000 = 1
      ∧ (pagetableDestroy (fun _ _ => 1) 0x80400000 ⟨twoTables.tab, []⟩).freed.count 0x80001000
        = 0 := by
  have hroot : (pagetableCreate bumpAlloc ⟨fun _ _ => 0, []⟩).1 = 0x80400000 := by decide
  have hlog : twoTables.log = [0x80400000, 0x80401000, 0x80402000, 0x80403000] := by decide +kernel
  have built : Built bumpAlloc 0x80400000 twoTables :=
    .mappages (.unmappages (.mappages (.create (Prod.ext hroot rfl)) _ _ _ _) _ _) _ _ _ _
  have fresh : Fresh twoTables.log := by
    rw [hlog]
    exact ⟨by decide, by decide, by decide, by decide⟩
  have htable : 0x80403000 ∈ twoTables.log := by
    rw [hlog]
    decide
  have hmapped : 0x80001000 ∉ twoTables.log := by
    rw [hlog]
    decide
  exact ⟨(pagetable_destroy_frees built fresh _ _).trans (if_pos htable),
    (pagetable_destroy_frees built fresh _ _).trans (if_neg hmapped)⟩

end NoobKernel.Mm
