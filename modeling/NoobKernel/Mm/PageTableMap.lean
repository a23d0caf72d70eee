import NoobKernel.Mm.PageTable

set_option autoImplicit false

/-! # Mapping semantics of the page tables

A page table is a radix tree of depth three (`Lib/Radix.lean`), keyed by the three 9-bit
indices of an address. `va2pte` without creation is `Radix.locate`, with creation it links
blank tables and changes no lookup, and `mappages` then writes one leaf slot a page. What a
caller sees of a table, the mapped flag and `walkaddr`, depends on the leaf entry alone
(`leaf`), so the result follows page by page (`mappages_maps`).
-/

namespace NoobKernel.Mm

open Radix Misc

/-! ## Entries -/

theorem PX_eq (level va : Nat) : PX level va = va / 2 ^ (12 + 9 * level) % 512 := by
  have h : PXMASK = 2 ^ 9 - 1 := rfl
  rw [PX, PXSHIFT, PAGE_SHIFT, h, Nat.and_two_pow_sub_one_eq_mod, Nat.shiftRight_eq_div_pow]

theorem PAGE_ALIGNED_iff (a : Nat) : PAGE_ALIGNED a = true ↔ a % PAGE_SIZE = 0 := by
  rw [PAGE_ALIGNED, PAGE_SIZE_eq]
  exact ALIGNED_two_pow a (by decide)

theorem PA2PTE_eq {pa : Nat} (h : pa < 2 ^ 64) : PA2PTE pa = 2 ^ 10 * (pa / 4096) := by
  rw [PA2PTE, PAGE_SHIFT, Nat.shiftRight_eq_div_pow, Nat.shiftLeft_eq, Nat.mod_eq_of_lt] <;> omega

/-- An entry gives back the page it was made for, whatever its flags. -/
theorem PTE2PA_PA2PTE {pa flags : Nat} (h : pa < 2 ^ 64) (aligned : pa % PAGE_SIZE = 0)
    (hflags : flags < 2 ^ 10) : PTE2PA (PA2PTE pa ||| flags) = pa := by
  have hsize : PAGE_SIZE = 4096 := rfl
  rw [hsize] at aligned
  rw [PA2PTE_eq h, ← Nat.two_pow_add_eq_or_of_lt hflags, PTE2PA, PAGE_SHIFT,
    Nat.shiftRight_eq_div_pow, Nat.shiftLeft_eq]
  have hdiv : (2 ^ 10 * (pa / 4096) + flags) / 2 ^ 10 = pa / 4096 := by omega
  rw [hdiv]
  omega

theorem or_two_pow_and (x k : Nat) : (x ||| 2 ^ k) &&& 2 ^ k ≠ 0 := by
  intro h
  have := congrArg (fun n => n.testBit k) h
  simp [Nat.testBit_two_pow_self] at this

/-- The table an entry of an inner table points to. -/
def nextTable (pte : Nat) : Option Nat :=
  if pte &&& PTE_V ≠ 0 then some (PTE2PA pte) else none

theorem nextTable_link {page : Nat} (h : page < 2 ^ 64) (aligned : page % PAGE_SIZE = 0) :
    nextTable (PA2PTE page ||| PTE_V) = some page := by
  have hv : (PA2PTE page ||| PTE_V) &&& PTE_V ≠ 0 := or_two_pow_and _ 0
  rw [nextTable, if_pos hv, PTE2PA_PA2PTE h aligned (by decide)]

theorem nextTable_zero : nextTable 0 = none := by
  rw [nextTable, Nat.zero_and, if_neg (by simp)]

/-! ## The key of an address -/

/-- The indices of an address from a level down. -/
def keyFrom (va : Nat) : Nat → List Nat
  | 0 => [PX 0 va]
  | level + 1 => PX (level + 1) va :: keyFrom va level

@[simp] theorem length_keyFrom (va level : Nat) : (keyFrom va level).length = level + 1 := by
  induction level with
  | zero => rfl
  | succ level ih => rw [keyFrom, List.length_cons, ih]

theorem keyFrom_ne_nil (va level : Nat) : ∃ j is, keyFrom va level = j :: is := by
  cases level with
  | zero => exact ⟨_, _, rfl⟩
  | succ level => exact ⟨_, _, rfl⟩

/-- Below `VM_END` the key determines the page. -/
theorem keyFrom_inj {a b : Nat} (ha : a < VM_END) (hb : b < VM_END) :
    keyFrom a 2 = keyFrom b 2 ↔ a / PAGE_SIZE = b / PAGE_SIZE := by
  have hend : VM_END = 2 ^ 38 := rfl
  have hsize : PAGE_SIZE = 4096 := rfl
  rw [hend] at ha hb
  simp only [keyFrom, PX_eq, List.cons.injEq, and_true, hsize]
  omega

/-! ## Walking without creation -/

theorem va2pteFrom_false (alloc : List Nat → Nat) (va level pagetable : Nat) (m : PtMem) :
    va2pteFrom alloc va false level pagetable m
      = (locate nextTable m.tab pagetable (keyFrom va level), m) := by
  induction level generalizing pagetable with
  | zero => rfl
  | succ level ih =>
      obtain ⟨j, is, hkey⟩ := keyFrom_ne_nil va level
      rw [keyFrom, hkey, locate, ← hkey]
      rw [va2pteFrom]
      by_cases hv : m.load (pagetable, PX (level + 1) va) &&& PTE_V ≠ 0
      · have hnext : nextTable (m.tab pagetable (PX (level + 1) va))
            = some (PTE2PA (m.load (pagetable, PX (level + 1) va))) := if_pos hv
        simp only [if_pos hv, hnext]
        exact ih _
      · have hnext : nextTable (m.tab pagetable (PX (level + 1) va)) = none := if_neg hv
        simp only [if_neg hv, hnext, if_true]

/-- The leaf entry of an address, `0` where a table is missing. -/
def leaf (m : PtMem) (root va : Nat) : Nat := lookup nextTable 0 m.tab root (keyFrom va 2)

theorem walkaddr_eq (m : PtMem) (root va : Nat) :
    walkaddr m root va
      = if VM_END ≤ va then 0
        else if leaf m root va &&& PTE_M = 0 then 0 else PTE2PA (leaf m root va) := by
  rw [walkaddr, va2pte, va2pteFrom_false, leaf, lookup]
  cases locate nextTable m.tab root (keyFrom va 2) with
  | none => simp
  | some pte => rfl

theorem mapped_eq (m : PtMem) (root va : Nat) :
    mapped m root va = decide (leaf m root va &&& PTE_M ≠ 0) := by
  rw [mapped, va2pte, va2pteFrom_false, leaf, lookup]
  cases locate nextTable m.tab root (keyFrom va 2) with
  | none => simp
  | some pte => rfl

/-! ## Walking with creation -/

theorem Fresh.of_prefix {l l' : List Nat} (h : Fresh l') (hp : l <+: l') : Fresh l where
  nodup := h.nodup.sublist hp.sublist
  ne_zero p hm := h.ne_zero p (hp.subset hm)
  aligned p hm := h.aligned p (hp.subset hm)
  lt p hm := h.lt p (hp.subset hm)

theorem kzalloc_fst (alloc : List Nat → Nat) (m : PtMem) :
    (kzalloc alloc m).1 = alloc m.log := by
  rw [kzalloc]
  by_cases h : alloc m.log = 0
  · simp only [h, if_true]
  · simp only [if_neg h]

theorem kzalloc_log (alloc : List Nat → Nat) (m : PtMem) :
    (kzalloc alloc m).2.log = m.log ++ [alloc m.log] := by
  rw [kzalloc]
  by_cases h : alloc m.log = 0
  · simp only [h, if_true]
  · simp only [if_neg h]

theorem va2pteFrom_log (alloc : List Nat → Nat) (va level pagetable : Nat) (create : Bool)
    (m : PtMem) : m.log <+: (va2pteFrom alloc va create level pagetable m).2.log := by
  induction level generalizing pagetable m with
  | zero => exact List.prefix_rfl
  | succ level ih =>
      rw [va2pteFrom]
      by_cases hv : m.load (pagetable, PX (level + 1) va) &&& PTE_V ≠ 0
      · simp only [if_pos hv]
        exact ih _ _
      · simp only [if_neg hv]
        by_cases hc : create = false
        · rw [if_pos hc]
        · rw [if_neg hc]
          have hlog : m.log <+: (kzalloc alloc m).2.log := by
            rw [kzalloc_log]
            exact List.prefix_append _ _
          by_cases hz : (kzalloc alloc m).1 = 0
          · simp only [if_pos hz]
            exact hlog
          · simp only [if_neg hz]
            exact hlog.trans (ih _ ((kzalloc alloc m).2.store _ _))

/-- The tables in memory form a tree below the root. -/
def Shape (root : Nat) (path : Nat → List Nat) (m : PtMem) : Prop :=
  Tree nextTable 3 root m.log path m.tab

/-- What stays of a memory when tables are added. -/
def Grown (path path' : Nat → List Nat) (m m' : PtMem) : Prop :=
  Extends nextTable 3 0 m.log m'.log path path' m.tab m'.tab

theorem Grown.leaf_eq {root va : Nat} {path path' : Nat → List Nat} {m m' : PtMem}
    (h : Grown path path' m m') (shape : Shape root path m) : leaf m' root va = leaf m root va := by
  refine h.lookup_eq root shape.root_mem _ ?_
  rw [shape.root_path, length_keyFrom]
  rfl

/-- A missing table is allocated and linked without any visible change. -/
theorem grown_link {alloc : List Nat → Nat} {root table i : Nat} {path : Nat → List Nat}
    {m : PtMem} (shape : Shape root path m) (htable : table ∈ m.log)
    (hlen : (path table).length + 1 < 3) (empty : nextTable (m.tab table i) = none)
    (fresh : Fresh (m.log ++ [alloc m.log])) :
    ∃ path', path' (alloc m.log) = path table ++ [i]
      ∧ nextTable (((kzalloc alloc m).2.store (table, i) (PA2PTE (alloc m.log) ||| PTE_V)).tab
          table i) = some (alloc m.log)
      ∧ Shape root path' ((kzalloc alloc m).2.store (table, i) (PA2PTE (alloc m.log) ||| PTE_V))
      ∧ Grown path path' m
          ((kzalloc alloc m).2.store (table, i) (PA2PTE (alloc m.log) ||| PTE_V)) := by
  have hmem : alloc m.log ∈ m.log ++ [alloc m.log] := by simp
  have hne := fresh.ne_zero _ hmem
  have hnew : alloc m.log ∉ m.log := fun h =>
    (List.nodup_append.mp fresh.nodup).2.2 _ h _ (List.mem_singleton.mpr rfl) rfl
  have hnext := nextTable_link (fresh.lt _ hmem) ((PAGE_ALIGNED_iff _).mp (fresh.aligned _ hmem))
  have hk : kzalloc alloc m
      = (alloc m.log, ⟨Function.update m.tab (alloc m.log) fun _ => 0, m.log ++ [alloc m.log]⟩) := by
    rw [kzalloc, if_neg hne]
  -- the new table stands one step below the one it is linked in
  refine ⟨Function.update path (alloc m.log) (path table ++ [i]), Function.update_self _ _ _,
    ?_, ?_, ?_⟩
  · rw [hk]
    show nextTable (link 0 m.tab table i (alloc m.log) _ table i) = _
    rw [link_self]
    exact hnext
  · rw [hk]
    exact Tree.link shape htable hlen empty hnew hnext nextTable_zero
  · rw [hk]
    exact Extends.link shape htable hlen empty hnew hnext nextTable_zero

/-- One level of the walk: the table exists, or it is allocated and linked. -/
theorem va2pteFrom_succ {alloc : List Nat → Nat} {va level table : Nat} {m : PtMem}
    (fresh : Fresh (va2pteFrom alloc va true (level + 1) table m).2.log) :
    (∃ next, nextTable (m.tab table (PX (level + 1) va)) = some next
        ∧ va2pteFrom alloc va true (level + 1) table m = va2pteFrom alloc va true level next m)
      ∨ nextTable (m.tab table (PX (level + 1) va)) = none ∧ Fresh (m.log ++ [alloc m.log])
        ∧ va2pteFrom alloc va true (level + 1) table m
          = va2pteFrom alloc va true level (alloc m.log) ((kzalloc alloc m).2.store
              (table, PX (level + 1) va) (PA2PTE (alloc m.log) ||| PTE_V)) := by
  rw [va2pteFrom] at fresh ⊢
  by_cases hv : m.load (table, PX (level + 1) va) &&& PTE_V ≠ 0
  · simp only [if_pos hv]
    exact .inl ⟨_, if_pos hv, rfl⟩
  · simp only [if_neg hv, Bool.true_eq_false, if_false] at fresh ⊢
    have hprefix : m.log ++ [alloc m.log] <+:
        (if (kzalloc alloc m).1 = 0 then ((none : Option (Nat × Nat)), (kzalloc alloc m).2)
          else va2pteFrom alloc va true level (kzalloc alloc m).1
            ((kzalloc alloc m).2.store (table, PX (level + 1) va)
              (PA2PTE (kzalloc alloc m).1 ||| PTE_V))).2.log := by
      rw [← kzalloc_log]
      by_cases hz : (kzalloc alloc m).1 = 0
      · rw [if_pos hz]
      · rw [if_neg hz]
        exact va2pteFrom_log _ _ _ _ _ ((kzalloc alloc m).2.store _ _)
    have hfresh := fresh.of_prefix hprefix
    have hne : alloc m.log ≠ 0 := hfresh.ne_zero _ (by simp)
    rw [kzalloc_fst, if_neg hne]
    exact .inr ⟨if_neg hv, hfresh, rfl⟩

/-- **What `va2pte` does when it may create**: it finds the slot of the address, after adding
tables that change no lookup. -/
theorem va2pteFrom_true {alloc : List Nat → Nat} {va root : Nat} (level : Nat) {table : Nat}
    {path : Nat → List Nat} {m : PtMem} (shape : Shape root path m) (htable : table ∈ m.log)
    (hlen : (path table).length + level = 2)
    (fresh : Fresh (va2pteFrom alloc va true level table m).2.log) :
    ∃ pte path' m', va2pteFrom alloc va true level table m = (some pte, m')
      ∧ Shape root path' m' ∧ Grown path path' m m'
      ∧ locate nextTable m'.tab table (keyFrom va level) = some pte := by
  induction level generalizing table path m with
  | zero => exact ⟨(table, PX 0 va), path, m, rfl, shape, Extends.refl, rfl⟩
  | succ level ih =>
      obtain ⟨j, is, hkey⟩ := keyFrom_ne_nil va level
      have hinner : (path table).length + 1 < 3 := by omega
      rcases va2pteFrom_succ fresh with ⟨next, hnext, hrun⟩ | ⟨hnext, hfresh, hrun⟩
      · -- the table exists
        obtain ⟨hmem, hpath⟩ := shape.child_mem table htable hinner _ _ hnext
        rw [hrun] at fresh ⊢
        obtain ⟨pte, path', m', hrun', shape', grown, hloc⟩ := ih shape hmem
          (by rw [hpath, List.length_append, List.length_singleton]; omega) fresh
        refine ⟨pte, path', m', hrun', shape', grown, ?_⟩
        rw [keyFrom, hkey, locate, grown.links table htable hinner _ _ hnext, hnext, ← hkey]
        exact hloc
      · -- a table is created
        obtain ⟨path₁, hpath, hchild, shape₁, grown₁⟩ :=
          grown_link shape htable hinner hnext hfresh
        have hmem₁ : alloc m.log ∈ ((kzalloc alloc m).2.store (table, PX (level + 1) va)
            (PA2PTE (alloc m.log) ||| PTE_V)).log := by
          show _ ∈ (kzalloc alloc m).2.log
          rw [kzalloc_log]
          simp
        rw [hrun] at fresh ⊢
        generalize (kzalloc alloc m).2.store (table, PX (level + 1) va)
          (PA2PTE (alloc m.log) ||| PTE_V) = m₁ at fresh hchild shape₁ grown₁ hmem₁ ⊢
        have htable₁ := grown₁.mem table htable
        have hinner₁ : (path₁ table).length + 1 < 3 := by
          rw [grown₁.path_eq table htable]
          exact hinner
        obtain ⟨pte, path', m', hrun', shape', grown', hloc⟩ := ih shape₁ hmem₁
          (by rw [hpath, List.length_append, List.length_singleton]; omega) fresh
        refine ⟨pte, path', m', hrun', shape', grown₁.trans grown', ?_⟩
        rw [keyFrom, hkey, locate, grown'.links table htable₁ hinner₁ _ _ hchild, hchild, ← hkey]
        exact hloc

theorem va2pte_true {alloc : List Nat → Nat} {va root : Nat} {path : Nat → List Nat} {m : PtMem}
    (shape : Shape root path m) (fresh : Fresh (va2pte alloc m root va true).2.log) :
    ∃ pte path' m', va2pte alloc m root va true = (some pte, m') ∧ Shape root path' m'
      ∧ Grown path path' m m' ∧ locate nextTable m'.tab root (keyFrom va 2) = some pte :=
  va2pteFrom_true 2 shape shape.root_mem (by rw [shape.root_path]; rfl) fresh

/-! ## Writing a leaf -/

theorem leaf_of_locate {m : PtMem} {root va : Nat} {pte : Nat × Nat}
    (h : locate nextTable m.tab root (keyFrom va 2) = some pte) : m.load pte = leaf m root va := by
  rw [leaf, lookup, h]
  rfl

/-- Writing the slot of one address changes the leaves of its own page only. -/
theorem store_spec {root va : Nat} {path : Nat → List Nat} {m : PtMem} {pte : Nat × Nat} {v : Nat}
    (shape : Shape root path m) (h : locate nextTable m.tab root (keyFrom va 2) = some pte) :
    Shape root path (m.store pte v)
      ∧ ∀ a, leaf (m.store pte v) root a
          = if keyFrom a 2 = keyFrom va 2 then v else leaf m root a := by
  have hdepth : (path root).length + (keyFrom va 2).length = 3 := by
    rw [shape.root_path, length_keyFrom]
    rfl
  obtain ⟨-, hpath⟩ := locate_mem shape shape.root_mem hdepth h
  have hleaf : (path pte.1).length + 1 = 3 := by
    have := congrArg List.length hpath
    rw [shape.root_path, List.nil_append, List.length_append, List.length_singleton,
      length_keyFrom] at this
    exact this
  exact ⟨Tree.set shape hleaf v,
    fun a => lookup_set shape (length_keyFrom va 2) h v (length_keyFrom a 2)⟩

/-! ## `mappages` and `unmappages` -/

theorem mappagesFrom_log (alloc : List Nat → Nat) (root va pa perm n i : Nat) (m : PtMem) :
    m.log <+: (mappagesFrom alloc root va pa perm n i m).2.log := by
  induction n generalizing i m with
  | zero => exact List.prefix_rfl
  | succ n ih =>
      have hwalk := va2pteFrom_log alloc ((va + i * PAGE_SIZE) % 2 ^ 64) 2 root true m
      rw [mappagesFrom, va2pte]
      cases hw : va2pteFrom alloc ((va + i * PAGE_SIZE) % 2 ^ 64) true 2 root m with
      | mk pte m₁ =>
          rw [hw] at hwalk
          cases pte with
          | none => exact hwalk
          | some pte =>
              simp only
              by_cases hm : m₁.load pte &&& PTE_M ≠ 0
              · rw [if_pos hm]
                exact hwalk
              · rw [if_neg hm]
                exact hwalk.trans (ih _ (m₁.store pte _))

/-- The walk of one round finds the slot of the page, and writing it changes no other leaf. -/
theorem mappagesFrom_walk {alloc : List Nat → Nat} {root va pa perm n i : Nat}
    {path : Nat → List Nat} {m : PtMem} (shape : Shape root path m)
    (fresh : Fresh (mappagesFrom alloc root va pa perm (n + 1) i m).2.log) :
    ∃ pte path' m', va2pte alloc m root ((va + i * PAGE_SIZE) % 2 ^ 64) true = (some pte, m')
      ∧ Shape root path' m' ∧ (∀ a, leaf m' root a = leaf m root a)
      ∧ m'.load pte = leaf m root ((va + i * PAGE_SIZE) % 2 ^ 64)
      ∧ ∀ v, Shape root path' (m'.store pte v)
        ∧ ∀ a, leaf (m'.store pte v) root a
          = if keyFrom a 2 = keyFrom ((va + i * PAGE_SIZE) % 2 ^ 64) 2 then v
            else leaf m root a := by
  -- what the walk allocates is the start of what the whole call does
  have hlog : (va2pte alloc m root ((va + i * PAGE_SIZE) % 2 ^ 64) true).2.log
      <+: (mappagesFrom alloc root va pa perm (n + 1) i m).2.log := by
    rw [mappagesFrom]
    cases va2pte alloc m root ((va + i * PAGE_SIZE) % 2 ^ 64) true with
    | mk pte m₁ =>
        cases pte with
        | none => exact List.prefix_rfl
        | some pte =>
            simp only
            by_cases hm : m₁.load pte &&& PTE_M ≠ 0
            · rw [if_pos hm]
            · rw [if_neg hm]
              exact mappagesFrom_log alloc root va pa perm n (i + 1) (m₁.store pte _)
  obtain ⟨pte, path', m', hwalk, shape', grown, hloc⟩ := va2pte_true shape (fresh.of_prefix hlog)
  have hleaf : ∀ a, leaf m' root a = leaf m root a := fun a => grown.leaf_eq shape
  have hload := leaf_of_locate hloc
  rw [hleaf] at hload
  refine ⟨pte, path', m', hwalk, shape', hleaf, hload, fun v => ?_⟩
  obtain ⟨shape'', hstore⟩ := @store_spec _ _ _ _ _ v shape' hloc
  refine ⟨shape'', fun a => ?_⟩
  rw [hstore, hleaf]

/-- One round of the loop of `mappages`: it fails on a mapped page, and otherwise maps the page
and goes on. -/
theorem mappagesFrom_succ {alloc : List Nat → Nat} {root va pa perm n i : Nat}
    {path : Nat → List Nat} {m : PtMem} (shape : Shape root path m)
    (fresh : Fresh (mappagesFrom alloc root va pa perm (n + 1) i m).2.log) :
    ∃ path' m', Shape root path' m' ∧ (∀ a, leaf m' root a = leaf m root a)
      ∧ ((leaf m root ((va + i * PAGE_SIZE) % 2 ^ 64) &&& PTE_M ≠ 0
          ∧ mappagesFrom alloc root va pa perm (n + 1) i m = (some (-EADDRINUSE), m'))
        ∨ (leaf m root ((va + i * PAGE_SIZE) % 2 ^ 64) &&& PTE_M = 0
          ∧ ∃ m'', Shape root path' m''
            ∧ (∀ a, leaf m'' root a
                = if keyFrom a 2 = keyFrom ((va + i * PAGE_SIZE) % 2 ^ 64) 2 then
                    PA2PTE ((pa + i * PAGE_SIZE) % 2 ^ 64) ||| perm ||| PTE_M
                  else leaf m root a)
            ∧ mappagesFrom alloc root va pa perm (n + 1) i m
                = mappagesFrom alloc root va pa perm n (i + 1) m'')) := by
  obtain ⟨pte, path', m', hwalk, shape', hleaf, hload, hstore⟩ := mappagesFrom_walk shape fresh
  refine ⟨path', m', shape', hleaf, ?_⟩
  rw [mappagesFrom, hwalk]
  simp only
  rw [hload]
  by_cases hm : leaf m root ((va + i * PAGE_SIZE) % 2 ^ 64) &&& PTE_M ≠ 0
  · rw [if_pos hm]
    exact Or.inl ⟨hm, rfl⟩
  · rw [if_neg hm]
    obtain ⟨shape'', hleaf'⟩ := hstore (PA2PTE ((pa + i * PAGE_SIZE) % 2 ^ 64) ||| perm ||| PTE_M)
    exact Or.inr ⟨by simpa using hm, _, shape'', hleaf', rfl⟩

/-- Whatever its outcome, the loop leaves a tree of tables. -/
theorem mappagesFrom_shape {alloc : List Nat → Nat} {root va pa perm n i : Nat}
    {path : Nat → List Nat} {m : PtMem} (shape : Shape root path m)
    (fresh : Fresh (mappagesFrom alloc root va pa perm n i m).2.log) :
    ∃ path', Shape root path' (mappagesFrom alloc root va pa perm n i m).2 := by
  induction n generalizing i path m with
  | zero => exact ⟨path, shape⟩
  | succ n ih =>
      obtain ⟨path', m', shape', -, ⟨-, hrun⟩ | ⟨-, m'', shape'', -, hrun⟩⟩ :=
        mappagesFrom_succ shape fresh
      · rw [hrun]
        exact ⟨path', shape'⟩
      · rw [hrun] at fresh ⊢
        exact ih shape'' fresh

/-- What `mappages` leaves in the entry of page `k` of its range. -/
def leafPte (pa perm k : Nat) : Nat := PA2PTE (pa + k * PAGE_SIZE) ||| perm ||| PTE_M

/-- **The loop of `mappages` on a range of unmapped pages** maps exactly these, one by one. -/
theorem mappagesFrom_maps {alloc : List Nat → Nat} {root va pa perm n i : Nat}
    {path : Nat → List Nat} {m : PtMem} (shape : Shape root path m)
    (hvm : va + (i + n) * PAGE_SIZE ≤ VM_END) (hpm : pa + (i + n) * PAGE_SIZE ≤ PM_END)
    (free : ∀ k, i ≤ k → k < i + n → leaf m root (va + k * PAGE_SIZE) &&& PTE_M = 0)
    (fresh : Fresh (mappagesFrom alloc root va pa perm n i m).2.log) :
    ∃ m', mappagesFrom alloc root va pa perm n i m = (some 0, m')
      ∧ ∀ a, a < VM_END → leaf m' root a
        = if va / PAGE_SIZE + i ≤ a / PAGE_SIZE ∧ a / PAGE_SIZE < va / PAGE_SIZE + i + n then
            leafPte pa perm (a / PAGE_SIZE - va / PAGE_SIZE)
          else leaf m root a := by
  have hend : VM_END = 2 ^ 38 := rfl
  have hpend : PM_END = 0x88000000 := rfl
  have hsize : PAGE_SIZE = 4096 := rfl
  induction n generalizing i path m with
  | zero =>
      refine ⟨m, rfl, fun a _ => (if_neg ?_).symm⟩
      omega
  | succ n ih =>
      have hstart : va + i * PAGE_SIZE < VM_END ∧ pa + i * PAGE_SIZE < 2 ^ 64 := by
        rw [hend, hsize] at hvm
        rw [hpend, hsize] at hpm
        rw [hend, hsize]
        omega
      obtain ⟨hlt, hplt⟩ := hstart
      have hvmod : (va + i * PAGE_SIZE) % 2 ^ 64 = va + i * PAGE_SIZE :=
        Nat.mod_eq_of_lt (by rw [hend] at hlt; omega)
      have hpmod : (pa + i * PAGE_SIZE) % 2 ^ 64 = pa + i * PAGE_SIZE := Nat.mod_eq_of_lt hplt
      -- page `i` is the only page of its key
      have hkey : ∀ a, a < VM_END →
          (keyFrom a 2 = keyFrom (va + i * PAGE_SIZE) 2 ↔ a / PAGE_SIZE = va / PAGE_SIZE + i) := by
        intro a ha
        rw [keyFrom_inj ha hlt, hsize]
        omega
      obtain ⟨path', m', shape', -, ⟨hmapped, -⟩ | ⟨-, m'', shape'', hleaf, hrun⟩⟩ :=
        mappagesFrom_succ shape fresh
      · rw [hvmod] at hmapped
        exact absurd (free i (le_refl i) (by omega)) hmapped
      · rw [hvmod, hpmod] at hleaf
        rw [hrun] at fresh ⊢
        have hfree : ∀ k, i + 1 ≤ k → k < i + 1 + n →
            leaf m'' root (va + k * PAGE_SIZE) &&& PTE_M = 0 := by
          intro k hk hk'
          have hklt : va + k * PAGE_SIZE < VM_END := by
            rw [hsize] at hvm ⊢
            omega
          rw [hleaf, if_neg]
          · exact free k (by omega) (by omega)
          · rw [hkey _ hklt, hsize]
            omega
        have hcount : i + 1 + n = i + (n + 1) := by omega
        obtain ⟨m₁, hrun₁, hleaf₁⟩ := ih shape'' (by rw [hcount]; exact hvm)
          (by rw [hcount]; exact hpm) hfree fresh
        refine ⟨m₁, hrun₁, fun a ha => ?_⟩
        rw [hleaf₁ a ha, hleaf a]
        have hkeya := hkey a ha
        generalize a / PAGE_SIZE = q at hkeya ⊢
        generalize va / PAGE_SIZE = p at hkeya ⊢
        by_cases hin : p + (i + 1) ≤ q ∧ q < p + (i + 1) + n
        · rw [if_pos hin, if_pos (by omega)]
        · rw [if_neg hin]
          by_cases hthis : q = p + i
          · rw [if_pos (hkeya.mpr hthis), if_pos (by omega), hthis, Nat.add_sub_cancel_left]
            rfl
          · rw [if_neg (fun h => hthis (hkeya.mp h)), if_neg (by omega)]

theorem unmapPage_spec (m : PtMem) (root a : Nat) :
    (unmapPage m root a).log = m.log
      ∧ ∀ path, Shape root path m → Shape root path (unmapPage m root a) := by
  rw [unmapPage, va2pte, va2pteFrom_false]
  cases hloc : locate nextTable m.tab root (keyFrom a 2) with
  | none => exact ⟨rfl, fun _ h => h⟩
  | some pte =>
      simp only
      by_cases hm : m.load pte &&& PTE_M ≠ 0
      · rw [if_pos hm]
        exact ⟨rfl, fun _ h => (store_spec h hloc).1⟩
      · rw [if_neg hm]
        exact ⟨rfl, fun _ h => h⟩

theorem unmappages_spec (m : PtMem) (root vm npages : Nat) :
    (unmappages m root vm npages).2.log = m.log
      ∧ ∀ path, Shape root path m → Shape root path (unmappages m root vm npages).2 := by
  rw [unmappages]
  simp only
  generalize List.range _ = l
  induction l generalizing m with
  | nil => exact ⟨rfl, fun _ h => h⟩
  | cons i l ih =>
      obtain ⟨hlog₁, hshape₁⟩ := unmapPage_spec m root (PAGE_ALIGN_DOWN vm + i * PAGE_SIZE)
      obtain ⟨hlog₂, hshape₂⟩ := ih (unmapPage m root (PAGE_ALIGN_DOWN vm + i * PAGE_SIZE))
      exact ⟨hlog₂.trans hlog₁, fun path h => hshape₂ path (hshape₁ path h)⟩

/-- `mappages` either changes nothing or runs its loop. -/
theorem mappages_cases (alloc : List Nat → Nat) (m : PtMem) (root va pa npages : Nat)
    (perm : BitVec 32) :
    (mappages alloc m root va pa npages perm).2 = m
      ∨ mappages alloc m root va pa npages perm
          = mappagesFrom alloc root va pa (perm &&& 0x3f).toNat npages 0 m := by
  unfold mappages
  split
  · exact Or.inl rfl
  · split
    · exact Or.inl rfl
    · split
      · exact Or.inl rfl
      · split
        · exact Or.inl rfl
        · split
          · exact Or.inl rfl
          · exact Or.inr rfl

theorem mappages_log (alloc : List Nat → Nat) (m : PtMem) (root va pa npages : Nat)
    (perm : BitVec 32) : m.log <+: (mappages alloc m root va pa npages perm).2.log := by
  rcases mappages_cases alloc m root va pa npages perm with h | h
  · rw [h]
  · rw [h]
    exact mappagesFrom_log _ _ _ _ _ _ _ _

/-- **Every page table a run builds is a tree of tables.** -/
theorem Built.shape {alloc : List Nat → Nat} {root : Nat} {m : PtMem} (built : Built alloc root m)
    (fresh : Fresh m.log) : ∃ path, Shape root path m := by
  induction built with
  | create run =>
      rename_i tab m
      rw [pagetableCreate] at run
      have hroot : alloc [] = root := by rw [← kzalloc_fst alloc ⟨tab, []⟩, run]
      have hlog : m.log = [root] := by
        have := kzalloc_log alloc ⟨tab, []⟩
        rw [run] at this
        rw [this, List.nil_append, hroot]
      have hne : root ≠ 0 := fresh.ne_zero root (by rw [hlog]; simp)
      have htab : m.tab = Function.update tab root fun _ => 0 := by
        have hk : kzalloc alloc ⟨tab, []⟩
            = (alloc [], ⟨Function.update tab (alloc []) fun _ => 0, [alloc []]⟩) := by
          rw [kzalloc, if_neg (by rw [hroot]; exact hne)]
          rfl
        rw [hk] at run
        rw [← (Prod.mk.inj run).2, hroot]
      -- one table with no entries
      refine ⟨fun _ => [], by rw [hlog]; simp, rfl, ?_⟩
      intro n hn _ i p hp
      rw [hlog, List.mem_singleton] at hn
      rw [htab, hn, Function.update_self, nextTable_zero] at hp
      cases hp
  | mappages built va pa npages perm ih =>
      rename_i m
      obtain ⟨path, shape⟩ := ih (fresh.of_prefix (mappages_log alloc m root va pa npages perm))
      -- a call that is refused changes nothing
      rcases mappages_cases alloc m root va pa npages perm with h | h
      · rw [h]
        exact ⟨path, shape⟩
      · rw [h] at fresh ⊢
        exact mappagesFrom_shape shape fresh
  | unmappages built vm npages ih =>
      rename_i m
      obtain ⟨hlog, hshape⟩ := unmappages_spec m root vm npages
      obtain ⟨path, shape⟩ := ih (hlog ▸ fresh)
      exact ⟨path, hshape path shape⟩

/-! ## What the caller sees -/

theorem leafPte_and (pa perm k : Nat) : leafPte pa perm k &&& PTE_M ≠ 0 := or_two_pow_and _ 8

theorem PTE2PA_leafPte {pa perm k : Nat} (h : pa + k * PAGE_SIZE < 2 ^ 64)
    (hpa : pa % PAGE_SIZE = 0) (hperm : perm < 2 ^ 6) :
    PTE2PA (leafPte pa perm k) = pa + k * PAGE_SIZE := by
  have hflags : perm ||| PTE_M < 2 ^ 10 :=
    Nat.or_lt_two_pow (Nat.lt_trans hperm (by decide)) (by decide)
  rw [leafPte, Nat.or_assoc]
  exact PTE2PA_PA2PTE h (by rw [Nat.add_mul_mod_self_right, hpa]) hflags

/-- The leaves after a call that maps a range of unmapped pages. -/
theorem mappages_leaf {alloc : List Nat → Nat} {root : Nat} {path : Nat → List Nat} {m : PtMem}
    (shape : Shape root path m) {va pa npages : Nat} {perm : BitVec 32}
    (hva : va % PAGE_SIZE = 0) (hpa : pa % PAGE_SIZE = 0)
    (hvm : va + npages * PAGE_SIZE ≤ VM_END) (hpm : pa + npages * PAGE_SIZE ≤ PM_END)
    (unmapped : ∀ i < npages, mapped m root (va + i * PAGE_SIZE) = false)
    (fresh : Fresh (mappages alloc m root va pa npages perm).2.log) :
    ∃ path' m', mappages alloc m root va pa npages perm = (some 0, m') ∧ Shape root path' m'
      ∧ ∀ a, a < VM_END → leaf m' root a
        = if va / PAGE_SIZE ≤ a / PAGE_SIZE ∧ a / PAGE_SIZE < va / PAGE_SIZE + npages then
            leafPte pa (perm &&& 0x3f).toNat (a / PAGE_SIZE - va / PAGE_SIZE)
          else leaf m root a := by
  have hroot : root ≠ 0 := (fresh.of_prefix (mappages_log _ _ _ _ _ _ _)).ne_zero _ shape.root_mem
  -- the checks pass, and the loop runs over the whole range
  have hrun : mappages alloc m root va pa npages perm
      = mappagesFrom alloc root va pa (perm &&& 0x3f).toNat npages 0 m := by
    have hv := (PAGE_ALIGNED_iff va).mpr hva
    have hp := (PAGE_ALIGNED_iff pa).mpr hpa
    have hvle : ¬VM_END < (va + npages * PAGE_SIZE) % 2 ^ 64 :=
      Nat.not_lt.mpr ((Nat.mod_le _ _).trans hvm)
    have hple : ¬PM_END < (pa + npages * PAGE_SIZE) % 2 ^ 64 :=
      Nat.not_lt.mpr ((Nat.mod_le _ _).trans hpm)
    rw [mappages, if_neg hroot, hv, hp, if_neg (by simp), if_neg hvle, if_neg hple]
    by_cases hn : npages = 0
    · rw [if_pos hn, hn]
      rfl
    · rw [if_neg hn]
  rw [hrun] at fresh ⊢
  have hfree : ∀ k, 0 ≤ k → k < 0 + npages → leaf m root (va + k * PAGE_SIZE) &&& PTE_M = 0 := by
    intro k _ hk
    have := unmapped k (by omega)
    rw [mapped_eq] at this
    simpa using this
  obtain ⟨path', shape'⟩ := mappagesFrom_shape shape fresh
  obtain ⟨m', hloop, hleaf⟩ := mappagesFrom_maps shape (by rw [Nat.zero_add]; exact hvm)
    (by rw [Nat.zero_add]; exact hpm) hfree fresh
  rw [hloop] at shape'
  exact ⟨path', m', hloop, shape', hleaf⟩

/-- **Mapping a range.** In any page table a run has built, `mappages` of unmapped pages
succeeds; afterwards every address of the range is mapped and walks to its page, and no other
address below `VM_END` is affected. -/
theorem mappages_maps {alloc : List Nat → Nat} {root : Nat} {m : PtMem}
    (built : Built alloc root m) {va pa npages : Nat} {perm : BitVec 32}
    (hva : va % PAGE_SIZE = 0) (hpa : pa % PAGE_SIZE = 0)
    (hvm : va + npages * PAGE_SIZE ≤ VM_END) (hpm : pa + npages * PAGE_SIZE ≤ PM_END)
    (unmapped : ∀ i < npages, mapped m root (va + i * PAGE_SIZE) = false)
    (fresh : Fresh (mappages alloc m root va pa npages perm).2.log) :
    ∃ m', mappages alloc m root va pa npages perm = (some 0, m')
      ∧ (∀ i < npages, ∀ off < PAGE_SIZE,
          mapped m' root (va + i * PAGE_SIZE + off) = true
            ∧ walkaddr m' root (va + i * PAGE_SIZE + off) = pa + i * PAGE_SIZE)
      ∧ ∀ a < VM_END, (∀ i < npages, ∀ off < PAGE_SIZE, a ≠ va + i * PAGE_SIZE + off) →
          mapped m' root a = mapped m root a ∧ walkaddr m' root a = walkaddr m root a := by
  have hend : VM_END = 2 ^ 38 := rfl
  have hpend : PM_END = 0x88000000 := rfl
  have hsize : PAGE_SIZE = 4096 := rfl
  obtain ⟨path, shape⟩ := built.shape (fresh.of_prefix (mappages_log _ _ _ _ _ _ _))
  have hperm : (perm &&& 0x3f).toNat < 2 ^ 6 := by
    rw [BitVec.toNat_and]
    exact Nat.lt_of_le_of_lt Nat.and_le_right (by decide)
  obtain ⟨-, m', hrun, -, hleaf⟩ := mappages_leaf shape hva hpa hvm hpm unmapped fresh
  refine ⟨m', hrun, ?_, ?_⟩
  · -- the offset in the page plays no part in the walk
    intro i hi off hoff
    rw [hsize] at hva hvm hpm hoff
    rw [hend] at hvm
    rw [hpend] at hpm
    have ha : va + i * PAGE_SIZE + off < VM_END := by
      rw [hend, hsize]
      omega
    have hdiv : (va + i * PAGE_SIZE + off) / PAGE_SIZE = va / PAGE_SIZE + i := by
      rw [hsize]
      omega
    have heq : leaf m' root (va + i * PAGE_SIZE + off) = leafPte pa (perm &&& 0x3f).toNat i := by
      rw [hleaf _ ha, hdiv, if_pos (by omega), Nat.add_sub_cancel_left]
    have hpi : pa + i * PAGE_SIZE < 2 ^ 64 := by
      rw [hsize]
      omega
    rw [mapped_eq, walkaddr_eq, heq, if_neg (Nat.not_le.mpr ha), if_neg (leafPte_and _ _ _),
      PTE2PA_leafPte hpi hpa hperm]
    exact ⟨decide_eq_true (leafPte_and _ _ _), rfl⟩
  · intro a ha hout
    have heq : leaf m' root a = leaf m root a := by
      rw [hleaf a ha, if_neg]
      rintro ⟨h₁, h₂⟩
      refine hout (a / PAGE_SIZE - va / PAGE_SIZE) (by omega) (a % PAGE_SIZE)
        (Nat.mod_lt _ (by decide)) ?_
      rw [hsize] at h₁ h₂ hva ⊢
      omega
    rw [mapped_eq, mapped_eq, walkaddr_eq, walkaddr_eq, heq]
    exact ⟨rfl, rfl⟩

/-- An allocator that takes page after page from `0x80400000` on. -/
def bumpAlloc (log : List Nat) : Nat := 0x80400000 + log.length * PAGE_SIZE

/-- Two pages across the border of two leaf tables, mapped in a fresh page table. -/
theorem mappages_maps_two :
    let m := (pagetableCreate bumpAlloc ⟨fun _ _ => 0, []⟩).2
    ∃ m', mappages bumpAlloc m 0x80400000 0x1ff000 0x80000000 2 7 = (some 0, m')
      ∧ (∀ i < 2, ∀ off < PAGE_SIZE,
          mapped m' 0x80400000 (0x1ff000 + i * PAGE_SIZE + off) = true
            ∧ walkaddr m' 0x80400000 (0x1ff000 + i * PAGE_SIZE + off) = 0x80000000 + i * PAGE_SIZE)
      ∧ ∀ a < VM_END, (∀ i < 2, ∀ off < PAGE_SIZE, a ≠ 0x1ff000 + i * PAGE_SIZE + off) →
          mapped m' 0x80400000 a = mapped m 0x80400000 a
            ∧ walkaddr m' 0x80400000 a = walkaddr m 0x80400000 a := by
  intro m
  have hroot : (pagetableCreate bumpAlloc ⟨fun _ _ => 0, []⟩).1 = 0x80400000 := by decide
  have built : Built bumpAlloc 0x80400000 m := .create (Prod.ext hroot rfl)
  have hlog : (mappages bumpAlloc m 0x80400000 0x1ff000 0x80000000 2 7).2.log
      = [0x80400000, 0x80401000, 0x80402000, 0x80403000] := by decide
  have hvm : 0x1ff000 + 2 * PAGE_SIZE ≤ VM_END := by decide
  have hpm : 0x80000000 + 2 * PAGE_SIZE ≤ PM_END := by decide
  refine mappages_maps built (by decide) (by decide) hvm hpm (by decide) ?_
  rw [hlog]
  exact ⟨by decide, by decide, by decide, by decide⟩

end NoobKernel.Mm
