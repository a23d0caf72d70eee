import NoobKernel.Misc.RadixTreeMap
import NoobKernel.Misc.RadixTreeSteps

set_option autoImplicit false

/-! # The shape of the radix tree

Insertion goes down only as far as two keys agree, and deletion takes back the nodes that one key is
left below (`Canonical`). So the map decides the tree, whatever calls have led to it, but for the
addresses of the nodes and the prefixes that inner nodes have kept (`canonical_unique`).
-/

namespace NoobKernel.Misc.RadixTree

/-- The keys of the leaves. -/
def RxtreeNode.keys : RxtreeNode → List UInt64
  | null => []
  | node _ pfx true _ _ => [pfx]
  | node _ _ false _ children =>
      (List.finRange RADIX_TREE_MAP_SIZE).flatMap fun i => (children i).keys

/-- There are at least two keys in the tree. -/
def Branches (t : RxtreeNode) : Prop := ∃ k ∈ t.keys, ∃ k' ∈ t.keys, k ≠ k'

/-- A leaf has no children, and an inner node no value and at least two keys below it. -/
def Canonical : RxtreeNode → Prop
  | .null => True
  | .node _ _ true _ children => ∀ i, children i = .null
  | .node addr pfx false value children =>
      value = 0 ∧ Branches (.node addr pfx false value children) ∧ ∀ i, Canonical (children i)

/-- The tree without addresses and the prefixes of inner nodes. -/
def RxtreeNode.shape : RxtreeNode → RxtreeNode
  | null => null
  | node _ pfx isLeaf value children =>
      node 0 (if isLeaf then pfx else 0) isLeaf value fun i => (children i).shape

variable {S : UInt64 → Prop} {t t' node node' child : RxtreeNode} {depth addr value room : Nat}
  {pfx key k : UInt64} {children : Fin RADIX_TREE_MAP_SIZE → RxtreeNode} {log log' : List MemOp}
  {ret : Int} {i : Fin RADIX_TREE_MAP_SIZE}

/-! ## The keys of a tree -/

theorem mem_keys_leaf : k ∈ (RxtreeNode.node addr pfx true value children).keys ↔ k = pfx :=
  List.mem_singleton

theorem mem_keys_node : k ∈ (RxtreeNode.node addr pfx false value children).keys
    ↔ ∃ i, k ∈ (children i).keys := by
  rw [RxtreeNode.keys, List.mem_flatMap]
  exact ⟨fun ⟨i, _, h⟩ => ⟨i, h⟩, fun ⟨i, h⟩ => ⟨i, List.mem_finRange i, h⟩⟩

theorem mem_keys_update :
    k ∈ (RxtreeNode.node addr pfx false value (Function.update children i child)).keys
      ↔ k ∈ child.keys ∨ ∃ j, j ≠ i ∧ k ∈ (children j).keys := by
  rw [mem_keys_node]
  constructor
  · rintro ⟨j, hj⟩
    by_cases heq : j = i
    · rw [heq, Function.update_self] at hj
      exact .inl hj
    · rw [Function.update_of_ne heq] at hj
      exact .inr ⟨j, heq, hj⟩
  · rintro (hk | ⟨j, hne, hk⟩)
    · exact ⟨i, by rwa [Function.update_self]⟩
    · exact ⟨j, by rwa [Function.update_of_ne hne]⟩

/-- The keys of a node are those of one child and of the others. -/
theorem mem_keys_split : k ∈ (RxtreeNode.node addr pfx false value children).keys
    ↔ k ∈ (children i).keys ∨ ∃ j, j ≠ i ∧ k ∈ (children j).keys := by
  rw [← mem_keys_update, Function.update_eq_self]

/-- The keys of a tree are those its map has values for. -/
theorem WellFormed.mem_keys (h : WellFormed S t depth) (k : UInt64) :
    k ∈ t.keys ↔ S k ∧ entries t depth k ≠ none := by
  induction t generalizing S depth with
  | null => exact iff_of_false List.not_mem_nil fun hk => hk.2 rfl
  | node addr pfx isLeaf value children ih =>
      cases isLeaf with
      | true =>
          rw [mem_keys_leaf, entries_leaf]
          constructor
          · rintro rfl
            rw [if_pos rfl]
            exact ⟨h, Option.some_ne_none _⟩
          · rintro ⟨-, hne⟩
            by_contra hkey
            exact hne (if_neg hkey)
      | false =>
          rw [mem_keys_node, entries]
          constructor
          · rintro ⟨i, hi⟩
            obtain ⟨⟨hk, rfl⟩, hentry⟩ := (ih i (h.2 i)).mp hi
            exact ⟨hk, hentry⟩
          · rintro ⟨hk, hentry⟩
            exact ⟨_, (ih _ (h.2 _)).mpr ⟨⟨hk, rfl⟩, hentry⟩⟩

theorem Branches.not_leaf : ¬Branches (.node addr pfx true value children) := by
  rintro ⟨k, hk, k', hk', hne⟩
  exact hne ((mem_keys_leaf.mp hk).trans (mem_keys_leaf.mp hk').symm)

theorem Branches.not_null : ¬Branches .null := fun ⟨_, hk, _⟩ => absurd hk List.not_mem_nil

/-- Trees with the same keys branch alike. -/
theorem Branches.congr (h : Branches t) (hkeys : ∀ k, k ∈ t.keys → k ∈ t'.keys) : Branches t' := by
  obtain ⟨k, hk, k', hk', hne⟩ := h
  exact ⟨k, hkeys k hk, k', hkeys k' hk', hne⟩

theorem shape_leaf (hcanon : Canonical (.node addr pfx true value children)) :
    (RxtreeNode.node addr pfx true value children).shape = .node 0 pfx true value fun _ => .null := by
  rw [RxtreeNode.shape]
  congr
  funext i
  rw [hcanon i]
  rfl

/-- Trees with the same map have the same keys. -/
theorem same_keys (h : WellFormed S t depth) (h' : WellFormed S t' depth)
    (hmap : ∀ k, S k → entries t depth k = entries t' depth k) (k : UInt64) :
    k ∈ t.keys ↔ k ∈ t'.keys := by
  rw [h.mem_keys, h'.mem_keys]
  exact and_congr_right fun hk => by rw [hmap k hk]

/-- **The map decides the shape.** -/
theorem canonical_unique (h : WellFormed S t depth) (h' : WellFormed S t' depth)
    (hcanon : Canonical t) (hcanon' : Canonical t')
    (hmap : ∀ k, S k → entries t depth k = entries t' depth k) : t.shape = t'.shape := by
  -- no key, one key, two keys: the keys tell the constructors apart
  have hkeys := same_keys h h' hmap
  induction t generalizing S depth t' with
  | null =>
      match t', hcanon' with
      | .null, _ => rfl
      | .node _ pfx true _ _, _ =>
          exact absurd ((hkeys pfx).mpr (mem_keys_leaf.mpr rfl)) List.not_mem_nil
      | .node _ _ false _ _, hcanon' =>
          exact absurd (hcanon'.2.1.congr fun k => (hkeys k).mpr) Branches.not_null
  | node addr pfx isLeaf value children ih =>
      cases isLeaf with
      | true =>
          match t', hcanon' with
          | .null, _ => exact absurd ((hkeys pfx).mp (mem_keys_leaf.mpr rfl)) List.not_mem_nil
          | .node addr' pfx' true value' children', hcanon' =>
              have hentry := hmap pfx h
              rw [entries_leaf, entries_leaf, if_pos rfl] at hentry
              split at hentry
              · rename_i heq
                rw [shape_leaf hcanon, shape_leaf hcanon', heq, Option.some.inj hentry]
              · cases hentry
          | .node _ _ false _ _, hcanon' =>
              exact absurd (hcanon'.2.1.congr fun k => (hkeys k).mpr) Branches.not_leaf
      | false =>
          match t', hcanon' with
          | .null, _ => exact absurd (hcanon.2.1.congr fun k => (hkeys k).mp) Branches.not_null
          | .node _ _ true _ _, _ =>
              exact absurd (hcanon.2.1.congr fun k => (hkeys k).mp) Branches.not_leaf
          | .node addr' pfx' false value' children', hcanon' =>
              have hchildren : ∀ i, (children i).shape = (children' i).shape := by
                intro i
                have hbelow : ∀ k, below S depth i k → entries (children i) (depth + 1) k
                    = entries (children' i) (depth + 1) k := by
                  rintro k ⟨hk, rfl⟩
                  exact hmap k hk
                exact ih i (h.2 i) (h'.2 i) (hcanon.2.2 i) (hcanon'.2.2 i) hbelow
                  (same_keys (h.2 i) (h'.2 i) hbelow)
              rw [RxtreeNode.shape, RxtreeNode.shape, hcanon.1, hcanon'.1, funext hchildren]
              rfl

/-! ## Insertion -/

theorem canonical_update (h : ∀ i, Canonical (children i)) (hchild : Canonical child)
    (i j : Fin RADIX_TREE_MAP_SIZE) : Canonical (Function.update children i child j) := by
  by_cases heq : j = i
  · rwa [heq, Function.update_self]
  · rw [Function.update_of_ne heq]
    exact h j

theorem canonical_newLeaf (addr : Nat) (key : UInt64) (value : Nat) :
    Canonical (newLeaf addr key value) := by
  unfold newLeaf
  split
  · trivial
  · exact fun _ => rfl

theorem mem_keys_newLeaf (haddr : addr ≠ 0) : k ∈ (newLeaf addr key value).keys ↔ k = key := by
  unfold newLeaf
  rw [if_neg haddr]
  exact mem_keys_leaf

section

variable {kmalloc : List MemOp → Nat}

theorem canonical_noChildren (i : Fin RADIX_TREE_MAP_SIZE) : Canonical (noChildren i) := trivial

theorem not_mem_noChildren : k ∉ (noChildren i).keys := List.not_mem_nil

theorem mem_keys_noChildren :
    k ∈ (RxtreeNode.node addr pfx false value (Function.update noChildren i child)).keys
      ↔ k ∈ child.keys := by
  rw [mem_keys_update]
  exact or_iff_left fun ⟨_, _, hk⟩ => not_mem_noChildren hk

/-- The keys below a new parent. -/
theorem mem_keys_siblings {addr₁ addr₂ old : Nat} (h₁ : addr₁ ≠ 0) (h₂ : addr₂ ≠ 0)
    {i j : Fin RADIX_TREE_MAP_SIZE} (hne : i ≠ j) :
    k ∈ (RxtreeNode.node addr 0 false 0 (Function.update (Function.update noChildren i
        (newLeaf addr₁ key value)) j (newLeaf addr₂ pfx old))).keys
      ↔ k = key ∨ k = pfx := by
  rw [mem_keys_update, mem_keys_newLeaf h₂, or_comm]
  refine or_congr_left ⟨fun ⟨j', _, hj⟩ => ?_, fun hk => ⟨i, hne, ?_⟩⟩
  · by_cases heq : j' = i
    · rw [heq, Function.update_self] at hj
      exact (mem_keys_newLeaf h₁).mp hj
    · rw [Function.update_of_ne heq] at hj
      exact absurd hj not_mem_noChildren
  · rw [Function.update_self]
    exact (mem_keys_newLeaf h₁).mpr hk

theorem branches_siblings {addr₁ addr₂ old : Nat} (h₁ : addr₁ ≠ 0) (h₂ : addr₂ ≠ 0)
    {i j : Fin RADIX_TREE_MAP_SIZE} (hij : i ≠ j) (hne : key ≠ pfx) :
    Branches (.node addr 0 false 0 (Function.update (Function.update noChildren i
      (newLeaf addr₁ key value)) j (newLeaf addr₂ pfx old))) :=
  ⟨key, (mem_keys_siblings h₁ h₂ hij).mpr (.inl rfl),
    pfx, (mem_keys_siblings h₁ h₂ hij).mpr (.inr rfl), hne⟩

/-- **A successful insertion adds its key**, and no other. -/
theorem Inserts.mem_keys (h : Inserts kmalloc room node key value depth log ret node' log')
    (hret : ret = 0) (k : UInt64) : k ∈ node'.keys ↔ k = key ∨ k ∈ node.keys := by
  induction h with
  | null room key value depth log =>
      split at hret
      · cases hret
      · rename_i haddr
        rw [mem_keys_newLeaf haddr]
        exact (or_iff_left List.not_mem_nil).symm
  | same room addr key old value depth children log =>
      rw [mem_keys_leaf, mem_keys_leaf, or_self]
  | siblings hne hindex hparent hfirst hsecond =>
      rw [mem_keys_siblings hfirst hsecond hindex, mem_keys_leaf]
  | together hne hindex hparent hfirst hsecond ih₁ ih₂ =>
      rw [mem_keys_noChildren, ih₂ rfl, ih₁ rfl, mem_keys_leaf, or_comm]
      exact or_congr_left (or_iff_left List.not_mem_nil)
  | inner hchild ih =>
      rw [mem_keys_update, ih hret, or_assoc, ← mem_keys_split]
  | _ => cases hret

/-- No key is lost. -/
theorem Inserts.keys_sub (h : Inserts kmalloc room node key value depth log ret node' log')
    (hk : k ∈ node.keys) : k ∈ node'.keys := by
  by_cases hret : ret = 0
  · exact (h.mem_keys hret k).mpr (.inr hk)
  · rwa [h.unchanged hret]

/-- **An insertion keeps the shape canonical**, also if it fails. -/
theorem Inserts.canonical (h : Inserts kmalloc room node key value depth log ret node' log')
    (hcanon : Canonical node) : Canonical node' := by
  induction h with
  | null room key value depth log => exact canonical_newLeaf _ _ _
  | same room addr key old value depth children log => exact hcanon
  | noParent | noSiblings | noFirst | noSecond => exact hcanon
  | siblings hne hindex hparent hfirst hsecond =>
      refine ⟨rfl, branches_siblings hfirst hsecond hindex hne.symm, ?_⟩
      exact canonical_update (canonical_update canonical_noChildren (canonical_newLeaf _ _ _) _)
        (canonical_newLeaf _ _ _) _
  | together hne hindex hparent hfirst hsecond ih₁ ih₂ =>
      have hkey := hsecond.keys_sub ((hfirst.mem_keys rfl _).mpr (.inl rfl))
      have hpfx := (hsecond.mem_keys rfl _).mpr (.inl rfl)
      refine ⟨rfl, ⟨_, mem_keys_noChildren.mpr hkey, _, mem_keys_noChildren.mpr hpfx, hne.symm⟩, ?_⟩
      exact canonical_update canonical_noChildren (ih₂ (ih₁ trivial)) _
  | inner hchild ih =>
      obtain ⟨hvalue, hbranches, hchildren⟩ := hcanon
      refine ⟨hvalue, ?_, canonical_update hchildren (ih (hchildren _)) _⟩
      exact hbranches.congr fun k => (Inserts.inner hchild).keys_sub

end

/-! ## Deletion -/

theorem countChildren_fst (children : Fin RADIX_TREE_MAP_SIZE → RxtreeNode) :
    (countChildren children).1
      = (List.finRange RADIX_TREE_MAP_SIZE).countP fun i => !(children i).isNull := by
  unfold countChildren
  generalize List.finRange RADIX_TREE_MAP_SIZE = l
  induction l using List.reverseRecOn with
  | nil => rfl
  | append_singleton l i ih =>
      rw [List.foldl_append, List.countP_append, ← ih, List.countP_singleton]
      simp only [List.foldl_cons, List.foldl_nil]
      cases (children i).isNull <;> rfl

/-- A node with children has one, and with more than one, two. -/
theorem exists_child (h : (countChildren children).1 ≠ 0) : ∃ i, (children i).isNull = false := by
  rw [countChildren_fst] at h
  obtain ⟨i, -, hi⟩ := List.countP_pos_iff.mp (Nat.pos_of_ne_zero h)
  exact ⟨i, by simpa using hi⟩

theorem exists_children (h₀ : (countChildren children).1 ≠ 0)
    (h₁ : (countChildren children).1 ≠ 1) :
    ∃ i j, i ≠ j ∧ (children i).isNull = false ∧ (children j).isNull = false := by
  obtain ⟨i, hi⟩ := exists_child h₀
  by_contra hnone
  push Not at hnone
  have hle : (countChildren children).1 ≤ (List.finRange RADIX_TREE_MAP_SIZE).count i := by
    rw [countChildren_fst]
    refine List.countP_mono_left fun j _ hj => ?_
    by_contra hne
    refine hnone i j (fun heq => hne ?_) hi (by simpa using hj)
    rw [heq]
    exact beq_self_eq_true j
  have hone := List.nodup_iff_count_le_one.mp (List.nodup_finRange RADIX_TREE_MAP_SIZE) i
  omega

theorem Canonical.exists_key (h : Canonical t) (hnull : t.isNull = false) : ∃ k, k ∈ t.keys := by
  match t with
  | .null => cases hnull
  | .node _ pfx true _ _ => exact ⟨pfx, mem_keys_leaf.mpr rfl⟩
  | .node _ _ false _ _ =>
      obtain ⟨-, ⟨k, hk, -⟩, -⟩ := h
      exact ⟨k, hk⟩

theorem Deletes.wellFormed (h : Deletes room node key depth log ret node' log')
    (hwf : WellFormed S node depth) : WellFormed S node' depth := by
  induction h generalizing S with
  | null | leaf | empty => trivial
  | other hne => exact hwf
  | absent hchild hret ih => exact .update hwf.1 hwf.2 (ih (hwf.2 _))
  | single hchild hchildren hone hleaf ih =>
      subst hchildren
      have hwf' : WellFormed _ (.node 0 0 false 0 (Function.update _ _ _)) _ :=
        .update hwf.1 hwf.2 (ih (hwf.2 _))
      exact (collapse hwf' hone hleaf).1
  | keep hchild hchildren hmore hone ih =>
      subst hchildren
      exact .update hwf.1 hwf.2 (ih (hwf.2 _))

/-- What is kept has two keys, in one child or in two. -/
theorem branches_keep (hwf : WellFormed S (.node addr pfx false value children) depth)
    (hcanon : ∀ i, Canonical (children i)) (hmore : (countChildren children).1 ≠ 0)
    (hone : (countChildren children).1 = 1 → (countChildren children).2.leaf ≠ true) :
    Branches (.node addr pfx false value children) := by
  by_cases hcount : (countChildren children).1 = 1
  · -- the only child is an inner node, and has two keys itself
    obtain ⟨i, hi, hrest⟩ := (countChildren_spec children).2 hcount
    have hleaf := hone hcount
    rw [hi] at hleaf
    have hbranches : Branches (children i) := by
      obtain ⟨j, hj⟩ := exists_child hmore
      obtain rfl : j = i := by
        by_contra hne
        rw [hrest j hne] at hj
        cases hj
      have hcanon := hcanon j
      match hnode : children j with
      | .null =>
          rw [hnode] at hj
          cases hj
      | .node _ _ true _ _ =>
          rw [hnode] at hleaf
          exact absurd rfl hleaf
      | .node _ _ false _ _ =>
          rw [hnode] at hcanon
          exact hcanon.2.1
    exact hbranches.congr fun k hk => mem_keys_node.mpr ⟨i, hk⟩
  · -- keys of different children differ in their digit at this depth
    obtain ⟨i, j, hne, hi, hj⟩ := exists_children hmore hcount
    obtain ⟨k, hk⟩ := (hcanon i).exists_key hi
    obtain ⟨k', hk'⟩ := (hcanon j).exists_key hj
    refine ⟨k, mem_keys_node.mpr ⟨i, hk⟩, k', mem_keys_node.mpr ⟨j, hk'⟩, fun heq => hne ?_⟩
    obtain ⟨⟨-, rfl⟩, -⟩ := ((hwf.2 i).mem_keys k).mp hk
    obtain ⟨⟨-, rfl⟩, -⟩ := ((hwf.2 j).mem_keys k').mp hk'
    rw [heq]

/-- **A deletion keeps the shape canonical.** -/
theorem Deletes.canonical (h : Deletes room node key depth log ret node' log')
    (hwf : WellFormed S node depth) (hcanon : Canonical node) : Canonical node' := by
  induction h generalizing S with
  | null | leaf | empty => trivial
  | other hne => exact hcanon
  | absent hchild hret ih =>
      rw [(hchild.unchanged hret).1, Function.update_eq_self]
      exact hcanon
  | single hchild hchildren hone hleaf ih =>
      obtain ⟨i, hi, -⟩ := (countChildren_spec _).2 hone
      rw [hi, hchildren]
      exact canonical_update hcanon.2.2 (ih (hwf.2 _) (hcanon.2.2 _)) _ _
  | keep hchild hchildren hmore hone ih =>
      have hwf' := (Deletes.keep hchild hchildren hmore hone).wellFormed hwf
      have hcanon' := canonical_update hcanon.2.2 (ih (hwf.2 _) (hcanon.2.2 _))
      rw [hchildren] at hmore hone hwf' ⊢
      exact ⟨hcanon.1, branches_keep hwf' (hcanon' _) hmore hone, hcanon' _⟩

/-! ## Runs -/

theorem wellFormed_noChildren (i : Fin RADIX_TREE_MAP_SIZE) :
    WellFormed (below S depth i) (noChildren i) (depth + 1) := trivial

theorem wellFormed_update (h : ∀ i, WellFormed (below S depth i) (children i) (depth + 1))
    (hchild : WellFormed (below S depth i) child (depth + 1)) (j : Fin RADIX_TREE_MAP_SIZE) :
    WellFormed (below S depth j) (Function.update children i child j) (depth + 1) := by
  by_cases heq : j = i
  · subst heq
    rwa [Function.update_self]
  · rw [Function.update_of_ne heq]
    exact h j

theorem wellFormed_newLeaf (addr value : Nat) (h : S key) :
    WellFormed S (newLeaf addr key value) depth := by
  unfold newLeaf
  split
  · trivial
  · exact h

theorem Inserts.wellFormed {kmalloc : List MemOp → Nat}
    (h : Inserts kmalloc room node key value depth log ret node' log') (hroom : room + depth = 32)
    (hwf : WellFormed S node depth) (hkey : S key) : WellFormed S node' depth := by
  induction h generalizing S with
  | null => exact wellFormed_newLeaf _ _ hkey
  | same => exact hkey
  | noParent | noSiblings | noFirst | noSecond => exact hwf
  | siblings hne hindex hparent hfirst hsecond =>
      exact .update (by omega)
        (wellFormed_update wellFormed_noChildren (wellFormed_newLeaf _ _ ⟨hkey, rfl⟩))
        (wellFormed_newLeaf _ _ ⟨hwf, rfl⟩)
  | together hne hindex hparent hfirst hsecond ih₁ ih₂ =>
      refine .update (by omega) wellFormed_noChildren (ih₂ (by omega) ?_ ⟨hwf, hindex.symm⟩)
      exact ih₁ (by omega) trivial ⟨hkey, rfl⟩
  | inner hchild ih => exact .update hwf.1 hwf.2 (ih (by omega) (hwf.2 _) ⟨hkey, rfl⟩)

/-- A call keeps the tree well formed and canonical, whatever memory there is. -/
theorem RxtreeCall.canonical {kmalloc : List MemOp → Nat} {call : RxtreeCall}
    (hexec : call.exec kmalloc (t, log) = some (t', log')) (hwf : WellFormed (fun _ => True) t 0)
    (hcanon : Canonical t) : WellFormed (fun _ => True) t' 0 ∧ Canonical t' := by
  cases call with
  | insert key value =>
      obtain ⟨⟨ret, r⟩, hrun, hr⟩ := Option.map_eq_some_iff.mp hexec
      cases hr
      have h := inserts_of_eq 32 hrun
      exact ⟨h.wellFormed rfl hwf trivial, h.canonical hcanon⟩
  | delete key =>
      obtain ⟨⟨ret, r⟩, hrun, hr⟩ := Option.map_eq_some_iff.mp hexec
      cases hr
      have h := deletes_of_eq 32 hrun
      exact ⟨h.wellFormed hwf, h.canonical hwf hcanon⟩
  | lookup key =>
      obtain ⟨r, -, hr⟩ := Option.map_eq_some_iff.mp hexec
      cases hr
      exact ⟨hwf, hcanon⟩

theorem canonical_rxtreeRun {kmalloc : List MemOp → Nat} {calls : List RxtreeCall}
    (h : rxtreeRun kmalloc calls = some (t, log)) :
    WellFormed (fun _ => True) t 0 ∧ Canonical t := by
  induction calls using List.reverseRecOn generalizing t log with
  | nil =>
      cases h
      exact ⟨trivial, trivial⟩
  | append_singleton calls call ih =>
      unfold rxtreeRun at h ih
      rw [List.foldlM_append, Option.bind_eq_bind, Option.bind_eq_some_iff] at h
      obtain ⟨⟨t₁, log₁⟩, hrun, hlast⟩ := h
      simp only [List.foldlM_cons, List.foldlM_nil, bind_pure] at hlast
      obtain ⟨hwf, hcanon⟩ := ih hrun
      exact RxtreeCall.canonical hlast hwf hcanon

/-- **Canonical form.** Two sequences of calls that leave the same map leave trees of one shape, in
which every inner node has two keys below it; a lookup in either reads the map. -/
theorem rxtree_canonical {kmalloc kmalloc' : List MemOp → Nat} (halloc : ∀ log, kmalloc log ≠ 0)
    (halloc' : ∀ log, kmalloc' log ≠ 0) (calls calls' : List RxtreeCall)
    (hsame : contents calls = contents calls') :
    ∃ t log t' log', rxtreeRun kmalloc calls = some (t, log)
      ∧ rxtreeRun kmalloc' calls' = some (t', log') ∧ Canonical t ∧ Canonical t'
      ∧ t.shape = t'.shape
      ∧ ∀ k, rxtreeLookup t k = some ((contents calls k).getD 0)
        ∧ rxtreeLookup t' k = some ((contents calls k).getD 0) := by
  obtain ⟨t, log, hrun, hholds⟩ := holds_rxtreeRun halloc calls
  obtain ⟨t', log', hrun', hholds'⟩ := holds_rxtreeRun halloc' calls'
  obtain ⟨hwf, hcanon⟩ := canonical_rxtreeRun hrun
  obtain ⟨hwf', hcanon'⟩ := canonical_rxtreeRun hrun'
  refine ⟨t, log, t', log', hrun, hrun', hcanon, hcanon', ?_, fun k => ⟨hholds.lookup k, ?_⟩⟩
  · refine canonical_unique hwf hwf' hcanon hcanon' fun k _ => ?_
    rw [hholds.2, hholds'.2, hsame]
  · rw [hsame]
    exact hholds'.lookup k

/-- A neighbour that goes again leaves no trace. -/
theorem rxtree_canonical_neighbour :
    ∃ t log t' log', rxtreeRun (fun log => log.length + 1)
        [.insert 0 5, .insert 1 6, .delete 1] = some (t, log)
      ∧ rxtreeRun (fun log => log.length + 1) [.insert 0 5] = some (t', log')
      ∧ Canonical t ∧ Canonical t' ∧ t.shape = t'.shape
      ∧ ∀ k, rxtreeLookup t k = some ((contents [.insert 0 5, .insert 1 6, .delete 1] k).getD 0)
        ∧ rxtreeLookup t' k
          = some ((contents [.insert 0 5, .insert 1 6, .delete 1] k).getD 0) := by
  refine rxtree_canonical (fun _ => Nat.succ_ne_zero _) (fun _ => Nat.succ_ne_zero _) _ _ ?_
  show Function.update (Function.update (contents [.insert 0 5]) 1 (some 6)) 1 none = _
  rw [Function.update_idem]
  exact Function.update_eq_self_iff.mpr rfl

end NoobKernel.Misc.RadixTree
