import NoobKernel.Lib.Lts
import NoobKernel.Misc.RadixTreeCanon

set_option autoImplicit false

/-! # The nodes of the radix tree

`Owns log M` says that the allocations of the log less what has been freed since are `M`, no address
twice, and that only such addresses have been freed. What a call does to the nodes below it is a
change of `M` that leaves the rest of it alone.

A leaf is split in two ways. Where the keys go on together the old leaf becomes an inner node; where
they part, a copy of it goes below the new parent, and the old leaf is neither linked nor freed. The
first way ends in the second one, so each split loses one node (`accounted_iff`). An insertion that
finds no memory loses none and changes nothing (`rxtreeInsert_enomem`).
-/

namespace NoobKernel.Misc.RadixTree

/-- The addresses that have been allocated and not been freed. -/
def heldNodes : List MemOp → Multiset Nat
  | [] => 0
  | .kmalloc addr :: log => if addr = 0 then heldNodes log else addr ::ₘ heldNodes log
  | .kfree addr :: log => (heldNodes log).erase addr

/-- Every `kfree` is of an address that is allocated. -/
def FreesHeld : List MemOp → Prop
  | [] => True
  | .kmalloc _ :: log => FreesHeld log
  | .kfree addr :: log => addr ∈ heldNodes log ∧ FreesHeld log

structure Owns (log : List MemOp) (M : Multiset Nat) : Prop where
  held : heldNodes log = M
  nodup : M.Nodup
  frees : FreesHeld log

/-- The addresses of the nodes. -/
def RxtreeNode.addrs : RxtreeNode → Multiset Nat
  | null => 0
  | node addr _ _ _ children => addr ::ₘ ∑ i, (children i).addrs

section

variable {log log' : List MemOp} {M F : Multiset Nat} {a addr value depth room : Nat}
  {key pfx k : UInt64} {t t' node node' child : RxtreeNode} {isLeaf : Bool} {ret : Int}
  {children : Fin RADIX_TREE_MAP_SIZE → RxtreeNode} {i j : Fin RADIX_TREE_MAP_SIZE}
  {kmalloc : List MemOp → Nat}

/-! ## The addresses of a tree -/

/-- The nodes of one child, and the others. -/
theorem addrs_split (addr : Nat) (pfx : UInt64) (isLeaf : Bool) (value : Nat)
    (children : Fin RADIX_TREE_MAP_SIZE → RxtreeNode) (i : Fin RADIX_TREE_MAP_SIZE) :
    ∃ R : Multiset Nat, ∀ child, (RxtreeNode.node addr pfx isLeaf value
      (Function.update children i child)).addrs = child.addrs + R := by
  refine ⟨addr ::ₘ ∑ j ∈ Finset.univ.erase i, (children j).addrs, fun child => ?_⟩
  rw [RxtreeNode.addrs, ← Finset.add_sum_erase _ _ (Finset.mem_univ i), Function.update_self]
  have hrest : ∀ j ∈ Finset.univ.erase i,
      (Function.update children i child j).addrs = (children j).addrs := by
    intro j hj
    rw [Function.update_of_ne (Finset.ne_of_mem_erase hj)]
  rw [Finset.sum_congr rfl hrest, Multiset.add_cons]

/-- The rest of the nodes when a child changes. -/
theorem addrs_frame (addr : Nat) (pfx : UInt64) (isLeaf : Bool) (value : Nat)
    (children : Fin RADIX_TREE_MAP_SIZE → RxtreeNode) (i : Fin RADIX_TREE_MAP_SIZE)
    (F : Multiset Nat) :
    ∃ R : Multiset Nat,
      (RxtreeNode.node addr pfx isLeaf value children).addrs + F = (children i).addrs + R
      ∧ ∀ child, (RxtreeNode.node addr pfx isLeaf value
        (Function.update children i child)).addrs + F = child.addrs + R := by
  obtain ⟨R, hR⟩ := addrs_split addr pfx isLeaf value children i
  have hnode := hR (children i)
  rw [Function.update_eq_self] at hnode
  refine ⟨R + F, ?_, fun child => ?_⟩
  · rw [hnode, add_assoc]
  · rw [hR child, add_assoc]

theorem addrs_noChildren : (RxtreeNode.node addr pfx isLeaf value noChildren).addrs = {addr} := by
  rw [RxtreeNode.addrs]
  exact congrArg (addr ::ₘ ·) Finset.sum_const_zero

theorem addrs_only_child : (RxtreeNode.node addr pfx isLeaf value
    (Function.update noChildren i child)).addrs = child.addrs + {addr} := by
  obtain ⟨R, hR⟩ := addrs_split addr pfx isLeaf value noChildren i
  have hnull := hR (noChildren i)
  rw [Function.update_eq_self, addrs_noChildren] at hnull
  rw [hR child, hnull]
  congr 1
  exact (zero_add R).symm

theorem addrs_siblings {child₁ child₂ : RxtreeNode} (hne : i ≠ j) :
    (RxtreeNode.node addr pfx isLeaf value (Function.update (Function.update noChildren i child₁) j
      child₂)).addrs = child₂.addrs + (child₁.addrs + {addr}) := by
  obtain ⟨R, hR⟩ := addrs_split addr pfx isLeaf value (Function.update noChildren i child₁) j
  have hnull := hR (Function.update noChildren i child₁ j)
  rw [Function.update_eq_self, addrs_only_child, Function.update_of_ne hne.symm] at hnull
  rw [hR child₂, hnull]
  congr 1
  exact (zero_add R).symm

theorem addrs_leaf (hcanon : Canonical (.node addr pfx true value children)) :
    (RxtreeNode.node addr pfx true value children).addrs = {addr} := by
  rw [show children = noChildren from funext hcanon]
  exact addrs_noChildren

/-! ## Allocating and freeing -/

theorem Owns.alloc (h : Owns log M) (hfresh : ∀ log, kmalloc log ∉ heldNodes log)
    (haddr : kmalloc log ≠ 0) : Owns (afterAlloc kmalloc log) (kmalloc log ::ₘ M) where
  held := (if_neg haddr).trans (by rw [h.held])
  nodup := Multiset.nodup_cons.mpr ⟨h.held ▸ hfresh log, h.nodup⟩
  frees := h.frees

theorem Owns.allocNone (h : Owns log M) (haddr : kmalloc log = 0) :
    Owns (afterAlloc kmalloc log) M where
  held := (if_pos haddr).trans h.held
  nodup := h.nodup
  frees := h.frees

theorem Owns.newLeaf (h : Owns log M) (hfresh : ∀ log, kmalloc log ∉ heldNodes log) (key : UInt64)
    (value : Nat) :
    Owns (afterAlloc kmalloc log) ((newLeaf (kmalloc log) key value).addrs + M) := by
  unfold RadixTree.newLeaf
  split
  · rename_i hnone
    rw [RxtreeNode.addrs, zero_add]
    exact h.allocNone hnone
  · rename_i haddr
    have hleaf : (RxtreeNode.node (kmalloc log) key true value fun _ => .null).addrs
        = {kmalloc log} := addrs_noChildren
    rw [hleaf, Multiset.singleton_add]
    exact h.alloc hfresh haddr

theorem Owns.kfree (h : Owns log (a ::ₘ M)) : Owns (.kfree a :: log) M where
  held := by
    rw [heldNodes, h.held, Multiset.erase_cons_head]
  nodup := (Multiset.nodup_cons.mp h.nodup).2
  frees := ⟨h.held ▸ Multiset.mem_cons_self a M, h.frees⟩

/-- `rxtree_node_free` frees the nodes of a subtree, and no others. -/
theorem Owns.nodeFree (h : Owns log (t.addrs + M)) : Owns (rxtreeNodeFree t log) M := by
  induction t generalizing log M with
  | null =>
      rw [RxtreeNode.addrs, zero_add] at h
      exact h
  | node addr pfx isLeaf value children ih =>
      have hloop : ∀ (l : List (Fin RADIX_TREE_MAP_SIZE)) (log : List MemOp),
          Owns log ((l.map fun i => (children i).addrs).sum + (addr ::ₘ M)) →
          Owns (l.foldl (fun log i => rxtreeNodeFree (children i) log) log) (addr ::ₘ M) := by
        intro l
        induction l with
        | nil =>
            intro log hlog
            rwa [List.map_nil, List.sum_nil, zero_add] at hlog
        | cons i l ihl =>
            intro log hlog
            rw [List.map_cons, List.sum_cons, add_assoc] at hlog
            exact ihl _ (ih i hlog)
      rw [rxtreeNodeFree]
      refine Owns.kfree (hloop _ log ?_)
      rw [RxtreeNode.addrs, Fin.sum_univ_def] at h
      rwa [Multiset.cons_add, ← Multiset.add_cons] at h

/-! ## Insertion -/

/-- The path of the key ends at a leaf of another key. -/
def EndsAtOther : RxtreeNode → UInt64 → Nat → Prop
  | .null, _, _ => False
  | .node _ pfx true _ _, key, _ => pfx ≠ key
  | .node _ _ false _ children, key, depth =>
      EndsAtOther (children (rxtreeIndex key depth)) key (depth + 1)

/-- The new leaf that an insertion below nothing leaves. -/
theorem Inserts.leaf_of_null (h : Inserts kmalloc room .null key value depth log 0 node' log') :
    kmalloc log ≠ 0 ∧ node' = .node (kmalloc log) key true value (fun _ => .null)
      ∧ log' = afterAlloc kmalloc log := by
  obtain ⟨hret, hnode, hlog⟩ := h.of_null
  have haddr : kmalloc log ≠ 0 := by
    intro hnone
    rw [if_pos hnone] at hret
    cases hret
  exact ⟨haddr, hnode.trans (if_neg haddr), hlog⟩

theorem Owns.congr {M' : Multiset Nat} (h : Owns log M) (heq : M = M') : Owns log M' := heq ▸ h

/-- The siblings and their parent have been allocated. -/
theorem Owns.siblings (h : Owns log M) (hfresh : ∀ log, kmalloc log ∉ heldNodes log)
    (hparent : kmalloc log ≠ 0) (hne : i ≠ j) (key pfx : UInt64) (value old : Nat) :
    Owns (afterAlloc kmalloc (afterAlloc kmalloc (afterAlloc kmalloc log)))
      ((RxtreeNode.node (kmalloc log) 0 false 0 (Function.update (Function.update noChildren i
        (RadixTree.newLeaf (kmalloc (afterAlloc kmalloc log)) key value)) j
        (RadixTree.newLeaf (kmalloc (afterAlloc kmalloc (afterAlloc kmalloc log))) pfx old))).addrs
        + M) := by
  rw [addrs_siblings hne, add_assoc, add_assoc, Multiset.singleton_add]
  exact ((h.alloc hfresh hparent).newLeaf hfresh key value).newLeaf hfresh pfx old

/-- **An insertion loses a node** if it splits a leaf, and none otherwise. -/
theorem Inserts.owns (hfresh : ∀ log, kmalloc log ∉ heldNodes log)
    (h : Inserts kmalloc room node key value depth log ret node' log') (hcanon : Canonical node)
    (hown : Owns log (node.addrs + F)) :
    (¬(ret = 0 ∧ EndsAtOther node key depth) → Owns log' (node'.addrs + F))
      ∧ (ret = 0 ∧ EndsAtOther node key depth → ∃ a, Owns log' (a ::ₘ (node'.addrs + F))) := by
  induction h generalizing F with
  | null room key value depth log =>
      rw [RxtreeNode.addrs, zero_add] at hown
      exact ⟨fun _ => hown.newLeaf hfresh key value, fun hsplit => hsplit.2.elim⟩
  | same room addr key old value depth children log =>
      exact ⟨fun _ => hown, fun hsplit => absurd rfl hsplit.2⟩
  | noParent hne hnone =>
      exact ⟨fun _ => hown.allocNone hnone, fun hsplit => absurd hsplit.1 (by decide)⟩
  | noSiblings hne hindex hparent hnone =>
      refine ⟨fun _ => Owns.nodeFree ?_, fun hsplit => absurd hsplit.1 (by decide)⟩
      exact hown.siblings hfresh hparent hindex _ _ _ _
  | @siblings _ addr pfx key old value _ _ _ hne hindex hparent hfirst hsecond =>
      -- `*node = parent`: the leaf at `addr` is not freed
      refine ⟨fun hsplit => absurd ⟨rfl, hne⟩ hsplit, fun _ => ⟨addr, ?_⟩⟩
      rw [addrs_leaf hcanon] at hown
      refine (hown.siblings hfresh hparent hindex key pfx value old).congr ?_
      rw [Multiset.singleton_add, Multiset.add_cons]
  | noFirst hne hindex hparent hfirst hret ih =>
      refine ⟨fun _ => Owns.nodeFree ?_, fun hsplit => absurd hsplit.1 (by decide)⟩
      have hown₁ := (ih trivial ((hown.alloc hfresh hparent).congr (zero_add _).symm)).1
        fun hsplit => hsplit.2
      refine hown₁.congr ?_
      rw [addrs_only_child, add_assoc, Multiset.singleton_add]
  | noSecond hne hindex hparent hfirst hsecond hret ih₁ ih₂ =>
      -- a split that fails below the parent loses nothing, and all below it is freed
      refine ⟨fun _ => Owns.nodeFree ?_, fun hsplit => absurd hsplit.1 (by decide)⟩
      have hown₁ := (ih₁ trivial ((hown.alloc hfresh hparent).congr (zero_add _).symm)).1
        fun hsplit => hsplit.2
      have hown₂ := (ih₂ (hfirst.canonical trivial) hown₁).1 fun hsplit => hret hsplit.1
      refine hown₂.congr ?_
      rw [addrs_only_child, add_assoc, Multiset.singleton_add]
  | @together _ addr pfx _ _ _ depth _ _ _ _ first _ hne hindex hparent hfirst hsecond ih₁ ih₂ =>
      refine ⟨fun hsplit => absurd ⟨rfl, hne⟩ hsplit, fun _ => ?_⟩
      have hown₁ := (ih₁ trivial ((hown.alloc hfresh hparent).congr (zero_add _).symm)).1
        fun hsplit => hsplit.2
      -- the copy of the key that the second insertion splits is the node that is lost
      have hends : EndsAtOther first pfx (depth + 1) := by
        rw [hfirst.leaf_of_null.2.1]
        exact hne.symm
      obtain ⟨a, hown₂⟩ := (ih₂ (hfirst.canonical trivial) hown₁).2 ⟨rfl, hends⟩
      rw [addrs_leaf hcanon] at hown₂
      refine ⟨a, Owns.kfree (hown₂.congr ?_)⟩
      rw [addrs_only_child, Multiset.add_cons, Multiset.cons_swap, add_assoc]
  | @inner room addr pfx key old value depth children log log' ret child hchild ih =>
      obtain ⟨R, hnode, hR⟩ := addrs_frame addr pfx false old children (rxtreeIndex key depth) F
      rw [hnode] at hown
      rw [hR child]
      exact ih (hcanon.2.2 _) hown

/-! ## Deletion -/

theorem addrs_single (hrest : ∀ j, j ≠ i → children j = .null) :
    (RxtreeNode.node addr pfx isLeaf value children).addrs = (children i).addrs + {addr} := by
  have honly : children = Function.update noChildren i (children i) := by
    funext j
    by_cases heq : j = i
    · rw [heq, Function.update_self]
    · rw [Function.update_of_ne heq, hrest j heq]
      rfl
  rw [honly, addrs_only_child, Function.update_self]

/-- What happens to the nodes of a child. -/
theorem Owns.inChild (hown : Owns log ((RxtreeNode.node addr pfx isLeaf value children).addrs + F))
    (ih : ∀ {F}, Owns log ((children i).addrs + F) → Owns log' (child.addrs + F)) :
    Owns log' ((RxtreeNode.node addr pfx isLeaf value
      (Function.update children i child)).addrs + F) := by
  obtain ⟨R, hnode, hR⟩ := addrs_frame addr pfx isLeaf value children i F
  rw [hnode] at hown
  rw [hR child]
  exact ih hown

/-- **A deletion frees what it takes out.** -/
theorem Deletes.owns (h : Deletes room node key depth log ret node' log') (hcanon : Canonical node)
    (hown : Owns log (node.addrs + F)) : Owns log' (node'.addrs + F) := by
  induction h generalizing F with
  | null | other => exact hown
  | leaf room addr key value depth children log =>
      rw [addrs_leaf hcanon, Multiset.singleton_add] at hown
      rw [RxtreeNode.addrs, zero_add]
      exact hown.kfree
  | absent hchild hret ih => exact hown.inChild (ih (hcanon.2.2 _))
  | single hchild hchildren hone hleaf ih =>
      have hown' := hown.inChild (ih (hcanon.2.2 _))
      rw [← hchildren] at hown'
      obtain ⟨i, hi, hrest⟩ := (countChildren_spec _).2 hone
      rw [addrs_single hrest, add_comm _ {_}, add_assoc, Multiset.singleton_add] at hown'
      rw [hi]
      exact hown'.kfree
  | empty hchild hchildren hzero ih =>
      have hown' := hown.inChild (ih (hcanon.2.2 _))
      rw [← hchildren, addrs_single fun j _ => (countChildren_spec _).1 hzero j,
        (countChildren_spec _).1 hzero 0, RxtreeNode.addrs, zero_add,
        Multiset.singleton_add] at hown'
      rw [RxtreeNode.addrs, zero_add]
      exact hown'.kfree
  | keep hchild hchildren hmore hone ih =>
      rw [hchildren]
      exact hown.inChild (ih (hcanon.2.2 _))

/-! ## When a leaf is split -/

/-- The digits from a depth on that two keys have in common. -/
def commonDigits : Nat → UInt64 → UInt64 → Nat → Nat
  | 0, _, _, _ => 0
  | room + 1, k, k', depth =>
      if rxtreeIndex k depth = rxtreeIndex k' depth then commonDigits room k k' (depth + 1) + 1
      else 0

/-- The key ends at a leaf of another one, and there is memory for all that the split allocates: two
nodes for each common digit, and three for the last. -/
def Splits (kmalloc : List MemOp → Nat) (log : List MemOp) :
    Nat → RxtreeNode → UInt64 → Nat → Prop
  | _, .null, _, _ => False
  | room, .node _ pfx true _ _, key, depth => pfx ≠ key
      ∧ ∀ i < 2 * commonDigits room key pfx depth + 3, kmalloc ((afterAlloc kmalloc)^[i] log) ≠ 0
  | 0, .node _ _ false _ _, _, _ => False
  | room + 1, .node _ _ false _ children, key, depth =>
      Splits kmalloc log room (children (rxtreeIndex key depth)) key (depth + 1)

theorem commonDigits_comm (room : Nat) (k k' : UInt64) (depth : Nat) :
    commonDigits room k k' depth = commonDigits room k' k depth := by
  induction room generalizing depth with
  | zero => rfl
  | succ room ih =>
      rw [commonDigits, commonDigits, ih]
      simp only [eq_comm]

theorem splits_leaf : Splits kmalloc log room (.node addr pfx true value children) key depth
    ↔ pfx ≠ key ∧ ∀ i < 2 * commonDigits room key pfx depth + 3,
      kmalloc ((afterAlloc kmalloc)^[i] log) ≠ 0 := by
  rw [Splits]

theorem splits_siblings (hne : pfx ≠ key)
    (hindex : rxtreeIndex key depth ≠ rxtreeIndex pfx depth) :
    Splits kmalloc log (room + 1) (.node addr pfx true value children) key depth
      ↔ kmalloc log ≠ 0 ∧ kmalloc (afterAlloc kmalloc log) ≠ 0
        ∧ kmalloc (afterAlloc kmalloc (afterAlloc kmalloc log)) ≠ 0 := by
  rw [splits_leaf, commonDigits, if_neg hindex, and_iff_right hne]
  simp only [Nat.mul_zero, Nat.zero_add, Nat.forall_lt_succ_left, Function.iterate_succ_apply,
    Function.iterate_zero, id, Nat.not_lt_zero, false_imp_iff, implies_true, and_true]

/-- Where the keys go on together, the split below the parent is of a leaf of the new key. -/
theorem splits_together (hne : pfx ≠ key) (hindex : rxtreeIndex key depth = rxtreeIndex pfx depth)
    (new : Nat) :
    Splits kmalloc log (room + 1) (.node addr pfx true value children) key depth
      ↔ kmalloc log ≠ 0 ∧ kmalloc (afterAlloc kmalloc log) ≠ 0
        ∧ Splits kmalloc (afterAlloc kmalloc (afterAlloc kmalloc log)) room
          (.node (kmalloc (afterAlloc kmalloc log)) key true new fun _ => .null) pfx
          (depth + 1) := by
  have hlong : 2 * (commonDigits room key pfx (depth + 1) + 1) + 3
      = 2 * commonDigits room pfx key (depth + 1) + 3 + 1 + 1 := by
    rw [commonDigits_comm room pfx key]
    omega
  rw [splits_leaf, splits_leaf, commonDigits, if_pos hindex, and_iff_right hne,
    and_iff_right hne.symm, hlong]
  simp only [Nat.forall_lt_succ_left, Function.iterate_succ_apply, Function.iterate_zero, id]

/-- An insertion splits a leaf if the condition says so. -/
theorem Inserts.splits (h : Inserts kmalloc room node key value depth log ret node' log') :
    ret = 0 ∧ EndsAtOther node key depth ↔ Splits kmalloc log room node key depth := by
  induction h with
  | null room key value depth log =>
      rw [Splits]
      exact iff_of_eq (and_false _)
  | same room addr key old value depth children log =>
      rw [splits_leaf]
      exact iff_of_false (fun h => h.2 rfl) fun h => h.1 rfl
  | noParent hne hnone =>
      rw [splits_leaf]
      exact iff_of_false (fun h => absurd h.1 (by decide)) fun h => h.2 0 (by omega) hnone
  | noSiblings hne hindex hparent hnone =>
      rw [splits_siblings hne hindex]
      exact iff_of_false (fun h => absurd h.1 (by decide)) fun h => hnone.elim h.2.1 h.2.2
  | siblings hne hindex hparent hfirst hsecond =>
      rw [splits_siblings hne hindex]
      exact iff_of_true ⟨rfl, hne⟩ ⟨hparent, hfirst, hsecond⟩
  -- below the new parent the first leaf goes into an empty tree, which fails only without memory
  | noFirst hne hindex hparent hfirst hret ih =>
      obtain ⟨hval, -, -⟩ := hfirst.of_null
      rw [splits_together hne hindex 0]
      refine iff_of_false (fun h => absurd h.1 (by decide)) fun h => hret ?_
      rw [hval, if_neg h.2.1]
  | @noSecond _ _ _ _ _ value _ _ _ _ _ _ _ _ hne hindex hparent hfirst hsecond hret ih₁ ih₂ =>
      obtain ⟨hleaf, rfl, rfl⟩ := hfirst.leaf_of_null
      rw [splits_together hne hindex value]
      exact iff_of_false (fun h => absurd h.1 (by decide)) fun h => hret (ih₂.mpr h.2.2).1
  | @together _ _ _ _ _ value _ _ _ _ _ _ _ hne hindex hparent hfirst hsecond ih₁ ih₂ =>
      obtain ⟨hleaf, rfl, rfl⟩ := hfirst.leaf_of_null
      rw [splits_together hne hindex value]
      exact iff_of_true ⟨rfl, hne⟩ ⟨hparent, hleaf, ih₂.mp ⟨rfl, hne.symm⟩⟩
  | inner hchild ih =>
      rw [Splits]
      exact ih

/-! ## Every call returns -/

/-- An insertion returns, with or without memory. -/
theorem rxtreeInsertNode_isSome (kmalloc : List MemOp → Nat) (room : Nat) {S : UInt64 → Prop}
    {node : RxtreeNode} (key : UInt64) (value : Nat) {depth : Nat} (log : List MemOp)
    (hroom : room + depth = 32) (hS : Shares S depth) (hwf : WellFormed S node depth)
    (hkey : S key) :
    ∃ r, rxtreeInsertNode kmalloc room node key value depth log = some r := by
  induction room generalizing S node key value depth log with
  | zero =>
      obtain rfl : depth = 32 := by omega
      cases node with
      | null => exact ⟨_, rfl⟩
      | node addr pfx leaf old children =>
          cases leaf with
          | true =>
              obtain rfl : pfx = key := hS.eq hwf hkey
              rw [rxtreeInsertNode, if_pos rfl]
              exact ⟨_, rfl⟩
          | false => exact absurd hwf.1 (by omega)
  | succ room ih =>
      cases node with
      | null => exact ⟨_, rfl⟩
      | node addr pfx leaf old children =>
          cases leaf with
          | true =>
              rw [rxtreeInsertNode, rxtreeNodeAlloc_parent]
              by_cases hsame : pfx = key
              · rw [if_pos hsame]
                exact ⟨_, rfl⟩
              by_cases hnone : kmalloc log = 0
              · rw [if_neg hsame, if_pos hnone]
                exact ⟨_, rfl⟩
              rw [if_neg hsame, if_neg hnone]
              dsimp only
              by_cases hindex : rxtreeIndex key depth = rxtreeIndex pfx depth
              · -- both keys go below the new node in turn, the old one into what the first call returns
                rw [if_pos hindex, ← hindex]
                have hnull : WellFormed (below S depth (rxtreeIndex key depth)) .null (depth + 1) :=
                  trivial
                obtain ⟨⟨ret₁, first, log₁⟩, hfirst⟩ := ih key value (afterAlloc kmalloc log) (by omega)
                  (hS.below (rxtreeIndex key depth)) hnull ⟨hkey, rfl⟩
                have hwf₁ := (inserts_of_eq room hfirst).wellFormed (by omega) hnull ⟨hkey, rfl⟩
                obtain ⟨⟨ret₂, second, log₂⟩, hsecond⟩ := ih pfx old log₁ (by omega)
                  (hS.below (rxtreeIndex key depth)) hwf₁ ⟨hwf, hindex.symm⟩
                rw [noChildren, hfirst]
                dsimp only
                rw [Function.update_self, hsecond]
                dsimp only
                split
                · exact ⟨_, rfl⟩
                · split <;> exact ⟨_, rfl⟩
              · rw [if_neg hindex, rxtreeNodeAlloc_leaf, rxtreeNodeAlloc_leaf]
                dsimp only
                split <;> exact ⟨_, rfl⟩
          | false =>
              obtain ⟨r, hrun⟩ := ih key value log (by omega) (hS.below (rxtreeIndex key depth))
                (hwf.2 _) ⟨hkey, rfl⟩
              rw [rxtreeInsertNode, hrun]
              exact ⟨_, rfl⟩

/-- A call returns. -/
theorem RxtreeCall.exec_isSome (kmalloc : List MemOp → Nat) (call : RxtreeCall)
    (log : List MemOp) (hwf : WellFormed (fun _ => True) t 0) :
    ∃ s, call.exec kmalloc (t, log) = some s := by
  cases call with
  | insert key value =>
      obtain ⟨r, hrun⟩ :=
        rxtreeInsertNode_isSome kmalloc 32 key value log rfl shares_zero hwf trivial
      exact ⟨r.2, by rw [RxtreeCall.exec, rxtreeInsert, hrun]; rfl⟩
  | delete key =>
      obtain ⟨habsent, hpresent⟩ := rxtreeDeleteNode_spec 32 key log rfl hwf trivial
      by_cases hkey : entries t 0 key = none
      · exact ⟨(t, log), by rw [RxtreeCall.exec, rxtreeDelete, habsent hkey]; rfl⟩
      · obtain ⟨t', log', hrun, -⟩ := hpresent hkey
        exact ⟨(t', log'), by rw [RxtreeCall.exec, rxtreeDelete, hrun]; rfl⟩
  | lookup key =>
      refine ⟨(t, log), ?_⟩
      rw [RxtreeCall.exec, rxtreeLookup, rxtreeLookupNode_eq 32 rfl hwf trivial]
      rfl

/-! ## Runs -/

inductive RxtreeOp
  | call (call : RxtreeCall)
  | free

def RxtreeOp.exec (kmalloc : List MemOp → Nat) :
    RxtreeNode × List MemOp → RxtreeOp → Option (RxtreeNode × List MemOp)
  | s, .call c => c.exec kmalloc s
  | (tree, log), .free => some (rxtreeFree tree log)

/-- A call that splits no leaf. -/
def RxtreeOp.SplitsNone (kmalloc : List MemOp → Nat) : RxtreeNode × List MemOp → RxtreeOp → Prop
  | (tree, log), .call (.insert key _) => ¬Splits kmalloc log 32 tree key 0
  | _, _ => True

/-- Each node that has been allocated and not been freed is in the tree, once, and each that has been
freed was allocated. -/
def Accounted : RxtreeNode × List MemOp → Prop
  | (tree, log) => Owns log tree.addrs

/-- What every operation keeps, with the nodes that are lost. -/
structure Tidy (s : RxtreeNode × List MemOp) (lost : Multiset Nat) : Prop where
  wellFormed : WellFormed (fun _ => True) s.1 0
  canonical : Canonical s.1
  owns : Owns s.2 (s.1.addrs + lost)

/-- **What an operation loses**: one node, if it splits a leaf. -/
theorem Tidy.exec {s s' : RxtreeNode × List MemOp} {lost : Multiset Nat} {op : RxtreeOp}
    (hfresh : ∀ log, kmalloc log ∉ heldNodes log) (h : Tidy s lost)
    (hexec : op.exec kmalloc s = some s') :
    (op.SplitsNone kmalloc s → Tidy s' lost)
      ∧ (¬op.SplitsNone kmalloc s → ∃ a, Tidy s' (a ::ₘ lost)) := by
  obtain ⟨t, log⟩ := s
  obtain ⟨t', log'⟩ := s'
  obtain ⟨hwf, hcanon, hown⟩ := h
  cases op with
  | free =>
      cases hexec
      refine ⟨fun _ => ⟨trivial, trivial, ?_⟩, fun hno => absurd trivial hno⟩
      rw [RxtreeNode.addrs, zero_add]
      exact hown.nodeFree
  | call call =>
      obtain ⟨hwf', hcanon'⟩ := RxtreeCall.canonical hexec hwf hcanon
      cases call with
      | insert key value =>
          obtain ⟨⟨ret, r⟩, hrun, hr⟩ := Option.map_eq_some_iff.mp hexec
          cases hr
          -- the nodes of an insertion are counted along the way it has gone
          have hins := inserts_of_eq 32 hrun
          obtain ⟨hkeeps, hloses⟩ := hins.owns hfresh hcanon hown
          rw [hins.splits] at hkeeps hloses
          refine ⟨fun hno => ⟨hwf', hcanon', hkeeps hno⟩, fun hsplit => ?_⟩
          obtain ⟨a, hown'⟩ := hloses (not_not.mp hsplit)
          refine ⟨a, hwf', hcanon', hown'.congr ?_⟩
          rw [Multiset.add_cons]
      | delete key =>
          obtain ⟨⟨ret, r⟩, hrun, hr⟩ := Option.map_eq_some_iff.mp hexec
          cases hr
          have hown' := (deletes_of_eq 32 hrun).owns hcanon hown
          exact ⟨fun _ => ⟨hwf', hcanon', hown'⟩, fun hno => absurd trivial hno⟩
      | lookup key =>
          obtain ⟨r, -, hr⟩ := Option.map_eq_some_iff.mp hexec
          cases hr
          exact ⟨fun _ => ⟨hwf, hcanon, hown⟩, fun hno => absurd trivial hno⟩

theorem RxtreeOp.exec_isSome (kmalloc : List MemOp → Nat) (op : RxtreeOp)
    {s : RxtreeNode × List MemOp} (hwf : WellFormed (fun _ => True) s.1 0) :
    ∃ s', op.exec kmalloc s = some s' := by
  cases op with
  | call c => exact c.exec_isSome kmalloc s.2 hwf
  | free => exact ⟨_, rfl⟩

end

theorem tidy_init : Tidy (rxtreeInit, []) 0 where
  wellFormed := trivial
  canonical := trivial
  owns := ⟨rfl, Multiset.nodup_zero, trivial⟩

/-- What every operation keeps, whether it loses nodes or not. -/
structure Sound (kmalloc : List MemOp → Nat) (s : RxtreeNode × List MemOp) : Prop where
  wellFormed : WellFormed (fun _ => True) s.1 0
  canonical : Canonical s.1
  ledger : (∀ log, kmalloc log ∉ heldNodes log) → ∃ lost, Tidy s lost

theorem Sound.exec {kmalloc : List MemOp → Nat} {s s' : RxtreeNode × List MemOp} {op : RxtreeOp}
    (h : Sound kmalloc s) (hexec : op.exec kmalloc s = some s') : Sound kmalloc s' := by
  have hledger : (∀ log, kmalloc log ∉ heldNodes log) → ∃ lost, Tidy s' lost := by
    intro hfresh
    obtain ⟨lost, htidy⟩ := h.ledger hfresh
    obtain ⟨hkeeps, hloses⟩ := htidy.exec hfresh hexec
    by_cases hno : op.SplitsNone kmalloc s
    · exact ⟨lost, hkeeps hno⟩
    · obtain ⟨a, htidy'⟩ := hloses hno
      exact ⟨a ::ₘ lost, htidy'⟩
  cases op with
  | call c =>
      obtain ⟨hwf, hcanon⟩ := RxtreeCall.canonical hexec h.wellFormed h.canonical
      exact ⟨hwf, hcanon, hledger⟩
  | free =>
      cases hexec
      exact ⟨trivial, trivial, hledger⟩

theorem sound_init (kmalloc : List MemOp → Nat) : Sound kmalloc (rxtreeInit, []) :=
  ⟨trivial, trivial, fun _ => ⟨0, tidy_init⟩⟩

/-- All operations are executed. -/
theorem exec_rxtreeOps (kmalloc : List MemOp → Nat) (ops : List RxtreeOp) :
    ∃ s, Lts.exec (RxtreeOp.exec kmalloc) (fun _ _ => True) (rxtreeInit, []) ops = some s
      ∧ Sound kmalloc s :=
  Lts.exec_isSome (fun _ _ _ => Sound.exec) (fun _ op h => op.exec_isSome kmalloc h.wellFormed)
    (sound_init kmalloc) ops

/-- **Where all nodes are accounted for.** All operations are executed; at each moment each node that
is held is in the tree, exactly once, if and only if no insertion has split a leaf. -/
theorem accounted_iff {kmalloc : List MemOp → Nat} (hfresh : ∀ log, kmalloc log ∉ heldNodes log)
    (ops : List RxtreeOp) :
    (∃ s, Lts.exec (RxtreeOp.exec kmalloc) (fun _ _ => True) (rxtreeInit, []) ops = some s)
      ∧ (Lts.Throughout (RxtreeOp.exec kmalloc) Accounted (rxtreeInit, []) ops
        ↔ Lts.Allowed (RxtreeOp.exec kmalloc) (fun s op => op.SplitsNone kmalloc s)
          (rxtreeInit, []) ops) := by
  obtain ⟨s, hexec, -⟩ := exec_rxtreeOps kmalloc ops
  refine ⟨⟨s, hexec⟩, Lts.throughout_iff_allowed (J := fun s => Tidy s 0) (fun s h => ?_)
    (fun s op s' h hexec => (h.exec hfresh hexec).1) (fun s op s' h hexec hacc => ?_) tidy_init⟩
  · have hown := h.owns
    rwa [add_zero] at hown
  · by_contra hsplit
    obtain ⟨a, h'⟩ := (h.exec hfresh hexec).2 hsplit
    have hcard := congrArg Multiset.card (h'.owns.held.symm.trans hacc.held)
    rw [Multiset.card_add, Multiset.card_cons] at hcard
    omega

/-- An address that is not held. -/
def unusedAddr (log : List MemOp) : Nat := (heldNodes log).sum + 1

theorem unusedAddr_not_held (log : List MemOp) : unusedAddr log ∉ heldNodes log :=
  fun h => Nat.not_succ_le_self _ (Multiset.single_le_sum (fun _ _ => Nat.zero_le _) _ h)

/-- A key goes into an empty tree, is overwritten and goes again. -/
theorem accounted_overwritten :
    Lts.Throughout (RxtreeOp.exec unusedAddr) Accounted (rxtreeInit, [])
      [.call (.insert 0 5), .call (.insert 0 6), .call (.delete 0), .free] := by
  refine (accounted_iff unusedAddr_not_held _).2.mpr ?_
  rintro _ ⟨⟩
  refine ⟨id, ?_⟩
  rintro _ ⟨⟩
  refine ⟨fun h => h.1 rfl, ?_⟩
  rintro _ ⟨⟩
  refine ⟨trivial, ?_⟩
  rintro _ ⟨⟩
  exact ⟨trivial, trivial⟩

/-- Two keys that differ in the first digit: the leaf of the first is lost. -/
theorem not_forall_nodesAccounted :
    ¬∀ kmalloc : List MemOp → Nat, (∀ log, kmalloc log ∉ heldNodes log) → ∀ ops : List RxtreeOp,
      Lts.Throughout (RxtreeOp.exec kmalloc) Accounted (rxtreeInit, []) ops := by
  intro h
  have hrun := h unusedAddr unusedAddr_not_held
    [.call (.insert 0 5), .call (.insert 0x4000000000000000 6), .free]
  have hend := hrun.of_exec (t := (.null, _)) rfl
  exact absurd hend.held (by decide)

/-- **An insertion that finds no memory changes nothing**: no lookup, and no node of the tree is
freed. -/
theorem rxtreeInsert_enomem (kmalloc : List MemOp → Nat) (ops : List RxtreeOp) :
    ∃ tree log,
      Lts.exec (RxtreeOp.exec kmalloc) (fun _ _ => True) (rxtreeInit, []) ops = some (tree, log)
      ∧ ∀ key value, ∃ ret tree' log',
        rxtreeInsert kmalloc tree key value log = some (ret, tree', log')
        ∧ (ret = 0 ∨ ret = -ENOMEM)
        ∧ (ret = -ENOMEM →
          (∀ k, ∃ v, rxtreeLookup tree k = some v ∧ rxtreeLookup tree' k = some v)
          ∧ ((∀ log, kmalloc log ∉ heldNodes log) → tree'.addrs ≤ heldNodes log')) := by
  obtain ⟨⟨tree, log⟩, hexec, hwf, hcanon, hledger⟩ := exec_rxtreeOps kmalloc ops
  refine ⟨tree, log, hexec, fun key value => ?_⟩
  obtain ⟨⟨ret, tree', log'⟩, hrun⟩ :=
    rxtreeInsertNode_isSome kmalloc 32 key value log rfl shares_zero hwf trivial
  have hins := inserts_of_eq 32 hrun
  refine ⟨ret, tree', log', hrun, hins.ret, fun hret => ?_⟩
  have hne : ret ≠ 0 := by
    rw [hret]
    decide
  -- a failed insertion leaves the tree, though not the log
  obtain rfl := hins.unchanged hne
  constructor
  · intro k
    have hlookup := @rxtreeLookupNode_eq 32 _ _ k 0 rfl hwf trivial
    exact ⟨_, hlookup, hlookup⟩
  · intro hfresh
    obtain ⟨lost, h⟩ := hledger hfresh
    have hown := (hins.owns hfresh hcanon h.owns).1 fun hsplit => hne hsplit.1
    rw [hown.held]
    exact Multiset.le_add_right _ _

end NoobKernel.Misc.RadixTree
