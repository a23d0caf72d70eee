import NoobKernel.Misc.RadixTree

set_option autoImplicit false

/-! # What an insertion or a deletion does

`Inserts` has one constructor for each way through `rxtree_insert_node`, with the allocations that
have failed on it, and `Deletes` one for each way through `rxtree_delete_node`. A result about a
call is an induction over them.
-/

namespace NoobKernel.Misc.RadixTree

/-- A new leaf, or `NULL` if there was no memory for it. -/
def newLeaf (addr : Nat) (key : UInt64) (value : Nat) : RxtreeNode :=
  if addr = 0 then .null else .node addr key true value fun _ => .null

/-- The children of a new node. -/
def noChildren (_ : Fin RADIX_TREE_MAP_SIZE) : RxtreeNode := .null

/-- The log after a call of `kmalloc`. -/
def afterAlloc (kmalloc : List MemOp → Nat) (log : List MemOp) : List MemOp :=
  .kmalloc (kmalloc log) :: log

section

variable (kmalloc : List MemOp → Nat)

/-- The insertion of a key below a node, with the digits left, the depth and the log before it, and
its return value, node and log. -/
inductive Inserts : Nat → RxtreeNode → UInt64 → Nat → Nat → List MemOp →
    Int → RxtreeNode → List MemOp → Prop
  /-- a leaf for the key, if there is memory -/
  | null (room : Nat) (key : UInt64) (value depth : Nat) (log : List MemOp) :
      Inserts room .null key value depth log (if kmalloc log = 0 then -ENOMEM else 0)
        (newLeaf (kmalloc log) key value) (afterAlloc kmalloc log)
  | same (room addr : Nat) (key : UInt64) (old value depth : Nat)
      (children : Fin RADIX_TREE_MAP_SIZE → RxtreeNode) (log : List MemOp) :
      Inserts room (.node addr key true old children) key value depth log 0
        (.node addr key true value children) log
  /-- a leaf of another key, and no memory for a parent -/
  | noParent {room addr : Nat} {pfx key : UInt64} {old value depth : Nat}
      {children : Fin RADIX_TREE_MAP_SIZE → RxtreeNode} {log : List MemOp} (hne : pfx ≠ key)
      (hnone : kmalloc log = 0) :
      Inserts room (.node addr pfx true old children) key value depth log (-ENOMEM)
        (.node addr pfx true old children) (afterAlloc kmalloc log)
  /-- the leaf and the key differ at this digit, but there is no memory for one of the siblings -/
  | noSiblings {room addr : Nat} {pfx key : UInt64} {old value depth : Nat}
      {children : Fin RADIX_TREE_MAP_SIZE → RxtreeNode} {log : List MemOp} (hne : pfx ≠ key)
      (hindex : rxtreeIndex key depth ≠ rxtreeIndex pfx depth) (hparent : kmalloc log ≠ 0)
      (hnone : kmalloc (afterAlloc kmalloc log) = 0
        ∨ kmalloc (afterAlloc kmalloc (afterAlloc kmalloc log)) = 0) :
      Inserts (room + 1) (.node addr pfx true old children) key value depth log (-ENOMEM)
        (.node addr pfx true old children)
        (rxtreeNodeFree (.node (kmalloc log) 0 false 0 (Function.update
          (Function.update noChildren (rxtreeIndex key depth)
            (newLeaf (kmalloc (afterAlloc kmalloc log)) key value))
          (rxtreeIndex pfx depth)
          (newLeaf (kmalloc (afterAlloc kmalloc (afterAlloc kmalloc log))) pfx old)))
          (afterAlloc kmalloc (afterAlloc kmalloc (afterAlloc kmalloc log))))
  /-- the new parent, with copies of both -/
  | siblings {room addr : Nat} {pfx key : UInt64} {old value depth : Nat}
      {children : Fin RADIX_TREE_MAP_SIZE → RxtreeNode} {log : List MemOp} (hne : pfx ≠ key)
      (hindex : rxtreeIndex key depth ≠ rxtreeIndex pfx depth) (hparent : kmalloc log ≠ 0)
      (hfirst : kmalloc (afterAlloc kmalloc log) ≠ 0)
      (hsecond : kmalloc (afterAlloc kmalloc (afterAlloc kmalloc log)) ≠ 0) :
      Inserts (room + 1) (.node addr pfx true old children) key value depth log 0
        (.node (kmalloc log) 0 false 0 (Function.update
          (Function.update noChildren (rxtreeIndex key depth)
            (newLeaf (kmalloc (afterAlloc kmalloc log)) key value))
          (rxtreeIndex pfx depth)
          (newLeaf (kmalloc (afterAlloc kmalloc (afterAlloc kmalloc log))) pfx old)))
        (afterAlloc kmalloc (afterAlloc kmalloc (afterAlloc kmalloc log)))
  /-- they agree at this digit, and the first insertion below the parent fails -/
  | noFirst {room addr : Nat} {pfx key : UInt64} {old value depth : Nat}
      {children : Fin RADIX_TREE_MAP_SIZE → RxtreeNode} {log log₁ : List MemOp} {ret : Int}
      {first : RxtreeNode} (hne : pfx ≠ key)
      (hindex : rxtreeIndex key depth = rxtreeIndex pfx depth) (hparent : kmalloc log ≠ 0)
      (hfirst : Inserts room .null key value (depth + 1) (afterAlloc kmalloc log) ret first log₁)
      (hret : ret ≠ 0) :
      Inserts (room + 1) (.node addr pfx true old children) key value depth log (-ENOMEM)
        (.node addr pfx true old children)
        (rxtreeNodeFree (.node (kmalloc log) 0 false 0
          (Function.update noChildren (rxtreeIndex key depth) first)) log₁)
  /-- the second one fails -/
  | noSecond {room addr : Nat} {pfx key : UInt64} {old value depth : Nat}
      {children : Fin RADIX_TREE_MAP_SIZE → RxtreeNode} {log log₁ log₂ : List MemOp} {ret : Int}
      {first second : RxtreeNode} (hne : pfx ≠ key)
      (hindex : rxtreeIndex key depth = rxtreeIndex pfx depth) (hparent : kmalloc log ≠ 0)
      (hfirst : Inserts room .null key value (depth + 1) (afterAlloc kmalloc log) 0 first log₁)
      (hsecond : Inserts room first pfx old (depth + 1) log₁ ret second log₂) (hret : ret ≠ 0) :
      Inserts (room + 1) (.node addr pfx true old children) key value depth log (-ENOMEM)
        (.node addr pfx true old children)
        (rxtreeNodeFree (.node (kmalloc log) 0 false 0
          (Function.update noChildren (rxtreeIndex key depth) second)) log₂)
  /-- the leaf takes over the children of the parent, which goes -/
  | together {room addr : Nat} {pfx key : UInt64} {old value depth : Nat}
      {children : Fin RADIX_TREE_MAP_SIZE → RxtreeNode} {log log₁ log₂ : List MemOp}
      {first second : RxtreeNode} (hne : pfx ≠ key)
      (hindex : rxtreeIndex key depth = rxtreeIndex pfx depth) (hparent : kmalloc log ≠ 0)
      (hfirst : Inserts room .null key value (depth + 1) (afterAlloc kmalloc log) 0 first log₁)
      (hsecond : Inserts room first pfx old (depth + 1) log₁ 0 second log₂) :
      Inserts (room + 1) (.node addr pfx true old children) key value depth log 0
        (.node addr pfx false 0 (Function.update noChildren (rxtreeIndex key depth) second))
        (.kfree (kmalloc log) :: log₂)
  | inner {room addr : Nat} {pfx key : UInt64} {old value depth : Nat}
      {children : Fin RADIX_TREE_MAP_SIZE → RxtreeNode} {log log' : List MemOp} {ret : Int}
      {child : RxtreeNode}
      (hchild : Inserts room (children (rxtreeIndex key depth)) key value (depth + 1) log ret child
        log') :
      Inserts (room + 1) (.node addr pfx false old children) key value depth log ret
        (.node addr pfx false old (Function.update children (rxtreeIndex key depth) child)) log'

end

variable {kmalloc : List MemOp → Nat}

theorem rxtreeNodeAlloc_leaf (key : UInt64) (value : Nat) (log : List MemOp) :
    rxtreeNodeAlloc kmalloc key true value log
      = (newLeaf (kmalloc log) key value, afterAlloc kmalloc log) := rfl

theorem isNull_newLeaf (addr : Nat) (key : UInt64) (value : Nat) :
    (newLeaf addr key value).isNull = decide (addr = 0) := by
  unfold newLeaf
  by_cases h : addr = 0
  · rw [if_pos h, decide_eq_true h]
    rfl
  · rw [if_neg h, decide_eq_false h]
    rfl

section

variable {room addr : Nat} {pfx key : UInt64} {old value depth : Nat} {ret : Int}
  {children : Fin RADIX_TREE_MAP_SIZE → RxtreeNode} {log log' : List MemOp} {node' : RxtreeNode}

theorem inserts_null
    (h : rxtreeInsertNode kmalloc room .null key value depth log = some (ret, node', log')) :
    Inserts kmalloc room .null key value depth log ret node' log' := by
  rw [rxtreeInsertNode, rxtreeNodeAlloc_leaf] at h
  simp only [isNull_newLeaf, decide_eq_true_eq] at h
  cases h
  exact .null room key value depth log

theorem rxtreeNodeAlloc_parent (log : List MemOp) : rxtreeNodeAlloc kmalloc 0 false 0 log
    = (if kmalloc log = 0 then .null else .node (kmalloc log) 0 false 0 noChildren,
      afterAlloc kmalloc log) := rfl

/-- A leaf of the key, or one that cannot be split for want of memory. -/
theorem inserts_leaf
    (h : rxtreeInsertNode kmalloc room (.node addr pfx true old children) key value depth log
      = some (ret, node', log')) (hsplit : pfx = key ∨ kmalloc log = 0) :
    Inserts kmalloc room (.node addr pfx true old children) key value depth log ret node' log' := by
  rw [rxtreeInsertNode] at h
  by_cases hkey : pfx = key
  · rw [if_pos hkey] at h
    cases h
    rw [hkey]
    exact .same room addr key old value depth children log
  · rw [if_neg hkey, rxtreeNodeAlloc_parent, if_pos (hsplit.resolve_left hkey)] at h
    cases h
    exact .noParent hkey (hsplit.resolve_left hkey)

end

/-- **An insertion that returns** has gone one of the ways. -/
theorem inserts_of_eq (room : Nat) {node node' : RxtreeNode} {key : UInt64} {value depth : Nat}
    {log log' : List MemOp} {ret : Int}
    (h : rxtreeInsertNode kmalloc room node key value depth log = some (ret, node', log')) :
    Inserts kmalloc room node key value depth log ret node' log' := by
  induction room generalizing node node' key value depth log log' ret with
  | zero =>
      match node with
      | .null => exact inserts_null h
      | .node addr pfx true old children =>
          refine inserts_leaf h ?_
          by_contra hsplit
          push Not at hsplit
          rw [rxtreeInsertNode, if_neg hsplit.1, rxtreeNodeAlloc_parent, if_neg hsplit.2] at h
          cases h
      | .node _ _ false _ _ => cases h
  | succ room ih =>
      match node with
      | .null => exact inserts_null h
      | .node addr pfx true old children =>
          by_cases hsplit : pfx = key ∨ kmalloc log = 0
          · exact inserts_leaf h hsplit
          push Not at hsplit
          obtain ⟨hne, hparent⟩ := hsplit
          -- the leaf is split below a parent that there is memory for
          rw [rxtreeInsertNode, if_neg hne, rxtreeNodeAlloc_parent, if_neg hparent] at h
          dsimp only at h
          by_cases hindex : rxtreeIndex key depth = rxtreeIndex pfx depth
          · rw [if_pos hindex, ← hindex] at h
            split at h
            · cases h
            rename_i first log₁ hrun
            have hfirst := ih hrun
            split at h
            · rename_i hret
              cases h
              exact .noFirst hne hindex hparent hfirst hret
            rename_i hret
            obtain rfl := not_not.mp hret
            simp only [Function.update_self, Function.update_idem] at h
            split at h
            · cases h
            rename_i second log₂ hrun'
            have hsecond := ih hrun'
            split at h
            · rename_i hret
              cases h
              exact .noSecond hne hindex hparent hfirst hsecond hret
            · rename_i hret
              obtain rfl := not_not.mp hret
              cases h
              exact .together hne hindex hparent hfirst hsecond
          · rw [if_neg hindex, rxtreeNodeAlloc_leaf, rxtreeNodeAlloc_leaf] at h
            dsimp only at h
            rw [isNull_newLeaf, isNull_newLeaf, ← Bool.decide_or] at h
            split at h
            · rename_i hnone
              cases h
              exact .noSiblings hne hindex hparent (of_decide_eq_true hnone)
            · rename_i hsome
              rw [decide_eq_true_eq, not_or] at hsome
              cases h
              exact .siblings hne hindex hparent hsome.1 hsome.2
      | .node addr pfx false old children =>
          rw [rxtreeInsertNode] at h
          split at h
          · cases h
          · rename_i hrun
            cases h
            exact .inner (ih hrun)

/-- An insertion below nothing. -/
theorem Inserts.of_null {room : Nat} {node' : RxtreeNode} {key : UInt64} {value depth : Nat}
    {log log' : List MemOp} {ret : Int}
    (h : Inserts kmalloc room .null key value depth log ret node' log') :
    ret = (if kmalloc log = 0 then -ENOMEM else 0) ∧ node' = newLeaf (kmalloc log) key value
      ∧ log' = afterAlloc kmalloc log := by
  cases h
  exact ⟨rfl, rfl, rfl⟩

/-- **A failed insertion changes nothing.** -/
theorem Inserts.unchanged {room : Nat} {node node' : RxtreeNode} {key : UInt64} {value depth : Nat}
    {log log' : List MemOp} {ret : Int}
    (h : Inserts kmalloc room node key value depth log ret node' log') (hret : ret ≠ 0) :
    node' = node := by
  induction h with
  | null room key value depth log =>
      split at hret
      · rename_i hnone
        rw [hnone]
        rfl
      · exact absurd rfl hret
  | inner hchild ih => rw [ih hret, Function.update_eq_self]
  | noParent | noSiblings | noFirst | noSecond => rfl
  | same | siblings | together => exact absurd rfl hret

theorem Inserts.ret {room : Nat} {node node' : RxtreeNode} {key : UInt64} {value depth : Nat}
    {log log' : List MemOp} {ret : Int}
    (h : Inserts kmalloc room node key value depth log ret node' log') :
    ret = 0 ∨ ret = -ENOMEM := by
  induction h with
  | null room key value depth log =>
      split
      · exact .inr rfl
      · exact .inl rfl
  | inner hchild ih => exact ih
  | noParent | noSiblings | noFirst | noSecond => exact .inr rfl
  | same | siblings | together => exact .inl rfl

/-! ## Deletion -/

/-- The deletion of a key below a node. -/
inductive Deletes : Nat → RxtreeNode → UInt64 → Nat → List MemOp →
    Int → RxtreeNode → List MemOp → Prop
  | null (room : Nat) (key : UInt64) (depth : Nat) (log : List MemOp) :
      Deletes room .null key depth log (-EINVAL) .null log
  | other {room addr : Nat} {pfx key : UInt64} {value depth : Nat}
      {children : Fin RADIX_TREE_MAP_SIZE → RxtreeNode} {log : List MemOp} (hne : pfx ≠ key) :
      Deletes room (.node addr pfx true value children) key depth log (-EINVAL)
        (.node addr pfx true value children) log
  | leaf (room addr : Nat) (key : UInt64) (value depth : Nat)
      (children : Fin RADIX_TREE_MAP_SIZE → RxtreeNode) (log : List MemOp) :
      Deletes room (.node addr key true value children) key depth log 0 .null (.kfree addr :: log)
  | absent {room addr : Nat} {pfx key : UInt64} {value depth : Nat}
      {children : Fin RADIX_TREE_MAP_SIZE → RxtreeNode} {log log' : List MemOp} {ret : Int}
      {child : RxtreeNode}
      (hchild : Deletes room (children (rxtreeIndex key depth)) key (depth + 1) log ret child log')
      (hret : ret ≠ 0) :
      Deletes (room + 1) (.node addr pfx false value children) key depth log ret
        (.node addr pfx false value (Function.update children (rxtreeIndex key depth) child)) log'
  /-- a single leaf is left, and takes the place of the node -/
  | single {room addr : Nat} {pfx key : UInt64} {value depth : Nat}
      {children children' : Fin RADIX_TREE_MAP_SIZE → RxtreeNode} {log log' : List MemOp}
      {child : RxtreeNode}
      (hchild : Deletes room (children (rxtreeIndex key depth)) key (depth + 1) log 0 child log')
      (hchildren : children' = Function.update children (rxtreeIndex key depth) child)
      (hone : (countChildren children').1 = 1) (hleaf : (countChildren children').2.leaf = true) :
      Deletes (room + 1) (.node addr pfx false value children) key depth log 0
        (countChildren children').2 (.kfree addr :: log')
  | empty {room addr : Nat} {pfx key : UInt64} {value depth : Nat}
      {children children' : Fin RADIX_TREE_MAP_SIZE → RxtreeNode} {log log' : List MemOp}
      {child : RxtreeNode}
      (hchild : Deletes room (children (rxtreeIndex key depth)) key (depth + 1) log 0 child log')
      (hchildren : children' = Function.update children (rxtreeIndex key depth) child)
      (hzero : (countChildren children').1 = 0) :
      Deletes (room + 1) (.node addr pfx false value children) key depth log 0 .null
        (.kfree addr :: log')
  | keep {room addr : Nat} {pfx key : UInt64} {value depth : Nat}
      {children children' : Fin RADIX_TREE_MAP_SIZE → RxtreeNode} {log log' : List MemOp}
      {child : RxtreeNode}
      (hchild : Deletes room (children (rxtreeIndex key depth)) key (depth + 1) log 0 child log')
      (hchildren : children' = Function.update children (rxtreeIndex key depth) child)
      (hmore : (countChildren children').1 ≠ 0)
      (hone : (countChildren children').1 = 1 → (countChildren children').2.leaf ≠ true) :
      Deletes (room + 1) (.node addr pfx false value children) key depth log 0
        (.node addr pfx false value children') log'

theorem deletes_leaf {room addr : Nat} {pfx key : UInt64} {value depth : Nat}
    {children : Fin RADIX_TREE_MAP_SIZE → RxtreeNode} {log log' : List MemOp} {ret : Int}
    {node' : RxtreeNode}
    (h : rxtreeDeleteNode room (.node addr pfx true value children) key depth log
      = some (ret, node', log')) :
    Deletes room (.node addr pfx true value children) key depth log ret node' log' := by
  rw [rxtreeDeleteNode] at h
  by_cases hkey : pfx = key
  · rw [if_pos hkey] at h
    cases h
    rw [hkey]
    exact .leaf room addr key value depth children log
  · rw [if_neg hkey] at h
    cases h
    exact .other hkey

/-- **A deletion that returns** has gone one of the ways. -/
theorem deletes_of_eq (room : Nat) {node node' : RxtreeNode} {key : UInt64} {depth : Nat}
    {log log' : List MemOp} {ret : Int}
    (h : rxtreeDeleteNode room node key depth log = some (ret, node', log')) :
    Deletes room node key depth log ret node' log' := by
  induction room generalizing node node' key depth log log' ret with
  | zero =>
      match node with
      | .null =>
          cases h
          exact .null 0 key depth log
      | .node _ _ true _ _ => exact deletes_leaf h
      | .node _ _ false _ _ => cases h
  | succ room ih =>
      match node with
      | .null =>
          cases h
          exact .null (room + 1) key depth log
      | .node _ _ true _ _ => exact deletes_leaf h
      | .node addr pfx false value children =>
          -- the child is deleted from first; what it returns decides the rest
          rw [rxtreeDeleteNode] at h
          split at h
          · cases h
          rename_i ret child log₁ hrun
          have hchild := ih hrun
          generalize hchildren : Function.update children (rxtreeIndex key depth) child = children'
            at h
          dsimp only at h
          split at h
          · rename_i hret
            subst hret
            split at h
            · -- one leaf is left, which takes the place of its parent
              rename_i hone
              cases h
              exact .single hchild hchildren.symm hone.1 hone.2
            · rename_i hnot
              split at h
              · rename_i hzero
                cases h
                exact .empty hchild hchildren.symm hzero
              · rename_i hmore
                cases h
                exact .keep hchild hchildren.symm hmore fun hone hleaf => hnot ⟨hone, hleaf⟩
          · rename_i hret
            cases h
            rw [← hchildren]
            exact .absent hchild hret

/-- **A failed deletion changes nothing.** -/
theorem Deletes.unchanged {room : Nat} {node node' : RxtreeNode} {key : UInt64} {depth : Nat}
    {log log' : List MemOp} {ret : Int} (h : Deletes room node key depth log ret node' log')
    (hret : ret ≠ 0) : node' = node ∧ log' = log := by
  induction h with
  | null | other => exact ⟨rfl, rfl⟩
  | absent hchild _ ih =>
      obtain ⟨hnode, hlog⟩ := ih hret
      rw [hnode, Function.update_eq_self]
      exact ⟨rfl, hlog⟩
  | leaf | single | empty | keep => exact absurd rfl hret

end NoobKernel.Misc.RadixTree
