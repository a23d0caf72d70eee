import NoobKernel.Misc.Config

set_option autoImplicit false

/-! # Radix tree (`misc/radix_tree.c`)

A node owns its children, so a tree is a value and `*node = ...` is the tree a function returns.
Nodes carry their address, and the calls of the allocator are logged, latest first: `kmalloc`
answers from the log, with `0` for `NULL`.

The recursions count the digits left (`room`, `32 - depth`). Where the source would shift by a
negative amount they have none left, and the result is `none`.
-/

namespace NoobKernel.Misc.RadixTree

abbrev RADIX_TREE_MAP_SHIFT : Nat := 2
abbrev RADIX_TREE_MAP_SIZE : Nat := 1 <<< RADIX_TREE_MAP_SHIFT

instance : NeZero RADIX_TREE_MAP_SIZE := ⟨by decide⟩

inductive RxtreeNode
  | null
  | node (addr : Nat) (pfx : UInt64) (isLeaf : Bool) (value : Nat)
      (children : Fin RADIX_TREE_MAP_SIZE → RxtreeNode)

/-- A call of the allocator and the address it returned or took. -/
inductive MemOp
  | kmalloc (addr : Nat)
  | kfree (addr : Nat)
  deriving DecidableEq

def RxtreeNode.isNull : RxtreeNode → Bool
  | null => true
  | node .. => false

/-- `(key & mask) >> shift` at a depth below 32. -/
def rxtreeIndex (key : UInt64) (depth : Nat) : Fin RADIX_TREE_MAP_SIZE :=
  let shift := 64 - (depth + 1) * RADIX_TREE_MAP_SHIFT
  let mask := (RADIX_TREE_MAP_SIZE - 1) <<< shift
  Fin.ofNat _ ((key.toNat &&& mask) >>> shift)

section

variable (kmalloc : List MemOp → Nat)

def rxtreeNodeAlloc (pfx : UInt64) (isLeaf : Bool) (value : Nat) (log : List MemOp) :
    RxtreeNode × List MemOp :=
  let addr := kmalloc log
  (if addr = 0 then .null else .node addr pfx isLeaf value fun _ => .null, .kmalloc addr :: log)

def rxtreeNodeFree : RxtreeNode → List MemOp → List MemOp
  | .null, log => log
  | .node addr _ _ _ children, log =>
      .kfree addr :: (List.finRange RADIX_TREE_MAP_SIZE).foldl
        (fun log i => rxtreeNodeFree (children i) log) log

def rxtreeInit : RxtreeNode := .null

/-- The return value, the node and the log. -/
def rxtreeInsertNode : Nat → RxtreeNode → UInt64 → Nat → Nat → List MemOp →
    Option (Int × RxtreeNode × List MemOp)
  | _, .null, key, value, _, log =>
      let (node, log) := rxtreeNodeAlloc kmalloc key true value log
      some (if node.isNull then -ENOMEM else 0, node, log)
  | room, .node addr pfx true old children, key, value, depth, log =>
      let current := RxtreeNode.node addr pfx true old children
      if pfx = key then some (0, .node addr pfx true value children, log)
      else
        -- the leaf is split under a new parent
        match rxtreeNodeAlloc kmalloc 0 false 0 log with
        | (.null, log) => some (-ENOMEM, current, log)
        | (.node parent _ _ _ slots, log) =>
            match room with
            | 0 => none
            | room + 1 =>
                let idx1 := rxtreeIndex key depth
                let idx2 := rxtreeIndex pfx depth
                if idx1 = idx2 then
                  match rxtreeInsertNode room (slots idx1) key value (depth + 1) log with
                  | none => none
                  | some (ret, child, log) =>
                      let slots := Function.update slots idx1 child
                      -- `||` does not try the second insertion when the first has failed
                      if ret ≠ 0 then
                        some (-ENOMEM, current, rxtreeNodeFree (.node parent 0 false 0 slots) log)
                      else
                        match rxtreeInsertNode room (slots idx2) pfx old (depth + 1) log with
                        | none => none
                        | some (ret, child, log) =>
                            let slots := Function.update slots idx2 child
                            if ret ≠ 0 then
                              some (-ENOMEM, current,
                                rxtreeNodeFree (.node parent 0 false 0 slots) log)
                            -- the old leaf becomes the inner node, with its address and prefix
                            else some (0, .node addr pfx false 0 slots, .kfree parent :: log)
                else
                  -- both leaves are allocated before either is tested
                  let (child1, log) := rxtreeNodeAlloc kmalloc key true value log
                  let slots := Function.update slots idx1 child1
                  let (child2, log) := rxtreeNodeAlloc kmalloc pfx true old log
                  let slots := Function.update slots idx2 child2
                  if child1.isNull || child2.isNull then
                    some (-ENOMEM, current, rxtreeNodeFree (.node parent 0 false 0 slots) log)
                  else some (0, .node parent 0 false 0 slots, log)
  | 0, .node _ _ false _ _, _, _, _, _ => none
  | room + 1, .node addr pfx false old children, key, value, depth, log =>
      let index := rxtreeIndex key depth
      match rxtreeInsertNode room (children index) key value (depth + 1) log with
      | none => none
      | some (ret, child, log) =>
          some (ret, .node addr pfx false old (Function.update children index child), log)

def rxtreeInsert (tree : RxtreeNode) (key : UInt64) (value : Nat) (log : List MemOp) :
    Option (Int × RxtreeNode × List MemOp) :=
  rxtreeInsertNode kmalloc 32 tree key value 0 log

end

def rxtreeLookupNode : Nat → RxtreeNode → UInt64 → Nat → Option Nat
  | _, .null, _, _ => some 0
  | _, .node _ pfx true value _, key, _ => some (if pfx = key then value else 0)
  | 0, .node _ _ false _ _, _, _ => none
  | room + 1, .node _ _ false _ children, key, depth =>
      rxtreeLookupNode room (children (rxtreeIndex key depth)) key (depth + 1)

/-- The value, `0` for `NULL`. -/
def rxtreeLookup (tree : RxtreeNode) (key : UInt64) : Option Nat := rxtreeLookupNode 32 tree key 0

/-- The number of children and the last of them. -/
def countChildren (children : Fin RADIX_TREE_MAP_SIZE → RxtreeNode) : Nat × RxtreeNode :=
  (List.finRange RADIX_TREE_MAP_SIZE).foldl
    (fun (count, child) i =>
      if (children i).isNull then (count, child) else (count + 1, children i))
    (0, .null)

def RxtreeNode.leaf : RxtreeNode → Bool
  | null => false
  | node _ _ isLeaf _ _ => isLeaf

def rxtreeDeleteNode : Nat → RxtreeNode → UInt64 → Nat → List MemOp →
    Option (Int × RxtreeNode × List MemOp)
  | _, .null, _, _, log => some (-EINVAL, .null, log)
  | _, .node addr pfx true value children, key, _, log =>
      if pfx = key then some (0, .null, .kfree addr :: log)
      else some (-EINVAL, .node addr pfx true value children, log)
  | 0, .node _ _ false _ _, _, _, _ => none
  | room + 1, .node addr pfx false value children, key, depth, log =>
      let index := rxtreeIndex key depth
      match rxtreeDeleteNode room (children index) key (depth + 1) log with
      | none => none
      | some (ret, child, log) =>
          let children := Function.update children index child
          if ret = 0 then
            let (count, child) := countChildren children
            if count = 1 ∧ child.leaf then some (ret, child, .kfree addr :: log)
            else if count = 0 then some (ret, .null, .kfree addr :: log)
            else some (ret, .node addr pfx false value children, log)
          else some (ret, .node addr pfx false value children, log)

def rxtreeDelete (tree : RxtreeNode) (key : UInt64) (log : List MemOp) :
    Option (Int × RxtreeNode × List MemOp) :=
  rxtreeDeleteNode 32 tree key 0 log

def rxtreeFree (tree : RxtreeNode) (log : List MemOp) : RxtreeNode × List MemOp :=
  (.null, rxtreeNodeFree tree log)

end NoobKernel.Misc.RadixTree
