import NoobKernel.Misc.RadixTree

set_option autoImplicit false

/-! # The radix tree as a finite map

`entries t d k` is the value the subtree `t` at depth `d` holds for the key `k`. A subtree is
well formed for a set of keys (`WellFormed`) if its leaves carry keys of the set and its children
are well formed for the keys of the set that select them. The keys of the set agree on the first
`d` digits (`AgreeTo`), so that at depth 32 there is only one.
-/

namespace NoobKernel.Misc.RadixTree

/-! ## Digits -/

theorem rxtreeIndex_val {depth : Nat} (h : depth < 32) (key : UInt64) :
    (rxtreeIndex key depth).val = key.toNat / 4 ^ (31 - depth) % 4 := by
  obtain ⟨s, hs⟩ : ∃ s, 31 - depth = s := ⟨_, rfl⟩
  have hshift : 64 - (depth + 1) * RADIX_TREE_MAP_SHIFT = 2 * s := by
    unfold RADIX_TREE_MAP_SHIFT
    omega
  have hdigit : (key.toNat &&& (3 <<< (2 * s))) >>> (2 * s) = key.toNat / 4 ^ s % 4 := by
    rw [Nat.shiftRight_and_distrib, Nat.shiftLeft_shiftRight, Nat.shiftRight_eq_div_pow,
      Nat.pow_mul]
    exact Nat.and_two_pow_sub_one_eq_mod _ 2
  unfold rxtreeIndex
  rw [hshift, hs, ← Nat.mod_mod_of_dvd _ (Nat.dvd_refl 4), ← hdigit]
  rfl

/-- Agreement of two keys on their first digits. -/
def AgreeTo (depth : Nat) (k k' : UInt64) : Prop :=
  ∀ j < depth, rxtreeIndex k j = rxtreeIndex k' j

theorem AgreeTo.succ {depth : Nat} {k k' : UInt64} (h : AgreeTo depth k k')
    (heq : rxtreeIndex k depth = rxtreeIndex k' depth) : AgreeTo (depth + 1) k k' := by
  intro j hj
  rcases Nat.lt_succ_iff_lt_or_eq.mp hj with hj | rfl
  · exact h j hj
  · exact heq

/-- The first digits are the quotient by the weight of the next one. -/
theorem AgreeTo.div_eq {depth : Nat} {k k' : UInt64} (h : AgreeTo depth k k') (hd : depth ≤ 32) :
    k.toNat / 4 ^ (32 - depth) = k'.toNat / 4 ^ (32 - depth) := by
  induction depth with
  | zero =>
      have hk := k.toNat_lt
      have hk' := k'.toNat_lt
      rw [Nat.sub_zero, Nat.div_eq_of_lt (by omega), Nat.div_eq_of_lt (by omega)]
  | succ d ih =>
      have hhigh := ih (fun j hj => h j (by omega)) (by omega)
      have hlow := congrArg Fin.val (h d (by omega))
      rw [rxtreeIndex_val (by omega), rxtreeIndex_val (by omega)] at hlow
      have hsub : 32 - d = 31 - d + 1 := by omega
      have hsub' : 32 - (d + 1) = 31 - d := by omega
      rw [hsub, Nat.pow_succ, ← Nat.div_div_eq_div_mul, ← Nat.div_div_eq_div_mul] at hhigh
      rw [hsub']
      omega

/-- All digits determine a key. -/
theorem AgreeTo.eq {k k' : UInt64} (h : AgreeTo 32 k k') : k = k' := by
  have := h.div_eq (Nat.le_refl 32)
  rw [Nat.sub_self, Nat.pow_zero, Nat.div_one, Nat.div_one] at this
  exact UInt64.toNat_inj.mp this

/-! ## The map of a subtree -/

def entries : RxtreeNode → Nat → UInt64 → Option Nat
  | .null, _, _ => none
  | .node _ pfx true value _, _, k => if k = pfx then some value else none
  | .node _ _ false _ children, depth, k => entries (children (rxtreeIndex k depth)) (depth + 1) k

theorem entries_leaf (addr : Nat) (pfx : UInt64) (value : Nat)
    (children : Fin RADIX_TREE_MAP_SIZE → RxtreeNode) (depth : Nat) (k : UInt64) :
    entries (.node addr pfx true value children) depth k = if k = pfx then some value else none :=
  rfl

/-- The keys of `S` that select a child. -/
def below (S : UInt64 → Prop) (depth : Nat) (i : Fin RADIX_TREE_MAP_SIZE) : UInt64 → Prop :=
  fun k => S k ∧ rxtreeIndex k depth = i

def WellFormed : (UInt64 → Prop) → RxtreeNode → Nat → Prop
  | _, .null, _ => True
  | S, .node _ pfx true _ _, _ => S pfx
  | S, .node _ _ false _ children, depth =>
      depth < 32 ∧ ∀ i, WellFormed (below S depth i) (children i) (depth + 1)

/-- The keys a node at a depth may hold agree on the digits above it. -/
def Shares (S : UInt64 → Prop) (depth : Nat) : Prop := ∀ k k', S k → S k' → AgreeTo depth k k'

theorem Shares.below {S : UInt64 → Prop} {depth : Nat} (h : Shares S depth)
    (i : Fin RADIX_TREE_MAP_SIZE) : Shares (below S depth i) (depth + 1) := by
  rintro k k' ⟨hk, rfl⟩ ⟨hk', heq⟩
  exact (h k k' hk hk').succ heq.symm

/-- Two keys of a full path are one. -/
theorem Shares.eq {S : UInt64 → Prop} {k k' : UInt64} (h : Shares S 32) (hk : S k) (hk' : S k') :
    k = k' := (h k k' hk hk').eq

/-! ## Writing one child -/

section

variable {S : UInt64 → Prop} {depth addr value : Nat} {pfx key : UInt64}
  {children : Fin RADIX_TREE_MAP_SIZE → RxtreeNode} {child : RxtreeNode}

theorem entries_update (k : UInt64) :
    entries (.node addr pfx false value (Function.update children (rxtreeIndex key depth) child))
        depth k
      = if rxtreeIndex k depth = rxtreeIndex key depth then entries child (depth + 1) k
        else entries (children (rxtreeIndex k depth)) (depth + 1) k := by
  rw [entries]
  split
  · rename_i heq
    rw [heq, Function.update_self]
  · rename_i hne
    rw [Function.update_of_ne hne]

theorem WellFormed.update (hdepth : depth < 32)
    (h : ∀ i, WellFormed (below S depth i) (children i) (depth + 1)) {i : Fin RADIX_TREE_MAP_SIZE}
    (hchild : WellFormed (below S depth i) child (depth + 1)) :
    WellFormed S (.node addr pfx false value (Function.update children i child)) depth := by
  refine ⟨hdepth, fun j => ?_⟩
  by_cases hj : j = i
  · subst hj
    rw [Function.update_self]
    exact hchild
  · rw [Function.update_of_ne hj]
    exact h j

end

/-! ## Insertion -/

section

variable {kmalloc : List MemOp → Nat}

theorem rxtreeNodeAlloc_eq (halloc : ∀ log, kmalloc log ≠ 0) (pfx : UInt64) (isLeaf : Bool)
    (value : Nat) (log : List MemOp) :
    rxtreeNodeAlloc kmalloc pfx isLeaf value log
      = (.node (kmalloc log) pfx isLeaf value fun _ => .null, .kmalloc (kmalloc log) :: log) := by
  unfold rxtreeNodeAlloc
  simp only
  rw [if_neg (halloc log)]

/-- What an insertion below `node` is to return. -/
def Inserted (S : UInt64 → Prop) (node : RxtreeNode) (key : UInt64) (value depth : Nat)
    (result : Option (Int × RxtreeNode × List MemOp)) : Prop :=
  ∃ node' log', result = some (0, node', log') ∧ WellFormed S node' depth
    ∧ ∀ k, S k → entries node' depth k = if k = key then some value else entries node depth k

variable {S : UInt64 → Prop} {key pfx : UInt64} {value old room depth addr : Nat}
  {children : Fin RADIX_TREE_MAP_SIZE → RxtreeNode} {log : List MemOp}

theorem inserted_null (halloc : ∀ log, kmalloc log ≠ 0) (hkey : S key) :
    Inserted S .null key value depth
      (rxtreeInsertNode kmalloc room .null key value depth log) := by
  rw [rxtreeInsertNode, rxtreeNodeAlloc_eq halloc]
  exact ⟨_, _, rfl, hkey, fun k _ => rfl⟩

theorem inserted_same (hkey : S key) :
    Inserted S (.node addr key true old children) key value depth
      (rxtreeInsertNode kmalloc room (.node addr key true old children) key value depth log) := by
  rw [rxtreeInsertNode]
  refine ⟨_, _, if_pos rfl, hkey, fun k _ => ?_⟩
  rw [entries_leaf, entries_leaf]
  by_cases heq : k = key
  · rw [if_pos heq, if_pos heq]
  · rw [if_neg heq, if_neg heq, if_neg heq]

/-- A leaf and a key that differ at this digit become siblings. -/
theorem inserted_siblings (halloc : ∀ log, kmalloc log ≠ 0) (hdepth : depth < 32) (hkey : S key)
    (hpfx : S pfx) (hindex : rxtreeIndex key depth ≠ rxtreeIndex pfx depth) :
    Inserted S (.node addr pfx true old children) key value depth
      (rxtreeInsertNode kmalloc (room + 1) (.node addr pfx true old children) key value depth
        log) := by
  have hne : pfx ≠ key := fun h => hindex (h ▸ rfl)
  rw [rxtreeInsertNode, if_neg hne, rxtreeNodeAlloc_eq halloc]
  simp only
  rw [if_neg hindex, rxtreeNodeAlloc_eq halloc]
  simp only
  rw [rxtreeNodeAlloc_eq halloc]
  refine ⟨_, _, rfl, .update hdepth (fun i => ?_) ⟨hpfx, rfl⟩, fun k _ => ?_⟩
  · by_cases hi : i = rxtreeIndex key depth
    · subst hi
      rw [Function.update_self]
      exact ⟨hkey, rfl⟩
    · rw [Function.update_of_ne hi]
      trivial
  · rw [entries_update, entries_leaf addr]
    by_cases hk : k = key
    · subst hk
      rw [if_neg hindex, if_pos rfl, Function.update_self, entries_leaf, if_pos rfl]
    · rw [if_neg hk]
      by_cases hk' : rxtreeIndex k depth = rxtreeIndex pfx depth
      · rw [if_pos hk', entries_leaf]
      · rw [if_neg hk', if_neg (fun h : k = pfx => hk' (h ▸ rfl))]
        by_cases hi : rxtreeIndex k depth = rxtreeIndex key depth
        · rw [hi, Function.update_self, entries_leaf, if_neg hk]
        · rw [Function.update_of_ne hi, entries]

/-- A leaf and a key with the same digit go down together, in the children of a node that the
leaf then takes over. -/
theorem inserted_together (halloc : ∀ log, kmalloc log ≠ 0) (hdepth : depth < 32) (hkey : S key)
    (hpfx : S pfx) (hne : pfx ≠ key) (hindex : rxtreeIndex key depth = rxtreeIndex pfx depth)
    (ih : ∀ (node : RxtreeNode) (k : UInt64) (v : Nat) (log : List MemOp),
      WellFormed (below S depth (rxtreeIndex key depth)) node (depth + 1) →
      below S depth (rxtreeIndex key depth) k →
      Inserted (below S depth (rxtreeIndex key depth)) node k v (depth + 1)
        (rxtreeInsertNode kmalloc room node k v (depth + 1) log)) :
    Inserted S (.node addr pfx true old children) key value depth
      (rxtreeInsertNode kmalloc (room + 1) (.node addr pfx true old children) key value depth
        log) := by
  rw [rxtreeInsertNode, if_neg hne, rxtreeNodeAlloc_eq halloc]
  simp only
  obtain ⟨node₁, log₁, hrun₁, hwf₁, hmap₁⟩ :=
    ih .null key value (MemOp.kmalloc (kmalloc log) :: log) trivial ⟨hkey, rfl⟩
  obtain ⟨node₂, log₂, hrun₂, hwf₂, hmap₂⟩ := ih node₁ pfx old log₁ hwf₁ ⟨hpfx, hindex.symm⟩
  rw [if_pos hindex, hrun₁]
  simp only [ne_eq, not_true_eq_false, if_false]
  rw [← hindex, Function.update_self, hrun₂]
  simp only [not_true_eq_false, if_false]
  rw [Function.update_idem]
  have hnull : ∀ i, WellFormed (below S depth i) RxtreeNode.null (depth + 1) := fun _ => trivial
  refine ⟨_, _, rfl, .update hdepth hnull hwf₂, fun k hk => ?_⟩
  rw [entries_update, entries_leaf]
  by_cases hk' : rxtreeIndex k depth = rxtreeIndex key depth
  · rw [if_pos hk', hmap₂ k ⟨hk, hk'⟩, hmap₁ k ⟨hk, hk'⟩, entries]
    by_cases heq : k = pfx
    · rw [if_pos heq, if_neg (fun h => hne (heq.symm.trans h)), if_pos heq]
    · rw [if_neg heq, if_neg heq]
  · rw [if_neg hk', if_neg (fun heq : k = key => hk' (heq ▸ rfl)),
      if_neg (fun heq : k = pfx => hk' (heq ▸ hindex.symm)), entries]

/-- **An insertion changes its key.** -/
theorem rxtreeInsertNode_spec (halloc : ∀ log, kmalloc log ≠ 0) (room : Nat)
    {S : UInt64 → Prop} {node : RxtreeNode} (key : UInt64) (value : Nat) {depth : Nat}
    (log : List MemOp) (hroom : room + depth = 32) (hS : Shares S depth)
    (hwf : WellFormed S node depth) (hkey : S key) :
    Inserted S node key value depth (rxtreeInsertNode kmalloc room node key value depth log) := by
  induction room generalizing S node key value depth log with
  | zero =>
      obtain rfl : depth = 32 := by omega
      match node, hwf with
      | .null, _ => exact inserted_null halloc hkey
      | .node _ pfx true _ _, hpfx =>
          obtain rfl : pfx = key := hS.eq hpfx hkey
          exact inserted_same hkey
      | .node _ _ false _ _, hwf => exact absurd hwf.1 (by omega)
  | succ room ih =>
      have hroom' : room + (depth + 1) = 32 := by omega
      match node, hwf with
      | .null, _ => exact inserted_null halloc hkey
      | .node addr pfx true old children, hpfx =>
          by_cases hsame : pfx = key
          · subst hsame
            exact inserted_same hkey
          · -- two leaves under a new node: below it together, or side by side
            by_cases hindex : rxtreeIndex key depth = rxtreeIndex pfx depth
            · exact inserted_together halloc (by omega) hkey hpfx hsame hindex
                fun node k v log hwf hk => ih k v log hroom' (hS.below _) hwf hk
            · exact inserted_siblings halloc (by omega) hkey hpfx hindex
      | .node addr pfx false old children, hwf =>
          obtain ⟨node', log', hrun, hwf', hmap⟩ :=
            ih key value log hroom' (hS.below (rxtreeIndex key depth)) (hwf.2 _) ⟨hkey, rfl⟩
          rw [rxtreeInsertNode, hrun]
          refine ⟨_, log', rfl, .update hwf.1 hwf.2 hwf', fun k hk => ?_⟩
          rw [entries_update, entries]
          -- only keys below the same child see the change
          by_cases hindex : rxtreeIndex k depth = rxtreeIndex key depth
          · rw [if_pos hindex, hmap k ⟨hk, hindex⟩, hindex]
          · rw [if_neg hindex, if_neg (fun heq : k = key => hindex (heq ▸ rfl))]

end

/-! ## Lookup -/

theorem rxtreeLookupNode_leaf (room addr : Nat) (pfx : UInt64) (value : Nat)
    (children : Fin RADIX_TREE_MAP_SIZE → RxtreeNode) (key : UInt64) (depth : Nat) :
    rxtreeLookupNode room (.node addr pfx true value children) key depth
      = some ((entries (.node addr pfx true value children) depth key).getD 0) := by
  rw [rxtreeLookupNode, entries_leaf]
  by_cases heq : key = pfx
  · rw [if_pos heq, if_pos heq.symm]
    rfl
  · rw [if_neg heq, if_neg (Ne.symm heq)]
    rfl

/-- **A lookup reads the map.** -/
theorem rxtreeLookupNode_eq (room : Nat) {S : UInt64 → Prop} {node : RxtreeNode} {key : UInt64}
    {depth : Nat} (hroom : room + depth = 32) (hwf : WellFormed S node depth) (hkey : S key) :
    rxtreeLookupNode room node key depth = some ((entries node depth key).getD 0) := by
  induction room generalizing S node depth with
  | zero =>
      match node, hwf with
      | .null, _ => rw [rxtreeLookupNode]; rfl
      | .node _ _ true _ _, _ => exact rxtreeLookupNode_leaf _ _ _ _ _ _ _
      | .node _ _ false _ _, hwf => exact absurd hwf.1 (by omega)
  | succ room ih =>
      match node, hwf with
      | .null, _ => rw [rxtreeLookupNode]; rfl
      | .node _ _ true _ _, _ => exact rxtreeLookupNode_leaf _ _ _ _ _ _ _
      | .node _ _ false _ children, hwf =>
          rw [rxtreeLookupNode, entries]
          exact ih (by omega) (hwf.2 (rxtreeIndex key depth)) ⟨hkey, rfl⟩

/-! ## Deletion -/

theorem RxtreeNode.eq_null {node : RxtreeNode} (h : node.isNull = true) : node = .null := by
  cases node with
  | null => rfl
  | node => cases h

/-- The count is exact as far as the source looks at it: none, or one and which. -/
theorem countChildren_spec (children : Fin RADIX_TREE_MAP_SIZE → RxtreeNode) :
    ((countChildren children).1 = 0 → ∀ i, children i = .null)
      ∧ ((countChildren children).1 = 1 → ∃ i, (countChildren children).2 = children i
        ∧ ∀ j, j ≠ i → children j = .null) := by
  let step := fun (r : Nat × RxtreeNode) (i : Fin RADIX_TREE_MAP_SIZE) =>
    if (children i).isNull then r else (r.1 + 1, children i)
  have key : ∀ l : List (Fin RADIX_TREE_MAP_SIZE),
      ((l.foldl step (0, .null)).1 = 0 → ∀ i ∈ l, children i = .null)
        ∧ ((l.foldl step (0, .null)).1 = 1 → ∃ i, (l.foldl step (0, .null)).2 = children i
          ∧ ∀ j ∈ l, j ≠ i → children j = .null) := by
    intro l
    induction l using List.reverseRecOn with
    | nil => exact ⟨fun _ i hi => absurd hi List.not_mem_nil, fun h => absurd h Nat.zero_ne_one⟩
    | append_singleton l i ih =>
        rw [List.foldl_append, List.foldl_cons, List.foldl_nil]
        by_cases hi : (children i).isNull = true
        · -- a null child counts for nothing
          have hstep : step (l.foldl step (0, .null)) i = l.foldl step (0, .null) := if_pos hi
          rw [hstep]
          refine ⟨fun h j hj => ?_, fun h => ?_⟩
          · rcases List.mem_append.mp hj with hj | hj
            · exact ih.1 h j hj
            · rw [List.mem_singleton.mp hj]
              exact RxtreeNode.eq_null hi
          · obtain ⟨k, hk, hrest⟩ := ih.2 h
            refine ⟨k, hk, fun j hj hne => ?_⟩
            rcases List.mem_append.mp hj with hj | hj
            · exact hrest j hj hne
            · rw [List.mem_singleton.mp hj]
              exact RxtreeNode.eq_null hi
        · have hstep : step (l.foldl step (0, .null)) i
              = ((l.foldl step (0, .null)).1 + 1, children i) := if_neg hi
          rw [hstep]
          refine ⟨fun h => absurd h (Nat.succ_ne_zero _), fun h => ⟨i, rfl, fun j hj hne => ?_⟩⟩
          rcases List.mem_append.mp hj with hj | hj
          · exact ih.1 (Nat.succ.inj h) j hj
          · exact absurd (List.mem_singleton.mp hj) hne
  have hall := key (List.finRange RADIX_TREE_MAP_SIZE)
  refine ⟨fun h i => hall.1 h i (List.mem_finRange i), fun h => ?_⟩
  obtain ⟨i, hi, hrest⟩ := hall.2 h
  exact ⟨i, hi, fun j hne => hrest j (List.mem_finRange j) hne⟩

/-- A single leaf may take the place of its parent. -/
theorem collapse {S : UInt64 → Prop} {addr value depth : Nat} {pfx : UInt64}
    {children : Fin RADIX_TREE_MAP_SIZE → RxtreeNode}
    (hwf : WellFormed S (.node addr pfx false value children) depth)
    (hcount : (countChildren children).1 = 1) (hleaf : (countChildren children).2.leaf = true) :
    WellFormed S (countChildren children).2 depth ∧ ∀ k, S k →
      entries (countChildren children).2 depth k
        = entries (.node addr pfx false value children) depth k := by
  obtain ⟨i, hi, hrest⟩ := (countChildren_spec children).2 hcount
  have hchild := hwf.2 i
  rw [hi] at hleaf ⊢
  match hnode : children i with
  | .null => rw [hnode] at hleaf; cases hleaf
  | .node _ _ false _ _ => rw [hnode] at hleaf; cases hleaf
  | .node addr' pfx' true value' children' =>
      rw [hnode] at hchild
      refine ⟨hchild.1, fun k _ => ?_⟩
      rw [entries_leaf, entries]
      by_cases hk : rxtreeIndex k depth = i
      · rw [hk, hnode, entries_leaf]
      · rw [hrest _ hk, entries, if_neg]
        rintro rfl
        exact hk hchild.2

/-- What a deletion below `node` is to return. -/
def Deleted (S : UInt64 → Prop) (node : RxtreeNode) (key : UInt64) (depth : Nat)
    (log : List MemOp) (result : Option (Int × RxtreeNode × List MemOp)) : Prop :=
  (entries node depth key = none → result = some (-EINVAL, node, log))
    ∧ (entries node depth key ≠ none → ∃ node' log', result = some (0, node', log')
      ∧ WellFormed S node' depth
      ∧ ∀ k, S k → entries node' depth k = if k = key then none else entries node depth k)

theorem deleted_leaf {S : UInt64 → Prop} {addr value depth room : Nat} {pfx key : UInt64}
    {children : Fin RADIX_TREE_MAP_SIZE → RxtreeNode} {log : List MemOp} :
    Deleted S (.node addr pfx true value children) key depth log
      (rxtreeDeleteNode room (.node addr pfx true value children) key depth log) := by
  unfold Deleted
  rw [rxtreeDeleteNode, entries_leaf]
  by_cases heq : key = pfx
  · subst heq
    rw [if_pos rfl, if_pos rfl]
    refine ⟨fun h => absurd h (Option.some_ne_none _), fun _ => ⟨_, _, rfl, trivial, fun k _ => ?_⟩⟩
    rw [entries_leaf, entries]
    split <;> rfl
  · rw [if_neg heq, if_neg (Ne.symm heq)]
    exact ⟨fun _ => rfl, fun h => absurd rfl h⟩

/-- **A deletion removes its key**, or finds it absent and changes nothing. -/
theorem rxtreeDeleteNode_spec (room : Nat) {S : UInt64 → Prop} {node : RxtreeNode} (key : UInt64)
    {depth : Nat} (log : List MemOp) (hroom : room + depth = 32) (hwf : WellFormed S node depth)
    (hkey : S key) :
    Deleted S node key depth log (rxtreeDeleteNode room node key depth log) := by
  induction room generalizing S node depth log with
  | zero =>
      match node, hwf with
      | .null, _ => exact ⟨fun _ => rfl, fun h => absurd rfl h⟩
      | .node _ _ true _ _, _ => exact deleted_leaf
      | .node _ _ false _ _, hwf => exact absurd hwf.1 (by omega)
  | succ room ih =>
      match node, hwf with
      | .null, _ => exact ⟨fun _ => rfl, fun h => absurd rfl h⟩
      | .node _ _ true _ _, _ => exact deleted_leaf
      | .node addr pfx false value children, hwf =>
          obtain ⟨habsent, hpresent⟩ :=
            ih log (by omega) (hwf.2 (rxtreeIndex key depth)) ⟨hkey, rfl⟩
          unfold Deleted
          rw [rxtreeDeleteNode, entries]
          constructor
          · intro h
            rw [habsent h]
            simp only [Function.update_eq_self]
            exact if_neg (by decide)
          · intro h
            obtain ⟨child, log', hrun, hchild, hmap⟩ := hpresent h
            rw [hrun]
            simp only [if_true]
            have hwf' : WellFormed S (.node addr pfx false value
                (Function.update children (rxtreeIndex key depth) child)) depth :=
              .update hwf.1 hwf.2 hchild
            have hmap' : ∀ k, S k → entries (.node addr pfx false value
                (Function.update children (rxtreeIndex key depth) child)) depth k
                = if k = key then none else entries (.node addr pfx false value children) depth k := by
              intro k hk
              rw [entries_update]
              by_cases hindex : rxtreeIndex k depth = rxtreeIndex key depth
              · rw [if_pos hindex, hmap k ⟨hk, hindex⟩, entries, hindex]
              · rw [if_neg hindex, if_neg (fun heq : k = key => hindex (heq ▸ rfl)), entries]
            -- a node with one leaf below it is replaced by the leaf, a node with none is freed
            by_cases hone : (countChildren (Function.update children (rxtreeIndex key depth) child)).1
                = 1 ∧ (countChildren (Function.update children (rxtreeIndex key depth) child)).2.leaf
                  = true
            · obtain ⟨hleaf, hsame⟩ := collapse hwf' hone.1 hone.2
              rw [if_pos hone]
              refine ⟨_, _, rfl, hleaf, fun k hk => ?_⟩
              rw [hsame k hk, hmap' k hk]
            · rw [if_neg hone]
              split
              · rename_i hzero
                have hnull := (countChildren_spec _).1 hzero
                refine ⟨_, _, rfl, trivial, fun k hk => ?_⟩
                rw [← hmap' k hk, entries, entries.eq_3, hnull]
                rfl
              · exact ⟨_, _, rfl, hwf', hmap'⟩

/-! ## Sequences of calls -/

inductive RxtreeCall
  | insert (key : UInt64) (value : Nat)
  | delete (key : UInt64)
  | lookup (key : UInt64)

/-- The tree and the log after a call. -/
def RxtreeCall.exec (kmalloc : List MemOp → Nat) :
    RxtreeCall → RxtreeNode × List MemOp → Option (RxtreeNode × List MemOp)
  | insert key value, (tree, log) => (rxtreeInsert kmalloc tree key value log).map Prod.snd
  | delete key, (tree, log) => (rxtreeDelete tree key log).map Prod.snd
  | lookup key, (tree, log) => (rxtreeLookup tree key).map fun _ => (tree, log)

/-- A map under the calls. -/
def RxtreeCall.effect : RxtreeCall → (UInt64 → Option Nat) → UInt64 → Option Nat
  | insert key value, m => Function.update m key (some value)
  | delete key, m => Function.update m key none
  | lookup _, m => m

/-- What a sequence of calls leaves for each key: the value of its latest insertion, unless a
deletion followed. -/
def contents (calls : List RxtreeCall) : UInt64 → Option Nat :=
  calls.foldl (fun m call => call.effect m) fun _ => none

def rxtreeRun (kmalloc : List MemOp → Nat) (calls : List RxtreeCall) :
    Option (RxtreeNode × List MemOp) :=
  calls.foldlM (fun s call => call.exec kmalloc s) (rxtreeInit, [])

/-- The tree holds a map. -/
def Holds (m : UInt64 → Option Nat) (tree : RxtreeNode) : Prop :=
  WellFormed (fun _ => True) tree 0 ∧ ∀ k, entries tree 0 k = m k

section

variable {kmalloc : List MemOp → Nat} {m : UInt64 → Option Nat} {tree : RxtreeNode}

theorem shares_zero : Shares (fun _ => True) 0 :=
  fun _ _ _ _ j hj => absurd hj (Nat.not_lt_zero j)

theorem Holds.lookup (h : Holds m tree) (key : UInt64) :
    rxtreeLookup tree key = some ((m key).getD 0) := by
  rw [← h.2 key]
  exact rxtreeLookupNode_eq 32 rfl h.1 trivial

theorem Holds.insert (halloc : ∀ log, kmalloc log ≠ 0) (h : Holds m tree) (key : UInt64)
    (value : Nat) (log : List MemOp) :
    ∃ tree' log', rxtreeInsert kmalloc tree key value log = some (0, tree', log')
      ∧ Holds (Function.update m key (some value)) tree' := by
  obtain ⟨tree', log', hrun, hwf, hmap⟩ :=
    rxtreeInsertNode_spec halloc 32 key value log rfl shares_zero h.1 trivial
  refine ⟨tree', log', hrun, hwf, fun k => ?_⟩
  rw [hmap k trivial, h.2 k, Function.update_apply]

theorem Holds.delete (h : Holds m tree) (key : UInt64) (log : List MemOp) :
    (m key = none → rxtreeDelete tree key log = some (-EINVAL, tree, log))
      ∧ (m key ≠ none → ∃ tree' log', rxtreeDelete tree key log = some (0, tree', log')
        ∧ Holds (Function.update m key none) tree') := by
  obtain ⟨habsent, hpresent⟩ :=
    rxtreeDeleteNode_spec 32 key log rfl h.1 trivial
  rw [h.2 key] at habsent hpresent
  refine ⟨habsent, fun hne => ?_⟩
  obtain ⟨tree', log', hrun, hwf, hmap⟩ := hpresent hne
  refine ⟨tree', log', hrun, hwf, fun k => ?_⟩
  rw [hmap k trivial, h.2 k, Function.update_apply]

theorem Holds.exec (halloc : ∀ log, kmalloc log ≠ 0) (h : Holds m tree) (call : RxtreeCall)
    (log : List MemOp) :
    ∃ tree' log', call.exec kmalloc (tree, log) = some (tree', log')
      ∧ Holds (call.effect m) tree' := by
  cases call with
  | insert key value =>
      obtain ⟨tree', log', hrun, hholds⟩ := h.insert halloc key value log
      exact ⟨tree', log', by rw [RxtreeCall.exec, hrun]; rfl, hholds⟩
  | delete key =>
      obtain ⟨habsent, hpresent⟩ := h.delete key log
      by_cases hkey : m key = none
      · refine ⟨tree, log, by rw [RxtreeCall.exec, habsent hkey]; rfl, ?_⟩
        rw [RxtreeCall.effect, ← hkey, Function.update_eq_self]
        exact h
      · obtain ⟨tree', log', hrun, hholds⟩ := hpresent hkey
        exact ⟨tree', log', by rw [RxtreeCall.exec, hrun]; rfl, hholds⟩
  | lookup key =>
      exact ⟨tree, log, by rw [RxtreeCall.exec, h.lookup]; rfl, h⟩

end

theorem holds_rxtreeRun {kmalloc : List MemOp → Nat} (halloc : ∀ log, kmalloc log ≠ 0)
    (calls : List RxtreeCall) :
    ∃ tree log, rxtreeRun kmalloc calls = some (tree, log) ∧ Holds (contents calls) tree := by
  induction calls using List.reverseRecOn with
  | nil => exact ⟨rxtreeInit, [], rfl, trivial, fun _ => rfl⟩
  | append_singleton calls call ih =>
      obtain ⟨tree, log, hrun, hholds⟩ := ih
      obtain ⟨tree', log', hexec, hholds'⟩ := hholds.exec halloc call log
      refine ⟨tree', log', ?_, ?_⟩
      · unfold rxtreeRun at hrun ⊢
        rw [List.foldlM_append, hrun]
        simp [hexec]
      · rw [contents, List.foldl_append]
        exact hholds'

/-- **The radix tree refines a finite map**, after any sequence of calls: no call shifts past
the last digit, lookups read the map, and the next insertion or deletion returns what the map
says and changes the lookup of its key only. -/
theorem rxtree_refines_map (kmalloc : List MemOp → Nat) (halloc : ∀ log, kmalloc log ≠ 0)
    (calls : List RxtreeCall) :
    ∃ tree log, rxtreeRun kmalloc calls = some (tree, log)
      ∧ (∀ k, rxtreeLookup tree k = some ((contents calls k).getD 0))
      ∧ (∀ k v, ∃ tree' log', rxtreeInsert kmalloc tree k v log = some (0, tree', log')
        ∧ ∀ k', rxtreeLookup tree' k' = if k' = k then some v else rxtreeLookup tree k')
      ∧ (∀ k, contents calls k ≠ none →
        ∃ tree' log', rxtreeDelete tree k log = some (0, tree', log')
          ∧ ∀ k', rxtreeLookup tree' k' = if k' = k then some 0 else rxtreeLookup tree k')
      ∧ ∀ k, contents calls k = none → rxtreeDelete tree k log = some (-EINVAL, tree, log) := by
  obtain ⟨tree, log, hrun, hholds⟩ := holds_rxtreeRun halloc calls
  refine ⟨tree, log, hrun, hholds.lookup, fun k v => ?_, fun k hk => ?_, fun k hk => ?_⟩
  · obtain ⟨tree', log', hinsert, hholds'⟩ := hholds.insert halloc k v log
    refine ⟨tree', log', hinsert, fun k' => ?_⟩
    rw [hholds'.lookup, hholds.lookup, Function.update_apply]
    split <;> rfl
  · obtain ⟨tree', log', hdelete, hholds'⟩ := (hholds.delete k log).2 hk
    refine ⟨tree', log', hdelete, fun k' => ?_⟩
    rw [hholds'.lookup, hholds.lookup, Function.update_apply]
    split <;> rfl
  · exact (hholds.delete k log).1 hk

/-- Two keys that differ in the last digit only. -/
theorem rxtree_refines_map_deep :
    ∃ tree log, rxtreeRun (fun log => log.length + 1) [.insert 0 5, .insert 1 6, .delete 0]
        = some (tree, log)
      ∧ (∀ k, rxtreeLookup tree k = some
        ((contents [.insert 0 5, .insert 1 6, .delete 0] k).getD 0))
      ∧ rxtreeDelete tree 0 log = some (-EINVAL, tree, log) := by
  obtain ⟨tree, log, hrun, hlookup, -, -, habsent⟩ :=
    rxtree_refines_map (fun log => log.length + 1) (fun _ => Nat.succ_ne_zero _)
      [.insert 0 5, .insert 1 6, .delete 0]
  exact ⟨tree, log, hrun, hlookup, habsent 0 rfl⟩

end NoobKernel.Misc.RadixTree
