import Mathlib.Tactic

set_option autoImplicit false

/-! # Radix trees in a store of tables

A store gives every node a table of entries. An entry may point to a child node (`child`);
the tables reached from a root by a fixed number of indices form a radix tree, and `lookup`
reads the entry a key selects, with a `blank` entry where the path breaks off. Two updates
matter:

* `link` hangs a fresh blank node below an entry without a child. It changes no lookup
  (`Extends.link`).
* writing the slot a key selects changes the lookup of that key only (`lookup_set`).

A node that a `walk` leads to stays where it is under both (`walk_mono`). Where a walk leads to
every node, the traversal that lists a node after its children lists every node once
(`subtree_perm`).

Different keys select different slots because every node has one path from the root. The
structure `Tree` records the paths, and no search of the store is needed to state it.
-/

namespace Radix

variable {N I W : Type}

section

variable (child : W → Option N)

/-- The slot a key selects below a node. -/
def locate (tab : N → I → W) : N → List I → Option (N × I)
  | _, [] => none
  | n, [i] => some (n, i)
  | n, i :: j :: is =>
      match child (tab n i) with
      | some m => locate tab m (j :: is)
      | none => none

/-- The entry a key selects below a node. -/
def lookup (blank : W) (tab : N → I → W) (n : N) (key : List I) : W :=
  match locate child tab n key with
  | some (m, i) => tab m i
  | none => blank

/-- The nodes form a tree of the given depth under `root`: `path` is the key prefix that leads
to a node, and the children of an inner node extend its path. -/
structure Tree (depth : Nat) (root : N) (nodes : List N) (path : N → List I) (tab : N → I → W) :
    Prop where
  root_mem : root ∈ nodes
  root_path : path root = []
  child_mem : ∀ n ∈ nodes, (path n).length + 1 < depth → ∀ i m, child (tab n i) = some m →
    m ∈ nodes ∧ path m = path n ++ [i]

/-- A later store keeps what an earlier one says about its nodes. -/
structure Extends (depth : Nat) (blank : W) (nodes nodes' : List N) (path path' : N → List I)
    (tab tab' : N → I → W) : Prop where
  mem : ∀ n ∈ nodes, n ∈ nodes'
  path_eq : ∀ n ∈ nodes, path' n = path n
  links : ∀ n ∈ nodes, (path n).length + 1 < depth → ∀ i m, child (tab n i) = some m →
    tab' n i = tab n i
  lookup_eq : ∀ n ∈ nodes, ∀ key, (path n).length + key.length = depth →
    lookup child blank tab' n key = lookup child blank tab n key

end

variable {child : W → Option N} {depth : Nat} {root : N} {nodes nodes' nodes'' : List N}
  {path path' path'' : N → List I} {tab tab' tab'' : N → I → W} {blank : W}

theorem lookup_one (n : N) (i : I) : lookup child blank tab n [i] = tab n i := rfl

theorem lookup_some {n m : N} {i j : I} {is : List I} (h : child (tab n i) = some m) :
    lookup child blank tab n (i :: j :: is) = lookup child blank tab m (j :: is) := by
  rw [lookup, lookup, locate, h]

theorem lookup_none {n : N} {i j : I} {is : List I} (h : child (tab n i) = none) :
    lookup child blank tab n (i :: j :: is) = blank := by
  rw [lookup, locate, h]

namespace Extends

theorem refl : Extends child depth blank nodes nodes path path tab tab :=
  ⟨fun _ h => h, fun _ _ => rfl, fun _ _ _ _ _ _ => rfl, fun _ _ _ _ => rfl⟩

theorem trans (h₁ : Extends child depth blank nodes nodes' path path' tab tab')
    (h₂ : Extends child depth blank nodes' nodes'' path' path'' tab' tab'') :
    Extends child depth blank nodes nodes'' path path'' tab tab'' := by
  refine ⟨fun n hn => h₂.mem n (h₁.mem n hn), ?_, ?_, ?_⟩
  · intro n hn
    rw [h₂.path_eq n (h₁.mem n hn), h₁.path_eq n hn]
  · intro n hn hlen i m hm
    have heq := h₁.links n hn hlen i m hm
    have hlen' : (path' n).length + 1 < depth := by rw [h₁.path_eq n hn]; exact hlen
    rw [h₂.links n (h₁.mem n hn) hlen' i m (by rw [heq]; exact hm), heq]
  · intro n hn key hkey
    rw [h₂.lookup_eq n (h₁.mem n hn) key (by rw [h₁.path_eq n hn]; exact hkey),
      h₁.lookup_eq n hn key hkey]

end Extends

theorem locate_mem (tree : Tree child depth root nodes path tab) {n m : N} {i : I} {key : List I}
    (hn : n ∈ nodes) (hkey : (path n).length + key.length = depth)
    (h : locate child tab n key = some (m, i)) :
    m ∈ nodes ∧ path m ++ [i] = path n ++ key := by
  induction key generalizing n with
  | nil => cases h
  | cons j ks ih =>
      cases ks with
      | nil =>
          obtain ⟨rfl, rfl⟩ := Prod.mk.inj (Option.some.inj h)
          exact ⟨hn, rfl⟩
      | cons k ks =>
          cases hchild : child (tab n j) with
          | none => rw [locate, hchild] at h; cases h
          | some p =>
              rw [locate, hchild] at h
              have hlen : (path n).length + 1 < depth := by
                simp only [List.length_cons] at hkey
                omega
              obtain ⟨hp, hpath⟩ := tree.child_mem n hn hlen j p hchild
              have hrest := ih hp (by
                rw [hpath, List.length_append, List.length_singleton]
                simp only [List.length_cons] at hkey ⊢
                omega) h
              rw [hpath, List.append_assoc] at hrest
              exact hrest

/-! ## Hanging a fresh node below an entry -/

variable [DecidableEq N] [DecidableEq I]

/-- The store with one entry rewritten. -/
def set (tab : N → I → W) (n : N) (i : I) (w : W) : N → I → W :=
  Function.update tab n (Function.update (tab n) i w)

@[simp] theorem set_self (tab : N → I → W) (n : N) (i : I) (w : W) : set tab n i w n i = w := by
  simp [set]

theorem set_of_ne (tab : N → I → W) {n m : N} {i j : I} (w : W) (h : ¬(m = n ∧ j = i)) :
    set tab n i w m j = tab m j := by
  unfold set
  by_cases hm : m = n
  · subst hm
    have hj : j ≠ i := fun hj => h ⟨rfl, hj⟩
    rw [Function.update_self, Function.update_of_ne hj]
  · rw [Function.update_of_ne hm]

/-- The store after a blank node `q` has been linked from the slot `(n, i)` by the entry `w`. -/
def link (blank : W) (tab : N → I → W) (n : N) (i : I) (q : N) (w : W) : N → I → W :=
  set (Function.update tab q fun _ => blank) n i w

section

variable {n q : N} {i : I} {w : W}

theorem link_of_ne {m : N} {j : I} (hq : m ≠ q) (h : ¬(m = n ∧ j = i)) :
    link blank tab n i q w m j = tab m j := by
  rw [link, set_of_ne _ _ h, Function.update_of_ne hq]

theorem link_fresh {j : I} (hq : q ≠ n) : link blank tab n i q w q j = blank := by
  rw [link, set_of_ne _ _ (fun h => hq h.1), Function.update_self]

@[simp] theorem link_self : link blank tab n i q w n i = w := by rw [link, set_self]

/-- A blank node has blank entries only. -/
theorem lookup_fresh (hblank : child blank = none) (hq : q ≠ n) (key : List I) :
    lookup child blank (link blank tab n i q w) q key = blank := by
  match key with
  | [] => rfl
  | [j] => exact link_fresh hq
  | j :: k :: ks =>
      refine lookup_none ?_
      rw [link_fresh hq]
      exact hblank

variable (tree : Tree child depth root nodes path tab) (hn : n ∈ nodes)
  (inner : (path n).length + 1 < depth) (empty : child (tab n i) = none) (fresh : q ∉ nodes)
  (hw : child w = some q) (hblank : child blank = none)

include tree hn inner empty fresh hw hblank

/-- Linking a blank node leaves every lookup as it was: the slot had no child, and below it
there is nothing but blank entries. -/
theorem lookup_link {m : N} (hm : m ∈ nodes) (key : List I)
    (hkey : (path m).length + key.length = depth) :
    lookup child blank (link blank tab n i q w) m key = lookup child blank tab m key := by
  have hqn : q ≠ n := fun h => fresh (h ▸ hn)
  induction key generalizing m with
  | nil => rfl
  | cons j ks ih =>
      have hmq : m ≠ q := fun h => fresh (h ▸ hm)
      cases ks with
      | nil =>
          -- a node that holds leaf entries is not the inner node `n`
          rw [lookup_one, lookup_one, link_of_ne hmq]
          rintro ⟨rfl, -⟩
          simp only [List.length_cons, List.length_nil] at hkey
          omega
      | cons k ks =>
          by_cases hslot : m = n ∧ j = i
          · obtain ⟨rfl, rfl⟩ := hslot
            rw [lookup_none empty, lookup_some (m := q) (by rw [link_self]; exact hw)]
            exact lookup_fresh hblank hqn _
          · have hsame : link blank tab n i q w m j = tab m j := link_of_ne hmq hslot
            cases hchild : child (tab m j) with
            | none => rw [lookup_none hchild, lookup_none (by rw [hsame]; exact hchild)]
            | some p =>
                rw [lookup_some hchild, lookup_some (by rw [hsame]; exact hchild)]
                have hlen : (path m).length + 1 < depth := by
                  simp only [List.length_cons] at hkey
                  omega
                obtain ⟨hp, hpath⟩ := tree.child_mem m hm hlen j p hchild
                refine ih hp ?_
                rw [hpath, List.length_append, List.length_singleton]
                simp only [List.length_cons] at hkey ⊢
                omega

/-- The fresh node joins the tree, at the path of its slot. -/
theorem Tree.link :
    Tree child depth root (nodes ++ [q]) (Function.update path q (path n ++ [i]))
      (link blank tab n i q w) := by
  have hqn : q ≠ n := fun h => fresh (h ▸ hn)
  have hold : ∀ m ∈ nodes, Function.update path q (path n ++ [i]) m = path m :=
    fun m hm => Function.update_of_ne (fun h : m = q => fresh (h ▸ hm)) _ _
  refine ⟨List.mem_append_left _ tree.root_mem, ?_, ?_⟩
  · rw [hold root tree.root_mem, tree.root_path]
  · intro m hm hlen j p hp
    rcases List.mem_append.mp hm with hm | hm
    · have hmq : m ≠ q := fun h => fresh (h ▸ hm)
      rw [hold m hm] at hlen ⊢
      by_cases hslot : m = n ∧ j = i
      · obtain ⟨rfl, rfl⟩ := hslot
        rw [link_self, hw] at hp
        obtain rfl := Option.some.inj hp
        exact ⟨by simp, Function.update_self _ _ _⟩
      · rw [link_of_ne hmq hslot] at hp
        obtain ⟨hp', hpath⟩ := tree.child_mem m hm hlen j p hp
        exact ⟨List.mem_append_left _ hp', by rw [hold p hp', hpath]⟩
    · obtain rfl := List.mem_singleton.mp hm
      rw [link_fresh hqn, hblank] at hp
      cases hp

theorem Extends.link :
    Extends child depth blank nodes (nodes ++ [q]) path
      (Function.update path q (path n ++ [i])) tab (link blank tab n i q w) := by
  refine ⟨fun m hm => List.mem_append_left _ hm,
    fun m hm => Function.update_of_ne (fun h : m = q => fresh (h ▸ hm)) _ _, ?_,
    fun m hm key hkey => lookup_link tree hn inner empty fresh hw hblank hm key hkey⟩
  intro m hm _ j p hp
  refine link_of_ne (fun h => fresh (h ▸ hm)) ?_
  rintro ⟨rfl, rfl⟩
  rw [empty] at hp
  cases hp

end

/-! ## Writing a leaf slot -/

variable {m₀ : N} {i₀ : I} {key₀ : List I}

/-- A node that holds leaf entries is on no path, so writing it moves no slot. -/
theorem locate_set (tree : Tree child depth root nodes path tab)
    (leaf : (path m₀).length + 1 = depth) (w : W) {n : N} {key : List I} (hn : n ∈ nodes)
    (hkey : (path n).length + key.length = depth) :
    locate child (set tab m₀ i₀ w) n key = locate child tab n key := by
  induction key generalizing n with
  | nil => rfl
  | cons j ks ih =>
      cases ks with
      | nil => rfl
      | cons k ks =>
          have hlen : (path n).length + 1 < depth := by
            simp only [List.length_cons] at hkey
            omega
          have hsame : set tab m₀ i₀ w n j = tab n j := by
            refine set_of_ne _ _ ?_
            rintro ⟨rfl, -⟩
            omega
          rw [locate, locate, hsame]
          cases hchild : child (tab n j) with
          | none => rfl
          | some p =>
              obtain ⟨hp, hpath⟩ := tree.child_mem n hn hlen j p hchild
              refine ih hp ?_
              rw [hpath, List.length_append, List.length_singleton]
              simp only [List.length_cons] at hkey ⊢
              omega

/-- **Writing the slot of one key** changes the lookup of that key only. -/
theorem lookup_set (tree : Tree child depth root nodes path tab) (hkey₀ : key₀.length = depth)
    (h₀ : locate child tab root key₀ = some (m₀, i₀)) (w : W) {key : List I}
    (hkey : key.length = depth) :
    lookup child blank (set tab m₀ i₀ w) root key
      = if key = key₀ then w else lookup child blank tab root key := by
  have hlen : ∀ k : List I, k.length = depth → (path root).length + k.length = depth := by
    intro k hk
    rw [tree.root_path, List.length_nil, Nat.zero_add, hk]
  obtain ⟨hm₀, hpath₀⟩ := locate_mem tree tree.root_mem (hlen key₀ hkey₀) h₀
  rw [tree.root_path, List.nil_append] at hpath₀
  have hleaf : (path m₀).length + 1 = depth := by
    rw [← hkey₀, ← hpath₀, List.length_append, List.length_singleton]
  rw [lookup, locate_set tree hleaf w tree.root_mem (hlen key hkey)]
  by_cases hk : key = key₀
  · rw [if_pos hk, hk, h₀]
    exact set_self _ _ _ _
  · rw [if_neg hk, lookup]
    cases hloc : locate child tab root key with
    | none => rfl
    | some p =>
        obtain ⟨m, i⟩ := p
        obtain ⟨hm, hpath⟩ := locate_mem tree tree.root_mem (hlen key hkey) hloc
        rw [tree.root_path, List.nil_append] at hpath
        refine set_of_ne _ _ ?_
        rintro ⟨rfl, rfl⟩
        exact hk (hpath.symm.trans hpath₀)

theorem Tree.set (tree : Tree child depth root nodes path tab)
    (leaf : (path m₀).length + 1 = depth) (w : W) :
    Tree child depth root nodes path (set tab m₀ i₀ w) := by
  refine ⟨tree.root_mem, tree.root_path, fun n hn hlen j p hp => tree.child_mem n hn hlen j p ?_⟩
  rw [← hp, set_of_ne]
  rintro ⟨rfl, -⟩
  omega

/-! ## Walks and subtrees -/

section

variable (child : W → Option N)

/-- The node that some indices lead to. -/
def walk (tab : N → I → W) : N → List I → Option N
  | n, [] => some n
  | n, i :: key => (child (tab n i)).bind fun m => walk tab m key

/-- The nodes down to `k` levels below a node, each after its children. -/
def subtree (is : List I) (tab : N → I → W) : Nat → N → List N
  | 0, n => [n]
  | k + 1, n => (is.flatMap fun i => ((child (tab n i)).map (subtree is tab k)).getD []) ++ [n]

/-- Every node is at the end of a walk from the root. -/
def Covered (depth : Nat) (root : N) (nodes : List N) (is : List I) (tab : N → I → W) : Prop :=
  ∀ p ∈ nodes, ∃ key : List I, key.length < depth ∧ (∀ i ∈ key, i ∈ is)
    ∧ walk child tab root key = some p

end

variable {is key : List I} {n p q : N} {i : I} {k : Nat}

omit [DecidableEq N] [DecidableEq I] in
theorem walk_append {key' : List I} : walk child tab n (key ++ key')
    = (walk child tab n key).bind fun m => walk child tab m key' := by
  induction key generalizing n with
  | nil => rfl
  | cons j key ih =>
      rw [List.cons_append, walk, walk, Option.bind_assoc]
      exact congrArg _ (funext fun m => ih)

omit [DecidableEq N] [DecidableEq I] in
/-- A walk in the tree extends the path. -/
theorem walk_mem (tree : Tree child depth root nodes path tab) (hn : n ∈ nodes)
    (hlen : (path n).length + key.length < depth) (h : walk child tab n key = some p) :
    p ∈ nodes ∧ path p = path n ++ key := by
  induction key generalizing n with
  | nil =>
      obtain rfl := Option.some.inj h
      exact ⟨hn, (List.append_nil _).symm⟩
  | cons j key ih =>
      obtain ⟨m, hm, hwalk⟩ := Option.bind_eq_some_iff.mp h
      rw [List.length_cons] at hlen
      obtain ⟨hmem, hpath⟩ := tree.child_mem n hn (by omega) j m hm
      obtain ⟨hp, hpathp⟩ := ih hmem (by
        rw [hpath, List.length_append, List.length_singleton]
        omega) hwalk
      rw [hpath, List.append_assoc] at hpathp
      exact ⟨hp, hpathp⟩

omit [DecidableEq N] [DecidableEq I] in
/-- A walk depends on the links of inner nodes. -/
theorem walk_mono (tree : Tree child depth root nodes path tab)
    (links : ∀ n ∈ nodes, (path n).length + 1 < depth → ∀ i m, child (tab n i) = some m →
      tab' n i = tab n i) (hn : n ∈ nodes) (hlen : (path n).length + key.length < depth)
    (h : walk child tab n key = some p) : walk child tab' n key = some p := by
  induction key generalizing n with
  | nil => exact h
  | cons j key ih =>
      obtain ⟨m, hm, hwalk⟩ := Option.bind_eq_some_iff.mp h
      rw [List.length_cons] at hlen
      have hinner : (path n).length + 1 < depth := by omega
      obtain ⟨hmem, hpath⟩ := tree.child_mem n hn hinner j m hm
      rw [walk, links n hn hinner j m hm, hm]
      refine ih hmem ?_ hwalk
      rw [hpath, List.length_append, List.length_singleton]
      omega

omit [DecidableEq N] [DecidableEq I] in
theorem mem_subtree : p ∈ subtree child is tab k n
    ↔ ∃ key : List I, key.length ≤ k ∧ (∀ i ∈ key, i ∈ is) ∧ walk child tab n key = some p := by
  induction k generalizing n with
  | zero =>
      rw [subtree, List.mem_singleton]
      constructor
      · rintro rfl
        exact ⟨[], le_refl 0, fun _ h => absurd h List.not_mem_nil, rfl⟩
      · rintro ⟨key, hlen, -, hwalk⟩
        obtain rfl := List.length_eq_zero_iff.mp (Nat.le_zero.mp hlen)
        exact (Option.some.inj hwalk).symm
  | succ k ih =>
      rw [subtree, List.mem_append, List.mem_flatMap, List.mem_singleton]
      constructor
      · -- a node below the child `i` is reached with `i` in front of the key
        rintro (⟨i, hi, hmem⟩ | rfl)
        · cases hchild : child (tab n i) with
          | none =>
              rw [hchild] at hmem
              exact absurd hmem List.not_mem_nil
          | some m =>
              rw [hchild] at hmem
              obtain ⟨key, hlen, hkey, hwalk⟩ := ih.mp hmem
              refine ⟨i :: key, Nat.succ_le_succ hlen, ?_, ?_⟩
              · intro j hj
                rcases List.mem_cons.mp hj with rfl | hj
                · exact hi
                · exact hkey j hj
              · rw [walk, hchild]
                exact hwalk
        · exact ⟨[], Nat.zero_le _, fun _ h => absurd h List.not_mem_nil, rfl⟩
      · rintro ⟨key, hlen, hkey, hwalk⟩
        cases key with
        | nil => exact .inr (Option.some.inj hwalk).symm
        | cons i key =>
            obtain ⟨m, hm, hwalk⟩ := Option.bind_eq_some_iff.mp hwalk
            refine .inl ⟨i, hkey i List.mem_cons_self, ?_⟩
            rw [hm]
            exact ih.mpr ⟨key, Nat.le_of_succ_le_succ hlen,
              fun j hj => hkey j (List.mem_cons_of_mem _ hj), hwalk⟩

omit [DecidableEq N] [DecidableEq I] in
theorem nodup_subtree (tree : Tree child depth root nodes path tab) (his : is.Nodup)
    (hn : n ∈ nodes) (hlen : (path n).length + k < depth) :
    (subtree child is tab k n).Nodup := by
  induction k generalizing n with
  | zero => exact List.nodup_singleton n
  | succ k ih =>
      -- what lies below a slot has the path of the slot
      have hbelow : ∀ i ∈ is, ∀ p ∈ ((child (tab n i)).map (subtree child is tab k)).getD [],
          ∃ rest, path p = path n ++ i :: rest := by
        intro i _ p hp
        cases hchild : child (tab n i) with
        | none =>
            rw [hchild] at hp
            exact absurd hp List.not_mem_nil
        | some m =>
            rw [hchild] at hp
            obtain ⟨key, hkey, -, hwalk⟩ := mem_subtree.mp hp
            have hcons : walk child tab n (i :: key) = some p := by
              rw [walk, hchild]
              exact hwalk
            refine ⟨key, (walk_mem tree hn ?_ hcons).2⟩
            rw [List.length_cons]
            omega
      rw [subtree, List.nodup_append]
      refine ⟨List.nodup_flatMap.mpr ⟨fun i hi => ?_, ?_⟩, List.nodup_singleton n, ?_⟩
      · cases hchild : child (tab n i) with
        | none => exact List.nodup_nil
        | some m =>
            obtain ⟨hm, hpath⟩ := tree.child_mem n hn (by omega) i m hchild
            refine ih hm ?_
            rw [hpath, List.length_append, List.length_singleton]
            omega
      · refine his.imp_of_mem fun {i j} hi hj hij p hpi hpj => ?_
        obtain ⟨rest, hp⟩ := hbelow i hi p hpi
        obtain ⟨rest', hp'⟩ := hbelow j hj p hpj
        rw [hp] at hp'
        exact hij (List.cons.inj (List.append_cancel_left hp')).1
      · intro p hp q hq heq
        obtain ⟨i, hi, hpi⟩ := List.mem_flatMap.mp hp
        obtain ⟨rest, hpath⟩ := hbelow i hi p hpi
        rw [heq, List.mem_singleton.mp hq] at hpath
        have := congrArg List.length hpath
        rw [List.length_append, List.length_cons] at this
        omega

omit [DecidableEq N] [DecidableEq I] in
/-- **The subtree of the root** has every node once. -/
theorem subtree_perm (tree : Tree child (depth + 1) root nodes path tab)
    (covered : Covered child (depth + 1) root nodes is tab) (hnodes : nodes.Nodup)
    (his : is.Nodup) : (subtree child is tab depth root).Perm nodes := by
  have hroot : (path root).length = 0 := by rw [tree.root_path, List.length_nil]
  have hnodup := nodup_subtree (k := depth) tree his tree.root_mem (by omega)
  refine (List.perm_ext_iff_of_nodup hnodup hnodes).mpr fun p => ?_
  rw [mem_subtree]
  constructor
  · rintro ⟨key, hlen, -, hwalk⟩
    exact (walk_mem tree tree.root_mem (by omega) hwalk).1
  · intro hp
    obtain ⟨key, hlen, hkey, hwalk⟩ := covered p hp
    exact ⟨key, Nat.le_of_lt_succ hlen, hkey, hwalk⟩

omit [DecidableEq N] [DecidableEq I] in
/-- Nodes stay covered when links stay. -/
theorem Covered.mono (h : Covered child depth root nodes is tab)
    (tree : Tree child depth root nodes path tab)
    (links : ∀ n ∈ nodes, (path n).length + 1 < depth → ∀ i m, child (tab n i) = some m →
      tab' n i = tab n i) : Covered child depth root nodes is tab' := by
  intro p hp
  obtain ⟨key, hlen, hkey, hwalk⟩ := h p hp
  refine ⟨key, hlen, hkey, walk_mono tree links tree.root_mem ?_ hwalk⟩
  rw [tree.root_path, List.length_nil, Nat.zero_add]
  exact hlen

end Radix
