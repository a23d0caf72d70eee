import NoobKernel.Lib.Links
import NoobKernel.Lib.Lts
import NoobKernel.Misc.Hashtable

set_option autoImplicit false

/-! # The hash table on its links (`misc/hashtable.c`)

The buckets as the circular lists they are, over nodes at the addresses that `kmalloc` returns.
`Represents` says which nodes are in which bucket, and every operation on the links does what the
operation of the same name does on the lists of nodes (`Represents.insert`, `Represents.delete`).
Over a whole run a table then holds the map of its history (`hashtable_refines_map`).

Memory that is not a node of the table belongs to others, who write to it at any time.
-/

namespace NoobKernel

/-- `ht->buckets[i]`, and the member `list` of the node at an address. -/
inductive BucketLink
  | bucket (i : Nat)
  | node (a : Addr)
  deriving DecidableEq

/-- The node whose member it is. -/
def BucketLink.entry : BucketLink → Option Addr
  | bucket _ => none
  | node a => some a

/-- A table and the memory of its nodes. -/
structure LinkedHashtable where
  links : Links BucketLink
  node : Addr → HashNode
  size : Nat
  count : UInt64

namespace LinkedHashtable

/-- `hashtable_init`, on whatever memory holds; `memory` says whether there is room for the
buckets. -/
def init (t : LinkedHashtable) (size : Nat) (memory : Bool) : Int × LinkedHashtable :=
  if size = 0 ∨ size &&& (size - 1) ≠ 0 then (-EINVAL, t)
  else if memory then
    (0, { t with
      links := (List.range size).foldl (fun l i => l.init (.bucket i)) t.links
      size := size
      count := 0 })
  else (-ENOMEM, t)

/-- The condition in the loops over a bucket. -/
def isKey (t : LinkedHashtable) (key : Addr) (n : BucketLink) : Bool :=
  n.entry.any fun a => (t.node a).key = key

/-- The loop over the bucket of a key. Its bound is never reached (`Represents.find`). -/
def find (t : LinkedHashtable) (key : Addr) : Option (Option Addr) :=
  let head := BucketLink.bucket (hashPtr key t.size)
  (Links.scan t.links.next head (t.isKey key) (t.count.toNat + 1) (t.links.next head)).map
    (·.bind BucketLink.entry)

def setNode (t : LinkedHashtable) (a : Addr) (node : HashNode) : LinkedHashtable :=
  { t with node := Function.update t.node a node }

/-- A new node at `a`, at the front of its bucket. -/
def addNode (t : LinkedHashtable) (a key value : Addr) : LinkedHashtable where
  links := t.links.add (.node a) (.bucket (hashPtr key t.size))
  node := Function.update t.node a ⟨key, value⟩
  size := t.size
  count := t.count + 1

/-- `hashtable_insert`; `memory` is what `kmalloc` returns, if it is called. -/
def insert (t : LinkedHashtable) (key value memory : Addr) : Option (Int × LinkedHashtable) :=
  (t.find key).map fun
    | some a => (0, t.setNode a { t.node a with value := value })
    | none =>
        if memory = 0 then (-ENOMEM, t) else (0, t.addNode memory key value)

def lookup (t : LinkedHashtable) (key : Addr) : Option Addr :=
  (t.find key).map fun
    | some a => (t.node a).value
    | none => 0

def delete (t : LinkedHashtable) (key : Addr) : Option (Addr × LinkedHashtable) :=
  (t.find key).map fun
    | some a => ((t.node a).value, { t with links := t.links.del (.node a), count := t.count - 1 })
    | none => (0, t)

/-- A write to memory, whoever has it. -/
def foreign (t : LinkedHashtable) (a : Addr) (next prev : BucketLink) (node : HashNode) :
    LinkedHashtable :=
  { t.setNode a node with
    links := ⟨Function.update t.links.next (.node a) next,
      Function.update t.links.prev (.node a) prev⟩ }

/-- The table whose buckets are the lists of nodes at `xs`. -/
def lists (t : LinkedHashtable) (xs : Nat → List Addr) : Hashtable :=
  ⟨fun i => (xs i).map t.node, t.size, t.count.toNat⟩

end LinkedHashtable

/-! ## The nodes of a table -/

theorem hashPtr_lt (key : Addr) {size : Nat} (hsize : 0 < size) : hashPtr key size < size :=
  Nat.lt_of_le_of_lt Nat.and_le_right (by omega)

theorem BucketLink.bucket_injective : Function.Injective BucketLink.bucket :=
  fun _ _ => BucketLink.bucket.inj

theorem BucketLink.node_injective : Function.Injective BucketLink.node :=
  fun _ _ => BucketLink.node.inj

theorem not_mem_bucket {a : Addr} {i : Nat} {l : List Addr} (ha : a ∉ l) :
    BucketLink.node a ∉ BucketLink.bucket i :: l.map .node := by
  rw [List.mem_cons, List.mem_map_of_injective BucketLink.node_injective, not_or]
  exact ⟨BucketLink.noConfusion, ha⟩

namespace LinkedHashtable

/-- `xs i` are the nodes in bucket `i`, and `live` those in any bucket. -/
structure Represents (t : LinkedHashtable) (live : List Addr) (xs : Nat → List Addr) : Prop where
  size : 0 < t.size
  circles : t.links.Circles t.size .bucket fun i => (xs i).map .node
  valid : (t.lists xs).Valid
  mem : ∀ a, a ∈ live ↔ ∃ i, a ∈ xs i
  nodup : live.Nodup
  nonnull : 0 ∉ live
  count : t.count.toNat = live.length

variable {t t' : LinkedHashtable} {live : List Addr} {xs : Nat → List Addr} {key value memory : Addr}
  {a : Addr} {i : Nat}

theorem represents_init (t : LinkedHashtable) {size : Nat} {memory : Bool}
    (run : (t.init size memory).1 = 0) :
    (t.init size memory).2.size = size ∧ (t.init size memory).2.Represents [] fun _ => [] := by
  unfold init at run ⊢
  split at run
  · have hneg : -EINVAL ≠ 0 := by decide
    exact absurd run hneg
  · rename_i hsize
    rw [if_neg hsize]
    split at run
    · rename_i hmemory
      rw [if_pos hmemory]
      have hpos : 0 < size := by omega
      refine ⟨rfl, hpos, ?_, Hashtable.valid_init size, by simp, List.nodup_nil,
        List.not_mem_nil, rfl⟩
      exact Links.Circles.init_heads t.links BucketLink.bucket_injective size
    · have hneg : -ENOMEM ≠ 0 := by decide
      exact absurd run hneg

namespace Represents

theorem bucket_eq (h : t.Represents live xs) (ha : a ∈ xs i) : hashPtr (t.node a).key t.size = i :=
  h.valid.bucket i _ (List.mem_map_of_mem ha)

theorem bucket_lt (h : t.Represents live xs) (ha : a ∈ xs i) : i < t.size := by
  rw [← h.bucket_eq ha]
  exact hashPtr_lt _ h.size

theorem keys_nodup (h : t.Represents live xs) (i : Nat) :
    ((xs i).map fun a => (t.node a).key).Nodup := by
  have hnodup := h.valid.nodup i
  rwa [lists, List.map_map] at hnodup

/-- A key has one node. -/
theorem key_inj (h : t.Represents live xs) {j : Nat} {b : Addr} (ha : a ∈ xs i) (hb : b ∈ xs j)
    (hkey : (t.node a).key = (t.node b).key) : a = b := by
  obtain rfl : i = j := by rw [← h.bucket_eq ha, ← h.bucket_eq hb, hkey]
  exact List.inj_on_of_nodup_map (h.keys_nodup i) ha hb hkey

theorem length_le (h : t.Represents live xs) (i : Nat) : (xs i).length ≤ t.count.toNat := by
  rw [h.count]
  refine (List.subperm_of_subset (h.keys_nodup i).of_map fun a ha => ?_).length_le
  exact (h.mem a).mpr ⟨i, ha⟩

/-- The keys of the map are those of the nodes. -/
theorem get_ne_none (h : t.Represents live xs) (key : Addr) :
    (t.lists xs).get key ≠ none ↔ ∃ i < t.size, ∃ a ∈ xs i, (t.node a).key = key := by
  rw [Ne, Hashtable.get_eq_none]
  push Not
  constructor
  · rintro ⟨node, hmem, hkey⟩
    obtain ⟨a, ha, rfl⟩ := List.mem_map.mp hmem
    exact ⟨_, hashPtr_lt key h.size, a, ha, hkey⟩
  · rintro ⟨i, -, a, ha, rfl⟩
    obtain rfl := h.bucket_eq ha
    exact ⟨t.node a, List.mem_map_of_mem ha, rfl⟩

/-! ### The loop -/

/-- It ends, and with what the search of the bucket finds. -/
theorem find (h : t.Represents live xs) (key : Addr) :
    t.find key = some ((xs (hashPtr key t.size)).find? fun a => (t.node a).key = key) := by
  have hlen : ((xs (hashPtr key t.size)).map BucketLink.node).length < t.count.toNat + 1 := by
    rw [List.length_map]
    exact Nat.lt_succ_of_le (h.length_le _)
  have hscan := (h.circles.circle _ (hashPtr_lt key h.size)).scan_next (t.isKey key) hlen
  have hfind : (xs (hashPtr key t.size)).find? (t.isKey key ∘ .node)
      = (xs (hashPtr key t.size)).find? fun a => (t.node a).key = key := rfl
  unfold LinkedHashtable.find
  dsimp only
  rw [hscan, List.find?_map, hfind]
  cases (xs (hashPtr key t.size)).find? fun a => (t.node a).key = key <;> rfl

theorem lists_find (h : t.Represents live xs) (key : Addr) :
    ((t.lists xs).buckets (hashPtr key t.size)).find? (·.key = key)
      = ((t.find key).getD none).map t.node := by
  rw [h.find, lists, List.find?_map]
  rfl

/-- The node of a key, or that it has none. -/
theorem find_cases (h : t.Represents live xs) (key : Addr) :
    (∃ a ∈ xs (hashPtr key t.size), (t.node a).key = key ∧ t.find key = some (some a)
        ∧ (t.lists xs).get key = some (t.node a).value)
      ∨ t.find key = some none ∧ (t.lists xs).get key = none := by
  have hget : (t.lists xs).get key
      = (((t.find key).getD none).map t.node).map HashNode.value :=
    congrArg (Option.map HashNode.value) (h.lists_find key)
  rw [hget, h.find]
  cases hfind : (xs (hashPtr key t.size)).find? fun a => (t.node a).key = key with
  | none => exact .inr ⟨rfl, rfl⟩
  | some a =>
      refine .inl ⟨a, List.mem_of_find?_eq_some hfind, ?_, rfl, rfl⟩
      simpa using List.find?_some hfind

/-! ### The writes -/

/-- The value of a node, in the list of its bucket. -/
theorem map_setValue {node : Addr → HashNode} {l : List Addr} (ha : a ∈ l)
    (hnodup : (l.map fun b => (node b).key).Nodup) (value : Addr) :
    l.map (Function.update node a { node a with value := value })
      = (l.map node).replaceF fun n =>
          if n.key = (node a).key then some { n with value := value } else none := by
  induction l with
  | nil => exact absurd ha List.not_mem_nil
  | cons b l ih =>
      obtain ⟨hb, hl⟩ := List.nodup_cons.mp hnodup
      by_cases hba : b = a
      · subst hba
        have hrest : ∀ c ∈ l, Function.update node b { node b with value := value } c = node c := by
          intro c hc
          refine Function.update_of_ne (fun heq => hb ?_) _ _
          exact List.mem_map.mpr ⟨c, hc, congrArg (fun d => (node d).key) heq⟩
        rw [List.map_cons, List.map_cons, List.replaceF_cons, if_pos rfl, Function.update_self,
          List.map_congr_left hrest]
      · have hal := List.mem_of_ne_of_mem (Ne.symm hba) ha
        have hkey : (node b).key ≠ (node a).key :=
          fun heq => hb (List.mem_map.mpr ⟨a, hal, heq.symm⟩)
        rw [List.map_cons, List.map_cons, List.replaceF_cons, if_neg hkey,
          Function.update_of_ne hba, ih hal hl]

theorem map_erase_node {node : Addr → HashNode} {l : List Addr} (ha : a ∈ l)
    (hnodup : (l.map fun b => (node b).key).Nodup) :
    (l.erase a).map node = (l.map node).erase (node a) := by
  induction l with
  | nil => exact absurd ha List.not_mem_nil
  | cons b l ih =>
      obtain ⟨hb, hl⟩ := List.nodup_cons.mp hnodup
      by_cases hba : b = a
      · rw [hba, List.erase_cons_head, List.map_cons, List.erase_cons_head]
      · have hal := List.mem_of_ne_of_mem (Ne.symm hba) ha
        have hnode : node b ≠ node a :=
          fun heq => hb (List.mem_map.mpr ⟨a, hal, congrArg HashNode.key heq.symm⟩)
        rw [List.erase_cons_tail (by simpa using hba), List.map_cons, List.map_cons,
          List.erase_cons_tail (by simpa using hnode), ih hal hl]

/-- A node of the key gets another value. -/
theorem update (h : t.Represents live xs) (ha : a ∈ xs i) (value : Addr) (memory : Bool) :
    (t.setNode a { t.node a with value := value }).Represents live xs
      ∧ (0, (t.setNode a { t.node a with value := value }).lists xs)
        = hashtableInsert (t.lists xs) (t.node a).key value memory := by
  have hi := h.bucket_eq ha
  have hlists : (0, (t.setNode a { t.node a with value := value }).lists xs)
      = hashtableInsert (t.lists xs) (t.node a).key value memory := by
    have hany : ((t.lists xs).buckets (hashPtr (t.node a).key (t.lists xs).size)).any
        (·.key = (t.node a).key) = true := by
      rw [List.any_eq_true]
      exact ⟨t.node a, List.mem_map_of_mem (hi ▸ ha), by simp⟩
    unfold hashtableInsert
    rw [if_pos hany]
    refine congrArg (Prod.mk 0) ?_
    unfold Hashtable.setBucket lists
    congr 1
    funext j
    rw [Function.update_apply]
    split
    · rename_i hj
      rw [hj]
      exact map_setValue (hi ▸ ha) (h.keys_nodup _) value
    · rename_i hj
      refine List.map_congr_left fun b hb => Function.update_of_ne ?_ _ _
      rintro rfl
      exact hj (h.bucket_eq hb).symm
  refine ⟨⟨h.size, h.circles, ?_, h.mem, h.nodup, h.nonnull, h.count⟩, hlists⟩
  have hvalid := h.valid.insert (t.node a).key value memory
  rwa [← hlists] at hvalid

/-- A node for a new key. -/
theorem add (h : t.Represents live xs) (hnone : (t.lists xs).get key = none) (hmem : memory ∉ live)
    (hmemory : memory ≠ 0) (value : Addr) :
    (t.addNode memory key value).Represents (memory :: live)
        (Function.update xs (hashPtr key t.size) (memory :: xs (hashPtr key t.size)))
      ∧ (0, (t.addNode memory key value).lists
          (Function.update xs (hashPtr key t.size) (memory :: xs (hashPtr key t.size))))
        = hashtableInsert (t.lists xs) key value true := by
  have hoff : ∀ j, memory ∉ xs j := fun j hj => hmem ((h.mem memory).mpr ⟨j, hj⟩)
  have hnodup : (memory :: live).Nodup := List.nodup_cons.mpr ⟨hmem, h.nodup⟩
  have hnull : 0 ∉ memory :: live := by
    rw [List.mem_cons, not_or]
    exact ⟨hmemory.symm, h.nonnull⟩
  -- there are fewer nodes than addresses, so the count does not wrap
  have hcount : (t.count + 1).toNat = (memory :: live).length := by
    have hlen := length_le_of_nodup (a := 1) (b := 2 ^ 64) hnodup fun d hd => by
      have hd0 : d.toNat ≠ 0 := by
        intro heq
        obtain rfl : d = 0 := UInt64.toNat_inj.mp heq
        exact hnull hd
      have hlt := d.toNat_lt
      omega
    rw [List.length_cons] at hlen ⊢
    rw [UInt64.toNat_add, h.count]
    exact Nat.mod_eq_of_lt (by simp; omega)
  have hlists : (0, (t.addNode memory key value).lists
        (Function.update xs (hashPtr key t.size) (memory :: xs (hashPtr key t.size))))
      = hashtableInsert (t.lists xs) key value true := by
    -- the node is written before it is linked, and is in no bucket yet
    have hold : ∀ j, (xs j).map (Function.update t.node memory ⟨key, value⟩)
        = (xs j).map t.node := by
      intro j
      refine List.map_congr_left fun b hb => Function.update_of_ne ?_ _ _
      rintro rfl
      exact hoff j hb
    rw [Hashtable.insert_new hnone, if_pos rfl]
    refine congrArg (Prod.mk 0) ?_
    unfold Hashtable.setBucket lists addNode
    congr 1
    · funext j
      rw [Function.update_apply, Function.update_apply]
      split
      · rw [List.map_cons]
        exact congrArg₂ List.cons (Function.update_self _ _ _) (hold _)
      · exact hold j
    · rw [hcount, List.length_cons, h.count]
  refine ⟨⟨h.size, ?_, ?_, fun a => ?_, hnodup, hnull, hcount⟩, hlists⟩
  · have hadd := h.circles.add (hashPtr_lt key h.size) fun j _ => not_mem_bucket (hoff j)
    have htable : ∀ j, Function.update (fun j => (xs j).map BucketLink.node) (hashPtr key t.size)
          (.node memory :: (xs (hashPtr key t.size)).map .node) j
        = (Function.update xs (hashPtr key t.size) (memory :: xs (hashPtr key t.size)) j).map
          .node := by
      intro j
      rw [Function.update_apply, Function.update_apply]
      split <;> rfl
    rwa [funext htable] at hadd
  · have hvalid := h.valid.insert key value true
    rwa [← hlists] at hvalid
  · rw [List.mem_cons, h.mem]
    constructor
    · rintro (rfl | ⟨j, hj⟩)
      · exact ⟨hashPtr key t.size, by rw [Function.update_self]; exact List.mem_cons_self⟩
      · refine ⟨j, ?_⟩
        rw [Function.update_apply]
        split
        · rename_i hji
          exact List.mem_cons_of_mem _ (hji ▸ hj)
        · exact hj
    · rintro ⟨j, hj⟩
      rw [Function.update_apply] at hj
      split at hj
      · exact (List.mem_cons.mp hj).imp_right fun hmem => ⟨_, hmem⟩
      · exact .inr ⟨j, hj⟩

/-- A node is taken out. -/
theorem del (h : t.Represents live xs) (ha : a ∈ xs i) :
    Represents { t with links := t.links.del (.node a), count := t.count - 1 } (live.erase a)
        (fun j => (xs j).erase a)
      ∧ ((t.node a).value, lists { t with links := t.links.del (.node a), count := t.count - 1 }
          fun j => (xs j).erase a) = hashtableDelete (t.lists xs) (t.node a).key := by
  have hlive : a ∈ live := (h.mem a).mpr ⟨i, ha⟩
  have hi := h.bucket_eq ha
  have hcount : (t.count - 1).toNat = (live.erase a).length := by
    have hpos := List.length_pos_of_mem hlive
    have hlt := t.count.toNat_lt
    rw [List.length_erase_of_mem hlive, UInt64.toNat_sub_of_le, h.count]
    · rfl
    · rw [UInt64.le_iff_toNat_le, h.count]
      exact hpos
  have hlists : ((t.node a).value,
      lists { t with links := t.links.del (.node a), count := t.count - 1 }
        fun j => (xs j).erase a) = hashtableDelete (t.lists xs) (t.node a).key := by
    -- keys are in one place, so a search for the key of `a` finds `a`
    have hfind : ((t.lists xs).buckets (hashPtr (t.node a).key (t.lists xs).size)).find?
        (·.key = (t.node a).key) = some (t.node a) := by
      rcases h.find_cases (t.node a).key with ⟨b, hb, hkey, hfind, -⟩ | ⟨-, hnone⟩
      · obtain rfl := h.key_inj hb ha hkey
        refine (h.lists_find _).trans ?_
        rw [hfind]
        rfl
      · exact absurd rfl (Hashtable.get_eq_none.mp hnone (t.node a) (List.mem_map_of_mem (hi ▸ ha)))
    unfold hashtableDelete
    dsimp only
    rw [hfind]
    refine congrArg (Prod.mk _) ?_
    unfold Hashtable.setBucket lists
    congr 1
    · funext j
      rw [Function.update_apply]
      split
      · rename_i hj
        rw [hj]
        exact map_erase_node (hi ▸ ha) (h.keys_nodup _)
      · rename_i hj
        refine congrArg (List.map t.node) (List.erase_of_not_mem fun hmem => ?_)
        exact hj (h.bucket_eq hmem).symm
    · rw [hcount, List.length_erase_of_mem hlive, h.count]
  refine ⟨⟨h.size, ?_, ?_, fun b => ?_, h.nodup.erase a, ?_, hcount⟩, hlists⟩
  · have hdel := h.circles.del (h.bucket_lt ha) (List.mem_map_of_mem ha)
    simp only [Links.erase_map BucketLink.node_injective] at hdel
    exact hdel
  · have hvalid := h.valid.delete (t.node a).key
    rwa [← hlists] at hvalid
  · rw [h.nodup.mem_erase_iff, h.mem, ← exists_and_left]
    exact exists_congr fun j => ((h.keys_nodup j).of_map.mem_erase_iff).symm
  · exact fun hmem => h.nonnull (List.mem_of_mem_erase hmem)

/-- Others write to memory that is not theirs. -/
theorem foreign (h : t.Represents live xs) (ha : a ∉ live) (next prev : BucketLink)
    (node : HashNode) :
    (t.foreign a next prev node).Represents live xs
      ∧ (t.foreign a next prev node).lists xs = t.lists xs := by
  have hoff : ∀ j, a ∉ xs j := fun j hj => ha ((h.mem a).mpr ⟨j, hj⟩)
  have hlists : (t.foreign a next prev node).lists xs = t.lists xs := by
    unfold lists
    congr 1
    funext j
    refine List.map_congr_left fun b hb => Function.update_of_ne ?_ _ _
    rintro rfl
    exact hoff j hb
  refine ⟨⟨h.size, ?_, ?_, h.mem, h.nodup, h.nonnull, h.count⟩, hlists⟩
  · refine h.circles.congr (fun j _ c hc => ?_) fun j _ c hc => ?_
    · exact Function.update_of_ne (fun heq => not_mem_bucket (hoff j) (heq ▸ hc)) _ _
    · exact Function.update_of_ne (fun heq => not_mem_bucket (hoff j) (heq ▸ hc)) _ _
  · rw [hlists]
    exact h.valid

/-- **`hashtable_insert` on the links** does what it does on the lists. -/
theorem insert (h : t.Represents live xs) (key value : Addr) (hmem : memory ∉ live) :
    ∃ r, t.insert key value memory = some r ∧ ∃ xs',
      (r.1, r.2.lists xs') = hashtableInsert (t.lists xs) key value (memory ≠ 0)
      ∧ r.2.Represents (if t.find key = some none ∧ memory ≠ 0 then memory :: live else live)
        xs' := by
  unfold LinkedHashtable.insert
  rcases h.find_cases key with ⟨a, ha, rfl, hfind, -⟩ | ⟨hfind, hnone⟩
  · rw [hfind]
    obtain ⟨hrep, hlists⟩ := h.update ha value (memory ≠ 0)
    have hfound : ¬(some (some a) = some none ∧ memory ≠ 0) := fun hnew => nomatch hnew.1
    refine ⟨_, rfl, xs, hlists, ?_⟩
    rw [if_neg hfound]
    exact hrep
  · rw [hfind, Option.map_some]
    by_cases hmemory : memory = 0
    · refine ⟨(-ENOMEM, t), by rw [if_pos hmemory], xs, ?_, ?_⟩
      · rw [Hashtable.insert_new hnone, decide_eq_false (not_not_intro hmemory)]
        rfl
      · rw [if_neg fun hnew => hnew.2 hmemory]
        exact h
    · obtain ⟨hrep, hlists⟩ := h.add hnone hmem hmemory value
      have hnew : some (none : Option Addr) = some none ∧ memory ≠ 0 := ⟨rfl, hmemory⟩
      have hbool : decide (memory ≠ 0) = true := decide_eq_true hmemory
      rw [hbool, if_neg hmemory, if_pos hnew]
      exact ⟨_, rfl, _, hlists, hrep⟩

/-- **`hashtable_delete` on the links** does what it does on the lists. -/
theorem delete (h : t.Represents live xs) (key : Addr) :
    ∃ r, t.delete key = some r ∧ ∃ xs',
      (r.1, r.2.lists xs') = hashtableDelete (t.lists xs) key
      ∧ r.2.Represents (((t.find key).join.map live.erase).getD live) xs' := by
  unfold LinkedHashtable.delete
  rcases h.find_cases key with ⟨a, ha, rfl, hfind, -⟩ | ⟨hfind, hnone⟩
  · rw [hfind]
    obtain ⟨hrep, hlists⟩ := h.del ha
    exact ⟨_, rfl, _, hlists, hrep⟩
  · rw [hfind]
    refine ⟨_, rfl, xs, ?_, h⟩
    have hbucket : ((t.lists xs).buckets (hashPtr key (t.lists xs).size)).find? (·.key = key)
        = none := Option.map_eq_none_iff.mp hnone
    unfold hashtableDelete
    dsimp only
    rw [hbucket]

theorem lookup (h : t.Represents live xs) (key : Addr) :
    t.lookup key = some (hashtableLookup (t.lists xs) key) := by
  unfold LinkedHashtable.lookup
  rw [Hashtable.hashtableLookup_eq]
  rcases h.find_cases key with ⟨a, -, -, hfind, hget⟩ | ⟨hfind, hnone⟩
  · rw [hfind, hget]
    rfl
  · rw [hfind, hnone]
    rfl

end Represents

end LinkedHashtable

/-! ## A table in use -/

/-- The calls on a table, and the writes of others. -/
inductive HashOp
  | insert (key value memory : Addr)
  | lookup (key : Addr)
  | delete (key : Addr)
  | foreign (a : Addr) (next prev : BucketLink) (node : HashNode)
  deriving DecidableEq

/-- The table with the nodes that it has got from `kmalloc` and not given to `kfree`. -/
structure HashMachine where
  table : LinkedHashtable
  live : List Addr

/-- `kmalloc` does not return memory that is in use, and others do not write to it. -/
def HashOp.Ok (s : HashMachine) : HashOp → Prop
  | insert _ _ memory => memory ∉ s.live
  | foreign a _ _ _ => a ∉ s.live
  | lookup _ | delete _ => True

instance HashOp.decidableOk (s : HashMachine) (op : HashOp) : Decidable (op.Ok s) :=
  match op with
  | insert _ _ memory => inferInstanceAs (Decidable (memory ∉ s.live))
  | foreign a _ _ _ => inferInstanceAs (Decidable (a ∉ s.live))
  | lookup _ | delete _ => isTrue trivial

def HashMachine.next (s : HashMachine) : HashOp → Option HashMachine
  | .insert key value memory => (s.table.insert key value memory).map fun r =>
      ⟨r.2, if s.table.find key = some none ∧ memory ≠ 0 then memory :: s.live else s.live⟩
  | .lookup key => (s.table.lookup key).map fun _ => s
  | .delete key => (s.table.delete key).map fun r =>
      ⟨r.2, ((s.table.find key).join.map s.live.erase).getD s.live⟩
  | .foreign a next prev node => some ⟨s.table.foreign a next prev node, s.live⟩

/-- A finite map after a call: a key is inserted if it has a value already or there is memory
for it. -/
def HashOp.apply (m : Addr → Option Addr) : HashOp → Addr → Option Addr
  | insert key value memory =>
      if m key ≠ none ∨ memory ≠ 0 then Function.update m key (some value) else m
  | delete key => Function.update m key none
  | lookup _ | foreign _ _ _ _ => m

/-- What the calls have inserted last and not deleted since. -/
def latest (ops : List HashOp) : Addr → Option Addr := ops.foldl HashOp.apply fun _ => none

/-- The table is the map. -/
structure HoldsMap (t : LinkedHashtable) (m : Addr → Option Addr) : Prop where
  lookup : ∀ key, t.lookup key = some ((m key).getD 0)
  delete : ∀ key, (t.delete key).map Prod.fst = some ((m key).getD 0)
  insert : ∀ key value memory, m key ≠ none ∨ memory ≠ 0 →
    (t.insert key value memory).map Prod.fst = some 0
  /-- An insertion that cannot allocate changes nothing. -/
  full : ∀ key value, m key = none → t.insert key value 0 = some (-ENOMEM, t)
  /-- The links lead through the nodes of each bucket once; a node is in the bucket of its key,
  which no other node has. -/
  nodes : ∃ xs : Nat → List Addr,
    (∀ i < t.size, t.links.Circle (.bucket i) ((xs i).map .node)
      ∧ ∀ a ∈ xs i, hashPtr (t.node a).key t.size = i)
    ∧ (∀ i < t.size, ∀ j < t.size, ∀ a ∈ xs i, ∀ b ∈ xs j,
      (t.node a).key = (t.node b).key → a = b)
    ∧ ∀ key, m key ≠ none ↔ ∃ i < t.size, ∃ a ∈ xs i, (t.node a).key = key
  count : t.count.toNat = {key | m key ≠ none}.ncard

namespace HoldsMap

variable {t : LinkedHashtable} {live : List Addr} {xs : Nat → List Addr}

theorem of_represents (h : t.Represents live xs) : HoldsMap t (t.lists xs).get := by
  have hfst : ∀ key value memory,
      (t.lists xs).get key ≠ none ∨ memory ≠ 0 →
        (t.insert key value memory).map Prod.fst = some 0 := by
    intro key value memory hroom
    unfold LinkedHashtable.insert
    rcases h.find_cases key with ⟨a, -, -, hfind, -⟩ | ⟨hfind, hnone⟩
    · rw [hfind]
      rfl
    · rw [hfind, Option.map_some, if_neg (hroom.resolve_left (not_not_intro hnone))]
      rfl
  refine ⟨fun key => ?_, fun key => ?_, hfst, fun key value hnone => ?_, ⟨xs, ?_, ?_, ?_⟩, ?_⟩
  · rw [h.lookup, Hashtable.hashtableLookup_eq]
  · unfold LinkedHashtable.delete
    rcases h.find_cases key with ⟨a, -, -, hfind, hget⟩ | ⟨hfind, hnone⟩
    · rw [hfind, hget]
      rfl
    · rw [hfind, hnone]
      rfl
  · unfold LinkedHashtable.insert
    rcases h.find_cases key with ⟨a, -, -, -, hget⟩ | ⟨hfind, -⟩
    · rw [hnone] at hget
      cases hget
    · rw [hfind]
      rfl
  · exact fun i hi => ⟨h.circles.circle i hi, fun a ha => h.bucket_eq ha⟩
  · exact fun i _ j _ a ha b hb hkey => h.key_inj ha hb hkey
  · exact h.get_ne_none
  · -- the keys are those of the live nodes, each once
    have hkeys : {key | (t.lists xs).get key ≠ none}
        = (live.toFinset.image fun a => (t.node a).key) := by
      ext key
      rw [Set.mem_ofPred_eq, h.get_ne_none, Finset.mem_coe, Finset.mem_image]
      constructor
      · rintro ⟨i, -, a, ha, hkey⟩
        exact ⟨a, List.mem_toFinset.mpr ((h.mem a).mpr ⟨i, ha⟩), hkey⟩
      · rintro ⟨a, ha, hkey⟩
        obtain ⟨i, hi⟩ := (h.mem a).mp (List.mem_toFinset.mp ha)
        exact ⟨i, h.bucket_lt hi, a, hi, hkey⟩
    rw [hkeys, Set.ncard_coe_finset, Finset.card_image_of_injOn, List.toFinset_card_of_nodup h.nodup,
      h.count]
    intro a ha b hb hkey
    rw [Finset.mem_coe, List.mem_toFinset] at ha hb
    obtain ⟨i, hi⟩ := (h.mem a).mp ha
    obtain ⟨j, hj⟩ := (h.mem b).mp hb
    exact h.key_inj hi hj hkey

end HoldsMap

/-- The nodes are in the buckets that `xs` says, and the map is `m`. -/
def HashInv (s : HashMachine) (m : Addr → Option Addr) : Prop :=
  ∃ xs, s.table.Represents s.live xs ∧ (s.table.lists xs).get = m

/-- Every call keeps it. -/
theorem HashInv.step {s s' : HashMachine} {m : Addr → Option Addr} {op : HashOp} (h : HashInv s m)
    (hok : op.Ok s) (hnext : s.next op = some s') : HashInv s' (op.apply m) := by
  obtain ⟨xs, hrep, rfl⟩ := h
  cases op with
  | insert key value memory =>
      obtain ⟨r, hrun, xs', hlists, hrep'⟩ := hrep.insert key value hok
      rw [HashMachine.next, hrun] at hnext
      cases hnext
      refine ⟨xs', hrep', ?_⟩
      funext key'
      rw [show r.2.lists xs' = _ from congrArg Prod.snd hlists, Hashtable.get_insert]
      dsimp only [HashOp.apply]
      -- a new key needs a node; without one the table stays the same
      by_cases hroom : (s.table.lists xs).get key ≠ none ∨ memory ≠ 0
      · rw [if_pos hroom, Function.update_apply]
        simp only [decide_eq_true_eq, hroom, and_true]
      · rw [if_neg hroom, if_neg]
        simp only [decide_eq_true_eq]
        exact fun hboth => hroom hboth.2
  | lookup key =>
      rw [HashMachine.next, hrep.lookup] at hnext
      cases hnext
      exact ⟨xs, hrep, rfl⟩
  | delete key =>
      obtain ⟨r, hrun, xs', hlists, hrep'⟩ := hrep.delete key
      rw [HashMachine.next, hrun] at hnext
      cases hnext
      refine ⟨xs', hrep', ?_⟩
      funext key'
      rw [show r.2.lists xs' = _ from congrArg Prod.snd hlists, hrep.valid.get_delete]
      dsimp only [HashOp.apply]
      rw [Function.update_apply]
  | foreign a next prev node =>
      cases hnext
      obtain ⟨hrep', hlists⟩ := hrep.foreign hok next prev node
      exact ⟨xs, hrep', congrArg Hashtable.get hlists⟩

/-! ## Every run -/

/-- **The hash table refines a finite map**, for every hash of the keys and whatever `kmalloc`
returns. -/
theorem hashtable_refines_map {t : LinkedHashtable} {size : Nat} {memory : Bool} {ops : List HashOp}
    {s : HashMachine} (hinit : (t.init size memory).1 = 0)
    (run : Lts.Run (Lts.Steps HashMachine.next HashOp.Ok) ⟨(t.init size memory).2, []⟩ ops s) :
    HoldsMap s.table (latest ops) := by
  have hinv : HashInv s (latest ops) := by
    induction run with
    | refl =>
        obtain ⟨-, hrep⟩ := LinkedHashtable.represents_init t hinit
        exact ⟨fun _ => [], hrep, rfl⟩
    | tail _ last ih =>
        obtain ⟨op, hok, rfl, hnext⟩ := last
        have hstep := ih.step hok hnext
        rwa [latest, Option.toList_some, List.foldl_append]
  obtain ⟨xs, hrep, hmap⟩ := hinv
  rw [← hmap]
  exact .of_represents hrep

def garbageTable : LinkedHashtable :=
  ⟨⟨fun _ => .node 7, fun _ => .node 7⟩, fun _ => ⟨9, 9⟩, 0, 0⟩

/-- Three keys in two buckets; one is updated, one is deleted and its memory is written to and
used again, and one cannot be allocated. -/
def tableRun : List HashOp :=
  [.insert 1 10 4096, .insert 2 20 4160, .insert 3 30 4224, .insert 2 21 0, .delete 3,
    .foreign 4224 (.node 0) (.bucket 0) ⟨2, 5⟩, .insert 4 40 0, .lookup 4, .insert 5 50 4224,
    .delete 6]

theorem hashtable_refines_map_collisions :
    ∃ s, Lts.Run (Lts.Steps HashMachine.next HashOp.Ok)
      ⟨(garbageTable.init 2 true).2, []⟩ tableRun s ∧ HoldsMap s.table (latest tableRun) := by
  have hsome : (Lts.exec HashMachine.next HashOp.Ok ⟨(garbageTable.init 2 true).2, []⟩
      tableRun).isSome = true := by decide
  obtain ⟨s, hs⟩ := Option.isSome_iff_exists.mp hsome
  exact ⟨s, Lts.run_of_exec hs, hashtable_refines_map (by decide) (Lts.run_of_exec hs)⟩

end NoobKernel
