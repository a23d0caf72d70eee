import NoobKernel.Misc.Config

set_option autoImplicit false

/-! # Hash table (`misc/hashtable.c`)

The nodes of a bucket belong to the table alone, so a bucket is the list of its nodes. Keys and
values are pointers; the address `0` is `NULL`. Whether `kmalloc` has memory for a node is an
argument.

`Hashtable.get` is the map a table holds. It is a map as long as every node is in the bucket of
its key and no bucket has a key twice (`Hashtable.Valid`).
-/

namespace NoobKernel

/-- A pointer. -/
abbrev Addr := UInt64

/-- Distinct addresses in a range. -/
theorem length_le_of_nodup {xs : List Addr} {a b : Nat} (hnodup : xs.Nodup)
    (hrange : ∀ d ∈ xs, a ≤ d.toNat ∧ d.toNat < b) : xs.length ≤ b - a := by
  have hmap : (xs.map UInt64.toNat).Nodup := hnodup.map fun _ _ h => UInt64.toNat_inj.mp h
  have hsub : (xs.map UInt64.toNat).toFinset ⊆ Finset.Ico a b := by
    intro n hn
    obtain ⟨d, hd, rfl⟩ := List.mem_map.mp (List.mem_toFinset.mp hn)
    exact Finset.mem_Ico.mpr (hrange d hd)
  have hcard := Finset.card_le_card hsub
  rwa [List.toFinset_card_of_nodup hmap, List.length_map, Nat.card_Ico] at hcard

structure HashNode where
  key : Addr
  value : Addr
  deriving DecidableEq

structure Hashtable where
  buckets : Nat → List HashNode
  size : Nat
  count : Nat

/-- One round of the loop over the bytes of the key. -/
def hashByte (s : UInt32 × UInt64) : UInt32 × UInt64 :=
  ((s.1 ^^^ (s.2 &&& 0xFF).toUInt32) * 0x01000193, s.2 >>> 8)

/-- FNV-1a over the bytes of a pointer. -/
def hashPtr (key : Addr) (size : Nat) : Nat :=
  (hashByte^[8] (0x811C9DC5, key)).1.toNat &&& (size - 1)

/-- `none` is `-EINVAL`. -/
def hashtableInit (size : Nat) : Option Hashtable :=
  if size = 0 ∨ size &&& (size - 1) ≠ 0 then none else some ⟨fun _ => [], size, 0⟩

/-- The buckets with one of them replaced. -/
def Hashtable.setBucket (ht : Hashtable) (i : Nat) (nodes : List HashNode) (count : Nat) :
    Hashtable :=
  { ht with buckets := Function.update ht.buckets i nodes, count := count }

def hashtableInsert (ht : Hashtable) (key value : Addr) (memory : Bool) : Int × Hashtable :=
  let idx := hashPtr key ht.size
  if (ht.buckets idx).any (·.key = key) then
    (0, ht.setBucket idx ((ht.buckets idx).replaceF fun node =>
      if node.key = key then some { node with value := value } else none) ht.count)
  else if memory then (0, ht.setBucket idx (⟨key, value⟩ :: ht.buckets idx) (ht.count + 1))
  else (-ENOMEM, ht)

def hashtableLookup (ht : Hashtable) (key : Addr) : Addr :=
  match (ht.buckets (hashPtr key ht.size)).find? (·.key = key) with
  | some node => node.value
  | none => 0

def hashtableDelete (ht : Hashtable) (key : Addr) : Addr × Hashtable :=
  let idx := hashPtr key ht.size
  match (ht.buckets idx).find? (·.key = key) with
  | some node => (node.value, ht.setBucket idx ((ht.buckets idx).erase node) (ht.count - 1))
  | none => (0, ht)

namespace Hashtable

variable {ht : Hashtable} {key key' value : Addr}

/-! ## The map of a table -/

def get (ht : Hashtable) (key : Addr) : Option Addr :=
  ((ht.buckets (hashPtr key ht.size)).find? (·.key = key)).map HashNode.value

structure Valid (ht : Hashtable) : Prop where
  bucket : ∀ i, ∀ node ∈ ht.buckets i, hashPtr node.key ht.size = i
  nodup : ∀ i, ((ht.buckets i).map HashNode.key).Nodup

@[simp] theorem setBucket_size (i : Nat) (nodes : List HashNode) (count : Nat) :
    (ht.setBucket i nodes count).size = ht.size := rfl

theorem setBucket_buckets (i j : Nat) (nodes : List HashNode) (count : Nat) :
    (ht.setBucket i nodes count).buckets j = if j = i then nodes else ht.buckets j := by
  exact Function.update_apply _ _ _ _

theorem hashtableLookup_eq : hashtableLookup ht key = (ht.get key).getD 0 := by
  unfold hashtableLookup get
  cases (ht.buckets (hashPtr key ht.size)).find? (·.key = key) <;> rfl

theorem get_eq_none : ht.get key = none ↔ ∀ node ∈ ht.buckets (hashPtr key ht.size),
    node.key ≠ key := by
  unfold get
  rw [Option.map_eq_none_iff, List.find?_eq_none]
  refine forall₂_congr fun node _ => ?_
  rw [decide_eq_true_iff]

/-- A key has one node. -/
theorem Valid.get_eq_some (h : ht.Valid) :
    ht.get key = some value ↔ ⟨key, value⟩ ∈ ht.buckets (hashPtr key ht.size) := by
  have hnodup := h.nodup (hashPtr key ht.size)
  unfold get
  generalize ht.buckets (hashPtr key ht.size) = nodes at hnodup
  rw [Option.map_eq_some_iff]
  constructor
  · rintro ⟨node, hfind, rfl⟩
    have hkey := List.find?_some hfind
    rw [decide_eq_true_iff] at hkey
    rw [← hkey]
    exact List.mem_of_find?_eq_some hfind
  · intro hmem
    cases hfind : nodes.find? (·.key = key) with
    | none =>
        have := List.find?_eq_none.mp hfind _ hmem
        simp at this
    | some node =>
        have hkey := List.find?_some hfind
        rw [decide_eq_true_iff] at hkey
        have hnode := List.inj_on_of_nodup_map hnodup (List.mem_of_find?_eq_some hfind) hmem hkey
        exact ⟨node, rfl, by rw [hnode]⟩

/-- Nodes are in the bucket of their key. -/
theorem Valid.get_of_mem (h : ht.Valid) {i : Nat} {node : HashNode} (hmem : node ∈ ht.buckets i) :
    ht.get node.key = some node.value := by
  rw [h.get_eq_some, h.bucket i node hmem]
  exact hmem

theorem valid_init (size : Nat) : Valid ⟨fun _ => [], size, 0⟩ :=
  ⟨fun _ _ hmem => absurd hmem List.not_mem_nil, fun _ => List.nodup_nil⟩

/-! ## Operations -/

/-- An insertion of a new key. -/
theorem insert_new (hnone : ht.get key = none) (value : Addr) (memory : Bool) :
    hashtableInsert ht key value memory
      = if memory then (0, ht.setBucket (hashPtr key ht.size)
          (⟨key, value⟩ :: ht.buckets (hashPtr key ht.size)) (ht.count + 1))
        else (-ENOMEM, ht) := by
  unfold hashtableInsert
  refine if_neg ?_
  rw [List.any_eq_true]
  rintro ⟨node, hmem, hkey⟩
  exact get_eq_none.mp hnone node hmem (of_decide_eq_true hkey)

theorem Valid.cons (h : ht.Valid) (hnone : ht.get key = none) (count : Nat) :
    (ht.setBucket (hashPtr key ht.size) (⟨key, value⟩ :: ht.buckets (hashPtr key ht.size))
      count).Valid := by
  refine ⟨fun i node hmem => ?_, fun i => ?_⟩
  · rw [setBucket_buckets] at hmem
    split at hmem
    · rename_i hi
      rcases List.mem_cons.mp hmem with rfl | hmem
      · exact hi.symm
      · rw [hi]
        exact h.bucket _ node hmem
    · exact h.bucket i node hmem
  · rw [setBucket_buckets]
    split
    · rw [List.map_cons, List.nodup_cons]
      refine ⟨?_, h.nodup _⟩
      rw [List.mem_map]
      rintro ⟨node, hmem, hkey⟩
      exact get_eq_none.mp hnone node hmem hkey
    · exact h.nodup i

theorem get_cons (key' : Addr) (count : Nat) :
    (ht.setBucket (hashPtr key ht.size) (⟨key, value⟩ :: ht.buckets (hashPtr key ht.size))
      count).get key' = if key' = key then some value else ht.get key' := by
  unfold get
  rw [setBucket_buckets, setBucket_size]
  by_cases heq : key' = key
  · subst heq
    rw [if_pos rfl, if_pos rfl, List.find?_cons_of_pos (by simp)]
    rfl
  · rw [if_neg heq]
    split
    · rename_i hi
      rw [List.find?_cons_of_neg (by simpa using Ne.symm heq), hi]
    · rfl

/-- A deletion takes the node of the key out. -/
theorem Valid.mem_delete (h : ht.Valid) (key : Addr) (i : Nat) (node : HashNode) :
    node ∈ (hashtableDelete ht key).2.buckets i ↔ node ∈ ht.buckets i ∧ node.key ≠ key := by
  unfold hashtableDelete
  simp only
  cases hfind : (ht.buckets (hashPtr key ht.size)).find? (·.key = key) with
  | none =>
      have hnone : ht.get key = none := by
        rw [get, hfind]
        rfl
      refine ⟨fun hmem => ⟨hmem, ?_⟩, And.left⟩
      rintro rfl
      exact get_eq_none.mp hnone node ((h.bucket i node hmem).symm ▸ hmem) rfl
  | some found =>
      have hkey := List.find?_some hfind
      rw [decide_eq_true_iff] at hkey
      have hfound := List.mem_of_find?_eq_some hfind
      simp only
      rw [setBucket_buckets]
      split
      · rename_i hi
        subst hi
        rw [(h.nodup _).of_map.mem_erase_iff, and_comm]
        refine and_congr_right fun hmem => not_congr ⟨?_, fun hnode => ?_⟩
        · rintro rfl
          exact hkey
        · exact List.inj_on_of_nodup_map (h.nodup _) hmem hfound (hnode.trans hkey.symm)
      · rename_i hi
        refine ⟨fun hmem => ⟨hmem, ?_⟩, And.left⟩
        rintro rfl
        exact hi (h.bucket i node hmem).symm

@[simp] theorem delete_size (key : Addr) : (hashtableDelete ht key).2.size = ht.size := by
  unfold hashtableDelete
  simp only
  split <;> rfl

theorem Valid.delete (h : ht.Valid) (key : Addr) : (hashtableDelete ht key).2.Valid := by
  refine ⟨fun i node hmem => ?_, fun i => ?_⟩
  · rw [delete_size]
    exact h.bucket i node ((h.mem_delete key i node).mp hmem).1
  · have hnodup := h.nodup i
    unfold hashtableDelete
    simp only
    split
    · rw [setBucket_buckets]
      split
      · rename_i hi
        subst hi
        exact hnodup.sublist (List.erase_sublist.map _)
      · exact hnodup
    · exact hnodup

theorem Valid.get_delete (h : ht.Valid) (key key' : Addr) :
    (hashtableDelete ht key).2.get key' = if key' = key then none else ht.get key' := by
  have hiff : ∀ value, (hashtableDelete ht key).2.get key' = some value
      ↔ ht.get key' = some value ∧ key' ≠ key := by
    intro value
    rw [(h.delete key).get_eq_some, h.get_eq_some, delete_size, h.mem_delete]
  split
  · rename_i heq
    refine Option.eq_none_iff_forall_ne_some.mpr fun value hvalue => ?_
    exact ((hiff value).mp hvalue).2 heq
  · rename_i hne
    refine Option.ext fun value => (hiff value).trans ?_
    exact and_iff_left hne

/-- The update of a node, in a bucket. -/
theorem map_key_replaceF (nodes : List HashNode) (key value : Addr) :
    (nodes.replaceF fun node => if node.key = key then some { node with value := value } else none).map
      HashNode.key = nodes.map HashNode.key := by
  induction nodes with
  | nil => rfl
  | cons node nodes ih =>
      by_cases hkey : node.key = key
      · simp only [List.replaceF_cons, if_pos hkey, List.map_cons]
      · simp only [List.replaceF_cons, if_neg hkey, List.map_cons, ih]

theorem find_replaceF {nodes : List HashNode} (hany : ∃ node ∈ nodes, node.key = key)
    (key' : Addr) :
    ((nodes.replaceF fun node => if node.key = key then some { node with value := value }
        else none).find? (·.key = key')).map HashNode.value
      = if key' = key then some value else (nodes.find? (·.key = key')).map HashNode.value := by
  induction nodes with
  | nil =>
      obtain ⟨node, hmem, -⟩ := hany
      exact absurd hmem List.not_mem_nil
  | cons node nodes ih =>
      by_cases hkey : node.key = key
      · simp only [List.replaceF_cons, if_pos hkey]
        split
        · rename_i heq
          rw [List.find?_cons_of_pos (by simp [heq, hkey])]
          rfl
        · rename_i hne
          have hneg : node.key ≠ key' := fun heq => hne (heq.symm.trans hkey)
          rw [List.find?_cons_of_neg (by simpa using hneg),
            List.find?_cons_of_neg (by simpa using hneg)]
      · have hany' : ∃ node ∈ nodes, node.key = key := by
          obtain ⟨found, hmem, hfound⟩ := hany
          rcases List.mem_cons.mp hmem with rfl | hmem
          · exact absurd hfound hkey
          · exact ⟨found, hmem, hfound⟩
        simp only [List.replaceF_cons, if_neg hkey]
        by_cases hkey' : node.key = key'
        · rw [List.find?_cons_of_pos (by simpa using hkey'),
            List.find?_cons_of_pos (by simpa using hkey'),
            if_neg fun heq => hkey (hkey'.trans heq)]
        · rw [List.find?_cons_of_neg (by simpa using hkey'),
            List.find?_cons_of_neg (by simpa using hkey'), ih hany']

/-- An insertion enters the value, unless there is neither a node for it nor memory for one. -/
theorem get_insert (key value : Addr) (memory : Bool) (key' : Addr) :
    (hashtableInsert ht key value memory).2.get key'
      = if key' = key ∧ (ht.get key ≠ none ∨ memory = true) then some value else ht.get key' := by
  by_cases hnone : ht.get key = none
  · rw [insert_new hnone]
    cases memory with
    | false => rw [if_neg (by decide), if_neg (by simp [hnone])]
    | true =>
        rw [if_pos rfl, get_cons]
        simp only [or_true, and_true]
  · -- the key has a node, whose value is replaced
    have hany : ∃ node ∈ ht.buckets (hashPtr key ht.size), node.key = key := by
      by_contra hall
      push Not at hall
      exact hnone (get_eq_none.mpr hall)
    unfold hashtableInsert
    simp only
    rw [if_pos (by simpa using hany)]
    unfold get
    rw [setBucket_size, setBucket_buckets]
    have hsome : ((ht.buckets (hashPtr key ht.size)).find? (·.key = key)).map HashNode.value
        ≠ none := hnone
    simp only [hsome, ne_eq, not_false_eq_true, true_or, and_true]
    by_cases hidx : hashPtr key' ht.size = hashPtr key ht.size
    · rw [if_pos hidx, hidx]
      exact find_replaceF hany key'
    · rw [if_neg hidx, if_neg]
      rintro rfl
      exact hidx rfl

theorem Valid.insert (h : ht.Valid) (key value : Addr) (memory : Bool) :
    (hashtableInsert ht key value memory).2.Valid := by
  by_cases hnone : ht.get key = none
  · rw [insert_new hnone]
    cases memory with
    | false => exact h
    | true => exact h.cons hnone _
  · have hany : (ht.buckets (hashPtr key ht.size)).any (·.key = key) = true := by
      by_contra hall
      rw [List.any_eq_true] at hall
      push Not at hall
      exact hnone (get_eq_none.mpr fun node hmem hkey => hall node hmem (decide_eq_true hkey))
    unfold hashtableInsert
    simp only
    rw [if_pos hany]
    constructor
    · intro i node hmem
      rw [setBucket_buckets] at hmem
      split at hmem
      · rename_i hi
        have hkey := List.mem_map_of_mem (f := HashNode.key) hmem
        rw [map_key_replaceF] at hkey
        obtain ⟨old, hold, heq⟩ := List.mem_map.mp hkey
        rw [← heq, hi]
        exact h.bucket _ old hold
      · exact h.bucket i node hmem
    · intro i
      rw [setBucket_buckets]
      split
      · rw [map_key_replaceF]
        exact h.nodup _
      · exact h.nodup i

/-! ## The values of a table -/

theorem mem_of_mem_delete {i : Nat} {node : HashNode}
    (hmem : node ∈ (hashtableDelete ht key).2.buckets i) : node ∈ ht.buckets i := by
  unfold hashtableDelete at hmem
  simp only at hmem
  split at hmem
  · rw [setBucket_buckets] at hmem
    split at hmem
    · rename_i hi
      exact hi ▸ List.mem_of_mem_erase hmem
    · exact hmem
  · exact hmem

theorem value_of_mem_insert {memory : Bool} {i : Nat} {node : HashNode}
    (hmem : node ∈ (hashtableInsert ht key value memory).2.buckets i) :
    node.value = value ∨ node ∈ ht.buckets i := by
  unfold hashtableInsert at hmem
  simp only at hmem
  split at hmem
  · rw [setBucket_buckets] at hmem
    split at hmem
    · rename_i hi
      rw [hi]
      -- a node of the key gets the new value
      rcases List.exists_or_eq_self_of_replaceF _ (ht.buckets (hashPtr key ht.size)) with
        heq | ⟨old, new, before, after, -, hnew, hold, heq⟩
      · rw [heq] at hmem
        exact .inr hmem
      · rw [heq, List.mem_append, List.mem_cons] at hmem
        rw [hold]
        rcases hmem with hmem | rfl | hmem
        · exact .inr (List.mem_append_left _ hmem)
        · split at hnew
          · cases hnew
            exact .inl rfl
          · cases hnew
        · exact .inr (List.mem_append_right _ (List.mem_cons_of_mem _ hmem))
    · exact .inr hmem
  split at hmem
  · rw [setBucket_buckets] at hmem
    split at hmem
    · rename_i hi
      rcases List.mem_cons.mp hmem with rfl | hmem
      · exact .inl rfl
      · exact .inr (hi ▸ hmem)
    · exact .inr hmem
  · exact .inr hmem

end Hashtable

end NoobKernel
