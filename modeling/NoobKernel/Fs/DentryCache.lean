import NoobKernel.Lib.Lts
import NoobKernel.Fs.Dentry

set_option autoImplicit false

/-! # What the dentry cache holds

`DentryStep` lets callers use the cache in any order. The invariant `Inv` follows the hash
table: each of its nodes is a live dentry under the key of that dentry. The table is indexed by
the hash of a key, and `dentry_lookup` takes the key itself for the index, which is never the
same (`hashPtr_ne`).
-/

namespace NoobKernel.Fs

/-! ## Runs -/

inductive DentryOp
  | alloc (memory : Addr) (nameMemory : Bool) (parent sb : Addr) (name : List UInt8)
  /-- a file system fills in the inode -/
  | fill (d inode : Addr)
  | get (d : Addr)
  | put (d : Addr)
  | insert (d : Addr) (memory : Bool)
  | free (d : Addr)
  deriving DecidableEq

/-- The slab allocator returns memory that is not in use, and callers pass live dentries. -/
def DentryOp.Valid (dc : Dcache) : DentryOp → Prop
  | alloc memory _ _ _ _ => memory = 0
      ∨ dc.live memory = false ∧ PM_START ≤ memory.toNat ∧ memory.toNat < PM_END
  | fill d _ | get d | put d | insert d _ | free d => dc.live d = true

/-- The return value, `0` for a pointer or none, and the cache. -/
def DentryOp.exec (dc : Dcache) : DentryOp → Int × Dcache
  | alloc memory nameMemory parent sb name =>
      match dentryAlloc dc memory nameMemory parent sb name with
      | (.ok _, dc) => (0, dc)
      | (.error e, dc) => (e, dc)
  | fill d inode =>
      (0, { dc with dentry := Function.update dc.dentry d { dc.dentry d with dInode := inode } })
  | get d => (0, dentryGet dc d)
  | put d => (0, dentryPut dc d)
  | insert d memory => dentryInsert dc d memory
  | free d => (0, dentryFree dc d)

/-- A call that callers of a kind make, with its result. -/
def DentryStep (ok : Dcache → DentryOp → Prop) (dc : Dcache) (e : Option (DentryOp × Int))
    (dc' : Dcache) : Prop :=
  ∃ op, ok dc op ∧ e = some (op, (op.exec dc).1) ∧ dc' = (op.exec dc).2

/-- A run of such callers from the empty cache. -/
def DentryRun (ok : Dcache → DentryOp → Prop) (es : List (DentryOp × Int)) (dc : Dcache) : Prop :=
  ∃ dentry list lru, Lts.Run (DentryStep ok) (dentryInit dentry list lru) es dc

/-- `dentry_insert(d)` has returned 0, and `d` has not been freed since. -/
def Inserted (es : List (DentryOp × Int)) (d : Addr) : Prop :=
  ∃ before memory after, es = before ++ (.insert d memory, 0) :: after ∧ (.free d, 0) ∉ after

/-! ## The hash table -/

/-- No key is the bucket that the table puts it into. -/
theorem hashPtr_ne {key : Nat} (h : key < 128) : hashPtr (UInt64.ofNat key) 128 ≠ key := by
  have key : ∀ k < 128, hashPtr (UInt64.ofNat k) 128 ≠ k := by decide +kernel
  exact key _ h

theorem hashPtr_lt (key : Addr) : hashPtr key 128 < 128 := by
  have h : hashPtr key 128 ≤ 128 - 1 := Nat.and_le_right
  exact Nat.lt_of_le_of_lt h (by decide)

structure Inv (dc : Dcache) : Prop where
  valid : dc.ht.Valid
  size : dc.ht.size = 128
  null : dc.live 0 = false
  name : ∀ d, dc.live d = true → (dc.dentry d).dName = qstrInit (dc.dentry d).dName.name
  node : ∀ i, ∀ n ∈ dc.ht.buckets i, dc.live n.value = true ∧ n.key = dc.key n.value

variable {dc dc' : Dcache} {d e : Addr}

theorem inv_init (dentry : Addr → Dentry) (list lru : Links Addr) :
    Inv (dentryInit dentry list lru) where
  valid := Hashtable.valid_init 128
  size := rfl
  null := rfl
  name := fun _ h => absurd h Bool.false_ne_true
  node := fun _ _ h => absurd h List.not_mem_nil

/-- The invariant reads the identity of the dentries, not what else they hold. -/
theorem Inv.congr (h : Inv dc) (hht : dc'.ht = dc.ht) (hlive : dc'.live = dc.live)
    (hid : ∀ d, (dc'.dentry d).dName = (dc.dentry d).dName ∧ (dc'.dentry d).dSb = (dc.dentry d).dSb
      ∧ (dc'.dentry d).dParent = (dc.dentry d).dParent) : Inv dc' := by
  have hkey : ∀ d, dc'.key d = dc.key d := by
    intro d
    obtain ⟨hname, hsb, hparent⟩ := hid d
    rw [Dcache.key, Dcache.key, dentryHashKey, dentryHashKey, hname, hsb, hparent, hht]
  refine ⟨hht ▸ h.valid, hht ▸ h.size, hlive ▸ h.null, fun d hd => ?_, fun i n hn => ?_⟩
  · rw [(hid d).1]
    exact h.name d (hlive ▸ hd)
  · rw [hlive, hkey]
    exact h.node i n (hht ▸ hn)

theorem key_congr (hsize : dc'.ht.size = dc.ht.size) (hid : dc'.dentry d = dc.dentry d) :
    dc'.key d = dc.key d := by
  rw [Dcache.key, Dcache.key, dentryHashKey, dentryHashKey, hid, hsize]

theorem Inv.alloc (h : Inv dc) (memory : Addr) (nameMemory : Bool) (parent sb : Addr)
    (name : List UInt8) (hfresh : memory = 0 ∨ dc.live memory = false) :
    Inv (dentryAlloc dc memory nameMemory parent sb name).2 := by
  unfold dentryAlloc
  split
  · exact h
  · rename_i hsome
    push Not at hsome
    have hdead : dc.live memory = false := hfresh.resolve_left hsome.1
    have hother : ∀ {d}, dc.live d = true → d ≠ memory := by
      rintro d hd rfl
      exact Bool.false_ne_true (hdead.symm.trans hd)
    refine ⟨h.valid, h.size, ?_, fun d hd => ?_, fun i n hn => ?_⟩
    · exact (Function.update_of_ne hsome.1.symm _ _).trans h.null
    · by_cases hmem : d = memory
      · subst hmem
        simp only [Function.update_self]
        rfl
      · have hd' : dc.live d = true := (Function.update_of_ne hmem _ _).symm.trans hd
        simp only [Function.update_of_ne hmem]
        exact h.name d hd'
    · obtain ⟨hlive, hkey⟩ := h.node i n hn
      refine ⟨(Function.update_of_ne (hother hlive) _ _).trans hlive, hkey.trans (Eq.symm ?_)⟩
      apply key_congr
      · rfl
      · exact Function.update_of_ne (hother hlive) _ _

theorem dentryFree_eq (hd : d ≠ 0) : dentryFree dc d = { dc with
    ht := (hashtableDelete dc.ht (dc.key d)).2
    list := dc.list.del d
    lru := dc.lru.del d
    count := dc.count - 1
    live := Function.update dc.live d false } := if_neg hd

theorem Inv.live_ne_zero (h : Inv dc) (hd : dc.live d = true) : d ≠ 0 := by
  rintro rfl
  exact Bool.false_ne_true (h.null.symm.trans hd)

theorem Inv.free (h : Inv dc) (hd : dc.live d = true) : Inv (dentryFree dc d) := by
  rw [dentryFree_eq (h.live_ne_zero hd)]
  refine ⟨h.valid.delete _, (Hashtable.delete_size _).trans h.size, ?_, fun e he => ?_,
    fun i n hn => ?_⟩
  · exact (Function.update_of_ne (h.live_ne_zero hd).symm _ _).trans h.null
  · have hne : e ≠ d := by
      rintro rfl
      exact Bool.false_ne_true ((Function.update_self _ _ _).symm.trans he)
    exact h.name e ((Function.update_of_ne hne _ _).symm.trans he)
  · obtain ⟨hmem, hkey⟩ := (h.valid.mem_delete _ i n).mp hn
    obtain ⟨hlive, hnode⟩ := h.node i n hmem
    have hne : n.value ≠ d := by
      intro heq
      exact hkey (hnode.trans (heq ▸ rfl))
    refine ⟨(Function.update_of_ne hne _ _).trans hlive, hnode.trans (Eq.symm ?_)⟩
    apply key_congr
    · exact Hashtable.delete_size _
    · rfl

/-- The table has no node under a key that it does not find. -/
theorem Inv.get_none (h : Inv dc) {key : Addr} (hnone : hashtableLookup dc.ht key = 0) :
    dc.ht.get key = none := by
  rw [Hashtable.hashtableLookup_eq] at hnone
  cases hget : dc.ht.get key with
  | none => rfl
  | some value =>
      rw [hget] at hnone
      obtain ⟨hlive, -⟩ := h.node _ _ (h.valid.get_eq_some.mp hget)
      exact absurd hnone (h.live_ne_zero hlive)

/-- How `dentry_insert` goes. -/
theorem dentryInsert_cases (dc : Dcache) (d : Addr) (memory : Bool) :
    (dentryInsert dc d memory).2 = dc ∧ (dentryInsert dc d memory).1 ≠ 0
      ∨ hashtableLookup dc.ht (dc.key d) = 0 ∧ dentryInsert dc d memory = (0, { dc with
        ht := (hashtableInsert dc.ht (dc.key d) d memory).2
        list := dc.list.add d 0
        count := dc.count + 1 }) := by
  have hinval : (-EINVAL : Int) ≠ 0 := by decide
  have hexist : (-EEXIST : Int) ≠ 0 := by decide
  unfold dentryInsert
  split
  · exact .inl ⟨rfl, hinval⟩
  split
  · exact .inl ⟨rfl, hinval⟩
  split
  · exact .inl ⟨rfl, hinval⟩
  simp only
  split
  · exact .inl ⟨rfl, hexist⟩
  · rename_i hnone
    exact .inr ⟨not_not.mp hnone, rfl⟩

theorem Inv.insert (h : Inv dc) (hd : dc.live d = true) (memory : Bool) :
    Inv (dentryInsert dc d memory).2 := by
  rcases dentryInsert_cases dc d memory with ⟨heq, -⟩ | ⟨hnone, heq⟩
  · rw [heq]
    exact h
  · rw [heq, Hashtable.insert_new (h.get_none hnone)]
    cases memory with
    | false => exact ⟨h.valid, h.size, h.null, h.name, h.node⟩
    | true =>
        refine ⟨h.valid.cons (h.get_none hnone) _, h.size, h.null, h.name, fun i n hn => ?_⟩
        have hn' : n ∈ (dc.ht.setBucket _ _ _).buckets i := hn
        rw [Hashtable.setBucket_buckets] at hn'
        split at hn'
        · rcases List.mem_cons.mp hn' with rfl | hn'
          · exact ⟨hd, rfl⟩
          · exact h.node _ n hn'
        · exact h.node _ n hn'

/-- The parts of the cache that reference counting leaves alone. -/
def SameCache (dc dc' : Dcache) : Prop :=
  dc'.ht = dc.ht ∧ dc'.live = dc.live ∧ dc'.list = dc.list ∧ dc'.count = dc.count
    ∧ ∀ d, dc'.dentry d = { dc.dentry d with dRefcnt := (dc'.dentry d).dRefcnt }

theorem SameCache.refl (dc : Dcache) : SameCache dc dc := ⟨rfl, rfl, rfl, rfl, fun _ => rfl⟩

theorem sameCache_setRefcnt (dc : Dcache) (d : Addr) (r : UInt32) :
    SameCache dc (dc.setRefcnt d r) := by
  refine ⟨rfl, rfl, rfl, rfl, fun e => ?_⟩
  unfold Dcache.setRefcnt
  by_cases he : e = d
  · subst he
    simp only [Function.update_self]
  · simp only [Function.update_of_ne he]

theorem sameCache_dentryGet (dc : Dcache) (d : Addr) : SameCache dc (dentryGet dc d) := by
  unfold dentryGet
  split
  · exact .refl dc
  · exact sameCache_setRefcnt dc d _

theorem sameCache_dentryPut (dc : Dcache) (d : Addr) : SameCache dc (dentryPut dc d) := by
  unfold dentryPut
  split
  · exact .refl dc
  · have h := sameCache_setRefcnt dc d ((dc.dentry d).dRefcnt - 1)
    simp only
    split
    · exact h
    · exact h

theorem Inv.same (h : Inv dc) (hsame : SameCache dc dc') : Inv dc' := by
  obtain ⟨hht, hlive, -, -, hid⟩ := hsame
  refine h.congr hht hlive fun d => ?_
  rw [hid d]
  exact ⟨rfl, rfl, rfl⟩

theorem Inv.exec (h : Inv dc) {op : DentryOp} (hop : op.Valid dc) : Inv (op.exec dc).2 := by
  cases op with
  | alloc memory nameMemory parent sb name =>
      have hinv := h.alloc memory nameMemory parent sb name (hop.imp_right And.left)
      rw [DentryOp.exec]
      split <;> (rename_i heq; rwa [heq] at hinv)
  | fill d inode =>
      refine h.congr rfl rfl fun e => ?_
      by_cases he : e = d
      · subst he
        simp [DentryOp.exec]
      · simp [DentryOp.exec, he]
  | get d => exact h.same (sameCache_dentryGet dc d)
  | put d => exact h.same (sameCache_dentryPut dc d)
  | insert d memory => exact h.insert hop memory
  | free d => exact h.free hop

theorem DentryRun.inv {es : List (DentryOp × Int)} (run : DentryRun DentryOp.Valid es dc) :
    Inv dc := by
  obtain ⟨dentry, list, lru, run⟩ := run
  refine run.invariant (inv_init dentry list lru) fun s e t hinv hstep => ?_
  obtain ⟨op, hop, -, rfl⟩ := hstep
  exact hinv.exec hop

/-! ## Visibility -/

/-- **A lookup finds nothing**: a dentry with the identity looked up has the key that indexes
the bucket, and is in another bucket. -/
theorem Inv.dentryLookup_eq_zero (h : Inv dc) (sb parent : Addr) (name : List UInt8) :
    dentryLookup dc sb parent (qstrInit name) = 0 := by
  unfold dentryLookup
  simp only
  split
  · rename_i n hfind
    exfalso
    have hmem := List.mem_of_find?_eq_some hfind
    have hmatch := List.find?_some hfind
    rw [decide_eq_true_iff] at hmatch
    obtain ⟨-, hsb, hparent, -, hname⟩ := hmatch
    obtain ⟨hlive, hkey⟩ := h.node _ n hmem
    have hbucket := h.valid.bucket _ n hmem
    have hsame : dentryHashKey dc (dc.dentry n.value).dSb (dc.dentry n.value).dParent
        (dc.dentry n.value).dName = dentryHashKey dc sb parent (qstrInit name) := by
      rw [h.name n.value hlive, hsb, hparent, hname]
      rfl
    rw [hkey, Dcache.key, hsame, h.size] at hbucket
    refine hashPtr_ne ?_ hbucket
    rw [dentryHashKey, h.size]
    exact hashPtr_lt _
  · rfl

theorem Inserted.concat {es : List (DentryOp × Int)} {e : DentryOp × Int}
    (h : Inserted (es ++ [e]) d) : (∃ memory, e = (.insert d memory, 0))
      ∨ Inserted es d ∧ e ≠ (.free d, 0) := by
  obtain ⟨before, memory, after, hes, hfree⟩ := h
  rcases List.eq_nil_or_concat after with rfl | ⟨after, last, rfl⟩
  · obtain ⟨-, hlast⟩ := List.append_inj' hes rfl
    exact .inl ⟨memory, List.head_eq_of_cons_eq hlast⟩
  · rw [List.concat_eq_append] at hes hfree
    have hsplit : es ++ [e] = (before ++ (.insert d memory, 0) :: after) ++ [last] := by
      rw [hes, List.append_assoc]
      rfl
    obtain ⟨hes', hlast⟩ := List.append_inj' hsplit rfl
    obtain rfl : e = last := List.head_eq_of_cons_eq hlast
    refine .inr ⟨⟨before, memory, after, hes', fun hmem => hfree ?_⟩, fun heq => hfree ?_⟩
    · exact List.mem_append_left _ hmem
    · rw [heq]
      exact List.mem_append_right _ (List.mem_singleton_self _)

/-- Nothing but `dentry_free` takes a dentry out of use. -/
theorem DentryOp.live_exec {op : DentryOp} (hd : dc.live d = true) (hop : op ≠ .free d) :
    (op.exec dc).2.live d = true := by
  cases op with
  | alloc memory nameMemory parent sb name =>
      have hlive : (dentryAlloc dc memory nameMemory parent sb name).2.live d = true := by
        unfold dentryAlloc
        split
        · exact hd
        · show Function.update dc.live memory true d = true
          rw [Function.update_apply]
          split
          · rfl
          · exact hd
      rw [DentryOp.exec]
      split <;> (rename_i heq; rwa [heq] at hlive)
  | fill => exact hd
  | get e => rw [DentryOp.exec, (sameCache_dentryGet dc e).2.1]; exact hd
  | put e => rw [DentryOp.exec, (sameCache_dentryPut dc e).2.1]; exact hd
  | insert e memory =>
      rw [DentryOp.exec]
      rcases dentryInsert_cases dc e memory with ⟨heq, -⟩ | ⟨-, heq⟩
      · rw [heq]; exact hd
      · rw [heq]; exact hd
  | free e =>
      -- another dentry is freed
      have hne : d ≠ e := fun heq => hop (heq ▸ rfl)
      rw [DentryOp.exec]
      unfold dentryFree
      split
      · exact hd
      · exact (Function.update_of_ne hne _ _).trans hd

theorem DentryRun.live {es : List (DentryOp × Int)} (run : DentryRun DentryOp.Valid es dc)
    (hd : Inserted es d) : dc.live d = true := by
  obtain ⟨dentry, list, lru, run⟩ := run
  induction run with
  | refl =>
      obtain ⟨before, memory, after, hes, -⟩ := hd
      exact absurd hes (by simp)
  | tail _ last ih =>
      obtain ⟨op, hop, rfl, rfl⟩ := last
      rcases hd.concat with ⟨memory, heq⟩ | ⟨hd, hne⟩
      · obtain rfl : op = .insert d memory := congrArg Prod.fst heq
        exact DentryOp.live_exec hop (by simp)
      · refine DentryOp.live_exec (ih hd) ?_
        rintro rfl
        exact hne rfl

/-- **Inserted dentries are invisible.** No lookup ever returns one under its own super block,
parent and name. -/
theorem dentryLookup_inserted {es : List (DentryOp × Int)} (run : DentryRun DentryOp.Valid es dc)
    (hd : Inserted es d) :
    dentryLookup dc (dc.dentry d).dSb (dc.dentry d).dParent (dc.dentry d).dName ≠ d := by
  have hinv := run.inv
  have hlive := run.live hd
  rw [hinv.name d hlive, hinv.dentryLookup_eq_zero]
  exact (hinv.live_ne_zero hlive).symm

/-! ## Runs of given calls -/

instance (dc : Dcache) (op : DentryOp) : Decidable (op.Valid dc) :=
  match op with
  | .alloc memory _ _ _ _ => inferInstanceAs (Decidable (memory = 0
      ∨ dc.live memory = false ∧ PM_START ≤ memory.toNat ∧ memory.toNat < PM_END))
  | .fill d _ | .get d | .put d | .insert d _ | .free d =>
      inferInstanceAs (Decidable (dc.live d = true))

section

variable (ok : Dcache → DentryOp → Prop) [∀ dc op, Decidable (ok dc op)]

/-- One more call, if its caller may make it. -/
def DentryOp.record (op : DentryOp) (s : List (DentryOp × Int) × Dcache) :
    Option (List (DentryOp × Int) × Dcache) :=
  if ok s.2 op then some (s.1 ++ [(op, (op.exec s.2).1)], (op.exec s.2).2) else none

/-- The calls, over zeroed memory. -/
def record (ops : List DentryOp) : Option (List (DentryOp × Int) × Dcache) :=
  ops.foldlM (fun s op => op.record ok s)
    ([], dentryInit (fun _ => ⟨⟨[], 0, 0⟩, 0, 0, 0, 0⟩) ⟨fun _ => 0, fun _ => 0⟩
      ⟨fun _ => 0, fun _ => 0⟩)

variable {ok}

theorem dentryRun_record {ops : List DentryOp} {es : List (DentryOp × Int)}
    (h : record ok ops = some (es, dc)) : DentryRun ok es dc := by
  refine ⟨fun _ => ⟨⟨[], 0, 0⟩, 0, 0, 0, 0⟩, ⟨fun _ => 0, fun _ => 0⟩, ⟨fun _ => 0, fun _ => 0⟩, ?_⟩
  induction ops using List.reverseRecOn generalizing es dc with
  | nil =>
      obtain ⟨rfl, rfl⟩ := Prod.mk.inj (Option.some.inj h)
      exact .refl
  | append_singleton ops op ih =>
      unfold record at h ih
      rw [List.foldlM_append, Option.bind_eq_bind, Option.bind_eq_some_iff] at h
      obtain ⟨s, hs, hop⟩ := h
      simp only [List.foldlM_cons, List.foldlM_nil, bind_pure] at hop
      rw [DentryOp.record] at hop
      split at hop
      · rename_i hok
        obtain ⟨rfl, rfl⟩ := Prod.mk.inj (Option.some.inj hop)
        exact (ih hs).tail (e := some (op, (op.exec s.2).1)) ⟨op, hok, rfl, rfl⟩
      · cases hop

end

/-- `/` of one super block and a file `a` in it, both inserted. -/
def fileInserted : List DentryOp :=
  [.alloc 0x80000000 true 0 0x1000 [47], .insert 0x80000000 true,
    .alloc 0x80000100 true 0x80000000 0x1000 [97], .insert 0x80000100 true]

/-- The file is inserted. -/
theorem dentryLookup_inserted_file : ∃ es dc, DentryRun DentryOp.Valid es dc ∧ Inserted es 0x80000100
    ∧ dentryLookup dc (dc.dentry 0x80000100).dSb (dc.dentry 0x80000100).dParent
      (dc.dentry 0x80000100).dName ≠ 0x80000100 := by
  have hes : (record DentryOp.Valid fileInserted).map Prod.fst = some (fileInserted.map fun op => (op, 0)) := by
    decide
  obtain ⟨⟨es, dc⟩, hrun, rfl⟩ := Option.map_eq_some_iff.mp hes
  have hd : Inserted (fileInserted.map fun op => (op, (0 : Int))) 0x80000100 :=
    ⟨(fileInserted.take 3).map fun op => (op, 0), true, [], rfl, List.not_mem_nil⟩
  exact ⟨_, dc, dentryRun_record hrun, hd, dentryLookup_inserted (dentryRun_record hrun) hd⟩

/-- The lookup of the inserted file returns `NULL`. -/
theorem not_visible : ¬∀ es dc d, DentryRun DentryOp.Valid es dc → Inserted es d →
    dentryLookup dc (dc.dentry d).dSb (dc.dentry d).dParent (dc.dentry d).dName = d := by
  intro h
  have hes : (record DentryOp.Valid fileInserted).map (fun s => (s.1, dentryLookup s.2
      (s.2.dentry 0x80000100).dSb (s.2.dentry 0x80000100).dParent (s.2.dentry 0x80000100).dName))
      = some (fileInserted.map fun op => (op, 0), 0) := by
    decide
  obtain ⟨⟨es, dc⟩, hrun, heq⟩ := Option.map_eq_some_iff.mp hes
  obtain ⟨rfl, hnull⟩ := Prod.mk.inj heq
  have hd : Inserted (fileInserted.map fun op => (op, (0 : Int))) 0x80000100 :=
    ⟨(fileInserted.take 3).map fun op => (op, 0), true, [], rfl, List.not_mem_nil⟩
  have := h _ dc 0x80000100 (dentryRun_record hrun) hd
  rw [hnull] at this
  exact absurd this (by decide)

/-! ## Duplicates -/

/-- The hash table holds the dentry. -/
def Cached (dc : Dcache) (d : Addr) : Prop := ∃ i, ∃ n ∈ dc.ht.buckets i, n.value = d

/-- The same super block, parent and name. -/
def SameIdentity (dc : Dcache) (d e : Addr) : Prop :=
  (dc.dentry d).dSb = (dc.dentry e).dSb ∧ (dc.dentry d).dParent = (dc.dentry e).dParent
    ∧ (dc.dentry d).dName.name = (dc.dentry e).dName.name

/-- `dentry_insert` refuses the dentry if the cache has one of the same identity, and only then;
otherwise, given memory, it takes it in and keeps the others. -/
def RejectsDuplicates (dc : Dcache) (d : Addr) : Prop :=
  (∀ memory, (dentryInsert dc d memory).1 = -EEXIST ↔ ∃ e, Cached dc e ∧ SameIdentity dc e d)
    ∧ ((¬∃ e, Cached dc e ∧ SameIdentity dc e d) → (dentryInsert dc d true).1 = 0
      ∧ ∀ e, Cached dc e → Cached (dentryInsert dc d true).2 e)

theorem Inv.cached_iff (h : Inv dc) : Cached dc d ↔ dc.ht.get (dc.key d) = some d := by
  constructor
  · rintro ⟨i, n, hn, rfl⟩
    rw [← (h.node i n hn).2]
    exact h.valid.get_of_mem hn
  · intro hget
    exact ⟨_, _, h.valid.get_eq_some.mp hget, rfl⟩

/-- What the table finds under a key is a dentry with that key. -/
theorem Inv.cached_of_get (h : Inv dc) {key : Addr} (hget : dc.ht.get key = some d) :
    Cached dc d ∧ dc.key d = key :=
  ⟨⟨_, _, h.valid.get_eq_some.mp hget, rfl⟩, (h.node _ _ (h.valid.get_eq_some.mp hget)).2.symm⟩

theorem Inv.cached_live (h : Inv dc) (hd : Cached dc d) : dc.live d = true := by
  obtain ⟨i, n, hn, rfl⟩ := hd
  exact (h.node i n hn).1

/-- The key is a function of the identity. -/
theorem Inv.key_eq (h : Inv dc) (hd : dc.live d = true) (he : dc.live e = true)
    (hsame : SameIdentity dc d e) : dc.key d = dc.key e := by
  obtain ⟨hsb, hparent, hname⟩ := hsame
  rw [Dcache.key, Dcache.key, h.name d hd, h.name e he, hsb, hparent, hname]

theorem Inv.insert_exists_iff (h : Inv dc) (hd : dc.live d = true) (hsb : (dc.dentry d).dSb ≠ 0)
    (hparent : (dc.dentry d).dParent ≠ 0) (memory : Bool) :
    (dentryInsert dc d memory).1 = -EEXIST ↔ dc.ht.get (dc.key d) ≠ none := by
  have hexist : (0 : Int) ≠ -EEXIST := by decide
  unfold dentryInsert
  rw [if_neg (h.live_ne_zero hd), if_neg hsb, if_neg hparent]
  simp only
  by_cases hnone : hashtableLookup dc.ht (dc.key d) = 0
  · rw [if_neg (not_not.mpr hnone), h.get_none hnone]
    exact iff_of_false hexist (not_not.mpr rfl)
  · rw [if_pos hnone]
    refine iff_of_true rfl fun hget => hnone ?_
    rw [Hashtable.hashtableLookup_eq, hget]
    rfl

/-- **Keys decide.** `dentry_insert` rejects exactly the duplicates as long as no dentry of
another identity has the key of the one inserted. -/
theorem rejectsDuplicates_iff {es : List (DentryOp × Int)} (run : DentryRun DentryOp.Valid es dc)
    (hd : dc.live d = true) (hsb : (dc.dentry d).dSb ≠ 0) (hparent : (dc.dentry d).dParent ≠ 0) :
    RejectsDuplicates dc d ↔ ∀ e, Cached dc e → dc.key e = dc.key d → SameIdentity dc e d := by
  have h := run.inv
  constructor
  · -- an insertion that finds `e` under the key rejects, so some duplicate is cached: it is `e`
    rintro ⟨hexists, -⟩ e he hkey
    have hget : dc.ht.get (dc.key d) = some e := hkey ▸ h.cached_iff.mp he
    obtain ⟨e', he', hsame⟩ := (hexists true).mp
      ((h.insert_exists_iff hd hsb hparent true).mpr (by rw [hget]; exact Option.some_ne_none e))
    have hget' : dc.ht.get (dc.key d) = some e' := by
      rw [← h.key_eq (h.cached_live he') hd hsame]
      exact h.cached_iff.mp he'
    obtain rfl : e = e' := Option.some.inj (hget.symm.trans hget')
    exact hsame
  · intro hkeys
    -- under the condition the table has an entry for the key exactly if a duplicate is cached
    have hiff : dc.ht.get (dc.key d) ≠ none ↔ ∃ e, Cached dc e ∧ SameIdentity dc e d := by
      constructor
      · intro hsome
        obtain ⟨e, hget⟩ := Option.ne_none_iff_exists'.mp hsome
        obtain ⟨he, hkey⟩ := h.cached_of_get hget
        exact ⟨e, he, hkeys e he hkey⟩
      · rintro ⟨e, he, hsame⟩
        rw [← h.key_eq (h.cached_live he) hd hsame, h.cached_iff.mp he]
        exact Option.some_ne_none e
    refine ⟨fun memory => (h.insert_exists_iff hd hsb hparent memory).trans hiff, fun hnone => ?_⟩
    have hget : dc.ht.get (dc.key d) = none := not_not.mp (mt hiff.mp hnone)
    have hlookup : hashtableLookup dc.ht (dc.key d) = 0 := by
      rw [Hashtable.hashtableLookup_eq, hget]
      rfl
    unfold dentryInsert
    rw [if_neg (h.live_ne_zero hd), if_neg hsb, if_neg hparent]
    simp only
    rw [if_neg (not_not.mpr hlookup), Hashtable.insert_new hget]
    refine ⟨rfl, ?_⟩
    rintro e ⟨i, n, hn, rfl⟩
    have hn' : n ∈ (dc.ht.setBucket (hashPtr (dc.key d) dc.ht.size) (⟨dc.key d, d⟩
        :: dc.ht.buckets (hashPtr (dc.key d) dc.ht.size)) (dc.ht.count + 1)).buckets i := by
      rw [Hashtable.setBucket_buckets]
      split
      · rename_i hi
        exact List.mem_cons_of_mem _ (hi ▸ hn)
      · exact hn
    exact ⟨i, n, hn', rfl⟩

/-- A file `b` next to the file `a`. -/
def fileAllocated : List DentryOp :=
  fileInserted ++ [.alloc 0x80000200 true 0x80000000 0x1000 [98]]

/-- The names `a` and `b` have different keys. -/
theorem rejectsDuplicates_iff_file : ∃ es dc, DentryRun DentryOp.Valid es dc
    ∧ (RejectsDuplicates dc 0x80000200
      ↔ ∀ e, Cached dc e → dc.key e = dc.key 0x80000200 → SameIdentity dc e 0x80000200) := by
  have hes : (record DentryOp.Valid fileAllocated).map (fun s => (s.2.live 0x80000200,
      (s.2.dentry 0x80000200).dSb, (s.2.dentry 0x80000200).dParent))
      = some (true, 0x1000, 0x80000000) := by
    decide
  obtain ⟨⟨es, dc⟩, hrun, heq⟩ := Option.map_eq_some_iff.mp hes
  obtain ⟨hlive, hid⟩ := Prod.mk.inj heq
  obtain ⟨hsb, hparent⟩ := Prod.mk.inj hid
  exact ⟨es, dc, dentryRun_record hrun, rejectsDuplicates_iff (dentryRun_record hrun) hlive
    (by rw [hsb]; decide) (by rw [hparent]; decide)⟩

/-- The name `af` has the key of `a`. -/
def collidingAllocated : List DentryOp :=
  fileInserted ++ [.alloc 0x80000200 true 0x80000000 0x1000 [97, 102]]

/-- It is refused, though there is no other `af`. -/
theorem not_rejectsDuplicates : ∃ es dc, DentryRun DentryOp.Valid es dc ∧ dc.live 0x80000200 = true
    ∧ (dc.dentry 0x80000200).dSb ≠ 0 ∧ (dc.dentry 0x80000200).dParent ≠ 0
    ∧ ¬RejectsDuplicates dc 0x80000200 := by
  have hes : (record DentryOp.Valid collidingAllocated).map (fun s => (s.2.live 0x80000200,
      s.2.dentry 0x80000200, (dentryInsert s.2 0x80000200 true).1,
      s.2.ht.get (s.2.key 0x80000200), (s.2.dentry 0x80000100).dName.name))
      = some (true, ⟨qstrInit [97, 102], 0, 0x1000, 0x80000000, 1⟩, -EEXIST, some 0x80000100,
        [97]) := by
    decide
  obtain ⟨⟨es, dc⟩, hrun, heq⟩ := Option.map_eq_some_iff.mp hes
  simp only [Prod.mk.injEq] at heq
  obtain ⟨hlive, hdentry, hret, hget, hname⟩ := heq
  have h := (dentryRun_record hrun).inv
  refine ⟨es, dc, dentryRun_record hrun, hlive, by rw [hdentry]; decide, by rw [hdentry]; decide, ?_⟩
  rintro ⟨hexists, -⟩
  obtain ⟨e, he, hsame⟩ := (hexists true).mp hret
  have hget' := h.cached_iff.mp he
  rw [h.key_eq (h.cached_live he) hlive hsame, hget] at hget'
  obtain rfl := Option.some.inj hget'
  have hnames := hsame.2.2
  rw [hname, hdentry] at hnames
  exact absurd hnames (by decide)

end NoobKernel.Fs
