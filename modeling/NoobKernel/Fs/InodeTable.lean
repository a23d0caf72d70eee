import NoobKernel.Lib.Lts
import NoobKernel.Fs.Inode

set_option autoImplicit false

/-! # What the inode table holds

Beside the cache, a history keeps what the calls of `inode_get` have returned, of inodes that are
not freed yet. `inode_free` counts down and unlinks by number whatever it is given, unless the
super block has `destroy_inode`, and then does neither. The table is exact (`Exact`) as long as
the inodes freed are those from `inode_get` in the first case and the others in the second
(`InodeFreeOk`), and there is memory for the nodes of the table.
-/

namespace NoobKernel.Fs

/-! ## Runs -/

/-- What a call of `inode_get` has returned, and for what. -/
structure Got where
  inode : Addr
  sb : Addr
  ino : UInt64
  deriving DecidableEq

structure InodeHistory where
  cache : Icache
  got : List Got
  /-- numbers whose entry `destroy_inode` has left in the table -/
  left : List UInt64

inductive InodeOp
  | alloc (sb memory : Addr)
  | get (sb : Addr) (ino : UInt64) (memory : Addr) (nodeMemory : Bool)
  | put (a : Addr) (drop : Int)
  | free (a : Addr)
  deriving DecidableEq

/-- Memory that is not in use. -/
def FreshInode (ic : Icache) (memory : Addr) : Prop :=
  ic.live memory = false ∧ PM_START ≤ memory.toNat ∧ memory.toNat < PM_END

instance decidableFreshInode (ic : Icache) (memory : Addr) : Decidable (FreshInode ic memory) :=
  inferInstanceAs (Decidable (_ ∧ _))

section

variable (ops : Addr → SuperOperations)

/-- Allocators return memory that is not in use, if any; `alloc_inode` may return an error. -/
def AllocOk (ic : Icache) (sb memory : Addr) : Prop :=
  (memory = 0 ∨ (ops sb).allocInode = true ∧ sb ≠ 0 ∧ isErr memory = true)
    ∨ FreshInode ic memory

instance decidableAllocOk (ic : Icache) (sb memory : Addr) : Decidable (AllocOk ops ic sb memory) :=
  inferInstanceAs (Decidable (_ ∨ _))

/-- Callers pass inodes that are live. -/
def InodeOp.Valid (ic : Icache) : InodeOp → Prop
  | alloc sb memory | get sb _ memory _ => AllocOk ops ic sb memory
  | put a _ | free a => ic.live a = true

/-- After a call that may have freed `a`. -/
def InodeHistory.close (h : InodeHistory) (a : Addr) (ic : Icache) : InodeHistory :=
  let ino := (h.cache.inode a).iIno
  if ic.live a then { h with cache := ic }
  else
    { cache := ic
      got := h.got.filter (·.inode ≠ a)
      left :=
        if h.cache.destroys ops a = false then h.left.filter (· ≠ ino)
        else if hashtableLookup h.cache.ht ino = a then ino :: h.left
        else h.left }

def InodeOp.exec (h : InodeHistory) : InodeOp → Option InodeHistory
  | alloc sb memory => some { h with cache := (inodeAlloc ops h.cache sb memory).2 }
  | get sb ino memory nodeMemory =>
      match inodeGet ops h.cache sb ino memory nodeMemory with
      | none => none
      | some (a, ic) =>
          some { h with cache := ic, got := if isErr a then h.got else ⟨a, sb, ino⟩ :: h.got }
  | put a drop => some (h.close ops a (inodePut ops h.cache a drop))
  | free a => some (h.close ops a (inodeFree ops h.cache a))

/-- A run, over any memory, under the condition `ok` on its operations. -/
abbrev InodeRun (ok : InodeHistory → InodeOp → Prop) (inode : Addr → Inode) (list : Links Addr)
    (as : List InodeOp) (h : InodeHistory) : Prop :=
  Lts.Run (Lts.Steps (InodeOp.exec ops) ok) ⟨inodeInit inode list, [], []⟩ as h

/-! ## Exactness -/

/-- The inode comes from `inode_get` and has not been freed since. -/
def InodeHistory.Obtained (h : InodeHistory) (a : Addr) : Prop := ∃ r ∈ h.got, r.inode = a

instance decidableObtained (h : InodeHistory) (a : Addr) : Decidable (h.Obtained a) :=
  inferInstanceAs (Decidable (∃ r ∈ h.got, _))

structure Exact (h : InodeHistory) : Prop where
  table : ∀ key a, h.cache.ht.get key = some a ↔ h.Obtained a ∧ (h.cache.inode a).iIno = key
  list : ∃ xs, h.cache.list.Circle 0 xs ∧ (∀ a, a ∈ xs ↔ h.Obtained a)
    ∧ h.cache.count.toNat = xs.length

/-- The inode is freed through `destroy_inode` if it does not come from `inode_get`. -/
def InodeFreeOk (h : InodeHistory) (a : Addr) : Prop :=
  h.cache.destroys ops a = false ↔ h.Obtained a

/-- The last reference is put, and the inode not kept. -/
def PutFrees (ic : Icache) (a : Addr) (drop : Int) : Prop :=
  (ic.inode a).iRefcnt = 1 ∧ ¬(ic.drops ops a = true ∧ drop ≠ 0)

/-- The condition for exactness. -/
def InodeOp.Keeps (h : InodeHistory) : InodeOp → Prop
  | alloc _ _ => True
  | get _ ino memory nodeMemory =>
      h.cache.ht.get ino = none → FreshInode h.cache memory → nodeMemory = true
  | put a drop => PutFrees ops h.cache a drop → InodeFreeOk ops h a
  | free a => InodeFreeOk ops h a

def InodeOp.Careful (h : InodeHistory) (op : InodeOp) : Prop :=
  op.Valid ops h.cache ∧ op.Keeps ops h

end

section

variable (ops : Addr → SuperOperations) (h : InodeHistory)

instance decidableInodeValid (ic : Icache) : (op : InodeOp) → Decidable (op.Valid ops ic)
  | .alloc sb memory | .get sb _ memory _ => inferInstanceAs (Decidable (AllocOk ops ic sb memory))
  | .put a _ | .free a => inferInstanceAs (Decidable (ic.live a = true))

instance decidableInodeFreeOk (a : Addr) : Decidable (InodeFreeOk ops h a) := inferInstanceAs (Decidable (_ ↔ _))

instance decidablePutFrees (ic : Icache) (a : Addr) (drop : Int) : Decidable (PutFrees ops ic a drop) :=
  inferInstanceAs (Decidable (_ ∧ _))

instance decidableInodeKeeps : (op : InodeOp) → Decidable (op.Keeps ops h)
  | .alloc _ _ => .isTrue trivial
  | .get _ _ _ _ => inferInstanceAs (Decidable (_ → _ → _))
  | .put a drop => inferInstanceAs (Decidable (PutFrees ops h.cache a drop → InodeFreeOk ops h a))
  | .free a => inferInstanceAs (Decidable (InodeFreeOk ops h a))

instance decidableInodeCareful (op : InodeOp) : Decidable (op.Careful ops h) := inferInstanceAs (Decidable (_ ∧ _))

end

/-! ## The invariant -/

structure TableInv (h : InodeHistory) : Prop where
  exact : Exact h
  valid : h.cache.ht.Valid
  live : ∀ a, h.Obtained a → h.cache.live a = true
  memory : ∀ a, h.cache.live a = true → PM_START ≤ a.toNat ∧ a.toNat < PM_END

variable {ops : Addr → SuperOperations} {h h' : InodeHistory} {ic : Icache} {a b sb memory : Addr}
  {ino : UInt64}

theorem ne_zero_of_memory (ha : PM_START ≤ a.toNat ∧ a.toNat < PM_END) : a ≠ 0 := by
  rintro rfl
  exact absurd ha.1 (by decide)

theorem not_isErr_of_memory (ha : PM_START ≤ a.toNat ∧ a.toNat < PM_END) : isErr a = false := by
  refine decide_eq_false fun hle => ?_
  have hle' : (-MAX_ERRNO).toNat ≤ a.toNat := UInt64.le_iff_toNat_le.mp hle
  have hbig : PM_END ≤ (-MAX_ERRNO).toNat := by decide
  exact absurd ha.2 (Nat.not_lt.mpr (hbig.trans hle'))

theorem tableInv_init (inode : Addr → Inode) (list : Links Addr) :
    TableInv ⟨inodeInit inode list, [], []⟩ where
  exact := by
    constructor
    · intro key a
      exact iff_of_false nofun nofun
    · exact ⟨[], Links.circle_init list 0, fun a => iff_of_false nofun nofun, rfl⟩
  valid := Hashtable.valid_init 64
  live _ := nofun
  memory _ := nofun

/-- How `inode_alloc` goes. -/
theorem inodeAlloc_cases (hvalid : AllocOk ops ic sb memory) :
    (¬FreshInode ic memory ∧ ∃ e, inodeAlloc ops ic sb memory = (e, ic) ∧ (e = 0 ∨ isErr e = true))
      ∨ (FreshInode ic memory ∧ inodeAlloc ops ic sb memory = (memory, ic.construct sb memory)) := by
  by_cases hfresh : FreshInode ic memory
  · have hzero := ne_zero_of_memory hfresh.2
    have herr := not_isErr_of_memory hfresh.2
    refine .inr ⟨hfresh, ?_⟩
    have hneither : ¬(isErr memory = true ∨ memory = 0) := by simp [herr, hzero]
    rw [inodeAlloc, if_neg hzero, if_neg hneither, ite_self]
  · refine .inl ⟨hfresh, ?_⟩
    unfold inodeAlloc
    rcases hvalid.resolve_right hfresh with rfl | ⟨hops, hsb, herr⟩
    · split
      · exact ⟨0, if_pos (.inr rfl), .inl rfl⟩
      · exact ⟨ptrENOMEM, if_pos rfl, .inr (by decide)⟩
    · rw [if_pos ⟨hsb, hops⟩]
      exact ⟨memory, if_pos (.inl herr), .inr herr⟩

/-- The cache after the second section of `inode_get`. -/
abbrev InodeHistory.entered (h : InodeHistory) (sb : Addr) (ino : UInt64) (memory : Addr)
    (nodeMemory : Bool) : InodeHistory :=
  { h with
    cache := inodeGetInsert ((h.cache.construct sb memory).setIno memory ino) ino memory nodeMemory
    got := ⟨memory, sb, ino⟩ :: h.got }

/-- The history after `inode_get` has found an inode. -/
abbrev InodeHistory.hit (h : InodeHistory) (sb : Addr) (ino : UInt64) (a : Addr) : InodeHistory :=
  { h with
    cache := h.cache.setRefcnt a ((h.cache.inode a).iRefcnt + 1)
    got := ⟨a, sb, ino⟩ :: h.got }

/-- How `inode_get` goes: it finds an inode, or it gets no memory, or it enters a new one. -/
theorem exec_get_cases {nodeMemory : Bool}
    (hmemory : ∀ a, h.cache.ht.get ino = some a → PM_START ≤ a.toNat ∧ a.toNat < PM_END)
    (hvalid : (InodeOp.get sb ino memory nodeMemory).Valid ops h.cache)
    (hexec : (InodeOp.get sb ino memory nodeMemory).exec ops h = some h') :
    (∃ a, h.cache.ht.get ino = some a ∧ h' = h.hit sb ino a)
      ∨ (h.cache.ht.get ino = none ∧ ¬FreshInode h.cache memory ∧ h' = h)
      ∨ (h.cache.ht.get ino = none ∧ FreshInode h.cache memory
        ∧ h' = h.entered sb ino memory nodeMemory) := by
  rw [InodeOp.exec, inodeGet, inodeGetLookup, Hashtable.hashtableLookup_eq] at hexec
  cases hget : h.cache.ht.get ino with
  | none =>
      rw [hget] at hexec
      simp only [Option.getD_none, ne_eq, not_true_eq_false, if_false] at hexec
      rcases inodeAlloc_cases hvalid with ⟨hfresh, e, halloc, he⟩ | ⟨hfresh, halloc⟩
      · -- no memory: `inode_get` returns what `inode_alloc` does
        rw [halloc] at hexec
        refine .inr (.inl ⟨rfl, hfresh, ?_⟩)
        rcases he with rfl | he
        · have hnull : isErr 0 = false := by decide
          simp [hnull] at hexec
        · simp only [he, if_true, Option.some_inj] at hexec
          exact hexec.symm
      · rw [halloc] at hexec
        have hzero := ne_zero_of_memory hfresh.2
        have herr := not_isErr_of_memory hfresh.2
        simp only [herr, hzero, Bool.false_eq_true, if_false, Option.some_inj] at hexec
        exact .inr (.inr ⟨rfl, hfresh, hexec.symm⟩)
  | some a =>
      have hzero := ne_zero_of_memory (hmemory a hget)
      have herr := not_isErr_of_memory (hmemory a hget)
      rw [hget] at hexec
      simp only [Option.getD_some, ne_eq, hzero, not_false_eq_true, if_true, herr,
        Bool.false_eq_true, if_false, Option.some_inj] at hexec
      exact .inl ⟨a, rfl, hexec.symm⟩

/-- Exactness depends on the table, on the list and on the numbers of the inodes obtained. -/
theorem Exact.congr (he : Exact h) (hobt : ∀ a, h'.Obtained a ↔ h.Obtained a)
    (hht : h'.cache.ht = h.cache.ht) (hlist : h'.cache.list = h.cache.list)
    (hcount : h'.cache.count = h.cache.count)
    (hino : ∀ a, h.Obtained a → (h'.cache.inode a).iIno = (h.cache.inode a).iIno) : Exact h' := by
  constructor
  · intro key a
    rw [hht, he.table, hobt]
    refine and_congr_right fun ha => ?_
    rw [hino a ha]
  · obtain ⟨xs, hcircle, hmem, hlen⟩ := he.list
    refine ⟨xs, hlist ▸ hcircle, fun a => (hmem a).trans (hobt a).symm, ?_⟩
    rw [hcount]
    exact hlen

/-- A reference count is changed. -/
theorem TableInv.setRefcnt (hi : TableInv h) (a : Addr) (refcnt : UInt32) :
    TableInv { h with cache := h.cache.setRefcnt a refcnt } where
  exact := by
    refine hi.exact.congr (fun _ => Iff.rfl) rfl rfl rfl fun b _ => ?_
    show (Function.update h.cache.inode a _ b).iIno = _
    rw [Function.update_apply]
    split
    · rename_i heq
      rw [heq]
    · rfl
  valid := hi.valid
  live := hi.live
  memory := hi.memory

/-- The values of the table lie in memory. -/
theorem TableInv.get_memory (hi : TableInv h) (a : Addr) (hget : h.cache.ht.get ino = some a) :
    PM_START ≤ a.toNat ∧ a.toNat < PM_END :=
  hi.memory a (hi.live a ((hi.exact.table ino a).mp hget).1)

theorem TableInv.length_lt (hi : TableInv h) {xs : List Addr} (hcircle : h.cache.list.Circle 0 xs)
    (hmem : ∀ a, a ∈ xs ↔ h.Obtained a) : xs.length < 2 ^ 32 - 1 := by
  have hle := length_le_of_nodup (List.nodup_cons.mp hcircle.1).2
    fun a ha => hi.memory a (hi.live a ((hmem a).mp ha))
  have hsize : PM_END - PM_START < 2 ^ 32 - 1 := by decide
  omega

/-! ## Allocation -/

theorem live_construct (hlive : (ic.construct sb memory).live b = true) :
    b = memory ∨ ic.live b = true := by
  have hlive' : Function.update ic.live memory true b = true := hlive
  rw [Function.update_apply] at hlive'
  split at hlive'
  · exact .inl ‹_›
  · exact .inr hlive'

theorem TableInv.ne_fresh (hi : TableInv h) (hfresh : FreshInode h.cache memory)
    (ha : h.Obtained a) : a ≠ memory := by
  rintro rfl
  exact absurd (hi.live a ha) (by rw [hfresh.1]; decide)

/-- A new inode is not in the table. -/
theorem TableInv.construct (hi : TableInv h) (hfresh : FreshInode h.cache memory) (sb : Addr) :
    TableInv { h with cache := h.cache.construct sb memory } where
  exact := by
    constructor
    · intro key a
      refine (hi.exact.table key a).trans (and_congr_right fun ha => ?_)
      show _ ↔ (Function.update h.cache.inode memory _ a).iIno = key
      rw [Function.update_of_ne (hi.ne_fresh hfresh ha)]
    · obtain ⟨xs, hcircle, hmem, hlen⟩ := hi.exact.list
      refine ⟨xs, hcircle.init ?_, hmem, hlen⟩
      rintro (_ | ⟨_, hxs⟩)
      · exact ne_zero_of_memory hfresh.2 rfl
      · exact hi.ne_fresh hfresh ((hmem _).mp hxs) rfl
  valid := hi.valid
  live a ha := (Function.update_of_ne (hi.ne_fresh hfresh ha) _ _).trans (hi.live a ha)
  memory a ha := by
    rcases live_construct ha with rfl | ha
    · exact hfresh.2
    · exact hi.memory a ha

/-! ## `inode_get` -/

/-- An inode that is found was obtained before. -/
theorem TableInv.hit (hi : TableInv h) (hget : h.cache.ht.get ino = some a) (sb : Addr) :
    TableInv (h.hit sb ino a) := by
  have hobt : h.Obtained a := ((hi.exact.table ino a).mp hget).1
  have hsame : ∀ b, (h.hit sb ino a).Obtained b ↔ h.Obtained b := by
    intro b
    unfold InodeHistory.Obtained
    rw [List.exists_mem_cons_iff]
    refine or_iff_right_of_imp ?_
    rintro rfl
    exact hobt
  have hset := hi.setRefcnt a ((h.cache.inode a).iRefcnt + 1)
  refine ⟨hset.exact.congr hsame rfl rfl rfl fun _ _ => rfl, hset.valid, fun b hb => ?_, hset.memory⟩
  exact hset.live b ((hsame b).mp hb)

theorem InodeHistory.obtained_entered {nodeMemory : Bool} :
    (h.entered sb ino memory nodeMemory).Obtained a ↔ a = memory ∨ h.Obtained a := by
  unfold Obtained entered
  rw [List.exists_mem_cons_iff, eq_comm]

theorem InodeHistory.iIno_entered {nodeMemory : Bool} :
    ((h.entered sb ino memory nodeMemory).cache.inode a).iIno
      = if a = memory then ino else (h.cache.inode a).iIno := by
  show (Function.update (Function.update h.cache.inode memory _) memory _ a).iIno = _
  rw [Function.update_idem, Function.update_apply]
  split <;> rfl

theorem TableInv.entered (hi : TableInv h) (hfresh : FreshInode h.cache memory)
    (hnone : h.cache.ht.get ino = none) (sb : Addr) :
    TableInv (h.entered sb ino memory true) := by
  have hht : (h.entered sb ino memory true).cache.ht
      = h.cache.ht.setBucket (hashPtr ino h.cache.ht.size)
        (⟨ino, memory⟩ :: h.cache.ht.buckets (hashPtr ino h.cache.ht.size))
        (h.cache.ht.count + 1) := by
    show (hashtableInsert h.cache.ht ino memory true).2 = _
    rw [Hashtable.insert_new hnone, if_pos rfl]
  have hnew := hi.construct hfresh sb
  refine ⟨⟨fun key a => ?_, ?_⟩, ?_, fun a ha => ?_, hnew.memory⟩
  · rw [hht, Hashtable.get_cons, InodeHistory.obtained_entered, InodeHistory.iIno_entered]
    by_cases ha : a = memory
    · -- nothing led to the fresh memory before, so only its own number does now
      subst ha
      rw [if_pos rfl]
      split
      · rename_i heq
        exact iff_of_true rfl ⟨.inl rfl, heq.symm⟩
      · rename_i hne
        refine iff_of_false (fun hget => ?_) fun hand => hne hand.2.symm
        exact hi.ne_fresh hfresh ((hi.exact.table key a).mp hget).1 rfl
    · rw [if_neg ha, or_iff_right ha, ← hi.exact.table]
      split
      · rename_i heq
        rw [heq, hnone, Option.some_inj]
        exact iff_of_false (Ne.symm ha) nofun
      · exact Iff.rfl
  · obtain ⟨xs, hcircle, hmem, hlen⟩ := hnew.exact.list
    have hlt := hnew.length_lt hcircle hmem
    refine ⟨memory :: xs, hcircle.add ?_, fun a => ?_, ?_⟩
    · rintro (_ | ⟨_, hxs⟩)
      · exact ne_zero_of_memory hfresh.2 rfl
      · exact hi.ne_fresh hfresh ((hmem _).mp hxs) rfl
    · rw [List.mem_cons, hmem, InodeHistory.obtained_entered]
      exact Iff.rfl
    · show (h.cache.count + 1).toNat = _
      have hlen' : h.cache.count.toNat = xs.length := hlen
      rw [List.length_cons, UInt32.toNat_add, hlen']
      exact Nat.mod_eq_of_lt (Nat.lt_of_lt_of_le (Nat.succ_lt_succ hlt) (by decide))
  · rw [hht]
    exact hi.valid.cons hnone _
  · rcases InodeHistory.obtained_entered.mp ha with rfl | ha
    · exact Function.update_self _ _ _
    · exact hnew.live a ha

/-! ## `inode_free` -/

/-- The history after a free. -/
theorem InodeHistory.close_of_dead {h : InodeHistory} (hdead : ic.live a = false) :
    (h.close ops a ic).cache = ic ∧ (h.close ops a ic).got = h.got.filter (·.inode ≠ a) := by
  unfold close
  rw [hdead]
  exact ⟨rfl, rfl⟩

theorem InodeHistory.close_of_live {h : InodeHistory} (hlive : ic.live a = true) :
    h.close ops a ic = { h with cache := ic } := by
  unfold close
  rw [hlive]
  rfl

theorem inodeFree_cases (ha : a ≠ 0) : inodeFree ops ic a
    = if ic.destroys ops a then ic.release a else (inodeRemove ic a).release a := if_neg ha

theorem inodeFree_live (ha : a ≠ 0) : (inodeFree ops ic a).live a = false := by
  rw [inodeFree_cases ha]
  split <;> exact Function.update_self _ _ _

theorem InodeHistory.obtained_close {h : InodeHistory} (hdead : ic.live a = false) :
    (h.close ops a ic).Obtained b ↔ h.Obtained b ∧ b ≠ a := by
  unfold Obtained
  rw [(close_of_dead hdead).2]
  simp only [List.mem_filter, decide_eq_true_eq]
  constructor
  · rintro ⟨r, ⟨hr, hne⟩, rfl⟩
    exact ⟨⟨r, hr, rfl⟩, hne⟩
  · rintro ⟨⟨r, hr, rfl⟩, hne⟩
    exact ⟨r, ⟨hr, hne⟩, rfl⟩

theorem live_release (hlive : (ic.release a).live b = true) : b ≠ a ∧ ic.live b = true := by
  have hlive' : Function.update ic.live a false b = true := hlive
  rw [Function.update_apply] at hlive'
  split at hlive'
  · cases hlive'
  · exact ⟨‹_›, hlive'⟩

/-- Freed through `destroy_inode`: an inode that is not in the table. -/
theorem TableInv.destroyed (hi : TableInv h) (ha : ¬h.Obtained a) :
    TableInv (h.close ops a (h.cache.release a)) := by
  have hdead : (h.cache.release a).live a = false := Function.update_self _ _ _
  obtain ⟨hcache, hgot⟩ := @InodeHistory.close_of_dead ops _ a h hdead
  have hobt : ∀ b, (h.close ops a (h.cache.release a)).Obtained b ↔ h.Obtained b := by
    intro b
    rw [InodeHistory.obtained_close hdead]
    refine and_iff_left_of_imp ?_
    rintro hb rfl
    exact ha hb
  refine ⟨hi.exact.congr hobt ?_ ?_ ?_ fun b _ => ?_, ?_, fun b hb => ?_, fun b hb => ?_⟩
  · rw [hcache]; rfl
  · rw [hcache]; rfl
  · rw [hcache]; rfl
  · rw [hcache]; rfl
  · rw [hcache]; exact hi.valid
  · rw [hcache]
    have hb' := (hobt b).mp hb
    have hne : b ≠ a := by
      rintro rfl
      exact ha hb'
    exact (Function.update_of_ne hne _ _).trans (hi.live b hb')
  · rw [hcache] at hb
    exact hi.memory b (live_release hb).2

/-- The table after a removal by number. -/
theorem TableInv.get_remove (hi : TableInv h) (key : Addr) :
    (inodeRemove h.cache a).ht.get key
      = if key = (h.cache.inode a).iIno then none else h.cache.ht.get key :=
  hi.valid.get_delete _ key

/-- Freed without `destroy_inode`: an inode that is in the table. -/
theorem TableInv.removed (hi : TableInv h) (ha : h.Obtained a) :
    TableInv (h.close ops a ((inodeRemove h.cache a).release a)) := by
  have hdead : ((inodeRemove h.cache a).release a).live a = false := Function.update_self _ _ _
  obtain ⟨hcache, hgot⟩ := @InodeHistory.close_of_dead ops _ a h hdead
  have hget : h.cache.ht.get (h.cache.inode a).iIno = some a :=
    (hi.exact.table _ a).mpr ⟨ha, rfl⟩
  refine ⟨⟨fun key b => ?_, ?_⟩, ?_, fun b hb => ?_, fun b hb => ?_⟩
  · rw [InodeHistory.obtained_close hdead, hcache]
    show (inodeRemove h.cache a).ht.get key = _ ↔ _ ∧ (h.cache.inode b).iIno = key
    rw [hi.get_remove]
    split
    · rename_i hkey
      -- whatever has the number of `a` is `a`
      refine iff_of_false nofun ?_
      rintro ⟨⟨hb, hne⟩, hino⟩
      have hgetb := (hi.exact.table key b).mpr ⟨hb, hino⟩
      rw [hkey, hget] at hgetb
      exact hne (Option.some.inj hgetb).symm
    · rename_i hkey
      rw [hi.exact.table]
      refine ⟨fun ⟨hb, hino⟩ => ⟨⟨hb, ?_⟩, hino⟩, fun ⟨⟨hb, _⟩, hino⟩ => ⟨hb, hino⟩⟩
      rintro rfl
      exact hkey hino.symm
  · obtain ⟨xs, hcircle, hmem, hlen⟩ := hi.exact.list
    have hxs := (hmem a).mpr ha
    have hnodup := (List.nodup_cons.mp hcircle.1).2
    refine ⟨xs.erase a, ?_, fun b => ?_, ?_⟩
    · rw [hcache]
      exact hcircle.del hxs
    · rw [InodeHistory.obtained_close hdead, hnodup.mem_erase_iff, hmem, and_comm]
    · rw [hcache]
      show (h.cache.count - 1).toNat = _
      have hpos := List.length_pos_of_mem hxs
      have hle : (1 : UInt32) ≤ h.cache.count := by
        rw [UInt32.le_iff_toNat_le, hlen]
        exact hpos
      rw [List.length_erase_of_mem hxs, UInt32.toNat_sub_of_le _ _ hle, hlen]
      rfl
  · rw [hcache]
    exact hi.valid.delete _
  · rw [hcache]
    obtain ⟨hb, hne⟩ := (InodeHistory.obtained_close hdead).mp hb
    exact (Function.update_of_ne hne _ _).trans (hi.live b hb)
  · rw [hcache] at hb
    exact hi.memory b (live_release hb).2

theorem TableInv.free (hi : TableInv h) (ha : h.cache.live a = true) (hok : InodeFreeOk ops h a) :
    TableInv (h.close ops a (inodeFree ops h.cache a)) := by
  rw [inodeFree_cases (ne_zero_of_memory (hi.memory a ha))]
  cases hdestroys : h.cache.destroys ops a with
  | true =>
      refine hi.destroyed fun hobt => ?_
      have := hok.mpr hobt
      rw [hdestroys] at this
      cases this
  | false => exact hi.removed (hok.mp hdestroys)

/-- Otherwise the table is not exact any more. -/
theorem TableInv.not_exact_free (hi : TableInv h) (ha : h.cache.live a = true)
    (hok : ¬InodeFreeOk ops h a) : ¬Exact (h.close ops a (inodeFree ops h.cache a)) := by
  have hzero := ne_zero_of_memory (hi.memory a ha)
  have hdead := @inodeFree_live ops h.cache a hzero
  have hcache := (@InodeHistory.close_of_dead ops _ a h hdead).1
  intro he
  cases hdestroys : h.cache.destroys ops a with
  | true =>
      -- the entry stays
      have hobt : h.Obtained a := by
        by_contra hobt
        exact hok (iff_of_false (by rw [hdestroys]; decide) hobt)
      have hget := (hi.exact.table _ a).mpr ⟨hobt, rfl⟩
      have hsame : (h.close ops a (inodeFree ops h.cache a)).cache.ht = h.cache.ht := by
        rw [hcache, inodeFree_cases hzero, hdestroys]
        rfl
      rw [← hsame] at hget
      exact ((InodeHistory.obtained_close hdead).mp ((he.table _ a).mp hget).1).2 rfl
  | false =>
      -- the count goes down
      have hobt : ¬h.Obtained a := fun hobt => hok (iff_of_true hdestroys hobt)
      obtain ⟨xs, hcircle, hmem, hlen⟩ := hi.exact.list
      obtain ⟨ys, hcircle', hmem', hlen'⟩ := he.list
      have hperm : xs.Perm ys := by
        refine (List.perm_ext_iff_of_nodup (List.nodup_cons.mp hcircle.1).2
          (List.nodup_cons.mp hcircle'.1).2).mpr fun b => ?_
        rw [hmem, hmem', InodeHistory.obtained_close hdead]
        refine (and_iff_left_of_imp ?_).symm
        rintro hb rfl
        exact hobt hb
      have hcount : (h.close ops a (inodeFree ops h.cache a)).cache.count = h.cache.count - 1 := by
        rw [hcache, inodeFree_cases hzero, hdestroys]
        rfl
      rw [hcount, ← hperm.length_eq, ← hlen, UInt32.toNat_sub] at hlen'
      have hlt := h.cache.count.toNat_lt
      have hone : (1 : UInt32).toNat = 1 := rfl
      omega

/-! ## `inode_put` -/

/-- A change of the count leaves the identity. -/
theorem inode_setRefcnt (refcnt : UInt32) :
    ((ic.setRefcnt a refcnt).inode b) = { ic.inode b with
      iRefcnt := ((ic.setRefcnt a refcnt).inode b).iRefcnt } := by
  unfold Icache.setRefcnt Icache.setInode
  simp only [Function.update_apply]
  split
  · rename_i heq
    rw [heq]
  · rfl

theorem destroys_setRefcnt (refcnt : UInt32) :
    (ic.setRefcnt a refcnt).destroys ops b = ic.destroys ops b := by
  unfold Icache.destroys
  rw [inode_setRefcnt]

theorem drops_setRefcnt (refcnt : UInt32) :
    (ic.setRefcnt a refcnt).drops ops b = ic.drops ops b := by
  unfold Icache.drops
  rw [inode_setRefcnt]

theorem InodeHistory.close_setRefcnt (h : InodeHistory) (refcnt : UInt32) :
    ({ h with cache := h.cache.setRefcnt a refcnt } : InodeHistory).close ops b ic
      = h.close ops b ic := by
  unfold close
  rw [destroys_setRefcnt, inode_setRefcnt]
  rfl

/-- How `inode_put` goes. -/
theorem inodePut_frees {drop : Int} (ha : a ≠ 0) (hfrees : PutFrees ops ic a drop) :
    inodePut ops ic a drop = inodeFree ops (ic.setRefcnt a 0) a := by
  obtain ⟨hrefcnt, hdrop⟩ := hfrees
  unfold inodePut
  have hone : (1 : UInt32) - 1 = 0 := rfl
  rw [if_neg ha, hrefcnt]
  simp only [hone, if_true]
  rw [drops_setRefcnt]
  exact if_neg hdrop

theorem inodePut_keeps {drop : Int} (ha : a ≠ 0) (hfrees : ¬PutFrees ops ic a drop) :
    inodePut ops ic a drop = ic.setRefcnt a ((ic.inode a).iRefcnt - 1) := by
  unfold inodePut
  rw [if_neg ha]
  simp only
  split
  · rename_i hzero
    rw [drops_setRefcnt]
    refine if_pos ?_
    by_contra hdrop
    have hone := congrArg (· + 1) hzero
    simp only [UInt32.sub_add_cancel, UInt32.zero_add] at hone
    exact hfrees ⟨hone, hdrop⟩
  · rfl

/-! ## Careful runs -/

theorem InodeFreeOk.setRefcnt (refcnt : UInt32) :
    InodeFreeOk ops { h with cache := h.cache.setRefcnt a refcnt } b ↔ InodeFreeOk ops h b := by
  unfold InodeFreeOk
  rw [destroys_setRefcnt]
  rfl

theorem TableInv.exec (hi : TableInv h) {op : InodeOp} (hop : op.Careful ops h)
    (hexec : op.exec ops h = some h') : TableInv h' := by
  obtain ⟨hvalid, hkeeps⟩ := hop
  cases op with
  | alloc sb memory =>
      obtain rfl := Option.some.inj hexec
      rcases inodeAlloc_cases hvalid with ⟨-, e, halloc, -⟩ | ⟨hfresh, halloc⟩
      · rw [halloc]
        exact hi
      · rw [halloc]
        exact hi.construct hfresh sb
  | get sb ino memory nodeMemory =>
      rcases exec_get_cases hi.get_memory hvalid hexec with ⟨a, hget, rfl⟩ | ⟨-, -, rfl⟩
        | ⟨hnone, hfresh, rfl⟩
      · exact hi.hit hget sb
      · exact hi
      · have hmemory : nodeMemory = true := hkeeps hnone hfresh
        subst hmemory
        exact hi.entered hfresh hnone sb
  | put a drop =>
      obtain rfl := Option.some.inj hexec
      have ha : h.cache.live a = true := hvalid
      have hzero := ne_zero_of_memory (hi.memory a ha)
      -- the put frees the inode, or leaves it live with one reference less
      by_cases hfrees : PutFrees ops h.cache a drop
      · rw [inodePut_frees hzero hfrees, ← h.close_setRefcnt 0]
        exact (hi.setRefcnt a 0).free ha ((InodeFreeOk.setRefcnt 0).mpr (hkeeps hfrees))
      · have hlive : (h.cache.setRefcnt a ((h.cache.inode a).iRefcnt - 1)).live a = true := ha
        rw [inodePut_keeps hzero hfrees, InodeHistory.close_of_live hlive]
        exact hi.setRefcnt a _
  | free a =>
      obtain rfl := Option.some.inj hexec
      exact hi.free hvalid hkeeps

/-- An operation that is not careful leaves a table that is not exact. -/
theorem TableInv.not_exact (hi : TableInv h) {op : InodeOp} (hvalid : op.Valid ops h.cache)
    (hkeeps : ¬op.Keeps ops h) (hexec : op.exec ops h = some h') : ¬Exact h' := by
  cases op with
  | alloc sb memory => exact absurd trivial hkeeps
  | get sb ino memory nodeMemory =>
      unfold InodeOp.Keeps at hkeeps
      push Not at hkeeps
      obtain ⟨hnone, hfresh, hmemory⟩ := hkeeps
      obtain rfl : nodeMemory = false := Bool.eq_false_iff.mpr hmemory
      rcases exec_get_cases hi.get_memory hvalid hexec with ⟨a, hget, -⟩ | ⟨-, hstale, -⟩
        | ⟨-, -, rfl⟩
      · rw [hnone] at hget
        cases hget
      · exact absurd hfresh hstale
      · -- the new inode has no entry
        intro he
        have hget := (he.table ino memory).mpr
          ⟨InodeHistory.obtained_entered.mpr (.inl rfl), by
            rw [InodeHistory.iIno_entered, if_pos rfl]⟩
        have hht : (h.entered sb ino memory false).cache.ht = h.cache.ht := by
          show (hashtableInsert h.cache.ht ino memory false).2 = _
          rw [Hashtable.insert_new hnone, if_neg (by decide)]
        rw [hht, hnone] at hget
        cases hget
  | put a drop =>
      obtain rfl := Option.some.inj hexec
      have ha : h.cache.live a = true := hvalid
      unfold InodeOp.Keeps at hkeeps
      push Not at hkeeps
      obtain ⟨hfrees, hok⟩ := hkeeps
      rw [inodePut_frees (ne_zero_of_memory (hi.memory a ha)) hfrees, ← h.close_setRefcnt 0]
      exact (hi.setRefcnt a 0).not_exact_free ha fun hok' => hok ((InodeFreeOk.setRefcnt 0).mp hok')
  | free a =>
      obtain rfl := Option.some.inj hexec
      exact hi.not_exact_free hvalid hkeeps

/-- Only the entry of the inode that is freed goes. -/
def FreesEntry (ops : Addr → SuperOperations) (h : InodeHistory) (a : Addr) : Prop :=
  ∀ key b, (inodeFree ops h.cache a).ht.get key = some b ↔ h.cache.ht.get key = some b ∧ b ≠ a

theorem TableInv.freesEntry (hi : TableInv h) (ha : h.cache.live a = true)
    (hok : InodeFreeOk ops h a) : FreesEntry ops h a := by
  have hzero := ne_zero_of_memory (hi.memory a ha)
  have hdead := @inodeFree_live ops h.cache a hzero
  have hfree := (hi.free ha hok).exact.table
  have hcache := (@InodeHistory.close_of_dead ops _ a h hdead).1
  intro key b
  have hino : ((inodeFree ops h.cache a).inode b) = h.cache.inode b := by
    rw [inodeFree_cases hzero]
    split <;> rfl
  have hkey := hfree key b
  rw [InodeHistory.obtained_close hdead, hcache, hino] at hkey
  rw [hkey, hi.exact.table, and_right_comm]

section

variable {inode : Addr → Inode} {list : Links Addr} {as : List InodeOp}

/-- **The table is exact in careful runs**, in which each free takes out the entry of its inode
alone, and after one more operation exactly if that is careful too. -/
theorem inode_table_exact (run : InodeRun ops (InodeOp.Careful ops) inode list as h) :
    Exact h ∧ (∀ a, h.cache.live a = true → InodeFreeOk ops h a → FreesEntry ops h a)
      ∧ ∀ (op : InodeOp) h', op.Valid ops h.cache → op.exec ops h = some h' →
        (Exact h' ↔ op.Keeps ops h) := by
  have hi : TableInv h := run.invariant (tableInv_init inode list)
    fun _ _ _ hi ⟨_, hop, _, hexec⟩ => hi.exec hop hexec
  refine ⟨hi.exact, fun a => hi.freesEntry, fun op h' hvalid hexec => ⟨fun he => ?_, fun hkeeps => ?_⟩⟩
  · by_contra hkeeps
    exact hi.not_exact hvalid hkeeps hexec he
  · exact (hi.exec ⟨hvalid, hkeeps⟩ hexec).exact

end

/-- A super block with no operations of its own, and one with `destroy_inode`. -/
def plainOps : Addr → SuperOperations := fun _ => ⟨false, false, false⟩
def destroyOps : Addr → SuperOperations := fun _ => ⟨false, true, false⟩

/-- Zeroed memory. -/
def zeroInode : Addr → Inode := fun _ => { newInode 0 with iNlink := 0, iRefcnt := 0, iState := 0 }

/-- Two references to one inode, both of which are put. -/
def gotAndPut : List InodeOp :=
  [.get 0x1000 5 0x80000000 true, .get 0x1000 5 0 true, .put 0x80000000 0, .put 0x80000000 0]

theorem inode_table_exact_plain : ∃ h,
    InodeRun plainOps (InodeOp.Careful plainOps) zeroInode ⟨id, id⟩ gotAndPut h
    ∧ h.cache.count = 0 ∧ Exact h := by
  have hexec : (Lts.exec (InodeOp.exec plainOps) (InodeOp.Careful plainOps)
      ⟨inodeInit zeroInode ⟨id, id⟩, [], []⟩ gotAndPut).map (·.cache.count) = some 0 := by
    decide
  obtain ⟨h, hh, hcount⟩ := Option.map_eq_some_iff.mp hexec
  exact ⟨h, Lts.run_of_exec hh, hcount, (inode_table_exact (Lts.run_of_exec hh)).1⟩

/-- With `destroy_inode` the entry stays behind; and an inode that was not entered is counted off
when it is freed. -/
theorem inode_table_not_exact :
    (∃ h, InodeRun destroyOps (fun h op => op.Valid destroyOps h.cache) zeroInode ⟨id, id⟩
      gotAndPut h ∧ ¬Exact h)
    ∧ ∃ h, InodeRun plainOps (fun h op => op.Valid plainOps h.cache) zeroInode ⟨id, id⟩
      [.alloc 0x1000 0x80000000, .free 0x80000000] h ∧ ¬Exact h := by
  constructor
  · have hexec : (Lts.exec (InodeOp.exec destroyOps) (fun h op => op.Valid destroyOps h.cache)
        ⟨inodeInit zeroInode ⟨id, id⟩, [], []⟩ gotAndPut).map
          (fun h => (h.cache.ht.get 5, h.got)) = some (some 0x80000000, []) := by
      decide
    obtain ⟨h, hh, heq⟩ := Option.map_eq_some_iff.mp hexec
    obtain ⟨hget, hgot⟩ := Prod.mk.inj heq
    refine ⟨h, Lts.run_of_exec hh, fun he => ?_⟩
    obtain ⟨⟨r, hr, -⟩, -⟩ := (he.table _ _).mp hget
    rw [hgot] at hr
    cases hr
  · have hexec : (Lts.exec (InodeOp.exec plainOps) (fun h op => op.Valid plainOps h.cache)
        ⟨inodeInit zeroInode ⟨id, id⟩, [], []⟩ [.alloc 0x1000 0x80000000, .free 0x80000000]).map
          (fun h => (h.cache.count, h.got)) = some (0xffffffff, []) := by
      decide
    obtain ⟨h, hh, heq⟩ := Option.map_eq_some_iff.mp hexec
    obtain ⟨hcount, hgot⟩ := Prod.mk.inj heq
    refine ⟨h, Lts.run_of_exec hh, fun he => ?_⟩
    obtain ⟨xs, -, hmem, hlen⟩ := he.list
    have hxs : xs = [] := by
      refine List.eq_nil_iff_forall_not_mem.mpr fun a ha => ?_
      obtain ⟨r, hr, -⟩ := (hmem a).mp ha
      rw [hgot] at hr
      cases hr
    rw [hcount, hxs] at hlen
    exact absurd hlen (by decide)

end NoobKernel.Fs
