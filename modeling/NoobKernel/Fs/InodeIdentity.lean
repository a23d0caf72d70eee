import NoobKernel.Fs.InodeTable

set_option autoImplicit false

/-! # The identity of inodes

An inode is that of a number of a super block, but the table is searched for the number alone.
What `inode_get` returns has the identity asked for (`Identified`) as long as the number is not
taken by another super block and its entry not left behind by `destroy_inode` (`SameSuper`).
-/

namespace NoobKernel.Fs

/-- What has been got is an inode of the super block and of the number asked for. -/
def Identified (h : InodeHistory) : Prop :=
  ∀ r ∈ h.got, h.cache.live r.inode = true ∧ (h.cache.inode r.inode).iSb = r.sb
    ∧ (h.cache.inode r.inode).iIno = r.ino

/-- The inode entered under the number, if any, is of the super block, and its entry has not been
left behind. -/
def SameSuper (h : InodeHistory) (sb : Addr) (ino : UInt64) : Prop :=
  ino ∉ h.left ∧ ∀ a ∈ h.cache.ht.get ino, (h.cache.inode a).iSb = sb

/-- `inode_get` under the condition, and `inode_put`. -/
def InodeOp.Identifies (h : InodeHistory) : InodeOp → Prop
  | get sb ino _ _ => SameSuper h sb ino
  | put _ _ => True
  | alloc _ _ | free _ => False

/-- `inode_get` and `inode_put` under no condition. -/
def InodeOp.getOrPut : InodeOp → Bool
  | get .. | put .. => true
  | alloc .. | free .. => false

variable {ops : Addr → SuperOperations} {h h' : InodeHistory} {a b sb memory : Addr} {ino : UInt64}

instance decidableSameSuper (h : InodeHistory) (sb : Addr) (ino : UInt64) :
    Decidable (SameSuper h sb ino) :=
  @instDecidableAnd _ _ inferInstance (Option.decidableForallMem _)

instance decidableIdentifies (h : InodeHistory) : (op : InodeOp) → Decidable (op.Identifies h)
  | .get sb ino _ _ => decidableSameSuper h sb ino
  | .put _ _ => .isTrue trivial
  | .alloc _ _ | .free _ => .isFalse id

/-! ## The invariant -/

structure IdentityInv (h : InodeHistory) : Prop where
  valid : h.cache.ht.Valid
  memory : ∀ a, h.cache.live a = true → PM_START ≤ a.toNat ∧ a.toNat < PM_END
  value : ∀ key a, h.cache.ht.get key = some a → PM_START ≤ a.toNat ∧ a.toNat < PM_END
  entry : ∀ key a, h.cache.ht.get key = some a → key ∉ h.left →
    h.cache.live a = true ∧ (h.cache.inode a).iIno = key
  /-- the entries left behind are those of no inode -/
  left : ∀ key ∈ h.left, ∃ a, h.cache.ht.get key = some a
    ∧ (h.cache.live a = true → (h.cache.inode a).iIno ≠ key)
  got : Identified h

theorem identityInv_init (inode : Addr → Inode) (list : Links Addr) :
    IdentityInv ⟨inodeInit inode list, [], []⟩ where
  valid := Hashtable.valid_init 64
  memory _ := nofun
  value _ _ := nofun
  entry _ _ := nofun
  left _ := nofun
  got _ := nofun

/-- A reference count is changed. -/
theorem IdentityInv.setRefcnt (hi : IdentityInv h) (a : Addr) (refcnt : UInt32) :
    IdentityInv { h with cache := h.cache.setRefcnt a refcnt } where
  valid := hi.valid
  memory := hi.memory
  value := hi.value
  entry key b hget hleft := by
    rw [inode_setRefcnt]
    exact hi.entry key b hget hleft
  left key hkey := by
    obtain ⟨b, hget, hb⟩ := hi.left key hkey
    refine ⟨b, hget, fun hlive => ?_⟩
    rw [inode_setRefcnt]
    exact hb hlive
  got r hr := by
    rw [inode_setRefcnt]
    exact hi.got r hr

/-! ## `inode_get` -/

theorem IdentityInv.hit (hi : IdentityInv h) (hget : h.cache.ht.get ino = some a)
    (hok : SameSuper h sb ino) : IdentityInv (h.hit sb ino a) := by
  have hset := hi.setRefcnt a ((h.cache.inode a).iRefcnt + 1)
  refine ⟨hset.valid, hset.memory, hset.value, hset.entry, hset.left, fun r hr => ?_⟩
  rcases List.mem_cons.mp hr with rfl | hr
  · rw [inode_setRefcnt]
    obtain ⟨hlive, hino⟩ := hi.entry ino a hget hok.1
    exact ⟨hlive, hok.2 a hget, hino⟩
  · exact hset.got r hr

/-- An entry of another super block, or one that was left behind, is not what was asked for. -/
theorem IdentityInv.not_identified_hit (hi : IdentityInv h) (hget : h.cache.ht.get ino = some a)
    (hok : ¬SameSuper h sb ino) : ¬Identified (h.hit sb ino a) := by
  intro hident
  have hr := hident ⟨a, sb, ino⟩ List.mem_cons_self
  rw [inode_setRefcnt] at hr
  obtain ⟨hlive, hsb, hino⟩ := hr
  refine hok ⟨fun hleft => ?_, fun b hb => ?_⟩
  · obtain ⟨b, hgetb, hb⟩ := hi.left ino hleft
    obtain rfl := Option.some.inj (hget.symm.trans hgetb)
    exact hb hlive hino
  · obtain rfl := Option.some.inj (hget.symm.trans hb)
    exact hsb

theorem get_entered {nodeMemory : Bool} (hnone : h.cache.ht.get ino = none) (key : UInt64) :
    (h.entered sb ino memory nodeMemory).cache.ht.get key
      = if key = ino ∧ nodeMemory = true then some memory else h.cache.ht.get key := by
  refine (Hashtable.get_insert ino memory nodeMemory key).trans ?_
  show (if key = ino ∧ (h.cache.ht.get ino ≠ none ∨ nodeMemory = true) then _ else _) = _
  simp only [hnone, ne_eq, not_true_eq_false, false_or]
  rfl

theorem IdentityInv.entered (hi : IdentityInv h) (hnone : h.cache.ht.get ino = none)
    (hfresh : FreshInode h.cache memory) (sb : Addr) (nodeMemory : Bool) :
    IdentityInv (h.entered sb ino memory nodeMemory) := by
  have hne : ∀ {a}, h.cache.live a = true → a ≠ memory := by
    rintro a ha rfl
    exact absurd ha (by rw [hfresh.1]; decide)
  have hold : ∀ {a}, a ≠ memory → (h.entered sb ino memory nodeMemory).cache.live a
      = h.cache.live a ∧ (h.entered sb ino memory nodeMemory).cache.inode a = h.cache.inode a := by
    intro a ha
    exact ⟨Function.update_of_ne ha _ _,
      (Function.update_of_ne ha _ _).trans (Function.update_of_ne ha _ _)⟩
  have hnew : (h.entered sb ino memory nodeMemory).cache.live memory = true
      ∧ ((h.entered sb ino memory nodeMemory).cache.inode memory).iSb = sb
      ∧ ((h.entered sb ino memory nodeMemory).cache.inode memory).iIno = ino := by
    refine ⟨Function.update_self _ _ _, ?_, ?_⟩
    · show (Function.update (Function.update h.cache.inode memory _) memory _ memory).iSb = sb
      rw [Function.update_self]
      show (Function.update h.cache.inode memory (newInode sb) memory).iSb = sb
      rw [Function.update_self]
      rfl
    · rw [InodeHistory.iIno_entered, if_pos rfl]
  constructor
  · exact hi.valid.insert ino memory nodeMemory
  · intro a ha
    by_cases hmem : a = memory
    · exact hmem ▸ hfresh.2
    · exact hi.memory a ((hold hmem).1 ▸ ha)
  · intro key a hget
    rw [get_entered hnone] at hget
    split at hget
    · obtain rfl := Option.some.inj hget
      exact hfresh.2
    · exact hi.value key a hget
  · intro key a hget hleft
    rw [get_entered hnone] at hget
    split at hget
    · rename_i hkey
      obtain rfl := Option.some.inj hget
      exact ⟨hnew.1, hnew.2.2.trans hkey.1.symm⟩
    · obtain ⟨hlive, hino⟩ := hi.entry key a hget hleft
      rw [(hold (hne hlive)).1, (hold (hne hlive)).2]
      exact ⟨hlive, hino⟩
  · intro key hkey
    obtain ⟨a, hget, ha⟩ := hi.left key hkey
    -- the number is another one, since it has an entry
    have hino : key ≠ ino := by
      rintro rfl
      rw [hnone] at hget
      cases hget
    refine ⟨a, ?_, fun hlive => ?_⟩
    · rw [get_entered hnone, if_neg fun hand => hino hand.1]
      exact hget
    · by_cases hmem : a = memory
      · rw [hmem, hnew.2.2]
        exact hino.symm
      · rw [(hold hmem).1] at hlive
        rw [(hold hmem).2]
        exact ha hlive
  · intro r hr
    rcases List.mem_cons.mp hr with rfl | hr
    · exact hnew
    · obtain ⟨hlive, hid⟩ := hi.got r hr
      rw [(hold (hne hlive)).1, (hold (hne hlive)).2]
      exact ⟨hlive, hid⟩

/-! ## `inode_put` -/

/-- What is got and not freed. -/
theorem IdentityInv.got_close (hi : IdentityInv h) {ic : Icache} (hdead : ic.live a = false)
    (hlive : ∀ b, b ≠ a → ic.live b = h.cache.live b) (hinode : ic.inode = h.cache.inode) :
    Identified (h.close ops a ic) := by
  obtain ⟨hcache, hgot⟩ := @InodeHistory.close_of_dead ops ic a h hdead
  intro r hr
  rw [hgot, List.mem_filter, decide_eq_true_eq] at hr
  rw [hcache, hlive _ hr.2, hinode]
  exact hi.got r hr.1

/-- `destroy_inode` leaves the entry. -/
theorem IdentityInv.destroyed (hi : IdentityInv h) (ha : h.cache.live a = true)
    (hdestroys : h.cache.destroys ops a = true) :
    IdentityInv (h.close ops a (h.cache.release a)) := by
  have hdead : (h.cache.release a).live a = false := Function.update_self _ _ _
  obtain ⟨hcache, -⟩ := @InodeHistory.close_of_dead ops _ a h hdead
  have hzero := ne_zero_of_memory (hi.memory a ha)
  have hleft : (h.close ops a (h.cache.release a)).left
      = if hashtableLookup h.cache.ht (h.cache.inode a).iIno = a
        then (h.cache.inode a).iIno :: h.left else h.left := by
    unfold InodeHistory.close
    rw [hdead, hdestroys]
    rfl
  -- the key is left behind if its entry is that of `a`
  have hmem : ∀ key, key ∈ (h.close ops a (h.cache.release a)).left
      ↔ key ∈ h.left ∨ (key = (h.cache.inode a).iIno ∧ h.cache.ht.get key = some a) := by
    intro key
    have hlookup : hashtableLookup h.cache.ht (h.cache.inode a).iIno = a
        ↔ h.cache.ht.get (h.cache.inode a).iIno = some a := by
      rw [Hashtable.hashtableLookup_eq]
      cases h.cache.ht.get (h.cache.inode a).iIno with
      | none => exact iff_of_false hzero.symm nofun
      | some b => exact Option.some_inj.symm
    rw [hleft]
    split
    · rename_i heq
      rw [List.mem_cons, or_comm]
      refine or_congr_right ⟨?_, And.left⟩
      rintro rfl
      exact ⟨rfl, hlookup.mp heq⟩
    · rename_i hne
      refine (or_iff_left ?_).symm
      rintro ⟨rfl, hget⟩
      exact hne (hlookup.mpr hget)
  have hother : ∀ b, b ≠ a → (h.cache.release a).live b = h.cache.live b := fun b hb =>
    Function.update_of_ne hb _ _
  refine ⟨?_, fun b hb => ?_, ?_, fun key b hget hkey => ?_, fun key hkey => ?_,
    hi.got_close hdead hother rfl⟩
  · rw [hcache]
    exact hi.valid
  · rw [hcache] at hb
    exact hi.memory b (live_release hb).2
  · rw [hcache]
    exact hi.value
  · rw [hmem, not_or] at hkey
    rw [hcache] at hget ⊢
    obtain ⟨hlive, hino⟩ := hi.entry key b hget hkey.1
    have hne : b ≠ a := by
      rintro rfl
      exact hkey.2 ⟨hino.symm, hget⟩
    exact ⟨(hother b hne).trans hlive, hino⟩
  · rw [hcache]
    rcases (hmem key).mp hkey with hkey | ⟨-, hget⟩
    · obtain ⟨b, hget, hb⟩ := hi.left key hkey
      exact ⟨b, hget, fun hlive => hb (live_release hlive).2⟩
    · refine ⟨a, hget, fun hlive => absurd hlive ?_⟩
      rw [hdead]
      decide

/-- The entry under the number of an inode that is freed goes, whatever it is. -/
theorem IdentityInv.removed (hi : IdentityInv h) (hdestroys : h.cache.destroys ops a = false) :
    IdentityInv (h.close ops a ((inodeRemove h.cache a).release a)) := by
  have hdead : ((inodeRemove h.cache a).release a).live a = false := Function.update_self _ _ _
  obtain ⟨hcache, -⟩ := @InodeHistory.close_of_dead ops _ a h hdead
  have hleft : (h.close ops a ((inodeRemove h.cache a).release a)).left
      = h.left.filter (· ≠ (h.cache.inode a).iIno) := by
    unfold InodeHistory.close
    rw [hdead, hdestroys]
    rfl
  have hmem : ∀ key, key ∈ (h.close ops a ((inodeRemove h.cache a).release a)).left
      ↔ key ∈ h.left ∧ key ≠ (h.cache.inode a).iIno := by
    intro key
    rw [hleft, List.mem_filter, decide_eq_true_eq]
  -- the entry is deleted by its number, without a look at what it holds
  have hget : ∀ key, ((inodeRemove h.cache a).release a).ht.get key
      = if key = (h.cache.inode a).iIno then none else h.cache.ht.get key := fun key =>
    hi.valid.get_delete _ key
  have hother : ∀ b, b ≠ a → ((inodeRemove h.cache a).release a).live b = h.cache.live b :=
    fun b hb => Function.update_of_ne hb _ _
  refine ⟨?_, fun b hb => ?_, fun key b hb => ?_, fun key b hb hkey => ?_, fun key hkey => ?_,
    hi.got_close hdead hother rfl⟩
  · rw [hcache]
    exact hi.valid.delete _
  · rw [hcache] at hb
    exact hi.memory b (live_release hb).2
  · rw [hcache, hget] at hb
    split at hb
    · cases hb
    · exact hi.value key b hb
  · rw [hcache, hget] at hb
    rw [hcache]
    split at hb
    · cases hb
    · rename_i hne
      obtain ⟨hlive, hino⟩ := hi.entry key b hb fun hleft => hkey ((hmem key).mpr ⟨hleft, hne⟩)
      have hba : b ≠ a := by
        rintro rfl
        exact hne hino.symm
      exact ⟨(hother b hba).trans hlive, hino⟩
  · obtain ⟨hkey, hne⟩ := (hmem key).mp hkey
    obtain ⟨b, hb, hbino⟩ := hi.left key hkey
    rw [hcache]
    refine ⟨b, ?_, fun hlive => hbino (live_release hlive).2⟩
    rw [hget, if_neg hne]
    exact hb

theorem IdentityInv.put (hi : IdentityInv h) (ha : h.cache.live a = true) (drop : Int) :
    IdentityInv (h.close ops a (inodePut ops h.cache a drop)) := by
  have hzero := ne_zero_of_memory (hi.memory a ha)
  by_cases hfrees : PutFrees ops h.cache a drop
  · have hset := hi.setRefcnt a 0
    rw [inodePut_frees hzero hfrees, ← h.close_setRefcnt 0, inodeFree_cases hzero]
    cases hdestroys : (h.cache.setRefcnt a 0).destroys ops a with
    | true => exact hset.destroyed ha hdestroys
    | false => exact hset.removed hdestroys
  · have hlive : (h.cache.setRefcnt a ((h.cache.inode a).iRefcnt - 1)).live a = true := ha
    rw [inodePut_keeps hzero hfrees, InodeHistory.close_of_live hlive]
    exact hi.setRefcnt a _

/-! ## Runs -/

theorem IdentityInv.exec (hi : IdentityInv h) {op : InodeOp} (hvalid : op.Valid ops h.cache)
    (hok : op.Identifies h) (hexec : op.exec ops h = some h') : IdentityInv h' := by
  cases op with
  | alloc | free => exact absurd hok id
  | get sb ino memory nodeMemory =>
      rcases exec_get_cases (hi.value ino) hvalid hexec with ⟨a, hget, rfl⟩ | ⟨-, -, rfl⟩
        | ⟨hnone, hfresh, rfl⟩
      · exact hi.hit hget hok
      · exact hi
      · exact hi.entered hnone hfresh sb nodeMemory
  | put a drop =>
      obtain rfl := Option.some.inj hexec
      exact hi.put hvalid drop

/-- A number without an entry is not taken. -/
theorem IdentityInv.sameSuper (hi : IdentityInv h) (hnone : h.cache.ht.get ino = none) :
    SameSuper h sb ino := by
  constructor
  · intro hleft
    obtain ⟨a, hget, -⟩ := hi.left ino hleft
    rw [hnone] at hget
    cases hget
  · intro a ha
    rw [hnone] at ha
    cases ha

section

variable {inode : Addr → Inode} {list : Links Addr} {as : List InodeOp}

/-- **Inodes have the identity they were got for** in every run under the condition, so that no
two super blocks share one, and after one more `inode_get` exactly if the condition holds there
too. -/
theorem inode_identified
    (run : InodeRun ops (fun h op => op.Valid ops h.cache ∧ op.Identifies h) inode list as h) :
    Identified h ∧ (∀ r ∈ h.got, ∀ r' ∈ h.got, r.inode = r'.inode → r.sb = r'.sb)
      ∧ ∀ sb ino memory nodeMemory h',
        (InodeOp.get sb ino memory nodeMemory).Valid ops h.cache →
        (InodeOp.get sb ino memory nodeMemory).exec ops h = some h' →
        (Identified h' ↔ SameSuper h sb ino) := by
  have hi : IdentityInv h := run.invariant (identityInv_init inode list)
    fun _ _ _ hi ⟨_, hop, _, hexec⟩ => hi.exec hop.1 hop.2 hexec
  refine ⟨hi.got, fun r hr r' hr' heq => ?_, fun sb ino memory nodeMemory h' hvalid hexec => ?_⟩
  · rw [← (hi.got r hr).2.1, ← (hi.got r' hr').2.1, heq]
  · constructor
    · intro hident
      by_contra hok
      rcases exec_get_cases (hi.value ino) hvalid hexec with ⟨a, hget, rfl⟩ | ⟨hnone, -⟩
        | ⟨hnone, -⟩
      · exact hi.not_identified_hit hget hok hident
      · exact hok (hi.sameSuper hnone)
      · exact hok (hi.sameSuper hnone)
    · intro hok
      exact (hi.exec hvalid hok hexec).got

end

/-- Two super blocks use different numbers. -/
theorem inode_identified_two : ∃ h,
    InodeRun plainOps (fun h op => op.Valid plainOps h.cache ∧ op.Identifies h) zeroInode ⟨id, id⟩
      [.get 0x1000 5 0x80000000 true, .get 0x2000 6 0x80000100 true, .get 0x1000 5 0 true] h
    ∧ h.got.length = 3 ∧ Identified h := by
  have hexec : (Lts.exec (InodeOp.exec plainOps)
      (fun h op => op.Valid plainOps h.cache ∧ op.Identifies h)
      ⟨inodeInit zeroInode ⟨id, id⟩, [], []⟩
      [.get 0x1000 5 0x80000000 true, .get 0x2000 6 0x80000100 true, .get 0x1000 5 0 true]).map
        (·.got.length) = some 3 := by
    decide
  obtain ⟨h, hh, hlen⟩ := Option.map_eq_some_iff.mp hexec
  exact ⟨h, Lts.run_of_exec hh, hlen, (inode_identified (Lts.run_of_exec hh)).1⟩

/-- They use the same number, and the second is given the inode of the first. -/
theorem inode_not_identified : ∃ h,
    InodeRun plainOps (fun h op => op.Valid plainOps h.cache ∧ op.getOrPut = true) zeroInode
      ⟨id, id⟩ [.get 0x1000 5 0x80000000 true, .get 0x2000 5 0 true] h
    ∧ ¬Identified h := by
  have hexec : (Lts.exec (InodeOp.exec plainOps)
      (fun h op => op.Valid plainOps h.cache ∧ op.getOrPut = true)
      ⟨inodeInit zeroInode ⟨id, id⟩, [], []⟩
      [.get 0x1000 5 0x80000000 true, .get 0x2000 5 0 true]).map
        (fun h => (h.got, (h.cache.inode 0x80000000).iSb))
      = some ([⟨0x80000000, 0x2000, 5⟩, ⟨0x80000000, 0x1000, 5⟩], 0x1000) := by
    decide
  obtain ⟨h, hh, heq⟩ := Option.map_eq_some_iff.mp hexec
  obtain ⟨hgot, hsb⟩ := Prod.mk.inj heq
  refine ⟨h, Lts.run_of_exec hh, fun hident => ?_⟩
  have hr := (hident ⟨0x80000000, 0x2000, 5⟩ (by rw [hgot]; exact List.mem_cons_self)).2.1
  rw [hsb] at hr
  exact absurd hr (by decide)

end NoobKernel.Fs
