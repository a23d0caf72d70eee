import NoobKernel.Mm.Bcache

set_option autoImplicit false

/-! # The lists of the buffer cache

What every operation of the cache keeps of its lists, for the uses `uses` of buffers that are not
over: every buffer is once on the LRU list, a hash chain has the buffers of its blocks, no two of
one block, and the reference counts are the numbers of uses.
-/

namespace NoobKernel.Mm

variable {B : Type}

/-- The buffer is on the hash chain of its block. -/
def Hashed (bc : Bcache B) (i : Nat) : Prop :=
  i ∈ bc.hashTable (bcacheHash (bc.bufs i).dev (bc.bufs i).blockno)

/-- A use of a buffer and the block it is for. -/
abbrev Use := Nat × BlockAddr

def Session.use (x : Session) : Use := (x.buf, x.addr)

theorem countP_uses (sessions : List Session) (i : Nat) :
    (sessions.map Session.use).countP (fun x => x.1 = i) = sessions.countP (fun x => x.buf = i) :=
  List.countP_map

structure Structured (bc : Bcache B) (uses : List Use) : Prop where
  lru : bc.lruList.Perm (List.range BCACHE_SIZE)
  chain : ∀ h, ∀ i ∈ bc.hashTable h,
    i < BCACHE_SIZE ∧ bcacheHash (bc.bufs i).dev (bc.bufs i).blockno = h
  chain_nodup : ∀ h, (bc.hashTable h).Nodup
  unique : ∀ i j, Hashed bc i → Hashed bc j → (bc.bufs i).addr = (bc.bufs j).addr → i = j
  refcnt : ∀ i < BCACHE_SIZE, (bc.bufs i).refcnt = uses.countP (fun x => x.1 = i)
  use : ∀ x ∈ uses, Hashed bc x.1 ∧ (bc.bufs x.1).addr = x.2

variable {bc bc' : Bcache B} {disk disk' : Disk B} {uses uses' : List Use} {a : BlockAddr}
  {i j : Nat}

/-! ## Lookup and eviction -/

theorem lookup_some (run : bcacheLookup bc a.1 a.2 = some i) :
    i ∈ bc.hashTable (bcacheHash a.1 a.2) ∧ (bc.bufs i).addr = a := by
  have hpred := List.find?_some run
  simp only [decide_eq_true_eq] at hpred
  exact ⟨List.mem_of_find?_eq_some run, Prod.ext hpred.1 hpred.2⟩

theorem lookup_none (run : bcacheLookup bc a.1 a.2 = none) (hi : Hashed bc i) :
    (bc.bufs i).addr ≠ a := by
  intro heq
  have hdev : (bc.bufs i).dev = a.1 := congrArg Prod.fst heq
  have hblk : (bc.bufs i).blockno = a.2 := congrArg Prod.snd heq
  rw [Hashed, hdev, hblk] at hi
  have hnot := List.find?_eq_none.mp run i hi
  simp [hdev, hblk] at hnot

theorem evict_some (run : bcacheEvict bc disk = some (i, bc', disk')) :
    bc.lruList.reverse.find? (fun i => (bc.bufs i).refcnt = 0) = some i
      ∧ bc' = (bc.setBuf i { bc.bufs i with dirty := false, valid := false }).unhash i
      ∧ disk' = if (bc.bufs i).dirty then Function.update disk (bc.bufs i).addr (bc.bufs i).data
          else disk := by
  unfold bcacheEvict at run
  cases hfind : bc.lruList.reverse.find? fun i => (bc.bufs i).refcnt = 0 with
  | none =>
      rw [hfind] at run
      cases run
  | some j =>
      rw [hfind] at run
      obtain ⟨rfl, hrest⟩ := Prod.mk.inj (Option.some.inj run)
      obtain ⟨rfl, rfl⟩ := Prod.mk.inj hrest
      exact ⟨rfl, rfl, rfl⟩

theorem evict_mem (run : bcacheEvict bc disk = some (i, bc', disk')) :
    i ∈ bc.lruList ∧ (bc.bufs i).refcnt = 0 := by
  obtain ⟨hfind, -, -⟩ := evict_some run
  have href := List.find?_some hfind
  exact ⟨List.mem_reverse.mp (List.mem_of_find?_eq_some hfind), of_decide_eq_true href⟩

theorem evict_none (run : bcacheEvict bc disk = none) :
    ∀ i ∈ bc.lruList, (bc.bufs i).refcnt ≠ 0 := by
  intro i hi
  unfold bcacheEvict at run
  split at run
  · rename_i hfind
    simpa using List.find?_eq_none.mp hfind i (List.mem_reverse.mpr hi)
  · cases run

theorem hashed_congr (haddr : (bc'.bufs j).addr = (bc.bufs j).addr)
    (table : bc'.hashTable = bc.hashTable) : Hashed bc' j ↔ Hashed bc j := by
  have hdev : (bc'.bufs j).dev = (bc.bufs j).dev := congrArg Prod.fst haddr
  have hblk : (bc'.bufs j).blockno = (bc.bufs j).blockno := congrArg Prod.snd haddr
  rw [Hashed, Hashed, hdev, hblk, table]

/-- A buffer changes and remains that of its block. -/
theorem Bcache.setBuf_addr {b : Buf B} (haddr : b.addr = (bc.bufs i).addr) (j : Nat) :
    ((bc.setBuf i b).bufs j).addr = (bc.bufs j).addr := by
  by_cases hj : j = i
  · rw [hj, Bcache.setBuf_bufs_self, haddr]
  · rw [Bcache.setBuf_bufs_of_ne _ _ hj]

/-! ## The operations -/

namespace Structured

theorem hashed (hs : Structured bc uses) {h : Nat} (hi : i ∈ bc.hashTable h) : Hashed bc i := by
  rw [Hashed, (hs.chain h i hi).2]
  exact hi

theorem lt_of_hashed (hs : Structured bc uses) (hi : Hashed bc i) : i < BCACHE_SIZE :=
  (hs.chain _ i hi).1

theorem mem_lru (hs : Structured bc uses) : i ∈ bc.lruList ↔ i < BCACHE_SIZE :=
  hs.lru.mem_iff.trans List.mem_range

/-- An unreferenced buffer has no use. -/
theorem buf_ne_of_refcnt (hs : Structured bc uses) (href : (bc.bufs i).refcnt = 0) :
    ∀ x ∈ uses, x.1 ≠ i := by
  intro x hx hbuf
  have hi : i < BCACHE_SIZE := hs.lt_of_hashed (hbuf ▸ (hs.use x hx).1)
  rw [hs.refcnt i hi, List.countP_eq_zero] at href
  exact href x hx (by simpa using hbuf)

/-- A referenced buffer has a use, and so it has been assigned. -/
theorem hashed_of_refcnt (hs : Structured bc uses) (hi : i < BCACHE_SIZE)
    (href : (bc.bufs i).refcnt ≠ 0) : Hashed bc i := by
  rw [hs.refcnt i hi, ← Nat.pos_iff_ne_zero, List.countP_pos_iff] at href
  obtain ⟨x, hx, hxi⟩ := href
  have hbuf : x.1 = i := of_decide_eq_true hxi
  exact hbuf ▸ (hs.use x hx).1

/-- **References come and go.** When no buffer changes its block and the chains stay, it remains
to say what the new counts and uses are. -/
theorem recount (hs : Structured bc uses) (haddr : ∀ j, (bc'.bufs j).addr = (bc.bufs j).addr)
    (table : bc'.hashTable = bc.hashTable) (lru' : bc'.lruList.Perm bc.lruList)
    (refcnt' : ∀ i < BCACHE_SIZE, (bc'.bufs i).refcnt = uses'.countP (fun x => x.1 = i))
    (use' : ∀ x ∈ uses', Hashed bc x.1 ∧ (bc.bufs x.1).addr = x.2) : Structured bc' uses' := by
  have hhash : ∀ j, Hashed bc' j ↔ Hashed bc j := fun j => hashed_congr (haddr j) table
  refine ⟨lru'.trans hs.lru, ?_, ?_, ?_, refcnt', ?_⟩
  · intro h j hj
    have hdev : (bc'.bufs j).dev = (bc.bufs j).dev := congrArg Prod.fst (haddr j)
    have hblk : (bc'.bufs j).blockno = (bc.bufs j).blockno := congrArg Prod.snd (haddr j)
    rw [hdev, hblk]
    exact hs.chain h j (table ▸ hj)
  · intro h
    rw [table]
    exact hs.chain_nodup h
  · intro j k hj hk heq
    rw [haddr, haddr] at heq
    exact hs.unique j k ((hhash j).mp hj) ((hhash k).mp hk) heq
  · intro x hx
    rw [hhash, haddr]
    exact use' x hx

/-- A buffer changes neither its block nor its count. -/
theorem setBuf (hs : Structured bc uses) {b : Buf B} (haddr : b.addr = (bc.bufs i).addr)
    (href : b.refcnt = (bc.bufs i).refcnt) : Structured (bc.setBuf i b) uses := by
  refine hs.recount (Bcache.setBuf_addr haddr) rfl (List.Perm.refl _) (fun j hj => ?_) hs.use
  rw [← hs.refcnt j hj]
  by_cases hji : j = i
  · rw [hji, Bcache.setBuf_bufs_self, href]
  · rw [Bcache.setBuf_bufs_of_ne _ _ hji]

/-- A hit takes one more reference. -/
theorem get_hit (hs : Structured bc uses) (run : bcacheLookup bc a.1 a.2 = some i) :
    Structured ((bc.setBuf i { bc.bufs i with refcnt := (bc.bufs i).refcnt + 1 }).touch i)
      ((i, a) :: uses) := by
  obtain ⟨hmem, haddr⟩ := lookup_some run
  have hhashed := hs.hashed hmem
  have hi : i ∈ bc.lruList := hs.mem_lru.mpr (hs.lt_of_hashed hhashed)
  refine hs.recount (fun j => ?_) rfl (List.perm_cons_erase hi).symm (fun j hj => ?_) ?_
  · rw [Bcache.touch_bufs]
    exact Bcache.setBuf_addr (by rfl) j
  · rw [Bcache.touch_bufs]
    by_cases hji : j = i
    · subst hji
      rw [Bcache.setBuf_bufs_self, List.countP_cons_of_pos (by simp), ← hs.refcnt j hj]
    · rw [Bcache.setBuf_bufs_of_ne _ _ hji, List.countP_cons_of_neg (by simpa using Ne.symm hji)]
      exact hs.refcnt j hj
  · intro x hx
    rcases List.mem_cons.mp hx with rfl | hx
    · exact ⟨hhashed, haddr⟩
    · exact hs.use x hx

end Structured

theorem brelsePut_spec (bc : Bcache B) (hi : i ∈ bc.lruList) :
    (brelsePut bc i).bufs
        = (bc.setBuf i { bc.bufs i with refcnt := (bc.bufs i).refcnt - 1 }).bufs
      ∧ (brelsePut bc i).hashTable = bc.hashTable
      ∧ (brelsePut bc i).lruList.Perm bc.lruList := by
  unfold brelsePut
  by_cases h : (bc.bufs i).refcnt - 1 = 0
  · simp only [if_pos h]
    exact ⟨trivial, rfl, List.perm_append_comm.trans (List.perm_cons_erase hi).symm⟩
  · simp only [if_neg h]
    exact ⟨trivial, rfl, List.Perm.refl _⟩

theorem brelsePut_lru (bc : Bcache B) (i : Nat) : (brelsePut bc i).lruList
    = if ((brelsePut bc i).bufs i).refcnt = 0 then bc.lruList.erase i ++ [i] else bc.lruList := by
  unfold brelsePut
  by_cases h : (bc.bufs i).refcnt - 1 = 0
  · simp [h]
  · simp [h]

/-- `brelse` gives its reference back. -/
theorem Structured.put (hs : Structured bc uses) (pick : ((i, a) :: uses').Perm uses) :
    Structured (brelsePut bc i) uses' := by
  have hmem : (i, a) ∈ uses := pick.mem_iff.mp List.mem_cons_self
  have hi : i ∈ bc.lruList := hs.mem_lru.mpr (hs.lt_of_hashed (hs.use _ hmem).1)
  obtain ⟨hbufs, htable, hlru⟩ := brelsePut_spec bc hi
  refine hs.recount (fun j => ?_) htable hlru (fun j hj => ?_) fun x hx => ?_
  · rw [hbufs]
    exact Bcache.setBuf_addr (by rfl) j
  · have href := hs.refcnt j hj
    rw [← pick.countP_eq] at href
    rw [hbufs]
    by_cases hji : j = i
    · subst hji
      rw [List.countP_cons_of_pos (by simp)] at href
      rw [Bcache.setBuf_bufs_self]
      show (bc.bufs j).refcnt - 1 = _
      omega
    · rw [List.countP_cons_of_neg (by simpa using Ne.symm hji)] at href
      rw [Bcache.setBuf_bufs_of_ne _ _ hji, href]
  · exact hs.use x (pick.mem_iff.mp (List.mem_cons_of_mem _ hx))

/-! ## A miss -/

/-- The unreferenced buffer `i` is reassigned to the block `a`. -/
def Bcache.reassign (bc : Bcache B) (i : Nat) (a : BlockAddr) : Bcache B :=
  let bc := (bc.setBuf i { bc.bufs i with dirty := false, valid := false }).unhash i
  let bc := bc.setBuf i
    { bc.bufs i with dev := a.1, blockno := a.2, refcnt := 1, valid := false, dirty := false }
  (bc.enhash i (bcacheHash a.1 a.2)).touch i

theorem Bcache.reassign_bufs_of_ne (h : j ≠ i) : (bc.reassign i a).bufs j = bc.bufs j :=
  ((bc.setBuf i _).setBuf_bufs_of_ne _ h).trans (bc.setBuf_bufs_of_ne _ h)

theorem Bcache.reassign_bufs_self : (bc.reassign i a).bufs i = { bc.bufs i with
    dev := a.1, blockno := a.2, refcnt := 1, valid := false, dirty := false } := by
  have hself : (bc.reassign i a).bufs i = { (bc.setBuf i { bc.bufs i with
      dirty := false, valid := false }).bufs i with
      dev := a.1, blockno := a.2, refcnt := 1, valid := false, dirty := false } :=
    Bcache.setBuf_bufs_self _ _ _
  rw [hself, Bcache.setBuf_bufs_self]

/-- It leaves its old chain and heads that of its new block. -/
theorem Bcache.reassign_hashTable : (bc.reassign i a).hashTable
    = Function.update (fun h => (bc.hashTable h).erase i) (bcacheHash a.1 a.2)
        (i :: (bc.hashTable (bcacheHash a.1 a.2)).erase i) := rfl

/-- What `bcache_get` returns: the buffer of the block, or an unreferenced one. -/
theorem get_cases (run : bcacheGet bc disk a.1 a.2 = some (i, bc', disk')) :
    (bcacheLookup bc a.1 a.2 = some i ∧ disk' = disk
        ∧ bc' = (bc.setBuf i { bc.bufs i with refcnt := (bc.bufs i).refcnt + 1 }).touch i)
      ∨ (bcacheLookup bc a.1 a.2 = none ∧ (∃ bc₁, bcacheEvict bc disk = some (i, bc₁, disk'))
        ∧ bc' = bc.reassign i a) := by
  unfold bcacheGet at run
  cases hlook : bcacheLookup bc a.1 a.2 with
  | some j =>
      rw [hlook] at run
      obtain ⟨rfl, hrest⟩ := Prod.mk.inj (Option.some.inj run)
      obtain ⟨rfl, rfl⟩ := Prod.mk.inj hrest
      exact .inl ⟨rfl, rfl, rfl⟩
  | none =>
      rw [hlook] at run
      cases hevict : bcacheEvict bc disk with
      | none =>
          rw [hevict] at run
          cases run
      | some r =>
          obtain ⟨j, bc₁, disk₁⟩ := r
          rw [hevict] at run
          obtain ⟨rfl, hrest⟩ := Prod.mk.inj (Option.some.inj run)
          obtain ⟨rfl, rfl⟩ := Prod.mk.inj hrest
          obtain ⟨-, rfl, -⟩ := evict_some hevict
          exact .inr ⟨rfl, ⟨_, rfl⟩, rfl⟩

namespace Structured

theorem mem_reassign (hs : Structured bc uses) {h : Nat} : j ∈ (bc.reassign i a).hashTable h
    ↔ (j = i ∧ h = bcacheHash a.1 a.2) ∨ (j ≠ i ∧ j ∈ bc.hashTable h) := by
  rw [Bcache.reassign_hashTable]
  by_cases hh : h = bcacheHash a.1 a.2
  · rw [hh, Function.update_self, List.mem_cons, (hs.chain_nodup _).mem_erase_iff]
    simp
  · rw [Function.update_of_ne hh, (hs.chain_nodup _).mem_erase_iff]
    simp [hh]

theorem hashed_reassign_self (hs : Structured bc uses) : Hashed (bc.reassign i a) i := by
  rw [Hashed, hs.mem_reassign, Bcache.reassign_bufs_self]
  exact .inl ⟨rfl, rfl⟩

theorem hashed_reassign_of_ne (hs : Structured bc uses) (hj : j ≠ i) :
    Hashed (bc.reassign i a) j ↔ Hashed bc j := by
  rw [Hashed, Hashed, hs.mem_reassign, Bcache.reassign_bufs_of_ne hj]
  tauto

/-- A miss gives an unreferenced buffer a new block. -/
theorem reassign (hs : Structured bc uses) (hi : i < BCACHE_SIZE) (href : (bc.bufs i).refcnt = 0)
    (hnew : ∀ j, Hashed bc j → (bc.bufs j).addr ≠ a) :
    Structured (bc.reassign i a) ((i, a) :: uses) := by
  have haddr : ((bc.reassign i a).bufs i).addr = a := by
    rw [Bcache.reassign_bufs_self]
    rfl
  have hfree := hs.buf_ne_of_refcnt href
  refine ⟨?_, ?_, ?_, ?_, ?_, ?_⟩
  · exact (List.perm_cons_erase (hs.mem_lru.mpr hi)).symm.trans hs.lru
  · intro h j hj
    rcases hs.mem_reassign.mp hj with ⟨rfl, rfl⟩ | ⟨hne, hj⟩
    · rw [Bcache.reassign_bufs_self]
      exact ⟨hi, rfl⟩
    · rw [Bcache.reassign_bufs_of_ne hne]
      exact hs.chain h j hj
  · intro h
    rw [Bcache.reassign_hashTable]
    by_cases hh : h = bcacheHash a.1 a.2
    · rw [hh, Function.update_self, List.nodup_cons]
      exact ⟨(hs.chain_nodup _).not_mem_erase, (hs.chain_nodup _).erase i⟩
    · rw [Function.update_of_ne hh]
      exact (hs.chain_nodup h).erase i
  · -- no hashed buffer had the block that `i` gets
    intro j k hj hk heq
    by_cases hji : j = i <;> by_cases hki : k = i
    · rw [hji, hki]
    · rw [hji, haddr, Bcache.reassign_bufs_of_ne hki] at heq
      exact absurd heq.symm (hnew k ((hs.hashed_reassign_of_ne hki).mp hk))
    · rw [hki, haddr, Bcache.reassign_bufs_of_ne hji] at heq
      exact absurd heq (hnew j ((hs.hashed_reassign_of_ne hji).mp hj))
    · rw [Bcache.reassign_bufs_of_ne hji, Bcache.reassign_bufs_of_ne hki] at heq
      exact hs.unique j k ((hs.hashed_reassign_of_ne hji).mp hj)
        ((hs.hashed_reassign_of_ne hki).mp hk) heq
  · intro j hj
    by_cases hji : j = i
    · rw [hji, Bcache.reassign_bufs_self, List.countP_cons_of_pos (by simp), ← hs.refcnt i hi, href]
    · rw [Bcache.reassign_bufs_of_ne hji, List.countP_cons_of_neg (by simpa using Ne.symm hji)]
      exact hs.refcnt j hj
  · intro x hx
    rcases List.mem_cons.mp hx with rfl | hx
    · exact ⟨hs.hashed_reassign_self, haddr⟩
    · have hne := hfree x hx
      rw [hs.hashed_reassign_of_ne hne, Bcache.reassign_bufs_of_ne hne]
      exact hs.use x hx

/-- Both cases of `bcache_get`. -/
theorem get (hs : Structured bc uses) (run : bcacheGet bc disk a.1 a.2 = some (i, bc', disk')) :
    Structured bc' ((i, a) :: uses) := by
  rcases get_cases run with ⟨hlook, -, rfl⟩ | ⟨hlook, ⟨bc₁, hevict⟩, rfl⟩
  · exact hs.get_hit hlook
  · obtain ⟨hi, href⟩ := evict_mem hevict
    exact hs.reassign (hs.mem_lru.mp hi) href fun j => lookup_none hlook

end Structured

/-- The buffer `i` is at the front, referenced and that of `a`; the others are as they were. -/
structure GetSpec (bc : Bcache B) (a : BlockAddr) (i : Nat) (bc' : Bcache B) : Prop where
  lru : bc'.lruList = i :: bc.lruList.erase i
  refcnt : (bc'.bufs i).refcnt ≠ 0
  addr : (bc'.bufs i).addr = a
  hashed : Hashed bc' i
  bufs : ∀ j, j ≠ i → bc'.bufs j = bc.bufs j
  others : ∀ j, j ≠ i → (Hashed bc' j ↔ Hashed bc j)

theorem Structured.get_spec (hs : Structured bc uses)
    (run : bcacheGet bc disk a.1 a.2 = some (i, bc', disk')) : GetSpec bc a i bc' := by
  rcases get_cases run with ⟨hlook, -, rfl⟩ | ⟨hlook, ⟨bc₁, hevict⟩, rfl⟩
  · obtain ⟨hmem, haddr⟩ := lookup_some hlook
    have hsame : ∀ j, (((bc.setBuf i { bc.bufs i with
        refcnt := (bc.bufs i).refcnt + 1 }).touch i).bufs j).addr = (bc.bufs j).addr := by
      intro j
      rw [Bcache.touch_bufs]
      exact Bcache.setBuf_addr (by rfl) j
    refine ⟨rfl, ?_, (hsame i).trans haddr, (hashed_congr (hsame i) rfl).mpr (hs.hashed hmem),
      fun j hj => Bcache.setBuf_bufs_of_ne _ _ hj, fun j _ => hashed_congr (hsame j) rfl⟩
    rw [Bcache.touch_bufs, Bcache.setBuf_bufs_self]
    exact Nat.succ_ne_zero _
  · refine ⟨rfl, ?_, ?_, hs.hashed_reassign_self, fun j => Bcache.reassign_bufs_of_ne,
      fun j => hs.hashed_reassign_of_ne⟩ <;> rw [Bcache.reassign_bufs_self]
    · exact Nat.one_ne_zero
    · rfl

/-- `bcache_get` changes the count of a buffer, or the buffer is unreferenced and gets a new
block. -/
theorem get_bufs (run : bcacheGet bc disk a.1 a.2 = some (i, bc', disk')) (j : Nat) :
    bc'.bufs j = { bc.bufs j with refcnt := (bc'.bufs j).refcnt }
      ∨ ((bc.bufs j).refcnt = 0 ∧ bc'.bufs j = { bc.bufs j with
        dev := a.1, blockno := a.2, refcnt := 1, valid := false, dirty := false }) := by
  rcases get_cases run with ⟨-, -, rfl⟩ | ⟨-, ⟨bc₁, hevict⟩, rfl⟩
  · rw [Bcache.touch_bufs]
    by_cases hji : j = i
    · rw [hji, Bcache.setBuf_bufs_self]
      exact .inl rfl
    · rw [Bcache.setBuf_bufs_of_ne _ _ hji]
      exact .inl rfl
  · by_cases hji : j = i
    · rw [hji]
      exact .inr ⟨(evict_mem hevict).2, Bcache.reassign_bufs_self⟩
    · rw [Bcache.reassign_bufs_of_ne hji]
      exact .inl rfl

/-- **Pinning.** All that `bcache_get` changes in a referenced buffer is the count. -/
theorem get_pinned (run : bcacheGet bc disk a.1 a.2 = some (i, bc', disk'))
    (hj : 0 < (bc.bufs j).refcnt) :
    bc'.bufs j = { bc.bufs j with refcnt := (bc'.bufs j).refcnt } :=
  (get_bufs run j).resolve_right fun h => hj.ne' h.1

end NoobKernel.Mm
