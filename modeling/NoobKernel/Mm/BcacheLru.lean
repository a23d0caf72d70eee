import NoobKernel.Mm.BcacheRun

set_option autoImplicit false

/-! # Which buffer a miss takes

`bcache_get` puts a buffer at the front of `lru_list` and `bcache_evict` searches from the end, but
`brelse` puts a released buffer at the end: the unreferenced buffers stand in the order of their
last use, the last one at the end (`LruInv.sorted`), and a miss takes the one used last. It is the
least recently used one exactly when there is nothing to choose: no unreferenced buffer has ever
been released, or there is only one (`Fresh`).
-/

namespace NoobKernel.Mm

variable {B : Type}

/-! ## Last uses -/

/-- When the buffer was released last, of the releases counted from 1; 0 is never. -/
def lastUse (released : List Nat) (i : Nat) : Nat := released.length - released.idxOf i

section

variable {released : List Nat} {i j : Nat}

theorem lastUse_cons_self : lastUse (i :: released) i = released.length + 1 := by
  rw [lastUse, List.idxOf_cons_self, List.length_cons, Nat.sub_zero]

theorem lastUse_cons_of_ne (h : j ≠ i) : lastUse (i :: released) j = lastUse released j := by
  rw [lastUse, lastUse, List.idxOf_cons_ne _ h.symm, List.length_cons, Nat.add_sub_add_right]

theorem lastUse_eq_zero : lastUse released i = 0 ↔ i ∉ released := by
  rw [lastUse, Nat.sub_eq_zero_iff_le, ← Nat.not_lt, List.idxOf_lt_length_iff]

/-- No two buffers are released at a time. -/
theorem lastUse_inj (hi : i ∈ released) (h : lastUse released i = lastUse released j) : i = j := by
  have hj : j ∈ released := by
    by_contra hj
    rw [lastUse_eq_zero.mpr hj] at h
    exact lastUse_eq_zero.mp h hi
  have hilt := List.idxOf_lt_length_iff.mpr hi
  have hjlt := List.idxOf_lt_length_iff.mpr hj
  refine (List.idxOf_inj hi).mp ?_
  unfold lastUse at h
  omega

end

/-! ## The order of the list -/

section

variable {l : List Nat} {p p' : Nat → Bool} {released : List Nat} {i j : Nat}

/-- The listed buffers with the property stand in the order of their last use. -/
def SortedByUse (released : List Nat) (p : Nat → Bool) (l : List Nat) : Prop :=
  (l.filter p).Pairwise fun i j => lastUse released i ≤ lastUse released j

/-- A buffer that is taken goes to the front. -/
theorem SortedByUse.front (h : SortedByUse released p l) (hi : p' i = false)
    (hsub : ∀ j, p' j = true → p j = true) : SortedByUse released p' (i :: l.erase i) := by
  unfold SortedByUse
  rw [List.filter_cons_of_neg (by simp [hi])]
  refine List.Pairwise.sublist ?_ h
  exact (List.erase_sublist.filter p').trans (List.monotone_filter_right l hsub)

/-- One that is released goes to the end. -/
theorem SortedByUse.back (h : SortedByUse released p l) (hl : l.Nodup) (hi : p' i = true)
    (hother : ∀ j, j ≠ i → p' j = p j) :
    SortedByUse (i :: released) p' (l.erase i ++ [i]) := by
  have hne : ∀ j ∈ l.erase i, j ≠ i := fun j hj heq => hl.not_mem_erase (heq ▸ hj)
  have hfilter : (l.erase i).filter p' = (l.erase i).filter p :=
    List.filter_congr fun j hj => hother j (hne j hj)
  unfold SortedByUse
  rw [List.filter_append, hfilter, List.filter_cons_of_pos hi, List.filter_nil]
  refine List.pairwise_append.mpr ⟨?_, List.pairwise_singleton _ _, fun j hj k hk => ?_⟩
  · have hsub : ((l.erase i).filter p).Sublist (l.filter p) := List.erase_sublist.filter p
    refine (List.Pairwise.sublist hsub h).imp_of_mem fun hj hk hle => ?_
    rw [lastUse_cons_of_ne (hne _ (List.mem_of_mem_filter hj)),
      lastUse_cons_of_ne (hne _ (List.mem_of_mem_filter hk))]
    exact hle
  · rw [List.mem_singleton.mp hk, lastUse_cons_self,
      lastUse_cons_of_ne (hne j (List.mem_of_mem_filter hj))]
    exact (Nat.sub_le _ _).trans (Nat.le_succ _)

/-- A search from the end finds the one used last. -/
theorem SortedByUse.find (h : SortedByUse released p l) (hfind : l.reverse.find? p = some i)
    (hj : j ∈ l) (hpj : p j = true) : lastUse released j ≤ lastUse released i := by
  obtain ⟨hpi, before, after, hrev, hbefore⟩ := List.find?_eq_some_iff_append.mp hfind
  have hl : l = after.reverse ++ i :: before.reverse := by
    rw [← List.reverse_reverse l, hrev]
    simp
  have hnone : before.reverse.filter p = [] := by
    rw [List.filter_eq_nil_iff]
    intro k hk
    simpa using hbefore k (List.mem_reverse.mp hk)
  have hfilter : l.filter p = after.reverse.filter p ++ [i] := by
    rw [hl, List.filter_append, List.filter_cons_of_pos hpi, hnone]
  have hmem : j ∈ after.reverse.filter p ++ [i] := hfilter ▸ List.mem_filter.mpr ⟨hj, hpj⟩
  unfold SortedByUse at h
  rw [hfilter] at h
  rcases List.mem_append.mp hmem with hmem | hmem
  · exact (List.pairwise_append.mp h).2.2 j hmem i (List.mem_singleton_self i)
  · rw [List.mem_singleton.mp hmem]

end

/-! ## The victim of a miss -/

namespace BcacheMachine

/-- Of the unreferenced buffers, none was used last before this one. -/
def LeastRecent (s : BcacheMachine B) (i : Nat) : Prop :=
  ∀ j < BCACHE_SIZE, (s.cache.bufs j).refcnt = 0 → lastUse s.released i ≤ lastUse s.released j

/-- A miss takes one of these. -/
def TakesLeastRecent (s : BcacheMachine B) : Prop :=
  ∀ a, s.Misses a → ∀ i cache disk, s.cache.get s.disk a.1 a.2 = some (i, cache, disk) →
    s.LeastRecent i

/-- While fewer blocks have been read than there are buffers, none of them is read again from the
device. -/
def HitsUsed (s : BcacheMachine B) : Prop :=
  s.used.toFinset.card < BCACHE_SIZE → ∀ a ∈ s.used, ¬s.Misses a

/-- No unreferenced buffer has ever been released, or there are no two of them. -/
def Fresh (s : BcacheMachine B) : Prop :=
  (∀ i < BCACHE_SIZE, (s.cache.bufs i).refcnt = 0 → i ∉ s.released)
    ∨ ∀ i < BCACHE_SIZE, ∀ j < BCACHE_SIZE,
      (s.cache.bufs i).refcnt = 0 → (s.cache.bufs j).refcnt = 0 → i = j

/-- A miss happens only then. -/
def MissesFresh (s : BcacheMachine B) : BcacheAction B → Prop
  | .get a => s.Misses a → s.Fresh
  | _ => True

instance decidableFresh (s : BcacheMachine B) : Decidable s.Fresh :=
  inferInstanceAs (Decidable (_ ∨ _))

instance decidableMissesFresh (s : BcacheMachine B) (act : BcacheAction B) :
    Decidable (s.MissesFresh act) :=
  match act with
  | .get a => inferInstanceAs (Decidable (s.Misses a → s.Fresh))
  | .use _ _ | .put _ | .flush _ | .flushNext => isTrue trivial

end BcacheMachine

/-! ## The invariant -/

variable {s s' : BcacheMachine B} {bc bc' : Bcache B} {a : BlockAddr} {i j k : Nat}

def isUnreferenced (bc : Bcache B) (i : Nat) : Bool := (bc.bufs i).refcnt = 0

structure LruInv (s : BcacheMachine B) (bc : Bcache B) : Prop extends MachineInv s bc where
  sorted : SortedByUse s.released (isUnreferenced bc) bc.lruList
  released : ∀ i ∈ s.released, Hashed bc i
  /-- An assigned buffer is referenced, or it has been released. -/
  touched : ∀ i, Hashed bc i → (bc.bufs i).refcnt = 0 → i ∈ s.released
  used : ∀ i, Hashed bc i → (bc.bufs i).addr ∈ s.used

/-- Every block that has been read has a buffer, while there are fewer blocks than buffers. -/
def Resident (used : List BlockAddr) (bc : Bcache B) : Prop :=
  used.toFinset.card < BCACHE_SIZE → ∀ a ∈ used, ∃ i, Hashed bc i ∧ (bc.bufs i).addr = a

namespace LruInv

theorem boot (c : LinkedBcache B) (disk : Disk B) :
    ∃ bc, LruInv (.boot c disk) bc ∧ Resident (BcacheMachine.boot c disk).used bc := by
  obtain ⟨bc, h⟩ := MachineInv.boot c disk
  have hnone : ∀ i, ¬Hashed bc i := fun i hi => List.not_mem_nil ((h.assigned i).mpr hi)
  refine ⟨bc, ⟨h, ?_, fun i hi => absurd hi List.not_mem_nil, fun i hi => absurd hi (hnone i),
    fun i hi => absurd hi (hnone i)⟩, fun _ a ha => absurd ha List.not_mem_nil⟩
  refine List.pairwise_of_forall fun i j => ?_
  have hzero : lastUse [] i = 0 := lastUse_eq_zero.mpr List.not_mem_nil
  exact hzero.trans_le (Nat.zero_le _)

/-- The buffer a miss takes is the one used last. -/
theorem victim (h : LruInv s bc) {disk : Disk B} (miss : bcacheLookup bc a.1 a.2 = none)
    (run : bcacheGet bc s.disk a.1 a.2 = some (i, bc', disk)) :
    (i < BCACHE_SIZE ∧ (s.cache.bufs i).refcnt = 0) ∧ ∀ j < BCACHE_SIZE,
      (s.cache.bufs j).refcnt = 0 → lastUse s.released j ≤ lastUse s.released i := by
  rw [h.represents.bufs]
  rcases get_cases run with ⟨hlook, -⟩ | ⟨-, ⟨bc₁, hevict⟩, -⟩
  · rw [miss] at hlook
    cases hlook
  · obtain ⟨hmem, href⟩ := evict_mem hevict
    obtain ⟨hfind, -, -⟩ := evict_some hevict
    refine ⟨⟨h.structured.mem_lru.mp hmem, href⟩, fun j hj hjref => ?_⟩
    exact h.sorted.find hfind (h.structured.mem_lru.mpr hj) (decide_eq_true hjref)

/-- **Which buffer a miss takes**: the least recently used one exactly when there is no choice. -/
theorem leastRecent_iff (h : LruInv s bc) {disk : Disk B} (miss : bcacheLookup bc a.1 a.2 = none)
    (run : bcacheGet bc s.disk a.1 a.2 = some (i, bc', disk)) : s.LeastRecent i ↔ s.Fresh := by
  obtain ⟨⟨hi, href⟩, hlast⟩ := h.victim miss run
  constructor
  · intro hleast
    by_cases hnever : ∀ j < BCACHE_SIZE, (s.cache.bufs j).refcnt = 0 → j ∉ s.released
    · exact .inl hnever
    · -- all have been released at one time, so there are no two of them
      push Not at hnever
      obtain ⟨j, hj, hjref, hreleased⟩ := hnever
      have hsame : ∀ k < BCACHE_SIZE, (s.cache.bufs k).refcnt = 0 → j = k := by
        intro k hk hkref
        refine lastUse_inj hreleased ?_
        have hji := le_antisymm (hlast j hj hjref) (hleast j hj hjref)
        have hki := le_antisymm (hlast k hk hkref) (hleast k hk hkref)
        exact hji.trans hki.symm
      exact .inr fun k hk k' hk' hkref hkref' =>
        (hsame k hk hkref).symm.trans (hsame k' hk' hkref')
  · rintro (hnever | hone) j hj hjref
    · rw [lastUse_eq_zero.mpr (hnever i hi href)]
      exact Nat.zero_le _
    · rw [hone i hi j hj href hjref]

/-! ### The steps -/

theorem get (h : LruInv s bc) {sessions : List Session} {assigned : List Nat}
    {cache : LinkedBcache B} {disk : Disk B}
    (run : bcacheGet bc s.disk a.1 a.2 = some (i, bc', disk))
    (inv' : MachineInv { s with
      cache := cache, disk := disk, sessions := sessions, assigned := assigned
      used := a :: s.used } bc') :
    LruInv { s with
      cache := cache, disk := disk, sessions := sessions, assigned := assigned
      used := a :: s.used } bc' := by
  have hget := h.structured.get_spec run
  refine ⟨inv', ?_, fun j hj => ?_, fun j hj href => ?_, fun j hj => ?_⟩
  · rw [hget.lru]
    refine h.sorted.front (decide_eq_false hget.refcnt) fun j hj => ?_
    have hne : j ≠ i := fun heq => hget.refcnt (heq ▸ of_decide_eq_true hj)
    unfold isUnreferenced at hj ⊢
    rwa [hget.bufs j hne] at hj
  · by_cases hji : j = i
    · rw [hji]
      exact hget.hashed
    · exact (hget.others j hji).mpr (h.released j hj)
  · have hne : j ≠ i := fun heq => hget.refcnt (heq ▸ href)
    rw [hget.bufs j hne] at href
    exact h.touched j ((hget.others j hne).mp hj) href
  · by_cases hji : j = i
    · rw [hji, hget.addr]
      exact List.mem_cons_self
    · rw [hget.bufs j hji]
      exact List.mem_cons_of_mem _ (h.used j ((hget.others j hji).mp hj))

/-- Nothing that matters here changes. -/
theorem congr (h : LruInv s bc) (inv' : MachineInv s' bc') (lru : bc'.lruList = bc.lruList)
    (hunref : ∀ j, isUnreferenced bc' j = isUnreferenced bc j)
    (haddr : ∀ j, (bc'.bufs j).addr = (bc.bufs j).addr) (table : bc'.hashTable = bc.hashTable)
    (hreleased : s'.released = s.released) (hused : s'.used = s.used) : LruInv s' bc' := by
  have hhash : ∀ j, Hashed bc' j ↔ Hashed bc j := fun j => hashed_congr (haddr j) table
  refine ⟨inv', ?_, fun j hj => ?_, fun j hj href => ?_, fun j hj => ?_⟩
  · rw [lru, hreleased, funext hunref]
    exact h.sorted
  · rw [hreleased] at hj
    exact (hhash j).mpr (h.released j hj)
  · rw [hreleased]
    have hold : isUnreferenced bc j = true := (hunref j).symm.trans (decide_eq_true href)
    exact h.touched j ((hhash j).mp hj) (of_decide_eq_true hold)
  · rw [hused, haddr]
    exact h.used j ((hhash j).mp hj)

theorem keep (h : LruInv s bc) {b : Buf B} {sessions : List Session}
    {flusher : Option Flusher} {disk : Disk B} (haddr : b.addr = (s.cache.bufs i).addr)
    (href : b.refcnt = (s.cache.bufs i).refcnt)
    (huses : sessions.map Session.use = s.sessions.map Session.use) :
    LruInv { s with
      cache := s.cache.setBuf i b
      disk := disk
      sessions := sessions
      flusher := flusher } (bc.setBuf i b) := by
  refine h.congr (h.toMachineInv.keep haddr href huses) rfl (fun j => ?_)
    (Bcache.setBuf_addr (h.represents.bufs ▸ haddr)) rfl rfl rfl
  unfold isUnreferenced
  by_cases hj : j = i
  · rw [hj, Bcache.setBuf_bufs_self, href, h.represents.bufs]
  · rw [Bcache.setBuf_bufs_of_ne _ _ hj]

theorem put (h : LruInv s bc) (pick : s.sessions[k]? = some ⟨i, a, .releasing⟩) :
    LruInv { s with
      cache := s.cache.brelse i
      sessions := s.sessions.eraseIdx k
      released := if ((s.cache.brelse i).bufs i).refcnt = 0 then i :: s.released
        else s.released } (brelsePut bc i) := by
  have hi := h.mem_lru pick
  have inv' : ∀ released, MachineInv { s with
      cache := s.cache.brelse i
      sessions := s.sessions.eraseIdx k
      released := released } (brelsePut bc i) := fun _ => h.toMachineInv.put pick
  obtain ⟨hbufs, htable, -⟩ := brelsePut_spec bc hi
  have haddr : ∀ j, ((brelsePut bc i).bufs j).addr = (bc.bufs j).addr := by
    intro j
    rw [hbufs]
    exact Bcache.setBuf_addr (by rfl) j
  have hhash : ∀ j, Hashed (brelsePut bc i) j ↔ Hashed bc j := fun j => hashed_congr (haddr j) htable
  have hother : ∀ j, j ≠ i → isUnreferenced (brelsePut bc i) j = isUnreferenced bc j := by
    intro j hj
    unfold isUnreferenced
    rw [hbufs, Bcache.setBuf_bufs_of_ne _ _ hj]
  have hlru := brelsePut_lru bc i
  rw [(h.represents.brelse hi).bufs]
  by_cases hzero : ((brelsePut bc i).bufs i).refcnt = 0
  · -- the last reference: the buffer goes to the back, behind all that were released before
    rw [if_pos hzero] at hlru ⊢
    refine ⟨inv' _, ?_, fun j hj => ?_, fun j hj href => ?_, fun j hj => ?_⟩
    · rw [hlru]
      exact h.sorted.back (h.structured.lru.nodup_iff.mpr List.nodup_range)
        (decide_eq_true hzero) hother
    · refine (hhash j).mpr ?_
      rcases List.mem_cons.mp hj with rfl | hj
      · exact (h.structured.use _ ((MachineInv.uses_perm pick).mem_iff.mp List.mem_cons_self)).1
      · exact h.released j hj
    · by_cases hji : j = i
      · rw [hji]
        exact List.mem_cons_self
      · have hold : isUnreferenced bc j = true := (hother j hji).symm.trans (decide_eq_true href)
        exact List.mem_cons_of_mem _
          (h.touched j ((hhash j).mp hj) (of_decide_eq_true hold))
    · rw [haddr]
      exact h.used j ((hhash j).mp hj)
  · -- the list stays, and so does the set of the unreferenced buffers
    rw [if_neg hzero] at hlru ⊢
    refine h.congr (inv' _) hlru (fun j => ?_) haddr htable rfl rfl
    by_cases hji : j = i
    · have hold : (bc.bufs i).refcnt ≠ 0 := by
        rw [hbufs, Bcache.setBuf_bufs_self] at hzero
        exact fun heq => hzero (by rw [heq])
      rw [hji]
      exact (decide_eq_false hzero).trans (decide_eq_false hold).symm
    · exact hother j hji

end LruInv

/-! ## Hits -/

theorem Resident.congr {used : List BlockAddr} (h : Resident used bc)
    (haddr : ∀ j, (bc'.bufs j).addr = (bc.bufs j).addr) (table : bc'.hashTable = bc.hashTable) :
    Resident used bc' := by
  intro few b hb
  obtain ⟨i, hi, hib⟩ := h few b hb
  exact ⟨i, (hashed_congr (haddr i) table).mpr hi, (haddr i).trans hib⟩

/-- When all buffers have been assigned, there are as many blocks as buffers. -/
theorem LruInv.card_used (h : LruInv s bc) (hall : ∀ i < BCACHE_SIZE, Hashed bc i) :
    BCACHE_SIZE ≤ s.used.toFinset.card := by
  rw [← Finset.card_range BCACHE_SIZE]
  refine Finset.card_le_card_of_injOn (fun i => (bc.bufs i).addr) (fun i hi => ?_)
    fun i hi j hj heq => ?_
  · exact List.mem_toFinset.mpr (h.used i (hall i (Finset.mem_range.mp hi)))
  · exact h.structured.unique i j (hall i (Finset.mem_range.mp hi))
      (hall j (Finset.mem_range.mp hj)) heq

/-- A miss that has no choice takes no buffer that has been assigned, unless all have been. -/
theorem LruInv.victim_new (h : LruInv s bc) {disk : Disk B}
    (run : bcacheGet bc s.disk a.1 a.2 = some (i, bc', disk))
    (miss : bcacheLookup bc a.1 a.2 = none) (fresh : s.Fresh)
    (few : s.used.toFinset.card < BCACHE_SIZE) : ¬Hashed bc i := by
  intro hhashed
  obtain ⟨⟨hi, href⟩, -⟩ := h.victim miss run
  have hreleased : i ∈ s.released := h.touched i hhashed (h.represents.bufs ▸ href)
  rcases fresh with hnever | hone
  · exact hnever i hi href hreleased
  · refine (h.card_used fun j hj => ?_).not_gt few
    by_cases hji : j = i
    · rw [hji]
      exact hhashed
    · refine h.structured.hashed_of_refcnt hj fun hjref => hji (hone j hj i hi ?_ href)
      rw [h.represents.bufs]
      exact hjref

theorem Resident.get (hr : Resident s.used bc) (h : LruInv s bc) {disk : Disk B}
    (run : bcacheGet bc s.disk a.1 a.2 = some (i, bc', disk)) (fresh : s.MissesFresh (.get a)) :
    Resident (a :: s.used) bc' := by
  intro few b hb
  have hget := h.structured.get_spec run
  have hsub : s.used.toFinset ⊆ (a :: s.used).toFinset := by
    rw [List.toFinset_cons]
    exact Finset.subset_insert a _
  have few' : s.used.toFinset.card < BCACHE_SIZE := (Finset.card_le_card hsub).trans_lt few
  rcases List.mem_cons.mp hb with rfl | hb
  · exact ⟨i, hget.hashed, hget.addr⟩
  · obtain ⟨j, hj, hjb⟩ := hr few' b hb
    by_cases hji : j = i
    · subst hji
      rcases get_cases run with ⟨hlook, -⟩ | ⟨hlook, -⟩
      · have hab : a = b := (lookup_some hlook).2.symm.trans hjb
        exact ⟨j, hget.hashed, hget.addr.trans hab⟩
      · exact absurd hj (h.victim_new run hlook (fresh (h.misses_iff.mpr hlook)) few')
    · refine ⟨j, (hget.others j hji).mpr hj, ?_⟩
      rw [hget.bufs j hji]
      exact hjb

/-! ## Every run -/

/-- Every step keeps the order, and the blocks that have been read if it misses only when there
is no choice. -/
theorem LruInv.step (h : LruInv s bc) {act : BcacheAction B} (run : s.next act = some s') :
    ∃ bc', LruInv s' bc' ∧ (s.MissesFresh act → Resident s.used bc → Resident s'.used bc') := by
  cases BcacheMachine.stepped run with
  | get hrun =>
      obtain ⟨bc', hget, inv'⟩ := h.toMachineInv.get hrun
      exact ⟨bc', h.get hget inv', fun fresh hr => hr.get h hget fresh⟩
  | put pick =>
      obtain ⟨hbufs, htable, -⟩ := brelsePut_spec bc (h.mem_lru pick)
      refine ⟨_, h.put pick, fun _ hr => hr.congr (fun j => ?_) htable⟩
      rw [hbufs]
      exact Bcache.setBuf_addr (by rfl) j
  | keep i b _ haddr href huses =>
      refine ⟨_, h.keep haddr href huses, fun _ hr => hr.congr (Bcache.setBuf_addr ?_) rfl⟩
      rw [← h.represents.bufs]
      exact haddr

/-- **Replacement.** In any run, a miss takes the least recently used of the unreferenced buffers
exactly when these are fresh or there is only one; and when all misses were so, a block that has
been read is found again as long as there are fewer blocks than buffers. -/
theorem lru_replacement {ok : BcacheMachine B → BcacheAction B → Prop} {c : LinkedBcache B}
    {disk : Disk B} {as : List (BcacheAction B)}
    (run : Lts.Run (Lts.Steps BcacheMachine.next ok) (.boot c disk) as s) :
    (∀ a, s.Misses a → ∀ i cache disk, s.cache.get s.disk a.1 a.2 = some (i, cache, disk) →
        (s.LeastRecent i ↔ s.Fresh))
      ∧ ((∀ t act, ok t act → t.MissesFresh act) → s.HitsUsed) := by
  have hinv : ∃ bc, LruInv s bc
      ∧ ((∀ t act, ok t act → t.MissesFresh act) → Resident s.used bc) := by
    refine run.invariant (P := fun t => ∃ bc, LruInv t bc
      ∧ ((∀ t act, ok t act → t.MissesFresh act) → Resident t.used bc)) ?_ ?_
    · obtain ⟨bc, h, hr⟩ := LruInv.boot c disk
      exact ⟨bc, h, fun _ => hr⟩
    · rintro t e t' ⟨bc, h, hr⟩ ⟨act, hok, -, hnext⟩
      obtain ⟨bc', h', hr'⟩ := h.step hnext
      exact ⟨bc', h', fun hfresh => hr' (hfresh t act hok) (hr hfresh)⟩
  obtain ⟨bc, h, hr⟩ := hinv
  refine ⟨fun a hmiss i cache disk hget => ?_, fun hfresh few a ha hmiss => ?_⟩
  · obtain ⟨bc', hget', -⟩ := h.get_lists hget
    exact h.leastRecent_iff (h.misses_iff.mp hmiss) hget'
  · obtain ⟨i, hi, hia⟩ := hr hfresh few a ha
    exact lookup_none (h.misses_iff.mp hmiss) hi hia

/-- Two blocks are read, and the first again after its release. -/
def rereadRun : List (BcacheAction Nat) :=
  [.get (0, 1), .use 0 .acquire, .use 0 .fill, .get (0, 2), .use 1 .unlock, .put 1, .get (0, 1)]

theorem lru_replacement_reread : ∃ s, Lts.Run
      (Lts.Steps BcacheMachine.next BcacheMachine.MissesFresh) (.boot zeroBcache fun _ => 0)
      rereadRun s
    ∧ (∀ a, s.Misses a → ∀ i cache disk, s.cache.get s.disk a.1 a.2 = some (i, cache, disk) →
        (s.LeastRecent i ↔ s.Fresh))
    ∧ s.HitsUsed := by
  have hsome : (Lts.exec BcacheMachine.next BcacheMachine.MissesFresh
      (.boot zeroBcache fun _ => 0) rereadRun).isSome = true := by decide +kernel
  obtain ⟨s, hs⟩ := Option.isSome_iff_exists.mp hsome
  obtain ⟨hvictim, hhits⟩ := lru_replacement (Lts.run_of_exec hs)
  exact ⟨s, Lts.run_of_exec hs, hvictim, hhits fun _ _ hok => hok⟩

/-- A block is read and released, and then another one is read. -/
def releasedRun : List (BcacheAction Nat) :=
  [.get (0, 1), .use 0 .acquire, .use 0 .fill, .use 0 .unlock, .put 0]

/-- The second block takes the buffer of the first although the other 127 have never been used,
and the first has to be read from the device again. -/
theorem lru_not_replaced :
    (¬∀ (as : List (BcacheAction Nat)) (s : BcacheMachine Nat), Lts.Run
        (Lts.Steps BcacheMachine.next fun _ _ => True) (.boot zeroBcache fun _ => 0) as s →
      s.TakesLeastRecent)
    ∧ ¬∀ (as : List (BcacheAction Nat)) (s : BcacheMachine Nat), Lts.Run
        (Lts.Steps BcacheMachine.next fun _ _ => True) (.boot zeroBcache fun _ => 0) as s →
      s.HitsUsed := by
  constructor
  · intro hall
    have hexec : (Lts.exec BcacheMachine.next (fun _ _ => True) (.boot zeroBcache fun _ => 0)
        releasedRun).any (fun s => s.Misses (0, 2)
          ∧ (s.cache.get s.disk 0 2).any (fun r => r.1 = 0)
          ∧ (s.cache.bufs 1).refcnt = 0 ∧ s.released = [0]) = true := by decide +kernel
    obtain ⟨s, hs, hfacts⟩ := (Option.any_eq_true _ _).mp hexec
    obtain ⟨hmiss, hget, hunused, hreleased⟩ := of_decide_eq_true hfacts
    obtain ⟨⟨i, cache, disk⟩, hrun, hi⟩ := (Option.any_eq_true _ _).mp hget
    have hi : i = 0 := of_decide_eq_true hi
    have hleast := hall _ s (Lts.run_of_exec hs) (0, 2) hmiss i cache disk hrun 1 (by decide) hunused
    rw [hi, hreleased] at hleast
    exact absurd hleast (by decide)
  · intro hall
    have hexec : (Lts.exec BcacheMachine.next (fun _ _ => True) (.boot zeroBcache fun _ => 0)
        (releasedRun ++ [.get (0, 2)])).any (fun s => s.used = [(0, 2), (0, 1)]
          ∧ s.Misses (0, 1)) = true := by decide +kernel
    obtain ⟨s, hs, hfacts⟩ := (Option.any_eq_true _ _).mp hexec
    obtain ⟨hused, hmiss⟩ := of_decide_eq_true hfacts
    refine hall _ s (Lts.run_of_exec hs) ?_ (0, 1) ?_ hmiss <;> rw [hused] <;> decide

end NoobKernel.Mm
