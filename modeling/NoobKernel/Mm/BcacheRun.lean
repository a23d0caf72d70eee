import NoobKernel.Mm.BcacheSteps

set_option autoImplicit false

/-! # Structure and pinning of the buffer cache

Over any run of the cache in use, the links stand for lists that are as they should be
(`MachineInv`). What `WellKept` says of a state is read off the invariant: `lru_list` goes once
through every buffer, a buffer that has been assigned is on the chain of its block and no other,
its count is that of its uses, and nobody takes it away from them.
-/

namespace NoobKernel.Mm

variable {B : Type}

/-- The links stand for the lists `bc`, and those are right. -/
structure MachineInv (s : BcacheMachine B) (bc : Bcache B) : Prop where
  represents : Represents s.cache bc
  structured : Structured bc (s.sessions.map Session.use)
  assigned : ∀ i, i ∈ s.assigned ↔ Hashed bc i

variable {s s' : BcacheMachine B} {bc bc' : Bcache B} {a : BlockAddr} {i j k : Nat}

namespace MachineInv

theorem boot (c : LinkedBcache B) (disk : Disk B) : ∃ bc, MachineInv (.boot c disk) bc := by
  refine ⟨_, (represents_init c).2, structured_init c, fun i => ⟨fun hi => ?_, fun hi => ?_⟩⟩
  · exact absurd hi List.not_mem_nil
  · exact absurd hi List.not_mem_nil

/-- The device does not matter. -/
theorem withDisk (h : MachineInv s bc) (disk : Disk B) : MachineInv { s with disk := disk } bc :=
  ⟨h.represents, h.structured, h.assigned⟩

theorem misses_iff (h : MachineInv s bc) : s.Misses a ↔ bcacheLookup bc a.1 a.2 = none := by
  rw [BcacheMachine.Misses, h.represents.lookup h.structured, Option.some_inj]

/-- What `bcache_get` does on the lists. -/
theorem get_lists (h : MachineInv s bc) {cache : LinkedBcache B} {disk : Disk B}
    (run : s.cache.get s.disk a.1 a.2 = some (i, cache, disk)) :
    ∃ bc', bcacheGet bc s.disk a.1 a.2 = some (i, bc', disk) ∧ Represents cache bc' := by
  have hrel := h.represents.get h.structured s.disk a
  rw [run] at hrel
  cases hget : bcacheGet bc s.disk a.1 a.2 with
  | none =>
      rw [hget] at hrel
      cases hrel
  | some r =>
      obtain ⟨i', bc', disk'⟩ := r
      rw [hget] at hrel
      cases hrel with
      | some hsame =>
          obtain ⟨rfl, hrep, rfl⟩ := hsame
          exact ⟨bc', rfl, hrep⟩

/-- What it does to the buffers. -/
theorem bufs_get (h : MachineInv s bc) {cache : LinkedBcache B} {disk : Disk B}
    (run : s.cache.get s.disk a.1 a.2 = some (i, cache, disk)) (j : Nat) :
    cache.bufs j = { s.cache.bufs j with refcnt := (cache.bufs j).refcnt }
      ∨ ((bc.bufs j).refcnt = 0 ∧ cache.bufs j = { s.cache.bufs j with
        dev := a.1, blockno := a.2, refcnt := 1, valid := false, dirty := false }) := by
  obtain ⟨bc', hget, hrep⟩ := h.get_lists run
  rw [hrep.bufs, h.represents.bufs]
  exact get_bufs hget j

/-- A miss assigns a buffer, a hit none. -/
theorem assigned_get (h : MachineInv s bc) {disk : Disk B}
    (run : bcacheGet bc s.disk a.1 a.2 = some (i, bc', disk)) (j : Nat) :
    j ∈ (if s.Misses a then i :: s.assigned else s.assigned) ↔ Hashed bc' j := by
  rcases get_cases run with ⟨hlook, -, rfl⟩ | ⟨hlook, -, rfl⟩
  · have hmiss : ¬s.Misses a := by
      rw [h.misses_iff, hlook]
      exact Option.some_ne_none i
    rw [if_neg hmiss, h.assigned]
    refine Iff.symm (hashed_congr ?_ rfl)
    rw [Bcache.touch_bufs]
    exact Bcache.setBuf_addr (by rfl) j
  · rw [if_pos (h.misses_iff.mpr hlook), List.mem_cons, h.assigned]
    by_cases hj : j = i
    · rw [hj]
      exact iff_of_true (.inl rfl) h.structured.hashed_reassign_self
    · rw [h.structured.hashed_reassign_of_ne hj]
      exact or_iff_right hj

/-- A reference is taken. -/
theorem get (h : MachineInv s bc) {cache : LinkedBcache B} {disk : Disk B}
    (run : s.cache.get s.disk a.1 a.2 = some (i, cache, disk)) :
    ∃ bc', bcacheGet bc s.disk a.1 a.2 = some (i, bc', disk) ∧ MachineInv { s with
      cache := cache
      disk := disk
      sessions := ⟨i, a, .waiting⟩ :: s.sessions
      assigned := if s.Misses a then i :: s.assigned else s.assigned
      used := a :: s.used } bc' := by
  obtain ⟨bc', hget, hrep⟩ := h.get_lists run
  exact ⟨bc', hget, hrep, h.structured.get hget, h.assigned_get hget⟩

/-- The use that ends. -/
theorem uses_perm (pick : s.sessions[k]? = some ⟨i, a, .releasing⟩) :
    ((i, a) :: (s.sessions.eraseIdx k).map Session.use).Perm (s.sessions.map Session.use) := by
  obtain ⟨hk, hpick⟩ := List.getElem?_eq_some_iff.mp pick
  have hcons := (List.getElem_cons_eraseIdx_perm hk).map Session.use
  rwa [List.map_cons, hpick] at hcons

theorem mem_lru (h : MachineInv s bc) (pick : s.sessions[k]? = some ⟨i, a, .releasing⟩) :
    i ∈ bc.lruList := by
  have hmem : (i, a) ∈ s.sessions.map Session.use := (uses_perm pick).mem_iff.mp List.mem_cons_self
  exact h.structured.mem_lru.mpr (h.structured.lt_of_hashed (h.structured.use _ hmem).1)

/-- `brelse` changes the counts. -/
theorem bufs_put (h : MachineInv s bc) (pick : s.sessions[k]? = some ⟨i, a, .releasing⟩) (j : Nat) :
    (s.cache.brelse i).bufs j
      = { s.cache.bufs j with refcnt := ((s.cache.brelse i).bufs j).refcnt } := by
  have hi := h.mem_lru pick
  rw [(h.represents.brelse hi).bufs, h.represents.bufs, (brelsePut_spec bc hi).1]
  by_cases hji : j = i
  · rw [hji, Bcache.setBuf_bufs_self]
  · rw [Bcache.setBuf_bufs_of_ne _ _ hji]

/-- A reference is given back. -/
theorem put (h : MachineInv s bc) {released : List Nat}
    (pick : s.sessions[k]? = some ⟨i, a, .releasing⟩) :
    MachineInv { s with
      cache := s.cache.brelse i
      sessions := s.sessions.eraseIdx k
      released := released } (brelsePut bc i) := by
  have hi := h.mem_lru pick
  obtain ⟨hbufs, htable, -⟩ := brelsePut_spec bc hi
  refine ⟨h.represents.brelse hi, h.structured.put (uses_perm pick), fun j => ?_⟩
  refine (h.assigned j).trans (Iff.symm (hashed_congr ?_ htable))
  rw [hbufs]
  exact Bcache.setBuf_addr (by rfl) j

theorem keep (h : MachineInv s bc) {b : Buf B} {sessions : List Session}
    {flusher : Option Flusher} {disk : Disk B} (haddr : b.addr = (s.cache.bufs i).addr)
    (href : b.refcnt = (s.cache.bufs i).refcnt)
    (huses : sessions.map Session.use = s.sessions.map Session.use) :
    MachineInv { s with
      cache := s.cache.setBuf i b
      disk := disk
      sessions := sessions
      flusher := flusher } (bc.setBuf i b) := by
  rw [h.represents.bufs] at haddr href
  refine ⟨h.represents.setBuf i b, ?_, fun j => ?_⟩
  · show Structured _ (sessions.map Session.use)
    rw [huses]
    exact h.structured.setBuf haddr href
  · exact (h.assigned j).trans (Iff.symm (hashed_congr (Bcache.setBuf_addr haddr j) rfl))

/-- Every step keeps the lists right. -/
theorem step (h : MachineInv s bc) {act : BcacheAction B} (run : s.next act = some s') :
    ∃ bc', MachineInv s' bc' := by
  cases BcacheMachine.stepped run with
  | get hrun =>
      obtain ⟨bc', -, inv'⟩ := h.get hrun
      exact ⟨bc', inv'⟩
  | put pick => exact ⟨_, h.put pick⟩
  | keep i b _ haddr href huses => exact ⟨_, h.keep haddr href huses⟩

/-- A use has a buffer of its block. -/
theorem use_buf (h : MachineInv s bc) {x : Session} (hx : x ∈ s.sessions) :
    x.buf < BCACHE_SIZE ∧ (s.cache.bufs x.buf).addr = x.addr := by
  obtain ⟨hhashed, haddr⟩ := h.structured.use x.use (List.mem_map_of_mem hx)
  rw [h.represents.bufs]
  exact ⟨h.structured.lt_of_hashed hhashed, haddr⟩

/-- A step leaves a referenced buffer to its block. -/
theorem steady (h : MachineInv s bc) {act : BcacheAction B} (run : s.next act = some s')
    (hj : 0 < (s.cache.bufs j).refcnt) : (s'.cache.bufs j).addr = (s.cache.bufs j).addr := by
  rw [h.represents.bufs] at hj ⊢
  cases BcacheMachine.stepped run with
  | get hrun =>
      obtain ⟨bc', hget, hrep⟩ := h.get_lists hrun
      show (LinkedBcache.bufs _ j).addr = _
      rw [hrep.bufs, get_pinned hget hj]
      rfl
  | put pick =>
      have hi := h.mem_lru pick
      show ((s.cache.brelse _).bufs j).addr = _
      rw [(h.represents.brelse hi).bufs, (brelsePut_spec bc hi).1]
      exact Bcache.setBuf_addr (by rfl) j
  | keep i b _ haddr href huses =>
      show ((s.cache.setBuf i b).bufs j).addr = _
      rw [(h.represents.setBuf i b).bufs]
      rw [h.represents.bufs] at haddr
      exact Bcache.setBuf_addr haddr j

/-- `lru_list` leads from its nodes to buffers of the cache. -/
theorem next_lt (h : MachineInv s bc) {n : Option Nat}
    (hn : ∀ i, n = some i → i < BCACHE_SIZE) (hj : s.cache.lru.next n = some j) :
    j < BCACHE_SIZE := by
  have hmem : n ∈ none :: bc.lruList.map some := by
    cases n with
    | none => exact List.mem_cons_self
    | some i =>
        refine List.mem_cons_of_mem _ (List.mem_map_of_mem ?_)
        exact h.structured.mem_lru.mpr (hn i rfl)
  have hnext := h.represents.lru.next_mem hmem
  rw [hj] at hnext
  simpa [h.structured.mem_lru] using hnext

end MachineInv

/-! ## Every run -/

/-- What holds of the cache between two steps. -/
structure WellKept (s : BcacheMachine B) : Prop where
  /-- `lru_list` goes through every buffer once. -/
  lru : ∃ xs : List Nat, s.cache.lru.Circle none (xs.map some) ∧ xs.Perm (List.range BCACHE_SIZE)
  /-- An assigned buffer is once on the chain of its block, and on no other. -/
  chain : ∃ xs : Nat → List Nat,
    (∀ h < BCACHE_HASH_SIZE, s.cache.hash.Circle (.head h) (List.map .buf (xs h)))
      ∧ ∀ i ∈ s.assigned, ∀ h < BCACHE_HASH_SIZE, (xs h).count i
        = if h = bcacheHash (s.cache.bufs i).dev (s.cache.bufs i).blockno then 1 else 0
  distinct : ∀ i ∈ s.assigned, ∀ j ∈ s.assigned,
    (s.cache.bufs i).addr = (s.cache.bufs j).addr → i = j
  /-- A count is the number of calls of `bread` that no `brelse` has followed. -/
  refcnt : ∀ i < BCACHE_SIZE,
    (s.cache.bufs i).refcnt = s.sessions.countP (fun x => x.buf = i)
  /-- These have the block they asked for. -/
  user : ∀ x ∈ s.sessions, x.buf ∈ s.assigned ∧ (s.cache.bufs x.buf).addr = x.addr
  /-- `bcache_get`, whatever it evicts, changes a referenced buffer in nothing but the count. -/
  pinned : ∀ a s', s.next (.get a) = some s' → ∀ i, 0 < (s.cache.bufs i).refcnt →
    s'.cache.bufs i = { s.cache.bufs i with refcnt := (s'.cache.bufs i).refcnt }
  /-- No step gives a referenced buffer another block. -/
  steady : ∀ act s', s.next act = some s' → ∀ i, 0 < (s.cache.bufs i).refcnt →
    (s'.cache.bufs i).addr = (s.cache.bufs i).addr

theorem MachineInv.pinned (h : MachineInv s bc) (run : s.next (.get a) = some s')
    (hi : 0 < (s.cache.bufs i).refcnt) :
    s'.cache.bufs i = { s.cache.bufs i with refcnt := (s'.cache.bufs i).refcnt } := by
  rw [h.represents.bufs] at hi ⊢
  cases BcacheMachine.stepped run with
  | get hrun =>
      obtain ⟨bc', hget, hrep⟩ := h.get_lists hrun
      dsimp only
      rw [hrep.bufs]
      exact get_pinned hget hi
  | keep _ _ hget => exact absurd rfl (hget a)

theorem MachineInv.wellKept (h : MachineInv s bc) : WellKept s where
  lru := ⟨bc.lruList, h.represents.lru, h.structured.lru⟩
  chain := by
    refine ⟨bc.hashTable, h.represents.chains.circle, fun i hi k hk => ?_⟩
    have hashed := (h.assigned i).mp hi
    rw [h.represents.bufs]
    by_cases hki : k = bcacheHash (bc.bufs i).dev (bc.bufs i).blockno
    · rw [if_pos hki, hki]
      exact List.count_eq_one_of_mem (h.structured.chain_nodup _) hashed
    · rw [if_neg hki]
      exact List.count_eq_zero_of_not_mem fun hmem => hki (h.structured.chain k i hmem).2.symm
  distinct i hi j hj heq := by
    rw [h.represents.bufs] at heq
    exact h.structured.unique i j ((h.assigned i).mp hi) ((h.assigned j).mp hj) heq
  refcnt i hi := by
    rw [h.represents.bufs, h.structured.refcnt i hi, countP_uses]
  user x hx := by
    rw [h.represents.bufs, h.assigned]
    exact h.structured.use x.use (List.mem_map_of_mem hx)
  pinned _ _ run _ := h.pinned run
  steady _ _ run _ := h.steady run

/-- **Structure and pinning.** Whatever memory held before `bcache_init`, and however the calls
of `bread`, `bwrite`, `brelse`, `bcache_flush` and `bcache_sync` interleave. -/
theorem cache_well_kept {c : LinkedBcache B} {disk : Disk B} {as : List (BcacheAction B)}
    (run : Lts.Run (Lts.Steps BcacheMachine.next fun _ _ => True) (.boot c disk) as s) :
    WellKept s := by
  have hinv : ∃ bc, MachineInv s bc := by
    refine run.invariant (P := fun t => ∃ bc, MachineInv t bc) (MachineInv.boot c disk) ?_
    rintro t e t' ⟨bc, h⟩ ⟨act, -, -, hnext⟩
    exact h.step hnext
  obtain ⟨bc, h⟩ := hinv
  exact h.wellKept

def zeroBcache : LinkedBcache Nat :=
  ⟨fun _ => ⟨0, 0, 0, 0, false, false, false⟩, ⟨id, id⟩, ⟨id, id⟩⟩

/-- Two blocks of one chain are read, one of them by two users; `bcache_flush` waits for the first
while it writes. -/
def sharedRun : List (BcacheAction Nat) :=
  [.get (1, 3), .use 0 .acquire, .use 0 .fill, .get (1, 20), .get (1, 3), .use 2 (.modify 5),
    .use 2 .bwrite, .flush (some 1), .flushNext, .use 2 .written, .use 2 .unlock, .flushNext,
    .flushNext, .flushNext]

theorem cache_well_kept_shared : ∃ s, Lts.Run (Lts.Steps BcacheMachine.next fun _ _ => True)
    (.boot zeroBcache fun _ => 0) sharedRun s ∧ WellKept s := by
  have hsome : (Lts.exec BcacheMachine.next (fun _ _ => True) (.boot zeroBcache fun _ => 0)
      sharedRun).isSome = true := by decide +kernel
  obtain ⟨s, hs⟩ := Option.isSome_iff_exists.mp hsome
  exact ⟨s, Lts.run_of_exec hs, cache_well_kept (Lts.run_of_exec hs)⟩

end NoobKernel.Mm
