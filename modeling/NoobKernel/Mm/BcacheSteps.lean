import NoobKernel.Mm.BcacheLinks

set_option autoImplicit false

/-! # The buffer cache in use

Uses of buffers between `bread` and `brelse`, as in `Step`, and one call of `bcache_flush` or
`bcache_sync`, all at any point, over the cache on its links. The flushing call holds
`bcache.lock` from its first to its last step, so that no section of `bcache_get` or `brelse` runs
meanwhile; the holders of buffers go on, and the call waits for a dirty buffer's lock.

What has been assigned, released and read is recorded beside the state.
-/

namespace NoobKernel.Mm

variable {B : Type}

/-! ## One use of a buffer -/

inductive HolderAction (B : Type)
  | acquire
  | fill
  | modify (x : B)
  | bwrite
  | written
  | unlock
  deriving DecidableEq

/-- What the user of a buffer for the block `a` does between `bcache_get` and the section of
`brelse`. -/
def holderNext (disk : Disk B) (a : BlockAddr) (b : Buf B) :
    Phase → HolderAction B → Option (Phase × Buf B × Disk B)
  | .waiting, .acquire => if b.locked then none else some (.filling, { b with locked := true }, disk)
  | .filling, .fill => some (.holding false, breadFill disk a.1 a.2 b, disk)
  | .holding _, .modify x => some (.holding true, { b with data := x }, disk)
  | .holding m, .bwrite =>
      match bwriteBegin b with
      | none => some (.holding m, b, disk)
      | some b => some (.writing, b, disk)
  | .writing, .written => some (.holding false, (bwriteEnd disk b).1, (bwriteEnd disk b).2)
  | .holding _, .unlock => some (.releasing, { b with locked := false }, disk)
  | _, _ => none

/-- It is the same block, the count is not the user's, and only `bread` makes the buffer valid. -/
theorem holderNext_fields {disk disk' : Disk B} {a : BlockAddr} {b b' : Buf B} {phase phase' : Phase}
    {act : HolderAction B} (run : holderNext disk a b phase act = some (phase', b', disk')) :
    b'.addr = b.addr ∧ b'.refcnt = b.refcnt
      ∧ (b'.valid = true → b.valid = true ∨ (phase = .filling ∧ act = .fill)) := by
  unfold holderNext at run
  split at run
  · split at run
    · cases run
    · cases run
      exact ⟨rfl, rfl, .inl⟩
  · cases run
    unfold breadFill
    split <;> exact ⟨rfl, rfl, fun _ => .inr ⟨rfl, rfl⟩⟩
  · cases run
    exact ⟨rfl, rfl, .inl⟩
  · unfold bwriteBegin at run
    split at run <;> cases run
    · exact ⟨rfl, rfl, .inl⟩
    · rename_i hbegin
      split at hbegin <;> cases hbegin
      exact ⟨rfl, rfl, .inl⟩
  · cases run
    exact ⟨rfl, rfl, .inl⟩
  · cases run
    exact ⟨rfl, rfl, .inl⟩
  · cases run

/-! ## Flushing -/

inductive FlushPhase
  /-- the loop looks at a buffer -/
  | visiting
  /-- before the lock of a dirty buffer -/
  | locking
  /-- before `blk_write` -/
  | writing
  /-- after it -/
  | clearing
  deriving DecidableEq

/-- A call of `bcache_flush` for one device, or of `bcache_sync`, at a node of `lru_list`. -/
structure Flusher where
  dev : Option (BitVec 32)
  node : Option Nat
  phase : FlushPhase
  deriving DecidableEq

def Flusher.next (f : Flusher) (c : LinkedBcache B) (disk : Disk B) :
    Option (Option Flusher × LinkedBcache B × Disk B) :=
  match f.node with
  | none => some (none, c, disk)
  | some i =>
      let b := c.bufs i
      match f.phase with
      | .visiting =>
          if f.dev.all (b.dev = ·) ∧ b.dirty then some (some { f with phase := .locking }, c, disk)
          else some (some { f with node := c.lru.next (some i) }, c, disk)
      | .locking =>
          if b.locked then none
          else some (some { f with phase := .writing }, c.setBuf i { b with locked := true }, disk)
      | .writing =>
          some (some { f with phase := .clearing }, c, Function.update disk b.addr b.data)
      | .clearing =>
          some (some { f with node := c.lru.next (some i), phase := .visiting },
            c.setBuf i { b with dirty := false, locked := false }, disk)

theorem LinkedBcache.setBuf_self (c : LinkedBcache B) (i : Nat) : c.setBuf i (c.bufs i) = c := by
  unfold LinkedBcache.setBuf
  rw [Function.update_eq_self]

/-- So it is for the call that flushes. -/
theorem Flusher.next_fields {f : Flusher} {c : LinkedBcache B} {disk : Disk B}
    {r : Option Flusher × LinkedBcache B × Disk B} (run : f.next c disk = some r) :
    ∃ i b, r.2.1 = c.setBuf i b ∧ b.addr = (c.bufs i).addr ∧ b.refcnt = (c.bufs i).refcnt
      ∧ b.valid = (c.bufs i).valid := by
  have hsame : ∃ i b, c = c.setBuf i b ∧ b.addr = (c.bufs i).addr
      ∧ b.refcnt = (c.bufs i).refcnt ∧ b.valid = (c.bufs i).valid :=
    ⟨0, c.bufs 0, (c.setBuf_self 0).symm, rfl, rfl, rfl⟩
  obtain ⟨dev, node, phase⟩ := f
  cases node with
  | none =>
      cases run
      exact hsame
  | some i =>
      cases phase with
      | visiting =>
          simp only [Flusher.next] at run
          split at run <;> cases run <;> exact hsame
      | locking =>
          simp only [Flusher.next] at run
          split at run <;> cases run
          exact ⟨i, _, rfl, rfl, rfl, rfl⟩
      | writing =>
          cases run
          exact hsame
      | clearing =>
          cases run
          exact ⟨i, _, rfl, rfl, rfl, rfl⟩

/-! ## The machine -/

structure BcacheMachine (B : Type) where
  cache : LinkedBcache B
  disk : Disk B
  sessions : List Session
  /-- the holder of `bcache.lock` between two steps -/
  flusher : Option Flusher
  /-- the buffers that have been assigned to a block -/
  assigned : List Nat
  /-- the buffers whose count has come down to 0, the last one first -/
  released : List Nat
  /-- the blocks that have been read -/
  used : List BlockAddr

/-- After `bcache_init`. -/
def BcacheMachine.boot (c : LinkedBcache B) (disk : Disk B) : BcacheMachine B :=
  ⟨c.init, disk, [], none, [], [], []⟩

inductive BcacheAction (B : Type)
  /-- the section of `bcache_get` -/
  | get (a : BlockAddr)
  | use (k : Nat) (act : HolderAction B)
  /-- the section of `brelse` -/
  | put (k : Nat)
  /-- `bcache_flush` or `bcache_sync` takes `bcache.lock` -/
  | flush (dev : Option (BitVec 32))
  | flushNext
  deriving DecidableEq

namespace BcacheMachine

/-- `bcache_get` finds no buffer of the block. -/
def Misses (s : BcacheMachine B) (a : BlockAddr) : Prop := s.cache.lookup a.1 a.2 = some none

instance decidableMisses (s : BcacheMachine B) (a : BlockAddr) : Decidable (s.Misses a) :=
  inferInstanceAs (Decidable (_ = _))

/-- Uses are chosen by their position. -/
def next (s : BcacheMachine B) : BcacheAction B → Option (BcacheMachine B)
  | .get a =>
      if s.flusher.isSome then none
      else (s.cache.get s.disk a.1 a.2).map fun r => { s with
        cache := r.2.1
        disk := r.2.2
        sessions := ⟨r.1, a, .waiting⟩ :: s.sessions
        assigned := if s.Misses a then r.1 :: s.assigned else s.assigned
        used := a :: s.used }
  | .use k act =>
      match s.sessions[k]? with
      | none => none
      | some x =>
          (holderNext s.disk x.addr (s.cache.bufs x.buf) x.phase act).map fun r => { s with
            cache := s.cache.setBuf x.buf r.2.1
            disk := r.2.2
            sessions := s.sessions.set k { x with phase := r.1 } }
  -- `brelse`, after the buffer has been unlocked
  | .put k =>
      match s.sessions[k]? with
      | some ⟨i, _, .releasing⟩ =>
          if s.flusher.isSome then none
          else some { s with
            cache := s.cache.brelse i
            sessions := s.sessions.eraseIdx k
            released := if ((s.cache.brelse i).bufs i).refcnt = 0 then i :: s.released
              else s.released }
      | _ => none
  | .flush dev =>
      if s.flusher.isSome then none
      else some { s with flusher := some ⟨dev, s.cache.lru.next none, .visiting⟩ }
  | .flushNext =>
      match s.flusher with
      | none => none
      | some f => (f.next s.cache s.disk).map fun r => { s with
          flusher := r.1
          cache := r.2.1
          disk := r.2.2 }

/-! ## What a step can do -/

/-- The section of `bcache_get`, that of `brelse`, or a step that leaves the lists, the blocks and
the counts. -/
inductive Stepped (s : BcacheMachine B) : BcacheAction B → BcacheMachine B → Prop
  | get {a : BlockAddr} {i : Nat} {cache : LinkedBcache B} {disk : Disk B}
      (run : s.cache.get s.disk a.1 a.2 = some (i, cache, disk)) :
      Stepped s (.get a) { s with
        cache := cache
        disk := disk
        sessions := ⟨i, a, .waiting⟩ :: s.sessions
        assigned := if s.Misses a then i :: s.assigned else s.assigned
        used := a :: s.used }
  | put {k i : Nat} {a : BlockAddr} (pick : s.sessions[k]? = some ⟨i, a, .releasing⟩) :
      Stepped s (.put k) { s with
        cache := s.cache.brelse i
        sessions := s.sessions.eraseIdx k
        released := if ((s.cache.brelse i).bufs i).refcnt = 0 then i :: s.released
          else s.released }
  | keep {act : BcacheAction B} (i : Nat) (b : Buf B) {sessions : List Session}
      {flusher : Option Flusher} {disk : Disk B} (hget : ∀ a, act ≠ .get a)
      (haddr : b.addr = (s.cache.bufs i).addr) (href : b.refcnt = (s.cache.bufs i).refcnt)
      (huses : sessions.map Session.use = s.sessions.map Session.use) :
      Stepped s act { s with
        cache := s.cache.setBuf i b
        disk := disk
        sessions := sessions
        flusher := flusher }

variable {s s' : BcacheMachine B} {act : BcacheAction B} {a : BlockAddr} {k : Nat}

theorem next_get (run : s.next (.get a) = some s') : s.flusher = none
    ∧ ∃ i cache disk, s.cache.get s.disk a.1 a.2 = some (i, cache, disk) ∧ s' = { s with
      cache := cache
      disk := disk
      sessions := ⟨i, a, .waiting⟩ :: s.sessions
      assigned := if s.Misses a then i :: s.assigned else s.assigned
      used := a :: s.used } := by
  rw [next] at run
  split at run
  · cases run
  · rename_i hfree
    obtain ⟨⟨i, cache, disk⟩, hrun, rfl⟩ := Option.map_eq_some_iff.mp run
    exact ⟨Option.not_isSome_iff_eq_none.mp hfree, i, cache, disk, hrun, rfl⟩

theorem next_use {act : HolderAction B} (run : s.next (.use k act) = some s') :
    ∃ x p b disk, s.sessions[k]? = some x
      ∧ holderNext s.disk x.addr (s.cache.bufs x.buf) x.phase act = some (p, b, disk)
      ∧ s' = { s with
        cache := s.cache.setBuf x.buf b
        disk := disk
        sessions := s.sessions.set k { x with phase := p } } := by
  cases hx : s.sessions[k]? with
  | none =>
      rw [next, hx] at run
      cases run
  | some x =>
      rw [next, hx] at run
      obtain ⟨⟨p, b, disk⟩, hrun, rfl⟩ := Option.map_eq_some_iff.mp run
      exact ⟨x, p, b, disk, rfl, hrun, rfl⟩

theorem next_put (run : s.next (.put k) = some s') :
    ∃ i a, s.sessions[k]? = some ⟨i, a, .releasing⟩ ∧ s' = { s with
      cache := s.cache.brelse i
      sessions := s.sessions.eraseIdx k
      released := if ((s.cache.brelse i).bufs i).refcnt = 0 then i :: s.released
        else s.released } := by
  rw [next] at run
  split at run
  · rename_i i a hpick
    split at run <;> cases run
    exact ⟨i, a, hpick, rfl⟩
  · cases run

theorem next_flush {dev : Option (BitVec 32)} (run : s.next (.flush dev) = some s') :
    s.flusher = none ∧ s' = { s with flusher := some ⟨dev, s.cache.lru.next none, .visiting⟩ } := by
  rw [next] at run
  split at run <;> cases run
  rename_i hfree
  exact ⟨Option.not_isSome_iff_eq_none.mp hfree, rfl⟩

theorem next_flushNext (run : s.next .flushNext = some s') :
    ∃ f flusher cache disk, s.flusher = some f
      ∧ f.next s.cache s.disk = some (flusher, cache, disk)
      ∧ s' = { s with
        flusher := flusher
        cache := cache
        disk := disk } := by
  cases hf : s.flusher with
  | none =>
      rw [next, hf] at run
      cases run
  | some f =>
      rw [next, hf] at run
      obtain ⟨⟨flusher, cache, disk⟩, hrun, rfl⟩ := Option.map_eq_some_iff.mp run
      exact ⟨f, flusher, cache, disk, rfl, hrun, rfl⟩

theorem stepped (run : s.next act = some s') : Stepped s act s' := by
  cases act with
  | get a =>
      obtain ⟨-, i, cache, disk, hrun, rfl⟩ := next_get run
      exact .get hrun
  | use k act =>
      obtain ⟨x, p, b, disk, hx, hrun, rfl⟩ := next_use run
      obtain ⟨haddr, href, -⟩ := holderNext_fields hrun
      refine .keep x.buf b (fun _ h => nomatch h) haddr href ?_
      obtain ⟨hk, rfl⟩ := List.getElem?_eq_some_iff.mp hx
      rw [List.map_set]
      show (s.sessions.map Session.use).set k (Session.use s.sessions[k]) = _
      rw [← List.map_set, List.set_getElem_self]
  | put k =>
      obtain ⟨i, a, hpick, rfl⟩ := next_put run
      exact .put hpick
  | flush dev =>
      obtain ⟨-, rfl⟩ := next_flush run
      have hkeep : Stepped s (.flush dev) { s with
          cache := s.cache.setBuf 0 (s.cache.bufs 0)
          flusher := some ⟨dev, s.cache.lru.next none, .visiting⟩ } :=
        .keep 0 (s.cache.bufs 0) (fun _ h => nomatch h) rfl rfl rfl
      rw [s.cache.setBuf_self] at hkeep
      exact hkeep
  | flushNext =>
      obtain ⟨f, flusher, cache, disk, -, hrun, rfl⟩ := next_flushNext run
      obtain ⟨i, b, rfl, haddr, href, -⟩ := Flusher.next_fields hrun
      exact .keep i b (fun _ h => nomatch h) haddr href rfl

end BcacheMachine

end NoobKernel.Mm
