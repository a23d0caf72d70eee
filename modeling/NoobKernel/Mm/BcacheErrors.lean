import NoobKernel.Mm.BcacheLocks

set_option autoImplicit false

/-! # The buffer cache over a failing device

`blk_read` and `blk_write` return errors, and none of their callers in `bcache.c` looks at them
(`nextWith`). What has become of the requests is recorded beside the state. A run serves no
contents but those of the block exactly when none of its reads fails (`failed_read_served_iff`),
and keeps what it could not write exactly when a write fails only where the block has the contents
already (`failed_write_retried_iff`).
-/

namespace NoobKernel.Mm

variable {B : Type}

/-! ## Requests -/

namespace BcacheMachine

/-- The buffer that a step fills with `blk_read`, and the block it asks for. -/
def reads (s : BcacheMachine B) : BcacheAction B → Option (Nat × BlockAddr)
  | .use k .fill =>
      match s.sessions[k]? with
      | some ⟨i, a, .filling⟩ => if (s.cache.bufs i).valid then none else some (i, a)
      | _ => none
  | _ => none

/-- The buffer whose contents a step hands to `blk_write`. -/
def writes (s : BcacheMachine B) : BcacheAction B → Option Nat
  | .get a =>
      if s.Misses a then
        match s.cache.evict s.disk with
        | some (some (i, _)) => if (s.cache.bufs i).dirty then some i else none
        | _ => none
      else none
  | .use k .written =>
      match s.sessions[k]? with
      | some ⟨i, _, .writing⟩ => some i
      | _ => none
  | .flushNext =>
      match s.flusher with
      | some ⟨_, some i, .writing⟩ => some i
      | _ => none
  | _ => none

/-- A step, and whether its request fails, if it makes one. A read that fails leaves the contents
`x` in the buffer, a write that fails leaves the device. -/
def nextWith (s : BcacheMachine B) (act : BcacheAction B) : Option B → Option (BcacheMachine B)
  | none => s.next act
  | some x =>
      (next { s with disk := fun _ => x } act).map fun t => { t with disk := s.disk }

/-- The buffer that gets its contents from a `blk_read` or a complete `bwrite`, the block, and
whether these are its contents. -/
def settles (s : BcacheMachine B) (err : Option B) :
    BcacheAction B → Option (Nat × BlockAddr × Bool)
  | .use k .fill => (s.reads (.use k .fill)).map fun r => (r.1, r.2, err.isNone)
  | .use k .written =>
      if err.isSome then none
      else (s.writes (.use k .written)).map fun i => (i, (s.cache.bufs i).addr, true)
  | _ => none

/-! ### What a step does with its request -/

section

variable {s t : BcacheMachine B} {bc : Bcache B} {act : BcacheAction B} {err : Option B}
  {a : BlockAddr} {i j : Nat}

theorem reads_some (h : s.reads act = some (i, a)) : ∃ k, act = .use k .fill
    ∧ s.sessions[k]? = some ⟨i, a, .filling⟩ ∧ ¬(s.cache.bufs i).valid = true := by
  unfold reads at h
  split at h
  · split at h
    · rename_i hpick
      split at h <;> cases h
      rename_i hvalid
      exact ⟨_, rfl, hpick, hvalid⟩
    · cases h
  · cases h

theorem reads_fill {k : Nat} (pick : s.sessions[k]? = some ⟨i, a, .filling⟩)
    (hvalid : ¬(s.cache.bufs i).valid = true) : s.reads (.use k .fill) = some (i, a) := by
  unfold reads
  dsimp only
  rw [pick]
  exact if_neg hvalid

theorem reads_withDisk (disk : Disk B) : reads { s with disk := disk } act = s.reads act := by
  unfold reads
  rfl

/-- A failing request is a step over another device. -/
theorem nextWith_some (run : s.nextWith act err = some t) : ∃ (d d' : Disk B) (u : BcacheMachine B),
    next { s with disk := d } act = some u ∧ t = { u with disk := d' } := by
  cases err with
  | none => exact ⟨s.disk, t.disk, t, run, rfl⟩
  | some x =>
      obtain ⟨u, hu, rfl⟩ := Option.map_eq_some_iff.mp run
      exact ⟨_, _, u, hu, rfl⟩

theorem nextWith_disk {x : B} (run : s.nextWith act (some x) = some t) : t.disk = s.disk := by
  obtain ⟨u, -, rfl⟩ := Option.map_eq_some_iff.mp run
  rfl

theorem nextWith_inv (inv : MachineInv s bc) (run : s.nextWith act err = some t) :
    ∃ bc', MachineInv t bc' := by
  obtain ⟨d, d', u, hu, rfl⟩ := nextWith_some run
  obtain ⟨bc', inv'⟩ := (inv.withDisk d).step hu
  exact ⟨bc', inv'.withDisk d'⟩

/-- **Only a read makes a buffer valid**, for the block it was read from. -/
theorem next_valid (inv : MachineInv s bc) (run : s.next act = some t)
    (hj : (t.cache.bufs j).valid = true) :
    ((s.cache.bufs j).valid = true ∧ (t.cache.bufs j).addr = (s.cache.bufs j).addr)
      ∨ s.reads act = some (j, (t.cache.bufs j).addr) := by
  cases act with
  | get a =>
      obtain ⟨-, i, cache, disk, hrun, rfl⟩ := next_get run
      change (cache.bufs j).valid = true at hj
      rcases inv.bufs_get hrun j with heq | ⟨-, heq⟩ <;> rw [heq] at hj
      · refine .inl ⟨hj, ?_⟩
        show (cache.bufs j).addr = _
        rw [heq]
        rfl
      · -- the buffer that has been evicted is invalid
        cases hj
  | use k act =>
      obtain ⟨x, p', b', disk, hx, hrun, rfl⟩ := next_use run
      obtain ⟨haddr, -, hvalid⟩ := holderNext_fields hrun
      change ((s.cache.setBuf x.buf b').bufs j).valid = true at hj
      show _ ∧ ((s.cache.setBuf x.buf b').bufs j).addr = _ ∨ _
      by_cases hjx : j = x.buf
      · subst hjx
        rw [LinkedBcache.setBuf_bufs_self] at hj ⊢
        by_cases hold : (s.cache.bufs x.buf).valid = true
        · exact .inl ⟨hold, haddr⟩
        · -- it has just become valid, so the holder was filling it
          obtain ⟨hphase, rfl⟩ := (hvalid hj).resolve_left hold
          obtain ⟨i, a, p⟩ := x
          obtain rfl : p = .filling := hphase
          refine .inr ?_
          rw [reads_fill hx hold, haddr,
            (inv.use_buf (List.mem_of_getElem? hx)).2]
      · rw [s.cache.setBuf_bufs_of_ne _ hjx] at hj ⊢
        exact .inl ⟨hj, rfl⟩
  | put k =>
      obtain ⟨i, a, hpick, rfl⟩ := next_put run
      change ((s.cache.brelse i).bufs j).valid = true at hj
      rw [inv.bufs_put hpick] at hj
      refine .inl ⟨hj, ?_⟩
      show ((s.cache.brelse i).bufs j).addr = _
      rw [inv.bufs_put hpick]
      rfl
  | flush dev =>
      obtain ⟨-, rfl⟩ := next_flush run
      exact .inl ⟨hj, rfl⟩
  | flushNext =>
      obtain ⟨f, flusher, cache, disk, -, hrun, rfl⟩ := next_flushNext run
      obtain ⟨i, b, rfl, haddr, -, hvalid⟩ := Flusher.next_fields hrun
      change ((s.cache.setBuf i b).bufs j).valid = true at hj
      show _ ∧ ((s.cache.setBuf i b).bufs j).addr = _ ∨ _
      by_cases hji : j = i
      · subst hji
        rw [LinkedBcache.setBuf_bufs_self] at hj ⊢
        exact .inl ⟨hvalid ▸ hj, haddr⟩
      · rw [s.cache.setBuf_bufs_of_ne _ hji] at hj ⊢
        exact .inl ⟨hj, rfl⟩

theorem nextWith_valid (inv : MachineInv s bc) (run : s.nextWith act err = some t)
    (hj : (t.cache.bufs j).valid = true) :
    ((s.cache.bufs j).valid = true ∧ (t.cache.bufs j).addr = (s.cache.bufs j).addr)
      ∨ s.reads act = some (j, (t.cache.bufs j).addr) := by
  obtain ⟨d, d', u, hu, rfl⟩ := nextWith_some run
  rcases next_valid (inv.withDisk d) hu hj with hold | hread
  · exact .inl hold
  · exact .inr ((reads_withDisk d).symm.trans hread)

/-- Whatever becomes of the read. -/
theorem nextWith_reads (inv : MachineInv s bc) (run : s.nextWith act err = some t)
    (hr : s.reads act = some (i, a)) : i < BCACHE_SIZE ∧ (t.cache.bufs i).valid = true := by
  obtain ⟨d, d', u, hu, rfl⟩ := nextWith_some run
  obtain ⟨k, rfl, hx, hnot⟩ := reads_some hr
  obtain ⟨x, p', b', disk, hx', hrun, rfl⟩ := next_use hu
  obtain rfl := Option.some.inj (hx.symm.trans hx')
  refine ⟨(inv.use_buf (List.mem_of_getElem? hx)).1, ?_⟩
  cases hrun
  show ((s.cache.setBuf i _).bufs i).valid = true
  rw [LinkedBcache.setBuf_bufs_self]
  unfold breadFill
  exact congrArg Buf.valid (if_neg hnot)

theorem writes_some (h : s.writes act = some i) :
    (∃ a r, act = .get a ∧ s.cache.evict s.disk = some (some (i, r))
        ∧ (s.cache.bufs i).dirty = true)
      ∨ (∃ k a, act = .use k .written ∧ s.sessions[k]? = some ⟨i, a, .writing⟩)
      ∨ (act = .flushNext ∧ ∃ dev, s.flusher = some ⟨dev, some i, .writing⟩) := by
  unfold writes at h
  split at h
  · split at h
    · split at h
      · rename_i hevict
        split at h <;> cases h
        rename_i hdirty
        exact .inl ⟨_, _, rfl, hevict, hdirty⟩
      · cases h
    · cases h
  · split at h <;> cases h
    rename_i hpick
    exact .inr (.inl ⟨_, _, rfl, hpick⟩)
  · split at h <;> cases h
    rename_i hf
    exact .inr (.inr ⟨rfl, _, hf⟩)
  · cases h

theorem writes_withDisk (disk : Disk B) : writes { s with disk := disk } act = s.writes act := by
  cases act with
  | get a =>
      show (if s.Misses a then _ else none) = if s.Misses a then _ else none
      congr 1
      unfold LinkedBcache.evict
      cases Links.scan s.cache.lru.prev none s.cache.isFree (BCACHE_SIZE + 1)
          (s.cache.lru.prev none) with
      | none => rfl
      | some n => cases hn : n.join <;> simp [hn]
  | use k act => cases act <;> rfl
  | put k => rfl
  | flush dev => rfl
  | flushNext => rfl

/-- `bcache_evict` writes a dirty buffer. -/
theorem evict_disk {c c' : LinkedBcache B} {disk disk' : Disk B}
    (run : c.evict disk = some (some (i, c', disk'))) :
    disk' = if (c.bufs i).dirty then Function.update disk (c.bufs i).addr (c.bufs i).data
      else disk := by
  obtain ⟨n, -, hn⟩ := Option.map_eq_some_iff.mp run
  obtain ⟨j, -, hj⟩ := Option.map_eq_some_iff.mp hn
  cases hj
  rfl

theorem holderNext_disk {disk disk' : Disk B} {b b' : Buf B} {p p' : Phase} {act : HolderAction B}
    (hact : act ≠ .written) (run : holderNext disk a b p act = some (p', b', disk')) :
    disk' = disk := by
  unfold holderNext at run
  split at run
  · split at run <;> cases run
    rfl
  · cases run
    rfl
  · cases run
    rfl
  · split at run <;> cases run <;> rfl
  · exact absurd rfl hact
  · cases run
    rfl
  · cases run

/-- What a step does to the device. -/
theorem next_disk (run : s.next act = some t) : t.disk = match s.writes act with
    | some i => Function.update s.disk (s.cache.bufs i).addr (s.cache.bufs i).data
    | none => s.disk := by
  cases act with
  | get a =>
      obtain ⟨-, i, cache, disk, hrun, rfl⟩ := next_get run
      unfold writes
      dsimp only
      unfold LinkedBcache.get at hrun
      cases hlook : s.cache.lookup a.1 a.2 with
      | none =>
          rw [hlook] at hrun
          cases hrun
      | some o =>
          rw [hlook] at hrun
          cases o with
          | some j =>
              cases hrun
              have hhit : ¬s.Misses a := fun hmiss => Option.some_ne_none i
                (Option.some.inj (hlook.symm.trans hmiss))
              rw [if_neg hhit]
          | none =>
              -- a miss: the only writer among the lookups is the eviction of a dirty buffer
              have hmiss : s.Misses a := hlook
              rw [if_pos hmiss]
              cases hevict : s.cache.evict s.disk with
              | none =>
                  rw [hevict] at hrun
                  cases hrun
              | some r =>
                  rw [hevict] at hrun
                  cases r with
                  | none => cases hrun
                  | some r =>
                      obtain ⟨j, c, disk'⟩ := r
                      cases hrun
                      rw [evict_disk hevict]
                      dsimp only
                      cases (s.cache.bufs i).dirty <;> rfl
  | use k act =>
      obtain ⟨⟨i, a, p⟩, p', b', disk, hx, hrun, rfl⟩ := next_use run
      by_cases hact : act = .written
      · subst hact
        cases p with
        | writing =>
            cases hrun
            unfold writes
            dsimp only
            rw [hx]
            rfl
        | _ => cases hrun
      · have hnone : s.writes (.use k act) = none := by
          cases act <;> first | rfl | exact absurd rfl hact
        rw [hnone]
        exact holderNext_disk hact hrun
  | put k =>
      obtain ⟨i, a, -, rfl⟩ := next_put run
      rfl
  | flush dev =>
      obtain ⟨-, rfl⟩ := next_flush run
      rfl
  | flushNext =>
      obtain ⟨⟨dev, node, phase⟩, flusher, cache, disk, hf, hrun, rfl⟩ := next_flushNext run
      unfold writes
      dsimp only
      rw [hf]
      cases node with
      | none =>
          cases hrun
          rfl
      | some i =>
          cases phase with
          | visiting =>
              simp only [Flusher.next] at hrun
              split at hrun <;> cases hrun <;> rfl
          | locking =>
              simp only [Flusher.next] at hrun
              split at hrun <;> cases hrun
              rfl
          | writing =>
              cases hrun
              rfl
          | clearing =>
              cases hrun
              rfl

/-- **After its `blk_write` a buffer is clean**, whatever has become of it. -/
theorem next_writes (h : LockInv s) (inv : MachineInv s bc) (run : s.next act = some t)
    (hw : s.writes act = some i) : i < BCACHE_SIZE ∧ (t.cache.bufs i).valid = true
      ∧ (t.cache.bufs i).dirty = false ∧ (t.cache.bufs i).data = (s.cache.bufs i).data
      ∧ (t.cache.bufs i).addr = (s.cache.bufs i).addr := by
  rcases writes_some hw with ⟨a, r, rfl, hevict, hdirty⟩ | ⟨k, a, rfl, hpick⟩ | ⟨rfl, dev, hf⟩
  · -- `bcache_evict` takes no dirty buffer
    rw [inv.represents.evict inv.structured] at hevict
    obtain ⟨⟨j, bc₁, disk₁⟩, hlists, heq⟩ := Option.map_eq_some_iff.mp (Option.some.inj hevict)
    obtain rfl : j = i := congrArg Prod.fst heq
    obtain ⟨hi, href⟩ := evict_mem hlists
    rw [h.victim_clean inv (inv.structured.mem_lru.mp hi) href] at hdirty
    cases hdirty
  · obtain ⟨x, p', b', disk, hx, hrun, rfl⟩ := next_use run
    obtain rfl := Option.some.inj (hpick.symm.trans hx)
    have hmem := List.mem_of_getElem? hpick
    cases hrun
    refine ⟨(inv.use_buf hmem).1, ?_⟩
    show ((s.cache.setBuf i _).bufs i).valid = true ∧ ((s.cache.setBuf i _).bufs i).dirty = false
      ∧ ((s.cache.setBuf i _).bufs i).data = _ ∧ ((s.cache.setBuf i _).bufs i).addr = _
    rw [LinkedBcache.setBuf_bufs_self]
    exact ⟨h.opened _ hmem rfl, rfl, rfl, rfl⟩
  · obtain ⟨f, flusher, cache, disk, hf', hrun, rfl⟩ := next_flushNext run
    obtain rfl := Option.some.inj (hf.symm.trans hf')
    cases hrun
    obtain ⟨hi, hvalid⟩ := h.flushing _ i hf rfl
    refine ⟨hi, hvalid FlushPhase.noConfusion, ?_, rfl, rfl⟩
    exact h.flushed_clean hf rfl (by simp [Flusher.owns])

theorem nextWith_lockInv (h : LockInv s) (inv : MachineInv s bc)
    (run : s.nextWith act err = some t) : LockInv t := by
  obtain ⟨d, d', u, hu, rfl⟩ := nextWith_some run
  exact ((h.withDisk d).step (inv.withDisk d) hu).withDisk d'

theorem nextWith_writes (h : LockInv s) (inv : MachineInv s bc)
    (run : s.nextWith act err = some t) (hw : s.writes act = some i) :
    i < BCACHE_SIZE ∧ (t.cache.bufs i).valid = true ∧ (t.cache.bufs i).dirty = false
      ∧ (t.cache.bufs i).data = (s.cache.bufs i).data
      ∧ (t.cache.bufs i).addr = (s.cache.bufs i).addr := by
  obtain ⟨d, d', u, hu, rfl⟩ := nextWith_some run
  have hstep := next_writes (h.withDisk d) (inv.withDisk d) hu ((writes_withDisk d).trans hw)
  exact hstep

end

end BcacheMachine

/-- The cache, and what has become of the requests. -/
structure FaultyBcache (B : Type) extends BcacheMachine B where
  /-- the block that a buffer has its contents from -/
  obtained : Nat → Option BlockAddr
  /-- the last read of the block failed, and it has not been written -/
  unread : BlockAddr → Bool
  /-- what the last write should have put into the block, when it failed -/
  unwritten : BlockAddr → Option B

namespace FaultyBcache

def boot (c : LinkedBcache B) (disk : Disk B) : FaultyBcache B :=
  ⟨.boot c disk, fun _ => none, fun _ => false, fun _ => none⟩

def next (s : FaultyBcache B) (act : BcacheAction B × Option B) : Option (FaultyBcache B) :=
  (s.nextWith act.1 act.2).map fun t =>
    { toBcacheMachine := t
      obtained := match s.settles act.2 act.1 with
        | some (i, a, good) => Function.update s.obtained i (if good then some a else none)
        | none => s.obtained
      unread := match s.settles act.2 act.1 with
        | some (_, a, good) => Function.update s.unread a !good
        | none => s.unread
      unwritten := match s.writes act.1 with
        | some i => Function.update s.unwritten (s.cache.bufs i).addr
            (act.2.map fun _ => (s.cache.bufs i).data)
        | none => s.unwritten }

variable {s t : FaultyBcache B} {act : BcacheAction B × Option B} {a : BlockAddr} {i j : Nat}
  {good : Bool}

theorem next_some (run : s.next act = some t) :
    s.nextWith act.1 act.2 = some t.toBcacheMachine ∧ t = { s with
      toBcacheMachine := t.toBcacheMachine
      obtained := match s.settles act.2 act.1 with
        | some (i, a, good) => Function.update s.obtained i (if good then some a else none)
        | none => s.obtained
      unread := match s.settles act.2 act.1 with
        | some (_, a, good) => Function.update s.unread a !good
        | none => s.unread
      unwritten := match s.writes act.1 with
        | some i => Function.update s.unwritten (s.cache.bufs i).addr
            (act.2.map fun _ => (s.cache.bufs i).data)
        | none => s.unwritten } := by
  obtain ⟨u, hu, rfl⟩ := Option.map_eq_some_iff.mp run
  exact ⟨hu, rfl⟩

/-! ## Reads that fail -/

/-- A valid buffer has its contents from its block, and a `bread` of a block that could not be
read reads it again. -/
structure ServesRead (s : FaultyBcache B) : Prop where
  obtained : ∀ i < BCACHE_SIZE, (s.cache.bufs i).valid = true →
    s.obtained i = some (s.cache.bufs i).addr
  reread : ∀ x ∈ s.sessions, x.phase = .filling → s.unread x.addr = true →
    (s.cache.bufs x.buf).valid = false

def ReadSucceeds (s : FaultyBcache B) (act : BcacheAction B × Option B) : Prop :=
  act.2.isSome = true → s.reads act.1 = none

theorem settles_of_reads (h : s.reads act.1 = some (i, a)) :
    s.settles act.2 act.1 = some (i, a, act.2.isNone) := by
  obtain ⟨k, hact, -, -⟩ := BcacheMachine.reads_some h
  rw [hact] at h ⊢
  unfold BcacheMachine.settles
  dsimp only
  rw [h]
  rfl

/-- What settles the contents of a buffer. -/
theorem settles_cases (h : s.settles act.2 act.1 = some (i, a, good)) :
    (s.reads act.1 = some (i, a) ∧ good = act.2.isNone)
      ∨ (good = true ∧ a = (s.cache.bufs i).addr) := by
  obtain ⟨act, err⟩ := act
  dsimp only at h ⊢
  unfold BcacheMachine.settles at h
  split at h
  · obtain ⟨⟨i', a'⟩, hr, heq⟩ := Option.map_eq_some_iff.mp h
    cases heq
    exact .inl ⟨hr, rfl⟩
  · split at h
    · cases h
    · obtain ⟨i', -, heq⟩ := Option.map_eq_some_iff.mp h
      cases heq
      exact .inr ⟨rfl, rfl⟩
  · cases h

/-- As long as reads succeed. -/
structure ReadInv (s : FaultyBcache B) : Prop where
  machine : ∃ bc, MachineInv s.toBcacheMachine bc
  obtained : ∀ i < BCACHE_SIZE, (s.cache.bufs i).valid = true →
    s.obtained i = some (s.cache.bufs i).addr
  unread : ∀ a, s.unread a = false

namespace ReadInv

theorem boot (c : LinkedBcache B) (disk : Disk B) : ReadInv (.boot c disk) where
  machine := MachineInv.boot c disk
  obtained i hi hvalid := by
    have hinvalid : (c.init.bufs i).valid = false := by
      rw [(represents_init c).1 i hi]
      rfl
    exact absurd (hinvalid.symm.trans hvalid) Bool.false_ne_true
  unread _ := rfl

theorem servesRead (h : ReadInv s) : s.ServesRead where
  obtained := h.obtained
  reread x _ _ hunread := absurd ((h.unread x.addr).symm.trans hunread) Bool.false_ne_true

/-- Reads that succeed keep it. -/
theorem step (h : ReadInv s) (run : s.next act = some t) (hok : s.ReadSucceeds act) :
    ReadInv t := by
  obtain ⟨bc, inv⟩ := h.machine
  obtain ⟨hnext, heq⟩ := next_some run
  have hgood : ∀ {i a good}, s.settles act.2 act.1 = some (i, a, good) → good = true := by
    intro i a good hs
    rcases settles_cases hs with ⟨hr, rfl⟩ | ⟨hgood, -⟩
    · cases herr : act.2 with
      | none => rfl
      | some x =>
          have hnone := hok (by rw [herr]; rfl)
          rw [hr] at hnone
          cases hnone
    · exact hgood
  refine ⟨BcacheMachine.nextWith_inv inv hnext, fun j hj hvalid => ?_, fun a => ?_⟩ <;> rw [heq]
  · rcases BcacheMachine.nextWith_valid inv hnext hvalid with ⟨hold, haddr⟩ | hread
    · show _ = some (t.cache.bufs j).addr
      rw [haddr]
      cases hs : s.settles act.2 act.1 with
      | none => exact h.obtained j hj hold
      | some r =>
          obtain ⟨i, a, good⟩ := r
          obtain rfl := hgood hs
          show Function.update s.obtained i (some a) j = _
          by_cases hji : j = i
          · -- the contents of a valid buffer are settled by a `bwrite`
            subst hji
            rw [Function.update_self]
            rcases settles_cases hs with ⟨hr, -⟩ | ⟨-, rfl⟩
            · obtain ⟨k, -, -, hnot⟩ := BcacheMachine.reads_some hr
              exact absurd hold hnot
            · rfl
          · rw [Function.update_of_ne hji]
            exact h.obtained j hj hold
    · have hs := settles_of_reads hread
      dsimp only
      rw [hs, hgood hs]
      exact Function.update_self _ _ _
  · cases hs : s.settles act.2 act.1 with
    | none => exact h.unread a
    | some r =>
        obtain ⟨i, b, good⟩ := r
        obtain rfl := hgood hs
        show Function.update s.unread b false a = false
        rw [Function.update_apply]
        split
        · rfl
        · exact h.unread a

/-- A read that fails leaves a buffer that passes for read. -/
theorem readSucceeds (h : ReadInv s) (run : s.next act = some t) (served : t.ServesRead) :
    s.ReadSucceeds act := by
  obtain ⟨bc, inv⟩ := h.machine
  obtain ⟨hnext, heq⟩ := next_some run
  intro herr
  by_contra hread
  obtain ⟨⟨i, a⟩, hread⟩ := Option.ne_none_iff_exists'.mp hread
  obtain ⟨hi, hvalid⟩ := BcacheMachine.nextWith_reads inv hnext hread
  have hnone : t.obtained i = none := by
    rw [heq]
    dsimp only
    rw [settles_of_reads hread]
    dsimp only
    rw [Function.update_self, if_neg]
    rw [Option.isNone_iff_eq_none]
    rintro hnone
    rw [hnone] at herr
    cases herr
  have hsome := served.obtained i hi hvalid
  rw [hnone] at hsome
  cases hsome

end ReadInv

/-- **Failed reads.** A run serves what has been read, and reads again what could not be read, if
and only if no `blk_read` in it returns an error. -/
theorem failed_read_served_iff (c : LinkedBcache B) (disk : Disk B)
    (as : List (BcacheAction B × Option B)) :
    Lts.Throughout next ServesRead (.boot c disk) as
      ↔ Lts.Allowed next ReadSucceeds (.boot c disk) as :=
  Lts.throughout_iff_allowed (fun _ h => h.servesRead) (fun _ _ _ h run hok => h.step run hok)
    (fun _ _ _ h run served => h.readSucceeds run served) (ReadInv.boot c disk)

/-- One block is read and released, and the next one, which takes over its buffer, cannot be
read. -/
def failedRead : List (BcacheAction Nat × Option Nat) :=
  [(.get (0, 1), none), (.use 0 .acquire, none), (.use 0 .fill, none), (.use 0 .unlock, none),
    (.put 0, none), (.get (0, 2), none), (.use 0 .acquire, none), (.use 0 .fill, some 1)]

/-- The buffer of the second block then passes for valid, with the contents of the first. -/
theorem failed_read_not_served : ¬∀ as : List (BcacheAction Nat × Option Nat),
    Lts.Throughout next ServesRead (.boot zeroBcache fun a => a.2.toNat) as := by
  intro hall
  have hexec : (Lts.exec next (fun _ _ => True) (.boot zeroBcache fun a => a.2.toNat)
      failedRead).any (fun s => (s.cache.bufs 0).addr = (0, 2) ∧ (s.cache.bufs 0).data = 1
        ∧ (s.cache.bufs 0).valid = true ∧ s.obtained 0 = none) = true := by decide +kernel
  obtain ⟨s, hs, hfacts⟩ := (Option.any_eq_true _ _).mp hexec
  obtain ⟨-, -, hvalid, hnone⟩ := of_decide_eq_true hfacts
  have hsome := ((hall failedRead).of_exec hs).obtained 0 (by decide) hvalid
  rw [hnone] at hsome
  cases hsome

/-! ## Writes that fail -/

/-- A valid buffer whose contents the last write has not brought to the device is dirty, and what
a write has not brought there is still in a buffer. -/
structure RetriesWrite (s : FaultyBcache B) : Prop where
  dirty : ∀ i < BCACHE_SIZE, (s.cache.bufs i).valid = true →
    s.unwritten (s.cache.bufs i).addr = some (s.cache.bufs i).data →
    (s.cache.bufs i).data ≠ s.disk (s.cache.bufs i).addr → (s.cache.bufs i).dirty = true
  kept : ∀ a x, s.unwritten a = some x → x ≠ s.disk a →
    ∃ i < BCACHE_SIZE, (s.cache.bufs i).valid = true ∧ (s.cache.bufs i).addr = a

/-- A write fails only where it would not change the device. -/
def FailsHarmlessly (s : FaultyBcache B) (act : BcacheAction B × Option B) : Prop :=
  ∀ i, s.writes act.1 = some i → act.2.isSome = true →
    (s.cache.bufs i).data = s.disk (s.cache.bufs i).addr

structure WriteInv (s : FaultyBcache B) : Prop where
  machine : ∃ bc, MachineInv s.toBcacheMachine bc
  locks : s.LockInv
  unwritten : ∀ a x, s.unwritten a = some x → x = s.disk a

namespace WriteInv

theorem boot (c : LinkedBcache B) (disk : Disk B) : WriteInv (.boot c disk) where
  machine := MachineInv.boot c disk
  locks := .boot c disk
  unwritten _ _ h := nomatch h

theorem retriesWrite (h : WriteInv s) : s.RetriesWrite where
  dirty _ _ _ hun hne := absurd (h.unwritten _ _ hun) hne
  kept a x hun hne := absurd (h.unwritten a x hun) hne

/-- Writes that succeed, or fail without harm, keep it. -/
theorem step (h : WriteInv s) (run : s.next act = some t) (hok : s.FailsHarmlessly act) :
    WriteInv t := by
  obtain ⟨bc, inv⟩ := h.machine
  obtain ⟨hnext, heq⟩ := next_some run
  obtain ⟨act, err⟩ := act
  refine ⟨BcacheMachine.nextWith_inv inv hnext, BcacheMachine.nextWith_lockInv h.locks inv hnext,
    fun a x hun => ?_⟩
  rw [heq] at hun
  dsimp only at hun
  cases err with
  | none =>
      have hdisk : t.disk = _ := BcacheMachine.next_disk hnext
      rw [hdisk]
      cases hw : s.writes act with
      | none =>
          rw [hw] at hun
          exact h.unwritten a x hun
      | some i =>
          rw [hw] at hun
          change Function.update s.unwritten (s.cache.bufs i).addr none a = some x at hun
          show x = Function.update s.disk (s.cache.bufs i).addr (s.cache.bufs i).data a
          by_cases ha : a = (s.cache.bufs i).addr
          · -- the block has been written, so nothing is left to write
            rw [ha, Function.update_self] at hun
            cases hun
          · rw [Function.update_of_ne ha] at hun ⊢
            exact h.unwritten a x hun
  | some y =>
      have hdisk : t.disk = s.disk := BcacheMachine.nextWith_disk hnext
      rw [hdisk]
      cases hw : s.writes act with
      | none =>
          rw [hw] at hun
          exact h.unwritten a x hun
      | some i =>
          rw [hw] at hun
          change Function.update s.unwritten (s.cache.bufs i).addr (some (s.cache.bufs i).data) a
            = some x at hun
          by_cases ha : a = (s.cache.bufs i).addr
          · -- the write has failed, but the device had the data already
            rw [ha, Function.update_self] at hun
            rw [ha, ← hok i hw rfl]
            exact (Option.some.inj hun).symm
          · rw [Function.update_of_ne ha] at hun
            exact h.unwritten a x hun

/-- A write that fails with harm leaves a clean buffer. -/
theorem failsHarmlessly (h : WriteInv s) (run : s.next act = some t) (kept : t.RetriesWrite) :
    s.FailsHarmlessly act := by
  obtain ⟨bc, inv⟩ := h.machine
  obtain ⟨hnext, heq⟩ := next_some run
  obtain ⟨act, err⟩ := act
  intro i hw herr
  by_contra hne
  obtain ⟨y, rfl⟩ := Option.isSome_iff_exists.mp herr
  obtain ⟨hi, hvalid, hclean, hdata, haddr⟩ :=
    BcacheMachine.nextWith_writes h.locks inv hnext hw
  have hdisk : t.disk = s.disk := BcacheMachine.nextWith_disk hnext
  have hun : t.unwritten (t.cache.bufs i).addr = some (t.cache.bufs i).data := by
    rw [haddr, hdata, heq]
    dsimp only
    rw [hw]
    exact Function.update_self _ _ _
  have hdirty := kept.dirty i hi hvalid hun (by rwa [hdata, haddr, hdisk])
  rw [hclean] at hdirty
  cases hdirty

end WriteInv

/-- **Failed writes.** A run keeps what it could not write, in a dirty buffer, if and only if a
`blk_write` in it returns an error only where the block has these contents already. -/
theorem failed_write_retried_iff (c : LinkedBcache B) (disk : Disk B)
    (as : List (BcacheAction B × Option B)) :
    Lts.Throughout next RetriesWrite (.boot c disk) as
      ↔ Lts.Allowed next FailsHarmlessly (.boot c disk) as :=
  Lts.throughout_iff_allowed (fun _ h => h.retriesWrite) (fun _ _ _ h run hok => h.step run hok)
    (fun _ _ _ h run kept => h.failsHarmlessly run kept) (WriteInv.boot c disk)

/-- A block is changed in its buffer and cannot be written. -/
def failedWrite : List (BcacheAction Nat × Option Nat) :=
  [(.get (0, 1), none), (.use 0 .acquire, none), (.use 0 .fill, none),
    (.use 0 (.modify 5), none), (.use 0 .bwrite, none), (.use 0 .written, some 0)]

/-- `bwrite` leaves the buffer clean. -/
theorem failed_write_not_retried : ¬∀ as : List (BcacheAction Nat × Option Nat),
    Lts.Throughout next RetriesWrite (.boot zeroBcache fun a => a.2.toNat) as := by
  intro hall
  have hexec : (Lts.exec next (fun _ _ => True) (.boot zeroBcache fun a => a.2.toNat)
      failedWrite).any (fun s => (s.cache.bufs 0).addr = (0, 1) ∧ (s.cache.bufs 0).data = 5
        ∧ s.disk (0, 1) = 1 ∧ (s.cache.bufs 0).valid = true ∧ s.unwritten (0, 1) = some 5
        ∧ (s.cache.bufs 0).dirty = false) = true := by decide +kernel
  obtain ⟨s, hs, hfacts⟩ := (Option.any_eq_true _ _).mp hexec
  obtain ⟨haddr, hdata, hdisk, hvalid, hun, hclean⟩ := of_decide_eq_true hfacts
  have hdirty := ((hall failedWrite).of_exec hs).dirty 0 (by decide) hvalid
    (by rwa [haddr, hdata]) (by rw [haddr, hdata, hdisk]; decide)
  rw [hclean] at hdirty
  cases hdirty

end FaultyBcache

end NoobKernel.Mm
