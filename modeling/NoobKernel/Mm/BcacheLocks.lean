import NoobKernel.Mm.BcacheInv
import NoobKernel.Mm.BcacheRun

set_option autoImplicit false

/-! # The locks and flags of the buffers

Over any run of the cache in use, the lock of a buffer has at most one owner, one of its users or
the call that flushes (`LockInv`). As `bwrite` clears `dirty` with the lock in its hands, a buffer
is dirty only inside `bwrite`: `bcache_evict` never takes a dirty one (`LockInv.victim_clean`), and
`bcache_flush` has waited for the lock of a dirty buffer until it was clean
(`LockInv.flushed_clean`).
-/

namespace NoobKernel.Mm

variable {B : Type}

/-- What a step of one use does to the lock and the flags of its buffer. -/
structure Held (p : Phase) (b : Buf B) (p' : Phase) (b' : Buf B) : Prop where
  lock : (if b'.locked then 1 else 0) + (if p.owns then 1 else 0)
    = (if b.locked then 1 else 0) + (if p'.owns then 1 else 0)
  valid : b.valid = true → b'.valid = true
  opened : p'.opened = true → b'.valid = true
  dirty : b'.dirty = true → p' = .writing ∨ (b.dirty = true ∧ p ≠ .writing)

theorem holderNext_held {disk disk' : Disk B} {a : BlockAddr} {b b' : Buf B} {p p' : Phase}
    {act : HolderAction B} (run : holderNext disk a b p act = some (p', b', disk'))
    (hlocked : p.owns = true → b.locked = true) (hopened : p.opened = true → b.valid = true) :
    Held p b p' b' := by
  unfold holderNext at run
  split at run
  · split at run
    · cases run
    · -- `acquire`: the lock is free, and from here on it has an owner
      rename_i hfree
      cases run
      refine ⟨?_, id, (fun h => nomatch h), fun h => .inr ⟨h, Phase.noConfusion⟩⟩
      rw [if_neg hfree]
      rfl
  · cases run
    unfold breadFill
    split
    · -- `bread` reads the block only if the buffer is not valid
      rename_i hvalid
      exact ⟨rfl, id, fun _ => hvalid, fun h => .inr ⟨h, Phase.noConfusion⟩⟩
    · exact ⟨rfl, fun _ => rfl, fun _ => rfl, fun h => .inr ⟨h, Phase.noConfusion⟩⟩
  · cases run
    exact ⟨rfl, id, fun _ => hopened rfl, fun h => .inr ⟨h, Phase.noConfusion⟩⟩
  · unfold bwriteBegin at run
    split at run <;> cases run
    · exact ⟨rfl, id, hopened, fun h => .inr ⟨h, Phase.noConfusion⟩⟩
    · rename_i hbegin
      split at hbegin <;> cases hbegin
      exact ⟨rfl, id, fun _ => hopened rfl, fun _ => .inl rfl⟩
  · cases run
    exact ⟨rfl, id, fun _ => hopened rfl, fun h => nomatch h⟩
  · cases run
    refine ⟨?_, id, (fun h => nomatch h), fun h => .inr ⟨h, Phase.noConfusion⟩⟩
    -- `unlock`: the owner gives up the lock it has taken
    rw [hlocked rfl]
    rfl
  · cases run

/-- One use is replaced, among the others. -/
theorem sessions_set_perm {l : List Session} {x : Session} {k : Nat} (pick : l[k]? = some x) (y : Session) :
    ∃ rest, l.Perm (x :: rest) ∧ (l.set k y).Perm (y :: rest) := by
  obtain ⟨hk, rfl⟩ := List.getElem?_eq_some_iff.mp pick
  have hset : k < (l.set k y).length := by rwa [List.length_set]
  have hnew := List.getElem_cons_eraseIdx_perm hset
  rw [List.getElem_set_self, List.eraseIdx_set_eq] at hnew
  exact ⟨l.eraseIdx k, (List.getElem_cons_eraseIdx_perm hk).symm, hnew.symm⟩

/-- The call that flushes has the lock of buffer `i`. -/
def Flusher.owns (f : Flusher) (i : Nat) : Bool :=
  f.node = some i && (f.phase = .writing || f.phase = .clearing)

namespace BcacheMachine

def owners (s : BcacheMachine B) (i : Nat) : Nat :=
  s.sessions.countP (ownsBuf i) + (s.flusher.any (·.owns i)).toNat

structure LockInv (s : BcacheMachine B) : Prop where
  lock : ∀ i < BCACHE_SIZE, s.owners i = if (s.cache.bufs i).locked then 1 else 0
  opened : ∀ x ∈ s.sessions, x.phase.opened = true → (s.cache.bufs x.buf).valid = true
  dirty : ∀ i < BCACHE_SIZE, (s.cache.bufs i).dirty = true →
    ∃ x ∈ s.sessions, x.buf = i ∧ x.phase = .writing
  flushing : ∀ f i, s.flusher = some f → f.node = some i →
    i < BCACHE_SIZE ∧ (f.phase ≠ .visiting → (s.cache.bufs i).valid = true)

namespace LockInv

variable {s s' : BcacheMachine B} {bc bc' : Bcache B} {a : BlockAddr} {i k : Nat}

theorem boot (c : LinkedBcache B) (disk : Disk B) : LockInv (.boot c disk) where
  lock i hi := by
    show 0 = if (c.init.bufs i).locked then 1 else 0
    rw [(represents_init c).1 i hi]
    rfl
  opened _ hx := absurd hx List.not_mem_nil
  dirty i hi hdirty := by
    have hclean : (c.init.bufs i).dirty = false := by
      rw [(represents_init c).1 i hi]
      rfl
    exact absurd (hclean.symm.trans hdirty) Bool.false_ne_true
  flushing _ _ hf := nomatch hf

/-- The device does not matter. -/
theorem withDisk (h : LockInv s) (disk : Disk B) : LockInv { s with disk := disk } :=
  ⟨h.lock, h.opened, h.dirty, h.flushing⟩

/-! ### What the owner of a lock knows -/

theorem locked_of_owns (h : LockInv s) {x : Session} (hx : x ∈ s.sessions)
    (hlt : x.buf < BCACHE_SIZE) (howns : x.phase.owns = true) :
    (s.cache.bufs x.buf).locked = true := by
  have hpos : 0 < s.sessions.countP (ownsBuf x.buf) :=
    List.countP_pos_iff.mpr ⟨x, hx, by simp [ownsBuf, howns]⟩
  have hlock := h.lock x.buf hlt
  unfold owners at hlock
  by_contra hfree
  rw [if_neg hfree] at hlock
  omega

/-- A buffer that the flushing call has locked is clean. -/
theorem flushed_clean (h : LockInv s) {f : Flusher} (hf : s.flusher = some f)
    (hi : f.node = some i) (howns : f.owns i = true) : (s.cache.bufs i).dirty = false := by
  have hlt := (h.flushing f i hf hi).1
  by_contra hdirty
  obtain ⟨x, hx, rfl, hphase⟩ := h.dirty i hlt (Bool.eq_true_of_not_eq_false hdirty)
  have hpos : 0 < s.sessions.countP (ownsBuf x.buf) :=
    List.countP_pos_iff.mpr ⟨x, hx, by simp [ownsBuf, hphase, Phase.owns]⟩
  have hlock := h.lock x.buf hlt
  have hflush : (s.flusher.any (·.owns x.buf)).toNat = 1 := by
    rw [hf, Option.any_some, howns]
    rfl
  unfold owners at hlock
  rw [hflush] at hlock
  split at hlock <;> omega

/-- An unreferenced buffer is clean. -/
theorem victim_clean (h : LockInv s) (inv : MachineInv s bc) (hi : i < BCACHE_SIZE)
    (href : (bc.bufs i).refcnt = 0) : (s.cache.bufs i).dirty = false := by
  by_contra hdirty
  obtain ⟨x, hx, hxi, -⟩ := h.dirty i hi (Bool.eq_true_of_not_eq_false hdirty)
  exact inv.structured.buf_ne_of_refcnt href x.use (List.mem_map_of_mem hx) hxi

/-! ### The steps -/

/-- A use moves on. -/
theorem use (h : LockInv s) {x : Session} {p' : Phase} {b' : Buf B} {disk : Disk B}
    (pick : s.sessions[k]? = some x) (held : Held x.phase (s.cache.bufs x.buf) p' b') :
    LockInv { s with
      cache := s.cache.setBuf x.buf b'
      disk := disk
      sessions := s.sessions.set k { x with phase := p' } } := by
  obtain ⟨rest, hold, hnew⟩ := sessions_set_perm pick { x with phase := p' }
  have hvalid : ∀ j, (s.cache.bufs j).valid = true →
      ((s.cache.setBuf x.buf b').bufs j).valid = true := by
    intro j hj
    by_cases hjx : j = x.buf
    · rw [hjx] at hj ⊢
      rw [LinkedBcache.setBuf_bufs_self]
      exact held.valid hj
    · rwa [s.cache.setBuf_bufs_of_ne _ hjx]
  refine ⟨fun i hi => ?_, fun y hy hopened => ?_, fun i hi hdirty => ?_, fun f i hf hnode => ?_⟩
  · -- both sides of the equation change by what the step does to the lock
    have hlock := h.lock i hi
    unfold owners at hlock ⊢
    rw [hold.countP_eq, List.countP_cons] at hlock
    show (s.sessions.set k { x with phase := p' }).countP (ownsBuf i) + _ = _
    rw [hnew.countP_eq, List.countP_cons]
    by_cases hix : i = x.buf
    · have heq := held.lock
      subst hix
      simp only [ownsBuf, decide_true, Bool.true_and] at hlock ⊢
      show _ = if ((s.cache.setBuf x.buf b').bufs x.buf).locked then 1 else 0
      rw [LinkedBcache.setBuf_bufs_self]
      omega
    · have hno : ∀ p, ¬ownsBuf i { x with phase := p } = true := by
        intro p
        simp [ownsBuf, Ne.symm hix]
      rw [if_neg (hno _)] at hlock ⊢
      show _ = if ((s.cache.setBuf x.buf b').bufs i).locked then 1 else 0
      rw [s.cache.setBuf_bufs_of_ne _ hix]
      exact hlock
  · rcases List.mem_cons.mp (hnew.mem_iff.mp hy) with rfl | hy
    · show ((s.cache.setBuf x.buf b').bufs x.buf).valid = true
      rw [LinkedBcache.setBuf_bufs_self]
      exact held.opened hopened
    · exact hvalid _ (h.opened y (hold.mem_iff.mpr (List.mem_cons_of_mem _ hy)) hopened)
  · -- the use that has made the buffer dirty is this one, or another that stays
    have hkeep : ∀ y ∈ s.sessions, y ≠ x → y ∈ s.sessions.set k { x with phase := p' } := by
      intro y hy hne
      exact hnew.mem_iff.mpr (List.mem_cons_of_mem _ ((List.mem_cons.mp
        (hold.mem_iff.mp hy)).resolve_left hne))
    change ((s.cache.setBuf x.buf b').bufs i).dirty = true at hdirty
    by_cases hix : i = x.buf
    · rw [hix, LinkedBcache.setBuf_bufs_self] at hdirty
      rcases held.dirty hdirty with hp | ⟨hdirty, hp⟩
      · exact ⟨_, hnew.mem_iff.mpr List.mem_cons_self, hix.symm, hp⟩
      · obtain ⟨y, hy, hyi, hphase⟩ := h.dirty i hi (hix ▸ hdirty)
        exact ⟨y, hkeep y hy fun heq => hp (heq ▸ hphase), hyi, hphase⟩
    · rw [s.cache.setBuf_bufs_of_ne _ hix] at hdirty
      obtain ⟨y, hy, hyi, hphase⟩ := h.dirty i hi hdirty
      exact ⟨y, hkeep y hy fun heq => hix (heq ▸ hyi.symm), hyi, hphase⟩
  · obtain ⟨hi, hbusy⟩ := h.flushing f i hf hnode
    exact ⟨hi, fun hphase => hvalid i (hbusy hphase)⟩

/-- **References come and go**: the owners of the locks stay the same. -/
theorem recount (h : LockInv s) (flusher : s'.flusher = s.flusher)
    (owners' : (s'.sessions.filter fun x => x.phase.owns).Perm
      (s.sessions.filter fun x => x.phase.owns))
    (locked : ∀ j, (s'.cache.bufs j).locked = (s.cache.bufs j).locked)
    (dirty : ∀ j, (s'.cache.bufs j).dirty = true → (s.cache.bufs j).dirty = true)
    (valid : ∀ j, (s.cache.bufs j).valid = true → (s'.cache.bufs j).valid = true
      ∨ (s.flusher = none ∧ ∀ x ∈ s.sessions, x.buf ≠ j)) : LockInv s' := by
  have howner : ∀ x : Session, x.phase.owns = true → (x ∈ s'.sessions ↔ x ∈ s.sessions) := by
    intro x hx
    have hmem := owners'.mem_iff (a := x)
    rwa [List.mem_filter, List.mem_filter, and_iff_left hx, and_iff_left hx] at hmem
  have hopened : ∀ {p : Phase}, p.opened = true → p.owns = true := by
    intro p hp
    cases p <;> first | rfl | cases hp
  refine ⟨fun i hi => ?_, fun x hx hop => ?_, fun i hi hdirty => ?_, fun f i hf hnode => ?_⟩
  · unfold owners
    rw [flusher, countP_ownsBuf, owners'.countP_eq, ← countP_ownsBuf, locked]
    exact h.lock i hi
  · have hx := (howner x (hopened hop)).mp hx
    exact (valid _ (h.opened x hx hop)).resolve_right fun hfree => hfree.2 x hx rfl
  · obtain ⟨x, hx, hxi, hphase⟩ := h.dirty i hi (dirty i hdirty)
    exact ⟨x, (howner x (by rw [hphase]; rfl)).mpr hx, hxi, hphase⟩
  · rw [flusher] at hf
    obtain ⟨hi, hbusy⟩ := h.flushing f i hf hnode
    refine ⟨hi, fun hphase => (valid i (hbusy hphase)).resolve_right fun hfree => ?_⟩
    exact nomatch hfree.1.symm.trans hf

theorem get (h : LockInv s) (inv : MachineInv s bc) (free : s.flusher = none)
    {cache : LinkedBcache B} {disk : Disk B} {assigned : List Nat} {used : List BlockAddr}
    (run : s.cache.get s.disk a.1 a.2 = some (i, cache, disk)) :
    LockInv { s with
      cache := cache
      disk := disk
      sessions := ⟨i, a, .waiting⟩ :: s.sessions
      assigned := assigned
      used := used } := by
  have hbufs := inv.bufs_get run
  refine h.recount rfl (List.Perm.refl _) (fun j => ?_) (fun j hdirty => ?_) fun j hvalid => ?_
  · show (cache.bufs j).locked = _
    rcases hbufs j with heq | ⟨-, heq⟩ <;> rw [heq]
  · change (cache.bufs j).dirty = true at hdirty
    rcases hbufs j with heq | ⟨-, heq⟩ <;> rw [heq] at hdirty
    · exact hdirty
    · cases hdirty
  · rcases hbufs j with heq | ⟨href, -⟩
    · refine .inl ?_
      show (cache.bufs j).valid = true
      rwa [heq]
    · refine .inr ⟨free, fun x hx => ?_⟩
      exact inv.structured.buf_ne_of_refcnt href x.use (List.mem_map_of_mem hx)

theorem put (h : LockInv s) (inv : MachineInv s bc) {released : List Nat}
    (pick : s.sessions[k]? = some ⟨i, a, .releasing⟩) :
    LockInv { s with
      cache := s.cache.brelse i
      sessions := s.sessions.eraseIdx k
      released := released } := by
  obtain ⟨hk, hpick⟩ := List.getElem?_eq_some_iff.mp pick
  have hperm := (List.getElem_cons_eraseIdx_perm hk).filter fun x => x.phase.owns
  rw [hpick, List.filter_cons_of_neg Bool.false_ne_true] at hperm
  refine h.recount rfl hperm (fun j => ?_) (fun j hdirty => ?_) fun j hvalid => .inl ?_
  · show ((s.cache.brelse i).bufs j).locked = _
    rw [inv.bufs_put pick]
  · change ((s.cache.brelse i).bufs j).dirty = true at hdirty
    rwa [inv.bufs_put pick] at hdirty
  · show ((s.cache.brelse i).bufs j).valid = true
    rwa [inv.bufs_put pick]

/-- The flushing call moves on, with one buffer. -/
theorem reflush (h : LockInv s) {b : Buf B} {flusher : Option Flusher} {disk : Disk B}
    (lock_self : (if b.locked then 1 else 0) + (s.flusher.any (·.owns i)).toNat
      = (if (s.cache.bufs i).locked then 1 else 0) + (flusher.any (·.owns i)).toNat)
    (lock_other : ∀ j, j ≠ i → flusher.any (·.owns j) = s.flusher.any (·.owns j))
    (valid : b.valid = (s.cache.bufs i).valid)
    (dirty : b.dirty = true → (s.cache.bufs i).dirty = true)
    (flushing : ∀ f j, flusher = some f → f.node = some j →
      j < BCACHE_SIZE ∧ (f.phase ≠ .visiting → (s.cache.bufs j).valid = true)) :
    LockInv { s with
      cache := s.cache.setBuf i b
      disk := disk
      flusher := flusher } := by
  have hvalid : ∀ j, ((s.cache.setBuf i b).bufs j).valid = (s.cache.bufs j).valid := by
    intro j
    by_cases hji : j = i
    · rw [hji, LinkedBcache.setBuf_bufs_self, valid]
    · rw [s.cache.setBuf_bufs_of_ne _ hji]
  -- lock, open sessions, dirty buffers and the flushing call itself
  refine ⟨fun j hj => ?_, fun x hx hop => ?_, fun j hj hdirty => ?_, fun f j hf hnode => ?_⟩
  · have hlock := h.lock j hj
    unfold owners at hlock ⊢
    show s.sessions.countP (ownsBuf j) + (flusher.any (·.owns j)).toNat
      = if ((s.cache.setBuf i b).bufs j).locked then 1 else 0
    by_cases hji : j = i
    · subst hji
      rw [LinkedBcache.setBuf_bufs_self]
      omega
    · rw [s.cache.setBuf_bufs_of_ne _ hji, lock_other j hji]
      exact hlock
  · exact (hvalid _).trans (h.opened x hx hop)
  · refine h.dirty j hj ?_
    change ((s.cache.setBuf i b).bufs j).dirty = true at hdirty
    by_cases hji : j = i
    · rw [hji, LinkedBcache.setBuf_bufs_self] at hdirty
      rw [hji]
      exact dirty hdirty
    · rwa [s.cache.setBuf_bufs_of_ne _ hji] at hdirty
  · obtain ⟨hj, hbusy⟩ := flushing f j hf hnode
    exact ⟨hj, fun hphase => (hvalid j).trans (hbusy hphase)⟩

/-- It moves on and touches no buffer. -/
theorem setFlusher (h : LockInv s) {flusher : Option Flusher} {disk : Disk B}
    (owns : ∀ j, flusher.any (·.owns j) = s.flusher.any (·.owns j))
    (flushing : ∀ f j, flusher = some f → f.node = some j →
      j < BCACHE_SIZE ∧ (f.phase ≠ .visiting → (s.cache.bufs j).valid = true)) :
    LockInv { s with flusher := flusher, disk := disk } := by
  have hkeep : LockInv { s with
      cache := s.cache.setBuf 0 (s.cache.bufs 0)
      disk := disk
      flusher := flusher } :=
    h.reflush (by rw [owns]) (fun j _ => owns j) rfl id flushing
  rwa [s.cache.setBuf_self] at hkeep

/-- A buffer that is dirty is inside a `bwrite`, which looked at `valid`. -/
theorem valid_of_dirty (h : LockInv s) (hi : i < BCACHE_SIZE)
    (hdirty : (s.cache.bufs i).dirty = true) : (s.cache.bufs i).valid = true := by
  obtain ⟨x, hx, rfl, hphase⟩ := h.dirty i hi hdirty
  refine h.opened x hx ?_
  rw [hphase]
  rfl

theorem flushNext (h : LockInv s) (inv : MachineInv s bc) {f : Flusher} (hf : s.flusher = some f)
    {r : Option Flusher × LinkedBcache B × Disk B} (run : f.next s.cache s.disk = some r) :
    LockInv { s with
      flusher := r.1
      cache := r.2.1
      disk := r.2.2 } := by
  obtain ⟨dev, node, phase⟩ := f
  cases node with
  | none =>
      cases run
      refine h.setFlusher (fun j => ?_) ?_
      · rw [hf]
        rfl
      · rintro _ _ ⟨⟩
  | some i =>
      obtain ⟨hi, hbusy⟩ := h.flushing _ i hf rfl
      have hnext : ∀ j, s.cache.lru.next (some i) = some j → j < BCACHE_SIZE :=
        fun j => inv.next_lt fun _ heq => Option.some.inj heq ▸ hi
      cases phase with
      | visiting =>
          simp only [Flusher.next] at run
          split at run
          · -- a dirty buffer of the device, so a valid one
            rename_i hcond
            cases run
            refine h.setFlusher (fun j => ?_) ?_
            · rw [hf]
              simp [Flusher.owns]
            · rintro f j ⟨rfl⟩ ⟨rfl⟩
              exact ⟨hi, fun _ => h.valid_of_dirty hi hcond.2⟩
          · cases run
            refine h.setFlusher (fun j => ?_) ?_
            · rw [hf]
              simp [Flusher.owns]
            · rintro f j ⟨rfl⟩ hj
              exact ⟨hnext j hj, fun hphase => absurd rfl hphase⟩
      | locking =>
          simp only [Flusher.next] at run
          split at run <;> cases run
          rename_i hfree
          refine h.reflush ?_ (fun j hj => ?_) rfl id ?_
          · rw [hf, if_neg hfree]
            simp [Flusher.owns]
          · rw [hf]
            simp [Flusher.owns, Ne.symm hj]
          · rintro f j ⟨rfl⟩ ⟨rfl⟩
            exact ⟨hi, fun _ => hbusy FlushPhase.noConfusion⟩
      | writing =>
          cases run
          refine h.setFlusher (fun j => ?_) ?_
          · rw [hf]
            simp [Flusher.owns]
          · rintro f j ⟨rfl⟩ ⟨rfl⟩
            exact ⟨hi, fun _ => hbusy FlushPhase.noConfusion⟩
      | clearing =>
          -- the lock goes from the flusher to nobody
          cases run
          have hlock := h.lock i hi
          have hclean : false ≠ true := Bool.false_ne_true
          refine h.reflush ?_ (fun j hj => ?_) rfl (fun hdirty => absurd hdirty hclean) ?_
          · unfold owners at hlock
            rw [hf] at hlock ⊢
            simp [Flusher.owns] at hlock ⊢
            split at hlock <;> omega
          · rw [hf]
            simp [Flusher.owns, Ne.symm hj]
          · rintro f j ⟨rfl⟩ hj
            exact ⟨hnext j hj, fun hphase => absurd rfl hphase⟩

/-- Every step keeps the locks right. -/
theorem step (h : LockInv s) (inv : MachineInv s bc) {act : BcacheAction B}
    (run : s.next act = some s') : LockInv s' := by
  cases act with
  | get a =>
      obtain ⟨hfree, i, cache, disk, hrun, rfl⟩ := next_get run
      exact h.get inv hfree hrun
  | use k act =>
      obtain ⟨x, p, b, disk, hx, hrun, rfl⟩ := next_use run
      have hmem := List.mem_of_getElem? hx
      have hlt := (inv.use_buf hmem).1
      exact h.use hx (holderNext_held hrun (h.locked_of_owns hmem hlt) (h.opened x hmem))
  | put k =>
      obtain ⟨i, a, hpick, rfl⟩ := next_put run
      exact h.put inv hpick
  | flush dev =>
      obtain ⟨hfree, rfl⟩ := next_flush run
      refine h.setFlusher (fun j => ?_) ?_
      · rw [hfree]
        simp [Flusher.owns]
      · rintro f j ⟨rfl⟩ hj
        exact ⟨inv.next_lt (n := none) (fun _ heq => nomatch heq) hj,
          fun hphase => absurd rfl hphase⟩
  | flushNext =>
      obtain ⟨f, flusher, cache, disk, hf, hrun, rfl⟩ := next_flushNext run
      exact h.flushNext inv hf hrun

end LockInv

end BcacheMachine

end NoobKernel.Mm
