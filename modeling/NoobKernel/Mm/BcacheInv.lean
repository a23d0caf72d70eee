import NoobKernel.Mm.BcacheLists

set_option autoImplicit false

/-! # Coherence of the buffer cache

The invariant `Inv` ties the hash chains, the reference counts, the buffer locks and the
contents to the uses in progress. A step that only moves one use on and rewrites its buffer is
covered by `Inv.update`; `bcache_get` and the end of `brelse` have their own lemmas. The
invariant makes every `bread` return what the device holds, so the cache refines the uncached
disk (`cache_refines_disk`).
-/

namespace NoobKernel.Mm

variable {B : Type}

namespace Phase

/-- The use holds the buffer's lock. -/
def owns : Phase → Bool
  | .filling | .holding _ | .writing => true
  | .waiting | .releasing => false

/-- `bread` has returned. -/
def opened : Phase → Bool
  | .holding _ | .writing => true
  | _ => false

/-- The contents may differ from the device's. -/
def modified : Phase → Bool
  | .holding m => m
  | .writing => true
  | _ => false

theorem owns_of_modified {p : Phase} (h : p.modified = true) : p.owns = true := by
  cases p <;> simp_all [modified, owns]

end Phase

/-- The uses that hold the lock of buffer `i`. -/
def ownsBuf (i : Nat) (x : Session) : Bool := x.buf = i && x.phase.owns

/-- The use that is picked, and the others. -/
theorem mem_pick {l₁ l₂ : List Session} {x y : Session} :
    y ∈ l₁ ++ x :: l₂ ↔ y = x ∨ y ∈ l₁ ++ l₂ := by
  rw [List.mem_append, List.mem_cons, List.mem_append]
  exact or_left_comm

theorem countP_ownsBuf (sessions : List Session) (i : Nat) : sessions.countP (ownsBuf i)
    = (sessions.filter fun x => x.phase.owns).countP fun x => x.buf = i := by
  rw [List.countP_filter]
  rfl

structure Inv (s : System B) : Prop where
  lru : s.bc.lruList.Perm (List.range BCACHE_SIZE)
  chain : ∀ h, ∀ i ∈ s.bc.hashTable h,
    i < BCACHE_SIZE ∧ bcacheHash (s.bc.bufs i).dev (s.bc.bufs i).blockno = h
  chain_nodup : ∀ h, (s.bc.hashTable h).Nodup
  unique : ∀ i j, Hashed s.bc i → Hashed s.bc j →
    (s.bc.bufs i).addr = (s.bc.bufs j).addr → i = j
  refcnt : ∀ i, (s.bc.bufs i).refcnt = s.sessions.countP (fun x => x.buf = i)
  session : ∀ x ∈ s.sessions, Hashed s.bc x.buf ∧ (s.bc.bufs x.buf).addr = x.addr
  lock : ∀ i, s.sessions.countP (ownsBuf i) = if (s.bc.bufs i).locked then 1 else 0
  valid_hashed : ∀ i, (s.bc.bufs i).valid = true → Hashed s.bc i
  opened : ∀ x ∈ s.sessions, x.phase.opened = true → (s.bc.bufs x.buf).valid = true
  dirty : ∀ i, (s.bc.bufs i).dirty = true → ∃ x ∈ s.sessions, x.buf = i ∧ x.phase = .writing
  clean : ∀ i, (s.bc.bufs i).valid = true →
    (∀ x ∈ s.sessions, x.buf = i → x.phase.modified = false) →
      (s.bc.bufs i).data = s.disk (s.bc.bufs i).addr

theorem Inv.boot (junk : Nat → B) (disk : Disk B) : Inv (System.boot junk disk) where
  lru := List.reverse_perm _
  chain := by simp [System.boot, bcacheInit]
  chain_nodup := by simp [System.boot, bcacheInit]
  unique := by simp [System.boot, bcacheInit, Hashed]
  refcnt := by simp [System.boot, bcacheInit]
  session := by simp [System.boot]
  lock := by simp [System.boot, bcacheInit]
  valid_hashed := by simp [System.boot, bcacheInit]
  opened := by simp [System.boot]
  dirty := by simp [System.boot, bcacheInit]
  clean := by simp [System.boot, bcacheInit]

variable {s : System B}

namespace Inv

theorem structured (inv : Inv s) : Structured s.bc (s.sessions.map Session.use) where
  lru := inv.lru
  chain := inv.chain
  chain_nodup := inv.chain_nodup
  unique := inv.unique
  refcnt i _ := (inv.refcnt i).trans (countP_uses s.sessions i).symm
  use x hx := by
    obtain ⟨y, hy, rfl⟩ := List.mem_map.mp hx
    exact inv.session y hy

/-- The holder of a buffer's lock is alone. -/
theorem exclusive (inv : Inv s) {l₁ l₂ : List Session} {x : Session}
    (pick : s.sessions = l₁ ++ x :: l₂) (hx : x.phase.owns = true) :
    ∀ y ∈ l₁ ++ l₂, y.buf = x.buf → y.phase.owns = false := by
  intro y hy hbuf
  by_contra hne
  have hyo : ownsBuf x.buf y = true := by simpa [ownsBuf, hbuf] using hne
  have hpos : 0 < (l₁ ++ l₂).countP (ownsBuf x.buf) := List.countP_pos_iff.mpr ⟨y, hy, hyo⟩
  have hlock := inv.lock x.buf
  have hxo : ownsBuf x.buf x = true := by simp [ownsBuf, hx]
  rw [pick, List.countP_append, List.countP_cons_of_pos hxo] at hlock
  rw [List.countP_append] at hpos
  split at hlock <;> omega

/-- Hence nobody else can have modified the contents. -/
theorem unmodified_others (inv : Inv s) {l₁ l₂ : List Session} {x : Session}
    (pick : s.sessions = l₁ ++ x :: l₂) (hx : x.phase.owns = true) :
    ∀ y ∈ l₁ ++ l₂, y.buf = x.buf → y.phase.modified = false := by
  intro y hy hbuf
  have hno := inv.exclusive pick hx y hy hbuf
  cases hm : y.phase.modified with
  | false => rfl
  | true => rw [Phase.owns_of_modified hm] at hno; exact hno

/-- The buffer of a use is that of its block, and no other buffer is. -/
theorem buf_addr (inv : Inv s) {l₁ l₂ : List Session} {x : Session}
    (pick : s.sessions = l₁ ++ x :: l₂) : (s.bc.bufs x.buf).addr = x.addr :=
  (inv.session x (by rw [pick]; simp)).2

/-- A valid buffer that no use has modified holds the device's block. -/
theorem clean_of_others (inv : Inv s) {l₁ l₂ : List Session} {i : Nat} {a : BlockAddr} {p : Phase}
    (pick : s.sessions = l₁ ++ ⟨i, a, p⟩ :: l₂) (valid : (s.bc.bufs i).valid = true)
    (hp : p.modified = false)
    (others : ∀ y ∈ l₁ ++ l₂, y.buf = i → y.phase.modified = false) :
    (s.bc.bufs i).data = s.disk a := by
  have haddr : (s.bc.bufs i).addr = a := inv.buf_addr pick
  rw [← haddr]
  refine inv.clean i valid fun x hx hxi => ?_
  rw [pick] at hx
  rcases mem_pick.mp hx with rfl | hx
  · exact hp
  · exact others x hx hxi

/-- A use that owns the lock finds it taken. -/
theorem locked_of_owns (inv : Inv s) {l₁ l₂ : List Session} {i : Nat} {a : BlockAddr} {p : Phase}
    (pick : s.sessions = l₁ ++ ⟨i, a, p⟩ :: l₂) (hp : p.owns = true) :
    (s.bc.bufs i).locked = true := by
  have hlock := inv.lock i
  rw [pick, List.countP_append, List.countP_cons_of_pos (by simp [ownsBuf, hp])] at hlock
  by_contra hfree
  rw [if_neg hfree] at hlock
  omega

theorem valid_of_opened (inv : Inv s) {l₁ l₂ : List Session} {i : Nat} {a : BlockAddr} {p : Phase}
    (pick : s.sessions = l₁ ++ ⟨i, a, p⟩ :: l₂) (hp : p.opened = true) :
    (s.bc.bufs i).valid = true :=
  inv.opened ⟨i, a, p⟩ (by rw [pick]; simp) hp

/-! ## Moving one use on -/

/-- **One use moves on** from `x` to `x'` and rewrites its own buffer. The chains, the block
of the buffer and its reference count stay; the premises are what the step must say about the
lock, the flags and the contents. -/
theorem update (inv : Inv s) {l₁ l₂ : List Session} {i : Nat} {a : BlockAddr} {p p' : Phase}
    {b' : Buf B} {disk' : Disk B} (pick : s.sessions = l₁ ++ ⟨i, a, p⟩ :: l₂)
    (addr_eq : b'.addr = (s.bc.bufs i).addr) (refcnt_eq : b'.refcnt = (s.bc.bufs i).refcnt)
    (disk_eq : ∀ c, c ≠ a → disk' c = s.disk c)
    (lock_eq : (if b'.locked then 1 else 0) + p.owns.toNat
      = (if (s.bc.bufs i).locked then 1 else 0) + p'.owns.toNat)
    (valid_mono : (s.bc.bufs i).valid = true → b'.valid = true)
    (opened' : p'.opened = true → b'.valid = true)
    (dirty' : b'.dirty = true → p' = .writing ∨ ((s.bc.bufs i).dirty = true ∧ p ≠ .writing))
    (clean' : b'.valid = true → p'.modified = false →
      (∀ y ∈ l₁ ++ l₂, y.buf = i → y.phase.modified = false) → b'.data = disk' a) :
    Inv ⟨s.bc.setBuf i b', disk', l₁ ++ ⟨i, a, p'⟩ :: l₂⟩ := by
  have hia : (s.bc.bufs i).addr = a := inv.buf_addr pick
  have haddr : ∀ j, ((s.bc.setBuf i b').bufs j).addr = (s.bc.bufs j).addr := by
    intro j
    by_cases hj : j = i
    · rw [hj, Bcache.setBuf_bufs_self, addr_eq]
    · rw [Bcache.setBuf_bufs_of_ne _ _ hj]
  have hdev : ∀ j, ((s.bc.setBuf i b').bufs j).dev = (s.bc.bufs j).dev :=
    fun j => congrArg Prod.fst (haddr j)
  have hblk : ∀ j, ((s.bc.setBuf i b').bufs j).blockno = (s.bc.bufs j).blockno :=
    fun j => congrArg Prod.snd (haddr j)
  have hhash : ∀ j, Hashed (s.bc.setBuf i b') j ↔ Hashed s.bc j := by
    intro j
    rw [Hashed, Hashed, hdev, hblk, Bcache.setBuf_hashTable]
  have hmemold : ∀ y, y ∈ l₁ ++ ⟨i, a, p'⟩ :: l₂ → y ≠ ⟨i, a, p'⟩ → y ∈ l₁ ++ l₂ := by
    intro y hy hne
    exact (mem_pick.mp hy).resolve_left hne
  have hsub : ∀ y ∈ l₁ ++ l₂, y ∈ s.sessions := by
    intro y hy
    rw [pick]
    exact mem_pick.mpr (.inr hy)
  refine ⟨inv.lru, ?_, inv.chain_nodup, ?_, ?_, ?_, ?_, ?_, ?_, ?_, ?_⟩
  · intro h j hj
    rw [hdev, hblk]
    exact inv.chain h j hj
  · intro j k hj hk heq
    rw [haddr, haddr] at heq
    exact inv.unique j k ((hhash j).mp hj) ((hhash k).mp hk) heq
  · -- the use goes on, in another phase
    intro j
    have hcount : (l₁ ++ (⟨i, a, p'⟩ : Session) :: l₂).countP (fun x => x.buf = j)
        = s.sessions.countP (fun x => x.buf = j) := by
      rw [pick]
      simp only [List.countP_append, List.countP_cons]
    rw [hcount, ← inv.refcnt j]
    by_cases hj : j = i
    · rw [hj, Bcache.setBuf_bufs_self, refcnt_eq]
    · rw [Bcache.setBuf_bufs_of_ne _ _ hj]
  · intro y hy
    show Hashed (s.bc.setBuf i b') y.buf ∧ ((s.bc.setBuf i b').bufs y.buf).addr = y.addr
    rw [hhash, haddr]
    by_cases hyx : y = ⟨i, a, p'⟩
    · rw [hyx]
      exact inv.session ⟨i, a, p⟩ (by rw [pick]; simp)
    · exact inv.session y (hsub y (hmemold y hy hyx))
  · -- of the uses of `i` only this one takes or gives up the lock
    intro j
    have hlock := inv.lock j
    rw [pick] at hlock
    simp only [List.countP_append, List.countP_cons, ownsBuf] at hlock ⊢
    by_cases hj : i = j
    · subst hj
      rw [Bcache.setBuf_bufs_self]
      simp only [decide_true, Bool.true_and] at hlock ⊢
      cases hp : p.owns <;> cases hp' : p'.owns <;>
        simp only [hp, hp', Bool.toNat_true, Bool.toNat_false, if_true, Bool.false_eq_true,
          if_false] at hlock lock_eq ⊢ <;> omega
    · rw [Bcache.setBuf_bufs_of_ne _ _ (Ne.symm hj)]
      simpa [hj] using hlock
  · intro j hj
    rw [hhash]
    by_cases hji : j = i
    · rw [hji]
      exact (inv.session ⟨i, a, p⟩ (by rw [pick]; simp)).1
    · rw [Bcache.setBuf_bufs_of_ne _ _ hji] at hj
      exact inv.valid_hashed j hj
  · intro y hy hop
    show ((s.bc.setBuf i b').bufs y.buf).valid = true
    by_cases hyx : y = ⟨i, a, p'⟩
    · rw [hyx, Bcache.setBuf_bufs_self]
      rw [hyx] at hop
      exact opened' hop
    · have hvalid := inv.opened y (hsub y (hmemold y hy hyx)) hop
      by_cases hyi : y.buf = i
      · rw [hyi, Bcache.setBuf_bufs_self]
        rw [hyi] at hvalid
        exact valid_mono hvalid
      · rwa [Bcache.setBuf_bufs_of_ne _ _ hyi]
  · -- a dirty buffer has a use that writes it, which is this one or has stayed
    intro j hj
    have hkeep : ∀ y ∈ s.sessions, y ≠ ⟨i, a, p⟩ → y ∈ l₁ ++ ⟨i, a, p'⟩ :: l₂ := by
      intro y hy hne
      rw [pick] at hy
      exact mem_pick.mpr (.inr ((mem_pick.mp hy).resolve_left hne))
    by_cases hji : j = i
    · rw [hji, Bcache.setBuf_bufs_self] at hj
      rcases dirty' hj with hw | ⟨hold, hpw⟩
      · exact ⟨⟨i, a, p'⟩, by simp, hji.symm, hw⟩
      · obtain ⟨y, hy, hyi, hyw⟩ := inv.dirty i hold
        refine ⟨y, hkeep y hy ?_, hyi.trans hji.symm, hyw⟩
        rintro rfl
        exact hpw hyw
    · rw [Bcache.setBuf_bufs_of_ne _ _ hji] at hj
      obtain ⟨y, hy, hyj, hyw⟩ := inv.dirty j hj
      refine ⟨y, hkeep y hy ?_, hyj, hyw⟩
      rintro rfl
      exact hji hyj.symm
  · intro j hj hmod
    show ((s.bc.setBuf i b').bufs j).data = disk' ((s.bc.setBuf i b').bufs j).addr
    rw [haddr]
    by_cases hji : j = i
    · subst hji
      rw [Bcache.setBuf_bufs_self] at hj ⊢
      rw [hia]
      exact clean' hj (hmod ⟨j, a, p'⟩ (by simp) rfl) fun y hy => hmod y (mem_pick.mpr (.inr hy))
    · rw [Bcache.setBuf_bufs_of_ne _ _ hji] at hj ⊢
      -- another valid buffer caches another block, which the step does not write
      have hja : (s.bc.bufs j).addr ≠ a := by
        intro heq
        refine hji (inv.unique j i (inv.valid_hashed j hj) ?_ (heq.trans hia.symm))
        exact (inv.session ⟨i, a, p⟩ (by rw [pick]; simp)).1
      rw [disk_eq _ hja]
      refine inv.clean j hj fun y hy hyj => hmod y ?_ hyj
      rw [pick] at hy
      rcases mem_pick.mp hy with rfl | hy
      · exact absurd hyj.symm hji
      · exact mem_pick.mpr (.inr hy)

/-! ## Taking and returning a reference -/

/-- An unreferenced buffer has no user. -/
theorem buf_ne_of_refcnt (inv : Inv s) {i : Nat} (h : (s.bc.bufs i).refcnt = 0) :
    ∀ x ∈ s.sessions, x.buf ≠ i :=
  fun x hx => inv.structured.buf_ne_of_refcnt h x.use (List.mem_map_of_mem hx)

/-- An evicted buffer is unreferenced and clean: no write-back happens. -/
theorem evict_clean (inv : Inv s) {i : Nat} {bc : Bcache B} {disk : Disk B}
    (run : bcacheEvict s.bc s.disk = some (i, bc, disk)) : disk = s.disk := by
  obtain ⟨-, -, hdisk⟩ := evict_some run
  have hclean : (s.bc.bufs i).dirty = false := by
    by_contra hd
    obtain ⟨x, hx, hxi, -⟩ := inv.dirty i (by simpa using hd)
    exact inv.buf_ne_of_refcnt (evict_mem run).2 x hx hxi
  rw [hdisk, hclean]
  rfl

/-- **References come and go.** When only reference counts and the order of the LRU list change
and every lock keeps its owner, the invariant needs the new counts and nothing else. -/
theorem recount (inv : Inv s) {bc : Bcache B} {sessions : List Session}
    (fields : ∀ j, bc.bufs j = { s.bc.bufs j with refcnt := (bc.bufs j).refcnt })
    (table : bc.hashTable = s.bc.hashTable)
    (owners : sessions.filter (fun x => x.phase.owns) = s.sessions.filter (fun x => x.phase.owns))
    (refcnt' : ∀ j, (bc.bufs j).refcnt = sessions.countP (fun x => x.buf = j))
    (structured' : Structured bc (sessions.map Session.use)) : Inv ⟨bc, s.disk, sessions⟩ := by
  have haddr : ∀ j, (bc.bufs j).addr = (s.bc.bufs j).addr := fun j => by rw [fields j]; rfl
  have hvalid : ∀ j, (bc.bufs j).valid = (s.bc.bufs j).valid := fun j => by rw [fields j]
  -- the sessions that hold a lock are the same ones
  have howner : ∀ x : Session, x.phase.owns = true → (x ∈ sessions ↔ x ∈ s.sessions) := by
    intro x hx
    have := congrArg (fun l => x ∈ l) owners
    simpa [List.mem_filter, hx] using this
  have hopened : ∀ {p : Phase}, p.opened = true → p.owns = true := by
    intro p hp
    cases p <;> simp_all [Phase.opened, Phase.owns]
  refine ⟨structured'.lru, structured'.chain, structured'.chain_nodup, structured'.unique, refcnt',
    fun x hx => structured'.use x.use (List.mem_map_of_mem hx), ?_, ?_, ?_, ?_, ?_⟩
  · intro j
    rw [countP_ownsBuf, owners, ← countP_ownsBuf, fields j]
    exact inv.lock j
  · intro j hj
    exact (hashed_congr (haddr j) table).mpr (inv.valid_hashed j (hvalid j ▸ hj))
  · intro x hx hop
    rw [hvalid]
    exact inv.opened x ((howner x (hopened hop)).mp hx) hop
  · intro j hj
    rw [fields j] at hj
    obtain ⟨x, hx, hxj, hw⟩ := inv.dirty j hj
    exact ⟨x, (howner x (by rw [hw]; rfl)).mpr hx, hxj, hw⟩
  · intro j hj hmod
    rw [haddr, fields j]
    refine inv.clean j (hvalid j ▸ hj) fun x hx hxj => ?_
    by_contra hm
    have hm' : x.phase.modified = true := by simpa using hm
    exact hm (hmod x ((howner x (Phase.owns_of_modified hm')).mpr hx) hxj)

/-- A hit takes one more reference. -/
theorem get_hit (inv : Inv s) {a : BlockAddr} {i : Nat}
    (run : bcacheLookup s.bc a.1 a.2 = some i) :
    Inv ⟨(s.bc.setBuf i { s.bc.bufs i with refcnt := (s.bc.bufs i).refcnt + 1 }).touch i, s.disk,
      ⟨i, a, .waiting⟩ :: s.sessions⟩ := by
  refine inv.recount ?_ rfl rfl ?_ (inv.structured.get_hit run)
  · intro j
    by_cases hj : j = i
    · rw [hj, Bcache.touch_bufs, Bcache.setBuf_bufs_self]
    · rw [Bcache.touch_bufs, Bcache.setBuf_bufs_of_ne _ _ hj]
  · intro j
    show ((s.bc.setBuf i _).bufs j).refcnt = _
    by_cases hj : j = i
    · rw [hj, Bcache.setBuf_bufs_self, List.countP_cons_of_pos (by simp), ← inv.refcnt]
    · rw [Bcache.setBuf_bufs_of_ne _ _ hj, List.countP_cons_of_neg (by simpa using Ne.symm hj)]
      exact inv.refcnt j

/-- `brelse` gives its reference back. -/
theorem put (inv : Inv s) {l₁ l₂ : List Session} {i : Nat} {a : BlockAddr}
    (pick : s.sessions = l₁ ++ ⟨i, a, .releasing⟩ :: l₂) :
    Inv ⟨brelsePut s.bc i, s.disk, l₁ ++ l₂⟩ := by
  have hperm : ((⟨i, a, .releasing⟩ : Session) :: (l₁ ++ l₂)).Perm s.sessions := by
    rw [pick]
    exact List.perm_middle.symm
  have hmem : (⟨i, a, .releasing⟩ : Session) ∈ s.sessions := hperm.mem_iff.mp List.mem_cons_self
  have hi : i ∈ s.bc.lruList :=
    inv.lru.mem_iff.mpr (List.mem_range.mpr (inv.chain _ i (inv.session _ hmem).1).1)
  obtain ⟨hbufs, htable, -⟩ := brelsePut_spec s.bc hi
  refine inv.recount ?_ htable ?_ ?_ (inv.structured.put (hperm.map Session.use))
  · intro j
    rw [hbufs]
    by_cases hj : j = i
    · rw [hj, Bcache.setBuf_bufs_self]
    · rw [Bcache.setBuf_bufs_of_ne _ _ hj]
  · rw [pick, List.filter_append, List.filter_append, List.filter_cons_of_neg (by simp [Phase.owns])]
  · intro j
    have href := inv.refcnt j
    rw [← hperm.countP_eq] at href
    rw [hbufs]
    by_cases hj : j = i
    · subst hj
      rw [List.countP_cons_of_pos (by simp)] at href
      rw [Bcache.setBuf_bufs_self]
      show (s.bc.bufs j).refcnt - 1 = _
      omega
    · rw [List.countP_cons_of_neg (by simpa using Ne.symm hj)] at href
      rw [Bcache.setBuf_bufs_of_ne _ _ hj, href]

/-- A miss gives an unreferenced buffer a new block. -/
theorem get_miss (inv : Inv s) {a : BlockAddr} {i : Nat}
    (miss : bcacheLookup s.bc a.1 a.2 = none) (hi : i < BCACHE_SIZE)
    (href : (s.bc.bufs i).refcnt = 0) :
    Inv ⟨s.bc.reassign i a, s.disk, ⟨i, a, .waiting⟩ :: s.sessions⟩ := by
  have hfree := inv.buf_ne_of_refcnt href
  have hs := inv.structured.reassign hi href fun j => lookup_none miss
  have hhash : ∀ j, j ≠ i → (Hashed (s.bc.reassign i a) j ↔ Hashed s.bc j) :=
    fun j => inv.structured.hashed_reassign_of_ne
  have hsess : ∀ x ∈ s.sessions, (s.bc.reassign i a).bufs x.buf = s.bc.bufs x.buf :=
    fun x hx => Bcache.reassign_bufs_of_ne (hfree x hx)
  refine ⟨hs.lru, hs.chain, hs.chain_nodup, hs.unique, ?_,
    fun x hx => hs.use x.use (List.mem_map_of_mem hx), ?_, ?_, ?_, ?_, ?_⟩
  · intro j
    show ((s.bc.reassign i a).bufs j).refcnt = _
    by_cases hj : j = i
    · rw [hj, Bcache.reassign_bufs_self, List.countP_cons_of_pos (by simp), ← inv.refcnt i, href]
    · rw [Bcache.reassign_bufs_of_ne hj, List.countP_cons_of_neg (by simpa using Ne.symm hj)]
      exact inv.refcnt j
  · intro j
    show _ = if ((s.bc.reassign i a).bufs j).locked then 1 else 0
    have hlock : ((s.bc.reassign i a).bufs j).locked = (s.bc.bufs j).locked := by
      by_cases hj : j = i
      · rw [hj, Bcache.reassign_bufs_self]
      · rw [Bcache.reassign_bufs_of_ne hj]
    rw [hlock, List.countP_cons_of_neg (by simp [ownsBuf, Phase.owns])]
    exact inv.lock j
  · intro j hj
    by_cases hji : j = i
    · rw [hji]
      exact inv.structured.hashed_reassign_self
    · refine (hhash j hji).mpr (inv.valid_hashed j ?_)
      rw [← Bcache.reassign_bufs_of_ne hji]
      exact hj
  · intro x hx hop
    show ((s.bc.reassign i a).bufs x.buf).valid = true
    rcases List.mem_cons.mp hx with rfl | hx
    · simp [Phase.opened] at hop
    · rw [hsess x hx]
      exact inv.opened x hx hop
  · intro j hj
    have hj' : ((s.bc.reassign i a).bufs j).dirty = true := hj
    by_cases hji : j = i
    · -- the buffer starts clean, as it starts invalid
      rw [hji, Bcache.reassign_bufs_self] at hj'
      exact absurd hj' (by simp)
    · rw [Bcache.reassign_bufs_of_ne hji] at hj'
      obtain ⟨x, hx, hxj⟩ := inv.dirty j hj'
      exact ⟨x, List.mem_cons_of_mem _ hx, hxj⟩
  · intro j hj hmod
    have hj' : ((s.bc.reassign i a).bufs j).valid = true := hj
    show ((s.bc.reassign i a).bufs j).data = s.disk ((s.bc.reassign i a).bufs j).addr
    by_cases hji : j = i
    · rw [hji, Bcache.reassign_bufs_self] at hj'
      exact absurd hj' (by simp)
    · rw [Bcache.reassign_bufs_of_ne hji] at hj' ⊢
      exact inv.clean j hj' fun x hx => hmod x (List.mem_cons_of_mem _ hx)

/-- Both cases of `bcache_get`. -/
theorem get (inv : Inv s) {a : BlockAddr} {i : Nat} {bc : Bcache B} {disk : Disk B}
    (run : bcacheGet s.bc s.disk a.1 a.2 = some (i, bc, disk)) :
    Inv ⟨bc, disk, ⟨i, a, .waiting⟩ :: s.sessions⟩ ∧ disk = s.disk := by
  rcases get_cases run with ⟨hlook, rfl, rfl⟩ | ⟨hlook, ⟨bc₁, hevict⟩, rfl⟩
  · exact ⟨inv.get_hit hlook, rfl⟩
  · obtain ⟨hi, href⟩ := evict_mem hevict
    obtain rfl := inv.evict_clean hevict
    exact ⟨inv.get_miss hlook (inv.structured.mem_lru.mp hi) href, rfl⟩

/-- `bcache_get` panics only when every buffer is in use. -/
theorem get_available (inv : Inv s) (few : s.sessions.length < BCACHE_SIZE) (a : BlockAddr) :
    ∃ r, bcacheGet s.bc s.disk a.1 a.2 = some r := by
  unfold bcacheGet
  cases bcacheLookup s.bc a.1 a.2 with
  | some j => exact ⟨_, rfl⟩
  | none =>
      cases hevict : bcacheEvict s.bc s.disk with
      | some r => exact ⟨_, rfl⟩
      | none =>
          exfalso
          have hall : List.range BCACHE_SIZE ⊆ s.sessions.map Session.buf := by
            intro i hi
            have href := evict_none hevict i (inv.lru.mem_iff.mpr hi)
            rw [inv.refcnt i, ← Nat.pos_iff_ne_zero, List.countP_pos_iff] at href
            obtain ⟨x, hx, hxi⟩ := href
            exact List.mem_map.mpr ⟨x, hx, by simpa using hxi⟩
          have hlen := (List.subperm_of_subset List.nodup_range hall).length_le
          rw [List.length_range, List.length_map] at hlen
          omega

/-- **What `bread` returns**: the contents of the device block it was asked for. -/
theorem bread_data (inv : Inv s) {l₁ l₂ : List Session} {i : Nat} {a : BlockAddr}
    (pick : s.sessions = l₁ ++ ⟨i, a, .filling⟩ :: l₂) :
    (breadFill s.disk a.1 a.2 (s.bc.bufs i)).data = s.disk a := by
  unfold breadFill
  by_cases hv : (s.bc.bufs i).valid = true
  · rw [if_pos hv]
    exact inv.clean_of_others pick hv rfl (inv.unmodified_others pick rfl)
  · rw [if_neg hv]

/-! ## Every step -/

theorem step (inv : Inv s) {e : Option (Event B)} {s' : System B} (step : Step s e s') :
    Inv s' := by
  cases step with
  | get run => exact (inv.get run).1
  | acquire pick free =>
      refine inv.update pick rfl rfl (fun _ _ => rfl) ?_ id (fun h => nomatch h) ?_ ?_
      · simp [free, Phase.owns]
      · exact fun h => Or.inr ⟨h, by simp⟩
      · exact fun hv _ hmod => inv.clean_of_others pick hv rfl hmod
  | bread pick =>
      rename_i l₁ l₂ i a
      have hdata := inv.bread_data pick
      have hfill : ∀ b : Buf B, (breadFill s.disk a.1 a.2 b).addr = b.addr
          ∧ (breadFill s.disk a.1 a.2 b).refcnt = b.refcnt
          ∧ (breadFill s.disk a.1 a.2 b).locked = b.locked
          ∧ (breadFill s.disk a.1 a.2 b).dirty = b.dirty
          ∧ (breadFill s.disk a.1 a.2 b).valid = true := by
        intro b
        unfold breadFill
        by_cases hv : b.valid = true
        · rw [if_pos hv]
          exact ⟨rfl, rfl, rfl, rfl, hv⟩
        · rw [if_neg hv]
          exact ⟨rfl, rfl, rfl, rfl, rfl⟩
      obtain ⟨haddr, href, hlock, hdirty, hvalid⟩ := hfill (s.bc.bufs i)
      refine inv.update pick haddr href (fun _ _ => rfl) ?_ (fun _ => hvalid) (fun _ => hvalid) ?_
        (fun _ _ _ => hdata)
      · rw [hlock]
        rfl
      · rw [hdirty]
        exact fun h => Or.inr ⟨h, by simp⟩
  | modify pick =>
      have hv := inv.valid_of_opened pick rfl
      refine inv.update pick rfl rfl (fun _ _ => rfl) rfl id (fun _ => hv) ?_ ?_
      · exact fun h => Or.inr ⟨h, by simp⟩
      · exact fun _ h => nomatch h
  | bwriteInvalid pick run => exact inv
  | bwriteBegin pick run =>
      unfold bwriteBegin at run
      split at run
      · rename_i hv
        obtain rfl := Option.some.inj run
        exact inv.update pick rfl rfl (fun _ _ => rfl) rfl id (fun _ => hv)
          (fun _ => Or.inl rfl) (fun _ h => nomatch h)
      · cases run
  | bwriteEnd pick =>
      -- the only step that writes a block: it is that of the buffer, and no other buffer has it
      rename_i l₁ l₂ i a
      have haddr : (s.bc.bufs i).addr = a := inv.buf_addr pick
      have hv := inv.valid_of_opened pick rfl
      refine inv.update pick rfl rfl ?_ rfl id (fun _ => hv) (fun h => nomatch h) ?_
      · intro c hc
        rw [← haddr] at hc
        exact Function.update_of_ne hc _ _
      · intro _ _ _
        show (s.bc.bufs i).data = Function.update s.disk (s.bc.bufs i).addr _ a
        rw [haddr, Function.update_self]
  | unlock pick =>
      have hlocked := inv.locked_of_owns pick rfl
      have hv := inv.valid_of_opened pick rfl
      refine inv.update pick rfl rfl (fun _ _ => rfl) ?_ id (fun h => nomatch h) ?_ ?_
      · simp [hlocked, Phase.owns]
      · exact fun h => Or.inr ⟨h, by simp⟩
      · exact fun _ _ hmod => inv.clean_of_others pick hv rfl hmod
  | put pick => exact inv.put pick

/-- A step shows the disk the same event, or none and leaves its contents alone. -/
theorem diskStep (inv : Inv s) {e : Option (Event B)} {s' : System B} (step : Step s e s') :
    (e = none ∧ s'.disk = s.disk) ∨ DiskStep s.disk e s'.disk := by
  cases step with
  | get run => exact Or.inl ⟨rfl, (inv.get run).2⟩
  | acquire | modify | bwriteInvalid | bwriteBegin | unlock | put => exact Or.inl ⟨rfl, rfl⟩
  | bread pick =>
      rw [inv.bread_data pick]
      exact Or.inr .bread
  | bwriteEnd pick =>
      have haddr := inv.buf_addr pick
      refine Or.inr ?_
      show DiskStep s.disk _ (Function.update s.disk (s.bc.bufs _).addr _)
      rw [haddr]
      exact .bwrite

/-- A block nobody uses can be read while a buffer is left, and the read returns the device's
contents. -/
theorem serves (inv : Inv s) (few : s.sessions.length < BCACHE_SIZE) {a : BlockAddr}
    (unused : ∀ x ∈ s.sessions, x.addr ≠ a) :
    ∃ s' i, Lts.Run Step s [.bread a (s.disk a)] s'
      ∧ s'.sessions = ⟨i, a, .holding false⟩ :: s.sessions ∧ s'.disk = s.disk := by
  obtain ⟨⟨i, bc, disk⟩, hget⟩ := inv.get_available few a
  obtain ⟨inv₁, rfl⟩ := inv.get hget
  have hfree : (bc.bufs i).locked = false := by
    have hlock := inv₁.lock i
    have hbuf : (bc.bufs i).addr = a := (inv₁.session ⟨i, a, .waiting⟩ (by simp)).2
    have hzero : (⟨i, a, .waiting⟩ :: s.sessions).countP (ownsBuf i) = 0 := by
      rw [List.countP_eq_zero]
      intro x hx hown
      simp only [ownsBuf, Bool.and_eq_true, decide_eq_true_eq] at hown
      rcases List.mem_cons.mp hx with rfl | hx
      · simp [Phase.owns] at hown
      · have hxa := (inv₁.session x (List.mem_cons_of_mem _ hx)).2
        rw [hown.1] at hxa
        exact unused x hx (hxa.symm.trans hbuf)
    by_contra hl
    rw [hzero, if_pos (by simpa using hl)] at hlock
    omega
  have hacq : Step ⟨bc, s.disk, ⟨i, a, .waiting⟩ :: s.sessions⟩ none
      ⟨bc.setBuf i { bc.bufs i with locked := true }, s.disk, ⟨i, a, .filling⟩ :: s.sessions⟩ :=
    @Step.acquire B ⟨bc, s.disk, ⟨i, a, .waiting⟩ :: s.sessions⟩ [] _ i a rfl hfree
  have hbread := @Step.bread B
    ⟨bc.setBuf i { bc.bufs i with locked := true }, s.disk, ⟨i, a, .filling⟩ :: s.sessions⟩
    [] _ i a rfl
  rw [@bread_data B _ (inv₁.step hacq) [] s.sessions i a rfl] at hbread
  exact ⟨_, i, ((Lts.Run.refl.silent (.get hget)).silent hacq).tail hbread, rfl, rfl⟩

end Inv

/-! ## Refinement -/

/-- The last contents written to a block in a history, or the initial ones. -/
def lastWrite (init : Disk B) (es : List (Event B)) (a : BlockAddr) : B :=
  es.foldl (fun x e =>
    match e with
    | .bread _ _ => x
    | .bwrite b y => if b = a then y else x) (init a)

theorem lastWrite_bwrite (init : Disk B) (es : List (Event B)) (b : BlockAddr) (y : B) :
    lastWrite init (es ++ [.bwrite b y]) = Function.update (lastWrite init es) b y := by
  funext a
  rw [lastWrite, List.foldl_append]
  show (if b = a then y else lastWrite init es a) = _
  by_cases hab : b = a
  · rw [if_pos hab, hab, Function.update_self]
  · rw [if_neg hab, Function.update_of_ne (Ne.symm hab)]

theorem lastWrite_bread (init : Disk B) (es : List (Event B)) (b : BlockAddr) (y : B) :
    lastWrite init (es ++ [.bread b y]) = lastWrite init es := by
  funext a
  rw [lastWrite, List.foldl_append]
  rfl

/-- The uncached disk holds the last writes, and its reads return them. -/
theorem DiskStep.run_spec {init disk : Disk B} {es : List (Event B)}
    (run : Lts.Run DiskStep init es disk) :
    disk = lastWrite init es
      ∧ ∀ pre post a x, es = pre ++ .bread a x :: post → x = lastWrite init pre a := by
  induction run with
  | refl => exact ⟨rfl, fun pre post a x h => by simp at h⟩
  | tail run last ih =>
      rename_i es d d' e
      obtain ⟨hdisk, hreads⟩ := ih
      cases last with
      | bread =>
          rename_i a
          refine ⟨(hdisk.trans (lastWrite_bread init es a _).symm), ?_⟩
          intro pre post b x heq
          rcases List.eq_nil_or_concat post with rfl | ⟨post', z, rfl⟩
          · obtain ⟨rfl, hlast⟩ := List.append_inj' heq rfl
            obtain ⟨rfl, rfl⟩ : a = b ∧ d a = x := by simpa using hlast
            rw [hdisk]
          · rw [List.concat_eq_append, ← List.cons_append, ← List.append_assoc] at heq
            exact hreads pre post' b x (List.append_inj' heq rfl).1
      | bwrite =>
          rename_i a y
          refine ⟨by rw [hdisk]; exact (lastWrite_bwrite init es a y).symm, ?_⟩
          intro pre post b x heq
          rcases List.eq_nil_or_concat post with rfl | ⟨post', z, rfl⟩
          · obtain ⟨-, hlast⟩ := List.append_inj' heq rfl
            simp at hlast
          · rw [List.concat_eq_append, ← List.cons_append, ← List.append_assoc] at heq
            exact hreads pre post' b x (List.append_inj' heq rfl).1

/-- The cache behaves like the uncached disk in a state reached over the events `es`. -/
structure Coherent (init : Disk B) (es : List (Event B)) (s : System B) : Prop where
  /-- The uncached disk has the same history and ends with the same contents. -/
  refines : Lts.Run DiskStep init es s.disk
  /-- The device holds what was last written. -/
  disk_eq : s.disk = lastWrite init es
  /-- Every `bread` returned what had last been written. -/
  reads : ∀ pre post a x, es = pre ++ .bread a x :: post → x = lastWrite init pre a
  /-- A holder has the buffer of its own block, and until it modifies it the buffer holds the
  device's block. -/
  holders : ∀ x ∈ s.sessions, x.phase.opened = true →
    (s.bc.bufs x.buf).addr = x.addr
      ∧ (x.phase.modified = false → (s.bc.bufs x.buf).data = s.disk x.addr)
  /-- A block nobody uses can be read while a buffer is left. -/
  serves : s.sessions.length < BCACHE_SIZE → ∀ a, (∀ x ∈ s.sessions, x.addr ≠ a) →
    ∃ s' i, Lts.Run Step s [.bread a (s.disk a)] s'
      ∧ s'.sessions = ⟨i, a, .holding false⟩ :: s.sessions ∧ s'.disk = s.disk

theorem Inv.holders (inv : Inv s) : ∀ x ∈ s.sessions, x.phase.opened = true →
    (s.bc.bufs x.buf).addr = x.addr
      ∧ (x.phase.modified = false → (s.bc.bufs x.buf).data = s.disk x.addr) := by
  intro x hx hop
  refine ⟨(inv.session x hx).2, fun hmod => ?_⟩
  obtain ⟨l₁, l₂, pick⟩ := List.append_of_mem hx
  have hown : x.phase.owns = true := by
    cases hp : x.phase <;> simp_all [Phase.opened, Phase.owns]
  exact inv.clean_of_others pick (inv.opened x hx hop) hmod (inv.unmodified_others pick hown)

/-- **The cache refines the uncached disk.** In every run from the initial cache, whatever the
blocks, the evictions and the interleaving of the holders, each `bread` returns the contents
last written to its block, or the initial ones. -/
theorem cache_refines_disk {junk : Nat → B} {init : Disk B} {es : List (Event B)} {s : System B}
    (run : Lts.Run Step (System.boot junk init) es s) : Coherent init es s := by
  have inv : Inv s := run.invariant (Inv.boot junk init) fun _ _ _ inv step => inv.step step
  have hrun : Lts.Run DiskStep init es s.disk :=
    run.simulation (Inv.boot junk init) rfl (fun _ _ _ inv step => inv.step step)
      (fun _ _ _ inv step => inv.diskStep step)
  obtain ⟨hdisk, hreads⟩ := DiskStep.run_spec hrun
  exact ⟨hrun, hdisk, hreads, inv.holders, fun few a => inv.serves few⟩

/-- Block 3 of device 1 is read, overwritten with `5`, released, and read again. -/
theorem cache_refines_disk_reread : ∃ s : System Nat,
    Lts.Run Step (System.boot (fun _ => 9) fun _ => 0) [.bread (1, 3) 0, .bwrite (1, 3) 5,
      .bread (1, 3) 5] s
    ∧ Coherent (fun _ => 0) [.bread (1, 3) 0, .bwrite (1, 3) 5, .bread (1, 3) 5] s := by
  have hrun : ∃ s : System Nat, Lts.Run Step (System.boot (fun _ => 9) fun _ => 0)
      [.bread (1, 3) 0, .bwrite (1, 3) 5, .bread (1, 3) 5] s := by
    have opened := (Lts.Run.refl.silent (@Step.get Nat (System.boot (fun _ => 9) fun _ => 0)
      (1, 3) _ _ _ rfl)).silent (@Step.acquire _ _ [] _ _ _ rfl rfl)
    have changed := (opened.tail (@Step.bread _ _ [] _ _ _ rfl)).silent
      (@Step.modify _ _ [] _ _ _ _ 5 rfl)
    have written := (changed.silent (@Step.bwriteBegin _ _ [] _ _ _ _ _ rfl rfl)).tail
      (@Step.bwriteEnd _ _ [] _ _ _ rfl)
    have released := (written.silent (@Step.unlock _ _ [] _ _ _ rfl)).silent
      (@Step.put _ _ [] _ _ _ rfl)
    have again := (released.silent (@Step.get _ _ (1, 3) _ _ _ rfl)).silent
      (@Step.acquire _ _ [] _ _ _ rfl rfl)
    exact ⟨_, again.tail (@Step.bread _ _ [] _ _ _ rfl)⟩
  obtain ⟨s, hs⟩ := hrun
  exact ⟨s, hs, cache_refines_disk hs⟩

end NoobKernel.Mm
