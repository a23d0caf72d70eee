import NoobKernel.Fs.InodeRace

set_option autoImplicit false

/-! # One inode for all calls of `inode_get`

Without calls of `inode_put`, the calls of `inode_get` for one number of a super block return one
inode, whose count is the number of the calls (`Unique`), as long as no call enters an inode after
another call for the number has returned one, and the number is not taken by another super block.
-/

namespace NoobKernel.Fs

structure Unique (s : InodeMachine) : Prop where
  inode : ∀ r ∈ s.held, ∀ r' ∈ s.held, r.sb = r'.sb → r.ino = r'.ino → r.inode = r'.inode
  refs : ∀ r ∈ s.held, (s.cache.inode r.inode).iRefcnt.toNat
    = s.held.countP fun r' => r'.sb = r.sb ∧ r'.ino = r.ino

/-- The call is going to enter an inode for what has been got already. -/
def InodeCall.repeats (c : InodeCall) (held : List Got) : Prop :=
  match c with
  | .allocated sb ino _ => ∃ r ∈ held, r.sb = sb ∧ r.ino = ino
  | _ => False

/-- A call of `inode_get` under the condition. -/
def InodeAction.GetsOnce (s : InodeMachine) : InodeAction → Prop
  | lookup sb ino => ∀ a ∈ s.cache.ht.get ino,
      (s.cache.inode a).iSb = sb ∧ (s.cache.inode a).iRefcnt ≠ 0xffffffff
  | alloc _ _ => True
  | insert i _ => ∀ c ∈ s.calls[i]?, ¬c.repeats s.held
  | put _ | drop _ _ | free _ | release _ => False

/-- A call of `inode_get` under no condition. -/
def InodeAction.gets : InodeAction → Bool
  | lookup .. | alloc .. | insert .. => true
  | put .. | drop .. | free .. | release .. => false

instance decidableRepeats (held : List Got) : (c : InodeCall) → Decidable (c.repeats held)
  | .allocated _ _ _ => inferInstanceAs (Decidable (∃ r ∈ held, _))
  | .missed _ _ | .dropping _ | .freeing _ | .removed _ => .isFalse id

instance decidableGetsOnce (s : InodeMachine) : (a : InodeAction) → Decidable (a.GetsOnce s)
  | .lookup _ _ | .insert _ _ => Option.decidableForallMem _
  | .alloc _ _ => .isTrue trivial
  | .put _ | .drop _ _ | .free _ | .release _ => .isFalse id

variable {ops : Addr → SuperOperations} {s s' : InodeMachine} {a b sb memory : Addr} {ino : UInt64}
  {i : Nat} {c : InodeCall}

/-! ## The invariant -/

/-- An inode that a call has allocated and not entered yet. -/
structure Pending (s : InodeMachine) (sb : Addr) (ino : UInt64) (a : Addr) : Prop where
  live : s.cache.live a = true
  refcnt : (s.cache.inode a).iRefcnt = 1
  sb : (s.cache.inode a).iSb = sb
  ino : (s.cache.inode a).iIno = ino
  unheld : ∀ r ∈ s.held, r.inode ≠ a
  once : s.calls.countP (·.allocates a) = 1

structure UniqueInv (s : InodeMachine) : Prop where
  unique : Unique s
  held : ∀ r ∈ s.held, s.cache.live r.inode = true ∧ (s.cache.inode r.inode).iSb = r.sb
    ∧ (s.cache.inode r.inode).iIno = r.ino
  entry : ∀ key a, s.cache.ht.get key = some a → ∃ r ∈ s.held, r.inode = a ∧ r.ino = key
  pending : ∀ sb ino a, .allocated sb ino a ∈ s.calls → Pending s sb ino a

theorem uniqueInv_init (inode : Addr → Inode) (list : Links Addr) :
    UniqueInv ⟨inodeInit inode list, [], []⟩ where
  unique := ⟨nofun, nofun⟩
  held := nofun
  entry _ _ := nofun
  pending _ _ _ := nofun

/-- Inodes of different numbers or super blocks differ. -/
theorem UniqueInv.key_of_inode (hi : UniqueInv s) {r r' : Got} (hr : r ∈ s.held) (hr' : r' ∈ s.held)
    (heq : r.inode = r'.inode) : r.sb = r'.sb ∧ r.ino = r'.ino := by
  obtain ⟨-, hsb, hino⟩ := hi.held r hr
  obtain ⟨-, hsb', hino'⟩ := hi.held r' hr'
  exact ⟨by rw [← hsb, ← hsb', heq], by rw [← hino, ← hino', heq]⟩

theorem UniqueInv.hit (hi : UniqueInv s) (hget : s.cache.ht.get ino = some a)
    (hsb : (s.cache.inode a).iSb = sb) (hmax : (s.cache.inode a).iRefcnt ≠ 0xffffffff) :
    UniqueInv { s with
      cache := s.cache.setRefcnt a ((s.cache.inode a).iRefcnt + 1)
      held := ⟨a, sb, ino⟩ :: s.held } := by
  obtain ⟨r₀, hr₀, rfl, rfl⟩ := hi.entry ino a hget
  obtain rfl : r₀.sb = sb := (hi.held r₀ hr₀).2.1.symm.trans hsb
  -- the new reference is one more of the kind of `r₀`
  have hmem : ∀ r, r ∈ r₀ :: s.held → r ∈ s.held := fun r hr =>
    (List.mem_cons.mp hr).elim (fun heq => heq ▸ hr₀) id
  have hbump : (s.cache.inode r₀.inode).iRefcnt.toNat + 1 < 2 ^ 32 := by
    have hlt := (s.cache.inode r₀.inode).iRefcnt.toNat_lt
    have hne : (s.cache.inode r₀.inode).iRefcnt.toNat ≠ 0xffffffff := fun heq =>
      hmax (UInt32.toNat_inj.mp heq)
    omega
  refine ⟨⟨fun r hr r' hr' => hi.unique.inode r (hmem r hr) r' (hmem r' hr'), fun r hr => ?_⟩,
    fun r hr => ?_, fun key b hb => ?_, fun sb ino b hb => ?_⟩
  · have hr' := hmem r hr
    show ((s.cache.setRefcnt r₀.inode _).inode r.inode).iRefcnt.toNat = (r₀ :: s.held).countP _
    rw [iRefcnt_setRefcnt, List.countP_cons]
    have hrefs := hi.unique.refs r hr'
    by_cases heq : r.inode = r₀.inode
    · obtain ⟨hsb', hino'⟩ := hi.key_of_inode hr' hr₀ heq
      rw [if_pos heq, if_pos (by simp [hsb', hino']), ← hrefs, heq, UInt32.toNat_add]
      exact Nat.mod_eq_of_lt hbump
    · rw [if_neg heq, hrefs, if_neg]
      · rfl
      · intro hsame
        obtain ⟨hsb', hino'⟩ := of_decide_eq_true hsame
        exact heq (hi.unique.inode r hr' r₀ hr₀ hsb'.symm hino'.symm)
  · rw [inode_setRefcnt]
    exact hi.held r (hmem r hr)
  · obtain ⟨r, hr, hr'⟩ := hi.entry key b hb
    exact ⟨r, List.mem_cons_of_mem _ hr, hr'⟩
  · obtain ⟨hlive, hrefcnt, hsb', hino', hunheld, honce⟩ := hi.pending sb ino b hb
    refine ⟨hlive, ?_, ?_, ?_, fun r hr => hunheld r (hmem r hr), honce⟩
    · rw [iRefcnt_setRefcnt, if_neg (hunheld r₀ hr₀).symm]
      exact hrefcnt
    · rw [inode_setRefcnt]
      exact hsb'
    · rw [inode_setRefcnt]
      exact hino'

/-- A call that has allocated nothing comes or goes. -/
theorem UniqueInv.calls (hi : UniqueInv s) {calls : List InodeCall}
    (hmem : ∀ sb ino a, .allocated sb ino a ∈ calls → .allocated sb ino a ∈ s.calls)
    (hcount : ∀ a, calls.countP (·.allocates a) = s.calls.countP (·.allocates a)) :
    UniqueInv { s with calls := calls } := by
  refine ⟨⟨hi.unique.inode, hi.unique.refs⟩, hi.held, hi.entry, fun sb ino a ha => ?_⟩
  obtain ⟨hlive, hrefcnt, hsb, hino, hunheld, honce⟩ := hi.pending sb ino a (hmem sb ino a ha)
  exact ⟨hlive, hrefcnt, hsb, hino, hunheld, (hcount a).trans honce⟩

theorem UniqueInv.alloc (hi : UniqueInv s) (hc : s.calls[i]? = some (.missed sb ino))
    (hfresh : FreshInode s.cache memory) :
    UniqueInv { s with
      cache := (s.cache.construct sb memory).setIno memory ino
      calls := .allocated sb ino memory :: s.calls.eraseIdx i } := by
  have hne : ∀ {a}, s.cache.live a = true → a ≠ memory := by
    rintro a ha rfl
    exact absurd ha (by rw [hfresh.1]; decide)
  have hold : ∀ {a}, a ≠ memory →
      ((s.cache.construct sb memory).setIno memory ino).inode a = s.cache.inode a
      ∧ ((s.cache.construct sb memory).setIno memory ino).live a = s.cache.live a := by
    intro a ha
    rw [inode_allocated, live_allocated, if_neg ha, if_neg ha]
    exact ⟨rfl, rfl⟩
  -- no other call holds the fresh memory
  have hnew : s.calls.countP (·.allocates memory) = 0 := by
    refine List.countP_eq_zero.mpr fun c hc' hall => ?_
    cases c with
    | allocated sb' ino' a =>
        have hlive := (hi.pending sb' ino' a hc').live
        exact hne hlive (of_decide_eq_true hall)
    | _ => cases hall
  have hcount : ∀ a, (InodeCall.allocated sb ino memory :: s.calls.eraseIdx i).countP (·.allocates a)
      = s.calls.countP (·.allocates a) + if memory = a then 1 else 0 := by
    intro a
    rw [List.countP_cons, countP_calls hc]
    simp [InodeCall.allocates]
  refine ⟨⟨hi.unique.inode, fun r hr => ?_⟩, fun r hr => ?_, hi.entry, fun sb' ino' a ha => ?_⟩
  · rw [(hold (hne (hi.held r hr).1)).1]
    exact hi.unique.refs r hr
  · obtain ⟨hlive, hid⟩ := hi.held r hr
    rw [(hold (hne hlive)).1, (hold (hne hlive)).2]
    exact ⟨hlive, hid⟩
  · rcases List.mem_cons.mp ha with heq | ha
    · obtain ⟨rfl, rfl, rfl⟩ := InodeCall.allocated.inj heq
      refine ⟨?_, ?_, ?_, ?_, fun r hr => hne (hi.held r hr).1, ?_⟩
      · rw [live_allocated, if_pos rfl]
      · rw [inode_allocated, if_pos rfl]
        rfl
      · rw [inode_allocated, if_pos rfl]
        rfl
      · rw [inode_allocated, if_pos rfl]
      · rw [hcount, hnew, if_pos rfl]
    · obtain ⟨hlive, hrefcnt, hsb, hino, hunheld, honce⟩ :=
        hi.pending sb' ino' a ((mem_calls hc).mpr (.inr ha))
      refine ⟨?_, ?_, ?_, ?_, hunheld, ?_⟩
      · rw [(hold (hne hlive)).2]
        exact hlive
      · rw [(hold (hne hlive)).1]
        exact hrefcnt
      · rw [(hold (hne hlive)).1]
        exact hsb
      · rw [(hold (hne hlive)).1]
        exact hino
      · rw [hcount, honce, if_neg (hne hlive).symm]

theorem UniqueInv.insert (hi : UniqueInv s) (hc : s.calls[i]? = some (.allocated sb ino a))
    (hnew : ∀ r ∈ s.held, ¬(r.sb = sb ∧ r.ino = ino)) (nodeMemory : Bool) :
    UniqueInv { s with
      cache := inodeGetInsert s.cache ino a nodeMemory
      calls := s.calls.eraseIdx i
      held := ⟨a, sb, ino⟩ :: s.held } := by
  obtain ⟨hlive, hrefcnt, hsb, hino, hunheld, honce⟩ :=
    hi.pending sb ino a ((mem_calls hc).mpr (.inl rfl))
  have hcount : ∀ b, (s.calls.eraseIdx i).countP (·.allocates b) + (if a = b then 1 else 0)
      = s.calls.countP (·.allocates b) := by
    intro b
    rw [countP_calls hc]
    simp [InodeCall.allocates]
  refine ⟨⟨fun r hr r' hr' hsb' hino' => ?_, fun r hr => ?_⟩, fun r hr => ?_, fun key b hb => ?_,
    fun sb' ino' b hb => ?_⟩
  · rcases List.mem_cons.mp hr with rfl | hr <;> rcases List.mem_cons.mp hr' with rfl | hr'
    · rfl
    · exact absurd ⟨hsb'.symm, hino'.symm⟩ (hnew r' hr')
    · exact absurd ⟨hsb', hino'⟩ (hnew r hr)
    · exact hi.unique.inode r hr r' hr' hsb' hino'
  · rw [List.countP_cons]
    rcases List.mem_cons.mp hr with rfl | hr
    · have hzero : s.held.countP (fun r' => decide (r'.sb = sb ∧ r'.ino = ino)) = 0 :=
        List.countP_eq_zero.mpr fun r' hr' hsame => hnew r' hr' (of_decide_eq_true hsame)
      rw [hzero, if_pos (by simp)]
      exact congrArg UInt32.toNat hrefcnt
    · rw [if_neg, hi.unique.refs r hr |>.symm]
      · rfl
      · intro hsame
        obtain ⟨hsb', hino'⟩ := of_decide_eq_true hsame
        exact hnew r hr ⟨hsb'.symm, hino'.symm⟩
  · rcases List.mem_cons.mp hr with rfl | hr
    · exact ⟨hlive, hsb, hino⟩
    · exact hi.held r hr
  · have hb' : (hashtableInsert s.cache.ht ino a nodeMemory).2.get key = some b := hb
    rw [Hashtable.get_insert] at hb'
    split at hb'
    · rename_i hkey
      obtain rfl := Option.some.inj hb'
      exact ⟨_, List.mem_cons_self, rfl, hkey.1.symm⟩
    · obtain ⟨r, hr, hr'⟩ := hi.entry key b hb'
      exact ⟨r, List.mem_cons_of_mem _ hr, hr'⟩
  · obtain ⟨hlive', hrefcnt', hsb', hino', hunheld', honce'⟩ :=
      hi.pending sb' ino' b ((mem_calls hc).mpr (.inr hb))
    -- the call that goes was the only one that had allocated `a`
    have hne : a ≠ b := by
      rintro rfl
      have hpos : 0 < (s.calls.eraseIdx i).countP (·.allocates a) :=
        List.countP_pos_iff.mpr ⟨_, hb, decide_eq_true rfl⟩
      have hsum := hcount a
      rw [if_pos rfl, honce] at hsum
      omega
    refine ⟨hlive', hrefcnt', hsb', hino', fun r hr => ?_, ?_⟩
    · rcases List.mem_cons.mp hr with rfl | hr
      · exact hne
      · exact hunheld' r hr
    · have hsum := hcount b
      rw [if_neg hne, Nat.add_zero] at hsum
      exact hsum.trans honce'

/-! ## Runs -/

theorem UniqueInv.next (hi : UniqueInv s) {act : InodeAction} (hact : act.GetsOnce s)
    (hnext : s.next ops act = some s') : UniqueInv s' := by
  cases act with
  | lookup sb ino =>
      rcases next_lookup hnext with ⟨a, hget, rfl⟩ | rfl
      · obtain ⟨hsb, hmax⟩ := hact a hget
        exact hi.hit hget hsb hmax
      · refine hi.calls (fun sb' ino' a ha => ?_) fun a => ?_
        · rcases List.mem_cons.mp ha with heq | ha
          · cases heq
          · exact ha
        · rw [List.countP_cons]
          rfl
  | alloc i memory =>
      obtain ⟨sb, ino, hc, rfl | ⟨hfresh, rfl⟩⟩ := next_alloc hnext
      · refine hi.calls (fun sb' ino' a ha => (mem_calls hc).mpr (.inr ha)) fun a => ?_
        rw [countP_calls hc]
        rfl
      · exact hi.alloc hc hfresh
  | insert i nodeMemory =>
      obtain ⟨sb, ino, a, hc, rfl⟩ := next_insert hnext
      refine hi.insert hc (fun r hr hsame => ?_) nodeMemory
      exact hact _ hc ⟨r, hr, hsame⟩
  | put | drop | free | release => exact absurd hact id

section

variable {inode : Addr → Inode} {list : Links Addr} {as : List InodeAction}

/-- **One inode, counted once for each call**, in every interleaving under the condition. -/
theorem inode_unique
    (run : InodeMachineRun ops (fun s act => act.GetsOnce s) inode list as s) : Unique s := by
  have hi : UniqueInv s := run.invariant (uniqueInv_init inode list)
    fun _ _ _ hi ⟨_, hact, _, hnext⟩ => hi.next hact hnext
  exact hi.unique

end

/-- A call that comes after the first one has entered its inode. -/
theorem inode_unique_late : ∃ s,
    InodeMachineRun plainOps (fun s act => act.GetsOnce s) zeroInode ⟨id, id⟩
      [.lookup 0x1000 5, .alloc 0 0x80000000, .insert 0 true, .lookup 0x1000 5] s
    ∧ s.held = [⟨0x80000000, 0x1000, 5⟩, ⟨0x80000000, 0x1000, 5⟩] ∧ Unique s := by
  have hexec : (Lts.exec (InodeMachine.next plainOps) (fun s act => act.GetsOnce s)
      ⟨inodeInit zeroInode ⟨id, id⟩, [], []⟩
      [.lookup 0x1000 5, .alloc 0 0x80000000, .insert 0 true, .lookup 0x1000 5]).map (·.held)
      = some [⟨0x80000000, 0x1000, 5⟩, ⟨0x80000000, 0x1000, 5⟩] := by
    decide
  obtain ⟨s, hs, hheld⟩ := Option.map_eq_some_iff.mp hexec
  exact ⟨s, Lts.run_of_exec hs, hheld, inode_unique (Lts.run_of_exec hs)⟩

/-- Two calls look the number up before either has entered its inode. -/
theorem inode_not_unique : ∃ s,
    InodeMachineRun plainOps (fun _ act => act.gets = true) zeroInode ⟨id, id⟩
      [.lookup 0x1000 5, .lookup 0x1000 5, .alloc 0 0x80000000, .alloc 1 0x80000100,
        .insert 0 true, .insert 0 true] s
    ∧ ¬Unique s := by
  have hexec : (Lts.exec (InodeMachine.next plainOps) (fun _ act => act.gets = true)
      ⟨inodeInit zeroInode ⟨id, id⟩, [], []⟩
      [.lookup 0x1000 5, .lookup 0x1000 5, .alloc 0 0x80000000, .alloc 1 0x80000100,
        .insert 0 true, .insert 0 true]).map (·.held)
      = some [⟨0x80000000, 0x1000, 5⟩, ⟨0x80000100, 0x1000, 5⟩] := by
    decide
  obtain ⟨s, hs, hheld⟩ := Option.map_eq_some_iff.mp hexec
  refine ⟨s, Lts.run_of_exec hs, fun hu => ?_⟩
  have heq := hu.inode ⟨0x80000000, 0x1000, 5⟩ (by rw [hheld]; exact List.mem_cons_self)
    ⟨0x80000100, 0x1000, 5⟩ (by rw [hheld]; exact List.mem_cons_of_mem _ List.mem_cons_self) rfl rfl
  exact absurd heq (by decide)

end NoobKernel.Fs
