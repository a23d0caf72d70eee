import NoobKernel.Fs.NameiParent

set_option autoImplicit false

/-! # Going down and up again (`fs/namei.c`)

`x/..` is walked from a directory. The lookup of `x` leads to a child of the directory, and then,
if a file system is mounted there, to the root of that one. `..` goes to `d_parent`, which for the
root of a mounted file system is the root itself: `vfs_path_walk` has no step from the root back to
the mount point.
-/

namespace NoobKernel.Fs

variable {W : Type} {fs : FileSystem W} {st st' : Vfs W} {base d next r : Addr} {name : List UInt8}

/-- Where `..` leads. -/
def dotdot (st : Vfs W) (d : Addr) : Addr :=
  if (st.dc.dentry d).dParent ≠ 0 ∧ (st.dc.dentry d).dParent ≠ d then (st.dc.dentry d).dParent else d

/-- The mount that `follow_mount` finds for a dentry with this parent and name. -/
def mountOn (st : Vfs W) (parent : Addr) (name : List UInt8) : Option Mount :=
  st.mounts.find? fun mnt =>
    let mp := st.dc.dentry mnt.mntMountpoint
    mnt.mntMountpoint ≠ 0 ∧ mp.dParent = parent ∧ mp.dName.len = UInt32.ofNat name.length
      ∧ mp.dName.name = name

/-- A file system whose `lookup` returns the dentry it is given, or an error. -/
def FileSystem.FillsIn (fs : FileSystem W) : Prop :=
  ∀ w live dir d dentry r, (fs.lookup w live dir d dentry).1.result = .ok r → r = d

/-! ## The child -/

/-- The dentry has this parent and this name. -/
def ChildOf (st : Vfs W) (d parent : Addr) (name : List UInt8) : Prop :=
  (st.dc.dentry d).dParent = parent ∧ (st.dc.dentry d).dName.len = UInt32.ofNat name.length
    ∧ (st.dc.dentry d).dName.name = name

theorem ChildOf.same (h : ChildOf st d base name)
    (hsame : (st.dc.dentry d).Same (st'.dc.dentry d)) : ChildOf st' d base name := by
  rw [ChildOf, hsame.dParent, hsame.dName]
  exact h

theorem dentryAlloc_child {sb : Addr} (hb : base ≠ 0)
    (h : st.dentryAlloc fs base sb name = (.ok d, st')) : ChildOf st' d base name := by
  have hnew := dentryAlloc_ok h
  have hparent := hnew.parent
  rw [if_pos hb] at hparent
  rw [ChildOf, hparent, dentryAlloc_dName h]
  exact ⟨rfl, rfl, rfl⟩

/-- A dentry that is new, or all that a file system can answer when it fills in. -/
theorem vfsLookupNew_child (hb : base ≠ 0) (hnew : st.dc.live r = false ∨ fs.FillsIn)
    (h : vfsLookupNew fs st base name = (.ok r, st')) : ChildOf st' r base name := by
  unfold vfsLookupNew at h
  generalize halloc : st.dentryAlloc fs base (st.dc.dentry base).dSb name = res at h
  obtain ⟨err | d, st₁⟩ := res
  · cases h
  have hchild := dentryAlloc_child hb halloc
  have halloc := dentryAlloc_ok halloc
  simp only at h
  have hlaw := fs.lookup_live st₁.world st₁.dc.live (st₁.dc.dentry base).dInode d
    (st₁.dc.dentry d)
  have hfill : fs.FillsIn → ∀ r', (fs.lookup st₁.world st₁.dc.live (st₁.dc.dentry base).dInode d
      (st₁.dc.dentry d)).1.result = .ok r' → r' = d := fun hfills r' => hfills _ _ _ _ _ r'
  generalize fs.lookup st₁.world st₁.dc.live (st₁.dc.dentry base).dInode d (st₁.dc.dentry d)
    = found at h hlaw hfill
  obtain ⟨⟨err | r', inode⟩, world⟩ := found
  · cases h
  simp only at h
  obtain rfl : r' = r := by
    cases h
    rfl
  -- the dentry that was filled in is the one that was made
  obtain rfl : r' = d := by
    rcases hnew with hnew | hfills
    · refine ((halloc.of_live (hlaw r' halloc.live_self rfl))).elim id fun hold => ?_
      exact absurd hold.2 (by rw [hnew]; exact Bool.false_ne_true)
    · exact hfill hfills r' rfl
  rw [if_neg (not_not.mpr rfl)] at h
  obtain rfl : _ = st' := (Prod.mk.inj h).2
  have hdentry := (dentryInsert_same fs (st₁.fill r' inode world) r').2
  have hset := setInode_dentry st₁.dc r' inode r'
  change ChildOf ((st₁.fill r' inode world).dentryInsert fs r').2 r' base name
  rw [ChildOf, hdentry]
  change ((st₁.dc.setInode r' inode).dentry r').dParent = base
    ∧ ((st₁.dc.setInode r' inode).dentry r').dName.len = UInt32.ofNat name.length
    ∧ ((st₁.dc.setInode r' inode).dentry r').dName.name = name
  rw [hset]
  exact hchild

/-- What the cache finds for a name in a directory. -/
theorem dentryLookup_child {sb : Addr} {qstr : Qstr}
    (hfound : dentryLookup st.dc sb base qstr ≠ 0) (hlen : qstr.len = UInt32.ofNat qstr.name.length) :
    ChildOf st (dentryLookup st.dc sb base qstr) base qstr.name := by
  unfold dentryLookup at hfound ⊢
  simp only at hfound ⊢
  split
  · rename_i node hfind
    have hsome := List.find?_some hfind
    obtain ⟨-, -, hparent, hlen', hname⟩ := of_decide_eq_true hsome
    exact ⟨hparent, hlen'.trans hlen, hname⟩
  · rename_i hfind
    rw [hfind] at hfound
    exact absurd rfl hfound

theorem vfsLookupSingle_child (hs : st.Sound) (hd : st.dc.live d = true)
    (hroot : lookupBase st d = d) (hnew : st.dc.live r = false ∨ fs.FillsIn)
    (h : vfsLookupSingle fs st d name (UInt32.ofNat name.length) = (.ok r, st')) :
    ChildOf st' r d name := by
  unfold vfsLookupSingle at h
  split at h
  · cases h
  simp only at h
  rw [hroot] at h
  split at h
  · cases h
  split at h
  · cases h
  split at h
  · rename_i hfound
    cases h
    exact dentryLookup_child hfound rfl
  · exact vfsLookupNew_child (hs.ne_zero hd) hnew h

/-! ## The way back -/

/-- The dentry that a child leads to, and `..` from there. -/
theorem dotdot_child (h : ChildOf st r d name) (hd : d ≠ 0) : dotdot st r = d := by
  rw [dotdot, h.1]
  split
  · rfl
  · rename_i hself
    exact (not_not.mp fun hne => hself ⟨hd, hne⟩).symm

theorem Vfs.Grows.dotdot (h : st.Grows st') (hd : st.dc.live d = true) :
    dotdot st' d = dotdot st d := by
  rw [Fs.dotdot, Fs.dotdot, (h.dentry d hd).dParent]

/-- A child is looked for among the mounts by its parent and its name. -/
theorem ChildOf.lookupMount (h : ChildOf st r d name) (hr : r ≠ 0) :
    vfsLookupMount st r = mountOn st d name := by
  rw [vfsLookupMount, if_neg hr, h.1, h.2.1, h.2.2]
  rfl

theorem Vfs.Grows.mountOn (h : st.Grows st') (hs : st.Sound) (parent : Addr)
    (name : List UInt8) : mountOn st' parent name = mountOn st parent name := by
  unfold Fs.mountOn
  rw [h.mounts]
  refine List.find?_congr fun mnt hmnt => ?_
  rcases hs.mountpoint mnt hmnt with hzero | hlive
  · simp [hzero]
  · have hpoint := h.dentry _ hlive
    simp only [hpoint.dParent, hpoint.dName]

/-- What a name leads to from a directory: a lookup, and then the mount that is found. -/
structure Descended (fs : FileSystem W) (st : Vfs W) (d : Addr) (name : List UInt8) (n : Addr)
    (st' : Vfs W) : Prop where
  ext : st.Extends st'
  live : st'.dc.live n = true
  lookup : ∃ next st₁,
    vfsLookupSingle fs st d name (UInt32.ofNat name.length) = (.ok next, st₁)
      ∧ st₁.Extends st' ∧ st₁.Sound ∧ st₁.dc.live next = true ∧ st.Grows st₁
      ∧ n = (followMount st₁ next).1

theorem vfsWalkComponent_descended {n : Addr} (hs : st.Sound) (hd : st.dc.live d = true)
    (h : vfsWalkComponent fs st d name = (.ok (n, .norm), st')) :
    Descended fs st d name n st' := by
  unfold vfsWalkComponent at h
  split at h
  · cases h
  split at h
  · cases h
  have hspec := vfsLookupSingle_spec fs hs hd name (UInt32.ofNat name.length)
  split at h
  · cases h
  · rename_i next st₁ hlookup
    rw [hlookup] at hspec
    obtain ⟨hext, hlive, -⟩ := hspec
    obtain ⟨hext', hlive', -⟩ := followMount_spec hext.sound hlive
    have hput := Vfs.Extends.put hext'.sound d
    cases h
    exact ⟨(hext.trans hext').trans hput, hput.grows.live _ hlive', next, st₁, hlookup,
      hext'.trans hput, hext.sound, hlive, hext.grows, rfl⟩

namespace Descended

variable {n : Addr} (h : Descended fs st d name n st')

include h

/-- From a dentry that was not there before, `..` leads back. -/
theorem dotdot_new (hs : st.Sound) (hd : st.dc.live d = true) (hroot : lookupBase st d = d)
    (hnew : st.dc.live n = false) : dotdot st' n = d := by
  obtain ⟨next, st₁, hlookup, hext, hs₁, hlive, hgrows, hn⟩ := h.lookup
  unfold followMount at hn
  split at hn
  · -- the root of a mount was there
    rename_i mnt hmnt
    have hmem := vfsLookupMount_mem hmnt
    rw [hgrows.mounts] at hmem
    rw [hn, hs.mount mnt hmem] at hnew
    cases hnew
  · subst hn
    have hchild := vfsLookupSingle_child hs hd hroot (.inl hnew) hlookup
    exact dotdot_child (hchild.same (hext.grows.dentry _ hlive)) (hs.ne_zero hd)

/-- Where a file system fills in what it is given, `..` leads back unless a mount is in the way. -/
theorem dotdot_fillsIn (hs : st.Sound) (hd : st.dc.live d = true) (hroot : lookupBase st d = d)
    (hfills : fs.FillsIn) :
    dotdot st' n = d ↔ ∀ mnt, mountOn st d name = some mnt → dotdot st mnt.mntRoot = d := by
  obtain ⟨next, st₁, hlookup, hext, hs₁, hlive, hgrows, hn⟩ := h.lookup
  have hchild := vfsLookupSingle_child hs hd hroot (.inr hfills) hlookup
  have hmount := (hchild.lookupMount (hs₁.ne_zero hlive)).trans (hgrows.mountOn hs d name)
  unfold followMount at hn
  rw [hmount] at hn
  cases hfound : mountOn st d name with
  | none =>
      rw [hfound] at hn
      subst hn
      have hback := dotdot_child (hchild.same (hext.grows.dentry _ hlive)) (hs.ne_zero hd)
      exact iff_of_true hback nofun
  | some mnt =>
      rw [hfound] at hn
      simp only at hn
      have hmem := List.mem_of_find?_eq_some hfound
      rw [hn, h.ext.grows.dotdot (hs.mount mnt hmem)]
      constructor
      · rintro hback _ ⟨⟩
        exact hback
      · exact fun hback => hback mnt rfl

end Descended

/-! ## The walk -/

/-- The first name of `x/..`. -/
theorem getName_dotdot (hslash : 47 ∉ name) (hmax : name.length ≤ NAME_MAX) :
    vfsGetName (name ++ [47, 46, 46]) = name := by
  have hslashes : ∀ c ∈ ([47, 46, 46] : List UInt8).head?, c = 47 := by simp
  rw [getName_append hslash hslashes]
  exact List.take_of_length_le hmax

theorem skipSlashes_dotdot (hne : name ≠ []) (hslash : 47 ∉ name) :
    vfsSkipSlashes (name ++ [47, 46, 46]) = name ++ [47, 46, 46] := by
  refine skipSlashes_of_head ?_
  cases name with
  | nil => exact absurd rfl hne
  | cons c name => exact fun heq => hslash (Option.some.inj heq ▸ List.mem_cons_self)

/-- `x/..` is walked in two steps. -/
theorem vfsPathWalk_dotdot {nd : Nameidata} {n : Addr} {lastType : LastType}
    (hnull : nd.dentry ≠ 0) (hne : name ≠ [])
    (hslash : 47 ∉ name) (hmax : name.length ≤ NAME_MAX)
    (hwalk : vfsWalkComponent fs st nd.dentry name = (.ok (n, lastType), st'))
    (hdir : isDirectory fs st' n = true) :
    ∃ nd', vfsPathWalk fs st nd (name ++ [47, 46, 46]) = (.ok nd', st')
      ∧ nd'.dentry = dotdot st' n := by
  have hskip := skipSlashes_dotdot hne hslash
  have hname := getName_dotdot hslash hmax
  have hrest : vfsSkipSlashes ((name ++ [47, 46, 46]).drop name.length) = [46, 46] := by
    rw [List.drop_left]
    rfl
  have hlen : (name ++ [47, 46, 46]).length = name.length + 1 + 1 + 1 := by
    rw [List.length_append]
    rfl
  unfold vfsPathWalk
  rw [if_neg hnull]
  simp only
  rw [hskip, if_neg (List.append_ne_nil_of_left_ne_nil hne _), hlen, vfsPathWalkLoop]
  simp only
  rw [hname, hwalk]
  simp only
  rw [hrest, if_neg (by decide), hdir, if_neg (by decide), vfsPathWalkLoop]
  -- the second name is the last
  have hdots : vfsWalkComponent fs st' n (vfsGetName [46, 46])
      = (.ok (dotdot st' n, .dotdot), st') := rfl
  have hend : vfsSkipSlashes (([46, 46] : List UInt8).drop (vfsGetName [46, 46]).length) = [] := rfl
  simp only
  rw [hdots]
  simp only
  rw [if_pos hend]
  exact ⟨_, rfl, rfl⟩

/-- **Down and up.** `x/..` ends where it started exactly if `..` leads there from what `x` leads
to, unless that is new. When the file system fills in the dentries that it is given, that is so
unless a mount on `x` has a root from which `..` does not lead there. -/
theorem vfsPathWalk_dotdot_iff {nd : Nameidata} {n : Addr} (hs : st.Sound)
    (hd : st.dc.live nd.dentry = true) (hmount : vfsLookupMount st nd.dentry = none)
    (hne : name ≠ []) (hslash : 47 ∉ name) (hmax : name.length ≤ NAME_MAX)
    (hwalk : vfsWalkComponent fs st nd.dentry name = (.ok (n, .norm), st'))
    (hdir : isDirectory fs st' n = true) :
    ∃ nd' st'', vfsPathWalk fs st nd (name ++ [47, 46, 46]) = (.ok nd', st'')
      ∧ (nd'.dentry = nd.dentry ↔ (st.dc.live n = true → dotdot st n = nd.dentry))
      ∧ (fs.FillsIn → (nd'.dentry = nd.dentry ↔
        ∀ mnt, mountOn st nd.dentry name = some mnt → dotdot st mnt.mntRoot = nd.dentry)) := by
  obtain ⟨nd', hpath, hend⟩ :=
    vfsPathWalk_dotdot (hs.ne_zero hd) hne hslash hmax hwalk hdir
  have hroot : lookupBase st nd.dentry = nd.dentry := by
    rw [lookupBase, hmount]
  have hdown := vfsWalkComponent_descended hs hd hwalk
  refine ⟨nd', st', hpath, ?_, fun hfills => ?_⟩
  · rw [hend]
    by_cases hn : st.dc.live n = true
    · rw [hdown.ext.grows.dotdot hn]
      exact ⟨fun h _ => h, fun h => h hn⟩
    · have hnew := Bool.eq_false_of_not_eq_true hn
      exact iff_of_true (hdown.dotdot_new hs hd hroot hnew) fun h => absurd h hn
  · rw [hend]
    exact hdown.dotdot_fillsIn hs hd hroot hfills

/-! ## A mounted file system -/

/-- Before the mount point is in the cache. -/
def beforeMount : Vfs Nat where
  dc := { dentryInit (fun d =>
      if d = 0x80003000 then ⟨qstrInit [100], 1, 0x80002000, 0x80001000, 1⟩
      else if d = 0x80003100 then ⟨qstrInit [109], 1, 0x80002000, 0x80003000, 1⟩
      else if d = 0x80004000 then ⟨qstrInit [47], 1, 0x80005000, 0x80004000, 1⟩
      else ⟨qstrInit [47], 1, 0x80002000, 0x80001000, 1⟩) ⟨id, id⟩ ⟨id, id⟩ with
    live := fun d => [0x80001000, 0x80003000, 0x80003100, 0x80004000].contains d }
  mounts := [⟨0x80003100, 0x80004000⟩, ⟨0x80001000, 0x80001000⟩]
  rootMount := some ⟨0x80001000, 0x80001000⟩
  world := 0
  frees := []

/-- There is a directory `/d`, and a file system is mounted on `/d/m`. -/
def mountedOnM : Vfs Nat := (beforeMount.dentryInsert (nameFs fun _ => 1) 0x80003100).2

theorem sound_beforeMount : beforeMount.Sound where
  null := by decide
  parent := by
    intro d hd
    have hmem : d ∈ ([0x80001000, 0x80003000, 0x80003100, 0x80004000] : List Addr) :=
      List.contains_iff_mem.mp hd
    simp only [List.mem_cons, List.not_mem_nil, or_false] at hmem
    rcases hmem with rfl | rfl | rfl | rfl
    all_goals exact .inr (by decide)
  cached := fun _ _ h => absurd h List.not_mem_nil
  mount := by decide
  mountpoint := by decide
  root := by
    rintro mnt (_ | _)
    decide

theorem sound_mountedOnM : mountedOnM.Sound :=
  (sound_beforeMount.insert (nameFs fun _ => 1) (by decide)).1.sound

/-- `a/..` is walked from `/d`. -/
theorem vfsPathWalk_dotdot_a : ∃ nd' st'',
    vfsPathWalk (nameFs fun _ => 1) mountedOnM ⟨0x80003000, 1, 0, .norm, none, 0⟩
        ([97] ++ [47, 46, 46]) = (.ok nd', st'')
      ∧ (nd'.dentry = 0x80003000
        ↔ (mountedOnM.dc.live 0x80000000 = true → dotdot mountedOnM 0x80000000 = 0x80003000))
      ∧ ((nameFs fun _ => 1).FillsIn → (nd'.dentry = 0x80003000
        ↔ ∀ mnt, mountOn mountedOnM 0x80003000 [97] = some mnt →
          dotdot mountedOnM mnt.mntRoot = 0x80003000)) := by
  have hwalk : vfsWalkComponent (nameFs fun _ => 1) mountedOnM 0x80003000 [97]
      = (.ok (0x80000000, .norm),
        (vfsWalkComponent (nameFs fun _ => 1) mountedOnM 0x80003000 [97]).2) := rfl
  exact vfsPathWalk_dotdot_iff sound_mountedOnM (by decide) (by decide) (by decide) (by decide)
    (by decide) hwalk (by decide)

/-- `/d` is not a mount point, and `m` leads from there to the root of what is mounted on `/d/m`,
but `m/..` stays there. -/
theorem not_vfsPathWalk_dotdot : mountedOnM.Sound ∧ mountedOnM.dc.live 0x80003000 = true
    ∧ isDirectory (nameFs fun _ => 1) mountedOnM 0x80003000 = true
    ∧ vfsLookupMount mountedOnM 0x80003000 = none
    ∧ (∃ st', vfsWalkComponent (nameFs fun _ => 1) mountedOnM 0x80003000 [109]
        = (.ok (0x80004000, .norm), st') ∧ isDirectory (nameFs fun _ => 1) st' 0x80004000 = true)
    ∧ ∃ nd' st'', vfsPathWalk (nameFs fun _ => 1) mountedOnM ⟨0x80003000, 1, 0, .norm, none, 0⟩
        [109, 47, 46, 46] = (.ok nd', st'') ∧ nd'.dentry ≠ 0x80003000 := by
  refine ⟨sound_mountedOnM, by decide, by decide, by decide, ⟨_, rfl, by decide⟩, _, _, rfl, ?_⟩
  decide

end NoobKernel.Fs
