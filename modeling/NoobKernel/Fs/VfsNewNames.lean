import NoobKernel.Fs.VfsCreate

set_option autoImplicit false

/-! # Names that reach the file systems

The last name of a path is not checked before an operation is called with it: it is empty when the
path has no component, and it may be `.` or `..`. `vfs_open` comes to create something only after a
lookup that failed, which it does not on a path of dots.
-/

namespace NoobKernel.Fs

variable {W : Type}

/-! ## Genuine names -/

/-- A name that an entry of a directory may have. -/
def Genuine (name : List UInt8) : Prop :=
  name ≠ [] ∧ name ≠ [46] ∧ name ≠ [46, 46] ∧ 47 ∉ name

def AllGenuine (names : Names) : Prop := ∀ name ∈ names, Genuine name

theorem allGenuine_nil : AllGenuine [] := fun _ h => absurd h List.not_mem_nil

/-- Over every file system and in every state, what is called gets genuine names. -/
def CreateGenuine (path : List UInt8) : Prop :=
  ∀ (W : Type) (ops : DirOps W) (st : Vfs W) (mode : UInt32),
    AllGenuine (vfsCreate ops.recorded st.record path mode).2.world.2

def MkdirGenuine (path : List UInt8) : Prop :=
  ∀ (W : Type) (ops : DirOps W) (st : Vfs W) (mode : UInt32),
    AllGenuine (vfsMkdir ops.recorded st.record path mode).2.world.2

def RenameGenuine (path : List UInt8) : Prop :=
  ∀ (W : Type) (ops : DirOps W) (st : Vfs W) (oldPath : List UInt8),
    AllGenuine (vfsRename ops.recorded.toVfsOps st.record oldPath path).2.world.2

def OpenGenuine (path : List UInt8) : Prop :=
  ∀ (W : Type) (ops : DirOps W) (s : VfsState W) (flags : UInt32),
    AllGenuine (vfsOpen ops.recorded.toVfsOps s.record path flags).2.vfs.world.2

/-- The last name of a path is one that an entry may have. -/
def EndsGenuine (path : List UInt8) : Prop :=
  newName path ≠ [] ∧ newName path ≠ [46] ∧ newName path ≠ [46, 46]

theorem slash_notMem_newName (path : List UInt8) : 47 ∉ newName path := by
  intro hslash
  have hmem : newName path ∈ namesOf path := by
    cases hnames : namesOf path with
    | nil =>
        rw [newName, hnames] at hslash
        exact absurd hslash List.not_mem_nil
    | cons name names =>
        rw [newName, hnames, List.getLastD_cons, ← List.getLast_eq_getLastD]
        exact List.getLast_mem (List.cons_ne_nil _ _)
  exact slash_notMem_of_mem_namesOf hmem hslash

variable {path : List UInt8}

theorem genuine_newName (h : EndsGenuine path) : Genuine (newName path) :=
  ⟨h.1, h.2.1, h.2.2, slash_notMem_newName path⟩

theorem endsGenuine_of (h : Genuine (newName path)) : EndsGenuine path := ⟨h.1, h.2.1, h.2.2.1⟩

theorem allGenuine_append {names : Names} {name : List UInt8} (h : AllGenuine names)
    (hname : Genuine name) : AllGenuine (names ++ [name]) := by
  intro n hn
  rcases List.mem_append.mp hn with hn | hn
  · exact h n hn
  · rw [List.mem_singleton.mp hn]
    exact hname

/-- What is not one of the operations leaves the names alone. -/
theorem recorded_keeps (ops : DirOps W) (Q : Names → Prop) :
    ops.recorded.toVfsOps.Keeps fun w => Q w.2 :=
  ⟨⟨fun _ _ h => h, fun _ h => h, fun _ _ _ _ _ h => h, fun _ _ _ h => h⟩, fun _ _ _ h => h,
    fun _ _ _ h => h, fun _ _ h => h⟩

theorem createGenuine_of (h : EndsGenuine path) : CreateGenuine path := by
  intro W ops st mode
  refine vfsMake_keeps (recorded_keeps ops AllGenuine).fs allGenuine_nil ?_ _ _
  intro w dir d dentry mode hnames hname
  refine allGenuine_append hnames ?_
  rw [hname]
  exact genuine_newName h

theorem mkdirGenuine_of (h : EndsGenuine path) : MkdirGenuine path := by
  intro W ops st mode
  refine vfsMake_keeps (recorded_keeps ops AllGenuine).fs allGenuine_nil ?_ _ _
  intro w dir d dentry mode hnames hname
  refine allGenuine_append hnames ?_
  rw [hname]
  exact genuine_newName h

theorem renameGenuine_of (h : EndsGenuine path) : RenameGenuine path := by
  intro W ops st oldPath
  refine vfsRename_keeps (recorded_keeps ops AllGenuine) allGenuine_nil ?_ _
  intro w oldDir oldD oldDentry newDir newD newDentry hnames hname
  refine allGenuine_append hnames ?_
  rw [hname]
  exact genuine_newName h

/-- A path of dots is never created. -/
theorem openGenuine_of
    (h : EndsGenuine path ∨ ∀ name ∈ namesOf path, name = [46] ∨ name = [46, 46]) :
    OpenGenuine path := by
  intro W ops s flags
  refine vfsOpen_keeps (recorded_keeps ops AllGenuine) allGenuine_nil ?_ _
  rintro ⟨name, hmem, hnorm⟩ w dir d dentry mode hnames hname
  refine allGenuine_append hnames ?_
  rw [hname]
  refine genuine_newName (h.resolve_right fun hdots => ?_)
  exact not_or.mpr hnorm (hdots name hmem)

/-! ## A file system that takes every name -/

/-- Every name leads back to the root directory, but the first one that is looked up may not be
there. -/
def anyName : DirOps Bool where
  kmemCacheAlloc there live := (if live 0x80001100 then 0 else 0x80001100, there)
  kmalloc there := (true, there)
  iMode _ _ := S_IFDIR
  hasLookup _ _ := true
  lookup there live _ d _ :=
    (if there then ⟨.ok (if live 0x80001000 then 0x80001000 else d), 0⟩ else ⟨.error (-ENOENT), 0⟩,
      true)
  release there _ _ := there
  kmemCacheAlloc_new := by
    intro _ live
    simp only
    split
    · exact .inl rfl
    · rename_i h
      exact .inr (Bool.eq_false_of_not_eq_true h)
  lookup_live := by
    intro there live dir d dentry r hd h
    split at h
    · cases h
      split
      · assumption
      · exact hd
    · cases h
  hasCreate _ _ := true
  hasUnlink _ _ := true
  hasRmdir _ _ := true
  hasRename _ _ := true
  hasMkdir _ _ := true
  create there _ _ _ _ := (⟨0, 1⟩, there)
  mkdir there _ _ _ _ := (⟨0, 1⟩, there)
  unlink there _ _ dentry := (⟨0, dentry.dInode⟩, there)
  rmdir there _ _ dentry := (⟨0, dentry.dInode⟩, there)
  rename there _ _ oldDentry _ _ _ := (⟨0, oldDentry.dInode⟩, 1, there)
  dDelete there _ _ := (some 1, there)
  fileCacheAlloc there _ := (0, there)
  iFop _ _ := none
  openFile there _ _ := (0, there)
  releaseFile there _ := there
  fileCacheAlloc_new _ _ := .inl rfl

/-- The root is mounted, and nothing has been looked up. -/
def anyRoot (there : Bool) : Vfs Bool where
  dc := loopRoot.dc
  mounts := []
  rootMount := some ⟨0x80001000, 0x80001000⟩
  world := there
  frees := []

/-- The dentries, whatever the file systems have. -/
def Vfs.forget {W : Type} (st : Vfs W) : Vfs Unit where
  dc := st.dc
  mounts := st.mounts
  rootMount := st.rootMount
  world := ()
  frees := st.frees

namespace AnyName

variable {st st' : Vfs (Bool × Names)}

/-- The root is still the only dentry. -/
theorem sound (h : Looped st.forget) : st.Sound :=
  ⟨h.ext.sound.null, h.ext.sound.parent, h.ext.sound.cached, h.ext.sound.mount,
    h.ext.sound.mountpoint, h.ext.sound.root⟩

theorem next (h : Looped st.forget) (hext : st.Extends st') (hlive : st'.dc.live = st.dc.live) :
    Looped st'.forget := by
  obtain ⟨hs, hg, hfrees⟩ := hext
  refine Looped.next h ⟨?_, ?_, hfrees⟩ hlive
  · exact ⟨hs.null, hs.parent, hs.cached, hs.mount, hs.mountpoint, hs.root⟩
  · exact ⟨hg.live, hg.dentry, hg.mounts, hg.rootMount⟩

theorem lookupBase (h : Looped st.forget) (d : Addr) : lookupBase st d = d := h.lookupBase d

theorem followMount (h : Looped st.forget) (d : Addr) : followMount st d = (d, st) := by
  have hmount : vfsLookupMount st d = none := h.lookupMount d
  rw [Fs.followMount, hmount]

theorem isDirectory (h : Looped st.forget) :
    isDirectory anyName.recorded.toFileSystem st 0x80001000 = true := h.isDirectory

/-- There is memory for a new dentry. -/
theorem alloc (h : Looped st.forget) (parent sb : Addr) (name : List UInt8) :
    ∃ st', st.dentryAlloc anyName.recorded.toFileSystem parent sb name = (.ok 0x80001100, st')
      ∧ st'.world = st.world := by
  have hnew : st.dc.live 0x80001100 = false := by
    have hlive : st.dc.live = loopRoot.dc.live := h.live
    rw [hlive]
    decide
  have hmem : anyName.recorded.kmemCacheAlloc st.world st.dc.live = (0x80001100, st.world) := by
    unfold DirOps.recorded anyName
    simp only
    rw [hnew, if_neg Bool.false_ne_true]
  refine ⟨{ st with dc := (Fs.dentryAlloc st.dc 0x80001100 true parent sb name).2 }, ?_, rfl⟩
  unfold Vfs.dentryAlloc
  rw [hmem]
  rfl

theorem keepsThere : anyName.recorded.toFileSystem.Keeps fun w => w.1 = true :=
  ⟨fun _ _ h => h, fun _ h => h, fun _ _ _ _ _ _ => rfl, fun _ _ _ h => h⟩

theorem lookupNew (h : Looped st.forget) (hthere : st.world.1 = true) (name : List UInt8) :
    ∃ st', vfsLookupNew anyName.recorded.toFileSystem st 0x80001000 name = (.ok 0x80001000, st')
      ∧ Looped st'.forget := by
  obtain ⟨st₁, halloc, hworld⟩ := alloc h 0x80001000 (st.dc.dentry 0x80001000).dSb name
  have hnew := dentryAlloc_ok halloc
  have hspec := vfsLookupNew_spec anyName.recorded.toFileSystem (sound h) h.live_root name
  have hthere₁ : st₁.world.1 = true := hworld ▸ hthere
  have hlookup : (anyName.recorded.lookup st₁.world st₁.dc.live (st₁.dc.dentry 0x80001000).dInode
      0x80001100 (st₁.dc.dentry 0x80001100)).1 = ⟨.ok 0x80001000, 0⟩ := by
    unfold DirOps.recorded anyName
    simp only
    rw [hthere₁, if_pos rfl, if_pos (hnew.grows.live _ h.live_root)]
  unfold vfsLookupNew at hspec ⊢
  rw [halloc] at hspec ⊢
  simp only at hspec ⊢
  rw [hlookup] at hspec ⊢
  simp only at hspec ⊢
  have hne : (0x80001000 : Addr) ≠ 0x80001100 := by decide
  rw [if_pos hne] at hspec ⊢
  refine ⟨_, rfl, next h hspec.ext ?_⟩
  rw [(dentryInsert_same _ _ _).1]
  exact hnew.live_free _ 0 _

theorem lookupSingle (h : Looped st.forget) (hthere : st.world.1 = true) (name : List UInt8)
    {len : UInt32} (hlen : len ≠ 0) :
    ∃ st', vfsLookupSingle anyName.recorded.toFileSystem st 0x80001000 name len
        = (.ok 0x80001000, st') ∧ Looped st'.forget := by
  unfold vfsLookupSingle
  rw [if_neg (not_or.mpr ⟨by decide, hlen⟩)]
  simp only
  rw [lookupBase h, isDirectory h, if_neg (by decide), if_neg (by exact nofun)]
  by_cases hfound : dentryLookup st.dc (st.dc.dentry 0x80001000).dSb 0x80001000
      ⟨name, len, hashString name len⟩ ≠ 0
  · rw [if_pos hfound, h.eq_root (dentryLookup_live (sound h) hfound)]
    exact ⟨st, rfl, h⟩
  · rw [if_neg hfound]
    exact lookupNew h hthere name

/-- The directory of every path is the root. -/
theorem parentLoop (fuel : Nat) (h : Looped st.forget) (hthere : st.world.1 = true)
    {path : List UInt8} (hstart : path.head? ≠ some 47) (lastStart : Option (List UInt8)) :
    ∃ start st', vfsPathParentLoop anyName.recorded.toFileSystem 0x80001000 fuel st 0x80001000
        lastStart path = (.ok (0x80001000, start), st') ∧ Looped st'.forget := by
  induction fuel generalizing st path lastStart with
  | zero => exact ⟨_, _, rfl, h⟩
  | succ fuel ih =>
      rw [vfsPathParentLoop]
      by_cases hne : path = []
      · rw [if_pos hne]
        exact ⟨_, _, rfl, h⟩
      rw [if_neg hne]
      simp only
      by_cases hrest : vfsSkipSlashes (path.drop (vfsGetName path).length) = []
      · rw [if_pos hrest]
        exact ih h hthere (head?_skipSlashes_ne _) _
      rw [if_neg hrest]
      have hlen := length_getName_ne_zero hne hstart
      obtain ⟨st₁, hlookup, h₁⟩ := lookupSingle h hthere (vfsGetName path) hlen
      have hthere₁ := keepsThere.lookupSingle hthere 0x80001000 (vfsGetName path)
        (UInt32.ofNat (vfsGetName path).length)
      rw [hlookup] at hthere₁ ⊢
      simp only
      rw [followMount h₁, if_neg (not_not.mpr rfl)]
      exact ih h₁ hthere₁ (head?_skipSlashes_ne _) _

theorem pathParent (h : Looped st.forget) (hthere : st.world.1 = true) (path : List UInt8) :
    ∃ last st', vfsPathParent anyName.recorded.toFileSystem st 0 path
        = (.ok (⟨0x80001000, 1⟩, last), st') ∧ Looped st'.forget := by
  have hb : startOf st 0 = 0x80001000 := by
    have hroot : st.rootMount = loopRoot.rootMount := h.ext.grows.rootMount
    rw [startOf, if_pos rfl, vfsGetRoot, hroot]
    rfl
  have hne : ¬(0x80001000 : Addr) = 0 := by decide
  have hget := next h (Vfs.Extends.get (sound h) 0x80001000) (sameCache_dentryGet st.dc _).2.1
  obtain ⟨start, st₁, hloop, h₁⟩ := parentLoop (vfsSkipSlashes path).length hget hthere
    (head?_skipSlashes_ne path) none
  have hinode : (st₁.dc.dentry 0x80001000).dInode = 1 := h₁.root.dInode
  unfold vfsPathParent
  simp only
  rw [hb, if_neg hne, hloop]
  simp only
  have hmem : ¬(anyName.recorded.kmalloc st₁.world).1 = false := by
    exact nofun
  rw [if_neg hmem, hinode]
  refine ⟨_, _, rfl, ?_⟩
  exact h₁

/-- A new dentry is made for the last name of every path. -/
theorem newDentry (h : Looped st.forget) (hthere : st.world.1 = true) (path : List UInt8) :
    ∃ last st₁ st₂, vfsPathParent anyName.recorded.toFileSystem st 0 path
        = (.ok (⟨0x80001000, 1⟩, last), st₁)
      ∧ Looped st₁.forget ∧ st₁.world.2 = st.world.2
      ∧ st₁.dentryAlloc anyName.recorded.toFileSystem 0x80001000
          (st₁.dc.dentry 0x80001000).dSb last.name = (.ok 0x80001100, st₂)
      ∧ st₂.world.2 = st.world.2 ∧ (st₂.dc.dentry 0x80001100).dName.name = newName path := by
  have hk := (recorded_keeps anyName (· = st.world.2)).fs
  have hnames := hk.pathParent rfl 0 path
  obtain ⟨last, st₁, hparent, h₁⟩ := pathParent h hthere path
  have hlast := vfsPathParent_newName hparent
  rw [hparent] at hnames
  obtain ⟨st₂, halloc, hworld⟩ := alloc h₁ 0x80001000 (st₁.dc.dentry 0x80001000).dSb last.name
  refine ⟨last, st₁, st₂, hparent, h₁, hnames, halloc, hworld ▸ hnames, ?_⟩
  rw [dentryAlloc_dName halloc, ← hlast]
  rfl

/-- The first name that is looked up is not there. -/
theorem lookupSingle_first (h : Looped st.forget) (hthere : st.world.1 = false)
    (hht : st.dc.ht = loopRoot.dc.ht) (name : List UInt8) {len : UInt32} (hlen : len ≠ 0) :
    ∃ st', vfsLookupSingle anyName.recorded.toFileSystem st 0x80001000 name len
        = (.error (-ENOENT), st') ∧ Looped st'.forget ∧ st'.world.1 = true := by
  have hspec := vfsLookupSingle_spec anyName.recorded.toFileSystem (sound h) h.live_root name len
  unfold vfsLookupSingle at hspec ⊢
  rw [if_neg (not_or.mpr ⟨by decide, hlen⟩)] at hspec ⊢
  simp only at hspec ⊢
  rw [lookupBase h, isDirectory h, if_neg (by decide), if_neg (by exact nofun)] at hspec ⊢
  have hnone : dentryLookup st.dc (st.dc.dentry 0x80001000).dSb 0x80001000
      ⟨name, len, hashString name len⟩ = 0 := by
    unfold dentryLookup
    rw [hht]
    rfl
  rw [if_neg (not_not.mpr hnone)] at hspec ⊢
  obtain ⟨st₁, halloc, hworld⟩ := alloc h 0x80001000 (st.dc.dentry 0x80001000).dSb name
  have hnew := dentryAlloc_ok halloc
  have hthere₁ : st₁.world.1 = false := hworld ▸ hthere
  have hlookup : anyName.recorded.lookup st₁.world st₁.dc.live (st₁.dc.dentry 0x80001000).dInode
      0x80001100 (st₁.dc.dentry 0x80001100) = (⟨.error (-ENOENT), 0⟩, true, st₁.world.2) := by
    unfold DirOps.recorded anyName
    simp only
    rw [hthere₁, if_neg Bool.false_ne_true]
  unfold vfsLookupNew at hspec ⊢
  rw [halloc] at hspec ⊢
  simp only at hspec ⊢
  rw [hlookup] at hspec ⊢
  simp only at hspec ⊢
  refine ⟨_, rfl, next h hspec.1 (hnew.live_free _ 0 _), ?_⟩
  exact keepsThere.free rfl false 0x80001100

/-- So the lookup of a path with a name that is looked up fails. -/
theorem walkLoop {fuel : Nat} (h : Looped st.forget) (hthere : st.world.1 = false)
    (hht : st.dc.ht = loopRoot.dc.ht) {path : List UInt8} (hstart : path.head? ≠ some 47)
    (hnorm : ∃ name ∈ pathNames fuel path, name ≠ [46] ∧ name ≠ [46, 46]) (nd : Nameidata) :
    ∃ st', vfsPathWalkLoop anyName.recorded.toFileSystem fuel st nd 0x80001000 path
        = (.error (-ENOENT), st') ∧ Looped st'.forget ∧ st'.world.1 = true := by
  induction fuel generalizing path nd with
  | zero =>
      obtain ⟨name, hname, -⟩ := hnorm
      exact absurd hname List.not_mem_nil
  | succ fuel ih =>
      obtain ⟨name, hname, hdots⟩ := hnorm
      rw [pathNames] at hname
      by_cases hne : path = []
      · rw [if_pos hne] at hname
        exact absurd hname List.not_mem_nil
      rw [if_neg hne] at hname
      rw [vfsPathWalkLoop]
      simp only
      by_cases hfirst : vfsGetName path = [46] ∨ vfsGetName path = [46, 46]
      · -- the walk stays at the root
        have hwalk : ∃ lastType, vfsWalkComponent anyName.recorded.toFileSystem st 0x80001000
            (vfsGetName path) = (.ok (0x80001000, lastType), st) := by
          unfold vfsWalkComponent
          rcases hfirst with hdot | hdotdot
          · rw [if_pos hdot]
            exact ⟨_, rfl⟩
          · have hparent : (st.dc.dentry 0x80001000).dParent = 0x80001000 := h.root.dParent
            rw [hdotdot, if_neg (by decide), if_pos rfl]
            simp only
            rw [hparent, if_neg (by decide)]
            exact ⟨_, rfl⟩
        obtain ⟨lastType, hwalk⟩ := hwalk
        rw [hwalk]
        simp only
        have hmem : name ∈ pathNames fuel (vfsSkipSlashes (path.drop (vfsGetName path).length)) := by
          rcases List.mem_cons.mp hname with rfl | hmem
          · exact absurd hfirst (not_or.mpr hdots)
          · exact hmem
        have hrest : vfsSkipSlashes (path.drop (vfsGetName path).length) ≠ [] := by
          intro hnil
          rw [hnil, pathNames_nil] at hmem
          exact absurd hmem List.not_mem_nil
        rw [if_neg hrest, isDirectory h, if_neg (by decide)]
        exact ih (head?_skipSlashes_ne _) ⟨name, hmem, hdots⟩ _
      · obtain ⟨hdot, hdotdot⟩ := not_or.mp hfirst
        obtain ⟨st₁, hlookup, h₁, hthere₁⟩ := lookupSingle_first h hthere hht (vfsGetName path)
          (length_getName_ne_zero hne hstart)
        unfold vfsWalkComponent
        rw [if_neg hdot, if_neg hdotdot, hlookup]
        exact ⟨_, rfl, h₁, hthere₁⟩

theorem pathLookup {path : List UInt8} (flags : UInt32)
    (hnorm : ∃ name ∈ namesOf path, name ≠ [46] ∧ name ≠ [46, 46]) :
    ∃ st', vfsPathLookup anyName.recorded.toFileSystem (anyRoot false).record 0 path flags
        = (.error (-ENOENT), st') ∧ Looped st'.forget ∧ st'.world.1 = true := by
  have hb : startOf (anyRoot false).record 0 = 0x80001000 := rfl
  have hne : ¬(0x80001000 : Addr) = 0 := by decide
  have hpath : vfsSkipSlashes path ≠ [] := by
    intro hnil
    obtain ⟨name, hname, -⟩ := hnorm
    rw [namesOf, hnil] at hname
    exact absurd hname List.not_mem_nil
  unfold vfsPathLookup vfsPathWalk
  simp only
  rw [hb, if_neg hne, if_neg hne, if_neg hpath]
  have hstart : Looped (anyRoot false).record.forget := Looped.start
  have hget := next hstart (Vfs.Extends.get (sound hstart) 0x80001000)
    (sameCache_dentryGet loopRoot.dc _).2.1
  obtain ⟨st₁, hloop, h₁, hthere₁⟩ := walkLoop hget rfl rfl (head?_skipSlashes_ne _) hnorm
    ⟨0x80001000, (((anyRoot false).record.dentryGet 0x80001000).dc.dentry 0x80001000).dInode,
      flags, .norm, none, 0⟩
  rw [hloop]
  exact ⟨_, rfl, next h₁ (Vfs.Extends.put (sound h₁) _) (sameCache_dentryPut st₁.dc _).2.1,
    hthere₁⟩

/-! ### What the operations get -/

theorem start (there : Bool) : Looped (anyRoot there).record.forget := Looped.start

variable {path : List UInt8}

/-- Whatever the last name is, it reaches an operation that makes something. -/
theorem names_vfsMake {hasOp : Bool × Names → Addr → Bool}
    {op : Bool × Names → Addr → Addr → Dentry → UInt32 → Done × Bool × Names}
    (hhas : ∀ w dir, hasOp w dir = true)
    (hop : ∀ w dir d dentry mode, (op w dir d dentry mode).1.ret = 0
      ∧ (op w dir d dentry mode).2.2 = w.2 ++ [dentry.dName.name]) (type mode : UInt32) :
    (vfsMake anyName.recorded.toFileSystem hasOp op type (anyRoot true).record path mode).2.world.2
      = [newName path] := by
  obtain ⟨last, st₁, st₂, hparent, h₁, -, halloc, hnames, hname⟩ := newDentry (start true) rfl path
  unfold vfsMake
  rw [hparent]
  simp only
  rw [isDirectory h₁, if_neg (by decide), hhas, if_neg (by decide), halloc]
  simp only
  obtain ⟨hret, hlog⟩ := hop st₂.world (st₁.dc.dentry 0x80001000).dInode 0x80001100
    (st₂.dc.dentry 0x80001100) (type ||| (mode &&& 0o777))
  rw [hnames, hname] at hlog
  generalize op st₂.world (st₁.dc.dentry 0x80001000).dInode 0x80001100 (st₂.dc.dentry 0x80001100)
    (type ||| (mode &&& 0o777)) = done at hret hlog ⊢
  have hfill : (st₂.fill 0x80001100 done.1.inode done.2).world.2 = [newName path] := hlog
  rw [hret, if_neg (by decide)]
  exact (recorded_keeps anyName (· = [newName path])).fs.insert hfill 0x80001100

theorem names_vfsRename :
    (vfsRename anyName.recorded.toVfsOps (anyRoot true).record [47] path).2.world.2
      = [newName path] := by
  have hlookup : vfsPathLookup anyName.recorded.toFileSystem (anyRoot true).record 0 [47]
      LOOKUP_FOLLOW = (.ok 0x80001000, (anyRoot true).record.dentryGet 0x80001000) := rfl
  have hget := next (start true) (Vfs.Extends.get (sound (start true)) 0x80001000)
    (sameCache_dentryGet loopRoot.dc _).2.1
  obtain ⟨last, st₁, st₂, hparent, h₁, -, halloc, hnames, hname⟩ := newDentry hget rfl path
  have hnew := dentryAlloc_ok halloc
  have hroot : (st₂.dc.dentry 0x80001000).dParent = 0x80001000
      ∧ (st₂.dc.dentry 0x80001000).dInode = 1 := by
    have hsame := hnew.grows.dentry _ h₁.live_root
    rw [hsame.dParent, hsame.dInode]
    exact ⟨h₁.root.dParent, h₁.root.dInode⟩
  unfold vfsRename
  rw [hlookup]
  simp only
  rw [hparent]
  simp only
  rw [isDirectory h₁, if_neg (by decide), halloc]
  simp only
  unfold vfsRenameTo
  simp only
  rw [hroot.1, hroot.2, if_neg (by decide), if_neg (by exact nofun)]
  -- the file system records the name it is given, and that is the new one
  have hdone : ∀ oldD oldDentry newDir newD, anyName.recorded.rename st₂.world 1 oldD oldDentry
      newDir newD (st₂.dc.dentry 0x80001100)
        = (⟨0, oldDentry.dInode⟩, 1, st₂.world.1, [newName path]) := by
    intro oldD oldDentry newDir newD
    unfold DirOps.recorded anyName
    simp only
    rw [hnames, hname]
    rfl
  have hret : ¬(0 : Int) < 0 := by decide
  rw [hdone, if_neg hret]
  have hk := recorded_keeps anyName (· = [newName path])
  exact hk.delete (hk.fs.insert rfl 0x80001100) 0x80001000

/-- A file is to be opened that is not there. -/
def opening : VfsState Bool where
  vfs := anyRoot false
  files := fileInit (fun _ => ⟨0, 0, none, 0, 0, 0, 0⟩) ⟨id, id⟩
  held := []

theorem names_vfsOpen (hnorm : ∃ name ∈ namesOf path, name ≠ [46] ∧ name ≠ [46, 46]) :
    (vfsOpen anyName.recorded.toVfsOps opening.record path O_CREAT).2.vfs.world.2
      = [newName path] := by
  have hk := recorded_keeps anyName (· = [newName path])
  obtain ⟨st, hlookup, h, hthere⟩ := pathLookup LOOKUP_FOLLOW hnorm
  have hempty : (anyRoot false).record.world.2 = [] := rfl
  -- the lookup has recorded no name yet
  have hnone := (recorded_keeps anyName (· = [])).fs.pathLookup hempty 0 path LOOKUP_FOLLOW
  rw [hlookup] at hnone
  obtain ⟨last, st₁, st₂, hparent, h₁, -, halloc, hnames, hname⟩ := newDentry h hthere path
  rw [hnone] at hnames
  have hinode : (st₁.dc.dentry 0x80001000).dInode = 1 := h₁.root.dInode
  have hdone : ∀ mode, anyName.recorded.create st₂.world 1 0x80001100 (st₂.dc.dentry 0x80001100)
      mode = (⟨0, 1⟩, st₂.world.1, [newName path]) := by
    intro mode
    unfold DirOps.recorded anyName
    simp only
    rw [hnames, hname]
    rfl
  have hcreate : ∃ st₃, vfsOpenCreate anyName.recorded.toVfsOps st path = (.ok 0x80001100, st₃)
      ∧ st₃.world.2 = [newName path] := by
    unfold vfsOpenCreate
    rw [hparent]
    simp only
    have hdir : ¬sIsDir S_IFDIR = false := by decide
    have hmode : ¬sIsDir (anyName.recorded.iMode st₁.world 1) = false := hdir
    rw [hinode, if_neg (by decide), if_neg (by decide), if_neg hmode, if_neg (by exact nofun),
      halloc]
    simp only
    have hret : ¬(0 : Int) < 0 := by decide
    rw [hdone, if_neg hret]
    exact ⟨_, rfl, hk.fs.insert rfl 0x80001100⟩
  obtain ⟨st₃, hcreate, hlog⟩ := hcreate
  have hdentry : vfsOpenDentry anyName.recorded.toVfsOps opening.record.vfs path O_CREAT
      = (.ok 0x80001100, st₃) := by
    have hflags : O_CREAT &&& O_CREAT ≠ 0 ∧ True := ⟨by decide, trivial⟩
    unfold vfsOpenDentry
    rw [show opening.record.vfs = (anyRoot false).record from rfl, hlookup]
    simp only
    rw [if_pos hflags, hcreate]
  have hopen := hk.fileOpen (s := { opening.record with vfs := st₃ }) hlog 0x80001100 O_CREAT
  unfold vfsOpen
  rw [hdentry]
  simp only
  generalize VfsState.fileOpen anyName.recorded.toVfsOps { opening.record with vfs := st₃ }
    0x80001100 O_CREAT = y at hopen ⊢
  obtain ⟨err | f, s₁⟩ := y
  · exact hopen
  · exact hopen

end AnyName

/-! ## Which paths are safe -/

theorem endsGenuine_of_all {path : List UInt8} {names : Names} (hnames : names = [newName path])
    (h : AllGenuine names) : EndsGenuine path :=
  endsGenuine_of (h _ (hnames ▸ List.mem_singleton_self _))

/-- **New names.** Only genuine names reach `create`, `mkdir` and `rename` exactly if the last name
of the path is none of the empty one, `.` and `..`; from `vfs_open` also if all of them are `.` and
`..`. -/
theorem namesGenuine_iff (path : List UInt8) : (CreateGenuine path ↔ EndsGenuine path)
    ∧ (MkdirGenuine path ↔ EndsGenuine path) ∧ (RenameGenuine path ↔ EndsGenuine path)
    ∧ (OpenGenuine path ↔
      EndsGenuine path ∨ ∀ name ∈ namesOf path, name = [46] ∨ name = [46, 46]) := by
  refine ⟨⟨fun h => ?_, createGenuine_of⟩, ⟨fun h => ?_, mkdirGenuine_of⟩,
    ⟨fun h => ?_, renameGenuine_of⟩, ⟨fun h => ?_, openGenuine_of⟩⟩
  · exact endsGenuine_of_all (AnyName.names_vfsMake (fun _ _ => rfl) (fun _ _ _ _ _ => ⟨rfl, rfl⟩)
      S_IFREG 0) (h Bool anyName (anyRoot true) 0)
  · exact endsGenuine_of_all (AnyName.names_vfsMake (fun _ _ => rfl) (fun _ _ _ _ _ => ⟨rfl, rfl⟩)
      S_IFDIR 0) (h Bool anyName (anyRoot true) 0)
  · exact endsGenuine_of_all AnyName.names_vfsRename (h Bool anyName (anyRoot true) [47])
  · by_cases hnorm : ∃ name ∈ namesOf path, name ≠ [46] ∧ name ≠ [46, 46]
    · exact .inl (endsGenuine_of_all (AnyName.names_vfsOpen hnorm)
        (h Bool anyName AnyName.opening O_CREAT))
    · refine .inr fun name hname => ?_
      by_contra hdots
      exact hnorm ⟨name, hname, not_or.mp hdots⟩

/-- `mkdir` makes a directory with the empty name of `/`, and one with the name `..` of `/a/..`. -/
theorem not_namesGenuine :
    (vfsMkdir anyName.recorded (anyRoot true).record [47] 0).2.world.2 = [[]]
      ∧ (vfsMkdir anyName.recorded (anyRoot true).record [47, 97, 47, 46, 46] 0).2.world.2
        = [[46, 46]]
      ∧ ¬MkdirGenuine [47] ∧ ¬MkdirGenuine [47, 97, 47, 46, 46] := by
  have hempty : (vfsMkdir anyName.recorded (anyRoot true).record [47] 0).2.world.2 = [[]] :=
    AnyName.names_vfsMake (fun _ _ => rfl) (fun _ _ _ _ _ => ⟨rfl, rfl⟩) S_IFDIR 0
  have hdots : (vfsMkdir anyName.recorded (anyRoot true).record [47, 97, 47, 46, 46] 0).2.world.2
      = [[46, 46]] :=
    AnyName.names_vfsMake (fun _ _ => rfl) (fun _ _ _ _ _ => ⟨rfl, rfl⟩) S_IFDIR 0
  refine ⟨hempty, hdots, fun h => ?_, fun h => ?_⟩
  · have hgenuine := h Bool anyName (anyRoot true) 0 []
    rw [hempty] at hgenuine
    exact (hgenuine (List.mem_singleton_self _)).1 rfl
  · have hgenuine := h Bool anyName (anyRoot true) 0 [46, 46]
    rw [hdots] at hgenuine
    exact (hgenuine (List.mem_singleton_self _)).2.2.1 rfl

end NoobKernel.Fs
