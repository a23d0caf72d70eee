import NoobKernel.Fs.NameiNames
import NoobKernel.Fs.Vfs

set_option autoImplicit false

/-! # New names (`fs/vfs.c`)

`vfs_create` and `vfs_mkdir` differ in the operation that they call. What the operations that make
an entry of a directory are called with is written down in the state of the file systems
(`DirOps.recorded`), so that a run says which names have reached them.
-/

namespace NoobKernel.Fs

structure DirOps (W : Type) extends VfsOps W where
  hasMkdir : W → (dir : Addr) → Bool
  mkdir : W → (dir d : Addr) → Dentry → (mode : UInt32) → Done × W

variable {W : Type}

/-! ## Directories and files -/

/-- What `vfs_create` and `vfs_mkdir` have in common. -/
def vfsMake (fs : FileSystem W) (hasOp : W → Addr → Bool)
    (op : W → Addr → Addr → Dentry → UInt32 → Done × W) (type : UInt32) (st : Vfs W)
    (path : List UInt8) (mode : UInt32) : Int × Vfs W :=
  match vfsPathParent fs st 0 path with
  | (.error e, st) => (e, st)
  | (.ok (parent, last), st) =>
      let dir := (st.dc.dentry parent.dentry).dInode
      if isDirectory fs st parent.dentry = false then (-ENOTDIR, st.dentryPut parent.dentry)
      else if hasOp st.world dir = false then (-ENOSYS, st.dentryPut parent.dentry)
      else
        match st.dentryAlloc fs parent.dentry (st.dc.dentry parent.dentry).dSb last.name with
        | (.error e, st) => (e, st.dentryPut parent.dentry)
        | (.ok d, st) =>
            let done := op st.world dir d (st.dc.dentry d) (type ||| (mode &&& 0o777))
            let st := { st with dc := st.dc.setInode d done.1.inode, world := done.2 }
            if done.1.ret < 0 then
              (done.1.ret, (st.dentryFree fs false d).dentryPut parent.dentry)
            else (0, ((st.dentryInsert fs d).2.dentryPut d).dentryPut parent.dentry)

def vfsCreate (ops : DirOps W) (st : Vfs W) (path : List UInt8) (mode : UInt32) : Int × Vfs W :=
  vfsMake ops.toFileSystem ops.hasCreate ops.create S_IFREG st path mode

def vfsMkdir (ops : DirOps W) (st : Vfs W) (path : List UInt8) (mode : UInt32) : Int × Vfs W :=
  vfsMake ops.toFileSystem ops.hasMkdir ops.mkdir S_IFDIR st path mode

/-! ## Recorded names -/

/-- The names of the new dentries that an operation has been called with. -/
abbrev Names : Type := List (List UInt8)

/-- The same operations, which write down the names of new dentries. -/
def DirOps.recorded (ops : DirOps W) : DirOps (W × Names) where
  kmemCacheAlloc w live :=
    let r := ops.kmemCacheAlloc w.1 live
    (r.1, r.2, w.2)
  kmalloc w :=
    let r := ops.kmalloc w.1
    (r.1, r.2, w.2)
  iMode w := ops.iMode w.1
  hasLookup w := ops.hasLookup w.1
  lookup w live dir d dentry :=
    let r := ops.lookup w.1 live dir d dentry
    (r.1, r.2, w.2)
  release w d dentry := (ops.release w.1 d dentry, w.2)
  kmemCacheAlloc_new w := ops.kmemCacheAlloc_new w.1
  lookup_live w := ops.lookup_live w.1
  hasCreate w := ops.hasCreate w.1
  hasUnlink w := ops.hasUnlink w.1
  hasRmdir w := ops.hasRmdir w.1
  hasRename w := ops.hasRename w.1
  hasMkdir w := ops.hasMkdir w.1
  create w dir d dentry mode :=
    let r := ops.create w.1 dir d dentry mode
    (r.1, r.2, w.2 ++ [dentry.dName.name])
  mkdir w dir d dentry mode :=
    let r := ops.mkdir w.1 dir d dentry mode
    (r.1, r.2, w.2 ++ [dentry.dName.name])
  unlink w dir d dentry :=
    let r := ops.unlink w.1 dir d dentry
    (r.1, r.2, w.2)
  rmdir w dir d dentry :=
    let r := ops.rmdir w.1 dir d dentry
    (r.1, r.2, w.2)
  rename w oldDir oldD oldDentry newDir newD newDentry :=
    let r := ops.rename w.1 oldDir oldD oldDentry newDir newD newDentry
    (r.1, r.2.1, r.2.2, w.2 ++ [newDentry.dName.name])
  dDelete w d dentry :=
    let r := ops.dDelete w.1 d dentry
    (r.1, r.2, w.2)
  fileCacheAlloc w live :=
    let r := ops.fileCacheAlloc w.1 live
    (r.1, r.2, w.2)
  iFop w := ops.iFop w.1
  openFile w inode f :=
    let r := ops.openFile w.1 inode f
    (r.1, r.2, w.2)
  releaseFile w f := (ops.releaseFile w.1 f, w.2)
  fileCacheAlloc_new w := ops.fileCacheAlloc_new w.1

/-- A state in which no name has been written down. -/
def Vfs.record (st : Vfs W) : Vfs (W × Names) where
  dc := st.dc
  mounts := st.mounts
  rootMount := st.rootMount
  world := (st.world, [])
  frees := st.frees

def VfsState.record (s : VfsState W) : VfsState (W × Names) where
  vfs := s.vfs.record
  files := s.files
  held := s.held

/-- What `vfs_path_parent` takes for the last component. -/
def newName (path : List UInt8) : List UInt8 := (namesOf path).getLastD []

/-! ## The world -/

/-- What a walk calls keeps a property of the state of the file systems. -/
structure FileSystem.Keeps (fs : FileSystem W) (P : W → Prop) : Prop where
  kmemCacheAlloc : ∀ w live, P w → P (fs.kmemCacheAlloc w live).2
  kmalloc : ∀ w, P w → P (fs.kmalloc w).2
  lookup : ∀ w live dir d dentry, P w → P (fs.lookup w live dir d dentry).2
  release : ∀ w d dentry, P w → P (fs.release w d dentry)

namespace FileSystem.Keeps

variable {fs : FileSystem W} {P : W → Prop} {st : Vfs W} (hk : fs.Keeps P)

include hk

theorem alloc (h : P st.world) (parent sb : Addr) (name : List UInt8) :
    P (st.dentryAlloc fs parent sb name).2.world := by
  have hmem := hk.kmemCacheAlloc st.world st.dc.live h
  unfold Vfs.dentryAlloc
  generalize fs.kmemCacheAlloc st.world st.dc.live = mem at hmem ⊢
  obtain ⟨memory, world⟩ := mem
  simp only
  split
  · exact hmem
  · exact hk.kmalloc world hmem

theorem free (h : P st.world) (deleting : Bool) (d : Addr) :
    P (st.dentryFree fs deleting d).world := by
  unfold Vfs.dentryFree
  split
  · exact h
  · exact hk.release st.world d _ h

theorem insert (h : P st.world) (d : Addr) : P (st.dentryInsert fs d).2.world := by
  have hmem := hk.kmalloc st.world h
  unfold Vfs.dentryInsert
  generalize fs.kmalloc st.world = mem at hmem ⊢
  obtain ⟨memory, world⟩ := mem
  simp only
  split
  · exact hmem
  · exact h

theorem lookupNew (h : P st.world) (base : Addr) (name : List UInt8) :
    P (vfsLookupNew fs st base name).2.world := by
  have halloc := hk.alloc h base (st.dc.dentry base).dSb name
  unfold vfsLookupNew
  generalize st.dentryAlloc fs base (st.dc.dentry base).dSb name = x at halloc ⊢
  obtain ⟨err | d, st₁⟩ := x
  · exact halloc
  have hlookup := hk.lookup st₁.world st₁.dc.live (st₁.dc.dentry base).dInode d
    (st₁.dc.dentry d) halloc
  simp only
  generalize fs.lookup st₁.world st₁.dc.live (st₁.dc.dentry base).dInode d (st₁.dc.dentry d)
    = found at hlookup ⊢
  obtain ⟨⟨err | r, inode⟩, world⟩ := found
  · exact hk.free hlookup false d
  simp only
  have hfill : P (st₁.fill d inode world).world := hlookup
  split
  · exact hk.insert (hk.free hfill false d) r
  · exact hk.insert hfill r

theorem lookupSingle (h : P st.world) (base : Addr) (name : List UInt8) (len : UInt32) :
    P (vfsLookupSingle fs st base name len).2.world := by
  unfold vfsLookupSingle
  split
  · exact h
  simp only
  split
  · exact h
  split
  · exact h
  split
  · exact h
  · exact hk.lookupNew h _ name

omit hk in
theorem world_followMount (st : Vfs W) (d : Addr) : (followMount st d).2.world = st.world := by
  unfold followMount
  split
  · rfl
  · rfl

theorem walkComponent (h : P st.world) (dentry : Addr) (name : List UInt8) :
    P (vfsWalkComponent fs st dentry name).2.world := by
  unfold vfsWalkComponent
  split
  · exact h
  split
  · exact h
  have hlookup := hk.lookupSingle h dentry name (UInt32.ofNat name.length)
  generalize vfsLookupSingle fs st dentry name (UInt32.ofNat name.length) = x at hlookup ⊢
  obtain ⟨err | next, st₁⟩ := x
  · exact hlookup
  · rw [← world_followMount st₁ next] at hlookup
    exact hlookup

theorem walkLoop (fuel : Nat) (h : P st.world) (nd : Nameidata) (dentry : Addr)
    (path : List UInt8) : P (vfsPathWalkLoop fs fuel st nd dentry path).2.world := by
  induction fuel generalizing st nd dentry path with
  | zero => exact h
  | succ fuel ih =>
      have hwalk := hk.walkComponent h dentry (vfsGetName path)
      unfold vfsPathWalkLoop
      simp only
      generalize vfsWalkComponent fs st dentry (vfsGetName path) = x at hwalk ⊢
      obtain ⟨err | ⟨next, lastType⟩, st₁⟩ := x
      · exact hwalk
      simp only
      split
      · exact hwalk
      split
      · exact hwalk
      · exact ih hwalk _ _ _

theorem pathLookup (h : P st.world) (base : Addr) (path : List UInt8) (flags : UInt32) :
    P (vfsPathLookup fs st base path flags).2.world := by
  unfold vfsPathLookup vfsPathWalk
  simp only
  by_cases hstart : startOf st base = 0
  · rw [if_pos hstart]
    exact h
  rw [if_neg hstart, if_neg hstart]
  by_cases hpath : vfsSkipSlashes path = []
  · rw [if_pos hpath]
    exact h
  rw [if_neg hpath]
  have hget : P (st.dentryGet (startOf st base)).world := h
  have hloop := hk.walkLoop (vfsSkipSlashes path).length hget
    ⟨startOf st base, ((st.dentryGet (startOf st base)).dc.dentry (startOf st base)).dInode, flags,
      .norm, none, 0⟩ (startOf st base) (vfsSkipSlashes path)
  generalize vfsPathWalkLoop fs (vfsSkipSlashes path).length (st.dentryGet (startOf st base))
    ⟨startOf st base, ((st.dentryGet (startOf st base)).dc.dentry (startOf st base)).dInode, flags,
      .norm, none, 0⟩ (startOf st base) (vfsSkipSlashes path) = x at hloop ⊢
  obtain ⟨err | nd, st₁⟩ := x
  · exact hloop
  · exact hloop

theorem parentLoop (fuel : Nat) (h : P st.world) (base cur : Addr)
    (lastStart : Option (List UInt8)) (path : List UInt8) :
    P (vfsPathParentLoop fs base fuel st cur lastStart path).2.world := by
  induction fuel generalizing st cur lastStart path with
  | zero => exact h
  | succ fuel ih =>
      unfold vfsPathParentLoop
      by_cases hpath : path = []
      · rw [if_pos hpath]
        exact h
      rw [if_neg hpath]
      simp only
      by_cases hrest : vfsSkipSlashes (path.drop (vfsGetName path).length) = []
      · rw [if_pos hrest]
        exact ih h _ _ _
      rw [if_neg hrest]
      have hlookup := hk.lookupSingle h cur (vfsGetName path)
        (UInt32.ofNat (vfsGetName path).length)
      generalize vfsLookupSingle fs st cur (vfsGetName path)
        (UInt32.ofNat (vfsGetName path).length) = x at hlookup ⊢
      obtain ⟨err | next, st₁⟩ := x
      · exact hlookup
      · refine ih ?_ _ _ _
        rw [← world_followMount st₁ next] at hlookup
        split
        · exact hlookup
        · exact hlookup

theorem pathParent (h : P st.world) (base : Addr) (path : List UInt8) :
    P (vfsPathParent fs st base path).2.world := by
  have hget : P (st.dentryGet (startOf st base)).world := h
  have hloop := hk.parentLoop (vfsSkipSlashes path).length hget
    (startOf st base) (startOf st base) none (vfsSkipSlashes path)
  unfold vfsPathParent
  simp only
  by_cases hstart : startOf st base = 0
  · rw [if_pos hstart]
    exact h
  rw [if_neg hstart]
  generalize vfsPathParentLoop fs (startOf st base) (vfsSkipSlashes path).length
    (st.dentryGet (startOf st base)) (startOf st base) none (vfsSkipSlashes path) = x at hloop ⊢
  obtain ⟨err | ⟨current, lastStart⟩, st₁⟩ := x
  · exact hloop
  have hmem := hk.kmalloc st₁.world hloop
  simp only
  split
  · exact hmem
  · exact hmem

end FileSystem.Keeps

/-- What an operation is called with is the last name of the path. -/
theorem vfsPathParent_newName {fs : FileSystem W} {st st' : Vfs W} {path : List UInt8}
    {parent : Path} {last : Qstr} (h : vfsPathParent fs st 0 path = (.ok (parent, last), st')) :
    last.name = newName path := by
  have hspec := pathParentNames_spec fs st 0 path
  rw [h] at hspec
  exact hspec.2

/-- The new dentry gets it. -/
theorem dentryAlloc_newName {fs : FileSystem W} {st st₁ st₂ : Vfs W} {path : List UInt8}
    {parent : Path} {last : Qstr} {dir sb d : Addr}
    (hpath : vfsPathParent fs st 0 path = (.ok (parent, last), st₁))
    (halloc : st₁.dentryAlloc fs dir sb last.name = (.ok d, st₂)) :
    (st₂.dc.dentry d).dName.name = newName path := by
  rw [dentryAlloc_dName halloc, ← vfsPathParent_newName hpath]
  rfl

/-! ## What the operations are called with -/

section Calls

variable {P : W → Prop} {st : Vfs W} {path : List UInt8}

/-- The operation is called with a new dentry of the last name. -/
theorem vfsMake_keeps {fs : FileSystem W} (hk : fs.Keeps P) (h : P st.world)
    {hasOp : W → Addr → Bool} {op : W → Addr → Addr → Dentry → UInt32 → Done × W}
    (hop : ∀ w dir d dentry mode, P w → dentry.dName.name = newName path →
      P (op w dir d dentry mode).2) (type mode : UInt32) :
    P (vfsMake fs hasOp op type st path mode).2.world := by
  have hparent := hk.pathParent h 0 path
  unfold vfsMake
  generalize hpath : vfsPathParent fs st 0 path = x at hparent ⊢
  obtain ⟨err | ⟨parent, last⟩, st₁⟩ := x
  · exact hparent
  simp only
  split
  · exact hparent
  split
  · exact hparent
  have hmem := hk.alloc hparent parent.dentry (st₁.dc.dentry parent.dentry).dSb last.name
  generalize halloc : st₁.dentryAlloc fs parent.dentry (st₁.dc.dentry parent.dentry).dSb last.name
    = y at hmem ⊢
  obtain ⟨err | d, st₂⟩ := y
  · exact hmem
  have hname := dentryAlloc_newName hpath halloc
  have hdone := hop st₂.world (st₁.dc.dentry parent.dentry).dInode d (st₂.dc.dentry d)
    (type ||| (mode &&& 0o777)) hmem hname
  simp only
  generalize op st₂.world (st₁.dc.dentry parent.dentry).dInode d (st₂.dc.dentry d)
    (type ||| (mode &&& 0o777)) = done at hdone ⊢
  have hfill : P (st₂.fill d done.1.inode done.2).world := hdone
  split
  · exact hk.free hfill false d
  · exact hk.insert hfill d

variable {ops : VfsOps W}

theorem vfsOpenCreate_keeps (hk : ops.toFileSystem.Keeps P) (h : P st.world)
    (hop : ∀ w dir d dentry mode, P w → dentry.dName.name = newName path →
      P (ops.create w dir d dentry mode).2) : P (vfsOpenCreate ops st path).2.world := by
  have hparent := hk.pathParent h 0 path
  unfold vfsOpenCreate
  generalize hpath : vfsPathParent ops.toFileSystem st 0 path = x at hparent ⊢
  obtain ⟨err | ⟨parent, last⟩, st₁⟩ := x
  · exact hparent
  simp only
  split
  · exact hparent
  split
  · exact hparent
  split
  · exact hparent
  split
  · exact hparent
  -- the checks before this point change no more than the walk has
  have hmem := hk.alloc hparent parent.dentry (st₁.dc.dentry parent.dentry).dSb last.name
  generalize halloc : st₁.dentryAlloc ops.toFileSystem parent.dentry
    (st₁.dc.dentry parent.dentry).dSb last.name = y at hmem ⊢
  obtain ⟨err | d, st₂⟩ := y
  · exact hmem
  have hname := dentryAlloc_newName hpath halloc
  have hdone := hop st₂.world (st₁.dc.dentry parent.dentry).dInode d (st₂.dc.dentry d)
    (S_IFREG ||| 0o644) hmem hname
  simp only
  generalize ops.create st₂.world (st₁.dc.dentry parent.dentry).dInode d (st₂.dc.dentry d)
    (S_IFREG ||| 0o644) = done at hdone ⊢
  have hfill : P (st₂.fill d done.1.inode done.2).world := hdone
  split
  · exact hk.free hfill false d
  · exact hk.insert hfill d

/-- What the other operations of the VFS call keeps the property as well. -/
structure VfsOps.Keeps (ops : VfsOps W) (P : W → Prop) : Prop where
  fs : ops.toFileSystem.Keeps P
  dDelete : ∀ w d dentry, P w → P (ops.dDelete w d dentry).2
  openFile : ∀ w inode f, P w → P (ops.openFile w inode f).2
  fileCacheAlloc : ∀ w live, P w → P (ops.fileCacheAlloc w live).2

theorem VfsOps.Keeps.fileOpen {s : VfsState W} (hk : ops.Keeps P) (h : P s.vfs.world) (d : Addr)
    (flags : UInt32) : P (s.fileOpen ops d flags).2.vfs.world := by
  unfold VfsState.fileOpen
  simp only
  have hmem : P (if d = 0 ∨ (s.vfs.dc.dentry d).dInode = 0 then (0, s.vfs.world)
      else ops.fileCacheAlloc s.vfs.world s.files.live).2 := by
    split
    · exact h
    · exact hk.fileCacheAlloc _ _ h
  generalize (if d = 0 ∨ (s.vfs.dc.dentry d).dInode = 0 then (0, s.vfs.world)
    else ops.fileCacheAlloc s.vfs.world s.files.live) = mem at hmem ⊢
  split
  · exact hk.openFile _ _ _ hmem
  · exact hmem

theorem VfsOps.Keeps.delete (hk : ops.Keeps P) (h : P st.world) (d : Addr) :
    P (st.dentryDelete ops d).world := by
  have hasked := hk.dDelete st.world d (st.dc.dentry d) h
  unfold Vfs.dentryDelete
  split
  · exact h
  simp only
  split
  · exact hasked
  · exact hk.fs.free hasked true d

theorem vfsRename_keeps (hk : ops.Keeps P) (h : P st.world)
    (hop : ∀ w oldDir oldD oldDentry newDir newD newDentry, P w →
      newDentry.dName.name = newName path →
      P (ops.rename w oldDir oldD oldDentry newDir newD newDentry).2.2) (oldPath : List UInt8) :
    P (vfsRename ops st oldPath path).2.world := by
  have hlookup := hk.fs.pathLookup h 0 oldPath LOOKUP_FOLLOW
  unfold vfsRename
  generalize vfsPathLookup ops.toFileSystem st 0 oldPath LOOKUP_FOLLOW = x at hlookup ⊢
  obtain ⟨err | oldD, st₁⟩ := x
  · exact hlookup
  have hparent := hk.fs.pathParent hlookup 0 path
  simp only
  generalize hpath : vfsPathParent ops.toFileSystem st₁ 0 path = y at hparent ⊢
  obtain ⟨err | ⟨newParent, newLast⟩, st₂⟩ := y
  · exact hparent
  simp only
  split
  · exact hparent
  have hmem := hk.fs.alloc hparent newParent.dentry (st₂.dc.dentry newParent.dentry).dSb
    newLast.name
  generalize halloc : st₂.dentryAlloc ops.toFileSystem newParent.dentry
    (st₂.dc.dentry newParent.dentry).dSb newLast.name = z at hmem ⊢
  obtain ⟨err | newD, st₃⟩ := z
  · exact hmem
  -- the dentry that `rename` gets has the name of the last component
  have hname := dentryAlloc_newName hpath halloc
  have hto : P (vfsRenameTo ops st₃ oldD (st₃.dc.dentry newParent.dentry).dInode newD).2.world := by
    unfold vfsRenameTo
    simp only
    split
    · exact hk.fs.free hmem false newD
    split
    · exact hk.fs.free hmem false newD
    have hdone := hop st₃.world (st₃.dc.dentry (st₃.dc.dentry oldD).dParent).dInode oldD
      (st₃.dc.dentry oldD) (st₃.dc.dentry newParent.dentry).dInode newD (st₃.dc.dentry newD) hmem
      hname
    generalize ops.rename st₃.world (st₃.dc.dentry (st₃.dc.dentry oldD).dParent).dInode oldD
      (st₃.dc.dentry oldD) (st₃.dc.dentry newParent.dentry).dInode newD (st₃.dc.dentry newD) = done
      at hdone ⊢
    have hfill : P ((st₃.fill oldD done.1.inode done.2.2).fill newD done.2.1 done.2.2).world := hdone
    split
    · exact hk.fs.free hfill false newD
    · exact hk.delete (hk.fs.insert hfill newD) oldD
  exact hto

/-! ## Paths of dots -/

/-- Where all names are `.` and `..`, a walk can only meet what is no directory. -/
theorem walkLoop_dots (fs : FileSystem W) {fuel : Nat} (st : Vfs W) (hne : path ≠ [])
    (hdots : ∀ name ∈ pathNames fuel path, name = [46] ∨ name = [46, 46]) (nd : Nameidata)
    (dentry : Addr) : ∀ e, (vfsPathWalkLoop fs fuel st nd dentry path).1 = .error e →
      e = -ENOTDIR := by
  induction fuel generalizing path nd dentry with
  | zero =>
      rintro e ⟨⟩
  | succ fuel ih =>
      rw [pathNames, if_neg hne] at hdots
      obtain ⟨next, hwalk⟩ : ∃ next, vfsWalkComponent fs st dentry (vfsGetName path)
          = (.ok next, st) := by
        unfold vfsWalkComponent
        rcases hdots _ List.mem_cons_self with hdot | hdotdot
        · rw [if_pos hdot]
          exact ⟨_, rfl⟩
        · rw [hdotdot, if_neg (by decide), if_pos rfl]
          exact ⟨_, rfl⟩
      unfold vfsPathWalkLoop
      simp only
      rw [hwalk]
      simp only
      by_cases hrest : vfsSkipSlashes (path.drop (vfsGetName path).length) = []
      · rw [if_pos hrest]
        rintro e ⟨⟩
      rw [if_neg hrest]
      split
      · rintro e ⟨⟩
        rfl
      · exact ih hrest (fun name hname => hdots name (List.mem_cons_of_mem _ hname)) _ _

/-- Such a path is not there only if there is no root. -/
theorem pathLookup_dots {fs : FileSystem W}
    (hdots : ∀ name ∈ namesOf path, name = [46] ∨ name = [46, 46]) {flags : UInt32} {st' : Vfs W}
    (h : vfsPathLookup fs st 0 path flags = (.error (-ENOENT), st')) :
    startOf st 0 = 0 ∧ st' = st := by
  unfold vfsPathLookup vfsPathWalk at h
  simp only at h
  by_cases hstart : startOf st 0 = 0
  · rw [if_pos hstart] at h
    exact ⟨hstart, (Prod.mk.inj h).2.symm⟩
  rw [if_neg hstart, if_neg hstart] at h
  by_cases hpath : vfsSkipSlashes path = []
  · rw [if_pos hpath] at h
    cases h
  rw [if_neg hpath] at h
  have hloop := walkLoop_dots fs (st.dentryGet (startOf st 0)) hpath hdots
    ⟨startOf st 0, ((st.dentryGet (startOf st 0)).dc.dentry (startOf st 0)).dInode, flags, .norm,
      none, 0⟩ (startOf st 0)
  generalize vfsPathWalkLoop fs (vfsSkipSlashes path).length (st.dentryGet (startOf st 0))
    ⟨startOf st 0, ((st.dentryGet (startOf st 0)).dc.dentry (startOf st 0)).dInode, flags, .norm,
      none, 0⟩ (startOf st 0) (vfsSkipSlashes path) = x at h hloop
  obtain ⟨err | nd, st₁⟩ := x
  · have herr := hloop err rfl
    obtain rfl : err = -ENOENT := Except.error.inj (Prod.mk.inj h).1
    exact absurd herr (by decide)
  · cases h

theorem vfsOpen_keeps {s : VfsState W} (hk : ops.Keeps P) (h : P s.vfs.world)
    (hop : (∃ name ∈ namesOf path, name ≠ [46] ∧ name ≠ [46, 46]) →
      ∀ w dir d dentry mode, P w → dentry.dName.name = newName path →
        P (ops.create w dir d dentry mode).2) (flags : UInt32) :
    P (vfsOpen ops s path flags).2.vfs.world := by
  have hdentry : P (vfsOpenDentry ops s.vfs path flags).2.world := by
    have hlookup := hk.fs.pathLookup h 0 path LOOKUP_FOLLOW
    unfold vfsOpenDentry
    generalize hpath : vfsPathLookup ops.toFileSystem s.vfs 0 path LOOKUP_FOLLOW = x at hlookup ⊢
    obtain ⟨err | d, st₁⟩ := x
    · simp only
      split
      · rename_i hcreat
        obtain rfl : err = -ENOENT := hcreat.2
        by_cases hnorm : ∃ name ∈ namesOf path, name ≠ [46] ∧ name ≠ [46, 46]
        · exact vfsOpenCreate_keeps hk.fs hlookup (hop hnorm)
        · -- there is no root to create anything in
          have hdots : ∀ name ∈ namesOf path, name = [46] ∨ name = [46, 46] := by
            intro name hname
            by_contra hdots
            exact hnorm ⟨name, hname, not_or.mp hdots⟩
          obtain ⟨hstart, rfl⟩ := pathLookup_dots hdots hpath
          unfold vfsOpenCreate vfsPathParent
          simp only
          rw [if_pos hstart]
          exact h
      · exact hlookup
    · exact hlookup
  unfold vfsOpen
  generalize vfsOpenDentry ops s.vfs path flags = x at hdentry ⊢
  obtain ⟨err | d, vfs⟩ := x
  · exact hdentry
  have hopen := hk.fileOpen (s := { s with vfs := vfs }) hdentry d flags
  simp only
  generalize VfsState.fileOpen ops { s with vfs := vfs } d flags = y at hopen ⊢
  obtain ⟨err | f, s₁⟩ := y
  · exact hopen
  · exact hopen

end Calls

end NoobKernel.Fs
