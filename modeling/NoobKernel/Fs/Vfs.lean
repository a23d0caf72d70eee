import NoobKernel.Fs.Namei

set_option autoImplicit false

/-! # Files, removals and renames (`fs/vfs.c`)

`VfsOps` adds to the file systems the operations that change a directory, those of the files and
the memory for them. An operation on a dentry says what it returns and which inode it leaves in
the dentry.
-/

namespace NoobKernel.Fs

def LOOKUP_FOLLOW : UInt32 := 1
def O_CREAT : UInt32 := 64

structure Done where
  ret : Int
  inode : Addr

structure VfsOps (W : Type) extends FileSystem W where
  hasCreate : W → (dir : Addr) → Bool
  hasUnlink : W → (dir : Addr) → Bool
  hasRmdir : W → (dir : Addr) → Bool
  hasRename : W → (dir : Addr) → Bool
  create : W → (dir d : Addr) → Dentry → (mode : UInt32) → Done × W
  unlink : W → (dir d : Addr) → Dentry → Done × W
  rmdir : W → (dir d : Addr) → Dentry → Done × W
  /-- with the inodes left in the old and in the new dentry -/
  rename : W → (oldDir oldD : Addr) → Dentry → (newDir newD : Addr) → Dentry → Done × Addr × W
  /-- what the `d_delete` operation returns, if the dentry has one -/
  dDelete : W → (d : Addr) → Dentry → Option Int × W
  /-- memory for a file, `0` if there is none -/
  fileCacheAlloc : W → (live : Addr → Bool) → Addr × W
  iFop : W → (inode : Addr) → Option FileOperations
  openFile : W → (inode f : Addr) → Int × W
  releaseFile : W → (f : Addr) → W
  fileCacheAlloc_new : ∀ w live, (fileCacheAlloc w live).1 = 0
    ∨ live (fileCacheAlloc w live).1 = false

/-- `held` are the references that callers have taken with `dentry_get`. -/
structure VfsState (W : Type) where
  vfs : Vfs W
  files : Files
  held : List Addr

variable {W : Type} (ops : VfsOps W)

def Vfs.dentryDelete (st : Vfs W) (d : Addr) : Vfs W :=
  if d = 0 then st
  else
    let asked := ops.dDelete st.world d (st.dc.dentry d)
    let st := { st with world := asked.2 }
    if asked.1.any (· ≠ 0) then st else st.dentryFree ops.toFileSystem true d

/-! ## Files -/

/-- The new dentry of a file that `O_CREAT` makes. -/
def vfsOpenCreate (st : Vfs W) (path : List UInt8) : Except Int Addr × Vfs W :=
  match vfsPathParent ops.toFileSystem st 0 path with
  | (.error e, st) => (.error e, st)
  | (.ok (parent, last), st) =>
      let dir := (st.dc.dentry parent.dentry).dInode
      if parent.dentry = 0 then (.error (-ENOENT), st)
      else if dir = 0 then (.error (-ENOENT), st.dentryPut parent.dentry)
      else if sIsDir (ops.iMode st.world dir) = false then
        (.error (-ENOTDIR), st.dentryPut parent.dentry)
      else if ops.hasCreate st.world dir = false then
        (.error (-ENOSYS), st.dentryPut parent.dentry)
      else
        match st.dentryAlloc ops.toFileSystem parent.dentry (st.dc.dentry parent.dentry).dSb
          last.name with
        | (.error e, st) => (.error e, st.dentryPut parent.dentry)
        | (.ok d, st) =>
            let mode := S_IFREG ||| 0o644
            let done := ops.create st.world dir d (st.dc.dentry d) mode
            let st := { st with dc := st.dc.setInode d done.1.inode, world := done.2 }
            if done.1.ret < 0 then
              (.error done.1.ret,
                (st.dentryFree ops.toFileSystem false d).dentryPut parent.dentry)
            else (.ok d, (st.dentryInsert ops.toFileSystem d).2.dentryPut parent.dentry)

/-- The dentry to open. -/
def vfsOpenDentry (st : Vfs W) (path : List UInt8) (flags : UInt32) :
    Except Int Addr × Vfs W :=
  match vfsPathLookup ops.toFileSystem st 0 path LOOKUP_FOLLOW with
  | (.ok d, st) => (.ok d, st)
  | (.error e, st) =>
      if flags &&& O_CREAT ≠ 0 ∧ e = -ENOENT then vfsOpenCreate ops st path else (.error e, st)

/-- `file_open` with what it reads of the inode and what the `open` operation returns. -/
def VfsState.fileOpen (s : VfsState W) (d : Addr) (flags : UInt32) :
    Except Int Addr × VfsState W :=
  let inode := (s.vfs.dc.dentry d).dInode
  let mem := if d = 0 ∨ inode = 0 then (0, s.vfs.world)
    else ops.fileCacheAlloc s.vfs.world s.files.live
  let fop := ops.iFop mem.2 inode
  let opened := if mem.1 ≠ 0 ∧ fop.any (·.hasOpen) = true then ops.openFile mem.2 inode mem.1
    else (0, mem.2)
  let r := Fs.fileOpen s.files s.vfs.dc mem.1 (ops.iMode mem.2 inode) fop opened.1 d flags
  (r.1, { s with files := r.2.1, vfs := { s.vfs with dc := r.2.2, world := opened.2 } })

def vfsOpen (s : VfsState W) (path : List UInt8) (flags : UInt32) :
    Except Int Addr × VfsState W :=
  match vfsOpenDentry ops s.vfs path flags with
  | (.error e, vfs) => (.error e, { s with vfs := vfs })
  | (.ok d, vfs) =>
      match { s with vfs := vfs : VfsState W }.fileOpen ops d flags with
      | (.error e, s) => (.error e, { s with vfs := s.vfs.dentryPut d })
      | (.ok f, s) => (.ok f, s)

/-- `file_close`: the last reference calls the `release` operation. -/
def vfsClose (s : VfsState W) (f : Addr) : Int × VfsState W :=
  let last := f ≠ 0 ∧ (s.files.file f).fRefcnt = 1
    ∧ (s.files.file f).fOp.any (·.hasRelease) = true
  let r := fileClose s.files s.vfs.dc f
  (r.1, { s with
    files := r.2.1
    vfs := { s.vfs with
      dc := r.2.2
      world := if last then ops.releaseFile s.vfs.world f else s.vfs.world } })

/-! ## Removals -/

/-- What `vfs_unlink` and `vfs_rmdir` do after their checks of the inode. -/
def vfsRemove (hasOp : W → Addr → Bool) (op : W → Addr → Addr → Dentry → Done × W) (st : Vfs W)
    (d : Addr) : Int × Vfs W :=
  let parent := (st.dc.dentry d).dParent
  let dir := (st.dc.dentry parent).dInode
  if parent = 0 ∨ dir = 0 then (-ENOENT, st.dentryPut d)
  else if hasOp st.world dir = false then (-ENOSYS, st.dentryPut d)
  else
    let done := op st.world dir d (st.dc.dentry d)
    let st := { st with dc := st.dc.setInode d done.1.inode, world := done.2 }
    if done.1.ret < 0 then (done.1.ret, st.dentryPut d) else (0, st.dentryDelete ops d)

def vfsUnlink (st : Vfs W) (path : List UInt8) : Int × Vfs W :=
  match vfsPathLookup ops.toFileSystem st 0 path LOOKUP_FOLLOW with
  | (.error e, st) => (e, st)
  | (.ok d, st) =>
      if (st.dc.dentry d).dInode = 0 then (-ENOENT, st.dentryPut d)
      else if sIsDir (ops.iMode st.world (st.dc.dentry d).dInode) = true then
        (-EISDIR, st.dentryPut d)
      else vfsRemove ops ops.hasUnlink ops.unlink st d

def vfsRmdir (st : Vfs W) (path : List UInt8) : Int × Vfs W :=
  match vfsPathLookup ops.toFileSystem st 0 path LOOKUP_FOLLOW with
  | (.error e, st) => (e, st)
  | (.ok d, st) =>
      if isDirectory ops.toFileSystem st d = false then (-ENOTDIR, st.dentryPut d)
      else vfsRemove ops ops.hasRmdir ops.rmdir st d

/-! ## Renames -/

/-- The new dentry is there. -/
def vfsRenameTo (st : Vfs W) (oldD newDir newD : Addr) : Int × Vfs W :=
  let oldParent := (st.dc.dentry oldD).dParent
  let oldDir := (st.dc.dentry oldParent).dInode
  if oldParent = 0 ∨ oldDir = 0 then
    (-ENOENT, (st.dentryFree ops.toFileSystem false newD).dentryPut oldD)
  else if ops.hasRename st.world oldDir = false then
    (-ENOSYS, (st.dentryFree ops.toFileSystem false newD).dentryPut oldD)
  else
    let done := ops.rename st.world oldDir oldD (st.dc.dentry oldD) newDir newD
      (st.dc.dentry newD)
    let st := { st with
      dc := (st.dc.setInode oldD done.1.inode).setInode newD done.2.1
      world := done.2.2 }
    if done.1.ret < 0 then
      (done.1.ret, (st.dentryFree ops.toFileSystem false newD).dentryPut oldD)
    else
      (0, ((st.dentryInsert ops.toFileSystem newD).2.dentryDelete ops oldD).dentryPut newD)

def vfsRename (st : Vfs W) (oldPath newPath : List UInt8) : Int × Vfs W :=
  match vfsPathLookup ops.toFileSystem st 0 oldPath LOOKUP_FOLLOW with
  | (.error e, st) => (e, st)
  | (.ok oldD, st) =>
      match vfsPathParent ops.toFileSystem st 0 newPath with
      | (.error e, st) => (e, st.dentryPut oldD)
      | (.ok (newParent, newLast), st) =>
          if isDirectory ops.toFileSystem st newParent.dentry = false then
            (-ENOTDIR, (st.dentryPut oldD).dentryPut newParent.dentry)
          else
            match st.dentryAlloc ops.toFileSystem newParent.dentry
              (st.dc.dentry newParent.dentry).dSb newLast.name with
            | (.error e, st) => (e, (st.dentryPut oldD).dentryPut newParent.dentry)
            | (.ok newD, st) =>
                let newDir := (st.dc.dentry newParent.dentry).dInode
                let r := vfsRenameTo ops st oldD newDir newD
                (r.1, r.2.dentryPut newParent.dentry)

end NoobKernel.Fs
