import NoobKernel.Fs.File
import NoobKernel.Fs.Inode
import NoobKernel.Mm.KallocLocks

set_option autoImplicit false

/-! # The object caches of the file system with their locks (`fs/inode.c`, `fs/dentry.c`,
`fs/file.c`, `fs/fd_table.c`)

The functions of the caches as programs over the state of the memory manager, whose environment
holds the data of `Inode.lean`, `Dentry.lean` and `File.lean`, the locks and the addresses of what
the caches allocate. A file system is a table of callbacks; a callback may change any data, but it
takes none of the locks and does not allocate. The children lists of dentries are left out.

`spinlock_acquire` on the only hart panics if the lock is held already, and so does
`spinlock_release` if it is not.
-/

namespace NoobKernel.Fs.Locked

open Misc Exec Mm

/-- The locks of the file system, and the one of `printf`. -/
inductive FsLock : Type
  | printf
  | inodeState
  | inode (a : Addr)
  | dentryState
  | dentry (d : Addr)
  | fileState
  | file (f : Addr)
  | fdTable (t : Addr)
  deriving DecidableEq

/-- The two hash tables. -/
inductive Table : Type
  | inodes
  | dentries
  deriving DecidableEq

/-- `node` is the address of the hash node of a key, `nameAddr` the one of the name of a dentry,
`fds` the one of the array of a descriptor table, and `priv` is what the file systems keep. -/
structure FsState (D : Type) where
  locked : FsLock → Bool
  ic : Icache
  dc : Dcache
  files : Files
  fdt : Addr → FdTable
  node : Table → Addr → Addr
  nameAddr : Addr → Addr
  fds : Addr → Addr
  priv : D

/-- A function of the file system. -/
abbrev FsM (D R α : Type) := Mem (FsState D) R α

variable {D R α : Type}

def fsLocks (D : Type) : Locking (FsState D) FsLock Unit where
  held s l := s.locked l
  set s l b := { s with locked := Function.update s.locked l b }
  frame _ := ()
  held_set_self s _ b := Function.update_self _ b s.locked
  held_set_of_ne s _ b _ h := Function.update_of_ne h b s.locked
  frame_set _ _ _ := rfl

/-- The locks of the kernel. -/
abbrev locks (D : Type) : Locking (Kernel (FsState D)) (MemLock FsLock) (Nat → Bool) :=
  memLocks (fsLocks D)

/-- A callback of a file system. -/
structure Callback (D R α : Type) where
  run : FsM D R α
  quiet : (locks D).Takes (lockPolicy R) ∅ (fun _ => True) run

/-- The callbacks, by the super block, the dentry or the file they belong to. The ones of a file
that read or write return the new position besides. -/
structure Operations (D R : Type) where
  allocInode : Addr → Option (Callback D R Addr)
  destroyInode : Addr → Option (Addr → Callback D R Unit)
  dirtyInode : Addr → Option (Addr → Callback D R Unit)
  writeInode : Addr → Option (Addr → Callback D R Int)
  dropInode : Addr → Option (Addr → Callback D R Int)
  dRelease : Addr → Option (Callback D R Unit)
  llseek : Addr → Option (Int64 → Int → Callback D R Int64)
  read : Addr → Option (Addr → UInt64 → Int64 → Callback D R (Int × Int64))
  write : Addr → Option (Addr → UInt64 → Int64 → Callback D R (Int × Int64))
  release : Addr → Option (Callback D R Int)

/-- The operation of a super block, if there is a super block. -/
def superOp {T : Type} (op : Addr → Option T) (sb : Addr) : Option T := if sb = 0 then none else op sb

/-! ## Locks and data -/

def spinlockAcquire (l : FsLock) : FsM D R Unit := do
  let k ← Exec.read
  if k.ext.locked l then fault .lock
  else modify fun k => { k with
    ext := { k.ext with locked := Function.update k.ext.locked l true } }

def spinlockRelease (l : FsLock) : FsM D R Unit := do
  let k ← Exec.read
  if k.ext.locked l then
    modify fun k => { k with ext := { k.ext with locked := Function.update k.ext.locked l false } }
  else fault .lock

/-- A warning is printed under the lock of `printf`. -/
def warnf : FsM D R Unit := do
  spinlockAcquire .printf
  spinlockRelease .printf

def modifyInodes (f : Icache → Icache) : FsM D R Unit :=
  modify fun k => { k with ext := { k.ext with ic := f k.ext.ic } }

def modifyDentries (f : Dcache → Dcache) : FsM D R Unit :=
  modify fun k => { k with ext := { k.ext with dc := f k.ext.dc } }

def modifyFiles (f : Files → Files) : FsM D R Unit :=
  modify fun k => { k with ext := { k.ext with files := f k.ext.files } }

def modifyFdTable (t : Addr) (f : FdTable → FdTable) : FsM D R Unit :=
  modify fun k => { k with
    ext := { k.ext with fdt := Function.update k.ext.fdt t (f (k.ext.fdt t)) } }

/-- An initialised lock is not held. -/
def initLock (l : FsLock) : FsM D R Unit :=
  modify fun k => { k with ext := { k.ext with locked := Function.update k.ext.locked l false } }

/-! ## Memory -/

section

variable (lay : Layout)

/-- `kmalloc` and `kfree` nest two levels deep. -/
def memOps : MetaOps (FsState D) R := Mm.memOps lay warnf 2

def kmalloc (size : Nat) : FsM D R Nat := Mm.kmalloc warnf (memOps lay) size

def kfree (addr : Addr) : FsM D R Unit := Mm.kfree warnf (memOps lay) addr.toNat

def kmemCacheAlloc (kmem : Option Nat) : FsM D R Nat := Mm.kmemCacheAlloc warnf (memOps lay) kmem

def kmemCacheFree (addr : Addr) : FsM D R Unit := Mm.kmemCacheFree warnf addr.toNat

end

/-- `inode_cache`, behind the caches of `kmalloc`. -/
def inodeCache : Nat := KALLOC_MEM_POOL_NUM

/-! ## Hash tables -/

namespace FsState

def ht (s : FsState D) : Table → Hashtable
  | .inodes => s.ic.ht
  | .dentries => s.dc.ht

def setHt (s : FsState D) (t : Table) (ht : Hashtable) : FsState D :=
  match t with
  | .inodes => { s with ic := { s.ic with ht := ht } }
  | .dentries => { s with dc := { s.dc with ht := ht } }

def setNode (s : FsState D) (t : Table) (key node : Addr) : FsState D :=
  { s with node := Function.update s.node t (Function.update (s.node t) key node) }

end FsState

def sizeofHashNode : Nat := 32

def modifyTable (t : Table) (f : Hashtable → Hashtable) : FsM D R Unit :=
  modify fun k => { k with ext := k.ext.setHt t (f (k.ext.ht t)) }

section

variable (lay : Layout)

def hashtableInsert (t : Table) (key value : Addr) : FsM D R Int := do
  let k ← Exec.read
  if ((k.ext.ht t).buckets (hashPtr key (k.ext.ht t).size)).any (·.key = key) then do
    modifyTable t fun ht => (NoobKernel.hashtableInsert ht key value true).2
    pure 0
  else do
    let node ← kmalloc lay sizeofHashNode
    if node = 0 then pure (-ENOMEM)
    else do
      modifyTable t fun ht => (NoobKernel.hashtableInsert ht key value true).2
      modify fun k => { k with ext := k.ext.setNode t key (UInt64.ofNat node) }
      pure 0

/-- The node is given back after the count is taken down. -/
def hashtableDelete (t : Table) (key : Addr) : FsM D R Addr := do
  let k ← Exec.read
  match ((k.ext.ht t).buckets (hashPtr key (k.ext.ht t).size)).find? (·.key = key) with
  | none => pure 0
  | some node => do
      modifyTable t fun ht => (NoobKernel.hashtableDelete ht key).2
      kfree lay (k.ext.node t key)
      pure node.value

/-! ## Inodes -/

variable (ops : Operations D R)

/-- The fields are set, the lock among them. -/
def inodeConstruct (sb inode : Addr) : FsM D R Addr := do
  modifyInodes fun ic => ic.construct sb inode
  initLock (.inode inode)
  pure inode

def inodeAlloc (sb : Addr) : FsM D R Addr :=
  match superOp ops.allocInode sb with
  | some callback => do
      let inode ← callback.run
      if isErr inode ∨ inode = 0 then pure inode else inodeConstruct sb inode
  | none => do
      let inode ← kmemCacheAlloc lay (some inodeCache)
      if inode = 0 then pure ptrENOMEM else inodeConstruct sb (UInt64.ofNat inode)

def inodeFree (inode : Addr) : FsM D R Unit := do
  let k ← Exec.read
  if inode = 0 then pure ()
  else
    match superOp ops.destroyInode (k.ext.ic.inode inode).iSb with
    | some callback => (callback inode).run
    | none => do
        spinlockAcquire .inodeState
        let _ ← hashtableDelete lay .inodes (k.ext.ic.inode inode).iIno
        modifyInodes fun ic => { ic with list := ic.list.del inode, count := ic.count - 1 }
        spinlockRelease .inodeState
        modifyInodes fun ic => ic.release inode
        kmemCacheFree inode

/-- The last lines of `inode_get`. -/
def inodeGetNew (inode : Addr) (ino : UInt64) : FsM D R Addr := do
  modifyInodes fun ic => ic.setIno inode ino
  spinlockAcquire .inodeState
  let _ ← hashtableInsert lay .inodes ino inode
  modifyInodes fun ic => { ic with list := ic.list.add inode 0, count := ic.count + 1 }
  spinlockRelease .inodeState
  pure inode

def inodeGet (sb : Addr) (ino : UInt64) : FsM D R Addr := do
  spinlockAcquire .inodeState
  let k ← Exec.read
  let found := inodeGetLookup k.ext.ic ino
  if found.1 ≠ 0 then do
    modifyInodes fun _ => found.2
    spinlockRelease .inodeState
    pure found.1
  else do
    spinlockRelease .inodeState
    let inode ← inodeAlloc lay ops sb
    if isErr inode then pure inode
    else if inode = 0 then fault .nullDeref
    else inodeGetNew lay inode ino

/-- `inode_put` when the last reference is gone. -/
def inodePutLast (inode : Addr) : FsM D R Unit := do
  let k ← Exec.read
  match superOp ops.dropInode (k.ext.ic.inode inode).iSb with
  | some callback => do
      let ret ← (callback inode).run
      if ret ≠ 0 then pure () else inodeFree lay ops inode
  | none => inodeFree lay ops inode

def inodePut (inode : Addr) : FsM D R Unit :=
  if inode = 0 then pure ()
  else do
    spinlockAcquire (.inode inode)
    modifyInodes fun ic => ic.setRefcnt inode ((ic.inode inode).iRefcnt - 1)
    let k ← Exec.read
    if (k.ext.ic.inode inode).iRefcnt = 0 then do
      spinlockRelease (.inode inode)
      inodePutLast lay ops inode
    else spinlockRelease (.inode inode)

end

def I_DIRTY : UInt32 := 3

/-- An assignment to fields of an inode. -/
def modifyInode (inode : Addr) (f : Inode → Inode) : FsM D R Unit :=
  modifyInodes fun ic => ic.setInode inode (f (ic.inode inode))

section

variable (lay : Layout) (ops : Operations D R)

/-- A callback that may be missing. -/
def runOption (callback : Option (Callback D R α)) : FsM D R Unit :=
  match callback with
  | some callback => do
      let _ ← callback.run
      pure ()
  | none => pure ()

def inodeDirty (inode : Addr) : FsM D R Unit :=
  if inode = 0 then pure ()
  else do
    spinlockAcquire (.inode inode)
    modifyInode inode fun i => { i with iState := i.iState ||| I_DIRTY }
    let k ← Exec.read
    runOption ((superOp ops.dirtyInode (k.ext.ic.inode inode).iSb).map fun callback => callback inode)
    spinlockRelease (.inode inode)

def inodeWrite (inode : Addr) : FsM D R Int :=
  if inode = 0 then pure (-EINVAL)
  else do
    spinlockAcquire (.inode inode)
    let k ← Exec.read
    if (k.ext.ic.inode inode).iState &&& I_DIRTY = 0 then do
      spinlockRelease (.inode inode)
      pure 0
    else
      match superOp ops.writeInode (k.ext.ic.inode inode).iSb with
      | none => do
          spinlockRelease (.inode inode)
          pure (-ENOSYS)
      | some callback => do
          let ret ← (callback inode).run
          modifyInode inode fun i =>
            if ret = 0 then { i with iState := i.iState &&& ~~~I_DIRTY } else i
          spinlockRelease (.inode inode)
          pure ret

def inodeTruncate (inode : Addr) : FsM D R Unit :=
  if inode = 0 then pure ()
  else do
    spinlockAcquire (.inode inode)
    modifyInode inode fun i => { i with iSize := 0, iBlocks := 0 }
    inodeDirty ops inode
    spinlockRelease (.inode inode)

/-! ## Directory entries -/

def dentryInsert (dentry : Addr) : FsM D R Int := do
  let k ← Exec.read
  if dentry = 0 then pure (-EINVAL)
  else if (k.ext.dc.dentry dentry).dSb = 0 then pure (-EINVAL)
  else if (k.ext.dc.dentry dentry).dParent = 0 then pure (-EINVAL)
  else do
    spinlockAcquire .dentryState
    let k ← Exec.read
    let key := k.ext.dc.key dentry
    if hashtableLookup k.ext.dc.ht key ≠ 0 then do
      spinlockRelease .dentryState
      pure (-EEXIST)
    else do
      let _ ← hashtableInsert lay .dentries key dentry
      modifyDentries fun dc => { dc with list := dc.list.add dentry 0, count := dc.count + 1 }
      spinlockRelease .dentryState
      pure 0

/-- The section of `dentry_free` that takes the dentry out of the cache. -/
def dentryRemove (dentry : Addr) : FsM D R Unit := do
  spinlockAcquire .dentryState
  let k ← Exec.read
  let _ ← hashtableDelete lay .dentries (k.ext.dc.key dentry)
  modifyDentries fun dc => { dc with
    list := dc.list.del dentry
    lru := dc.lru.del dentry
    count := dc.count - 1 }
  spinlockRelease .dentryState

/-- The section that takes it off the list of its parent. -/
def dentryUnparent (dentry : Addr) : FsM D R Unit := do
  let k ← Exec.read
  let parent := (k.ext.dc.dentry dentry).dParent
  if parent ≠ 0 ∧ parent ≠ dentry then do
    spinlockAcquire (.dentry parent)
    spinlockRelease (.dentry parent)
  else pure ()

def dentryFreeName (dentry : Addr) : FsM D R Unit := do
  let k ← Exec.read
  if k.ext.nameAddr dentry ≠ 0 then kfree lay (k.ext.nameAddr dentry) else pure ()

def dentryFree (dentry : Addr) : FsM D R Unit :=
  if dentry = 0 then pure ()
  else do
    runOption (ops.dRelease dentry)
    dentryRemove lay dentry
    dentryUnparent dentry
    let k ← Exec.read
    -- for a dentry without an inode this does nothing
    inodePut lay ops (k.ext.dc.dentry dentry).dInode
    dentryFreeName lay dentry
    modifyDentries fun dc => { dc with live := Function.update dc.live dentry false }
    kmemCacheFree dentry

def dentryPut (dentry : Addr) : FsM D R Unit :=
  if dentry = 0 then pure ()
  else do
    spinlockAcquire (.dentry dentry)
    modifyDentries fun dc => dc.setRefcnt dentry ((dc.dentry dentry).dRefcnt - 1)
    let k ← Exec.read
    if (k.ext.dc.dentry dentry).dRefcnt = 0 then do
      spinlockRelease (.dentry dentry)
      spinlockAcquire .dentryState
      modifyDentries fun dc => { dc with lru := dc.lru.add dentry 0 }
      spinlockRelease .dentryState
    else spinlockRelease (.dentry dentry)

/-! ## Files -/

def O_ACCMODE : UInt32 := 3
def O_RDONLY : UInt32 := 0
def O_WRONLY : UInt32 := 1
def O_APPEND : UInt32 := 0o2000

def SEEK_SET : Int := 0
def SEEK_CUR : Int := 1
def SEEK_END : Int := 2

def fileFree (file : Addr) : FsM D R Unit :=
  if file = 0 then pure ()
  else do
    spinlockAcquire .fileState
    modifyFiles fun files => { files with list := files.list.del file, count := files.count - 1 }
    spinlockRelease .fileState
    modifyFiles fun files =>
      { files with live := Function.update files.live file false, log := files.log ++ [.free file] }
    kmemCacheFree file

/-- `file_close` when the last reference is gone. -/
def fileCloseLast (file : Addr) : FsM D R Int := do
  runOption (ops.release file)
  let k ← Exec.read
  -- for a file without a dentry this does nothing
  dentryPut (k.ext.files.file file).fDentry
  fileFree file
  pure 0

def fileClose (file : Addr) : FsM D R Int :=
  if file = 0 then pure (-EINVAL)
  else do
    spinlockAcquire (.file file)
    modifyFiles fun files => files.drop file
    let k ← Exec.read
    if (k.ext.files.file file).fRefcnt = 0 then do
      spinlockRelease (.file file)
      fileCloseLast ops file
    else do
      spinlockRelease (.file file)
      pure 0

def filePut (file : Addr) : FsM D R Unit :=
  if file = 0 then pure ()
  else do
    spinlockAcquire (.file file)
    modifyFiles fun files => files.drop file
    let k ← Exec.read
    if (k.ext.files.file file).fRefcnt = 0 then do
      spinlockRelease (.file file)
      let _ ← fileClose ops file
      pure ()
    else spinlockRelease (.file file)

/-- `file->f_pos = pos`. -/
def setPos (file : Addr) (pos : Int64) : FsM D R Unit :=
  modifyFiles fun files =>
    { files with file := Function.update files.file file { files.file file with fPos := pos } }

/-- `i_size` of the inode of a file. -/
def fileSize (s : FsState D) (file : Addr) : UInt64 := (s.ic.inode (s.files.file file).fInode).iSize

/-- The checks that `file_read` and `file_write` begin with, `denied` being the access mode that
does not allow the operation. -/
def fileCheck (s : FsState D) (file buf : Addr) (count : UInt64) (denied : UInt32) : Option Int :=
  if file = 0 ∨ buf = 0 ∨ count = 0 then some (-EINVAL)
  else if (s.files.file file).fInode = 0 then some (-ENOENT)
  else if (s.files.file file).fFlags &&& O_ACCMODE = denied then some (-EACCES)
  else if sIsDir (s.ic.inode (s.files.file file).fInode).iMode then some (-EISDIR)
  else none

def fileRead (file buf : Addr) (count : UInt64) : FsM D R Int := do
  let k ← Exec.read
  match fileCheck k.ext file buf count O_WRONLY, ops.read file with
  | some ret, _ => pure ret
  | none, none => pure (-ENOSYS)
  | none, some callback => do
      spinlockAcquire (.file file)
      let k ← Exec.read
      let pos := (k.ext.files.file file).fPos
      if fileSize k.ext file ≤ pos.toUInt64 then do
        spinlockRelease (.file file)
        pure 0
      else do
        let rest := fileSize k.ext file - pos.toUInt64
        let count := if fileSize k.ext file < pos.toUInt64 + count then rest else count
        let ret ← (callback buf count pos).run
        let k ← Exec.read
        setPos file (if 0 < ret.1 then ret.2 else (k.ext.files.file file).fPos)
        spinlockRelease (.file file)
        pure ret.1

/-- What `file_write` does with the position the callback has left. -/
def fileWritten (file : Addr) (pos : Int64) : FsM D R Unit := do
  setPos file pos
  let k ← Exec.read
  if fileSize k.ext file < pos.toUInt64 then
    modifyInode (k.ext.files.file file).fInode fun i => { i with iSize := pos.toUInt64 }
  else pure ()

def fileWrite (file buf : Addr) (count : UInt64) : FsM D R Int := do
  let k ← Exec.read
  match fileCheck k.ext file buf count O_RDONLY, ops.write file with
  | some ret, _ => pure ret
  | none, none => pure (-ENOSYS)
  | none, some callback => do
      spinlockAcquire (.file file)
      let k ← Exec.read
      let append := (k.ext.files.file file).fFlags &&& O_APPEND ≠ 0
      let pos := if append then (fileSize k.ext file).toInt64 else (k.ext.files.file file).fPos
      let ret ← (callback buf count pos).run
      if 0 < ret.1 then do
        fileWritten file ret.2
        spinlockRelease (.file file)
        pure ret.1
      else do
        spinlockRelease (.file file)
        pure ret.1

/-- The position that `file_lseek` computes; there is none for another `whence`. -/
def seekPos (s : FsState D) (file : Addr) (offset : Int64) (whence : Int) : Option Int64 :=
  if whence = SEEK_SET then some offset
  else if whence = SEEK_CUR then some ((s.files.file file).fPos + offset)
  else if whence = SEEK_END then some (fileSize s file + offset.toUInt64).toInt64
  else none

def fileLseek (file : Addr) (offset : Int64) (whence : Int) : FsM D R Int := do
  let k ← Exec.read
  if file = 0 then pure (-EINVAL)
  else if (k.ext.files.file file).fInode = 0 then pure (-ENOENT)
  else if sIsDir (k.ext.ic.inode (k.ext.files.file file).fInode).iMode then pure (-EISDIR)
  else do
    spinlockAcquire (.file file)
    let k ← Exec.read
    match seekPos k.ext file offset whence with
    | none => do
        spinlockRelease (.file file)
        pure (-EINVAL)
    | some pos =>
        if pos < 0 then do
          spinlockRelease (.file file)
          pure (-EINVAL)
        else
          -- the callback sets the position anew, from the same arguments
          match ops.llseek file with
          | none => do
              setPos file pos
              spinlockRelease (.file file)
              pure pos.toInt
          | some callback => do
              let pos ← (callback offset whence).run
              if pos < 0 then do
                spinlockRelease (.file file)
                pure pos.toInt
              else do
                setPos file pos
                spinlockRelease (.file file)
                pure pos.toInt

/-! ## Descriptor tables -/

def NR_OPEN_MAX : UInt32 := 1024

def sizeofPointer : Nat := 8

/-- The first free entry. -/
def freeFd (fdt : FdTable) : Option Nat :=
  (List.range fdt.maxFds.toNat).find? fun i => fdt.fds i = 0

/-- The table of `max` entries that a full one is copied to; its first new entry is taken. -/
def growFdTable (fdt : FdTable) (max : UInt32) : FdTable where
  fds i := if i < fdt.maxFds.toNat then fdt.fds i else 0
  maxFds := max
  openFds := fdt.openFds + 1

/-- A larger table, if the table may grow and there is memory for it. -/
def fdGrow (t : Addr) : FsM D R Int := do
  let k ← Exec.read
  let max := (k.ext.fdt t).maxFds
  if max < NR_OPEN_MAX then do
    let newMax := if NR_OPEN_MAX < max * 2 then NR_OPEN_MAX else max * 2
    let newFds ← kmalloc lay (sizeofPointer * newMax.toNat)
    if newFds = 0 then pure (-EMFILE)
    else do
      kfree lay (k.ext.fds t)
      modifyFdTable t fun fdt => growFdTable fdt newMax
      modify fun k => { k with
        ext := { k.ext with fds := Function.update k.ext.fds t (UInt64.ofNat newFds) } }
      pure (newMax.toNat / 2)
  else pure (-EMFILE)

def fdAlloc (t : Addr) : FsM D R Int :=
  if t = 0 then pure (-EINVAL)
  else do
    spinlockAcquire (.fdTable t)
    let k ← Exec.read
    match freeFd (k.ext.fdt t) with
    | some fd => do
        modifyFdTable t fun fdt => { fdt with openFds := fdt.openFds + 1 }
        spinlockRelease (.fdTable t)
        pure fd
    | none => do
        let fd ← fdGrow lay t
        spinlockRelease (.fdTable t)
        pure fd

def fdFree (t : Addr) (fd : Int) : FsM D R Unit := do
  let k ← Exec.read
  if t = 0 ∨ fd < 0 ∨ (k.ext.fdt t).maxFds.toNat ≤ fd.toNat then pure ()
  else do
    spinlockAcquire (.fdTable t)
    let k ← Exec.read
    let file := (k.ext.fdt t).fds fd.toNat
    if file = 0 then spinlockRelease (.fdTable t)
    else do
      filePut ops file
      modifyFdTable t fun fdt =>
        { fdt with fds := Function.update fdt.fds fd.toNat 0, openFds := fdt.openFds - 1 }
      spinlockRelease (.fdTable t)

def fdInstall (t : Addr) (fd : Int) (file : Addr) : FsM D R Int := do
  let k ← Exec.read
  if t = 0 ∨ file = 0 ∨ fd < 0 ∨ (k.ext.fdt t).maxFds.toNat ≤ fd.toNat then pure (-EINVAL)
  else do
    spinlockAcquire (.fdTable t)
    let k ← Exec.read
    if (k.ext.fdt t).fds fd.toNat ≠ 0 then do
      spinlockRelease (.fdTable t)
      pure (-EBADF)
    else do
      modifyFdTable t fun fdt =>
        { fdt with fds := Function.update fdt.fds fd.toNat file, openFds := fdt.openFds + 1 }
      spinlockRelease (.fdTable t)
      pure 0

end

end NoobKernel.Fs.Locked
