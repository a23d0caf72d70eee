import NoobKernel.Fs.Dentry

set_option autoImplicit false

/-! # Open files (`fs/file.c`, `fs/fd_table.c`)

The memory of `file_cache` is a map from addresses to files, of which the `live` ones are
allocated; `file_list` is the link field `f_list` of all files, its head being the node `0`. The
`log` collects what happens to the reference counts of the files, the calls of their `release`
operations, the references to dentries they give up, and the files freed, in order.
-/

namespace NoobKernel.Fs

def S_IFMT : UInt32 := 0xf000
def S_IFREG : UInt32 := 0x8000
def S_IFDIR : UInt32 := 0x4000

def sIsDir (mode : UInt32) : Bool := mode &&& S_IFMT == S_IFDIR
def sIsReg (mode : UInt32) : Bool := mode &&& S_IFMT == S_IFREG

/-- Which operations are there. -/
structure FileOperations where
  hasOpen : Bool
  hasRelease : Bool
  deriving DecidableEq

structure File where
  fDentry : Addr
  fInode : Addr
  fOp : Option FileOperations
  fPos : Int64
  fFlags : UInt32
  fMode : UInt32
  fRefcnt : UInt32
  deriving DecidableEq

inductive FileEvent
  /-- `f_refcnt` goes down by one, from `refcnt` -/
  | drop (f : Addr) (refcnt : UInt32)
  | release (f : Addr)
  | dentryPut (f d : Addr)
  | free (f : Addr)
  deriving DecidableEq

/-- `file_state` and the memory of the files. -/
structure Files where
  file : Addr → File
  live : Addr → Bool
  list : Links Addr
  count : UInt32
  log : List FileEvent

/-- No files, over any memory. -/
def fileInit (file : Addr → File) (list : Links Addr) : Files where
  file := file
  live := fun _ => false
  list := list.init 0
  count := 0
  log := []

def Files.record (files : Files) (event : FileEvent) : Files :=
  { files with log := files.log ++ [event] }

/-- `memory` is the address the slab allocator returns, `0` if there is none. -/
def fileAlloc (files : Files) (memory : Addr) : Except Int Addr × Files :=
  if memory = 0 then (.error (-ENOMEM), files)
  else
    (.ok memory, { files with
      file := Function.update files.file memory ⟨0, 0, none, 0, 0, 0, 1⟩
      live := Function.update files.live memory true
      list := (files.list.init memory).add memory 0
      count := files.count + 1 })

def fileFree (files : Files) (f : Addr) : Files :=
  if f = 0 then files
  else
    { files with
      list := files.list.del f
      count := files.count - 1
      live := Function.update files.live f false
      log := files.log ++ [.free f] }

/-- `iMode` and `iFop` are fields of the inode, and `ret` is what the `open` operation returns. -/
def fileOpen (files : Files) (dc : Dcache) (memory : Addr) (iMode : UInt32)
    (iFop : Option FileOperations) (ret : Int) (dentry : Addr) (flags : UInt32) :
    Except Int Addr × Files × Dcache :=
  let inode := (dc.dentry dentry).dInode
  if dentry = 0 ∨ inode = 0 then (.error (-ENOENT), files, dc)
  else
    match fileAlloc files memory with
    | (.error e, files) => (.error e, files, dc)
    | (.ok f, files) =>
        let mode := if sIsDir iMode then S_IFDIR else if sIsReg iMode then S_IFREG else 0
        let file := { files.file f with
          fDentry := dentry, fInode := inode, fFlags := flags, fOp := iFop, fMode := mode }
        let files := { files with file := Function.update files.file f file }
        let dc := dentryGet dc dentry
        if iFop.any (·.hasOpen) ∧ ret < 0 then
          (.error ret, fileFree files f, dentryPut dc dentry)
        else (.ok f, files, dc)

/-- The file with another reference count. -/
def Files.setRefcnt (files : Files) (f : Addr) (refcnt : UInt32) : Files :=
  { files with file := Function.update files.file f { files.file f with fRefcnt := refcnt } }

/-- `f_refcnt--` -/
def Files.drop (files : Files) (f : Addr) : Files :=
  let refcnt := (files.file f).fRefcnt
  (files.setRefcnt f (refcnt - 1)).record (.drop f refcnt)

def fileClose (files : Files) (dc : Dcache) (f : Addr) : Int × Files × Dcache :=
  if f = 0 then (-EINVAL, files, dc)
  else
    let files := files.drop f
    let file := files.file f
    if file.fRefcnt = 0 then
      let files := if file.fOp.any (·.hasRelease) then files.record (.release f) else files
      if file.fDentry ≠ 0 then
        let files := files.record (.dentryPut f file.fDentry)
        (0, fileFree files f, dentryPut dc file.fDentry)
      else (0, fileFree files f, dc)
    else (0, files, dc)

def fileGet (files : Files) (f : Addr) : Files :=
  if f = 0 then files else files.setRefcnt f ((files.file f).fRefcnt + 1)

/-- The count that `file_close` takes down is the one that has just become zero. -/
def filePut (files : Files) (dc : Dcache) (f : Addr) : Files × Dcache :=
  if f = 0 then (files, dc)
  else
    let files := files.drop f
    if (files.file f).fRefcnt = 0 then (fileClose files dc f).2 else (files, dc)

/-! ## Descriptor tables -/

/-- `fds` has `max_fds` entries; `0` is a free one. -/
structure FdTable where
  fds : Nat → Addr
  maxFds : UInt32
  openFds : UInt32

def NR_OPEN_DEFAULT : UInt32 := 32

/-- The table of a successful `fd_table_alloc`. -/
def fdTableAlloc : FdTable := ⟨fun _ => 0, NR_OPEN_DEFAULT, 0⟩

/-- What the loop does with one entry. -/
def fdTableFreeEntry (fdt : FdTable) (s : Files × Dcache) (i : Nat) : Files × Dcache :=
  if fdt.fds i ≠ 0 then filePut s.1 s.2 (fdt.fds i) else s

/-- The table itself is gone. -/
def fdTableFree (fdt : FdTable) (files : Files) (dc : Dcache) : Files × Dcache :=
  (List.range fdt.maxFds.toNat).foldl (fdTableFreeEntry fdt) (files, dc)

def fdFree (fdt : FdTable) (files : Files) (dc : Dcache) (fd : Int) : FdTable × Files × Dcache :=
  if fd < 0 ∨ fdt.maxFds.toNat ≤ fd.toNat then (fdt, files, dc)
  else
    let f := fdt.fds fd.toNat
    if f ≠ 0 then
      let (files, dc) := filePut files dc f
      ({ fdt with
        fds := Function.update fdt.fds fd.toNat 0
        openFds := fdt.openFds - 1 }, files, dc)
    else (fdt, files, dc)

end NoobKernel.Fs
