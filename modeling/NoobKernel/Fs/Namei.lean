import NoobKernel.Fs.File

set_option autoImplicit false

/-! # Path lookup (`fs/namei.c`)

`FileSystem` is what the walk calls outside the VFS: the memory of `dentry_alloc` and
`dentry_insert`, the inodes, and the `lookup` operations of the mounted file systems. All of it
reads and writes a state `W` of its own. An `Except.error` is a pointer for which `IS_ERR` holds,
so a negative error code. A path is the list of the characters of a C string.
-/

namespace NoobKernel.Fs

def NAME_MAX : Nat := 255

structure Mount where
  mntMountpoint : Addr
  mntRoot : Addr
  deriving DecidableEq

/-- What a `lookup` operation returns, and the inode that it stores in the dentry it is given. -/
structure Lookup where
  result : Except Int Addr
  inode : Addr

structure FileSystem (W : Type) where
  /-- memory for a dentry, `0` if there is none; `live` are the dentries in use -/
  kmemCacheAlloc : W → (live : Addr → Bool) → Addr × W
  kmalloc : W → Bool × W
  iMode : W → (inode : Addr) → UInt32
  hasLookup : W → (inode : Addr) → Bool
  lookup : W → (live : Addr → Bool) → (dir d : Addr) → Dentry → Lookup × W
  /-- the `d_release` operation and the memory of a dentry, with its reference to an inode -/
  release : W → (d : Addr) → Dentry → W
  kmemCacheAlloc_new : ∀ w live, (kmemCacheAlloc w live).1 = 0
    ∨ live (kmemCacheAlloc w live).1 = false
  /-- a `lookup` operation returns the dentry it is given, or another one that is in use -/
  lookup_live : ∀ w live dir d dentry r, live d = true →
    (lookup w live dir d dentry).1.result = .ok r → live r = true

/-- A call of `dentry_free(d)` with the cache that it finds; `deleting` if it is `dentry_delete`
that calls. -/
structure FreeCall where
  dc : Dcache
  d : Addr
  deleting : Bool

/-- The dentries and the mounts, with the calls of `dentry_free` so far. -/
structure Vfs (W : Type) where
  dc : Dcache
  mounts : List Mount
  rootMount : Option Mount
  world : W
  frees : List FreeCall

variable {W : Type}

/-! ## Dentries -/

def Dcache.setInode (dc : Dcache) (d inode : Addr) : Dcache :=
  { dc with dentry := Function.update dc.dentry d { dc.dentry d with dInode := inode } }

def Vfs.dentryGet (st : Vfs W) (d : Addr) : Vfs W := { st with dc := Fs.dentryGet st.dc d }

def Vfs.dentryPut (st : Vfs W) (d : Addr) : Vfs W := { st with dc := Fs.dentryPut st.dc d }

/-- When there is no memory for the name, that of the dentry goes back. -/
def Vfs.dentryAlloc (fs : FileSystem W) (st : Vfs W) (parent sb : Addr) (name : List UInt8) :
    Except Int Addr × Vfs W :=
  let (memory, world) := fs.kmemCacheAlloc st.world st.dc.live
  let (nameMemory, world) := if memory = 0 then (false, world) else fs.kmalloc world
  let (ret, dc) := Fs.dentryAlloc st.dc memory nameMemory parent sb name
  (ret, { st with dc := dc, world := world })

def Vfs.dentryFree (fs : FileSystem W) (st : Vfs W) (deleting : Bool) (d : Addr) : Vfs W :=
  if d = 0 then st
  else
    { st with
      dc := Fs.dentryFree st.dc d
      world := fs.release st.world d (st.dc.dentry d)
      frees := st.frees ++ [⟨st.dc, d, deleting⟩] }

/-- The memory of a hash node is asked for when the dentry is inserted. -/
def Vfs.dentryInsert (fs : FileSystem W) (st : Vfs W) (d : Addr) : Int × Vfs W :=
  let (memory, world) := fs.kmalloc st.world
  let (ret, dc) := Fs.dentryInsert st.dc d memory
  (ret, { st with dc := dc, world := if ret = 0 then world else st.world })

/-! ## Mounts -/

def vfsGetRoot (st : Vfs W) : Addr :=
  match st.rootMount with
  | some mnt => mnt.mntRoot
  | none => 0

/-- Mount points are compared by parent and name. -/
def vfsLookupMount (st : Vfs W) (mountpoint : Addr) : Option Mount :=
  if mountpoint = 0 then none
  else
    st.mounts.find? fun mnt =>
      let mp := st.dc.dentry mnt.mntMountpoint
      mnt.mntMountpoint ≠ 0 ∧ mp.dParent = (st.dc.dentry mountpoint).dParent
        ∧ mp.dName.len = (st.dc.dentry mountpoint).dName.len
        ∧ mp.dName.name = (st.dc.dentry mountpoint).dName.name

def followMount (st : Vfs W) (dentry : Addr) : Addr × Vfs W :=
  match vfsLookupMount st dentry with
  | some mnt => (mnt.mntRoot, (st.dentryPut dentry).dentryGet mnt.mntRoot)
  | none => (dentry, st)

/-! ## Names -/

def vfsGetName (path : List UInt8) : List UInt8 := (path.takeWhile (· ≠ 47)).take NAME_MAX

def vfsSkipSlashes (path : List UInt8) : List UInt8 := path.dropWhile (· = 47)

/-! ## One component -/

/-- The directory to look in. -/
def lookupBase (st : Vfs W) (base : Addr) : Addr :=
  match vfsLookupMount st base with
  | some mnt => if mnt.mntRoot ≠ 0 then mnt.mntRoot else base
  | none => base

/-- The cache does not have it, and the file system is asked for it. -/
def vfsLookupNew (fs : FileSystem W) (st : Vfs W) (base : Addr) (name : List UInt8) :
    Except Int Addr × Vfs W :=
  match st.dentryAlloc fs base (st.dc.dentry base).dSb name with
  | (.error e, st) => (.error e, st)
  | (.ok d, st) =>
      let dir := (st.dc.dentry base).dInode
      let found := fs.lookup st.world st.dc.live dir d (st.dc.dentry d)
      let st := { st with dc := st.dc.setInode d found.1.inode, world := found.2 }
      match found.1.result with
      | .error e => (.error e, st.dentryFree fs false d)
      | .ok result =>
          let st := if result ≠ d then st.dentryFree fs false d else st
          (.ok result, (st.dentryInsert fs result).2)

def isDirectory (fs : FileSystem W) (st : Vfs W) (d : Addr) : Bool :=
  (st.dc.dentry d).dInode ≠ 0 && sIsDir (fs.iMode st.world (st.dc.dentry d).dInode)

def vfsLookupSingle (fs : FileSystem W) (st : Vfs W) (base : Addr) (name : List UInt8)
    (len : UInt32) : Except Int Addr × Vfs W :=
  if base = 0 ∨ len = 0 then (.error (-EINVAL), st)
  else
    let base := lookupBase st base
    if isDirectory fs st base = false then (.error (-ENOTDIR), st)
    else if fs.hasLookup st.world (st.dc.dentry base).dInode = false then (.error (-ENOSYS), st)
    else
      let qstr := ⟨name, len, hashString name len⟩
      let dentry := dentryLookup st.dc (st.dc.dentry base).dSb base qstr
      if dentry ≠ 0 then (.ok dentry, st) else vfsLookupNew fs st base name

/-! ## The walk -/

inductive LastType
  | norm
  | root
  | dot
  | dotdot
  deriving DecidableEq

structure Nameidata where
  dentry : Addr
  inode : Addr
  flags : UInt32
  lastType : LastType
  last : Option Qstr
  depth : UInt32

/-- Where a component of the path leads. -/
def vfsWalkComponent (fs : FileSystem W) (st : Vfs W) (dentry : Addr) (name : List UInt8) :
    Except Int (Addr × LastType) × Vfs W :=
  if name = [46] then (.ok (dentry, .dot), st)
  else if name = [46, 46] then
    let parent := (st.dc.dentry dentry).dParent
    (.ok (if parent ≠ 0 ∧ parent ≠ dentry then parent else dentry, .dotdot), st)
  else
    match vfsLookupSingle fs st dentry name (UInt32.ofNat name.length) with
    | (.error e, st) => (.error e, st)
    | (.ok next, st) =>
        let followed := followMount st next
        (.ok (followed.1, .norm), followed.2.dentryPut dentry)

/-- The loop, on a path that does not start with a slash. A component is not empty, so that the
length of the path is fuel enough. -/
def vfsPathWalkLoop (fs : FileSystem W) : Nat → Vfs W → Nameidata → Addr → List UInt8 →
    Except Int Nameidata × Vfs W
  | 0, st, nd, _, _ => (.ok nd, st)
  | fuel + 1, st, nd, dentry, path =>
      let name := vfsGetName path
      match vfsWalkComponent fs st dentry name with
      | (.error e, st) => (.error e, st)
      | (.ok (dentry, lastType), st) =>
          let path := vfsSkipSlashes (path.drop name.length)
          if path = [] then
            (.ok { nd with
              dentry := dentry, inode := (st.dc.dentry dentry).dInode, lastType := lastType,
              last := some (qstrInit name) }, st)
          else if isDirectory fs st dentry = false then
            (.error (-ENOTDIR), st.dentryPut dentry)
          else vfsPathWalkLoop fs fuel st { nd with lastType := lastType } dentry path

def vfsPathWalk (fs : FileSystem W) (st : Vfs W) (nd : Nameidata) (path : List UInt8) :
    Except Int Nameidata × Vfs W :=
  if nd.dentry = 0 then (.error (-ENOENT), st)
  else
    let path := vfsSkipSlashes path
    if path = [] then (.ok { nd with inode := (st.dc.dentry nd.dentry).dInode }, st)
    else vfsPathWalkLoop fs path.length st nd nd.dentry path

/-- A `base` of `NULL` is the root. -/
def startOf (st : Vfs W) (base : Addr) : Addr := if base = 0 then vfsGetRoot st else base

def vfsPathLookup (fs : FileSystem W) (st : Vfs W) (base : Addr) (path : List UInt8)
    (flags : UInt32) : Except Int Addr × Vfs W :=
  let base := startOf st base
  if base = 0 then (.error (-ENOENT), st)
  else
    let st := st.dentryGet base
    let nd := ⟨base, (st.dc.dentry base).dInode, flags, .norm, none, 0⟩
    match vfsPathWalk fs st nd path with
    | (.error e, st) => (.error e, st.dentryPut base)
    | (.ok nd, st) => (.ok nd.dentry, st)

/-! ## The directory of the last component -/

structure Path where
  dentry : Addr
  inode : Addr

/-- The dentry that all but the last component lead to, and the rest of the path from the last
component on. -/
def vfsPathParentLoop (fs : FileSystem W) (base : Addr) : Nat → Vfs W → Addr →
    Option (List UInt8) → List UInt8 → Except Int (Addr × Option (List UInt8)) × Vfs W
  | 0, st, current, lastStart, _ => (.ok (current, lastStart), st)
  | fuel + 1, st, current, lastStart, p =>
      if p = [] then (.ok (current, lastStart), st)
      else
        let name := vfsGetName p
        let rest := vfsSkipSlashes (p.drop name.length)
        if rest = [] then vfsPathParentLoop fs base fuel st current (some p) rest
        else
          match vfsLookupSingle fs st current name (UInt32.ofNat name.length) with
          | (.error e, st) => (.error e, st.dentryPut base)
          | (.ok next, st) =>
              let followed := followMount st next
              let st := if current ≠ base then followed.2.dentryPut current else followed.2
              vfsPathParentLoop fs base fuel st followed.1 (some p) rest

def vfsPathParent (fs : FileSystem W) (st : Vfs W) (base : Addr) (path : List UInt8) :
    Except Int (Path × Qstr) × Vfs W :=
  let base := startOf st base
  if base = 0 then (.error (-ENOENT), st)
  else
    let st := st.dentryGet base
    let p := vfsSkipSlashes path
    match vfsPathParentLoop fs base p.length st base none p with
    | (.error e, st) => (.error e, st)
    | (.ok (current, lastStart), st) =>
        let name := match lastStart with
          | some start => vfsGetName start
          | none => []
        let (memory, world) := fs.kmalloc st.world
        let st := { st with world := world }
        if memory = false then (.error (-ENOMEM), st.dentryPut base)
        else (.ok (⟨current, (st.dc.dentry current).dInode⟩, qstrInit name), st)

end NoobKernel.Fs
