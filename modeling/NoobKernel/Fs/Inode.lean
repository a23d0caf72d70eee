import NoobKernel.Lib.Links
import NoobKernel.Misc.Hashtable

set_option autoImplicit false

/-! # Inodes (`fs/inode.c`)

The memory of inodes is a map from addresses, of which the `live` ones are allocated, be it from
`inode_cache` or by a file system. `inode_list` is the link field `i_list` of all inodes, its head
being the node `0`. A super block is an address, and its operations are looked up in `ops`. What
`alloc_inode` or the slab allocator returns is an argument, as are the answer of `drop_inode` and
whether there is memory for a node of the hash table.

`inode_get`, `inode_put` and `inode_free` are made of sections that hold a lock, which are
functions of their own here.
-/

namespace NoobKernel.Fs

def I_NEW : UInt32 := 1

def MAX_ERRNO : UInt64 := 4095

/-- `IS_ERR`. -/
def isErr (ptr : Addr) : Bool := -MAX_ERRNO ≤ ptr

/-- `PTR(-ENOMEM)`. -/
def ptrENOMEM : Addr := -12

structure Inode where
  iIno : UInt64
  iMode : UInt32
  iUid : UInt32
  iGid : UInt32
  iSize : UInt64
  iBlocks : UInt64
  iAtime : UInt64
  iMtime : UInt64
  iCtime : UInt64
  iNlink : UInt32
  iRdev : UInt32
  iSb : Addr
  iOp : Addr
  iFop : Addr
  iMapping : Addr
  iRefcnt : UInt32
  iState : UInt32
  deriving DecidableEq

/-- The operations that a super block has. -/
structure SuperOperations where
  allocInode : Bool
  destroyInode : Bool
  dropInode : Bool

/-- `inode_state` and the memory of the inodes. -/
structure Icache where
  inode : Addr → Inode
  live : Addr → Bool
  ht : Hashtable
  list : Links Addr
  count : UInt32

/-- The empty cache, over any memory. -/
def inodeInit (inode : Addr → Inode) (list : Links Addr) : Icache where
  inode := inode
  live := fun _ => false
  ht := ⟨fun _ => [], 64, 0⟩
  list := list.init 0
  count := 0

def Icache.setInode (ic : Icache) (a : Addr) (inode : Inode) : Icache :=
  { ic with inode := Function.update ic.inode a inode }

def Icache.setRefcnt (ic : Icache) (a : Addr) (refcnt : UInt32) : Icache :=
  ic.setInode a { ic.inode a with iRefcnt := refcnt }

/-- The memory of an inode is given back. -/
def Icache.release (ic : Icache) (a : Addr) : Icache :=
  { ic with live := Function.update ic.live a false }

/-- What `inode_alloc` writes. -/
def newInode (sb : Addr) : Inode where
  iIno := 0
  iMode := 0
  iUid := 0
  iGid := 0
  iSize := 0
  iBlocks := 0
  iAtime := 0
  iMtime := 0
  iCtime := 0
  iNlink := 1
  iRdev := 0
  iSb := sb
  iOp := 0
  iFop := 0
  iMapping := 0
  iRefcnt := 1
  iState := I_NEW

def Icache.construct (ic : Icache) (sb a : Addr) : Icache :=
  { ic.setInode a (newInode sb) with
    live := Function.update ic.live a true
    list := ic.list.init a }

section

variable (ops : Addr → SuperOperations)

/-- `memory` is what `alloc_inode` or the slab allocator returns. -/
def inodeAlloc (ic : Icache) (sb memory : Addr) : Addr × Icache :=
  if sb ≠ 0 ∧ (ops sb).allocInode then
    if isErr memory ∨ memory = 0 then (memory, ic) else (memory, ic.construct sb memory)
  else if memory = 0 then (ptrENOMEM, ic)
  else (memory, ic.construct sb memory)

/-- The section of `inode_free`. -/
def inodeRemove (ic : Icache) (a : Addr) : Icache :=
  { ic with
    ht := (hashtableDelete ic.ht (ic.inode a).iIno).2
    list := ic.list.del a
    count := ic.count - 1 }

/-- The test for `destroy_inode`, of the super block of an inode. -/
def Icache.destroys (ic : Icache) (a : Addr) : Bool :=
  (ic.inode a).iSb ≠ 0 ∧ (ops (ic.inode a).iSb).destroyInode

def inodeFree (ic : Icache) (a : Addr) : Icache :=
  if a = 0 then ic
  else if ic.destroys ops a then ic.release a
  else (inodeRemove ic a).release a

/-- The first section of `inode_get`; `0` if the number is not found. -/
def inodeGetLookup (ic : Icache) (ino : UInt64) : Addr × Icache :=
  let a := hashtableLookup ic.ht ino
  if a ≠ 0 then (a, ic.setRefcnt a ((ic.inode a).iRefcnt + 1)) else (0, ic)

/-- The second section of `inode_get`, which does not look at the result of the insertion. -/
def inodeGetInsert (ic : Icache) (ino : UInt64) (a : Addr) (nodeMemory : Bool) : Icache :=
  { ic with
    ht := (hashtableInsert ic.ht ino a nodeMemory).2
    list := ic.list.add a 0
    count := ic.count + 1 }

/-- `inode->i_ino = ino`. -/
def Icache.setIno (ic : Icache) (a : Addr) (ino : UInt64) : Icache :=
  ic.setInode a { ic.inode a with iIno := ino }

/-- There is no result when `alloc_inode` returns `NULL`, through which `i_ino` is written. -/
def inodeGet (ic : Icache) (sb : Addr) (ino : UInt64) (memory : Addr) (nodeMemory : Bool) :
    Option (Addr × Icache) :=
  let (a, ic) := inodeGetLookup ic ino
  if a ≠ 0 then some (a, ic)
  else
    let (a, ic) := inodeAlloc ops ic sb memory
    if isErr a then some (a, ic)
    else if a = 0 then none
    else some (a, inodeGetInsert (ic.setIno a ino) ino a nodeMemory)

/-- The test for `drop_inode`. -/
def Icache.drops (ic : Icache) (a : Addr) : Bool :=
  (ic.inode a).iSb ≠ 0 ∧ (ops (ic.inode a).iSb).dropInode

/-- `drop` is what `drop_inode` returns, if it is called. -/
def inodePut (ic : Icache) (a : Addr) (drop : Int) : Icache :=
  if a = 0 then ic
  else
    let refcnt := (ic.inode a).iRefcnt - 1
    let ic := ic.setRefcnt a refcnt
    if refcnt = 0 then
      if ic.drops ops a ∧ drop ≠ 0 then ic else inodeFree ops ic a
    else ic

end

def inodeLookup (ic : Icache) (ino : UInt64) : Addr := hashtableLookup ic.ht ino

end NoobKernel.Fs
