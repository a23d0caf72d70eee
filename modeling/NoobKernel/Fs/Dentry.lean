import NoobKernel.Lib.Links
import NoobKernel.Misc.Hashtable

set_option autoImplicit false

/-! # Directory entries (`fs/dentry.c`)

The memory of `dentry_cache` is a map from addresses to dentries, of which the `live` ones are
allocated. The lists `dentry_list` and `dentry_lru` are the link fields `d_list` and `d_lru` of
all dentries, the head of each being the node `0`. What the slab allocator and `kmalloc` return
are arguments, as is the result of a `d_delete` callback; `d_release` and the `inode_put` of a
freed dentry do not touch the cache. The functions run one at a time, so the locks are left out.

A C string is the list of its characters, so `strcmp` is equality of lists.
-/

namespace NoobKernel.Fs

structure Qstr where
  name : List UInt8
  len : UInt32
  hash : UInt32
  deriving DecidableEq

def hashString (str : List UInt8) (len : UInt32) : UInt32 :=
  (str.take len.toNat).foldl (fun hash c => hash * 31 + c.toUInt32) 0

def qstrInit (name : List UInt8) : Qstr :=
  let len := UInt32.ofNat name.length
  ⟨name, len, hashString name len⟩

structure Dentry where
  dName : Qstr
  dInode : Addr
  dSb : Addr
  dParent : Addr
  dRefcnt : UInt32
  deriving DecidableEq

/-- `dentry_state` and the memory of the dentries. -/
structure Dcache where
  dentry : Addr → Dentry
  live : Addr → Bool
  ht : Hashtable
  list : Links Addr
  lru : Links Addr
  count : UInt32

def dentryHashKey (dc : Dcache) (sb parent : Addr) (name : Qstr) : Nat :=
  hashPtr ((sb ^^^ parent).toUInt32 ^^^ name.hash).toUInt64 dc.ht.size

/-- The key of a dentry in the hash table, as the pointer it is cast to. -/
def Dcache.key (dc : Dcache) (d : Addr) : Addr :=
  UInt64.ofNat (dentryHashKey dc (dc.dentry d).dSb (dc.dentry d).dParent (dc.dentry d).dName)

/-- The empty cache, over any memory. -/
def dentryInit (dentry : Addr → Dentry) (list lru : Links Addr) : Dcache where
  dentry := dentry
  live := fun _ => false
  ht := ⟨fun _ => [], 128, 0⟩
  list := list.init 0
  lru := lru.init 0
  count := 0

/-- `memory` is the address the slab allocator returns, `0` if there is none, and `nameMemory`
whether the copy of the name can be allocated. -/
def dentryAlloc (dc : Dcache) (memory : Addr) (nameMemory : Bool) (parent sb : Addr)
    (name : List UInt8) : Except Int Addr × Dcache :=
  if memory = 0 ∨ nameMemory = false then (.error (-ENOMEM), dc)
  else
    let dentry := ⟨qstrInit name, 0, sb, if parent ≠ 0 then parent else memory, 1⟩
    (.ok memory, { dc with
      dentry := Function.update dc.dentry memory dentry
      live := Function.update dc.live memory true
      list := dc.list.init memory
      lru := dc.lru.init memory })

def dentryFree (dc : Dcache) (d : Addr) : Dcache :=
  if d = 0 then dc
  else
    { dc with
      ht := (hashtableDelete dc.ht (dc.key d)).2
      list := dc.list.del d
      lru := dc.lru.del d
      count := dc.count - 1
      live := Function.update dc.live d false }

/-- The walk over one bucket; `0` is `NULL`. -/
def dentryLookup (dc : Dcache) (sb parent : Addr) (name : Qstr) : Addr :=
  let found := (dc.ht.buckets (dentryHashKey dc sb parent name)).find? fun node =>
    node.value ≠ 0 ∧ (dc.dentry node.value).dSb = sb ∧ (dc.dentry node.value).dParent = parent
      ∧ (dc.dentry node.value).dName.len = name.len
      ∧ (dc.dentry node.value).dName.name = name.name
  match found with
  | some node => node.value
  | none => 0

/-- The cache with another reference count. -/
def Dcache.setRefcnt (dc : Dcache) (d : Addr) (refcnt : UInt32) : Dcache :=
  { dc with dentry := Function.update dc.dentry d { dc.dentry d with dRefcnt := refcnt } }

def dentryPut (dc : Dcache) (d : Addr) : Dcache :=
  if d = 0 then dc
  else
    let refcnt := (dc.dentry d).dRefcnt - 1
    let dc := dc.setRefcnt d refcnt
    if refcnt = 0 then { dc with lru := dc.lru.add d 0 } else dc

def dentryGet (dc : Dcache) (d : Addr) : Dcache :=
  if d = 0 then dc else dc.setRefcnt d ((dc.dentry d).dRefcnt + 1)

/-- `memory` says whether a hash node can be allocated; the source ignores it when not. -/
def dentryInsert (dc : Dcache) (d : Addr) (memory : Bool) : Int × Dcache :=
  if d = 0 then (-EINVAL, dc)
  else if (dc.dentry d).dSb = 0 then (-EINVAL, dc)
  else if (dc.dentry d).dParent = 0 then (-EINVAL, dc)
  else
    let key := dc.key d
    if hashtableLookup dc.ht key ≠ 0 then (-EEXIST, dc)
    else
      (0, { dc with
        ht := (hashtableInsert dc.ht key d memory).2
        list := dc.list.add d 0
        count := dc.count + 1 })

/-- `dDelete` is what the `d_delete` callback returns, if there is one. -/
def dentryDelete (dc : Dcache) (d : Addr) (dDelete : Option Int) : Dcache :=
  if d = 0 then dc
  else
    match dDelete with
    | some ret => if ret ≠ 0 then dc else dentryFree dc d
    | none => dentryFree dc d

def dentryRoot (dc : Dcache) (memory : Addr) (nameMemory nodeMemory : Bool) (sb : Addr) :
    Except Int Addr × Dcache :=
  match dentryAlloc dc memory nameMemory 0 sb [47] with
  | (.error e, dc) => (.error e, dc)
  | (.ok root, dc) =>
      let dc := { dc with
        dentry := Function.update dc.dentry root { dc.dentry root with dParent := root } }
      let (ret, dc) := dentryInsert dc root nodeMemory
      if ret ≠ 0 then (.error (-EEXIST), dentryFree dc root) else (.ok root, dc)

end NoobKernel.Fs
