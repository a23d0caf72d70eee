import NoobKernel.Lib.Lts
import NoobKernel.Misc.Config

set_option autoImplicit false

/-! # The buffer cache (`mm/bcache.c`)

`BCACHE_SIZE` buffers, each on at most one hash chain and on the LRU list. `bcache_get` runs
under `bcache.lock` from its first to its last access, and so does the second half of
`brelse`; both are one atomic function here. The buffer's own lock is held from the return of
`bcache_get` to `brelse`, so the phases of its holder are separate steps (`Step`), and the
phases of any number of holders interleave.

A buffer is named by its index. The list nodes of a buffer never link it twice, so a list is
the list of its buffers and `list_del` erases the buffer from it. The reference count stays
below the number of kernel threads, hence a natural number.
-/

namespace NoobKernel.Mm

/-- A device number, which is a C `int`, and a block number on it. -/
abbrev BlockAddr := BitVec 32 × BitVec 64

structure Buf (B : Type) where
  data : B
  blockno : BitVec 64
  dev : BitVec 32
  refcnt : Nat
  dirty : Bool
  valid : Bool
  locked : Bool

variable {B : Type}

def Buf.addr (b : Buf B) : BlockAddr := (b.dev, b.blockno)

structure Bcache (B : Type) where
  bufs : Nat → Buf B
  hashTable : Nat → List Nat
  lruList : List Nat

/-- The contents of the devices. -/
abbrev Disk (B : Type) := BlockAddr → B

/-- `dev` is converted to `u64` with its sign, and the sum wraps. -/
def bcacheHash (dev : BitVec 32) (blockno : BitVec 64) : Nat :=
  (dev.signExtend 64 + blockno).toNat % BCACHE_HASH_SIZE

namespace Bcache

def setBuf (bc : Bcache B) (i : Nat) (b : Buf B) : Bcache B :=
  { bc with bufs := Function.update bc.bufs i b }

@[simp] theorem setBuf_bufs_self (bc : Bcache B) (i : Nat) (b : Buf B) :
    (bc.setBuf i b).bufs i = b := by
  simp [setBuf]

theorem setBuf_bufs_of_ne (bc : Bcache B) {i j : Nat} (b : Buf B) (h : j ≠ i) :
    (bc.setBuf i b).bufs j = bc.bufs j := by
  simp [setBuf, h]

@[simp] theorem setBuf_hashTable (bc : Bcache B) (i : Nat) (b : Buf B) :
    (bc.setBuf i b).hashTable = bc.hashTable := rfl

@[simp] theorem setBuf_lruList (bc : Bcache B) (i : Nat) (b : Buf B) :
    (bc.setBuf i b).lruList = bc.lruList := rfl

/-- `list_del(&b->lru)` and `list_add(&b->lru, &bcache.lru_list)`. -/
def touch (bc : Bcache B) (i : Nat) : Bcache B :=
  { bc with lruList := i :: bc.lruList.erase i }

@[simp] theorem touch_bufs (bc : Bcache B) (i : Nat) : (bc.touch i).bufs = bc.bufs := rfl

/-- `list_del(&b->hash)`. -/
def unhash (bc : Bcache B) (i : Nat) : Bcache B :=
  { bc with hashTable := fun h => (bc.hashTable h).erase i }

/-- `list_add(&b->hash, &bcache.hash_table[hash])`. -/
def enhash (bc : Bcache B) (i hash : Nat) : Bcache B :=
  { bc with hashTable := Function.update bc.hashTable hash (i :: bc.hashTable hash) }

end Bcache

/-! ## The code -/

/-- The cache `bcache_init` sets up; `junk` is what the data areas hold then. -/
def bcacheInit (junk : Nat → B) : Bcache B where
  bufs := fun i => ⟨junk i, 0, 0, 0, false, false, false⟩
  hashTable := fun _ => []
  lruList := (List.range BCACHE_SIZE).reverse

def bcacheLookup (bc : Bcache B) (dev : BitVec 32) (blockno : BitVec 64) : Option Nat :=
  (bc.hashTable (bcacheHash dev blockno)).find? fun i =>
    (bc.bufs i).dev = dev ∧ (bc.bufs i).blockno = blockno

/-- The last unreferenced buffer of the LRU list, off its hash chain; a dirty one is written
back first. -/
def bcacheEvict (bc : Bcache B) (disk : Disk B) : Option (Nat × Bcache B × Disk B) :=
  match bc.lruList.reverse.find? fun i => (bc.bufs i).refcnt = 0 with
  | none => none
  | some i =>
      let b := bc.bufs i
      let disk := if b.dirty then Function.update disk b.addr b.data else disk
      some (i, (bc.setBuf i { b with dirty := false, valid := false }).unhash i, disk)

/-- `bcache_get` up to the release of `bcache.lock`; `none` is the panic when every buffer is
referenced. -/
def bcacheGet (bc : Bcache B) (disk : Disk B) (dev : BitVec 32) (blockno : BitVec 64) :
    Option (Nat × Bcache B × Disk B) :=
  match bcacheLookup bc dev blockno with
  | some i =>
      let b := bc.bufs i
      some (i, (bc.setBuf i { b with refcnt := b.refcnt + 1 }).touch i, disk)
  | none =>
      match bcacheEvict bc disk with
      | none => none
      | some (i, bc, disk) =>
          let b := bc.bufs i
          let bc := bc.setBuf i
            { b with dev := dev, blockno := blockno, refcnt := 1, valid := false, dirty := false }
          some (i, (bc.enhash i (bcacheHash dev blockno)).touch i, disk)

/-- The rest of `bread`, with the buffer locked: `blk_read` unless the buffer is valid. -/
def breadFill (disk : Disk B) (dev : BitVec 32) (blockno : BitVec 64) (b : Buf B) : Buf B :=
  if b.valid then b else { b with data := disk (dev, blockno), valid := true }

/-- `bwrite` up to its `blk_write`; `none` is the return with a warning. -/
def bwriteBegin (b : Buf B) : Option (Buf B) :=
  if b.valid then some { b with dirty := true } else none

/-- The `blk_write` of `bwrite` and what follows. -/
def bwriteEnd (disk : Disk B) (b : Buf B) : Buf B × Disk B :=
  ({ b with dirty := false }, Function.update disk b.addr b.data)

/-- `brelse` from the acquisition of `bcache.lock` on. -/
def brelsePut (bc : Bcache B) (i : Nat) : Bcache B :=
  let b := bc.bufs i
  let bc := bc.setBuf i { b with refcnt := b.refcnt - 1 }
  if b.refcnt - 1 = 0 then { bc with lruList := bc.lruList.erase i ++ [i] } else bc

/-! ## The cache and its users -/

/-- How far one use of a buffer, from `bread` to `brelse`, has come. -/
inductive Phase
  /-- past `bcache_get`'s critical section, before the buffer's lock -/
  | waiting
  /-- the buffer's lock acquired, `bread` not returned -/
  | filling
  /-- the caller has the buffer; `modified` since the last `bwrite` -/
  | holding (modified : Bool)
  /-- inside `bwrite` -/
  | writing
  /-- inside `brelse`, the buffer's lock released -/
  | releasing
  deriving DecidableEq, Repr

/-- One use of a buffer: the buffer `bcache_get` chose for a device block. -/
structure Session where
  buf : Nat
  addr : BlockAddr
  phase : Phase
  deriving DecidableEq, Repr

/-- The cache, the devices and the uses in progress. -/
structure System (B : Type) where
  bc : Bcache B
  disk : Disk B
  sessions : List Session

def System.boot (junk : Nat → B) (disk : Disk B) : System B := ⟨bcacheInit junk, disk, []⟩

/-- What a user of the block layer observes. -/
inductive Event (B : Type)
  /-- `bread` returns with these contents -/
  | bread (addr : BlockAddr) (data : B)
  /-- `bwrite` of these contents completes -/
  | bwrite (addr : BlockAddr) (data : B)

/-- The steps of the users. A holder may change the contents in place at any time, and calls
`brelse` only when it has called `bwrite` after its last change. -/
inductive Step : System B → Option (Event B) → System B → Prop
  | get {s : System B} {a : BlockAddr} {i : Nat} {bc : Bcache B} {disk : Disk B}
      (run : bcacheGet s.bc s.disk a.1 a.2 = some (i, bc, disk)) :
      Step s none ⟨bc, disk, ⟨i, a, .waiting⟩ :: s.sessions⟩
  | acquire {s : System B} {l₁ l₂ : List Session} {i : Nat} {a : BlockAddr}
      (pick : s.sessions = l₁ ++ ⟨i, a, .waiting⟩ :: l₂)
      (free : (s.bc.bufs i).locked = false) :
      Step s none
        ⟨s.bc.setBuf i { s.bc.bufs i with locked := true }, s.disk,
          l₁ ++ ⟨i, a, .filling⟩ :: l₂⟩
  | bread {s : System B} {l₁ l₂ : List Session} {i : Nat} {a : BlockAddr}
      (pick : s.sessions = l₁ ++ ⟨i, a, .filling⟩ :: l₂) :
      Step s (some (.bread a (breadFill s.disk a.1 a.2 (s.bc.bufs i)).data))
        ⟨s.bc.setBuf i (breadFill s.disk a.1 a.2 (s.bc.bufs i)), s.disk,
          l₁ ++ ⟨i, a, .holding false⟩ :: l₂⟩
  | modify {s : System B} {l₁ l₂ : List Session} {i : Nat} {a : BlockAddr} {m : Bool} {x : B}
      (pick : s.sessions = l₁ ++ ⟨i, a, .holding m⟩ :: l₂) :
      Step s none
        ⟨s.bc.setBuf i { s.bc.bufs i with data := x }, s.disk,
          l₁ ++ ⟨i, a, .holding true⟩ :: l₂⟩
  | bwriteInvalid {s : System B} {l₁ l₂ : List Session} {i : Nat} {a : BlockAddr} {m : Bool}
      (pick : s.sessions = l₁ ++ ⟨i, a, .holding m⟩ :: l₂)
      (run : bwriteBegin (s.bc.bufs i) = none) : Step s none s
  | bwriteBegin {s : System B} {l₁ l₂ : List Session} {i : Nat} {a : BlockAddr} {m : Bool}
      {b : Buf B} (pick : s.sessions = l₁ ++ ⟨i, a, .holding m⟩ :: l₂)
      (run : bwriteBegin (s.bc.bufs i) = some b) :
      Step s none ⟨s.bc.setBuf i b, s.disk, l₁ ++ ⟨i, a, .writing⟩ :: l₂⟩
  | bwriteEnd {s : System B} {l₁ l₂ : List Session} {i : Nat} {a : BlockAddr}
      (pick : s.sessions = l₁ ++ ⟨i, a, .writing⟩ :: l₂) :
      Step s (some (.bwrite a (s.bc.bufs i).data))
        ⟨s.bc.setBuf i (bwriteEnd s.disk (s.bc.bufs i)).1, (bwriteEnd s.disk (s.bc.bufs i)).2,
          l₁ ++ ⟨i, a, .holding false⟩ :: l₂⟩
  | unlock {s : System B} {l₁ l₂ : List Session} {i : Nat} {a : BlockAddr}
      (pick : s.sessions = l₁ ++ ⟨i, a, .holding false⟩ :: l₂) :
      Step s none
        ⟨s.bc.setBuf i { s.bc.bufs i with locked := false }, s.disk,
          l₁ ++ ⟨i, a, .releasing⟩ :: l₂⟩
  | put {s : System B} {l₁ l₂ : List Session} {i : Nat} {a : BlockAddr}
      (pick : s.sessions = l₁ ++ ⟨i, a, .releasing⟩ :: l₂) :
      Step s none ⟨brelsePut s.bc i, s.disk, l₁ ++ l₂⟩

/-! ## The uncached disk -/

/-- The abstract machine: a read returns the contents, a write replaces them. -/
inductive DiskStep : Disk B → Option (Event B) → Disk B → Prop
  | bread {d : Disk B} {a : BlockAddr} : DiskStep d (some (.bread a (d a))) d
  | bwrite {d : Disk B} {a : BlockAddr} {x : B} :
      DiskStep d (some (.bwrite a x)) (Function.update d a x)

end NoobKernel.Mm
