import NoobKernel.Lib.Ring

set_option autoImplicit false

/-! # The virtqueue driver (`hal/virtio/virtq.c`)

The split virtqueue as the driver sees it: the descriptor table with its free list, the
avail ring it fills and the used ring the device fills. Every driver function runs under
`vq->lock` from its first to its last access, so each is one atomic function of the queue.

The 16-bit indices are kept reduced modulo `2 ^ 16`. Tokens are the non-null pointers callers
pass, so an entry of `data` is `none` exactly when it is `NULL`.
-/

namespace NoobKernel.Hal

def VIRTQ_SIZE : Nat := 32

def VRING_DESC_F_NEXT : BitVec 16 := 1
def VRING_DESC_F_WRITE : BitVec 16 := 2

structure VirtqDesc where
  addr : Nat
  len : Nat
  flags : BitVec 16
  next : Nat
  deriving DecidableEq, Repr

structure VirtqBuf where
  addr : Nat
  len : Nat
  deriving DecidableEq, Repr

structure VirtqUsedElem where
  id : Nat
  len : Nat
  deriving DecidableEq, Repr

structure VirtqAvail where
  idx : Nat
  ring : Nat → Nat

structure VirtqUsed where
  idx : Nat
  ring : Nat → VirtqUsedElem

structure Virtq (T : Type) where
  num : Nat
  freeHead : Nat
  numFree : Nat
  availIdx : Nat
  usedIdx : Nat
  descs : Nat → VirtqDesc
  avail : VirtqAvail
  used : VirtqUsed
  data : Nat → Option T

variable {T : Type}

/-- A 16-bit counter one step on. -/
def succU16 (n : Nat) : Nat := (n + 1) % 2 ^ 16

namespace Virtq

def setDesc (vq : Virtq T) (i : Nat) (d : VirtqDesc) : Virtq T :=
  { vq with descs := Function.update vq.descs i d }

def setData (vq : Virtq T) (i : Nat) (t : Option T) : Virtq T :=
  { vq with data := Function.update vq.data i t }

/-- The free list: the first `num_free` descriptors reached from `free_head`. -/
def freeDescs (vq : Virtq T) : List Nat :=
  List.iterate (fun i => (vq.descs i).next) vq.freeHead vq.numFree

end Virtq

/-! ## The driver -/

/-- The queue `virtq_create` sets up in zeroed memory. -/
def virtqCreate (T : Type) (num : Nat) : Virtq T where
  num := num
  freeHead := 0
  numFree := num
  availIdx := 0
  usedIdx := 0
  descs := fun i =>
    if i + 1 = num then ⟨0, 0, 0, 0⟩
    else if i < num then ⟨0, 0, VRING_DESC_F_NEXT, (i + 1) % num⟩
    else ⟨0, 0, 0, 0⟩
  avail := ⟨0, fun _ => 0⟩
  used := ⟨0, fun _ => ⟨0, 0⟩⟩
  data := fun _ => none

/-- `-1` as a `u16` when no descriptor is free. -/
def virtqAllocDesc (vq : Virtq T) : Nat × Virtq T :=
  if vq.numFree = 0 then (2 ^ 16 - 1, vq)
  else
    let idx := vq.freeHead
    (idx, { vq with freeHead := (vq.descs idx).next, numFree := vq.numFree - 1 })

def virtqFreeDesc (vq : Virtq T) (idx : Nat) : Virtq T :=
  { vq.setDesc idx ⟨0, 0, VRING_DESC_F_NEXT, vq.freeHead⟩ with
    freeHead := idx
    numFree := succU16 vq.numFree }

/-- One of the two loops of `virtq_add_buf`, over `in_bufs` (`write = 0`, `more = n_out > 0`)
or over `out_bufs` (`write = VRING_DESC_F_WRITE`, `more = false`). `prev` is the descriptor to
be filled next; a further one is taken and linked unless the last buffer of the request has
been reached. -/
def fillBufs (write : BitVec 16) (more : Bool) :
    List VirtqBuf → Nat → Virtq T → Nat × Virtq T
  | [], prev, vq => (prev, vq)
  | b :: bs, prev, vq =>
      let vq := vq.setDesc prev { vq.descs prev with addr := b.addr, len := b.len, flags := write }
      if bs ≠ [] ∨ more = true then
        let (next, vq) := virtqAllocDesc vq
        let vq := vq.setDesc prev
          { vq.descs prev with next := next, flags := (vq.descs prev).flags ||| VRING_DESC_F_NEXT }
        fillBufs write more bs next vq
      else fillBufs write more bs prev vq

/-- The request is refused, `none` for `-1`, or accepted with the head of its chain. -/
def virtqAddBuf (vq : Virtq T) (inBufs outBufs : List VirtqBuf) (token : T) :
    Option Nat × Virtq T :=
  let total := inBufs.length + outBufs.length
  if vq.numFree < total then (none, vq)
  else
    let (head, vq) := virtqAllocDesc vq
    let vq := vq.setData head (some token)
    let (prev, vq) := fillBufs 0 (!outBufs.isEmpty) inBufs head vq
    let (prev, vq) := fillBufs VRING_DESC_F_WRITE false outBufs prev vq
    let vq := vq.setDesc prev
      { vq.descs prev with flags := (vq.descs prev).flags &&& ~~~VRING_DESC_F_NEXT, next := 0 }
    let slot := vq.availIdx % vq.num
    let idx := succU16 vq.availIdx
    (some head,
      { vq with availIdx := idx, avail := ⟨idx, Function.update vq.avail.ring slot head⟩ })

/-- The loop of `virtq_get_buf` that returns a chain to the free list. It visits a descriptor
at most once, so `num` rounds are enough; `none` is a loop that does not end. -/
def freeChain : Nat → Nat → Virtq T → Option (Virtq T)
  | 0, _, _ => none
  | fuel + 1, head, vq =>
      if (vq.descs head).flags &&& VRING_DESC_F_NEXT ≠ 0 then
        freeChain fuel (vq.descs head).next (virtqFreeDesc vq head)
      else some (virtqFreeDesc vq head)

/-- What a call of `virtq_get_buf` gives back: the token (`none` for `NULL`) and the length
written through `len`, if one was. -/
structure GetResult (T : Type) where
  token : Option T
  len : Option Nat

def virtqGetBuf (vq : Virtq T) : Option (GetResult T × Virtq T) :=
  if vq.usedIdx = vq.used.idx then some (⟨none, none⟩, vq)
  else
    let idx := vq.usedIdx % vq.num
    let head := (vq.used.ring idx).id
    let len := (vq.used.ring idx).len
    let token := vq.data head
    match freeChain vq.num head (vq.setData head none) with
    | none => none
    | some vq => some (⟨token, some len⟩, { vq with usedIdx := succU16 vq.usedIdx })

/-! ## The queue and its users -/

/-- An accepted request: what the caller gave and the head it was told. -/
structure Request (T : Type) where
  head : Nat
  inBufs : List VirtqBuf
  outBufs : List VirtqBuf
  token : T

/-- The buffers of a request in chain order, each with its direction flag. -/
def Request.bufs (r : Request T) : List (VirtqBuf × BitVec 16) :=
  r.inBufs.map (·, 0) ++ r.outBufs.map (·, VRING_DESC_F_WRITE)

/-- The queue together with the requests that are on their way: those the device has not
completed, those it has reported in the used ring, oldest first, and the history of accepted
requests and of returned tokens. -/
structure QueueState (T : Type) where
  vq : Virtq T
  inflight : List (Request T)
  reported : List (Request T)
  accepted : List (Request T)
  returned : List T

namespace QueueState

def outstanding (s : QueueState T) : List (Request T) := s.reported ++ s.inflight

def initial (T : Type) (num : Nat) : QueueState T := ⟨virtqCreate T num, [], [], [], []⟩

end QueueState

/-- The device completes a request: it appends the head of its chain to the used ring. -/
def deviceReport (vq : Virtq T) (head len : Nat) : Virtq T :=
  { vq with
    used := ⟨succU16 vq.used.idx,
      Function.update vq.used.ring (vq.used.idx % vq.num) ⟨head, len⟩⟩ }

inductive Step : QueueState T → QueueState T → Prop
  | addBuf {s : QueueState T} {inBufs outBufs : List VirtqBuf} {token : T} {head : Nat}
      {vq : Virtq T} (pos : 1 ≤ inBufs.length + outBufs.length)
      (run : virtqAddBuf s.vq inBufs outBufs token = (some head, vq)) :
      Step s
        { s with
          vq := vq
          inflight := s.inflight ++ [⟨head, inBufs, outBufs, token⟩]
          accepted := s.accepted ++ [⟨head, inBufs, outBufs, token⟩] }
  | addBufFull {s : QueueState T} {inBufs outBufs : List VirtqBuf} {token : T} {vq : Virtq T}
      (run : virtqAddBuf s.vq inBufs outBufs token = (none, vq)) : Step s { s with vq := vq }
  /-- The device may complete any request it has not reported yet, and reports it once. -/
  | complete {s : QueueState T} {l₁ l₂ : List (Request T)} {r : Request T} {len : Nat}
      (pick : s.inflight = l₁ ++ r :: l₂) :
      Step s
        { s with
          vq := deviceReport s.vq r.head len
          inflight := l₁ ++ l₂
          reported := s.reported ++ [r] }
  | getBuf {s : QueueState T} {res : GetResult T} {vq : Virtq T}
      (run : virtqGetBuf s.vq = some (res, vq)) :
      Step s
        { s with
          vq := vq
          reported := s.reported.drop res.token.toList.length
          returned := s.returned ++ res.token.toList }

end NoobKernel.Hal
