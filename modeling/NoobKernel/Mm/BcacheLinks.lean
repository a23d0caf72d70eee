import NoobKernel.Lib.Links
import NoobKernel.Mm.BcacheLists

set_option autoImplicit false

/-! # The buffer cache on its links (`mm/bcache.c`)

The operations under `bcache.lock` as the pointer writes they are. `Represents` says which lists
of buffers the links stand for, and every operation on the links does what the operation of the
same name does on the lists (`Represents.get`, `Represents.brelse`). The node of a buffer that
has never been assigned is linked to itself, so that the first `list_del` on it changes nothing;
between that and the `list_add` in `bcache_get` a node that was on a chain keeps stale links.
-/

namespace NoobKernel.Mm

/-- `bcache.hash_table[h]` and `bcache.bufs[i].hash`. -/
inductive HashNode
  | head (h : Nat)
  | buf (i : Nat)
  deriving DecidableEq

/-- The buffer whose member the node is. -/
def HashNode.entry : HashNode → Option Nat
  | head _ => none
  | buf i => some i

/-- `bcache`. On the LRU list, `none` is `lru_list` and `some i` is `bufs[i].lru`. -/
structure LinkedBcache (B : Type) where
  bufs : Nat → Buf B
  hash : Links HashNode
  lru : Links (Option Nat)

variable {B : Type}

namespace LinkedBcache

def setBuf (c : LinkedBcache B) (i : Nat) (b : Buf B) : LinkedBcache B :=
  { c with bufs := Function.update c.bufs i b }

@[simp] theorem setBuf_bufs_self (c : LinkedBcache B) (i : Nat) (b : Buf B) :
    (c.setBuf i b).bufs i = b :=
  Function.update_self _ _ _

theorem setBuf_bufs_of_ne (c : LinkedBcache B) {i j : Nat} (b : Buf B) (h : j ≠ i) :
    (c.setBuf i b).bufs j = c.bufs j :=
  Function.update_of_ne h _ _

/-- One round of the loop over the buffers in `bcache_init`. -/
def initBuf (c : LinkedBcache B) (i : Nat) : LinkedBcache B where
  bufs := Function.update c.bufs i { c.bufs i with
    dev := 0, blockno := 0, refcnt := 0, dirty := false, valid := false, locked := false }
  hash := c.hash.init (.buf i)
  lru := (c.lru.init (some i)).add (some i) none

/-- `bcache_init` on whatever memory holds. -/
def init (c : LinkedBcache B) : LinkedBcache B :=
  (List.range BCACHE_SIZE).foldl initBuf
    { c with
      lru := c.lru.init none
      hash := (List.range BCACHE_HASH_SIZE).foldl (fun l h => l.init (.head h)) c.hash }

/-- The condition in the loop of `bcache_lookup`. -/
def isBlock (c : LinkedBcache B) (dev : BitVec 32) (blockno : BitVec 64) (n : HashNode) : Bool :=
  n.entry.any fun i => (c.bufs i).dev = dev ∧ (c.bufs i).blockno = blockno

/-- The condition in the loop of `bcache_evict`. -/
def isFree (c : LinkedBcache B) (n : Option Nat) : Bool := n.any fun i => (c.bufs i).refcnt = 0

/-- `bcache_lookup`. The bound on its loop is never reached (`Represents.lookup`). -/
def lookup (c : LinkedBcache B) (dev : BitVec 32) (blockno : BitVec 64) : Option (Option Nat) :=
  let head := HashNode.head (bcacheHash dev blockno)
  (Links.scan c.hash.next head (c.isBlock dev blockno) (BCACHE_SIZE + 1) (c.hash.next head)).map
    (·.bind HashNode.entry)

/-- `bcache_evict`, which goes through the list from its tail. -/
def evict (c : LinkedBcache B) (disk : Disk B) :
    Option (Option (Nat × LinkedBcache B × Disk B)) :=
  (Links.scan c.lru.prev none c.isFree (BCACHE_SIZE + 1) (c.lru.prev none)).map fun n =>
    n.join.map fun i =>
      let b := c.bufs i
      let disk := if b.dirty then Function.update disk b.addr b.data else disk
      (i, { c.setBuf i { b with dirty := false, valid := false } with
        hash := c.hash.del (.buf i) }, disk)

/-- `list_del(&b->lru)` and `list_add(&b->lru, &bcache.lru_list)`. -/
def touch (c : LinkedBcache B) (i : Nat) : LinkedBcache B :=
  { c with lru := (c.lru.del (some i)).add (some i) none }

/-- `bcache_get` up to the release of `bcache.lock`; `none` is the panic when every buffer is
referenced. -/
def get (c : LinkedBcache B) (disk : Disk B) (dev : BitVec 32) (blockno : BitVec 64) :
    Option (Nat × LinkedBcache B × Disk B) :=
  match c.lookup dev blockno with
  | none => none
  | some (some i) =>
      let b := c.bufs i
      some (i, (c.setBuf i { b with refcnt := b.refcnt + 1 }).touch i, disk)
  | some none =>
      match c.evict disk with
      | none | some none => none
      | some (some (i, c, disk)) =>
          let b := c.bufs i
          let c := c.setBuf i
            { b with dev := dev, blockno := blockno, refcnt := 1, valid := false, dirty := false }
          let c := { c with hash := c.hash.add (.buf i) (.head (bcacheHash dev blockno)) }
          some (i, c.touch i, disk)

/-- `brelse` from the acquisition of `bcache.lock` on. -/
def brelse (c : LinkedBcache B) (i : Nat) : LinkedBcache B :=
  let b := c.bufs i
  let c := c.setBuf i { b with refcnt := b.refcnt - 1 }
  if b.refcnt - 1 = 0 then { c with lru := (c.lru.del (some i)).addTail (some i) none } else c

end LinkedBcache

/-! ## The lists the links stand for -/

structure Represents (c : LinkedBcache B) (bc : Bcache B) : Prop where
  bufs : c.bufs = bc.bufs
  lru : c.lru.Circle none (bc.lruList.map some)
  chains : c.hash.Circles BCACHE_HASH_SIZE .head fun h => (bc.hashTable h).map .buf
  unhashed : ∀ i < BCACHE_SIZE, (∀ h, i ∉ bc.hashTable h) → c.hash.Alone (.buf i)

variable {c c' : LinkedBcache B} {bc bc' : Bcache B} {disk disk' : Disk B} {uses : List Use}
  {a : BlockAddr} {i j : Nat}

theorem bcacheHash_lt (dev : BitVec 32) (blockno : BitVec 64) :
    bcacheHash dev blockno < BCACHE_HASH_SIZE :=
  Nat.mod_lt _ (by decide)

theorem HashNode.head_injective : Function.Injective HashNode.head := fun _ _ => HashNode.head.inj

theorem HashNode.buf_injective : Function.Injective HashNode.buf := fun _ _ => HashNode.buf.inj

theorem not_mem_chain {h : Nat} {l : List Nat} (hi : i ∉ l) :
    HashNode.buf i ∉ HashNode.head h :: l.map .buf := by
  rw [List.mem_cons, List.mem_map_of_injective HashNode.buf_injective, not_or]
  exact ⟨HashNode.noConfusion, hi⟩

/-! ### Initialization -/

/-- After `k` rounds of the loop over the buffers. -/
structure InitBufs (c₀ c : LinkedBcache B) (k : Nat) : Prop where
  done : ∀ i < k, c.bufs i = (bcacheInit fun i => (c₀.bufs i).data).bufs i
  rest : ∀ i, k ≤ i → c.bufs i = c₀.bufs i
  lru : c.lru.Circle none ((List.range k).reverse.map some)
  chains : c.hash.Circles BCACHE_HASH_SIZE .head fun _ => []
  alone : ∀ i < k, c.hash.Alone (.buf i)

theorem InitBufs.next {c₀ : LinkedBcache B} {k : Nat} (h : InitBufs c₀ c k) :
    InitBufs c₀ (c.initBuf k) (k + 1) where
  done i hi := by
    rcases Nat.lt_succ_iff_lt_or_eq.mp hi with hi | rfl
    · exact (Function.update_of_ne hi.ne _ _).trans (h.done i hi)
    · refine (Function.update_self _ _ _).trans ?_
      rw [h.rest i (Nat.le_refl i)]
      rfl
  rest i hi := (Function.update_of_ne (by omega) _ _).trans (h.rest i (by omega))
  lru := by
    have hnew : some k ∉ none :: (List.range k).reverse.map some := by
      simp
    rw [List.range_succ, List.reverse_append, List.reverse_singleton]
    exact (h.lru.init hnew).add hnew
  chains := h.chains.init_node fun _ _ => not_mem_chain List.not_mem_nil
  alone i hi := by
    rcases Nat.lt_succ_iff_lt_or_eq.mp hi with hi | rfl
    · exact (h.alone i hi).init _
    · exact Links.alone_init _ _

/-- The lists `bcache_init` sets up. -/
theorem represents_init (c : LinkedBcache B) :
    (∀ i < BCACHE_SIZE, c.init.bufs i = (bcacheInit fun i => (c.bufs i).data).bufs i)
      ∧ Represents c.init { bcacheInit (fun i => (c.bufs i).data) with bufs := c.init.bufs } := by
  have hloop : ∀ k, InitBufs c ((List.range k).foldl LinkedBcache.initBuf { c with
      lru := c.lru.init none
      hash := (List.range BCACHE_HASH_SIZE).foldl (fun l h => l.init (.head h)) c.hash }) k := by
    intro k
    induction k with
    | zero =>
        refine ⟨fun _ h => absurd h (Nat.not_lt_zero _), fun _ _ => rfl, ?_, ?_,
          fun _ h => absurd h (Nat.not_lt_zero _)⟩
        · exact Links.circle_init c.lru none
        · exact Links.Circles.init_heads c.hash HashNode.head_injective BCACHE_HASH_SIZE
    | succ k ih =>
        rw [List.range_succ, List.foldl_append]
        exact ih.next
  have h := hloop BCACHE_SIZE
  exact ⟨h.done, rfl, h.lru, h.chains, fun i hi _ => h.alone i hi⟩

theorem structured_init (c : LinkedBcache B) :
    Structured { bcacheInit (fun i => (c.bufs i).data) with bufs := c.init.bufs } [] where
  lru := List.reverse_perm _
  chain := by simp [bcacheInit]
  chain_nodup := by simp [bcacheInit]
  unique := by simp [bcacheInit, Hashed]
  refcnt i hi := by
    show (c.init.bufs i).refcnt = _
    rw [(represents_init c).1 i hi]
    rfl
  use := by simp

namespace Represents

/-! ### The loops -/

/-- The loop of `bcache_lookup` ends, and with what the search of the chain finds. -/
theorem lookup (hr : Represents c bc) (hs : Structured bc uses) :
    c.lookup a.1 a.2 = some (bcacheLookup bc a.1 a.2) := by
  have hlen : ((bc.hashTable (bcacheHash a.1 a.2)).map HashNode.buf).length < BCACHE_SIZE + 1 := by
    rw [List.length_map, Nat.lt_succ_iff, ← List.length_range (n := BCACHE_SIZE)]
    refine (List.subperm_of_subset (hs.chain_nodup _) fun i hi => ?_).length_le
    exact List.mem_range.mpr (hs.chain _ i hi).1
  have hscan := (hr.chains.circle _ (bcacheHash_lt a.1 a.2)).scan_next (c.isBlock a.1 a.2) hlen
  have hfind : (bc.hashTable (bcacheHash a.1 a.2)).find? (c.isBlock a.1 a.2 ∘ .buf)
      = bcacheLookup bc a.1 a.2 := by
    unfold bcacheLookup
    rw [← hr.bufs]
    rfl
  unfold LinkedBcache.lookup
  dsimp only
  rw [hscan, List.find?_map, hfind]
  cases bcacheLookup bc a.1 a.2 <;> rfl

/-- So does the loop of `bcache_evict`. -/
theorem evict (hr : Represents c bc) (hs : Structured bc uses) (disk : Disk B) :
    c.evict disk = some ((bcacheEvict bc disk).map fun r =>
      (r.1, ⟨r.2.1.bufs, c.hash.del (.buf r.1), c.lru⟩, r.2.2)) := by
  have hlen : (bc.lruList.map some).length < BCACHE_SIZE + 1 := by
    rw [List.length_map, hs.lru.length_eq, List.length_range]
    exact Nat.lt_succ_self _
  have hscan := hr.lru.scan_prev c.isFree hlen
  obtain ⟨bufs, hash, lru⟩ := c
  obtain rfl : bufs = bc.bufs := hr.bufs
  have hfind : bc.lruList.reverse.find? (LinkedBcache.isFree ⟨bc.bufs, hash, lru⟩ ∘ some)
      = bc.lruList.reverse.find? fun i => (bc.bufs i).refcnt = 0 := rfl
  unfold LinkedBcache.evict bcacheEvict
  rw [hscan, ← List.map_reverse, List.find?_map, hfind]
  cases bc.lruList.reverse.find? fun i => (bc.bufs i).refcnt = 0 <;> rfl

/-! ### The writes -/

theorem setBuf (hr : Represents c bc) (i : Nat) (b : Buf B) :
    Represents (c.setBuf i b) (bc.setBuf i b) := by
  refine ⟨?_, hr.lru, hr.chains, hr.unhashed⟩
  show Function.update c.bufs i b = Function.update bc.bufs i b
  rw [hr.bufs]

theorem touch (hr : Represents c bc) (hi : i ∈ bc.lruList) : Represents (c.touch i) (bc.touch i) := by
  refine ⟨hr.bufs, ?_, hr.chains, hr.unhashed⟩
  have hmove := hr.lru.move (List.mem_map_of_mem hi)
  rwa [Links.erase_map (Option.some_injective Nat)] at hmove

/-- `list_del` takes a buffer off its chain. One that is on none stays as it is. -/
theorem unlink (hr : Represents c bc) (hs : Structured bc uses) (hi : i < BCACHE_SIZE) :
    (c.hash.del (.buf i)).Circles BCACHE_HASH_SIZE .head
        (fun h => ((bc.hashTable h).erase i).map .buf)
      ∧ ∀ j < BCACHE_SIZE, (∀ h, j ∉ bc.hashTable h) → (c.hash.del (.buf i)).Alone (.buf j) := by
  by_cases hon : ∃ h, i ∈ bc.hashTable h
  · obtain ⟨h, hmem⟩ := hon
    have hh : h < BCACHE_HASH_SIZE := by
      rw [← (hs.chain h i hmem).2]
      exact bcacheHash_lt _ _
    have hnode : HashNode.buf i ∈ (bc.hashTable h).map .buf := List.mem_map_of_mem hmem
    refine ⟨?_, fun j hj hoff => ?_⟩
    · have hdel := hr.chains.del hh hnode
      simp only [Links.erase_map HashNode.buf_injective] at hdel
      exact hdel
    · exact (hr.unhashed j hj hoff).del_of_mem (hr.chains.circle h hh) hnode
        (not_mem_chain (hoff h))
  · rw [not_exists] at hon
    have herase : ∀ h, (bc.hashTable h).erase i = bc.hashTable h :=
      fun h => List.erase_of_not_mem (hon h)
    rw [(hr.unhashed i hi hon).del]
    simp only [herase]
    exact ⟨hr.chains, hr.unhashed⟩

/-- **A buffer changes its chain**, or enters its first one. -/
theorem rehash (hr : Represents c bc) (hs : Structured bc uses) (hi : i < BCACHE_SIZE) {h : Nat}
    (hh : h < BCACHE_HASH_SIZE) :
    Represents { c with hash := (c.hash.del (.buf i)).add (.buf i) (.head h) }
      ((bc.unhash i).enhash i h) := by
  obtain ⟨hchains, halone⟩ := hr.unlink hs hi
  have hnew : ∀ k, i ∉ (bc.hashTable k).erase i := fun k => (hs.chain_nodup k).not_mem_erase
  have hself : ((bc.unhash i).enhash i h).hashTable h = i :: (bc.hashTable h).erase i :=
    Function.update_self _ _ _
  have hother : ∀ k, k ≠ h →
      ((bc.unhash i).enhash i h).hashTable k = (bc.hashTable k).erase i :=
    fun k hk => Function.update_of_ne hk _ _
  refine ⟨hr.bufs, hr.lru, ?_, fun j hj hoff => ?_⟩
  · have hadd := hchains.add hh fun k _ => not_mem_chain (hnew k)
    have htable : ∀ k, Function.update (fun k => ((bc.hashTable k).erase i).map HashNode.buf) h
          (.buf i :: ((bc.hashTable h).erase i).map .buf) k
        = (((bc.unhash i).enhash i h).hashTable k).map .buf := by
      intro k
      by_cases hk : k = h
      · rw [hk, Function.update_self, hself, List.map_cons]
      · rw [Function.update_of_ne hk, hother k hk]
    rwa [funext htable] at hadd
  · -- another buffer on no chain was on none before
    have hne : j ≠ i := fun heq => hoff h (by rw [hself, heq]; exact List.mem_cons_self)
    have hold : ∀ k, j ∉ bc.hashTable k := by
      intro k hmem
      have hmem' : j ∈ (bc.hashTable k).erase i := (List.mem_erase_of_ne hne).mpr hmem
      have hj := hoff k
      by_cases hk : k = h
      · rw [hk, hself] at hj
        exact hj (List.mem_cons_of_mem _ (hk ▸ hmem'))
      · rw [hother k hk] at hj
        exact hj hmem'
    have hnode : HashNode.buf j ∉ HashNode.head h :: ((bc.hashTable h).erase i).map .buf :=
      not_mem_chain fun hmem => hold h (List.mem_of_mem_erase hmem)
    exact (halone j hj hold).add (fun heq => hne (HashNode.buf_injective heq))
      (hchains.circle h hh) hnode

/-- What `bcache_get` does to the buffer that `bcache_evict` returns. -/
theorem reassign (hr : Represents c bc) (hs : Structured bc uses) (hi : i < BCACHE_SIZE) :
    Represents (LinkedBcache.touch ⟨(bc.reassign i a).bufs,
      (c.hash.del (.buf i)).add (.buf i) (.head (bcacheHash a.1 a.2)), c.lru⟩ i)
      (bc.reassign i a) := by
  have hrehash := hr.rehash hs hi (bcacheHash_lt a.1 a.2)
  have hfinal : Represents ⟨(bc.reassign i a).bufs,
      (c.hash.del (.buf i)).add (.buf i) (.head (bcacheHash a.1 a.2)), c.lru⟩
      ⟨(bc.reassign i a).bufs, ((bc.unhash i).enhash i (bcacheHash a.1 a.2)).hashTable,
        bc.lruList⟩ := ⟨rfl, hrehash.lru, hrehash.chains, hrehash.unhashed⟩
  exact hfinal.touch (hs.mem_lru.mpr hi)

/-- What a `bcache_get` on the links and one on the lists have in common. -/
def SameGet (x : Nat × LinkedBcache B × Disk B) (y : Nat × Bcache B × Disk B) : Prop :=
  x.1 = y.1 ∧ Represents x.2.1 y.2.1 ∧ x.2.2 = y.2.2

/-- **`bcache_get` on the links**: it returns when the one on the lists does, with the same
buffer. -/
theorem get (hr : Represents c bc) (hs : Structured bc uses) (disk : Disk B) (a : BlockAddr) :
    Option.Rel SameGet (c.get disk a.1 a.2) (bcacheGet bc disk a.1 a.2) := by
  unfold LinkedBcache.get bcacheGet
  rw [hr.lookup hs]
  cases hlook : bcacheLookup bc a.1 a.2 with
  | some i =>
      have hi : i ∈ bc.lruList := hs.mem_lru.mpr (hs.chain _ i (lookup_some hlook).1).1
      refine .some ⟨rfl, ?_, rfl⟩
      rw [hr.bufs]
      exact (hr.setBuf i _).touch hi
  | none =>
      rw [hr.evict hs]
      cases hevict : bcacheEvict bc disk with
      | none => exact .none
      | some r =>
          obtain ⟨i, bc₁, disk₁⟩ := r
          obtain ⟨hmem, -⟩ := evict_mem hevict
          obtain ⟨-, rfl, -⟩ := evict_some hevict
          exact .some ⟨rfl, hr.reassign hs (hs.mem_lru.mp hmem), rfl⟩

/-- **`brelse` on the links.** -/
theorem brelse (hr : Represents c bc) (hi : i ∈ bc.lruList) :
    Represents (c.brelse i) (brelsePut bc i) := by
  have hset := hr.setBuf i { bc.bufs i with refcnt := (bc.bufs i).refcnt - 1 }
  unfold LinkedBcache.brelse brelsePut
  rw [hr.bufs]
  by_cases hzero : (bc.bufs i).refcnt - 1 = 0
  · simp only [if_pos hzero]
    refine ⟨hset.bufs, ?_, hset.chains, hset.unhashed⟩
    have hmove := hr.lru.moveTail (List.mem_map_of_mem hi)
    rw [Links.erase_map (Option.some_injective Nat)] at hmove
    rw [List.map_append]
    exact hmove
  · simp only [if_neg hzero]
    exact hset

end Represents

end NoobKernel.Mm
