import NoobKernel.Lib.Locks
import NoobKernel.Mm.Kalloc

set_option autoImplicit false

/-! # Locks of the slab allocator

The locks of the memory manager are the one of the buddy system and one for each cache; the
environment may have locks of its own (`outer`). The lock of a cache is taken unless it is held
already, so of the functions here only `kmem_cache_flush` needs it to be free.

`slabLocks` also follows the data of the buddy system: the functions that take no memory from it
leave it alone.
-/

namespace NoobKernel.Mm

open Misc Exec Locking

/-- The locks of the memory manager and of its environment. -/
inductive MemLock (L : Type) : Type
  | buddy
  | cache (c : Nat)
  | outer (l : L)

/-- What the slab allocator leaves alone when it takes no memory from the buddy system. -/
structure MemFrame where
  expanding : Nat → Bool
  pages : Nat → Page
  freeList : Nat → List Nat
  memBlock : Nat → Nat

/-- Faults that are no violation of the lock discipline and no limit of the model. -/
def lockPolicy (R : Type) : Policy R Fault where
  safe _ := True
  fine _ := True
  allowed f := f ≠ .lock ∧ f ≠ .depth ∧ f ≠ .rounds

section

variable {E R L : Type} (outer : Locking E L Unit)

def heldLock (k : Kernel E) : MemLock L → Bool
  | .buddy => k.buddyLocked
  | .cache c => (k.caches c).locked
  | .outer l => outer.held k.ext l

def setLock (k : Kernel E) (l : MemLock L) (b : Bool) : Kernel E :=
  match l with
  | .buddy => { k with buddyLocked := b }
  | .cache c => k.updateCache c (.setLocked b)
  | .outer l => { k with ext := outer.set k.ext l b }

def memFrame (k : Kernel E) : MemFrame where
  expanding c := (k.caches c).expanding
  pages := k.pages
  freeList := k.buddyFreeList
  memBlock := k.memBlock

end

variable {E R L : Type} {outer : Locking E L Unit}

theorem updateCache_self (k : Kernel E) (c : Nat) (f : KmemCache → KmemCache) :
    (k.updateCache c f).caches c = f (k.caches c) := Function.update_self _ _ _

theorem updateCache_of_ne (k : Kernel E) {c c' : Nat} (f : KmemCache → KmemCache) (h : c' ≠ c) :
    (k.updateCache c f).caches c' = k.caches c' := Function.update_of_ne h _ _

/-- An update of a cache does not change what it keeps of every cache. -/
theorem updateCache_field {T : Type} {f : KmemCache → KmemCache} {g : KmemCache → T}
    (h : ∀ kmem, g (f kmem) = g kmem) (k : Kernel E) (c c' : Nat) :
    g ((k.updateCache c f).caches c') = g (k.caches c') := by
  by_cases heq : c' = c
  · rw [heq, updateCache_self, h]
  · rw [updateCache_of_ne k f heq]

theorem memFrame_updateCache {f : KmemCache → KmemCache}
    (h : ∀ kmem, (f kmem).expanding = kmem.expanding) (k : Kernel E) (c : Nat) :
    memFrame (k.updateCache c f) = memFrame k := by
  have heq : (fun c' => ((k.updateCache c f).caches c').expanding)
      = fun c' => (k.caches c').expanding := funext (updateCache_field h k c)
  unfold memFrame
  rw [heq]
  rfl

theorem heldLock_setLock_self (k : Kernel E) (l : MemLock L) (b : Bool) :
    heldLock outer (setLock outer k l b) l = b := by
  cases l with
  | buddy => rfl
  | cache c =>
      exact congrArg KmemCache.locked (updateCache_self k c (.setLocked b))
  | outer l => exact outer.held_set_self k.ext l b

theorem heldLock_setLock_of_ne (k : Kernel E) (l : MemLock L) (b : Bool) (l' : MemLock L)
    (hne : l' ≠ l) : heldLock outer (setLock outer k l b) l' = heldLock outer k l' := by
  cases l with
  | buddy =>
      cases l' with
      | buddy => exact absurd rfl hne
      | cache _ => rfl
      | outer _ => rfl
  | cache c =>
      cases l' with
      | buddy => rfl
      | cache c' =>
          have hcne : c' ≠ c := fun h => hne (congrArg MemLock.cache h)
          exact congrArg KmemCache.locked (updateCache_of_ne k (.setLocked b) hcne)
      | outer _ => rfl
  | outer l =>
      cases l' with
      | buddy => rfl
      | cache _ => rfl
      | outer l' => exact outer.held_set_of_ne k.ext l b l' fun h => hne (congrArg MemLock.outer h)

theorem memFrame_setLock (k : Kernel E) (l : MemLock L) (b : Bool) :
    memFrame (setLock outer k l b) = memFrame k := by
  cases l with
  | buddy => rfl
  | cache c =>
      exact memFrame_updateCache (f := .setLocked b) (fun _ => rfl) k c
  | outer l => rfl

/-- The locks, with the data of the buddy system. -/
def slabLocks (outer : Locking E L Unit) : Locking (Kernel E) (MemLock L) MemFrame where
  held := heldLock outer
  set := setLock outer
  frame := memFrame
  held_set_self := heldLock_setLock_self
  held_set_of_ne := heldLock_setLock_of_ne
  frame_set := memFrame_setLock

/-- The locks, with the caches that are being expanded. -/
def memLocks (outer : Locking E L Unit) : Locking (Kernel E) (MemLock L) (Nat → Bool) :=
  (slabLocks outer).coarsen MemFrame.expanding

/-! ## Steps that touch no lock -/

variable {A : Set (MemLock L)} {P : MemFrame → Prop} {α : Type}

/-- A change of caches that keeps the locks and the flags `expanding`. -/
theorem same_updateCache (k : Kernel E) (c : Nat) {f : KmemCache → KmemCache}
    (hlocked : ∀ kmem, (f kmem).locked = kmem.locked)
    (hexp : ∀ kmem, (f kmem).expanding = kmem.expanding) :
    (slabLocks outer).Same k (k.updateCache c f) where
  held l := by
    cases l with
    | buddy => rfl
    | cache c' => exact updateCache_field hlocked k c c'
    | outer l => rfl
  frame := memFrame_updateCache hexp k c

theorem same_updateSlab (k : Kernel E) (s : Nat) (f : Slab → Slab) :
    (slabLocks outer).Same k (k.updateSlab s f) where
  held l := by cases l <;> rfl
  frame := rfl

theorem updateCache_takes (c : Nat) {f : Kernel E → KmemCache → KmemCache}
    (hlocked : ∀ k kmem, (f k kmem).locked = kmem.locked)
    (hexp : ∀ k kmem, (f k kmem).expanding = kmem.expanding) :
    (slabLocks outer).Takes (lockPolicy R) A P (modify fun k => k.updateCache c (f k)) :=
  Takes.modify fun k => same_updateCache k c (hlocked k) (hexp k)

theorem updateSlab_takes (s : Nat) {f : Kernel E → Slab → Slab} :
    (slabLocks outer).Takes (lockPolicy R) A P (modify fun k => k.updateSlab s (f k)) :=
  Takes.modify fun k => same_updateSlab k s (f k)

theorem firstEntry_takes (l : List Nat) :
    (slabLocks outer).Takes (lockPolicy R) A P (firstEntry l) := by
  cases l with
  | nil => exact Takes.fault (by simp [lockPolicy])
  | cons p ps => exact Takes.pure p

theorem listMove_takes (c s : Nat) {add : Nat → KmemCache → KmemCache}
    (hlocked : ∀ kmem, (add s kmem).locked = kmem.locked)
    (hexp : ∀ kmem, (add s kmem).expanding = kmem.expanding) :
    (slabLocks outer).Takes (lockPolicy R) A P (listMove c s add) := by
  refine Takes.read fun k => ?_
  split
  · exact updateCache_takes c (fun _ kmem => hlocked (kmem.unlink s)) fun _ kmem =>
      hexp (kmem.unlink s)
  · exact Takes.fault (by simp [lockPolicy])

theorem listMoveIf_takes (b : Bool) (c s : Nat) {add : Nat → KmemCache → KmemCache}
    (hlocked : ∀ kmem, (add s kmem).locked = kmem.locked)
    (hexp : ∀ kmem, (add s kmem).expanding = kmem.expanding) :
    (slabLocks outer).Takes (lockPolicy R) A P (listMoveIf b c s add) := by
  unfold listMoveIf
  split
  · exact listMove_takes c s hlocked hexp
  · exact Takes.pure ()

/-! ## Slabs -/

theorem slabAlloc_takes (s : Nat) :
    (slabLocks outer).Takes (lockPolicy R) A P (slabAlloc s) := by
  refine Takes.bind (updateSlab_takes s) fun _ => Takes.read fun k => ?_
  refine Takes.bind (listMoveIf_takes _ _ s (fun _ => rfl) fun _ => rfl) fun _ => ?_
  dsimp only
  split
  · exact Takes.fault (by simp [lockPolicy])
  · exact Takes.bind (updateSlab_takes s) fun _ => Takes.pure _

theorem slabPut_takes (s idx : Nat) :
    (slabLocks outer).Takes (lockPolicy R) A P (slabPut s idx) := by
  refine Takes.read fun k => ?_
  split
  · exact Takes.fault (by simp [lockPolicy])
  · exact Takes.bind (listMoveIf_takes _ _ s (fun _ => rfl) fun _ => rfl) fun _ =>
      updateSlab_takes s

section

variable {warnf : Mem E R Unit}
  (hwarn : (slabLocks outer).Takes (lockPolicy R) A (fun _ => True) warnf)

include hwarn

theorem warnf_takes : (slabLocks outer).Takes (lockPolicy R) A P warnf :=
  hwarn.weaken fun _ _ => trivial

theorem slabFree_takes (addr : Nat) :
    (slabLocks outer).Takes (lockPolicy R) A P (slabFree warnf addr) := by
  refine Takes.read fun k => ?_
  dsimp only
  split_ifs
  · exact Takes.fault (by simp [lockPolicy])
  · exact Takes.fault (by simp [lockPolicy])
  · exact Takes.fault (by simp [lockPolicy])
  · exact warnf_takes hwarn
  · exact slabPut_takes _ _

theorem kmemCacheFreeNolock_takes (c addr : Nat) :
    (slabLocks outer).Takes (lockPolicy R) A P (kmemCacheFreeNolock warnf c addr) :=
  Takes.bind (slabFree_takes hwarn addr) fun _ =>
    updateCache_takes c (fun _ _ => rfl) fun _ _ => rfl

/-- **`kmem_cache_free`** takes no lock but those that printing takes: the one of the cache may be
held. -/
theorem kmemCacheFree_takes (hcache : ∀ c, .cache c ∉ A) (addr : Nat) :
    (slabLocks outer).Takes (lockPolicy R) A P (kmemCacheFree warnf addr) := by
  refine Takes.read_at fun k hP => ?_
  have hinner := kmemCacheFreeNolock_takes hwarn (P := P)
    (k.slabs (SLAB_ALIGN_DOWN addr)).kmem addr
  have hsection := Gives.bind hinner (hcache (k.slabs (SLAB_ALIGN_DOWN addr)).kmem)
    (Set.Subset.refl A) fun _ => Gives.release_last (e := Fault.lock)
  have hholding := Takes.holding (e := Fault.lock) hinner hsection k hP
  rwa [TakesAt, read_bind_apply] at hholding

end

/-! ## Flushing a cache -/

theorem flushSlabs_takes (c : Nat) (l : List Nat) :
    (slabLocks outer).Takes (lockPolicy R) A P (flushSlabs c l) := by
  induction l with
  | nil => exact Takes.pure ()
  | cons s ss ih =>
      exact Takes.read fun k => Takes.bind (listMoveIf_takes _ c s (fun _ => rfl) fun _ => rfl)
        fun _ => ih

theorem lockCache_apply {c : Nat} {k : Kernel E} (h : (k.caches c).locked = false) :
    (lockCache c : Mem E R Unit) k = .ok () (k.updateCache c (.setLocked true)) [] := by
  rw [lockCache, read_bind_apply, h]
  rfl

/-- A cache with few free objects is left locked. -/
theorem kmemCacheFlush_low {c : Nat} {k : Kernel E} (h : (k.caches c).locked = false)
    (hlow : (k.caches c).free < (k.caches c).high) :
    (kmemCacheFlush (some c) : Mem E R Unit) k
      = .ok () (k.updateCache c (.setLocked true)) [] := by
  have hcond : ((k.updateCache c (.setLocked true)).caches c).free
      < ((k.updateCache c (.setLocked true)).caches c).high := by
    rw [updateCache_self]
    exact hlow
  rw [kmemCacheFlush, bind_ok (lockCache_apply h), Outcome.after_nil, read_bind_apply, if_pos hcond,
    pure_apply]

/-- **`kmem_cache_flush`** of a cache with enough free objects. -/
theorem kmemCacheFlush_takesAt {c : Nat} {k : Kernel E}
    (hhigh : (k.caches c).high ≤ (k.caches c).free) :
    (slabLocks outer).TakesAt (lockPolicy R) {.cache c} (kmemCacheFlush (some c)) k := by
  intro hfree
  have hnot : (slabLocks outer).held k (.cache c) = false := hfree _ rfl
  have hcond : ¬((k.updateCache c (.setLocked true)).caches c).free
      < ((k.updateCache c (.setLocked true)).caches c).high := by
    rw [updateCache_self]
    exact Nat.not_lt.mpr hhigh
  rw [kmemCacheFlush, bind_ok (lockCache_apply hnot), Outcome.after_nil, read_bind_apply,
    if_neg hcond]
  have hgives : (slabLocks outer).Gives (lockPolicy R) (.cache c) {.cache c} (fun _ => True)
      (flushSlabs c ((k.updateCache c (.setLocked true)).caches c).slabsPartial >>= fun _ =>
        unlockCache c) :=
    Gives.quiet (flushSlabs_takes c _) fun _ => Gives.release_last (e := Fault.lock)
  have hheld : (slabLocks outer).held ((slabLocks outer).set k (.cache c) true) (.cache c) = true :=
    (slabLocks outer).held_set_self k (.cache c) true
  exact (hgives _ trivial hheld fun l hl hne => absurd hl hne).mono fun _ _ => Given.of_set hnot

end NoobKernel.Mm
