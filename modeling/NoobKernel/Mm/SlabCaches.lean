import NoobKernel.Mm.HeapInv

set_option autoImplicit false

/-! # The slab caches as a system

All caches of the kernel with what their users hold. `kmem_cache_alloc` and `kmem_cache_init` call
`buddy_alloc` in the middle, which comes back to the caches for its own records. A call is therefore
cut in two there (`kmemCacheAlloc_grows`): it waits on a stack until `buddy_alloc` returns, and any
calls come in between.
-/

namespace NoobKernel.Mm

open Misc Exec

variable {E R : Type}

/-! ## The calls around `buddy_alloc` -/

/-- `kmem_cache_alloc_nolock` calls `buddy_alloc` for a slab. -/
def KmemCache.grows (kmem : KmemCache) : Bool :=
  !kmem.expanding && decide (kmem.free < kmem.low) && kmem.slabsFree.isEmpty

/-- The lock of a cache is taken unless it is held; `true` if it has been taken. -/
def enterCache (c : Nat) : Mem E R Bool := do
  let k ← read
  if (k.caches c).locked then pure false
  else do
    lockCache c
    pure true

def leaveCache (taken : Bool) (c : Nat) : Mem E R Unit :=
  if taken then unlockCache c else pure ()

section

variable (warnf : Mem E R Unit)

/-- `kmem_cache_alloc_nolock` after `buddy_alloc` has returned `s`. -/
def kmemCacheGrown (c s : Nat) : Mem E R Nat := do
  setExpanding c false
  if s = 0 then do
    let k ← read
    if 0 < (k.caches c).free then kmemCacheTake warnf c
    else do
      warnf
      pure 0
  else do
    slabInit c s
    countSlab c s
    kmemCacheTake warnf c

/-- `kmem_cache_alloc` after `buddy_alloc` has returned `s`. -/
def kmemCacheAllocGrown (c : Nat) (taken : Bool) (s : Nat) : Mem E R Nat := do
  let mem ← kmemCacheGrown warnf c s
  leaveCache taken c
  pure mem

/-- `kmem_cache_init` after `buddy_alloc` has returned `s`. -/
def kmemCacheInitGrown (c s : Nat) : Mem E R Int :=
  if s = 0 then pure (-ENOMEM)
  else do
    slabInit c s
    countSlab c s
    pure 0

end

section

variable {k : Kernel E} {c : Nat} {ops : MetaOps E R} {warnf : Mem E R Unit}

theorem KmemCache.grows_iff {kmem : KmemCache} : kmem.grows = true
    ↔ (kmem.expanding = false ∧ kmem.free < kmem.low) ∧ kmem.slabsFree = [] := by
  rw [grows, Bool.and_eq_true, Bool.and_eq_true, Bool.not_eq_true', decide_eq_true_iff,
    List.isEmpty_iff]

theorem kmemCacheAllocNolock_grows (hgrows : (k.caches c).grows = true) :
    kmemCacheAllocNolock warnf ops c k = (do
      setExpanding c true
      let s ← buddyAlloc ops SLAB_BLOB_SIZE
      kmemCacheGrown warnf c s : Mem E R Nat) k := by
  obtain ⟨hlow, hparked⟩ := KmemCache.grows_iff.mp hgrows
  rw [kmemCacheAllocNolock, read_bind_apply, if_pos hlow, kmemCacheRefill, bind_assoc,
    read_bind_apply, hparked]
  simp only [bind_assoc]
  refine congrFun (bind_congr fun _ => bind_congr fun s => ?_) k
  rw [kmemCacheGrown]
  refine bind_congr fun _ => ?_
  split
  · rw [bind_assoc]
    funext k'
    rw [read_bind_apply, read_bind_apply]
    split
    · rw [pure_bind, if_pos rfl]
    · rw [bind_assoc]
      rfl
  · simp only [bind_assoc, pure_bind, if_pos]

theorem enterCache_held (h : (k.caches c).locked = true) :
    (enterCache c : Mem E R Bool) k = .ok false k [] := by
  rw [enterCache, read_bind_apply, if_pos h, pure_apply]

theorem enterCache_free (h : (k.caches c).locked = false) :
    (enterCache c : Mem E R Bool) k = .ok true (k.updateCache c (.setLocked true)) [] := by
  rw [enterCache, read_bind_apply, if_neg (by rw [h]; decide), bind_ok (lockCache_apply h),
    Outcome.after_nil, pure_apply]

/-- **`kmem_cache_alloc`** is cut in two at the call of `buddy_alloc`. -/
theorem kmemCacheAlloc_grows (hgrows : (k.caches c).grows = true) :
    kmemCacheAlloc warnf ops (some c) k = (do
      let taken ← enterCache c
      setExpanding c true
      let s ← buddyAlloc ops SLAB_BLOB_SIZE
      kmemCacheAllocGrown warnf c taken s : Mem E R Nat) k := by
  rw [kmemCacheAlloc, read_bind_apply]
  cases hlocked : (k.caches c).locked with
  | true =>
      rw [if_pos rfl, kmemCacheAllocNolock_grows hgrows, bind_ok (enterCache_held hlocked),
        Outcome.after_nil]
      refine congrFun (bind_congr fun _ => bind_congr fun s => ?_) k
      rw [kmemCacheAllocGrown]
      simp only [leaveCache, if_neg Bool.false_ne_true, pure_bind, bind_pure]
  | false =>
      have hlock : ((k.updateCache c (.setLocked true)).caches c).grows = true := by
        rw [Kernel.updateCache]
        simp only [Function.update_self]
        exact hgrows
      rw [if_neg Bool.false_ne_true, bind_ok (lockCache_apply hlocked), Outcome.after_nil,
        bind_ok (enterCache_free hlocked), Outcome.after_nil,
        bind_congr_apply (kmemCacheAllocNolock_grows hlock)]
      simp only [bind_assoc]
      rfl

end

/-! ## The system -/

/-- A call that waits for `buddy_alloc`. -/
inductive Pending
  | init (c : Nat)
  /-- `taken`: it has taken the lock of the cache -/
  | alloc (c : Nat) (taken : Bool)
  deriving DecidableEq

/-- The caches and what their users hold. -/
structure Caches (E : Type) where
  kernel : Kernel E
  /-- `obj_size` of the caches that have been initialised -/
  size : Nat → Option Nat
  /-- caches and addresses of the slabs that have been initialised -/
  blobs : List (Nat × Nat)
  /-- the objects that have been handed out and not been freed -/
  live : List Nat
  /-- the innermost call comes first -/
  pending : List Pending

namespace Caches

/-- A part of a function of the memory manager. -/
def run {α : Type} (x : Mem E R α) : Exec (Caches E) R Fault α :=
  zoom Caches.kernel (fun k h => { h with kernel := k }) x

/-- A user gets an object. -/
def give (mem : Nat) (h : Caches E) : Caches E :=
  if mem = 0 then h else { h with live := mem :: h.live }

def drop (mem : Nat) (h : Caches E) : Caches E := { h with live := h.live.erase mem }

def wait (p : Pending) (h : Caches E) : Caches E := { h with pending := p :: h.pending }

/-- The innermost call goes on, with a slab for the cache `c` unless `s` is `NULL`. -/
def resume (c s : Nat) (h : Caches E) : Caches E :=
  { h with
    pending := h.pending.tail
    blobs := if s = 0 then h.blobs else (c, s) :: h.blobs }

/-- The slabs of the cache `c`. -/
def slabsOf (h : Caches E) (c : Nat) : List Nat := (h.blobs.filter fun b => b.1 = c).map Prod.snd

/-- A block that `buddy_alloc` may return for a slab: in the memory, aligned to its size, and no
slab already. -/
structure Blob (h : Caches E) (s : Nat) : Prop where
  aligned : SLAB_BLOB_SIZE ∣ s
  start_le : PM_START ≤ s
  le_end : s + SLAB_BLOB_SIZE ≤ PM_END
  fresh : s ∉ h.blobs.map Prod.snd

instance (h : Caches E) (s : Nat) : Decidable (h.Blob s) :=
  decidable_of_iff (SLAB_BLOB_SIZE ∣ s ∧ PM_START ≤ s ∧ s + SLAB_BLOB_SIZE ≤ PM_END
      ∧ s ∉ h.blobs.map Prod.snd)
    ⟨fun b => ⟨b.1, b.2.1, b.2.2.1, b.2.2.2⟩, fun b => ⟨b.aligned, b.start_le, b.le_end, b.fresh⟩⟩

end Caches

inductive CacheCall
  | init (c size : Nat) (withInitialAlloc : Bool)
  | alloc (c : Nat)
  /-- `buddy_alloc` returns to the innermost call that waits for it -/
  | grown (s : Nat)
  | free (addr : Nat)
  | flush (c : Nat)

namespace CacheCall

/-- A cache is initialised once and before it is used, and only live objects are freed. -/
def Allowed (h : Caches E) : CacheCall → Prop
  | .init c _ withInitialAlloc =>
      h.size c = none ∧ (withInitialAlloc = true → h.kernel.buddyInited = true)
  | .alloc c => h.size c ≠ none
  | .grown s => h.pending ≠ [] ∧ (s = 0 ∨ h.Blob s)
  | .free addr => addr ∈ h.live
  | .flush c => h.size c ≠ none

instance (h : Caches E) : (call : CacheCall) → Decidable (call.Allowed h)
  | .init _ _ _ => inferInstanceAs (Decidable (_ ∧ _))
  | .alloc _ => inferInstanceAs (Decidable (_ ≠ _))
  | .grown _ => inferInstanceAs (Decidable (_ ∧ _))
  | .free _ => inferInstanceAs (Decidable (_ ∈ _))
  | .flush _ => inferInstanceAs (Decidable (_ ≠ _))

variable (ops : MetaOps E R)

def exec : CacheCall → Exec (Caches E) R Fault Unit
  | .init c size withInitialAlloc => do
      modify fun h => { h with size := Function.update h.size c (some size) }
      Caches.run (modify fun k => k.updateCache c fun _ => kmemCacheInit size)
      if withInitialAlloc = false then pure ()
      else do
        let h ← read
        if h.kernel.buddyInited = false then fault .buddyNotInited
        else modify (Caches.wait (.init c))
  | .alloc c => do
      let h ← read
      if (h.kernel.caches c).grows then do
        let taken ← Caches.run (enterCache c)
        Caches.run (setExpanding c true)
        modify (Caches.wait (.alloc c taken))
      else do
        let mem ← Caches.run (kmemCacheAlloc quiet ops (some c))
        modify (Caches.give mem)
  | .grown s => do
      let h ← read
      match h.pending with
      | [] => pure ()
      | .init c :: _ => do
          let _ ← Caches.run (kmemCacheInitGrown c s)
          modify (Caches.resume c s)
      | .alloc c taken :: _ => do
          let mem ← Caches.run (kmemCacheAllocGrown quiet c taken s)
          modify fun h => (h.resume c s).give mem
  | .free addr => do
      Caches.run (kmemCacheFree quiet addr)
      modify (Caches.drop addr)
  | .flush c => Caches.run (kmemCacheFlush (some c))

end CacheCall

/-- **The states of the caches** in runs whose calls are also `ok`. Between two calls the rest of
the kernel, the buddy system above all, changes what is its own. -/
inductive CacheRun (ops : MetaOps E R) (ok : Caches E → CacheCall → Prop) : Caches E → Prop
  | boot (k : Kernel E) : CacheRun ops ok ⟨k, fun _ => none, [], [], []⟩
  | step {h h' : Caches E} {call : CacheCall} {log : List R} (before : CacheRun ops ok h)
      (allowed : call.Allowed h) (also : ok h call) (run : call.exec ops h = .ok () h' log) :
      CacheRun ops ok h'
  | other {h : Caches E} {k : Kernel E} (before : CacheRun ops ok h)
      (caches : k.caches = h.kernel.caches) (slabs : k.slabs = h.kernel.slabs) :
      CacheRun ops ok { h with kernel := k }

/-! ## The invariant -/

namespace Pending

def cache : Pending → Nat
  | .init c => c
  | .alloc c _ => c

/-- The lock that the call has taken. -/
def lock : Pending → Option Nat
  | .init _ => none
  | .alloc c taken => if taken then some c else none

theorem cache_of_lock {p : Pending} {c : Nat} (h : p.lock = some c) : p.cache = c := by
  cases p with
  | init c' => cases h
  | alloc c' taken =>
      rw [lock] at h
      split at h
      · exact Option.some.inj h
      · cases h

end Pending

namespace Caches

/-- An object of an initialised cache that is not free. -/
def ObjectInUse (h : Caches E) (x : Nat) : Prop :=
  ∃ c size, h.size c = some size ∧ InUse size (h.kernel.caches c) h.kernel.slabs x

/-- The initialised caches are as they should be, with all slabs that have been made. -/
structure Stocked (h : Caches E) : Prop where
  usable : ∀ c size, h.size c = some size → Usable size
  cache : ∀ c size, h.size c = some size → CacheOk size c (h.kernel.caches c) h.kernel.slabs
  made : ∀ c size, h.size c = some size → (h.kernel.caches c).slabs.Perm (h.slabsOf c)
  owner : ∀ b ∈ h.blobs, h.size b.1 ≠ none
  region : ∀ b ∈ h.blobs, PM_START ≤ b.2 ∧ b.2 + SLAB_BLOB_SIZE ≤ PM_END

/-- **The invariant of the caches.** Their users hold the objects that are not free, each once. -/
structure Served (h : Caches E) : Prop extends Stocked h where
  live : ∀ x, x ∈ h.live ↔ h.ObjectInUse x
  nodup : h.live.Nodup

/-- **The invariant of the calls that wait.** The locks they have taken are held. -/
structure Waiting (h : Caches E) : Prop where
  known : ∀ p ∈ h.pending, h.size p.cache ≠ none
  once : (h.pending.filterMap Pending.lock).Nodup
  held : ∀ c ∈ h.pending.filterMap Pending.lock, (h.kernel.caches c).locked = true

theorem mem_slabsOf {h : Caches E} {c s : Nat} : s ∈ h.slabsOf c ↔ (c, s) ∈ h.blobs := by
  rw [slabsOf, List.mem_map]
  constructor
  · rintro ⟨⟨c', s'⟩, hmem, rfl⟩
    obtain ⟨hmem, hc⟩ := List.mem_filter.mp hmem
    rw [← of_decide_eq_true hc]
    exact hmem
  · exact fun hmem => ⟨(c, s), List.mem_filter.mpr ⟨hmem, decide_eq_true rfl⟩, rfl⟩

namespace Stocked

variable {h : Caches E} {c c' s s' i size size' x : Nat}

theorem mem_blobs (st : Stocked h) (hsize : h.size c = some size)
    (hs : s ∈ (h.kernel.caches c).slabs) : (c, s) ∈ h.blobs :=
  mem_slabsOf.mp ((st.made c size hsize).mem_iff.mp hs)

/-- A slab has one cache. -/
theorem owner_unique (st : Stocked h) (hsize : h.size c = some size)
    (hsize' : h.size c' = some size') (hs : s ∈ (h.kernel.caches c).slabs)
    (hs' : s ∈ (h.kernel.caches c').slabs) : c = c' :=
  ((st.cache c size hsize).slab s hs).kmem.symm.trans ((st.cache c' size' hsize').slab s hs').kmem

theorem slab_ne (st : Stocked h) (hsize : h.size c = some size)
    (hs : s ∈ (h.kernel.caches c).slabs) (hsize' : h.size c' = some size') (hne : c' ≠ c)
    (hs' : s' ∈ (h.kernel.caches c').slabs) : s' ≠ s := by
  rintro rfl
  exact hne (st.owner_unique hsize' hsize hs' hs)

theorem object_lt (st : Stocked h) (hsize : h.size c = some size)
    (hs : s ∈ (h.kernel.caches c).slabs) (hi : i < slabCapacity size) :
    PM_START ≤ objectAt size s i ∧ objectAt size s i < PM_END := by
  have hregion := st.region _ (st.mem_blobs hsize hs)
  have hmem := (st.usable c size hsize).object_mem (s := s) hi
  exact ⟨hregion.1.trans hmem.1, Nat.lt_of_lt_of_le hmem.2 hregion.2⟩

/-- The object `i` of the slab `s` is in use exactly when its bit is set. -/
theorem object_iff (st : Stocked h) (hsize : h.size c = some size)
    (hs : s ∈ (h.kernel.caches c).slabs) (hi : i < slabCapacity size) :
    h.ObjectInUse (objectAt size s i) ↔ (h.kernel.slabs s).bm.bit i = true := by
  refine ⟨fun huse => ?_, fun hbit => ⟨c, size, hsize, s, hs, i, hi, rfl, hbit⟩⟩
  obtain ⟨c', size', hsize', s', hs', i', hi', heq, hbit⟩ := huse
  have hmem := (st.usable c size hsize).object_mem (s := s) hi
  have hmem' := (st.usable c' size' hsize').object_mem (s := s') hi'
  rw [← heq] at hmem'
  obtain rfl := HeapOk.blob_eq_of_mem ((st.cache c size hsize).aligned s hs)
    ((st.cache c' size' hsize').aligned s' hs') hmem hmem'
  obtain rfl := st.owner_unique hsize hsize' hs hs'
  obtain rfl := Option.some.inj (hsize.symm.trans hsize')
  rw [(st.usable c size hsize).objectAt_inj heq]
  exact hbit

end Stocked

end Caches

end NoobKernel.Mm
