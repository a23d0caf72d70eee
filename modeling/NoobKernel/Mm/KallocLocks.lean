import NoobKernel.Mm.BuddyLocks

set_option autoImplicit false

/-! # Locks of `kmalloc` and `kfree`

The allocators call each other: a cache that is short of objects takes a blob from the buddy system,
which takes its `mem_block`s from a cache. The flag `expanding` ends this: while the cache of the
`mem_block`s is being expanded, it serves them from what it has. So two levels of `memOps` are
enough, and no lock is taken twice, as the allocators look whether they hold theirs already.
-/

namespace NoobKernel.Mm

open Misc Exec Locking

variable {E R L : Type} {outer : Locking E L Unit} {A : Set (MemLock L)}
  {P P' : (Nat → Bool) → Prop} {ops : MetaOps E R} {lay : Layout} {warnf : Mem E R Unit}
  {α β : Type}

/-- No lock of the memory manager itself is in the set. -/
structure Outside (A : Set (MemLock L)) : Prop where
  buddy : .buddy ∉ A
  cache : ∀ c, .cache c ∉ A

/-- From no state at all. -/
theorem opsTake_never : OpsTake outer A (fun _ => False) ops :=
  ⟨fun _ _ h => h.elim, fun _ _ h => h.elim⟩

/-! ## Expanding a cache -/

theorem cacheUpdate_takes (c : Nat) {f : Kernel E → KmemCache → KmemCache}
    (hlocked : ∀ k kmem, (f k kmem).locked = kmem.locked)
    (hexp : ∀ k kmem, (f k kmem).expanding = kmem.expanding) :
    (memLocks outer).Takes (lockPolicy R) A P (modify fun k => k.updateCache c (f k)) :=
  (updateCache_takes c hlocked hexp).coarsen

theorem slabInitPages_takes (n p : Nat) :
    (memLocks outer).Takes (lockPolicy R) A P (slabInitPages n p) := by
  induction n generalizing p with
  | zero => exact Takes.pure ()
  | succ n ih => exact Takes.bind (modifyPage_takes _ _) fun _ => ih _

theorem slabInit_takes (c blob : Nat) :
    (memLocks outer).Takes (lockPolicy R) A P (slabInit c blob) := by
  refine Takes.bind (slabInitPages_takes _ _) fun _ => ?_
  refine Takes.bind (updateSlab_takes blob).coarsen fun _ => ?_
  exact cacheUpdate_takes c (fun _ _ => rfl) fun _ _ => rfl

theorem countSlab_takes (c s : Nat) :
    (memLocks outer).Takes (lockPolicy R) A P (countSlab c s) :=
  cacheUpdate_takes c (fun _ _ => rfl) fun _ _ => rfl

theorem held_setExpanding (k : Kernel E) (c : Nat) (b : Bool) (l : MemLock L) :
    (memLocks outer).held (k.updateCache c (.setExpanding b)) l = (memLocks outer).held k l := by
  cases l with
  | buddy => rfl
  | cache c' => exact updateCache_field (f := .setExpanding b) (g := KmemCache.locked) (fun _ => rfl) k c c'
  | outer l => rfl

theorem frame_setExpanding (k : Kernel E) (c : Nat) (b : Bool) :
    (memLocks outer).frame (k.updateCache c (.setExpanding b))
      = Function.update ((memLocks outer).frame k) c b := by
  funext c'
  show ((k.updateCache c (.setExpanding b)).caches c').expanding = _
  by_cases heq : c' = c
  · rw [heq, updateCache_self, Function.update_self]
    rfl
  · rw [updateCache_of_ne k _ heq, Function.update_of_ne heq]
    rfl

/-- **A call that is made while a cache is being expanded.** -/
theorem expanding_takesAt {x : Mem E R α} {f : α → Mem E R β} {c : Nat} {k : Kernel E}
    (hx : (memLocks outer).Takes (lockPolicy R) A P' x)
    (hf : ∀ a, (memLocks outer).Takes (lockPolicy R) A P (f a)) (hP : P ((memLocks outer).frame k))
    (hP' : P' (Function.update ((memLocks outer).frame k) c true))
    (hexp : (k.caches c).expanding = false) :
    (memLocks outer).TakesAt (lockPolicy R) A
      (setExpanding c true >>= fun _ => x >>= fun a => setExpanding c false >>= fun _ => f a) k := by
  intro hfree
  unfold setExpanding
  rw [modify_bind_apply]
  generalize hk₁ : k.updateCache c (.setExpanding true) = k₁
  have hheld₁ : ∀ l, (memLocks outer).held k₁ l = (memLocks outer).held k l := fun l =>
    hk₁ ▸ held_setExpanding k c true l
  have hframe₁ : (memLocks outer).frame k₁ = Function.update ((memLocks outer).frame k) c true :=
    hk₁ ▸ frame_setExpanding k c true
  refine Yields.bind (hx k₁ (hframe₁ ▸ hP') fun l hl => (hheld₁ l).trans (hfree l hl)) ?_
  intro a k₂ hsame
  rw [modify_bind_apply]
  -- the flag is as before, so nothing that is followed has changed
  have hback : (memLocks outer).Same k (k₂.updateCache c (.setExpanding false)) := by
    refine ⟨fun l => ?_, ?_⟩
    · rw [held_setExpanding, hsame.held, hheld₁]
    · rw [frame_setExpanding, hsame.frame, hframe₁, Function.update_idem]
      exact Function.update_eq_self_iff.mpr hexp.symm
  have hrest := hf a _ (hback.frame ▸ hP) fun l hl => (hback.held l).trans (hfree l hl)
  exact hrest.mono fun _ _ h => hback.trans h

section

variable (hA : Outside A)
  (hwarn : (slabLocks outer).Takes (lockPolicy R) A (fun _ => True) warnf)

include hA hwarn

theorem kmemCacheRefill_takesAt {c : Nat} {k : Kernel E} (hops : OpsTake outer A P' ops)
    (hP : P ((memLocks outer).frame k))
    (hP' : P' (Function.update ((memLocks outer).frame k) c true))
    (hexp : (k.caches c).expanding = false) :
    (memLocks outer).TakesAt (lockPolicy R) A (kmemCacheRefill warnf ops c) k := by
  unfold kmemCacheRefill
  rw [TakesAt, read_bind_apply]
  cases hs : (k.caches c).slabsFree with
  | cons s ss =>
      have hmove : (memLocks outer).Takes (lockPolicy R) A P
          (listMove c s .addPartial >>= fun _ => countSlab c s >>= fun _ => pure true) :=
        Takes.bind (listMove_takes c s (fun _ => rfl) fun _ => rfl).coarsen fun _ =>
          Takes.bind (countSlab_takes c s) fun _ => Takes.pure true
      exact hmove k hP
  | nil =>
      refine expanding_takesAt (buddyAlloc_takes hops hA.buddy _) (fun s => ?_) hP hP' hexp
      split
      · refine Takes.read fun k => ?_
        split
        · exact Takes.pure true
        · exact Takes.bind (warnf_takes hwarn).coarsen fun _ => Takes.pure false
      · exact Takes.bind (slabInit_takes c s) fun _ => Takes.bind (countSlab_takes c s) fun _ =>
          Takes.pure true

omit hA in
theorem kmemCacheTake_takes (c : Nat) :
    (memLocks outer).Takes (lockPolicy R) A P (kmemCacheTake warnf c) := by
  refine Takes.read fun k => ?_
  split
  · exact Takes.bind (warnf_takes hwarn).coarsen fun _ => Takes.pure 0
  · refine Takes.bind (firstEntry_takes _).coarsen fun s => ?_
    refine Takes.bind (slabAlloc_takes s).coarsen fun mem => ?_
    exact Takes.bind (cacheUpdate_takes c (fun _ _ => rfl) fun _ _ => rfl) fun _ =>
      Takes.pure mem

/-- **`kmem_cache_alloc_nolock`**; `P'` holds while the cache is being expanded. -/
theorem kmemCacheAllocNolock_takes (c : Nat) (hops : OpsTake outer A P' ops)
    (hP : ∀ f, P f → f c = false → P' (Function.update f c true)) :
    (memLocks outer).Takes (lockPolicy R) A P (kmemCacheAllocNolock warnf ops c) := by
  refine Takes.read_at fun k hk => ?_
  split
  · rename_i hshort
    refine TakesAt.bind (kmemCacheRefill_takesAt hA hwarn hops hk (hP _ hk hshort.1) hshort.1) hk
      fun refilled => ?_
    split
    · exact kmemCacheTake_takes hwarn c
    · exact Takes.pure 0
  · exact kmemCacheTake_takes hwarn c k hk

/-- **`kmem_cache_alloc`** takes the lock of the cache unless it is held already. -/
theorem kmemCacheAlloc_takes (kmem : Option Nat) (hops : OpsTake outer A P' ops)
    (hP : ∀ c ∈ kmem, ∀ f, P f → f c = false → P' (Function.update f c true)) :
    (memLocks outer).Takes (lockPolicy R) A P (kmemCacheAlloc warnf ops kmem) := by
  cases kmem with
  | none => exact Takes.fault (by simp [lockPolicy])
  | some c =>
      have hinner := kmemCacheAllocNolock_takes hA hwarn c hops (hP c rfl)
      exact Takes.holding (e := Fault.lock) hinner
        (Gives.bind hinner (hA.cache c) (Set.Subset.refl A) fun mem =>
          Gives.release (f := fun _ => pure mem) (Takes.pure mem))

/-! ## `mem_block`s -/

/-- The cache of the `mem_block`s is being expanded. -/
def Expanding (f : Nat → Bool) : Prop := f memBlockPool = true

theorem allocMemBlock_takes (hops : OpsTake outer A P' ops)
    (hP : ∀ f, P f → f memBlockPool = false → P' (Function.update f memBlockPool true)) :
    (memLocks outer).Takes (lockPolicy R) A P (allocMemBlock lay warnf ops) := by
  refine Takes.read fun k => ?_
  split
  · rw [kmalloc, if_neg (by decide), if_pos (by decide)]
    refine kmemCacheAlloc_takes hA hwarn _ hops fun c hc => ?_
    have heq : c = memBlockPool := (Option.mem_some_iff.mp hc).symm
    rw [heq]
    exact hP
  · refine Takes.read fun k => ?_
    split
    · exact Takes.fault (by simp [lockPolicy])
    · split
      · exact Takes.fault (by simp [lockPolicy])
      · exact Takes.bind (modify_takes fun _ => ⟨rfl, rfl, rfl⟩) fun _ => Takes.pure _

/-- **`free_mem_block`** does not come to `buddy_free`, whose lock may be held. -/
theorem freeMemBlock_takes {P : MemFrame → Prop} (p : Nat) :
    (slabLocks outer).Takes (lockPolicy R) A P (freeMemBlock lay warnf ops p) := by
  refine Takes.read_at fun k hk => ?_
  split
  · exact Takes.pure () k hk
  · split
    · exact Takes.fault (by simp [lockPolicy]) k hk
    · rename_i hin
      unfold kfree
      rw [TakesAt, read_bind_apply]
      unfold Kernel.outsideSlabs at hin
      cases hindex : addr2index (ALIGN_DOWN p PAGE_SIZE) with
      | none => exact warnf_takes hwarn k hk
      | some i =>
          dsimp only
          split
          · exact warnf_takes hwarn k hk
          · split
            · exact kmemCacheFree_takes hwarn hA.cache p k hk
            · rename_i hbuddy hslab
              simp [hindex, not_not.mp hslab] at hin
              exact absurd hin hbuddy

/-- While the cache of the `mem_block`s is being expanded, it does not call the buddy system. -/
theorem opsTake_expanding (d : Nat) : OpsTake outer A Expanding (memOps lay warnf (d + 1)) where
  alloc _ := allocMemBlock_takes hA hwarn opsTake_never fun f hexp hnot => by
    rw [Expanding, hnot] at hexp
    cases hexp
  free p := freeMemBlock_takes hA hwarn p

/-- **The nesting is two levels deep.** -/
theorem opsTake (d : Nat) : OpsTake outer A (fun _ => True) (memOps lay warnf (d + 2)) where
  alloc _ := allocMemBlock_takes hA hwarn (opsTake_expanding hA hwarn d) fun f _ _ => by
      rw [Expanding, Function.update_self]
  free p := freeMemBlock_takes hA hwarn p

theorem kmalloc_takes (hops : OpsTake outer A (fun _ => True) ops) (size : Nat) :
    (memLocks outer).Takes (lockPolicy R) A (fun _ => True) (kmalloc warnf ops size) := by
  unfold kmalloc
  split_ifs
  · exact Takes.pure 0
  · exact kmemCacheAlloc_takes hA hwarn _ hops fun _ _ _ _ _ => trivial
  · exact buddyAlloc_takes hops hA.buddy size
  · exact Takes.pure 0

/-- **`kfree`** may come to `buddy_free`. -/
theorem kfree_takes (hops : OpsTake outer A (fun _ => True) ops) (addr : Nat) :
    (memLocks outer).Takes (lockPolicy R) (insert .buddy A) (fun _ => True)
      (kfree warnf ops addr) := by
  have hsub : A ⊆ insert .buddy A := Set.subset_insert _ A
  refine Takes.read fun k => ?_
  cases addr2index (ALIGN_DOWN addr PAGE_SIZE) with
  | none => exact hwarn.coarsen.mono hsub
  | some i =>
      dsimp only
      split
      · exact hwarn.coarsen.mono hsub
      · split
        · exact (kmemCacheFree_takes hwarn hA.cache addr).coarsen.mono hsub
        · exact buddyFree_takes hops addr

end

end NoobKernel.Mm
