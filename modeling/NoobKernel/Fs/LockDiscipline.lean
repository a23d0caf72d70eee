import NoobKernel.Fs.Locked

set_option autoImplicit false

/-! # Lock discipline of the object caches

For each function of `Locked.lean`, the locks it may take: `TakesOnly A` says that from any state
in which none of the locks `A` is held it acquires no lock twice, and returns with the locks as
they were. What is called under a lock must not take it: the allocators (`memSet`) under the locks
of the caches, and everything but the descriptor tables (`noTable`) under the one of a descriptor
table.
-/

namespace NoobKernel.Fs.Locked

open Misc Exec Mm Locking

variable {D R α : Type} {lay : Layout} {ops : Operations D R} {A : Set (MemLock FsLock)}

abbrev TakesOnly (A : Set (MemLock FsLock)) (x : FsM D R α) : Prop :=
  (locks D).Takes (lockPolicy R) A (fun _ => True) x

/-- The same for a program that starts with the lock `l` held and gives it back. -/
abbrev GivesBack (l : FsLock) (A : Set (MemLock FsLock)) (x : FsM D R α) : Prop :=
  (locks D).Gives (lockPolicy R) (.outer l) A (fun _ => True) x

def printfSet : Set (MemLock FsLock) := {.outer .printf}

/-- What the allocators take. -/
def memSet : Set (MemLock FsLock) := insert .buddy printfSet

/-- All locks but those of descriptor tables. -/
def noTable : Set (MemLock FsLock) := {l | ∀ t, l ≠ .outer (.fdTable t)}

theorem outer_mem_noTable {l : FsLock} (h : ∀ t, l ≠ .fdTable t) :
    (.outer l : MemLock FsLock) ∈ noTable := fun t heq => h t (MemLock.outer.inj heq)

/-- A call that takes other locks than those of descriptor tables, under none. -/
theorem TakesOnly.call {x : FsM D R α} (h : TakesOnly noTable x) : TakesOnly Set.univ x :=
  h.mono (Set.subset_univ _)

theorem memSet_subset : memSet ⊆ noTable := by
  rintro l (rfl | rfl) t heq
  · cases heq
  · cases heq

theorem not_mem_memSet {l : FsLock} (h : l ≠ .printf) : (.outer l : MemLock FsLock) ∉ memSet := by
  rintro (heq | heq)
  · cases heq
  · exact h (MemLock.outer.inj heq)

/-! ## Steps -/

theorem modifyExt_takes {g : FsState D → FsState D} (h : ∀ s, (g s).locked = s.locked) :
    TakesOnly (R := R) A (modify fun k => { k with ext := g k.ext }) := by
  refine Takes.modify fun k => ⟨fun l => ?_, rfl⟩
  cases l with
  | buddy => rfl
  | cache c => rfl
  | outer l => exact congrFun (h k.ext) l

theorem modifyInodes_takes (f : Icache → Icache) : TakesOnly (D := D) (R := R) A (modifyInodes f) :=
  modifyExt_takes (g := fun s => { s with ic := f s.ic }) fun _ => rfl

theorem modifyDentries_takes (f : Dcache → Dcache) :
    TakesOnly (D := D) (R := R) A (modifyDentries f) :=
  modifyExt_takes (g := fun s => { s with dc := f s.dc }) fun _ => rfl

theorem modifyFiles_takes (f : Files → Files) : TakesOnly (D := D) (R := R) A (modifyFiles f) :=
  modifyExt_takes (g := fun s => { s with files := f s.files }) fun _ => rfl

theorem modifyFdTable_takes (t : Addr) (f : FdTable → FdTable) :
    TakesOnly (D := D) (R := R) A (modifyFdTable t f) :=
  modifyExt_takes (g := fun s => { s with fdt := Function.update s.fdt t (f (s.fdt t)) })
    fun _ => rfl

theorem modifyTable_takes (t : Table) (f : Hashtable → Hashtable) :
    TakesOnly (D := D) (R := R) A (modifyTable t f) :=
  modifyExt_takes (g := fun s => s.setHt t (f (s.ht t))) fun s => by cases t <;> rfl

theorem callback_takes (callback : Callback D R α) : TakesOnly A callback.run :=
  callback.quiet.mono (Set.empty_subset A)

theorem runOption_takes (callback : Option (Callback D R α)) : TakesOnly A (runOption callback) := by
  cases callback with
  | none => exact Takes.pure ()
  | some callback => exact Takes.bind (callback_takes callback) fun _ => Takes.pure ()

/-- A section: `f` gives the lock back. -/
theorem acquire_takes {l : FsLock} {f : Unit → FsM D R α} (hl : .outer l ∈ A)
    (h : GivesBack l A (f ())) : TakesOnly A (spinlockAcquire l >>= f) :=
  Takes.acquire (e := Fault.lock) hl h

theorem release_gives {l : FsLock} {f : Unit → FsM D R α} (h : TakesOnly A (f ())) :
    GivesBack l A (spinlockRelease l >>= f) :=
  Gives.release (e := Fault.lock) h

theorem release_last {l : FsLock} :
    GivesBack (D := D) (R := R) l A (spinlockRelease l) :=
  Gives.release_last (e := Fault.lock)

/-! ## Memory -/

theorem outside : Outside printfSet where
  buddy h := by cases h
  cache c h := by cases h

theorem warnf_quiet : (slabLocks (fsLocks D)).Takes (lockPolicy R) printfSet (fun _ => True) warnf :=
  Takes.acquire (e := Fault.lock) (l := MemLock.outer FsLock.printf)
    (Set.mem_singleton _) Gives.release_last

theorem memOps_take :
    OpsTake (fsLocks D) printfSet (fun _ => True) (memOps lay : MetaOps (FsState D) R) :=
  opsTake outside warnf_quiet 0

theorem kmalloc_takesOnly (size : Nat) : TakesOnly (D := D) (R := R) memSet (kmalloc lay size) :=
  (kmalloc_takes outside warnf_quiet memOps_take size).mono (Set.subset_insert _ _)

theorem kfree_takesOnly (addr : Addr) : TakesOnly (D := D) (R := R) memSet (kfree lay addr) :=
  kfree_takes outside warnf_quiet memOps_take _

theorem kmemCacheAlloc_takesOnly (kmem : Option Nat) :
    TakesOnly (D := D) (R := R) memSet (kmemCacheAlloc lay kmem) :=
  (kmemCacheAlloc_takes outside warnf_quiet kmem memOps_take fun _ _ _ _ _ => trivial).mono
    (Set.subset_insert _ _)

theorem kmemCacheFree_takesOnly (addr : Addr) :
    TakesOnly (D := D) (R := R) memSet (kmemCacheFree addr) :=
  (kmemCacheFree_takes warnf_quiet outside.cache _).coarsen.mono (Set.subset_insert _ _)

/-! ## Hash tables -/

theorem hashtableInsert_takes (t : Table) (key value : Addr) :
    TakesOnly (D := D) (R := R) memSet (hashtableInsert lay t key value) := by
  refine Takes.read fun k => ?_
  split
  · exact Takes.bind (modifyTable_takes t _) fun _ => Takes.pure 0
  · refine Takes.bind (kmalloc_takesOnly _) fun node => ?_
    split
    · exact Takes.pure _
    · refine Takes.bind (modifyTable_takes t _) fun _ => ?_
      refine Takes.bind (modifyExt_takes (g := fun s => s.setNode t key (UInt64.ofNat node))
        fun _ => rfl) fun _ => ?_
      exact Takes.pure 0

theorem hashtableDelete_takes (t : Table) (key : Addr) :
    TakesOnly (D := D) (R := R) memSet (hashtableDelete lay t key) := by
  refine Takes.read fun k => ?_
  split
  · exact Takes.pure 0
  · exact Takes.bind (modifyTable_takes t _) fun _ => Takes.bind (kfree_takesOnly _) fun _ =>
      Takes.pure _

/-! ## Inodes -/

theorem inodeConstruct_takes (sb inode : Addr) :
    TakesOnly (D := D) (R := R) noTable (inodeConstruct sb inode) := by
  refine Takes.bind (modifyInodes_takes _) fun _ => ?_
  refine Takes.bind ?_ fun _ => Takes.pure inode
  exact Takes.init (l := MemLock.outer (FsLock.inode inode)) (outer_mem_noTable fun t h => nomatch h)

theorem inodeAlloc_takes (sb : Addr) : TakesOnly noTable (inodeAlloc lay ops sb) := by
  unfold inodeAlloc
  split
  · refine Takes.bind (callback_takes _) fun inode => ?_
    split
    · exact Takes.pure inode
    · exact inodeConstruct_takes sb inode
  · refine Takes.bind ((kmemCacheAlloc_takesOnly _).mono memSet_subset) fun inode => ?_
    split
    · exact Takes.pure _
    · exact inodeConstruct_takes sb _

theorem inodeFree_takes (inode : Addr) : TakesOnly noTable (inodeFree lay ops inode) := by
  refine Takes.read fun k => ?_
  split
  · exact Takes.pure ()
  · split
    · exact callback_takes _
    · refine acquire_takes (outer_mem_noTable fun t h => nomatch h) ?_
      refine Gives.bind (hashtableDelete_takes .inodes _) (not_mem_memSet fun h => nomatch h)
        memSet_subset fun _ => ?_
      refine Gives.quiet (modifyInodes_takes _) fun _ => release_gives ?_
      exact Takes.bind (modifyInodes_takes _) fun _ =>
        (kmemCacheFree_takesOnly inode).mono memSet_subset

theorem inodeGetNew_takes (inode : Addr) (ino : UInt64) :
    TakesOnly (D := D) (R := R) noTable (inodeGetNew lay inode ino) := by
  refine Takes.bind (modifyInodes_takes _) fun _ => ?_
  refine acquire_takes (outer_mem_noTable fun t h => nomatch h) ?_
  refine Gives.bind (hashtableInsert_takes .inodes _ _) (not_mem_memSet fun h => nomatch h)
    memSet_subset fun _ => ?_
  exact Gives.quiet (modifyInodes_takes _) fun _ => release_gives (Takes.pure inode)

theorem inodeGet_takes (sb : Addr) (ino : UInt64) :
    TakesOnly noTable (inodeGet lay ops sb ino) := by
  refine acquire_takes (outer_mem_noTable fun t h => nomatch h) (Gives.read fun k => ?_)
  dsimp only
  split
  · exact Gives.quiet (modifyInodes_takes _) fun _ => release_gives (Takes.pure _)
  · refine release_gives (Takes.bind (inodeAlloc_takes sb) fun inode => ?_)
    split_ifs
    · exact Takes.pure inode
    · exact Takes.fault (by simp [lockPolicy])
    · exact inodeGetNew_takes inode ino

theorem inodePutLast_takes (inode : Addr) : TakesOnly noTable (inodePutLast lay ops inode) := by
  refine Takes.read fun k => ?_
  split
  · refine Takes.bind (callback_takes _) fun ret => ?_
    split
    · exact Takes.pure ()
    · exact inodeFree_takes inode
  · exact inodeFree_takes inode

theorem inodePut_takes (inode : Addr) : TakesOnly noTable (inodePut lay ops inode) := by
  unfold inodePut
  split
  · exact Takes.pure ()
  · refine acquire_takes (outer_mem_noTable fun t h => nomatch h) ?_
    refine Gives.quiet (modifyInodes_takes _) fun _ => Gives.read fun k => ?_
    split
    · exact release_gives (inodePutLast_takes inode)
    · exact release_last

theorem inodeDirty_takes (inode : Addr) : TakesOnly noTable (inodeDirty ops inode) := by
  unfold inodeDirty
  split
  · exact Takes.pure ()
  · refine acquire_takes (outer_mem_noTable fun t h => nomatch h) ?_
    refine Gives.quiet (modifyInodes_takes _) fun _ => Gives.read fun k => ?_
    exact Gives.quiet (runOption_takes _) fun _ => release_last

theorem inodeWrite_takes (inode : Addr) : TakesOnly noTable (inodeWrite ops inode) := by
  unfold inodeWrite
  split
  · exact Takes.pure _
  · refine acquire_takes (outer_mem_noTable fun t h => nomatch h) (Gives.read fun k => ?_)
    split
    · exact release_gives (Takes.pure 0)
    · split
      · exact release_gives (Takes.pure _)
      · refine Gives.quiet (callback_takes _) fun ret => ?_
        exact Gives.quiet (modifyInodes_takes _) fun _ => release_gives (Takes.pure ret)

/-! ## Directory entries -/

theorem dentryInsert_takes (dentry : Addr) :
    TakesOnly (D := D) (R := R) noTable (dentryInsert lay dentry) := by
  refine Takes.read fun k => ?_
  split_ifs
  · exact Takes.pure _
  · exact Takes.pure _
  · exact Takes.pure _
  · refine acquire_takes (outer_mem_noTable fun t h => nomatch h) (Gives.read fun k => ?_)
    dsimp only
    split
    · exact release_gives (Takes.pure _)
    · refine Gives.bind (hashtableInsert_takes .dentries _ _) (not_mem_memSet fun h => nomatch h)
        memSet_subset fun _ => ?_
      exact Gives.quiet (modifyDentries_takes _) fun _ => release_gives (Takes.pure 0)

theorem dentryRemove_takes (dentry : Addr) :
    TakesOnly (D := D) (R := R) noTable (dentryRemove lay dentry) := by
  refine acquire_takes (outer_mem_noTable fun t h => nomatch h) (Gives.read fun k => ?_)
  refine Gives.bind (hashtableDelete_takes .dentries _) (not_mem_memSet fun h => nomatch h)
    memSet_subset fun _ => ?_
  exact Gives.quiet (modifyDentries_takes _) fun _ => release_last

theorem dentryUnparent_takes (dentry : Addr) :
    TakesOnly (D := D) (R := R) noTable (dentryUnparent dentry) := by
  refine Takes.read fun k => ?_
  dsimp only
  split
  · exact acquire_takes (outer_mem_noTable fun t h => nomatch h) release_last
  · exact Takes.pure ()

theorem dentryFreeName_takes (dentry : Addr) :
    TakesOnly (D := D) (R := R) noTable (dentryFreeName lay dentry) := by
  refine Takes.read fun k => ?_
  split
  · exact (kfree_takesOnly _).mono memSet_subset
  · exact Takes.pure ()

theorem dentryFree_takes (dentry : Addr) : TakesOnly noTable (dentryFree lay ops dentry) := by
  unfold dentryFree
  split
  · exact Takes.pure ()
  · refine Takes.bind (runOption_takes _) fun _ => Takes.bind (dentryRemove_takes dentry) fun _ => ?_
    refine Takes.bind (dentryUnparent_takes dentry) fun _ => Takes.read fun k => ?_
    refine Takes.bind (inodePut_takes _) fun _ => Takes.bind (dentryFreeName_takes dentry) fun _ => ?_
    exact Takes.bind (modifyDentries_takes _) fun _ =>
      (kmemCacheFree_takesOnly dentry).mono memSet_subset

theorem dentryPut_takes (dentry : Addr) :
    TakesOnly (D := D) (R := R) noTable (dentryPut dentry) := by
  unfold dentryPut
  split
  · exact Takes.pure ()
  · refine acquire_takes (outer_mem_noTable fun t h => nomatch h) ?_
    refine Gives.quiet (modifyDentries_takes _) fun _ => Gives.read fun k => ?_
    split
    · refine release_gives (acquire_takes (outer_mem_noTable fun t h => nomatch h) ?_)
      exact Gives.quiet (modifyDentries_takes _) fun _ => release_last
    · exact release_last

/-! ## Files -/

theorem fileFree_takes (file : Addr) : TakesOnly (D := D) (R := R) noTable (fileFree file) := by
  unfold fileFree
  split
  · exact Takes.pure ()
  · refine acquire_takes (outer_mem_noTable fun t h => nomatch h) ?_
    refine Gives.quiet (modifyFiles_takes _) fun _ => release_gives ?_
    exact Takes.bind (modifyFiles_takes _) fun _ =>
      (kmemCacheFree_takesOnly file).mono memSet_subset

theorem fileCloseLast_takes (file : Addr) : TakesOnly noTable (fileCloseLast ops file) := by
  refine Takes.bind (runOption_takes _) fun _ => Takes.read fun k => ?_
  exact Takes.bind (dentryPut_takes _) fun _ => Takes.bind (fileFree_takes file) fun _ =>
    Takes.pure 0

theorem fileClose_takes (file : Addr) : TakesOnly noTable (fileClose ops file) := by
  unfold fileClose
  split
  · exact Takes.pure _
  · refine acquire_takes (outer_mem_noTable fun t h => nomatch h) ?_
    refine Gives.quiet (modifyFiles_takes _) fun _ => Gives.read fun k => ?_
    split
    · exact release_gives (fileCloseLast_takes file)
    · exact release_gives (Takes.pure 0)

theorem filePut_takes (file : Addr) : TakesOnly noTable (filePut ops file) := by
  unfold filePut
  split
  · exact Takes.pure ()
  · refine acquire_takes (outer_mem_noTable fun t h => nomatch h) ?_
    refine Gives.quiet (modifyFiles_takes _) fun _ => Gives.read fun k => ?_
    split
    · exact release_gives (Takes.bind (fileClose_takes file) fun _ => Takes.pure ())
    · exact release_last

theorem fileRead_takes (file buf : Addr) (count : UInt64) :
    TakesOnly noTable (fileRead ops file buf count) := by
  refine Takes.read fun k => ?_
  split
  · exact Takes.pure _
  · exact Takes.pure _
  · refine acquire_takes (outer_mem_noTable fun t h => nomatch h) (Gives.read fun k => ?_)
    dsimp only
    split
    · exact release_gives (Takes.pure 0)
    · refine Gives.quiet (callback_takes _) fun ret => Gives.read fun k => ?_
      exact Gives.quiet (modifyFiles_takes _) fun _ => release_gives (Takes.pure _)

theorem fileWritten_takes (file : Addr) (pos : Int64) :
    TakesOnly (D := D) (R := R) A (fileWritten file pos) := by
  refine Takes.bind (modifyFiles_takes _) fun _ => Takes.read fun k => ?_
  split
  · exact modifyInodes_takes _
  · exact Takes.pure ()

theorem fileWrite_takes (file buf : Addr) (count : UInt64) :
    TakesOnly noTable (fileWrite ops file buf count) := by
  refine Takes.read fun k => ?_
  split
  · exact Takes.pure _
  · exact Takes.pure _
  · refine acquire_takes (outer_mem_noTable fun t h => nomatch h) (Gives.read fun k => ?_)
    refine Gives.quiet (callback_takes _) fun ret => ?_
    split
    · exact Gives.quiet (fileWritten_takes file _) fun _ => release_gives (Takes.pure _)
    · exact release_gives (Takes.pure _)

theorem fileLseek_takes (file : Addr) (offset : Int64) (whence : Int) :
    TakesOnly noTable (fileLseek ops file offset whence) := by
  refine Takes.read fun k => ?_
  split_ifs
  · exact Takes.pure _
  · exact Takes.pure _
  · exact Takes.pure _
  · refine acquire_takes (outer_mem_noTable fun t h => nomatch h) (Gives.read fun k => ?_)
    split
    · exact release_gives (Takes.pure _)
    · split
      · exact release_gives (Takes.pure _)
      · split
        · exact Gives.quiet (modifyFiles_takes _) fun _ => release_gives (Takes.pure _)
        · refine Gives.quiet (callback_takes _) fun pos => ?_
          split
          · exact release_gives (Takes.pure _)
          · exact Gives.quiet (modifyFiles_takes _) fun _ => release_gives (Takes.pure _)

/-! ## Descriptor tables -/

theorem fdGrow_takes (t : Addr) : TakesOnly (D := D) (R := R) memSet (fdGrow lay t) := by
  refine Takes.read fun k => ?_
  dsimp only
  split
  · refine Takes.bind (kmalloc_takesOnly _) fun newFds => ?_
    split
    · exact Takes.pure _
    · refine Takes.bind (kfree_takesOnly _) fun _ => Takes.bind (modifyFdTable_takes t _) fun _ => ?_
      refine Takes.bind (modifyExt_takes (g := fun s => { s with
        fds := Function.update s.fds t (UInt64.ofNat newFds) }) fun _ => rfl) fun _ => ?_
      exact Takes.pure _
  · exact Takes.pure _

theorem fdAlloc_takes (t : Addr) : TakesOnly (D := D) (R := R) Set.univ (fdAlloc lay t) := by
  unfold fdAlloc
  split
  · exact Takes.pure _
  · refine acquire_takes (Set.mem_univ _) (Gives.read fun k => ?_)
    split
    · exact Gives.quiet (modifyFdTable_takes t _) fun _ => release_gives (Takes.pure _)
    · exact Gives.bind (fdGrow_takes t) (not_mem_memSet fun h => nomatch h) (Set.subset_univ _)
        fun fd => release_gives (Takes.pure fd)

theorem fdFree_takes (t : Addr) (fd : Int) : TakesOnly Set.univ (fdFree ops t fd) := by
  refine Takes.read fun k => ?_
  split
  · exact Takes.pure ()
  · refine acquire_takes (Set.mem_univ _) (Gives.read fun k => ?_)
    dsimp only
    split
    · exact release_last
    · refine Gives.bind (filePut_takes _) (fun h => h t rfl) (Set.subset_univ _) fun _ => ?_
      exact Gives.quiet (modifyFdTable_takes t _) fun _ => release_last

theorem fdInstall_takes (t : Addr) (fd : Int) (file : Addr) :
    TakesOnly (D := D) (R := R) Set.univ (fdInstall t fd file) := by
  refine Takes.read fun k => ?_
  split
  · exact Takes.pure _
  · refine acquire_takes (Set.mem_univ _) (Gives.read fun k => ?_)
    split
    · exact release_gives (Takes.pure _)
    · exact Gives.quiet (modifyFdTable_takes t _) fun _ => release_gives (Takes.pure 0)

/-! ## All calls -/

/-- The calls of the object caches. -/
inductive Call : Type
  | kmemCacheAlloc (kmem : Option Nat)
  | kmemCacheFree (addr : Addr)
  | kmemCacheFlush (kmem : Option Nat)
  | inodeGet (sb : Addr) (ino : UInt64)
  | inodePut (inode : Addr)
  | inodeDirty (inode : Addr)
  | inodeWrite (inode : Addr)
  | inodeTruncate (inode : Addr)
  | dentryInsert (dentry : Addr)
  | dentryFree (dentry : Addr)
  | dentryPut (dentry : Addr)
  | fileRead (file buf : Addr) (count : UInt64)
  | fileWrite (file buf : Addr) (count : UInt64)
  | fileLseek (file : Addr) (offset : Int64) (whence : Int)
  | fdAlloc (t : Addr)
  | fdFree (t : Addr) (fd : Int)
  | fdInstall (t : Addr) (fd : Int) (file : Addr)

/-- A call whose result does not matter. -/
def ignore (x : FsM D R α) : FsM D R Unit := do
  let _ ← x
  pure ()

namespace Call

def run (lay : Layout) (ops : Operations D R) : Call → FsM D R Unit
  | kmemCacheAlloc kmem => ignore (Locked.kmemCacheAlloc lay kmem)
  | kmemCacheFree addr => Locked.kmemCacheFree addr
  | kmemCacheFlush kmem => Mm.kmemCacheFlush kmem
  | inodeGet sb ino => ignore (Locked.inodeGet lay ops sb ino)
  | inodePut inode => Locked.inodePut lay ops inode
  | inodeDirty inode => Locked.inodeDirty ops inode
  | inodeWrite inode => ignore (Locked.inodeWrite ops inode)
  | inodeTruncate inode => Locked.inodeTruncate ops inode
  | dentryInsert dentry => ignore (Locked.dentryInsert lay dentry)
  | dentryFree dentry => Locked.dentryFree lay ops dentry
  | dentryPut dentry => Locked.dentryPut dentry
  | fileRead file buf count => ignore (Locked.fileRead ops file buf count)
  | fileWrite file buf count => ignore (Locked.fileWrite ops file buf count)
  | fileLseek file offset whence => ignore (Locked.fileLseek ops file offset whence)
  | fdAlloc t => ignore (Locked.fdAlloc lay t)
  | fdFree t fd => Locked.fdFree ops t fd
  | fdInstall t fd file => ignore (Locked.fdInstall t fd file)

/-- The calls that break the discipline: `kmem_cache_flush` returns early with the lock of a cache
that has few free objects, and `inode_truncate` calls `inode_dirty` with the lock of the inode. -/
def slips (k : Kernel (FsState D)) : Call → Bool
  | kmemCacheFlush (some c) => (k.caches c).free < (k.caches c).high
  | inodeTruncate inode => inode ≠ 0
  | _ => false

end Call

/-- No lock is held. -/
def NoneHeld (k : Kernel (FsState D)) : Prop := ∀ l, (locks D).held k l = false

/-- The run acquires no lock that is held and releases none that is not; if it returns, no lock is
held. -/
def Disciplined : Outcome (Kernel (FsState D)) R Fault α → Prop
  | .ok _ k _ => NoneHeld k
  | .fault f _ => f ≠ .lock ∧ f ≠ .depth ∧ f ≠ .rounds

theorem disciplined_of_yields {k : Kernel (FsState D)} (hk : NoneHeld k)
    {o : Outcome (Kernel (FsState D)) R Fault α}
    (h : Yields (lockPolicy R) o fun _ k' => (locks D).Same k k') : Disciplined o := by
  cases o with
  | ok a k' l =>
      have hsame := (h fun _ _ => trivial).2
      exact fun l => (hsame.held l).trans (hk l)
  | fault f l => exact (h fun _ _ => trivial).2

theorem ignore_takes {x : FsM D R α} (h : TakesOnly A x) : TakesOnly A (ignore x) :=
  Takes.bind h fun _ => Takes.pure ()

theorem acquire_apply {l : FsLock} {k : Kernel (FsState D)} (hk : NoneHeld k) :
    (spinlockAcquire l : FsM D R Unit) k = .ok () ((locks D).set k (.outer l) true) [] :=
  Locking.acquire_apply (e := Fault.lock) (hk (.outer l))

/-- **The lock of the inode is acquired a second time**, in `inode_dirty`. -/
theorem inodeTruncate_apply {inode : Addr} (hinode : inode ≠ 0) {k : Kernel (FsState D)}
    (hk : NoneHeld k) : inodeTruncate ops inode k = .fault .lock [] := by
  have hdirty : ∀ k' : Kernel (FsState D), k'.ext.locked (.inode inode) = true →
      inodeDirty ops inode k' = .fault .lock [] := by
    intro k' hheld
    rw [inodeDirty, if_neg hinode]
    exact bind_fault (Locking.acquire_held (s := locks D) (l := MemLock.outer (.inode inode)) hheld)
  rw [inodeTruncate, if_neg hinode, bind_ok (acquire_apply hk), Outcome.after_nil, modifyInode,
    modifyInodes, modify_bind_apply]
  exact bind_fault (hdirty _ (Function.update_self _ _ _))

theorem kmemCacheFlush_takesAt {kmem : Option Nat} {k : Kernel (FsState D)}
    (h : Call.slips k (.kmemCacheFlush kmem) = false) :
    (locks D).TakesAt (lockPolicy R) Set.univ (kmemCacheFlush kmem) k := by
  cases kmem with
  | none => exact Takes.fault (P := fun _ => True) (by simp [lockPolicy]) k trivial
  | some c =>
      have hhigh : (k.caches c).high ≤ (k.caches c).free := by simpa [Call.slips] using h
      exact TakesAt.coarsen ((Mm.kmemCacheFlush_takesAt hhigh).mono (Set.subset_univ _))

/-- **A call that does not slip** may take any lock once. -/
theorem Call.takesAt (call : Call) {k : Kernel (FsState D)} (h : call.slips k = false) :
    (locks D).TakesAt (lockPolicy R) Set.univ (call.run lay ops) k := by
  have take : ∀ {x : FsM D R Unit}, TakesOnly Set.univ x →
      (locks D).TakesAt (lockPolicy R) Set.univ x k := fun hx => hx k trivial
  cases call with
  | kmemCacheAlloc kmem =>
      exact take (ignore_takes ((kmemCacheAlloc_takesOnly kmem).mono (Set.subset_univ _)))
  | kmemCacheFree addr => exact take ((kmemCacheFree_takesOnly addr).mono (Set.subset_univ _))
  | kmemCacheFlush kmem => exact kmemCacheFlush_takesAt h
  | inodeGet sb ino => exact take (ignore_takes (inodeGet_takes sb ino).call)
  | inodePut inode => exact take (inodePut_takes inode).call
  | inodeDirty inode => exact take (inodeDirty_takes inode).call
  | inodeWrite inode => exact take (ignore_takes (inodeWrite_takes inode).call)
  | inodeTruncate inode =>
      have hnull : inode = 0 := by simpa [Call.slips] using h
      exact take (hnull ▸ Takes.pure ())
  | dentryInsert dentry => exact take (ignore_takes (dentryInsert_takes dentry).call)
  | dentryFree dentry => exact take (dentryFree_takes dentry).call
  | dentryPut dentry => exact take (dentryPut_takes dentry).call
  | fileRead file buf count => exact take (ignore_takes (fileRead_takes file buf count).call)
  | fileWrite file buf count => exact take (ignore_takes (fileWrite_takes file buf count).call)
  | fileLseek file offset whence =>
      exact take (ignore_takes (fileLseek_takes file offset whence).call)
  | fdAlloc t => exact take (ignore_takes (fdAlloc_takes t))
  | fdFree t fd => exact take (fdFree_takes t fd)
  | fdInstall t fd file => exact take (ignore_takes (fdInstall_takes t fd file))

/-- **A call that slips** ends in a panic, or with the lock of a cache held. -/
theorem Call.not_disciplined (call : Call) {k : Kernel (FsState D)} (hk : NoneHeld k)
    (h : call.slips k = true) : ¬Disciplined (call.run lay ops k) := by
  cases call with
  | kmemCacheFlush kmem =>
      cases kmem with
      | none => simp [Call.slips] at h
      | some c =>
          have hlow : (k.caches c).free < (k.caches c).high := by simpa [Call.slips] using h
          rw [Call.run, kmemCacheFlush_low (hk (.cache c)) hlow]
          intro hnone
          have hheld := (locks D).held_set_self k (.cache c) true
          exact Bool.noConfusion ((hnone (.cache c)).symm.trans hheld)
  | inodeTruncate inode =>
      have hinode : inode ≠ 0 := by simpa [Call.slips] using h
      rw [Call.run, inodeTruncate_apply hinode hk]
      exact fun hfault => hfault.1 rfl
  | _ => simp [Call.slips] at h

/-- A run of calls, each of which returns and does not slip. -/
inductive Runs (lay : Layout) (ops : Operations D R) :
    Kernel (FsState D) → List Call → Kernel (FsState D) → Prop
  | nil (k : Kernel (FsState D)) : Runs lay ops k [] k
  | cons {k k₁ k₂ : Kernel (FsState D)} {call : Call} {calls : List Call} {log : List R}
      (hslips : call.slips k = false) (hrun : call.run lay ops k = .ok () k₁ log)
      (hrest : Runs lay ops k₁ calls k₂) : Runs lay ops k (call :: calls) k₂

/-- **No lock is held after any run** that begins without one. -/
theorem Runs.noneHeld {k k' : Kernel (FsState D)} {calls : List Call}
    (h : Runs lay ops k calls k') (hk : NoneHeld k) : NoneHeld k' := by
  induction h with
  | nil k => exact hk
  | @cons k k₁ _ call _ log hslips hrun _ ih =>
      have hcall : Disciplined (call.run lay ops k) :=
        disciplined_of_yields hk (call.takesAt hslips fun l _ => hk l)
      rw [hrun] at hcall
      exact ih hcall

/-- **Lock discipline.** From every state in which no lock is held, every call keeps the
discipline exactly when it is not one of the two that slip. -/
theorem disciplined_iff (call : Call) {k : Kernel (FsState D)} (hk : NoneHeld k) :
    Disciplined (call.run lay ops k) ↔ call.slips k = false := by
  constructor
  · intro h
    by_contra hslips
    exact call.not_disciplined hk (Bool.eq_true_of_not_eq_false hslips) h
  · intro h
    exact disciplined_of_yields hk (call.takesAt h fun l _ => hk l)

/-! ## A state after boot -/

/-- A kernel of four megabytes. -/
def bootLayout : Layout := ⟨0x80400000, by decide, by decide⟩

/-- A callback that only touches what the file system keeps. -/
def Callback.update (f : D → α × D) : Callback D R α where
  run := do
    let k ← Exec.read
    modify fun k => { k with ext := { k.ext with priv := (f k.ext.priv).2 } }
    pure (f k.ext.priv).1
  quiet := Takes.read fun _ => Takes.bind
    (modifyExt_takes (g := fun s => { s with priv := (f s.priv).2 }) fun _ => rfl) fun _ =>
      Takes.pure _

/-- A file system that counts the inodes it has written. -/
def countingOps : Operations Nat Unit where
  allocInode _ := none
  destroyInode _ := none
  dirtyInode _ := none
  writeInode _ := some fun _ => .update fun n => (0, n + 1)
  dropInode _ := none
  dRelease _ := none
  llseek _ := none
  read _ := none
  write _ := none
  release _ := none

/-- Nothing is cached, and the caches of the slab allocator are empty ones, for objects of 64
bytes. -/
def bootState : Kernel (FsState Nat) :=
  { bss
      { locked := fun _ => false
        ic := inodeInit (fun _ => newInode 0) ⟨id, id⟩
        dc := dentryInit (fun _ => ⟨qstrInit [], 0, 0, 0, 0⟩) ⟨id, id⟩ ⟨id, id⟩
        files := fileInit (fun _ => ⟨0, 0, none, 0, 0, 0, 0⟩) ⟨id, id⟩
        fdt := fun _ => fdTableAlloc
        node := fun _ _ => 0
        nameAddr := fun _ => 0
        fds := fun _ => 0
        priv := 0 } with
    caches := fun _ => kmemCacheInit 64 }

theorem noneHeld_bootState : NoneHeld bootState := by
  intro l
  cases l <;> rfl

/-- Writing the inode at `64` keeps the discipline. -/
theorem disciplined_inodeWrite :
    Disciplined ((Call.inodeWrite 64).run bootLayout countingOps bootState) :=
  (disciplined_iff (Call.inodeWrite 64) noneHeld_bootState).mpr rfl

/-- Flushing the cache of the inodes, which has no free object yet, leaves it locked. -/
theorem not_forall_disciplined :
    ¬∀ (lay : Layout) (ops : Operations Nat Unit) (call : Call) (k : Kernel (FsState Nat)),
      NoneHeld k → Disciplined (call.run lay ops k) := by
  intro h
  have hflush := h bootLayout countingOps (.kmemCacheFlush (some inodeCache)) bootState
    noneHeld_bootState
  exact Call.not_disciplined (.kmemCacheFlush (some inodeCache)) noneHeld_bootState
    (by decide) hflush

end NoobKernel.Fs.Locked
