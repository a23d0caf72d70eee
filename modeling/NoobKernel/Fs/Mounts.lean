import NoobKernel.Fs.Filesystems
import NoobKernel.Fs.NameiRefs
import NoobKernel.Lib.Lts

set_option autoImplicit false

/-! # Mounts (`fs/vfs.c`)

A `struct mount` is a node of two lists. Through `mnt_child` it is on `vfs_state.mount_list`, whose
head is the node `0`; through `mnt_mounts` it is on the list of those below a root mount, whose head
is the root mount itself.

A call is given with what it gets from outside: the dentry of `vfs_path_lookup`, the super block of
the file system, the memory of `kmalloc`. What it does to dentries and super blocks is its part of
the `log`.

The mounts that path lookup goes through are the live ones, and the references `vfs_mount_to` takes
are given back with the last one of the mount, or at once if the call fails (`mounts_exact`). This
needs a reference to each root mount that stays: others are on its list, and `root_mount` keeps its
address.
-/

namespace NoobKernel.Fs

/-! ## The system -/

/-- `struct mount` without its links and its lock. -/
structure MountFields where
  mntParent : Addr
  mntMountpoint : Addr
  mntRoot : Addr
  mntSb : Addr
  mntFlags : UInt32
  mntRefcnt : UInt32

/-- What calls do outside the mounts: a lookup, which gives a reference to the dentry, the two
`dentry_put`s of a mount, and the operations on super blocks. -/
inductive MountCall
  | lookup (d : Addr)
  | putMountpoint (d : Addr)
  | putRoot (d : Addr)
  | mount (sb : Addr)
  | umount (sb : Addr)
  | superPut (sb : Addr)

structure MountTable where
  mnt : Addr → MountFields
  live : Addr → Bool
  mountList : Links Addr
  mounts : Links Addr
  rootMount : Addr
  log : List MountCall

/-- A super block that the `mount` operation of a file system returns, with its `s_root`. -/
structure Mounted where
  sb : Addr
  sRoot : Addr

/-- What `vfs_init` sets up. -/
def mountInit (mnt : Addr → MountFields) (mountList mounts : Links Addr) : MountTable where
  mnt := mnt
  live := fun _ => false
  mountList := mountList.init 0
  mounts := mounts
  rootMount := 0
  log := []

namespace MountTable

def call (s : MountTable) (cs : List MountCall) : MountTable := { s with log := s.log ++ cs }

/-- Memory for a mount is filled in, and its list heads are initialised. -/
def new (s : MountTable) (memory : Addr) (fields : MountFields) : MountTable where
  mnt := Function.update s.mnt memory fields
  live := Function.update s.live memory true
  mountList := s.mountList.init memory
  mounts := s.mounts.init memory
  rootMount := s.rootMount
  log := s.log

def setRefcnt (s : MountTable) (m : Addr) (refcnt : UInt32) : MountTable :=
  { s with mnt := Function.update s.mnt m { s.mnt m with mntRefcnt := refcnt } }

def parent (s : MountTable) (m : Addr) : Addr := (s.mnt m).mntParent

def sb (s : MountTable) (m : Addr) : Addr := (s.mnt m).mntSb

def point (s : MountTable) (m : Addr) : Addr := (s.mnt m).mntMountpoint

/-- A mount as path lookup sees it. -/
def view (s : MountTable) (m : Addr) : Mount := ⟨(s.mnt m).mntMountpoint, (s.mnt m).mntRoot⟩

end MountTable

/-- Nothing reads the list of super blocks, so that only the call is kept. -/
def vfsMount (s : MountTable) (fsType : Addr) (mount : Except Int Mounted) :
    Except Int Mounted × MountTable :=
  if fsType = 0 then (.error (-EINVAL), s)
  else
    match mount with
    | .error e => (.error e, s)
    | .ok m => (.ok m, s.call [.mount m.sb])

def vfsUmount (s : MountTable) (sb : Addr) : Int × MountTable :=
  if sb = 0 then (-EINVAL, s) else (0, s.call [.umount sb])

/-- No line writes `mnt_refcnt`: it is the `refcnt` that the memory has. -/
def vfsMountRoot (s : MountTable) (fsType : Addr) (mount : Except Int Mounted) (memory : Addr)
    (refcnt : UInt32) : Int × MountTable :=
  match vfsMount s fsType mount with
  | (.error e, s) => (e, s)
  | (.ok m, s) =>
      if memory = 0 then (-ENOMEM, (vfsUmount s m.sb).2)
      else
        let s := s.new memory ⟨0, m.sRoot, m.sRoot, m.sb, 0, refcnt⟩
        (0, { s with rootMount := memory, mountList := s.mountList.add memory 0 })

/-- `isDir`: the dentry has an inode, and that is a directory. -/
def vfsMountTo (s : MountTable) (targetPath fsType : Addr) (lookup : Except Int Addr)
    (isDir : Bool) (mount : Except Int Mounted) (memory : Addr) : Int × MountTable :=
  if targetPath = 0 ∨ fsType = 0 then (-EINVAL, s)
  else
    match lookup with
    | .error e => (e, s)
    | .ok mountpoint =>
        let s := s.call [.lookup mountpoint]
        if isDir = false then (-ENOTDIR, s.call [.putMountpoint mountpoint])
        else
          match vfsMount s fsType mount with
          | (.error e, s) => (e, s.call [.putMountpoint mountpoint])
          | (.ok m, s) =>
              if memory = 0 then (-ENOMEM, (vfsUmount s m.sb).2.call [.putMountpoint mountpoint])
              else if s.rootMount = 0 then
                (-ENOENT, (vfsUmount s m.sb).2.call [.putMountpoint mountpoint])
              else
                let s := s.new memory ⟨s.rootMount, mountpoint, m.sRoot, m.sb, 0, 1⟩
                (0, { s with
                  mounts := s.mounts.add memory s.rootMount
                  mountList := s.mountList.add memory 0 })

def vfsMountGet (s : MountTable) (m : Addr) : MountTable :=
  if m = 0 then s else s.setRefcnt m ((s.mnt m).mntRefcnt + 1)

/-- What the last reference of a mount gives back. -/
def MountFields.released (f : MountFields) : List MountCall :=
  (if f.mntSb ≠ 0 then [.superPut f.mntSb] else [])
    ++ (if f.mntMountpoint ≠ 0 then [.putMountpoint f.mntMountpoint] else [])
    ++ (if f.mntRoot ≠ 0 then [.putRoot f.mntRoot] else [])

def vfsMountPut (s : MountTable) (m : Addr) : MountTable :=
  if m = 0 then s
  else
    let s := s.setRefcnt m ((s.mnt m).mntRefcnt - 1)
    if (s.mnt m).mntRefcnt = 0 then
      { s with
        mountList := s.mountList.del m
        mounts := if (s.mnt m).mntParent ≠ 0 then s.mounts.del m else s.mounts
        live := Function.update s.live m false
        log := s.log ++ (s.mnt m).released }
    else s

/-- `vfs_lookup_mount` by its loop: the address of the mount, `0` for `NULL`; `none` if the loop
does not end. -/
def lookupMount (s : MountTable) (dentry : Addr → Dentry) (mountpoint : Addr) : Option Addr :=
  if mountpoint = 0 then some 0
  else
    (Links.scan s.mountList.next 0 (fun m =>
      let mp := dentry (s.mnt m).mntMountpoint
      (s.mnt m).mntMountpoint ≠ 0 ∧ mp.dParent = (dentry mountpoint).dParent
        ∧ mp.dName.len = (dentry mountpoint).dName.len
        ∧ mp.dName.name = (dentry mountpoint).dName.name)
      SUPER_ROUNDS (s.mountList.next 0)).map (Option.getD · 0)

/-! ## Runs -/

inductive MountOp
  | mountRoot (fsType : Addr) (mount : Except Int Mounted) (memory : Addr) (refcnt : UInt32)
  | mountTo (targetPath fsType : Addr) (lookup : Except Int Addr) (isDir : Bool)
      (mount : Except Int Mounted) (memory : Addr)
  | get (m : Addr)
  | put (m : Addr)

def MountOp.exec (s : MountTable) : MountOp → MountTable
  | mountRoot fsType mount memory refcnt => (vfsMountRoot s fsType mount memory refcnt).2
  | mountTo targetPath fsType lookup isDir mount memory =>
      (vfsMountTo s targetPath fsType lookup isDir mount memory).2
  | get m => vfsMountGet s m
  | put m => vfsMountPut s m

/-- Memory is not in use, and a super block is not `NULL`. -/
def FreshMount (s : MountTable) (mount : Except Int Mounted) (memory : Addr) : Prop :=
  (memory = 0 ∨ s.live memory = false) ∧ ∀ m, mount = .ok m → m.sb ≠ 0

/-- Callers pass mounts that are there, and keep a reference to each root mount, whatever its memory
has made of `mnt_refcnt`. -/
def MountOp.Careful (s : MountTable) : MountOp → Prop
  | mountRoot _ mount memory _ | mountTo _ _ _ _ mount memory => FreshMount s mount memory
  | get m => m = 0 ∨ s.live m = true
  | put m => m = 0 ∨ s.live m = true ∧ ((s.mnt m).mntRefcnt = 1 → s.parent m ≠ 0)

/-- A run of careful callers. -/
def MountRun : MountTable → List MountOp → MountTable → Prop :=
  Lts.Run (Lts.Steps (fun s op => some (MountOp.exec s op)) MountOp.Careful)

/-! ### References -/

/-- What a call is for the references to a super block. -/
def MountCall.superRef (sb : Addr) : MountCall → Int
  | mount sb' => if sb' = sb then 1 else 0
  | umount sb' | superPut sb' => if sb' = sb then -1 else 0
  | _ => 0

/-- What a call is for the references to a dentry as a mount point. -/
def MountCall.pointRef (d : Addr) : MountCall → Int
  | lookup d' => if d' = d then 1 else 0
  | putMountpoint d' => if d' = d then -1 else 0
  | _ => 0

/-- The references to a super block that have been taken and not given back. -/
def superRefs (log : List MountCall) (sb : Addr) : Int := (log.map (MountCall.superRef sb)).sum

def pointRefs (log : List MountCall) (d : Addr) : Int := (log.map (MountCall.pointRef d)).sum

/-! ## The invariant -/

structure MountInv (s : MountTable) (xs : List Addr) : Prop where
  circle : s.mountList.Circle 0 xs
  mem_iff : ∀ m, m ∈ xs ↔ s.live m = true
  parent : ∀ m ∈ xs, s.parent m ≠ 0 → s.parent m ∈ xs ∧ s.parent (s.parent m) = 0
  root : s.rootMount ≠ 0 → s.rootMount ∈ xs ∧ s.parent s.rootMount = 0
  below : ∀ r ∈ xs, s.parent r = 0 → s.mounts.Circle r (xs.filter fun m => s.parent m = r)
  supers : ∀ sb ≠ 0, superRefs s.log sb = xs.countP fun m => s.sb m = sb
  points : ∀ d ≠ 0, pointRefs s.log d = xs.countP fun m => s.parent m ≠ 0 ∧ s.point m = d

variable {s s' : MountTable} {xs : List Addr} {m r : Addr} {cs ds : List MountCall}

theorem call_call : (s.call cs).call ds = s.call (cs ++ ds) := by
  rw [MountTable.call, MountTable.call, MountTable.call, List.append_assoc]

theorem rootMount_call : (s.call cs).rootMount = s.rootMount := rfl

theorem superRefs_append (sb : Addr) :
    superRefs (cs ++ ds) sb = superRefs cs sb + superRefs ds sb := by
  rw [superRefs, List.map_append, List.sum_append]
  rfl

theorem pointRefs_append (d : Addr) :
    pointRefs (cs ++ ds) d = pointRefs cs d + pointRefs ds d := by
  rw [pointRefs, List.map_append, List.sum_append]
  rfl

theorem superRefs_released (f : MountFields) {sb : Addr} (hsb : sb ≠ 0) :
    superRefs f.released sb = if f.mntSb = sb then -1 else 0 := by
  unfold MountFields.released
  rw [superRefs_append, superRefs_append]
  have hpoint : superRefs (if f.mntMountpoint ≠ 0 then [.putMountpoint f.mntMountpoint] else []) sb
      = 0 := by
    split <;> rfl
  have hroot : superRefs (if f.mntRoot ≠ 0 then [.putRoot f.mntRoot] else []) sb = 0 := by
    split <;> rfl
  rw [hpoint, hroot, add_zero, add_zero]
  split
  · exact add_zero _
  · rename_i hzero
    rw [if_neg fun heq : f.mntSb = sb => hsb (heq ▸ not_not.mp hzero)]
    rfl

theorem pointRefs_released (f : MountFields) {d : Addr} (hd : d ≠ 0) :
    pointRefs f.released d = if f.mntMountpoint = d then -1 else 0 := by
  unfold MountFields.released
  rw [pointRefs_append, pointRefs_append]
  have hsb : pointRefs (if f.mntSb ≠ 0 then [.superPut f.mntSb] else []) d = 0 := by
    split <;> rfl
  have hroot : pointRefs (if f.mntRoot ≠ 0 then [.putRoot f.mntRoot] else []) d = 0 := by
    split <;> rfl
  rw [hsb, hroot, zero_add, add_zero]
  split
  · exact add_zero _
  · rename_i hzero
    rw [if_neg fun heq : f.mntMountpoint = d => hd (heq ▸ not_not.mp hzero)]
    rfl

theorem mountInv_init (mnt : Addr → MountFields) (mountList mounts : Links Addr) :
    MountInv (mountInit mnt mountList mounts) [] where
  circle := Links.circle_init mountList 0
  mem_iff _ := iff_of_false List.not_mem_nil Bool.false_ne_true
  parent _ h := absurd h List.not_mem_nil
  root h := absurd rfl h
  below _ h := absurd h List.not_mem_nil
  supers _ _ := rfl
  points _ _ := rfl

theorem mnt_setRefcnt (refcnt : UInt32) (c : Addr) : (s.setRefcnt m refcnt).mnt c
    = { s.mnt c with mntRefcnt := if c = m then refcnt else (s.mnt c).mntRefcnt } := by
  by_cases hc : c = m
  · subst hc
    rw [if_pos rfl]
    exact Function.update_self ..
  · rw [if_neg hc]
    exact Function.update_of_ne hc ..

namespace MountInv

theorem nodup (h : MountInv s xs) : xs.Nodup := (List.nodup_cons.mp h.circle.1).2

theorem ne_zero (h : MountInv s xs) (hm : m ∈ xs) : m ≠ 0 := by
  rintro rfl
  exact (List.nodup_cons.mp h.circle.1).1 hm

/-- The lists of two root mounts have no node in common. -/
theorem disjoint (h : MountInv s xs) {r' : Addr} (hr : r ∈ xs) (hr' : r' ∈ xs)
    (hroot : s.parent r = 0) (hroot' : s.parent r' = 0) (hne : r ≠ r') :
    ∀ c ∈ r :: xs.filter (fun m => s.parent m = r),
      c ∉ r' :: xs.filter fun m => s.parent m = r' := by
  intro c hc hc'
  rw [List.mem_cons, List.mem_filter, decide_eq_true_iff] at hc hc'
  have hzero := h.ne_zero hr
  have hzero' := h.ne_zero hr'
  rcases hc with rfl | ⟨-, hc⟩
  · rcases hc' with heq | ⟨-, hc'⟩
    · exact hne heq
    · exact hzero' (hc'.symm.trans hroot)
  · rcases hc' with rfl | ⟨-, hc'⟩
    · exact hzero (hc.symm.trans hroot')
    · exact hne (hc.symm.trans hc')

/-- Calls that give back what they take. -/
theorem call (h : MountInv s xs) (hsupers : ∀ sb ≠ 0, superRefs cs sb = 0)
    (hpoints : ∀ d ≠ 0, pointRefs cs d = 0) : MountInv (s.call cs) xs where
  circle := h.circle
  mem_iff := h.mem_iff
  parent := h.parent
  root := h.root
  below := h.below
  supers sb hsb := by
    refine (superRefs_append sb).trans ?_
    rw [hsupers sb hsb, add_zero]
    exact h.supers sb hsb
  points d hd := by
    refine (pointRefs_append d).trans ?_
    rw [hpoints d hd, add_zero]
    exact h.points d hd

/-- Only the references of a mount change. -/
theorem setRefcnt (h : MountInv s xs) (m : Addr) (refcnt : UInt32) :
    MountInv (s.setRefcnt m refcnt) xs := by
  have hmnt := mnt_setRefcnt (s := s) (m := m) refcnt
  have hparent : (s.setRefcnt m refcnt).parent = s.parent :=
    funext fun c => (congrArg MountFields.mntParent (hmnt c)).trans rfl
  have hsb : (s.setRefcnt m refcnt).sb = s.sb :=
    funext fun c => (congrArg MountFields.mntSb (hmnt c)).trans rfl
  have hpoint : (s.setRefcnt m refcnt).point = s.point :=
    funext fun c => (congrArg MountFields.mntMountpoint (hmnt c)).trans rfl
  refine ⟨h.circle, h.mem_iff, ?_, ?_, ?_, ?_, ?_⟩
  · rw [hparent]
    exact h.parent
  · rw [hparent]
    exact h.root
  · rw [hparent]
    exact h.below
  · rw [hsb]
    exact h.supers
  · rw [hparent, hpoint]
    exact h.points

/-- Nothing is below what is not a mount. -/
theorem filter_eq_nil (h : MountInv s xs) (hm : m ≠ 0) (hnot : m ∉ xs) :
    (xs.filter fun c => s.parent c = m) = [] := by
  rw [List.filter_eq_nil_iff]
  intro c hc heq
  rw [decide_eq_true_iff] at heq
  exact hnot (heq ▸ (h.parent c hc (heq ▸ hm)).1)

/-- A new mount is added to the list of its parent, and the other lists stay. -/
theorem below_new (h : MountInv s xs) (f : MountFields) (hnot : m ∉ xs)
    (hf : f.mntParent ≠ 0 → f.mntParent ∈ xs ∧ s.parent f.mntParent = 0) (hr : r ∈ xs)
    (hzero : s.parent r = 0) :
    (if f.mntParent = 0 then (s.new m f).mounts
      else (s.new m f).mounts.add m f.mntParent).Circle r
      (if f.mntParent = r then m :: xs.filter fun c => s.parent c = r
        else xs.filter fun c => s.parent c = r) := by
  have hoff : ∀ r ∈ xs, m ∉ r :: xs.filter fun c => s.parent c = r := by
    intro r hr
    refine List.not_mem_cons_of_ne_of_not_mem ?_ fun hmem => hnot (List.mem_of_mem_filter hmem)
    rintro rfl
    exact hnot hr
  have hcircle := (h.below r hr hzero).init (hoff r hr)
  by_cases heq : f.mntParent = r
  · rw [if_neg (heq ▸ h.ne_zero hr : f.mntParent ≠ 0), if_pos heq, heq]
    exact hcircle.add (hoff r hr)
  · rw [if_neg heq]
    by_cases hne : f.mntParent = 0
    · rw [if_pos hne]
      exact hcircle
    · obtain ⟨hmem, hzero'⟩ := hf hne
      rw [if_neg hne]
      exact hcircle.add_of_disjoint ((h.below _ hmem hzero').init (hoff _ hmem))
        (h.disjoint hr hmem hzero hzero' fun heq' => heq heq'.symm) (hoff r hr)

/-- **A new mount.** It comes first, and first below its parent if it has one. -/
theorem insert (h : MountInv s xs) (f : MountFields) (cs : List MountCall) (hm : m ≠ 0)
    (hnew : s.live m = false)
    (hlist : s'.mountList = (s.new m f).mountList.add m 0) (hmnt : s'.mnt = (s.new m f).mnt)
    (hlive : s'.live = (s.new m f).live) (hlog : s'.log = s.log ++ cs)
    (htree : s'.mounts = if f.mntParent = 0 then (s.new m f).mounts
      else (s.new m f).mounts.add m f.mntParent)
    (hf : f.mntParent ≠ 0 → f.mntParent ∈ xs ∧ s.parent f.mntParent = 0)
    (hroot : s'.rootMount = s.rootMount ∨ s'.rootMount = m ∧ f.mntParent = 0)
    (hsupers : ∀ sb ≠ 0, superRefs cs sb = if f.mntSb = sb then 1 else 0)
    (hpoints : ∀ d ≠ 0,
      pointRefs cs d = if f.mntParent ≠ 0 ∧ f.mntMountpoint = d then 1 else 0) :
    MountInv s' (m :: xs) := by
  have hnot : m ∉ xs := fun hmem => Bool.false_ne_true (hnew.symm.trans ((h.mem_iff m).mp hmem))
  have hhead : m ∉ 0 :: xs := List.not_mem_cons_of_ne_of_not_mem hm hnot
  have hself : s'.mnt m = f := by
    rw [hmnt]
    exact Function.update_self ..
  have hother : ∀ c ∈ xs, s'.mnt c = s.mnt c := by
    intro c hc
    rw [hmnt]
    refine Function.update_of_ne ?_ ..
    rintro rfl
    exact hnot hc
  have hparent : ∀ c ∈ xs, s'.parent c = s.parent c := fun c hc =>
    congrArg MountFields.mntParent (hother c hc)
  have hparentm : s'.parent m = f.mntParent := congrArg MountFields.mntParent hself
  have hbelow : ∀ r, xs.filter (fun c => s'.parent c = r) = xs.filter fun c => s.parent c = r :=
    fun r => List.filter_congr fun c hc => by rw [hparent c hc]
  refine ⟨?_, fun c => ?_, fun c hc hne => ?_, fun hne => ?_, fun r hr hzero => ?_,
    fun sb hsb => ?_, fun d hd => ?_⟩
  · rw [hlist]
    exact (h.circle.init hhead).add hhead
  · rw [hlive, List.mem_cons, h.mem_iff]
    by_cases hc : c = m
    · subst hc
      exact iff_of_true (.inl rfl) (Function.update_self ..)
    · rw [or_iff_right hc]
      show _ ↔ Function.update s.live m true c = true
      rw [Function.update_of_ne hc]
  · rcases List.mem_cons.mp hc with rfl | hc
    · rw [hparentm] at hne ⊢
      obtain ⟨hmem, hzero⟩ := hf hne
      exact ⟨List.mem_cons_of_mem _ hmem, (hparent _ hmem).trans hzero⟩
    · rw [hparent c hc] at hne ⊢
      obtain ⟨hmem, hzero⟩ := h.parent c hc hne
      exact ⟨List.mem_cons_of_mem _ hmem, (hparent _ hmem).trans hzero⟩
  · rcases hroot with heq | ⟨heq, hf⟩
    · rw [heq] at hne ⊢
      obtain ⟨hmem, hzero⟩ := h.root hne
      exact ⟨List.mem_cons_of_mem _ hmem, (hparent _ hmem).trans hzero⟩
    · rw [heq]
      exact ⟨List.mem_cons_self, hparentm.trans hf⟩
  · rcases List.mem_cons.mp hr with rfl | hr
    · rw [hparentm] at hzero
      rw [List.filter_cons_of_neg (by rw [hparentm, hzero]; simpa using hm.symm), hbelow,
        h.filter_eq_nil hm hnot, htree, if_pos hzero]
      exact Links.circle_init _ _
    · rw [hparent r hr] at hzero
      rw [List.filter_cons, hbelow, htree, hparentm]
      simpa only [decide_eq_true_eq] using h.below_new f hnot hf hr hzero
  · have hcount : xs.countP (fun c => s'.sb c = sb) = xs.countP fun c => s.sb c = sb :=
      List.countP_congr fun c hc => by
        rw [show s'.sb c = s.sb c from congrArg MountFields.mntSb (hother c hc)]
    rw [hlog, superRefs_append, h.supers sb hsb, hsupers sb hsb, List.countP_cons, hcount,
      show s'.sb m = f.mntSb from congrArg MountFields.mntSb hself]
    simp
  · have hcount : xs.countP (fun c => s'.parent c ≠ 0 ∧ s'.point c = d)
        = xs.countP fun c => s.parent c ≠ 0 ∧ s.point c = d :=
      List.countP_congr fun c hc => by
        rw [hparent c hc,
          show s'.point c = s.point c from congrArg MountFields.mntMountpoint (hother c hc)]
    rw [hlog, pointRefs_append, h.points d hd, hpoints d hd, List.countP_cons, hcount, hparentm,
      show s'.point m = f.mntMountpoint from congrArg MountFields.mntMountpoint hself]
    simp

/-- **The last reference of a mount below another one.** -/
theorem erase (h : MountInv s xs) (hmem : m ∈ xs) (hne : s.parent m ≠ 0) :
    MountInv
      { s with
        mountList := s.mountList.del m
        mounts := s.mounts.del m
        live := Function.update s.live m false
        log := s.log ++ (s.mnt m).released }
      (xs.erase m) := by
  obtain ⟨hparent, hroot⟩ := h.parent m hmem hne
  have hstays : ∀ c ∈ xs, s.parent c = 0 → c ∈ xs.erase m := by
    intro c hc hzero
    refine (List.mem_erase_of_ne ?_).mpr hc
    rintro rfl
    exact hne hzero
  have hperm := List.perm_cons_erase hmem
  refine ⟨h.circle.del hmem, fun c => ?_, fun c hc hc' => ?_, fun hne' => ?_,
    fun r hr hzero => ?_, fun sb hsb => ?_, fun d hd => ?_⟩
  · rw [h.nodup.mem_erase_iff, h.mem_iff]
    show _ ↔ Function.update s.live m false c = true
    by_cases hc : c = m
    · rw [hc, Function.update_self]
      exact iff_of_false (fun hand => hand.1 rfl) Bool.false_ne_true
    · rw [Function.update_of_ne hc, and_iff_right hc]
  · obtain ⟨hpar, hzero⟩ := h.parent c (List.mem_of_mem_erase hc) hc'
    exact ⟨hstays _ hpar hzero, hzero⟩
  · obtain ⟨hin, hzero⟩ := h.root hne'
    exact ⟨hstays _ hin hzero, hzero⟩
  · have hr' := List.mem_of_mem_erase hr
    show (s.mounts.del m).Circle r ((xs.erase m).filter fun c => s.parent c = r)
    rw [← List.erase_filter]
    have hbelow : m ∈ xs.filter fun c => s.parent c = s.parent m :=
      List.mem_filter.mpr ⟨hmem, decide_eq_true rfl⟩
    by_cases heq : s.parent m = r
    · rw [← heq]
      exact (h.below _ hparent hroot).del hbelow
    · have hout : m ∉ xs.filter fun c => s.parent c = r := fun hin =>
        heq (of_decide_eq_true (List.mem_filter.mp hin).2)
      rw [List.erase_of_not_mem hout]
      exact (h.below r hr' hzero).del_of_disjoint (h.below _ hparent hroot)
        (h.disjoint hr' hparent hzero hroot fun heq' => heq heq'.symm) hbelow
  · have hcount := hperm.countP_eq fun c => s.sb c = sb
    rw [List.countP_cons] at hcount
    show superRefs (s.log ++ (s.mnt m).released) sb = (xs.erase m).countP fun c => s.sb c = sb
    rw [superRefs_append, h.supers sb hsb, superRefs_released _ hsb, hcount]
    show _ + (if s.sb m = sb then (-1 : Int) else 0) = _
    by_cases heq : s.sb m = sb <;> simp [heq]
  · have hcount := hperm.countP_eq fun c => s.parent c ≠ 0 ∧ s.point c = d
    rw [List.countP_cons] at hcount
    show pointRefs (s.log ++ (s.mnt m).released) d
      = (xs.erase m).countP fun c => s.parent c ≠ 0 ∧ s.point c = d
    rw [pointRefs_append, h.points d hd, pointRefs_released _ hd, hcount]
    show _ + (if s.point m = d then (-1 : Int) else 0) = _
    by_cases heq : s.point m = d <;> simp [heq, hne]

/-! ### The functions -/

/-- A super block is given back at once if there is no mount for it. -/
theorem call_umount (h : MountInv s xs) (sb : Addr) :
    MountInv (s.call [.mount sb, .umount sb]) xs := by
  refine h.call (fun sb' _ => ?_) fun _ _ => rfl
  show (if sb = sb' then (1 : Int) else 0) + ((if sb = sb' then -1 else 0) + 0) = 0
  split <;> rfl

/-- So is a mount point, -/
theorem call_put (h : MountInv s xs) (d : Addr) :
    MountInv (s.call [.lookup d, .putMountpoint d]) xs := by
  refine h.call (fun _ _ => rfl) fun d' _ => ?_
  show (if d = d' then (1 : Int) else 0) + ((if d = d' then -1 else 0) + 0) = 0
  split <;> rfl

/-- and both of them, the one taken last first. -/
theorem call_umount_put (h : MountInv s xs) (d sb : Addr) :
    MountInv (s.call [.lookup d, .mount sb, .umount sb, .putMountpoint d]) xs := by
  refine h.call (fun sb' _ => ?_) fun d' _ => ?_
  · show 0 + ((if sb = sb' then (1 : Int) else 0) + ((if sb = sb' then -1 else 0) + (0 + 0))) = 0
    split <;> rfl
  · show (if d = d' then (1 : Int) else 0) + (0 + (0 + ((if d = d' then -1 else 0) + 0))) = 0
    split <;> rfl

theorem mountRoot (h : MountInv s xs) {fsType memory : Addr} {mount : Except Int Mounted}
    {refcnt : UInt32} (hfresh : FreshMount s mount memory) :
    ∃ ys, MountInv (vfsMountRoot s fsType mount memory refcnt).2 ys := by
  unfold vfsMountRoot vfsMount
  by_cases htype : fsType = 0
  · rw [if_pos htype]
    exact ⟨xs, h⟩
  rw [if_neg htype]
  cases mount with
  | error e => exact ⟨xs, h⟩
  | ok sb =>
      have hsb := hfresh.2 sb rfl
      dsimp only
      by_cases hmem : memory = 0
      · rw [if_pos hmem, vfsUmount, if_neg hsb]
        dsimp only
        rw [call_call]
        exact ⟨xs, h.call_umount sb.sb⟩
      · rw [if_neg hmem]
        have hnew := hfresh.1.resolve_left hmem
        exact ⟨memory :: xs, h.insert ⟨0, sb.sRoot, sb.sRoot, sb.sb, 0, refcnt⟩
          [.mount sb.sb] hmem hnew rfl rfl rfl rfl rfl
          (fun hne => absurd rfl hne) (.inr ⟨rfl, rfl⟩) (fun _ _ => add_zero _)
          fun _ _ => (if_neg fun hand => hand.1 rfl).symm⟩

theorem mountTo (h : MountInv s xs) {targetPath fsType memory : Addr} {lookup : Except Int Addr}
    {isDir : Bool} {mount : Except Int Mounted} (hfresh : FreshMount s mount memory) :
    ∃ ys, MountInv (vfsMountTo s targetPath fsType lookup isDir mount memory).2 ys := by
  unfold vfsMountTo
  by_cases hnull : targetPath = 0 ∨ fsType = 0
  · rw [if_pos hnull]
    exact ⟨xs, h⟩
  rw [if_neg hnull]
  cases lookup with
  | error e => exact ⟨xs, h⟩
  | ok d =>
      dsimp only
      by_cases hdir : isDir = false
      · rw [if_pos hdir, call_call]
        exact ⟨xs, h.call_put d⟩
      rw [if_neg hdir]
      unfold vfsMount
      rw [if_neg (not_or.mp hnull).2]
      cases mount with
      | error e =>
          dsimp only
          rw [call_call]
          exact ⟨xs, h.call_put d⟩
      | ok sb =>
          have hsb := hfresh.2 sb rfl
          dsimp only
          rw [vfsUmount, if_neg hsb]
          dsimp only
          have hcalls : (s.call [.lookup d]).call [.mount sb.sb]
              = s.call [.lookup d, .mount sb.sb] := call_call
          rw [hcalls, call_call, call_call, rootMount_call]
          by_cases hmem : memory = 0
          · rw [if_pos hmem]
            exact ⟨xs, h.call_umount_put d sb.sb⟩
          rw [if_neg hmem]
          by_cases hroot : s.rootMount = 0
          · rw [if_pos hroot]
            exact ⟨xs, h.call_umount_put d sb.sb⟩
          · rw [if_neg hroot]
            have hnew := hfresh.1.resolve_left hmem
            exact ⟨memory :: xs, h.insert ⟨s.rootMount, d, sb.sRoot, sb.sb, 0, 1⟩
              [.lookup d, .mount sb.sb] hmem hnew rfl rfl rfl rfl (if_neg hroot).symm
              h.root (.inl rfl) (fun _ _ => (zero_add _).trans (add_zero _))
              fun _ _ => (add_zero _).trans (if_congr (and_iff_right hroot).symm rfl rfl)⟩

theorem get (h : MountInv s xs) (m : Addr) : MountInv (vfsMountGet s m) xs := by
  unfold vfsMountGet
  split
  · exact h
  · exact h.setRefcnt m _

theorem put (h : MountInv s xs) (hm : m = 0 ∨ s.live m = true
    ∧ ((s.mnt m).mntRefcnt = 1 → s.parent m ≠ 0)) :
    ∃ ys, MountInv (vfsMountPut s m) ys := by
  unfold vfsMountPut
  by_cases hzero : m = 0
  · rw [if_pos hzero]
    exact ⟨xs, h⟩
  obtain ⟨hlive, hlast⟩ := hm.resolve_left hzero
  rw [if_neg hzero]
  have hset := h.setRefcnt m ((s.mnt m).mntRefcnt - 1)
  have hmnt := mnt_setRefcnt (s := s) (m := m) ((s.mnt m).mntRefcnt - 1) m
  rw [if_pos rfl] at hmnt
  have hparent : ((s.setRefcnt m ((s.mnt m).mntRefcnt - 1)).mnt m).mntParent = s.parent m :=
    (congrArg MountFields.mntParent hmnt).trans rfl
  have hrefcnt : ((s.setRefcnt m ((s.mnt m).mntRefcnt - 1)).mnt m).mntRefcnt
      = (s.mnt m).mntRefcnt - 1 := congrArg MountFields.mntRefcnt hmnt
  dsimp only
  rw [hrefcnt]
  by_cases hend : (s.mnt m).mntRefcnt - 1 = 0
  · have hne : ((s.setRefcnt m ((s.mnt m).mntRefcnt - 1)).mnt m).mntParent ≠ 0 := by
      rw [hparent]
      exact hlast (sub_eq_zero.mp hend)
    rw [if_pos hend, if_pos hne]
    exact ⟨xs.erase m, hset.erase ((h.mem_iff m).mpr hlive) hne⟩
  · rw [if_neg hend]
    exact ⟨xs, hset⟩

theorem exec (h : MountInv s xs) {op : MountOp} (hop : op.Careful s) :
    ∃ ys, MountInv (op.exec s) ys := by
  cases op with
  | mountRoot fsType mount memory refcnt => exact h.mountRoot hop
  | mountTo targetPath fsType lookup isDir mount memory => exact h.mountTo hop
  | get m => exact ⟨xs, h.get m⟩
  | put m => exact h.put hop

/-! ### Lookups -/

theorem find_view (h : MountInv s xs) (p : Mount → Bool) :
    (xs.map s.view).find? p
      = if (xs.find? (p ∘ s.view)).getD 0 = 0 then none
        else some (s.view ((xs.find? (p ∘ s.view)).getD 0)) := by
  rw [List.find?_map]
  cases hfind : xs.find? (p ∘ s.view) with
  | none => exact (if_pos rfl).symm
  | some m => exact (if_neg (h.ne_zero (List.mem_of_find?_eq_some hfind))).symm

/-- The loop over the list finds the mount that path lookup has. -/
theorem lookupMount {W : Type} (h : MountInv s xs) {st : Vfs W} (hst : st.mounts = xs.map s.view)
    (d : Addr) : ∃ m, lookupMount s st.dc.dentry d = some m
      ∧ vfsLookupMount st d = if m = 0 then none else some (s.view m) := by
  unfold Fs.lookupMount vfsLookupMount
  by_cases hd : d = 0
  · rw [if_pos hd, if_pos hd]
    exact ⟨0, rfl, (if_pos rfl).symm⟩
  · rw [if_neg hd, if_neg hd, hst, h.circle.scan_next _ (length_lt_rounds h.circle)]
    exact ⟨_, rfl, h.find_view _⟩

end MountInv

theorem MountRun.tail {s₀ : MountTable} {ops : List MountOp} {op : MountOp}
    (run : MountRun s₀ ops s) (hop : op.Careful s) : MountRun s₀ (ops ++ [op]) (op.exec s) :=
  Lts.Run.tail run (e := some op) ⟨op, hop, rfl, rfl⟩

theorem MountRun.inv {mnt : Addr → MountFields} {mountList mounts : Links Addr} {ops : List MountOp}
    (run : MountRun (mountInit mnt mountList mounts) ops s) : ∃ xs, MountInv s xs := by
  refine run.invariant (P := fun s => ∃ xs, MountInv s xs) ⟨[], mountInv_init _ _ _⟩ ?_
  rintro s e t ⟨xs, h⟩ ⟨op, hop, -, heq⟩
  obtain rfl := Option.some.inj heq
  exact h.exec hop

end NoobKernel.Fs
