import NoobKernel.Fs.NameiBalance
import NoobKernel.Fs.VfsRun

set_option autoImplicit false

/-! # References of an open file

`file_open` takes a reference to the dentry, and `file_close` gives it up. What is left when a file
has been opened and closed is the reference from the walk, or from `dentry_alloc`, which
`vfs_open` gives up only when `file_open` fails; a dentry that the walk found in use has none.
-/

namespace NoobKernel.Fs

open Tally

variable {W : Type} {ops : VfsOps W} {st st' : Vfs W} {s s' s'' : VfsState W} {d e f : Addr}
  {path : List UInt8} {flags : UInt32}

/-- The walk finds `d`, or goes up to it, `n` times more often than it goes up from it. -/
def FoundTimes (n : Nat) (d : Addr) (steps : List WalkStep) : Prop :=
  ((steps.flatMap WalkStep.ups).map Prod.snd ++ steps.flatMap WalkStep.found).count d
    ≡ n + ((steps.flatMap WalkStep.ups).map Prod.fst).count d [MOD 2 ^ 32]

/-- The path leads to a dentry that is found in use, once. -/
def ClosesNeutral (fs : FileSystem W) (st : Vfs W) (path : List UInt8) : Prop :=
  match vfsPathLookup fs st 0 path LOOKUP_FOLLOW with
  | (.ok d, _) => FoundTimes 1 d (pathSteps fs st 0 path)
  | (.error _, _) => False

/-- The dentry is new, be it that the path leads to it or that it has been created. -/
def FailsNeutral (fs : FileSystem W) (st : Vfs W) (path : List UInt8) : Prop :=
  match vfsPathLookup fs st 0 path LOOKUP_FOLLOW with
  | (.ok d, _) => FoundTimes 0 d (pathSteps fs st 0 path)
  | (.error _, _) => True

/-- How often the cache has the dentry that the path leads to on its way, where it has all of the
path. -/
def timesFound (st : Vfs W) (path : List UInt8) : Option Nat :=
  (cachedRoute st (startOf st 0) (namesOf path)).map fun (found, e) => found.count e

/-- A path without `.` and `..`. -/
def NormalPath (path : List UInt8) : Prop := ∀ name ∈ namesOf path, name ≠ [46] ∧ name ≠ [46, 46]

instance (path : List UInt8) : Decidable (NormalPath path) :=
  inferInstanceAs (Decidable (∀ name ∈ namesOf path, _))

/-- A state in which the file is as it was opened, with no other reference to its dentry. -/
structure LeftOpen (f : Addr) (s s' : VfsState W) : Prop where
  file : s'.files.file f = s.files.file f
  live : s'.vfs.dc.live (s.files.file f).fDentry = true
  refs : s'.vfs.dc.refs (s.files.file f).fDentry = s.vfs.dc.refs (s.files.file f).fDentry

variable (ops) in
/-- The dentry of the file, once it is closed, has the references that it had before the file was
opened. -/
def CloseNeutral (s : VfsState W) (f : Addr) (s' s'' : VfsState W) : Prop :=
  (vfsClose ops s'' f).2.vfs.dc.refs (s'.files.file f).fDentry
    = s.vfs.dc.refs (s'.files.file f).fDentry

/-! ## Files -/

theorem fileAlloc_ok {files files' : Files} {memory : Addr}
    (h : fileAlloc files memory = (.ok f, files')) :
    f ≠ 0 ∧ files'.file f = ⟨0, 0, none, 0, 0, 0, 1⟩ := by
  unfold fileAlloc at h
  split at h
  · cases h
  · rename_i hnull
    cases h
    exact ⟨hnull, Function.update_self _ _ _⟩

/-- An open file has one reference, and takes one to its dentry. -/
theorem fileOpen_ok (h : s.fileOpen ops d flags = (.ok f, s')) : f ≠ 0 ∧ d ≠ 0
    ∧ (s'.files.file f).fDentry = d ∧ (s'.files.file f).fRefcnt = 1
    ∧ s'.vfs.dc = dentryGet s.vfs.dc d := by
  obtain ⟨memory, iMode, iFop, ret, world, r, -, hr, hrun⟩ := s.fileOpen_eq ops d flags
  rw [hrun, ← hr] at h
  unfold Fs.fileOpen at h
  simp only at h
  by_cases hinode : d = 0 ∨ (s.vfs.dc.dentry d).dInode = 0
  · rw [if_pos hinode] at h
    cases h
  rw [if_neg hinode] at h
  generalize halloc : fileAlloc s.files memory = r at h
  obtain ⟨err | g, files⟩ := r
  · cases h
  obtain ⟨hnull, hfile⟩ := fileAlloc_ok halloc
  simp only at h
  split at h
  · cases h
  · cases h
    refine ⟨hnull, (not_or.mp hinode).1, ?_, ?_, rfl⟩
    · exact congrArg File.fDentry (Function.update_self f _ files.file)
    · have hrefcnt := congrArg File.fRefcnt hfile
      exact (congrArg File.fRefcnt (Function.update_self f _ files.file)).trans hrefcnt

/-- A file that cannot be opened leaves the counts alone. -/
theorem fileOpen_error {err : Int} (hd : s.vfs.dc.live d = true) (hnull : d ≠ 0)
    (h : s.fileOpen ops d flags = (.error err, s')) :
    s'.vfs.dc.live = s.vfs.dc.live ∧ ∀ e, s'.vfs.dc.refs e = s.vfs.dc.refs e := by
  obtain ⟨memory, iMode, iFop, ret, world, r, -, hr, hrun⟩ := s.fileOpen_eq ops d flags
  rw [hrun, ← hr] at h
  unfold Fs.fileOpen at h
  simp only at h
  split at h
  · cases h
    exact ⟨rfl, fun _ => rfl⟩
  generalize fileAlloc s.files memory = r at h
  obtain ⟨err' | g, files⟩ := r
  · cases h
    exact ⟨rfl, fun _ => rfl⟩
  simp only at h
  split at h
  · -- the reference that has been taken is put again
    cases h
    have hget := (sameCache_dentryGet s.vfs.dc d).2.1
    have hput := (sameCache_dentryPut (dentryGet s.vfs.dc d) d).2.1
    refine ⟨hput.trans hget, fun e => ?_⟩
    have hrefs := refs_dentryPut hnull ((congrFun hget d).trans hd) e
    rw [refs_dentryGet hnull hd] at hrefs
    exact add_right_cancel hrefs
  · cases h

variable (ops) in
/-- Closing an open file puts its dentry. -/
theorem vfsClose_refs (hnull : f ≠ 0) (hone : (s.files.file f).fRefcnt = 1)
    (hd : (s.files.file f).fDentry ≠ 0) (hlive : s.vfs.dc.live (s.files.file f).fDentry = true)
    (e : Addr) : (vfsClose ops s f).2.vfs.dc.refs e + tally [(s.files.file f).fDentry] e
      = s.vfs.dc.refs e := by
  have hclose := fileClose_eq hnull (s.files, s.vfs.dc)
  rw [if_pos hone] at hclose
  have hdc : (vfsClose ops s f).2.vfs.dc = dentryPut s.vfs.dc (s.files.file f).fDentry :=
    congrArg Prod.snd hclose
  rw [hdc]
  exact refs_dentryPut hd hlive e

/-! ## The dentry -/

theorem Allocated.refs_other {parent : Addr} (h : Allocated st d parent st')
    (hp : st.dc.live parent = true) : parent ≠ d := by
  rintro rfl
  exact Bool.false_ne_true (h.new.symm.trans hp)

variable (ops) in
/-- A dentry that is created has one reference. When it cannot be, what is in use at the end was
so when the directory had been found. -/
theorem vfsOpenCreate_refs (hs : st.Sound) (path : List UInt8) :
    match vfsOpenCreate ops st path with
    | (.ok d, st') => st'.Sound ∧ st'.dc.live d = true ∧ st.dc.live d = false ∧ st'.dc.refs d = 1
    | (.error _, st') => ∀ d, st'.dc.live d = true →
        (vfsPathParent ops.toFileSystem st 0 path).2.dc.live d = true := by
  have hparent := vfsPathParent_spec ops.toFileSystem hs (.inl rfl : (0 : Addr) = 0 ∨ _) path
  unfold vfsOpenCreate
  generalize vfsPathParent ops.toFileSystem st 0 path = x at hparent ⊢
  obtain ⟨err | ⟨parent, last⟩, st₁⟩ := x
  · exact fun _ hd => hd
  obtain ⟨hext, hlive⟩ := hparent
  -- each check that fails puts the parent and creates nothing
  have hput : ∀ d, (st₁.dentryPut parent.dentry).dc.live d = true → st₁.dc.live d = true :=
    fun d hd => (congrFun (sameCache_dentryPut st₁.dc parent.dentry).2.1 d).symm.trans hd
  simp only
  by_cases hnull : parent.dentry = 0
  · rw [if_pos hnull]
    exact fun _ hd => hd
  rw [if_neg hnull]
  by_cases hinode : (st₁.dc.dentry parent.dentry).dInode = 0
  · rw [if_pos hinode]
    exact hput
  rw [if_neg hinode]
  by_cases hdir : sIsDir (ops.iMode st₁.world (st₁.dc.dentry parent.dentry).dInode) = false
  · rw [if_pos hdir]
    exact hput
  rw [if_neg hdir]
  by_cases hop : ops.hasCreate st₁.world (st₁.dc.dentry parent.dentry).dInode = false
  · rw [if_pos hop]
    exact hput
  rw [if_neg hop]
  generalize halloc : st₁.dentryAlloc ops.toFileSystem parent.dentry
    (st₁.dc.dentry parent.dentry).dSb last.name = y
  obtain ⟨err | d, st₂⟩ := y
  · rw [dentryAlloc_error halloc]
    exact hput
  have hnew := dentryAlloc_ok halloc
  simp only
  generalize ops.create st₂.world (st₁.dc.dentry parent.dentry).dInode d (st₂.dc.dentry d)
    (S_IFREG ||| 0o644) = done
  by_cases hret : done.1.ret < 0
  · -- the file system has refused, and the new dentry is freed again
    rw [if_pos hret]
    intro e he
    rw [← hnew.live_free ops.toFileSystem done.1.inode done.2]
    exact (congrFun (sameCache_dentryPut _ parent.dentry).2.1 e).symm.trans he
  · rw [if_neg hret]
    -- it is given its inode, put into the table, and the parent is put
    have hs₂ := (hnew.sound hext.sound hlive).fill d done.1.inode done.2
    obtain ⟨hext₃, hrefs⟩ := hs₂.insert ops.toFileSystem (d := d) hnew.live_self
    have hlive₃ := hext₃.grows.live d hnew.live_self
    have hparent₃ := hext₃.grows.live _ (hnew.grows.live _ hlive)
    have hput₃ := Vfs.Extends.put hext₃.sound parent.dentry
    refine ⟨hput₃.sound, hput₃.grows.live d hlive₃, ?_, ?_⟩
    · have hdead := hnew.new
      rw [← Bool.not_eq_true] at hdead ⊢
      exact fun hd => hdead (hext.grows.live d hd)
    · have hone : (st₂.fill d done.1.inode done.2).dc.refs d = 1 := by
        have hset := refs_setInode st₂.dc d done.1.inode d
        exact hset.trans ((refs_live hnew.live_self).trans hnew.refcnt)
      have hputs := hext₃.sound.refs_put hparent₃ d
      rw [tally_singleton, if_neg (hnew.refs_other hlive).symm, UInt32.add_zero, hrefs d, hone]
        at hputs
      exact hputs

/-- The dentry to open is what the path leads to, or it has been created. -/
theorem vfsOpenDentry_cases (hs : st.Sound) (h : vfsOpenDentry ops st path flags = (.ok d, st')) :
    st'.Sound ∧ st'.dc.live d = true
      ∧ (vfsPathLookup ops.toFileSystem st 0 path LOOKUP_FOLLOW = (.ok d, st')
        ∨ (∃ err vfs, vfsPathLookup ops.toFileSystem st 0 path LOOKUP_FOLLOW = (.error err, vfs))
          ∧ st'.dc.refs d = st.dc.refs d + 1) := by
  have hlookup := vfsPathLookup_spec ops.toFileSystem hs (.inl rfl : (0 : Addr) = 0 ∨ _) path
    LOOKUP_FOLLOW
  unfold vfsOpenDentry at h
  generalize vfsPathLookup ops.toFileSystem st 0 path LOOKUP_FOLLOW = x at h hlookup ⊢
  obtain ⟨err | d', st₁⟩ := x
  · simp only at h
    split at h
    · have hcreate := vfsOpenCreate_refs ops hlookup.1.sound path
      rw [h] at hcreate
      obtain ⟨hsound, hlive, hnew, hone⟩ := hcreate
      have hdead : ¬st.dc.live d = true := by
        rw [← Bool.not_eq_true] at hnew
        exact fun hd => hnew (hlookup.1.grows.live d hd)
      have hzero : st.dc.refs d = 0 := if_neg hdead
      refine ⟨hsound, hlive, .inr ⟨⟨err, st₁, rfl⟩, ?_⟩⟩
      rw [hone, hzero]
      rfl
    · cases h
  · cases h
    exact ⟨hlookup.2.ext.sound, hlookup.2.live, .inl rfl⟩

/-! ## Balance -/

theorem foundTimes_iff {n : Nat} {steps : List WalkStep} : FoundTimes n d steps
    ↔ tally ((steps.flatMap WalkStep.ups).map Prod.snd ++ steps.flatMap WalkStep.found) d
      = UInt32.ofNat n + tally ((steps.flatMap WalkStep.ups).map Prod.fst) d := by
  rw [FoundTimes, ← ofNat_eq_ofNat_iff, UInt32.ofNat_add]
  rfl

open scoped UInt32.CommRing in
/-- With the references that the dentry to open has, the file closed again leaves as many. -/
theorem closesNeutral_iff (hs : st.Sound) (h : vfsOpenDentry ops st path flags = (.ok d, st')) :
    st'.dc.refs d = st.dc.refs d ↔ ClosesNeutral ops.toFileSystem st path := by
  obtain ⟨-, -, hlookup | ⟨⟨err, vfs, hlookup⟩, hone⟩⟩ := vfsOpenDentry_cases hs h
  · have hrefs := vfsPathLookup_refs hs (.inl rfl : (0 : Addr) = 0 ∨ _) hlookup d
    rw [tally_singleton, if_pos rfl] at hrefs
    rw [ClosesNeutral, hlookup]
    simp only
    rw [foundTimes_iff]
    have hofNat : UInt32.ofNat 1 = 1 := rfl
    rw [hofNat]
    constructor
    · intro hneutral
      linear_combination hrefs - hneutral
    · intro hfound
      linear_combination hrefs - hfound
  · rw [ClosesNeutral, hlookup, hone]
    refine iff_of_false (fun heq => ?_) id
    have hzero : (1 : UInt32) = 0 := by linear_combination heq
    exact absurd hzero (by decide)

open scoped UInt32.CommRing in
theorem failsNeutral_iff (hs : st.Sound) (h : vfsOpenDentry ops st path flags = (.ok d, st')) :
    st'.dc.refs d = st.dc.refs d + 1 ↔ FailsNeutral ops.toFileSystem st path := by
  obtain ⟨-, -, hlookup | ⟨⟨err, vfs, hlookup⟩, hone⟩⟩ := vfsOpenDentry_cases hs h
  · have hrefs := vfsPathLookup_refs hs (.inl rfl : (0 : Addr) = 0 ∨ _) hlookup d
    rw [tally_singleton, if_pos rfl] at hrefs
    rw [FailsNeutral, hlookup]
    simp only
    rw [foundTimes_iff]
    have hofNat : UInt32.ofNat 0 = 0 := rfl
    rw [hofNat]
    constructor
    · intro hneutral
      linear_combination hrefs - hneutral
    · intro hfound
      linear_combination hrefs - hfound
  · rw [FailsNeutral, hlookup, hone]
    exact iff_of_true rfl trivial

/-- When there is no dentry to open, none is left in use that came after the directory. -/
theorem vfsOpenDentry_error {err : Int} (hs : st.Sound)
    (h : vfsOpenDentry ops st path flags = (.error err, st')) (hd : st'.dc.live d = true) :
    (vfsPathParent ops.toFileSystem
      (vfsPathLookup ops.toFileSystem st 0 path LOOKUP_FOLLOW).2 0 path).2.dc.live d = true := by
  have hlookup := vfsPathLookup_spec ops.toFileSystem hs (.inl rfl : (0 : Addr) = 0 ∨ _) path
    LOOKUP_FOLLOW
  unfold vfsOpenDentry at h
  generalize vfsPathLookup ops.toFileSystem st 0 path LOOKUP_FOLLOW = y at h hlookup ⊢
  obtain ⟨err' | d', st₁⟩ := y
  · simp only at h
    split at h
    · have hcreate := vfsOpenCreate_refs ops hlookup.1.sound path
      rw [h] at hcreate
      exact hcreate d hd
    · cases h
      have hparent := vfsPathParent_spec ops.toFileSystem hlookup.1.sound
        (.inl rfl : (0 : Addr) = 0 ∨ _) path
      generalize vfsPathParent ops.toFileSystem st' 0 path = z at hparent ⊢
      obtain ⟨err | ⟨parent, last⟩, st₂⟩ := z
      · exact hparent.grows.live d hd
      · exact hparent.1.grows.live d hd
  · cases h

/-- Opening and closing a dentry in use leaves it the references it had. -/
theorem vfsClose_opened {s'' : VfsState W} (hlive : s.vfs.dc.live d = true) (hnull : d ≠ 0)
    (hopen : s.fileOpen ops d flags = (.ok f, s')) (hleft : LeftOpen f s' s'') :
    (vfsClose ops s'' f).2.vfs.dc.refs d = s.vfs.dc.refs d := by
  obtain ⟨hf, -, hfDentry, hone, hdc⟩ := fileOpen_ok hopen
  have hfile : (s''.files.file f).fDentry = d := (congrArg File.fDentry hleft.file).trans hfDentry
  have hlive' := hleft.live
  rw [hfDentry] at hlive'
  have hclose := vfsClose_refs ops hf ((congrArg File.fRefcnt hleft.file).trans hone)
    (hfile ▸ hnull) (hfile ▸ hlive') d
  rw [hfile, tally_singleton, if_pos rfl] at hclose
  have hrefs := hleft.refs
  rw [hfDentry, hdc, refs_dentryGet hnull hlive, tally_singleton, if_pos rfl] at hrefs
  rw [hrefs] at hclose
  exact add_right_cancel hclose

/-! ## What the cache says -/

theorem foundTimes_of_count {n : Nat} {steps : List WalkStep}
    (hups : steps.flatMap WalkStep.ups = []) (hcount : (steps.flatMap WalkStep.found).count d = n)
    (k : Nat) : FoundTimes k d steps ↔ n ≡ k [MOD 2 ^ 32] := by
  rw [FoundTimes, hups, List.map_nil, List.nil_append, hcount]
  exact Iff.rfl

/-- The walk finds the dentry as often as the cache says, and a new one never. -/
theorem foundTimes_route {fs : FileSystem W} (hs : st.Sound) (hnorm : NormalPath path)
    (h : vfsPathLookup fs st 0 path flags = (.ok d, st')) :
    (∀ n, timesFound st path = some n →
        ∀ k, FoundTimes k d (pathSteps fs st 0 path) ↔ n ≡ k [MOD 2 ^ 32])
      ∧ (timesFound st path = none → fs.FillsIn → MountpointsCached st →
        ∀ k, FoundTimes k d (pathSteps fs st 0 path) ↔ 0 ≡ k [MOD 2 ^ 32]) := by
  have hspec := vfsPathLookup_spec fs hs (.inl rfl : (0 : Addr) = 0 ∨ _) path flags
  rw [h] at hspec
  have hwalk := walks_of_lookup h
  have hext := Vfs.Extends.get hs (startOf st 0)
  have hups := hwalk.ups_eq_nil hnorm
  have hcached := hwalk.cached hs hext.sound (SameTree.get st _) hext.grows
    (hext.grows.live _ hspec.1) hnorm
  unfold timesFound
  generalize cachedRoute st (startOf st 0) (namesOf path) = route at hcached ⊢
  obtain _ | ⟨found, e⟩ := route
  · refine ⟨nofun, fun _ hfills hmounts k => foundTimes_of_count hups ?_ k⟩
    obtain ⟨hnew, hlive⟩ := hcached hfills hmounts fun n hn => slash_notMem_of_mem_namesOf hn
    refine List.count_eq_zero.mpr fun hmem => ?_
    rw [hlive d hmem] at hnew
    cases hnew
  · obtain ⟨rfl, hfound⟩ := hcached
    refine ⟨fun n hn k => foundTimes_of_count hups ?_ k, nofun⟩
    rw [hfound]
    exact Option.some.inj hn

/-- A file whose path is in the cache is not created. -/
theorem vfsOpenDentry_cached (hs : st.Sound) (hnorm : NormalPath path)
    (hroute : timesFound st path ≠ none) (h : vfsOpenDentry ops st path flags = (.ok d, st')) :
    vfsPathLookup ops.toFileSystem st 0 path LOOKUP_FOLLOW = (.ok d, st') := by
  unfold vfsOpenDentry at h
  generalize hlookup : vfsPathLookup ops.toFileSystem st 0 path LOOKUP_FOLLOW = x at h
  obtain ⟨err | d', st₁⟩ := x
  · exfalso
    simp only at h
    by_cases hcreate : flags &&& O_CREAT ≠ 0 ∧ err = -ENOENT
    · rw [if_pos hcreate] at h
      by_cases hstart : startOf st 0 = 0
      · -- without a root there is no directory to create it in
        unfold vfsPathLookup at hlookup
        unfold vfsOpenCreate vfsPathParent at h
        simp only at h hlookup
        rw [if_pos hstart] at hlookup
        cases hlookup
        rw [if_pos hstart] at h
        cases h
      · refine vfsPathLookup_cached_error hs hstart hnorm ?_ hlookup hcreate.2
        unfold timesFound at hroute
        exact fun hnone => hroute (by rw [hnone, Option.map_none])
    · rw [if_neg hcreate] at h
      cases h
  · exact h

theorem closesNeutral_route (hs : st.Sound) (hnorm : NormalPath path)
    (h : vfsOpenDentry ops st path flags = (.ok d, st')) :
    (∀ n, timesFound st path = some n →
        (ClosesNeutral ops.toFileSystem st path ↔ n ≡ 1 [MOD 2 ^ 32]))
      ∧ (timesFound st path = none → ops.FillsIn → MountpointsCached st →
        ¬ClosesNeutral ops.toFileSystem st path) := by
  unfold ClosesNeutral
  constructor
  · intro n hn
    have hlookup := vfsOpenDentry_cached hs hnorm (by rw [hn]; exact Option.some_ne_none n) h
    rw [hlookup]
    exact (foundTimes_route hs hnorm hlookup).1 n hn 1
  · intro hnone hfills hmounts
    obtain ⟨-, -, hlookup | ⟨⟨err, vfs, hlookup⟩, -⟩⟩ := vfsOpenDentry_cases hs h
    · rw [hlookup]
      simp only
      rw [(foundTimes_route hs hnorm hlookup).2 hnone hfills hmounts]
      decide
    · rw [hlookup]
      exact id

theorem failsNeutral_route (hs : st.Sound) (hnorm : NormalPath path)
    (h : vfsOpenDentry ops st path flags = (.ok d, st')) :
    (∀ n, timesFound st path = some n →
        (FailsNeutral ops.toFileSystem st path ↔ n ≡ 0 [MOD 2 ^ 32]))
      ∧ (timesFound st path = none → ops.FillsIn → MountpointsCached st →
        FailsNeutral ops.toFileSystem st path) := by
  unfold FailsNeutral
  constructor
  · intro n hn
    have hlookup := vfsOpenDentry_cached hs hnorm (by rw [hn]; exact Option.some_ne_none n) h
    rw [hlookup]
    exact (foundTimes_route hs hnorm hlookup).1 n hn 0
  · intro hnone hfills hmounts
    obtain ⟨-, -, hlookup | ⟨⟨err, vfs, hlookup⟩, -⟩⟩ := vfsOpenDentry_cases hs h
    · rw [hlookup]
      simp only
      rw [(foundTimes_route hs hnorm hlookup).2 hnone hfills hmounts]
    · rw [hlookup]
      exact trivial

/-- The operations of a file system that fills in the dentries it is given. -/
def fileOps : VfsOps Nat := { linkOps with toFileSystem := fileFs }

/-- `/a` is open, there. -/
def fileA : VfsState Nat := (vfsOpen fileOps nothingOpen [47, 97] 0).2

theorem leftOpen_fileA : LeftOpen 0x80010000 fileA fileA := by
  refine ⟨rfl, ?_, rfl⟩
  decide

end NoobKernel.Fs
