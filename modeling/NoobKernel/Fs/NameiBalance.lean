import NoobKernel.Fs.NameiParentRefs
import NoobKernel.Fs.NameiRoute

set_option autoImplicit false

/-! # Paths that lose references

A lookup that fails has given up the base already when it is past the first component, and
`vfs_path_parent` keeps its reference to the base when it is. So over all file systems and states
it is the number of names that decides: a path with at most one name leaves no reference behind,
and on every longer one a file in a directory is enough to lose one.
-/

namespace NoobKernel.Fs

open Tally

variable {W : Type} {fs : FileSystem W} {st st' : Vfs W} {base : Addr} {name path : List UInt8}
  {flags : UInt32}

/-- A failed lookup of the path leaves all counts as they were, over every file system, in every
state and from every base. -/
def ErrorsNeutral (path : List UInt8) (flags : UInt32) : Prop :=
  ∀ (W : Type) (fs : FileSystem W) (st : Vfs W) (base : Addr), st.Sound →
    base = 0 ∨ st.dc.live base = true → ∀ err st',
      vfsPathLookup fs st base path flags = (.error err, st') → NeutralError st st'

/-- A look for the directory of the last component takes one reference, to that directory, and none
when it fails. -/
def ParentNeutral (path : List UInt8) : Prop :=
  ∀ (W : Type) (fs : FileSystem W) (st : Vfs W) (base : Addr), st.Sound →
    base = 0 ∨ st.dc.live base = true →
      match vfsPathParent fs st base path with
      | (.ok (parent, _), st') => NeutralOk st parent.dentry st'
      | (.error _, st') => NeutralError st st'

/-! ## At most one name -/

theorem length_namesOf_le_one (path : List UInt8) : (namesOf path).length ≤ 1
    ↔ vfsSkipSlashes ((vfsSkipSlashes path).drop (vfsGetName (vfsSkipSlashes path)).length)
      = [] := by
  have hstart := head?_skipSlashes_ne path
  unfold namesOf
  generalize vfsSkipSlashes path = p at hstart ⊢
  by_cases hp : p = []
  · subst hp
    exact iff_of_true (Nat.zero_le _) rfl
  have hlt := length_rest_lt (getName_ne_nil hp hstart)
  generalize hrest : vfsSkipSlashes (p.drop (vfsGetName p).length) = rest at hlt ⊢
  obtain ⟨fuel, hfuel⟩ := Nat.exists_eq_succ_of_ne_zero
    (List.length_pos_of_ne_nil hp).ne'
  rw [hfuel] at hlt ⊢
  rw [pathNames, if_neg hp, hrest, List.length_cons]
  cases rest with
  | nil => exact iff_of_true (by rw [pathNames_nil]; exact le_rfl) rfl
  | cons c rest =>
      refine iff_of_false (fun h => ?_) (List.cons_ne_nil _ _)
      cases fuel with
      | zero => exact absurd hlt (by rw [List.length_cons]; omega)
      | succ fuel =>
          rw [pathNames, if_neg (List.cons_ne_nil _ _), List.length_cons] at h
          omega

/-- A lookup of one name that fails has taken no step. -/
theorem pathSteps_of_error (hone : (namesOf path).length ≤ 1) {err : Int}
    (h : vfsPathLookup fs st base path flags = (.error err, st')) :
    pathSteps fs st base path = [] := by
  rw [length_namesOf_le_one] at hone
  unfold vfsPathLookup at h
  unfold pathSteps
  simp only at h ⊢
  by_cases hstart : startOf st base = 0
  · rw [if_pos hstart]
  rw [if_neg hstart] at h ⊢
  unfold vfsPathWalk at h
  rw [if_neg hstart] at h
  simp only at h
  generalize vfsSkipSlashes path = p at hone h ⊢
  by_cases hp : p = []
  · rw [if_pos hp] at h
    cases h
  rw [if_neg hp] at h
  cases hlength : p.length with
  | zero => rfl
  | succ fuel =>
      rw [hlength] at h
      unfold vfsPathWalkLoop at h
      unfold walkSteps
      simp only at h ⊢
      generalize vfsWalkComponent fs (st.dentryGet (startOf st base)) (startOf st base)
        (vfsGetName p) = r at h ⊢
      obtain ⟨err | next, st₁⟩ := r
      · rfl
      · simp only at h
        rw [if_pos hone] at h
        cases h

variable (fs st base) in
theorem parentSteps_of_one (hone : (namesOf path).length ≤ 1) :
    parentSteps fs st base path = [] := by
  rw [length_namesOf_le_one] at hone
  unfold parentSteps
  split
  · rfl
  simp only
  cases (vfsSkipSlashes path).length with
  | zero => rfl
  | succ fuel =>
      unfold parentLoopSteps
      exact if_pos (.inr hone)

/-! ## A file in the root directory -/

/-- Every name is that of a file. -/
def fileFs : FileSystem Nat := nameFs fun _ => 2

/-- A file system in which nothing is a directory. -/
def plainFs : FileSystem Nat := { fileFs with iMode := fun _ _ => S_IFREG }

def rootHeld : Vfs Nat := rootOnly.dentryGet 0x80001000

theorem sound_rootHeld : rootHeld.Sound := sound_rootOnly.get 0x80001000

/-- The first name leads to a new dentry, and that is no directory. -/
theorem fileLookup (hslash : 47 ∉ name) (hlen : UInt32.ofNat name.length ≠ 0) : ∃ s',
    vfsLookupSingle fileFs rootHeld 0x80001000 name (UInt32.ofNat name.length)
        = (.ok 0x80000000, s')
      ∧ LookedUp rootHeld 0x80000000 s' ∧ vfsLookupMount s' 0x80000000 = none
      ∧ isDirectory fileFs s' 0x80000000 = false := by
  have hbase : lookupBase rootHeld 0x80001000 = 0x80001000 := by decide
  have hinval : ¬((0x80001000 : Addr) = 0 ∨ UInt32.ofNat name.length = 0) :=
    not_or.mpr ⟨by decide, hlen⟩
  have hsingle : vfsLookupSingle fileFs rootHeld 0x80001000 name (UInt32.ofNat name.length)
      = vfsLookupNew fileFs rootHeld 0x80001000 name := by
    unfold vfsLookupSingle
    rw [if_neg hinval]
    simp only
    rw [hbase]
    rfl
  have hnew : vfsLookupNew fileFs rootHeld 0x80001000 name
      = (.ok 0x80000000, (vfsLookupNew fileFs rootHeld 0x80001000 name).2) := rfl
  have hlive : rootHeld.dc.live 0x80001000 = true := rfl
  have hspec := vfsLookupNew_spec fileFs sound_rootHeld hlive name
  rw [hnew] at hspec
  have hmade := made_of_lookupNew (fillsIn_nameFs _) sound_rootHeld hlive hnew
  have hmount : mountOn rootHeld 0x80001000 name = none :=
    ((SameTree.get rootOnly 0x80001000).mountOn _ _).trans (mountOn_rootOnly hslash)
  refine ⟨_, hsingle.trans hnew, hspec, hmade.lookupMount sound_rootHeld hmount, ?_⟩
  · -- the inode that the file system has filled in, whether the dentry is cached or not
    have hinode : ((vfsLookupNew fileFs rootHeld 0x80001000 name).2.dc.dentry 0x80000000).dInode
        = 2 :=
      congrArg Dentry.dInode (congrFun (dentryInsert_same fileFs
        (((rootHeld.dentryAlloc fileFs 0x80001000 0x80002000 name).2).fill 0x80000000 2 1)
        0x80000000).2 0x80000000)
    have hnot : ¬(2 : Addr) = 1 := by decide
    have hmode : ∀ w, fileFs.iMode w 2 = S_IFREG := by
      intro w
      show (if (2 : Addr) = 1 then S_IFDIR else S_IFREG) = S_IFREG
      exact if_neg hnot
    have hfile : sIsDir S_IFREG = false := by decide
    rw [isDirectory, hinode, hmode, hfile, Bool.and_false]

variable (hmore : 1 < (namesOf path).length)

include hmore

/-- There is a name, and more behind it. -/
theorem skipSlashes_of_more : vfsSkipSlashes path ≠ []
    ∧ vfsSkipSlashes ((vfsSkipSlashes path).drop (vfsGetName (vfsSkipSlashes path)).length) ≠ []
    ∧ 47 ∉ vfsGetName (vfsSkipSlashes path)
    ∧ UInt32.ofNat (vfsGetName (vfsSkipSlashes path)).length ≠ 0 := by
  have hrest := mt (length_namesOf_le_one path).mpr (Nat.not_le_of_lt hmore)
  have hp : vfsSkipSlashes path ≠ [] := by
    intro hnil
    rw [hnil] at hrest
    exact hrest rfl
  refine ⟨hp, hrest, ?_, length_getName_ne_zero hp (head?_skipSlashes_ne path)⟩
  have hmem : vfsGetName (vfsSkipSlashes path) ∈ namesOf path := by
    obtain ⟨fuel, hfuel⟩ := Nat.exists_eq_succ_of_ne_zero (List.length_pos_of_ne_nil hp).ne'
    rw [namesOf, hfuel, pathNames, if_neg hp]
    exact List.mem_cons_self
  exact slash_notMem_of_mem_namesOf hmem

/-- The walk goes from the root to the file, and fails there: the root is put twice. -/
theorem fileFs_fails (hdot : vfsGetName (vfsSkipSlashes path) ≠ [46])
    (hdotdot : vfsGetName (vfsSkipSlashes path) ≠ [46, 46]) (flags : UInt32) :
    ∃ st', vfsPathLookup fileFs rootOnly 0 path flags = (.error (-ENOTDIR), st')
      ∧ ¬NeutralError rootOnly st' := by
  obtain ⟨hp, hrest, hslash, hlen⟩ := skipSlashes_of_more hmore
  obtain ⟨s', hlookup, ⟨hext, hlive, hrefs⟩, hmount, hdir⟩ := fileLookup hslash hlen
  have hroot := hext.grows.live 0x80001000 rfl
  have hcomp : vfsWalkComponent fileFs rootHeld 0x80001000 (vfsGetName (vfsSkipSlashes path))
      = (.ok (0x80000000, .norm), s'.dentryPut 0x80001000) := by
    unfold vfsWalkComponent
    rw [if_neg hdot, if_neg hdotdot, hlookup]
    simp only
    rw [followMount, hmount]
  refine ⟨((s'.dentryPut 0x80001000).dentryPut 0x80000000).dentryPut 0x80001000, ?_, fun h => ?_⟩
  · have hstart : startOf rootOnly 0 = 0x80001000 := rfl
    obtain ⟨fuel, hfuel⟩ := Nat.exists_eq_succ_of_ne_zero (List.length_pos_of_ne_nil hp).ne'
    unfold vfsPathLookup vfsPathWalk
    simp only
    rw [hstart, if_neg (by decide), if_neg (by decide), if_neg hp, hfuel, vfsPathWalkLoop]
    simp only
    rw [show rootOnly.dentryGet 0x80001000 = rootHeld from rfl, hcomp]
    simp only
    rw [if_neg hrest, if_pos (((SameTree.put s' 0x80001000).isDirectory _).trans hdir)]
  · have hsound := hext.sound.put 0x80001000
    have h₁ := hext.sound.refs_put hroot 0x80001000
    have h₂ := hsound.refs_put ((grows_put s' 0x80001000).live _ hlive) 0x80001000
    have h₃ := (hsound.put 0x80000000).refs_put ((grows_put _ 0x80000000).live _
      ((grows_put s' 0x80001000).live _ hroot)) 0x80001000
    have hself : tally [(0x80001000 : Addr)] 0x80001000 = 1 := by decide
    have hother : tally [(0x80000000 : Addr)] 0x80001000 = 0 := by decide
    have hone : rootOnly.dc.refs 0x80001000 = 1 := rfl
    rw [h 0x80001000, hone, hself] at h₃
    rw [← h₃, hother] at h₂
    rw [← h₂, hself, hrefs] at h₁
    exact absurd h₁ (by decide)

/-- Dots stay at the root, which is no directory here. -/
theorem plainFs_fails (hdots : vfsGetName (vfsSkipSlashes path) = [46]
      ∨ vfsGetName (vfsSkipSlashes path) = [46, 46]) (flags : UInt32) :
    ∃ st', vfsPathLookup plainFs rootOnly 0 path flags = (.error (-ENOTDIR), st')
      ∧ ¬NeutralError rootOnly st' := by
  obtain ⟨hp, hrest, -, -⟩ := skipSlashes_of_more hmore
  have hcomp : ∃ lastType, vfsWalkComponent plainFs rootHeld 0x80001000
      (vfsGetName (vfsSkipSlashes path)) = (.ok (0x80001000, lastType), rootHeld) := by
    rcases hdots with hdot | hdotdot
    · rw [hdot]
      exact ⟨.dot, rfl⟩
    · rw [hdotdot]
      exact ⟨.dotdot, rfl⟩
  obtain ⟨lastType, hcomp⟩ := hcomp
  refine ⟨(rootHeld.dentryPut 0x80001000).dentryPut 0x80001000, ?_, fun h => ?_⟩
  · have hstart : startOf rootOnly 0 = 0x80001000 := rfl
    obtain ⟨fuel, hfuel⟩ := Nat.exists_eq_succ_of_ne_zero (List.length_pos_of_ne_nil hp).ne'
    unfold vfsPathLookup vfsPathWalk
    simp only
    rw [hstart, if_neg (by decide), if_neg (by decide), if_neg hp, hfuel, vfsPathWalkLoop]
    simp only
    rw [show rootOnly.dentryGet 0x80001000 = rootHeld from rfl, hcomp]
    simp only
    rw [if_neg hrest, if_pos (by decide)]
  · exact absurd (h 0x80001000) (by decide)

/-- `vfs_path_parent` goes from the root to the file, and ends there or fails. -/
theorem parentSteps_fileFs :
    parentSteps fileFs rootOnly 0 path = [.down 0x80001000 0x80000000 none] := by
  obtain ⟨hp, hrest, hslash, hlen⟩ := skipSlashes_of_more hmore
  obtain ⟨s', hlookup, -, hmount, hdir⟩ := fileLookup hslash hlen
  have hstart : startOf rootOnly 0 = 0x80001000 := rfl
  obtain ⟨fuel, hfuel⟩ := Nat.exists_eq_succ_of_ne_zero (List.length_pos_of_ne_nil hp).ne'
  unfold parentSteps
  simp only
  rw [hstart, if_neg (by decide), hfuel, parentLoopSteps]
  simp only
  rw [if_neg (not_or.mpr ⟨hp, hrest⟩), show rootOnly.dentryGet 0x80001000 = rootHeld from rfl,
    hlookup]
  simp only
  have hfollow : followMount s' 0x80000000 = (0x80000000, s') := by
    rw [followMount, hmount]
  have hstep : parentStep rootHeld 0x80001000 (.ok 0x80000000, s')
      = .down 0x80001000 0x80000000 none := by
    unfold parentStep
    simp only
    rw [hfollow]
    rfl
  rw [hstep, hfollow, if_neg (not_not.mpr rfl)]
  refine congrArg (_ :: ·) ?_
  -- nothing can be looked up in the file
  generalize vfsSkipSlashes _ = rest
  cases fuel with
  | zero => rfl
  | succ fuel =>
      obtain ⟨err, hfails⟩ : ∃ err, vfsLookupSingle fileFs s' 0x80000000 (vfsGetName rest)
          (UInt32.ofNat (vfsGetName rest).length) = (.error err, s') := by
        unfold vfsLookupSingle
        split
        · exact ⟨_, rfl⟩
        · simp only
          rw [lookupBase, hmount]
          exact ⟨_, if_pos hdir⟩
      unfold parentLoopSteps
      simp only
      rw [hfails]
      by_cases hlast : rest = [] ∨ vfsSkipSlashes (rest.drop (vfsGetName rest).length) = []
      · rw [if_pos hlast]
      · rw [if_neg hlast]

omit hmore

/-! ## The paths on which no reference is lost -/

/-- **References on failure.** Exactly on the paths of at most one name a lookup that fails leaves
all counts as they were. -/
theorem vfsPathLookup_error_neutral_iff (path : List UInt8) (flags : UInt32) :
    ErrorsNeutral path flags ↔ (namesOf path).length ≤ 1 := by
  constructor
  · intro h
    by_contra hmore
    rw [Nat.not_le] at hmore
    by_cases hdots : vfsGetName (vfsSkipSlashes path) = [46]
        ∨ vfsGetName (vfsSkipSlashes path) = [46, 46]
    · obtain ⟨st', hfails, hnot⟩ := plainFs_fails hmore hdots flags
      exact hnot (h Nat _ _ 0 sound_rootOnly (.inl rfl) _ _ hfails)
    · obtain ⟨hdot, hdotdot⟩ := not_or.mp hdots
      obtain ⟨st', hfails, hnot⟩ := fileFs_fails hmore hdot hdotdot flags
      exact hnot (h Nat _ _ 0 sound_rootOnly (.inl rfl) _ _ hfails)
  · intro hone W fs st base hs hbase err st' h
    rw [neutralError_iff_steps hs hbase h, pathSteps_of_error hone h]
    exact fun _ => rfl

/-- There is a directory `/a`, but no `/a/b`: the root loses the reference it had, and the new
dentry of `/a` keeps one. -/
theorem not_neutral_error : rootOnly.Sound ∧ ∃ st',
    vfsPathLookup (nameFs fun name => if name = [97] then 1 else 0) rootOnly 0 [47, 97, 47, 98] 0
        = (.error (-ENOENT), st')
      ∧ rootOnly.dc.refs 0x80001000 = 1 ∧ st'.dc.refs 0x80001000 = 0
      ∧ rootOnly.dc.refs 0x80000000 = 0 ∧ st'.dc.refs 0x80000000 = 1
      ∧ ¬NeutralError rootOnly st' := by
  have herr : vfsPathLookup (nameFs fun name => if name = [97] then 1 else 0) rootOnly 0
      [47, 97, 47, 98] 0 = (.error (-ENOENT), (vfsPathLookup
        (nameFs fun name => if name = [97] then 1 else 0) rootOnly 0 [47, 97, 47, 98] 0).2) := rfl
  have hroot : (vfsPathLookup (nameFs fun name => if name = [97] then 1 else 0) rootOnly 0
      [47, 97, 47, 98] 0).2.dc.refs 0x80001000 = 0 := by decide
  refine ⟨sound_rootOnly, _, herr, rfl, hroot, rfl, by decide, fun h => ?_⟩
  have hzero := h 0x80001000
  rw [hroot] at hzero
  exact absurd hzero (by decide)

/-- **The directory of the last component.** Exactly on the paths of at most one name
`vfs_path_parent` takes one reference, to the directory, and none when it fails. -/
theorem vfsPathParent_neutral_iff (path : List UInt8) :
    ParentNeutral path ↔ (namesOf path).length ≤ 1 := by
  constructor
  · intro h
    by_contra hmore
    rw [Nat.not_le] at hmore
    have hiff := parentNeutral_iff_steps fileFs sound_rootOnly (.inl rfl) path
    have hneutral := h Nat fileFs rootOnly 0 sound_rootOnly (.inl rfl)
    rw [parentSteps_fileFs hmore] at hiff
    generalize vfsPathParent fileFs rootOnly 0 path = r at hiff hneutral
    obtain ⟨err | ⟨parent, last⟩, st'⟩ := r
    · -- the file keeps a reference
      exact absurd (hiff.mp hneutral 0x80000000) (by decide)
    · -- the root does
      exact absurd (hiff.mp hneutral 0x80001000) (by decide)
  · intro hone W fs st base hs hbase
    have hiff := parentNeutral_iff_steps fs hs hbase path
    rw [parentSteps_of_one fs st base hone] at hiff
    generalize vfsPathParent fs st base path = r at hiff ⊢
    obtain ⟨err | ⟨parent, last⟩, st'⟩ := r
    · exact hiff.mpr fun _ => rfl
    · exact hiff.mpr fun _ => rfl

/-- The directory of `/a/b` is `/a`, and there is one reference more to the root as well. When
there is no `/a/b`, a look for the directory of `/a/b/c` leaves one to the new dentry of `/a`. -/
theorem not_vfsPathParent_neutral : rootOnly.Sound
    ∧ (∃ st', vfsPathParent (nameFs fun _ => 1) rootOnly 0 [47, 97, 47, 98]
          = (.ok (⟨0x80000000, 1⟩, qstrInit [98]), st')
        ∧ rootOnly.dc.refs 0x80001000 = 1 ∧ st'.dc.refs 0x80001000 = 2
        ∧ ¬NeutralOk rootOnly 0x80000000 st')
    ∧ ∃ st', vfsPathParent (nameFs fun name => if name = [97] then 1 else 0) rootOnly 0
          [47, 97, 47, 98, 47, 99] = (.error (-ENOENT), st')
        ∧ rootOnly.dc.refs 0x80000000 = 0 ∧ st'.dc.refs 0x80000000 = 1
        ∧ ¬NeutralError rootOnly st' := by
  have hok : vfsPathParent (nameFs fun _ => 1) rootOnly 0 [47, 97, 47, 98]
      = (.ok (⟨0x80000000, 1⟩, qstrInit [98]),
        (vfsPathParent (nameFs fun _ => 1) rootOnly 0 [47, 97, 47, 98]).2) := rfl
  have hroot : (vfsPathParent (nameFs fun _ => 1) rootOnly 0 [47, 97, 47, 98]).2.dc.refs 0x80001000
      = 2 := by decide
  have herr : vfsPathParent (nameFs fun name => if name = [97] then 1 else 0) rootOnly 0
      [47, 97, 47, 98, 47, 99] = (.error (-ENOENT), (vfsPathParent
        (nameFs fun name => if name = [97] then 1 else 0) rootOnly 0
        [47, 97, 47, 98, 47, 99]).2) := rfl
  have hnew : (vfsPathParent (nameFs fun name => if name = [97] then 1 else 0) rootOnly 0
      [47, 97, 47, 98, 47, 99]).2.dc.refs 0x80000000 = 1 := by decide
  refine ⟨sound_rootOnly, ⟨_, hok, rfl, hroot, fun h => ?_⟩, _, herr, rfl, hnew, fun h => ?_⟩
  · have hone := h 0x80001000
    rw [hroot] at hone
    exact absurd hone (by decide)
  · have hzero := h 0x80000000
    rw [hnew] at hzero
    exact absurd hzero (by decide)

end NoobKernel.Fs
