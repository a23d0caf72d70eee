import NoobKernel.Fs.NameiRefs

set_option autoImplicit false

/-! # References along a path

The walk holds a reference to the dentry it is at, and a component for which there is a new dentry
moves it on. Two kinds of steps are out of balance: `..` moves on and leaves the reference behind,
and a dentry that was there before, which the cache or the file system returns, is not referenced
at all. A `WalkStep` says what a component does, and the counts at the end follow from the steps.
-/

namespace NoobKernel.Fs

open Tally

variable {W : Type} {fs : FileSystem W} {st st' : Vfs W} {dentry base d e : Addr}
  {name path : List UInt8}

inductive WalkStep
  | stay
  | up (dentry parent : Addr)
  /-- `found` is a dentry that was there before -/
  | down (dentry next : Addr) (found : Option Addr)
  /-- the walk ends at a dentry that is no directory -/
  | notDir (dentry : Addr)
  deriving DecidableEq

namespace WalkStep

/-- The dentries that the step takes a reference to. -/
def gets : WalkStep → List Addr
  | down _ next _ => [next]
  | stay | up _ _ | notDir _ => []

/-- The dentries that the step gives a reference up to, or one it does not have. -/
def puts : WalkStep → List Addr
  | down dentry _ found => dentry :: found.toList
  | notDir dentry => [dentry]
  | stay | up _ _ => []

def found : WalkStep → List Addr
  | down _ _ found => found.toList
  | stay | up _ _ | notDir _ => []

def ups : WalkStep → List (Addr × Addr)
  | up dentry parent => [(dentry, parent)]
  | stay | down _ _ _ | notDir _ => []

def moves : WalkStep → List (Addr × Addr)
  | up dentry parent => [(dentry, parent)]
  | down dentry next _ => [(dentry, next)]
  | stay | notDir _ => []

def notDirs : WalkStep → List Addr
  | notDir dentry => [dentry]
  | stay | up _ _ | down _ _ _ => []

end WalkStep

/-- What a component does, as long as it does not fail. -/
def walkStep (fs : FileSystem W) (st : Vfs W) (dentry : Addr) (name : List UInt8) : WalkStep :=
  if name = [46] then .stay
  else if name = [46, 46] then
    let parent := (st.dc.dentry dentry).dParent
    if parent ≠ 0 ∧ parent ≠ dentry then .up dentry parent else .stay
  else
    match vfsLookupSingle fs st dentry name (UInt32.ofNat name.length) with
    | (.error _, _) => .stay
    | (.ok next, st') =>
        .down dentry (followMount st' next).1 (if st.dc.live next then some next else none)

/-- The steps of the loop. -/
def walkSteps (fs : FileSystem W) : Nat → Vfs W → Addr → List UInt8 → List WalkStep
  | 0, _, _, _ => []
  | fuel + 1, st, dentry, path =>
      let name := vfsGetName path
      match vfsWalkComponent fs st dentry name with
      | (.error _, _) => []
      | (.ok (next, _), st') =>
          let rest := vfsSkipSlashes (path.drop name.length)
          walkStep fs st dentry name ::
            if rest = [] then []
            else if isDirectory fs st' next = false then [.notDir next]
            else walkSteps fs fuel st' next rest

/-- The steps of `vfs_path_lookup`. -/
def pathSteps (fs : FileSystem W) (st : Vfs W) (base : Addr) (path : List UInt8) :
    List WalkStep :=
  if startOf st base = 0 then []
  else
    let path := vfsSkipSlashes path
    walkSteps fs path.length (st.dentryGet (startOf st base)) (startOf st base) path

/-- The references that `vfs_path_lookup` should take on success: one, to the dentry returned. -/
def NeutralOk (st : Vfs W) (d : Addr) (st' : Vfs W) : Prop :=
  ∀ e, st'.dc.refs e = st.dc.refs e + if e = d then 1 else 0

/-- The walk leaves each dentry with `..` as often as it enters it that way or finds it. -/
def UpsBalanced (steps : List WalkStep) : Prop :=
  ∀ e, ((steps.flatMap WalkStep.ups).map Prod.fst).count e
    ≡ ((steps.flatMap WalkStep.ups).map Prod.snd).count e + (steps.flatMap WalkStep.found).count e
      [MOD 2 ^ 32]

/-- The references that a failed `vfs_path_lookup` should take: none. -/
def NeutralError (st st' : Vfs W) : Prop := ∀ e, st'.dc.refs e = st.dc.refs e

/-- The walk takes as many references to each dentry as it gives up. -/
def DownsBalanced (steps : List WalkStep) : Prop :=
  ∀ e, (steps.flatMap WalkStep.gets).count e ≡ (steps.flatMap WalkStep.puts).count e [MOD 2 ^ 32]

/-! ## One component -/

theorem Vfs.Sound.refs_get (hs : st.Sound) (hd : st.dc.live d = true) (e : Addr) :
    (st.dentryGet d).dc.refs e = st.dc.refs e + tally [d] e := refs_dentryGet (hs.ne_zero hd) hd e

theorem Vfs.Sound.refs_put (hs : st.Sound) (hd : st.dc.live d = true) (e : Addr) :
    (st.dentryPut d).dc.refs e + tally [d] e = st.dc.refs e := refs_dentryPut (hs.ne_zero hd) hd e

open scoped UInt32.CommRing in
theorem followMount_spec (hs : st.Sound) (hd : st.dc.live d = true) :
    st.Extends (followMount st d).2 ∧ (followMount st d).2.dc.live (followMount st d).1 = true
      ∧ ∀ e, (followMount st d).2.dc.refs e + tally [d] e
        = st.dc.refs e + tally [(followMount st d).1] e := by
  unfold followMount
  split
  · rename_i mnt hmnt
    have hroot := hs.mount mnt (vfsLookupMount_mem hmnt)
    have hput := Vfs.Extends.put hs d
    have hroot' := hput.grows.live _ hroot
    have hget := Vfs.Extends.get hput.sound mnt.mntRoot
    refine ⟨hput.trans hget, hget.grows.live _ hroot', fun e => ?_⟩
    have h₁ := hs.refs_put hd e
    have h₂ := hput.sound.refs_get hroot' e
    linear_combination h₁ + h₂
  · exact ⟨.refl hs, hd, fun _ => rfl⟩

open scoped UInt32.CommRing in
/-- A dentry that was there before is not referenced when it is found, and may be left for the
root of a file system. -/
theorem lookedUp_followMount {next : Addr} (h : LookedUp st next st') :
    st.Extends (followMount st' next).2
      ∧ (followMount st' next).2.dc.live (followMount st' next).1 = true
      ∧ ∀ e, (followMount st' next).2.dc.refs e
          + tally (if st.dc.live next then some next else none).toList e
        = st.dc.refs e + tally [(followMount st' next).1] e := by
  obtain ⟨hext, hlive, hrefs⟩ := h
  obtain ⟨hext', hlive', hrefs'⟩ := followMount_spec hext.sound hlive
  refine ⟨hext.trans hext', hlive', fun e => ?_⟩
  have h₁ := hrefs e
  have h₂ := hrefs' e
  by_cases hold : st.dc.live next = true
  · rw [if_pos hold] at h₁ ⊢
    rw [Option.toList_some]
    linear_combination h₁ + h₂
  · rw [if_neg hold] at h₁ ⊢
    rw [Option.toList_none, tally_nil]
    linear_combination h₁ + h₂

/-- The counts after steps are those that the steps say. -/
def CountsAs (st : Vfs W) (steps : List WalkStep) (st' : Vfs W) : Prop :=
  ∀ e, st'.dc.refs e + tally (steps.flatMap WalkStep.puts) e
    = st.dc.refs e + tally (steps.flatMap WalkStep.gets) e

/-- Steps that lead from one dentry to another. -/
structure StepsTo (st : Vfs W) (dentry : Addr) (steps : List WalkStep) (next : Addr)
    (st' : Vfs W) : Prop where
  ext : st.Extends st'
  live : st'.dc.live next = true
  moves : Moves dentry (steps.flatMap WalkStep.moves) next
  notDirs : steps.flatMap WalkStep.notDirs = []
  counts : CountsAs st steps st'

open scoped UInt32.CommRing in
theorem CountsAs.append {st'' : Vfs W} {xs ys : List WalkStep} (h : CountsAs st xs st')
    (h' : CountsAs st' ys st'') : CountsAs st (xs ++ ys) st'' := by
  intro e
  rw [List.flatMap_append, List.flatMap_append, tally_append, tally_append]
  linear_combination h e + h' e

theorem StepsTo.append {st'' : Vfs W} {xs ys : List WalkStep} {d' : Addr}
    (h : StepsTo st dentry xs d st') (h' : StepsTo st' d ys d' st'') :
    StepsTo st dentry (xs ++ ys) d' st'' where
  ext := h.ext.trans h'.ext
  live := h'.live
  moves := by
    rw [List.flatMap_append]
    exact h.moves.append h'.moves
  notDirs := by
    rw [List.flatMap_append, h.notDirs, h'.notDirs]
    rfl
  counts := h.counts.append h'.counts

variable (fs) in
open scoped UInt32.CommRing in
/-- The counts after a component follow from its step. -/
theorem vfsWalkComponent_spec (hs : st.Sound) (hd : st.dc.live dentry = true) (name : List UInt8) :
    match vfsWalkComponent fs st dentry name with
    | (.ok (next, _), st') => StepsTo st dentry [walkStep fs st dentry name] next st'
    | (.error _, st') => st.Extends st' ∧ CountsAs st [] st' := by
  unfold vfsWalkComponent walkStep
  by_cases hdot : name = [46]
  · rw [if_pos hdot, if_pos hdot]
    exact ⟨.refl hs, hd, rfl, rfl, fun _ => rfl⟩
  rw [if_neg hdot, if_neg hdot]
  by_cases hdotdot : name = [46, 46]
  · rw [if_pos hdotdot, if_pos hdotdot]
    simp only
    by_cases hparent : (st.dc.dentry dentry).dParent ≠ 0 ∧ (st.dc.dentry dentry).dParent ≠ dentry
    · rw [if_pos hparent, if_pos hparent]
      have hlive := (hs.parent dentry hd).resolve_left hparent.1
      exact ⟨.refl hs, hlive, ⟨rfl, rfl⟩, rfl, fun _ => rfl⟩
    · rw [if_neg hparent, if_neg hparent]
      exact ⟨.refl hs, hd, rfl, rfl, fun _ => rfl⟩
  rw [if_neg hdotdot, if_neg hdotdot]
  have hlookup := vfsLookupSingle_spec fs hs hd name (UInt32.ofNat name.length)
  generalize vfsLookupSingle fs st dentry name (UInt32.ofNat name.length) = r at hlookup ⊢
  obtain ⟨err | next, st₁⟩ := r
  · exact ⟨hlookup.1, fun e => congrArg (· + 0) (hlookup.2 e)⟩
  -- the dentry that is found is held before the one that is left is put
  obtain ⟨hext, hlive, hrefs⟩ := lookedUp_followMount hlookup
  have hput := Vfs.Extends.put hext.sound dentry
  refine ⟨hext.trans hput, hput.grows.live _ hlive, ⟨rfl, rfl⟩, rfl, fun e => ?_⟩
  have hleft := hext.sound.refs_put (hext.grows.live _ hd) e
  rw [List.flatMap_singleton, List.flatMap_singleton]
  simp only [WalkStep.gets, WalkStep.puts]
  rw [tally_cons dentry]
  linear_combination hrefs e + hleft

/-! ## The walk -/

/-- A component that does not fail is not empty. -/
theorem ne_nil_of_walkComponent {next : Addr × LastType}
    (h : vfsWalkComponent fs st dentry name = (.ok next, st')) : name ≠ [] := by
  rintro rfl
  have hsingle : vfsLookupSingle fs st dentry [] (UInt32.ofNat ([] : List UInt8).length)
      = (.error (-EINVAL), st) := if_pos (.inr rfl)
  unfold vfsWalkComponent at h
  rw [if_neg (by decide), if_neg (by decide), hsingle] at h
  cases h

theorem length_vfsSkipSlashes_le (path : List UInt8) :
    (vfsSkipSlashes path).length ≤ path.length := (List.dropWhile_sublist _).length_le

theorem length_rest_lt (hname : vfsGetName path ≠ []) :
    (vfsSkipSlashes (path.drop (vfsGetName path).length)).length < path.length := by
  have hle : (vfsGetName path).length ≤ path.length :=
    ((List.take_sublist _ _).trans (List.takeWhile_sublist _)).length_le
  have hpos := List.length_pos_of_ne_nil hname
  refine Nat.lt_of_le_of_lt (length_vfsSkipSlashes_le _) ?_
  rw [List.length_drop]
  omega

variable (fs) in
/-- The counts after the walk follow from its steps. -/
theorem vfsPathWalkLoop_spec {fuel : Nat} (hs : st.Sound) (hd : st.dc.live dentry = true)
    (hpath : path ≠ []) (hfuel : path.length ≤ fuel) (nd : Nameidata) :
    match vfsPathWalkLoop fs fuel st nd dentry path with
    | (.ok nd', st') => StepsTo st dentry (walkSteps fs fuel st dentry path) nd'.dentry st'
    | (.error _, st') =>
        st.Extends st' ∧ CountsAs st (walkSteps fs fuel st dentry path) st' := by
  induction fuel generalizing st dentry path nd with
  | zero => exact absurd (List.length_eq_zero_iff.mp (Nat.le_zero.mp hfuel)) hpath
  | succ fuel ih =>
      have hstep := vfsWalkComponent_spec fs hs hd (vfsGetName path)
      unfold vfsPathWalkLoop walkSteps
      simp only
      generalize hcomp : vfsWalkComponent fs st dentry (vfsGetName path) = r at hstep ⊢
      obtain ⟨err | ⟨next, lastType⟩, st₁⟩ := r
      · exact hstep
      have hlt := length_rest_lt (ne_nil_of_walkComponent hcomp)
      simp only
      by_cases hrest : vfsSkipSlashes (path.drop (vfsGetName path).length) = []
      · rw [if_pos hrest, if_pos hrest]
        exact hstep
      rw [if_neg hrest, if_neg hrest]
      -- a component in the middle that is no directory is put, and the walk fails
      by_cases hdir : isDirectory fs st₁ next = false
      · rw [if_pos hdir, if_pos hdir]
        refine ⟨hstep.ext.trans (.put hstep.ext.sound next), ?_⟩
        have hlast : CountsAs st₁ [.notDir next] (st₁.dentryPut next) := fun e =>
          (hstep.ext.sound.refs_put hstep.live e).trans (UInt32.add_zero _).symm
        exact hstep.counts.append hlast
      · rw [if_neg hdir, if_neg hdir]
        have htail := ih hstep.ext.sound hstep.live hrest (Nat.le_of_lt_succ (hlt.trans_le hfuel))
          { nd with lastType := lastType }
        generalize vfsPathWalkLoop fs fuel st₁ { nd with lastType := lastType } next
          (vfsSkipSlashes (path.drop (vfsGetName path).length)) = r at htail ⊢
        obtain ⟨err | nd', st₂⟩ := r
        · exact ⟨hstep.ext.trans htail.1, hstep.counts.append htail.2⟩
        · exact hstep.append htail

theorem startOf_live (hs : st.Sound) (hbase : base = 0 ∨ st.dc.live base = true)
    (hstart : startOf st base ≠ 0) : st.dc.live (startOf st base) = true := by
  unfold startOf at hstart ⊢
  split
  · rename_i hzero
    rw [if_pos hzero] at hstart
    unfold vfsGetRoot at hstart ⊢
    split
    · rename_i mnt hmnt
      exact hs.root mnt hmnt
    · rename_i hnone
      rw [hnone] at hstart
      exact absurd rfl hstart
  · rename_i hne
    exact hbase.resolve_left hne

variable (fs) in
open scoped UInt32.CommRing in
theorem vfsPathLookup_spec (hs : st.Sound) (hbase : base = 0 ∨ st.dc.live base = true)
    (path : List UInt8) (flags : UInt32) :
    match vfsPathLookup fs st base path flags with
    | (.ok d, st') => st.dc.live (startOf st base) = true
        ∧ StepsTo (st.dentryGet (startOf st base)) (startOf st base) (pathSteps fs st base path) d st'
    | (.error _, st') => st.Extends st' ∧ CountsAs st (pathSteps fs st base path) st' := by
  unfold vfsPathLookup pathSteps
  simp only
  by_cases hstart : startOf st base = 0
  · rw [if_pos hstart, if_pos hstart]
    exact ⟨.refl hs, fun _ => rfl⟩
  rw [if_neg hstart, if_neg hstart]
  have hb := startOf_live hs hbase hstart
  generalize startOf st base = b at hb hstart
  have hext := Vfs.Extends.get hs b
  have hget := hs.refs_get hb
  have hb' := hext.grows.live b hb
  unfold vfsPathWalk
  rw [if_neg hstart]
  simp only
  by_cases hpath : vfsSkipSlashes path = []
  · -- only slashes: the base itself
    rw [if_pos hpath, hpath]
    exact ⟨hb, .refl hext.sound, hb', rfl, rfl, fun _ => rfl⟩
  rw [if_neg hpath]
  have hloop := vfsPathWalkLoop_spec fs hext.sound hb' hpath le_rfl
    ⟨b, ((st.dentryGet b).dc.dentry b).dInode, flags, .norm, none, 0⟩
  generalize vfsPathWalkLoop fs (vfsSkipSlashes path).length (st.dentryGet b)
    ⟨b, ((st.dentryGet b).dc.dentry b).dInode, flags, .norm, none, 0⟩ b (vfsSkipSlashes path)
    = r at hloop ⊢
  obtain ⟨err | nd, st₁⟩ := r
  · obtain ⟨hext', hcounts⟩ := hloop
    refine ⟨(hext.trans hext').trans (.put hext'.sound b), fun e => ?_⟩
    have h₁ := hext'.sound.refs_put (hext'.grows.live b hb') e
    linear_combination h₁ + hcounts e + hget e
  · exact ⟨hb, hloop⟩

/-! ## Balance -/

open scoped UInt32.CommRing in
theorem tally_left (steps : List WalkStep) (e : Addr) :
    tally ((steps.flatMap WalkStep.moves).map Prod.fst) e + tally (steps.flatMap WalkStep.found) e
      + tally (steps.flatMap WalkStep.notDirs) e
    = tally ((steps.flatMap WalkStep.ups).map Prod.fst) e
      + tally (steps.flatMap WalkStep.puts) e := by
  induction steps with
  | nil => rfl
  | cons s steps ih =>
      simp only [List.flatMap_cons, List.map_append, tally_append]
      cases s with
      | stay =>
          simp only [WalkStep.moves, WalkStep.ups, WalkStep.found, WalkStep.notDirs, WalkStep.puts,
            List.map_nil, tally_nil]
          linear_combination ih
      | up dentry parent =>
          simp only [WalkStep.moves, WalkStep.ups, WalkStep.found, WalkStep.notDirs, WalkStep.puts,
            tally_nil]
          linear_combination ih
      | down dentry next found =>
          simp only [WalkStep.moves, WalkStep.ups, WalkStep.found, WalkStep.notDirs, WalkStep.puts,
            List.map_cons, List.map_nil, tally_nil]
          rw [tally_cons dentry found.toList]
          linear_combination ih
      | notDir dentry =>
          simp only [WalkStep.moves, WalkStep.ups, WalkStep.found, WalkStep.notDirs, WalkStep.puts,
            List.map_nil, tally_nil]
          linear_combination ih

open scoped UInt32.CommRing in
theorem tally_entered (steps : List WalkStep) (e : Addr) :
    tally ((steps.flatMap WalkStep.moves).map Prod.snd) e
    = tally ((steps.flatMap WalkStep.ups).map Prod.snd) e
      + tally (steps.flatMap WalkStep.gets) e := by
  induction steps with
  | nil => rfl
  | cons s steps ih =>
      simp only [List.flatMap_cons, List.map_append, tally_append]
      cases s with
      | stay =>
          simp only [WalkStep.moves, WalkStep.ups, WalkStep.gets, List.map_nil, tally_nil]
          linear_combination ih
      | up dentry parent =>
          simp only [WalkStep.moves, WalkStep.ups, WalkStep.gets, tally_nil]
          linear_combination ih
      | down dentry next found =>
          simp only [WalkStep.moves, WalkStep.ups, WalkStep.gets, List.map_cons, List.map_nil,
            tally_nil]
          linear_combination ih
      | notDir dentry =>
          simp only [WalkStep.moves, WalkStep.ups, WalkStep.gets, List.map_nil, tally_nil]
          linear_combination ih

open scoped UInt32.CommRing in
/-- The counts after a successful lookup. -/
theorem vfsPathLookup_refs {flags : UInt32} (hs : st.Sound)
    (hbase : base = 0 ∨ st.dc.live base = true)
    (h : vfsPathLookup fs st base path flags = (.ok d, st')) (e : Addr) :
    st'.dc.refs e + tally (((pathSteps fs st base path).flatMap WalkStep.ups).map Prod.snd
        ++ (pathSteps fs st base path).flatMap WalkStep.found) e
      = st.dc.refs e + tally [d] e
        + tally (((pathSteps fs st base path).flatMap WalkStep.ups).map Prod.fst) e := by
  have hspec := vfsPathLookup_spec fs hs hbase path flags
  rw [h] at hspec
  obtain ⟨hb, hsteps⟩ := hspec
  generalize pathSteps fs st base path = steps at hsteps ⊢
  have hget := hs.refs_get hb e
  have hcounts := hsteps.counts e
  have hmoves := hsteps.moves.tally_eq e
  have hleft := tally_left steps e
  have hentered := tally_entered steps e
  rw [hsteps.notDirs, tally_nil] at hleft
  rw [tally_append]
  linear_combination hcounts + hget - hmoves + hleft - hentered

open scoped UInt32.CommRing in
/-- A successful lookup takes one reference, to the dentry it returns,
exactly if the steps with `..` and the dentries found are in balance. -/
theorem neutralOk_iff_steps {flags : UInt32} (hs : st.Sound)
    (hbase : base = 0 ∨ st.dc.live base = true)
    (h : vfsPathLookup fs st base path flags = (.ok d, st')) :
    NeutralOk st d st' ↔ UpsBalanced (pathSteps fs st base path) := by
  refine forall_congr' fun e => ?_
  have hrefs := vfsPathLookup_refs hs hbase h e
  rw [← tally_singleton, ← List.count_append, ← tally_eq_iff]
  constructor
  · intro hneutral
    linear_combination hneutral - hrefs
  · intro hbalanced
    linear_combination hbalanced + hrefs

open scoped UInt32.CommRing in
/-- A failed lookup leaves all counts as they were exactly if the steps
before the failure take as many references as they give up. -/
theorem neutralError_iff_steps {flags : UInt32} {err : Int} (hs : st.Sound)
    (hbase : base = 0 ∨ st.dc.live base = true)
    (h : vfsPathLookup fs st base path flags = (.error err, st')) :
    NeutralError st st' ↔ DownsBalanced (pathSteps fs st base path) := by
  have hspec := vfsPathLookup_spec fs hs hbase path flags
  rw [h] at hspec
  obtain ⟨-, hcounts⟩ := hspec
  refine forall_congr' fun e => ?_
  rw [← tally_eq_iff]
  have hcount := hcounts e
  constructor
  · intro hneutral
    linear_combination hneutral - hcount
  · intro hbalanced
    linear_combination hbalanced + hcount

end NoobKernel.Fs
