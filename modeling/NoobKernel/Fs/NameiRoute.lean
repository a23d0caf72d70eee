import NoobKernel.Fs.NameiDotdot
import NoobKernel.Fs.NameiNames

set_option autoImplicit false

/-! # The way of a path through the cache

Which dentries a walk finds, and where `..` leads it, can be read off the cache and the mounts
before the call: the dots in front lead along `d_parent` (`leadingDots`), the first name is in the
cache or not (`Unknown`), and once there is a new dentry all that follow are new as well, up to the
next `..`. So a lookup counts references as it should exactly on the paths of `NewRoute`, where the
file system fills in the dentries that it is given.
-/

namespace NoobKernel.Fs

open Tally

variable {W : Type} {fs : FileSystem W} {st s s' s'' : Vfs W} {d x y next base dir : Addr}
  {name path : List UInt8} {names : List (List UInt8)} {steps : List WalkStep} {flags : UInt32}

/-- The steps of the dots that a path starts with, the dentry that they lead to and the names from
there on. -/
structure Dots where
  ups : List (Addr × Addr)
  dentry : Addr
  names : List (List UInt8)
  deriving DecidableEq

def leadingDots (st : Vfs W) : Addr → List (List UInt8) → Dots
  | d, [] => ⟨[], d, []⟩
  | d, name :: names =>
      if name = [46] then leadingDots st d names
      else if name = [46, 46] then
        let dots := leadingDots st (dotdot st d) names
        if dotdot st d = d then dots else { dots with ups := (d, dotdot st d) :: dots.ups }
      else ⟨[], d, name :: names⟩

/-- The name is neither in the cache nor a mountpoint. -/
def Unknown (st : Vfs W) (d : Addr) (name : List UInt8) : Prop :=
  let dir := lookupBase st d
  dentryLookup st.dc (st.dc.dentry dir).dSb dir (qstrInit name) = 0
    ∧ mountOn st dir name = none

instance (st : Vfs W) (d : Addr) (name : List UInt8) : Decidable (Unknown st d name) :=
  inferInstanceAs (Decidable (_ ∧ _))

/-- The dots in front lead nowhere, or in a circle of `d_parent`; the first name is an unknown one,
and there is no `..` behind it. -/
def NewRoute (st : Vfs W) (base : Addr) (path : List UInt8) : Prop :=
  let dots := leadingDots st (startOf st base) (namesOf path)
  (dots.ups.map Prod.fst).Perm (dots.ups.map Prod.snd)
    ∧ match dots.names with
      | [] => True
      | name :: names => Unknown st dots.dentry name ∧ [46, 46] ∉ names

/-- The dentries that the cache has for the names, one after the other, and what the last of them
leads to. -/
def cachedRoute (st : Vfs W) : Addr → List (List UInt8) → Option (List Addr × Addr)
  | d, [] => some ([], d)
  | d, name :: names =>
      let dir := lookupBase st d
      let next := dentryLookup st.dc (st.dc.dentry dir).dSb dir (qstrInit name)
      if next = 0 then none
      else (cachedRoute st (followMount st next).1 names).map fun (found, e) => (next :: found, e)

/-- A name that is mounted on is in the cache. -/
def MountpointsCached (st : Vfs W) : Prop :=
  ∀ dir name, 47 ∉ name → mountOn st dir name ≠ none →
    dentryLookup st.dc (st.dc.dentry dir).dSb dir (qstrInit name) ≠ 0

/-! ## What the references leave alone -/

theorem SameTree.mountOn (h : SameTree st s) (dir : Addr) (name : List UInt8) :
    mountOn s dir name = mountOn st dir name := by
  unfold Fs.mountOn
  rw [h.mounts]
  simp only [(h.dentry _).dParent, (h.dentry _).dName]

/-- The cache finds the same dentry for a name. -/
theorem SameTree.cached (h : SameTree st s) (d : Addr) (name : Qstr) :
    dentryLookup s.dc (s.dc.dentry (Fs.lookupBase s d)).dSb (Fs.lookupBase s d) name
      = dentryLookup st.dc (st.dc.dentry (Fs.lookupBase st d)).dSb (Fs.lookupBase st d) name := by
  rw [h.lookupBase, (h.dentry _).dSb, h.lookup]

theorem SameTree.unknown (h : SameTree st s) (d : Addr) (name : List UInt8) :
    Unknown s d name ↔ Unknown st d name := by
  unfold Unknown
  simp only
  rw [h.cached, h.lookupBase, h.mountOn]

theorem SameTree.mountpointsCached (h : SameTree st s) (hcached : MountpointsCached st) :
    MountpointsCached s := by
  intro dir name hslash hmount
  rw [(h.dentry dir).dSb, h.lookup]
  rw [h.mountOn] at hmount
  exact hcached dir name hslash hmount

/-! ## The components of a walk -/

/-- The components of a walk that does not fail. -/
inductive Walks (fs : FileSystem W) :
    Vfs W → Addr → List (List UInt8) → List WalkStep → Addr → Vfs W → Prop
  | nil (s : Vfs W) (d : Addr) : Walks fs s d [] [] d s
  | cons {s s' s'' : Vfs W} {d next e : Addr} {name : List UInt8} {names : List (List UInt8)}
      {steps : List WalkStep} {lastType : LastType}
      (comp : vfsWalkComponent fs s d name = (.ok (next, lastType), s'))
      (tail : Walks fs s' next names steps e s'') :
      Walks fs s d (name :: names) (walkStep fs s d name :: steps) e s''

theorem walks_of_loop {fuel : Nat} {nd nd' : Nameidata} (hpath : path ≠ [])
    (hstart : path.head? ≠ some 47) (hfuel : path.length ≤ fuel)
    (h : vfsPathWalkLoop fs fuel s nd d path = (.ok nd', s')) :
    Walks fs s d (pathNames fuel path) (walkSteps fs fuel s d path) nd'.dentry s' := by
  induction fuel generalizing s nd d path with
  | zero => exact absurd (List.length_eq_zero_iff.mp (Nat.le_zero.mp hfuel)) hpath
  | succ fuel ih =>
      unfold vfsPathWalkLoop at h
      unfold pathNames walkSteps
      simp only at h ⊢
      rw [if_neg hpath]
      generalize hcomp : vfsWalkComponent fs s d (vfsGetName path) = r at h ⊢
      obtain ⟨err | ⟨next, lastType⟩, s₁⟩ := r
      · cases h
      have hlt := length_rest_lt (getName_ne_nil hpath hstart)
      simp only at h ⊢
      by_cases hrest : vfsSkipSlashes (path.drop (vfsGetName path).length) = []
      · rw [if_pos hrest] at h
        cases h
        rw [if_pos hrest, hrest, pathNames_nil]
        exact .cons hcomp (.nil _ _)
      rw [if_neg hrest] at h ⊢
      by_cases hdir : isDirectory fs s₁ next = false
      · rw [if_pos hdir] at h
        cases h
      · rw [if_neg hdir] at h ⊢
        exact .cons hcomp (ih hrest (head?_skipSlashes_ne _) (by omega) h)

/-- The components of a lookup. -/
theorem walks_of_lookup (h : vfsPathLookup fs st base path flags = (.ok d, s')) :
    Walks fs (st.dentryGet (startOf st base)) (startOf st base) (namesOf path)
      (pathSteps fs st base path) d s' := by
  unfold vfsPathLookup at h
  unfold pathSteps namesOf
  simp only at h ⊢
  by_cases hstart : startOf st base = 0
  · rw [if_pos hstart] at h
    cases h
  rw [if_neg hstart] at h ⊢
  unfold vfsPathWalk at h
  rw [if_neg hstart] at h
  simp only at h
  by_cases hpath : vfsSkipSlashes path = []
  · rw [if_pos hpath] at h
    cases h
    rw [hpath]
    exact .nil _ _
  rw [if_neg hpath] at h
  generalize hloop : vfsPathWalkLoop fs (vfsSkipSlashes path).length _ _ _ _ = r at h
  obtain ⟨err | nd, s₁⟩ := r
  · cases h
  · cases h
    exact walks_of_loop hpath (head?_skipSlashes_ne path) le_rfl hloop

/-! ## A new dentry -/

/-- A lookup has made a dentry for the name. -/
structure Made (s : Vfs W) (dir : Addr) (name : List UInt8) (x : Addr) (s' : Vfs W) : Prop where
  ext : s.Extends s'
  new : s.dc.live x = false
  live : s'.dc.live = Function.update s.dc.live x true
  parent : (s'.dc.dentry x).dParent = dir
  dName : (s'.dc.dentry x).dName = qstrInit name
  cached : ∀ i, ∀ n ∈ s'.dc.ht.buckets i, n ∈ s.dc.ht.buckets i ∨ n.value = x

variable (fs) in
/-- Nothing else is put into the cache. -/
theorem dentryInsert_cached (s : Vfs W) (d : Addr) {i : Nat} {n : HashNode}
    (hn : n ∈ (s.dentryInsert fs d).2.dc.ht.buckets i) :
    n ∈ s.dc.ht.buckets i ∨ n.value = d := by
  unfold Vfs.dentryInsert at hn
  generalize fs.kmalloc s.world = mem at hn
  obtain ⟨memory, world⟩ := mem
  simp only at hn
  rcases dentryInsert_cases s.dc d memory with ⟨heq, -⟩ | ⟨-, heq⟩
  · rw [heq] at hn
    exact .inl hn
  · rw [heq] at hn
    exact (Hashtable.value_of_mem_insert hn).symm

theorem made_of_lookupNew (hfills : fs.FillsIn) (hs : s.Sound) (hdir : s.dc.live dir = true)
    (h : vfsLookupNew fs s dir name = (.ok x, s')) : Made s dir name x s' := by
  have hspec := vfsLookupNew_spec fs hs hdir name
  rw [h] at hspec
  unfold vfsLookupNew at h
  generalize halloc : s.dentryAlloc fs dir (s.dc.dentry dir).dSb name = r at h
  obtain ⟨err | d, s₁⟩ := r
  · cases h
  have hnew := dentryAlloc_ok halloc
  have hdName := dentryAlloc_dName halloc
  have hlaw := hfills s₁.world s₁.dc.live (s₁.dc.dentry dir).dInode d (s₁.dc.dentry d)
  simp only at h
  generalize fs.lookup s₁.world s₁.dc.live (s₁.dc.dentry dir).dInode d (s₁.dc.dentry d) = found
    at hlaw h
  obtain ⟨⟨err | r, inode⟩, world⟩ := found
  · cases h
  obtain rfl := hlaw r rfl
  have hret : ¬(r ≠ r) := not_not.mpr rfl
  simp only at h
  rw [if_neg hret] at h
  obtain ⟨hlive, hdentry⟩ := dentryInsert_same fs (s₁.fill r inode world) r
  cases h
  have hfilled := setInode_dentry s₁.dc x inode x
  refine ⟨hspec.ext, hnew.new, hlive.trans hnew.live, ?_, ?_, fun i n hn => ?_⟩
  · have hparent := congrArg Dentry.dParent ((congrFun hdentry x).trans hfilled)
    exact hparent.trans (hnew.parent.trans (if_pos (hs.ne_zero hdir)))
  · have hname := congrArg Dentry.dName ((congrFun hdentry x).trans hfilled)
    exact hname.trans hdName
  · rw [← hnew.ht]
    exact dentryInsert_cached fs (s₁.fill x inode world) x hn

/-- A name is in the cache, or there is a new dentry for it. -/
theorem lookupSingle_cases (hfills : fs.FillsIn) (hs : s.Sound) (hd : s.dc.live d = true)
    (h : vfsLookupSingle fs s d name (UInt32.ofNat name.length) = (.ok next, s')) :
    next ≠ 0 ∧ s' = s ∧ dentryLookup s.dc (s.dc.dentry (lookupBase s d)).dSb (lookupBase s d)
        (qstrInit name) = next
      ∨ Made s (lookupBase s d) name next s' ∧ dentryLookup s.dc
        (s.dc.dentry (lookupBase s d)).dSb (lookupBase s d) (qstrInit name) = 0 := by
  unfold vfsLookupSingle at h
  split at h
  · cases h
  simp only at h
  split at h
  · cases h
  split at h
  · cases h
  split at h
  · rename_i hfound
    cases h
    exact .inl ⟨hfound, rfl, rfl⟩
  · rename_i hfound
    exact .inr ⟨made_of_lookupNew hfills hs (lookupBase_live hs hd) h, not_not.mp hfound⟩

/-- A component that is looked up. -/
theorem walkComponent_named (hdot : name ≠ [46]) (hdotdot : name ≠ [46, 46]) {lastType : LastType}
    (h : vfsWalkComponent fs s d name = (.ok (next, lastType), s')) :
    ∃ r s₁, vfsLookupSingle fs s d name (UInt32.ofNat name.length) = (.ok r, s₁)
      ∧ next = (followMount s₁ r).1 ∧ s' = (followMount s₁ r).2.dentryPut d
      ∧ walkStep fs s d name = .down d next (if s.dc.live r then some r else none) := by
  unfold vfsWalkComponent at h
  unfold walkStep
  rw [if_neg hdot, if_neg hdotdot] at h ⊢
  generalize vfsLookupSingle fs s d name (UInt32.ofNat name.length) = r at h ⊢
  obtain ⟨err | r, s₁⟩ := r
  · cases h
  · cases h
    exact ⟨r, s₁, rfl, rfl, rfl, rfl⟩

/-- A name that is not mounted on leads to the new dentry itself. -/
theorem Made.lookupMount (h : Made s dir name x s') (hs : s.Sound)
    (hmount : mountOn s dir name = none) : vfsLookupMount s' x = none := by
  have hlive : s'.dc.live x = true := by
    rw [h.live]
    exact Function.update_self _ _ _
  have hchild : ChildOf s' x dir name := by
    rw [ChildOf, h.parent, h.dName]
    exact ⟨rfl, rfl, rfl⟩
  rw [hchild.lookupMount (h.ext.sound.ne_zero hlive), h.ext.grows.mountOn hs, hmount]

/-! ## Behind a new dentry -/

/-- The walk is at a dentry that was not there in the state `st`, nothing below it is in the cache,
and `..` leads from it to another one. -/
structure AtNew (st s : Vfs W) (x : Addr) : Prop where
  grows : st.Grows s
  sound : s.Sound
  live : s.dc.live x = true
  new : st.dc.live x = false
  uncovered : vfsLookupMount s x = none
  bare : ∀ i, ∀ n ∈ s.dc.ht.buckets i, n.value = 0 ∨ (s.dc.dentry n.value).dParent ≠ x
  up : dotdot s x ≠ x

theorem AtNew.made (hg : st.Grows s) (hs : s.Sound) (hdir : s.dc.live dir = true)
    (h : Made s dir name y s') (hmount : mountOn s dir name = none) (d : Addr) :
    AtNew st (s'.dentryPut d) y := by
  have hput := SameTree.put s' d
  have hlive : s'.dc.live y = true := by
    rw [h.live]
    exact Function.update_self _ _ _
  have hnew : s.dc.live y ≠ true := by
    rw [h.new]
    exact Bool.false_ne_true
  have hne : dir ≠ y := fun heq => hnew (heq ▸ hdir)
  have hnull := h.ext.sound.ne_zero hlive
  refine ⟨(hg.trans h.ext.grows).trans (grows_put s' d), h.ext.sound.put d,
    (congrFun hput.live y).trans hlive, ?_, ?_, fun i n hn => ?_, ?_⟩
  · rw [← Bool.not_eq_true]
    exact fun hy => hnew (hg.live y hy)
  · rw [hput.lookupMount]
    exact h.lookupMount hs hmount
  · rw [hput.ht] at hn
    rw [(hput.dentry n.value).dParent]
    by_cases hzero : n.value = 0
    · exact .inl hzero
    refine .inr ?_
    rcases h.cached i n hn with hold | rfl
    · -- what was cached before has a parent that was there before
      have hvalue := (hs.cached i n hold).resolve_left hzero
      rw [(h.ext.grows.dentry _ hvalue).dParent]
      rcases hs.parent _ hvalue with hparent | hparent
      · rw [hparent]
        exact hnull.symm
      · exact fun heq => hnew (heq ▸ hparent)
    · rw [h.parent]
      exact hne
  · unfold dotdot
    rw [(hput.dentry y).dParent, h.parent, if_pos ⟨hs.ne_zero hdir, hne⟩]
    exact hne

/-- An unknown name leads to a new dentry. -/
theorem AtNew.of_unknown (hg : st.Grows s) (hs : s.Sound) (hd : s.dc.live d = true)
    (hfills : fs.FillsIn) (hname : Unknown s d name) (hdot : name ≠ [46]) (hdotdot : name ≠ [46, 46])
    {lastType : LastType} (hcomp : vfsWalkComponent fs s d name = (.ok (next, lastType), s')) :
    AtNew st s' next ∧ walkStep fs s d name = .down d next none := by
  obtain ⟨hcache, hmount⟩ := hname
  obtain ⟨r, s₁, hlookup, rfl, rfl, hstep⟩ := walkComponent_named hdot hdotdot hcomp
  obtain ⟨hnull, -, hfound⟩ | ⟨hmade, -⟩ := lookupSingle_cases hfills hs hd hlookup
  · exact absurd (hfound.symm.trans hcache) hnull
  have hfollow : followMount s₁ r = (r, s₁) := by
    rw [followMount, hmade.lookupMount hs hmount]
  rw [hstep, hfollow, hmade.new]
  exact ⟨.made hg hs (lookupBase_live hs hd) hmade hmount d, rfl⟩

namespace AtNew

theorem lookupBase (h : AtNew st s x) : lookupBase s x = x := by
  rw [Fs.lookupBase, h.uncovered]

theorem dentryLookup (h : AtNew st s x) (sb : Addr) (qstr : Qstr) :
    dentryLookup s.dc sb x qstr = 0 := by
  unfold Fs.dentryLookup
  simp only
  split
  · rename_i n hfind
    have hsome := List.find?_some hfind
    have hfound := of_decide_eq_true hsome
    have hbare := h.bare _ n (List.mem_of_find?_eq_some hfind)
    exact absurd hfound.2.2.1 (hbare.resolve_left hfound.1)
  · rfl

/-- Mountpoints are older. -/
theorem mountOn (h : AtNew st s x) (hst : st.Sound) (name : List UInt8) :
    mountOn s x name = none := by
  rw [h.grows.mountOn hst]
  refine List.find?_eq_none.mpr fun mnt hmnt heq => ?_
  obtain ⟨hpoint, hparent, -⟩ := of_decide_eq_true heq
  have hnew : st.dc.live x ≠ true := by
    rw [h.new]
    exact Bool.false_ne_true
  rcases hst.parent _ ((hst.mountpoint mnt hmnt).resolve_left hpoint) with hzero | hold
  · exact h.sound.ne_zero h.live (hparent.symm.trans hzero)
  · exact hnew (hparent ▸ hold)

theorem unknown (h : AtNew st s x) (hst : st.Sound) (name : List UInt8) : Unknown s x name := by
  unfold Unknown
  simp only
  rw [h.lookupBase, h.dentryLookup, h.mountOn hst]
  exact ⟨rfl, rfl⟩

end AtNew

/-- From a new dentry on, a walk finds nothing, does not go up and ends at a new one, or it goes up
from a new dentry. -/
theorem Walks.new (h : Walks fs s x names steps d s') (hst : st.Sound) (hfills : fs.FillsIn)
    (hx : AtNew st s x) :
    if [46, 46] ∈ names then ∃ u ∈ steps.flatMap WalkStep.ups, st.dc.live u.1 = false
    else steps.flatMap WalkStep.found = [] ∧ steps.flatMap WalkStep.ups = []
      ∧ st.dc.live d = false := by
  induction h with
  | nil s d =>
      rw [if_neg List.not_mem_nil]
      exact ⟨rfl, rfl, hx.new⟩
  | cons hcomp tail ih =>
      rename_i s s' s'' x next d name names steps lastType
      by_cases hdot : name = [46]
      · subst hdot
        cases hcomp
        have hmem : [46, 46] ∈ ([46] : List UInt8) :: names ↔ [46, 46] ∈ names := by simp
        simp only [hmem]
        exact ih hx
      by_cases hup : name = [46, 46]
      · subst hup
        rw [if_pos List.mem_cons_self]
        have hparent := hx.up
        refine ⟨(x, (s.dc.dentry x).dParent), ?_, hx.new⟩
        have hstep : walkStep fs s x [46, 46] = .up x (s.dc.dentry x).dParent := by
          unfold walkStep
          rw [if_neg hdot, if_pos rfl]
          refine if_pos ?_
          by_contra hnot
          exact hparent (if_neg hnot)
        rw [hstep]
        exact List.mem_cons_self
      · obtain ⟨hnext, hstep⟩ := AtNew.of_unknown hx.grows hx.sound hx.live hfills
          (hx.unknown hst name) hdot hup hcomp
        have hmem : [46, 46] ∈ name :: names ↔ [46, 46] ∈ names := by simp [Ne.symm hup]
        simp only [hmem, hstep, List.flatMap_cons, WalkStep.ups, WalkStep.found, Option.toList_none,
          List.nil_append]
        exact ih hnext

/-! ## The dots in front -/

theorem leadingDots_live (hs : st.Sound) (hd : st.dc.live d = true)
    (names : List (List UInt8)) : st.dc.live (leadingDots st d names).dentry = true := by
  induction names generalizing d with
  | nil => exact hd
  | cons name names ih =>
      unfold leadingDots
      split
      · exact ih hd
      split
      · have hup : st.dc.live (dotdot st d) = true := by
          unfold dotdot
          split
          · rename_i hparent
            exact (hs.parent d hd).resolve_left hparent.1
          · exact hd
        simp only
        split
        · exact ih hup
        · exact ih hup
      · exact hd

theorem leadingDots_names {rest : List (List UInt8)}
    (h : (leadingDots st d names).names = name :: rest) :
    name ≠ [46] ∧ name ≠ [46, 46] ∧ name ∈ names := by
  induction names generalizing d with
  | nil => cases h
  | cons name' names ih =>
      unfold leadingDots at h
      split at h
      · obtain ⟨hdot, hdotdot, hmem⟩ := ih h
        exact ⟨hdot, hdotdot, List.mem_cons_of_mem _ hmem⟩
      split at h
      · have htail : (leadingDots st (dotdot st d) names).names = name :: rest := by
          simp only at h
          split at h
          · exact h
          · exact h
        obtain ⟨hdot, hdotdot, hmem⟩ := ih htail
        exact ⟨hdot, hdotdot, List.mem_cons_of_mem _ hmem⟩
      · rename_i hdot hdotdot
        cases h
        exact ⟨hdot, hdotdot, List.mem_cons_self⟩

/-- The dots change nothing, and lead where they do in the state before the call. -/
theorem Walks.dots (h : Walks fs s d names steps x s') (hsame : SameTree st s) :
    ∃ steps', Walks fs s (leadingDots st d names).dentry (leadingDots st d names).names steps' x s'
      ∧ steps.flatMap WalkStep.ups
        = (leadingDots st d names).ups ++ steps'.flatMap WalkStep.ups
      ∧ steps.flatMap WalkStep.found = steps'.flatMap WalkStep.found := by
  induction h with
  | nil s d => exact ⟨[], .nil s d, rfl, rfl⟩
  | cons hcomp tail ih =>
      rename_i s s' s'' d next x name names steps lastType
      by_cases hdot : name = [46]
      · subst hdot
        cases hcomp
        exact ih hsame
      by_cases hup : name = [46, 46]
      · subst hup
        have hdotdot : dotdot s d = dotdot st d := by
          unfold dotdot
          rw [(hsame.dentry d).dParent]
        have hcomp' : vfsWalkComponent fs s d [46, 46] = (.ok (dotdot s d, .dotdot), s) := rfl
        rw [hcomp', hdotdot] at hcomp
        cases hcomp
        obtain ⟨steps', htail, hups, hfound⟩ := ih hsame
        have hstep : walkStep fs s d [46, 46]
            = if dotdot st d = d then .stay else .up d (dotdot st d) := by
          rw [← hdotdot]
          unfold walkStep dotdot
          rw [if_neg hdot, if_pos rfl]
          simp only
          by_cases hparent : (s.dc.dentry d).dParent ≠ 0 ∧ (s.dc.dentry d).dParent ≠ d
          · rw [if_pos hparent, if_pos hparent, if_neg hparent.2]
          · rw [if_neg hparent, if_neg hparent, if_pos rfl]
        unfold leadingDots
        rw [if_neg hdot, if_pos rfl, hstep]
        simp only
        by_cases hstay : dotdot st d = d
        · rw [if_pos hstay, if_pos hstay]
          exact ⟨steps', htail, hups, hfound⟩
        · rw [if_neg hstay, if_neg hstay]
          exact ⟨steps', htail, congrArg ((d, dotdot st d) :: ·) hups, hfound⟩
      · have hnames : leadingDots st d (name :: names) = ⟨[], d, name :: names⟩ := by
          rw [leadingDots, if_neg hdot, if_neg hup]
        rw [hnames]
        exact ⟨_, .cons hcomp tail, rfl, rfl⟩

/-! ## Names in the cache -/

/-- What the cache has is found, in whatever file system. -/
theorem lookupSingle_cached {len : UInt32} (h : vfsLookupSingle fs s d name len = (.ok next, s'))
    (hcache : dentryLookup s.dc (s.dc.dentry (lookupBase s d)).dSb (lookupBase s d)
      ⟨name, len, hashString name len⟩ ≠ 0) :
    s' = s ∧ next = dentryLookup s.dc (s.dc.dentry (lookupBase s d)).dSb (lookupBase s d)
      ⟨name, len, hashString name len⟩ := by
  unfold vfsLookupSingle at h
  split at h
  · cases h
  simp only at h
  split at h
  · cases h
  split at h
  · cases h
  cases h
  exact ⟨rfl, rfl⟩

/-- The walk of a path without dots that the cache has finds what the cache has. On a path that it
does not have, the walk ends at a new dentry. -/
theorem Walks.cached (h : Walks fs s d names steps x s') (hst : st.Sound) (hs : s.Sound)
    (hsame : SameTree st s) (hg : st.Grows s) (hd : s.dc.live d = true)
    (hnorm : ∀ name ∈ names, name ≠ [46] ∧ name ≠ [46, 46]) :
    match cachedRoute st d names with
    | some (found, e) => x = e ∧ steps.flatMap WalkStep.found = found
    | none => fs.FillsIn → MountpointsCached st → (∀ name ∈ names, 47 ∉ name) →
        st.dc.live x = false ∧ ∀ e ∈ steps.flatMap WalkStep.found, st.dc.live e = true := by
  induction h with
  | nil s d => exact ⟨rfl, rfl⟩
  | cons hcomp tail ih =>
      rename_i s s' s'' d next x name names steps lastType
      obtain ⟨hdot, hdotdot⟩ := hnorm name List.mem_cons_self
      have hnorm' := fun n hn => hnorm n (List.mem_cons_of_mem _ hn)
      have hspec := vfsWalkComponent_spec fs hs hd name
      rw [hcomp] at hspec
      obtain ⟨r, s₁, hlookup, rfl, rfl, hstep⟩ := walkComponent_named hdot hdotdot hcomp
      have hcache := hsame.cached d (qstrInit name)
      unfold cachedRoute
      simp only
      by_cases hnull : dentryLookup st.dc (st.dc.dentry (lookupBase st d)).dSb (lookupBase st d)
          (qstrInit name) = 0
      · rw [if_pos hnull]
        intro hfills hcached hslash
        -- the first name that the cache does not have
        have hunknown : Unknown s d name := by
          refine ⟨hcache.trans hnull, ?_⟩
          by_contra hmount
          exact (hsame.mountpointsCached hcached) _ name (hslash name List.mem_cons_self) hmount
            (hcache.trans hnull)
        obtain ⟨hat, hdown⟩ := AtNew.of_unknown hg hs hd hfills hunknown hdot hdotdot hcomp
        have htail := tail.new hst hfills hat
        rw [if_neg fun hmem => (hnorm' _ hmem).2 rfl] at htail
        refine ⟨htail.2.2, fun e he => ?_⟩
        rw [List.flatMap_cons, hdown, htail.1] at he
        exact absurd he List.not_mem_nil
      · rw [if_neg hnull]
        obtain ⟨rfl, hr⟩ := lookupSingle_cached hlookup (hcache.trans_ne hnull)
        have hlive : s₁.dc.live r = true := by
          rw [hr]
          exact dentryLookup_live hs (hcache.trans_ne hnull)
        have htail := ih hspec.ext.sound
          (hsame.trans ((SameTree.of_followMount s₁ r).trans (.put _ d)))
          (hg.trans hspec.ext.grows) hspec.live hnorm'
        rw [(hsame.followMount r).1] at htail
        rw [← hcache, show dentryLookup _ _ _ (qstrInit name) = r from hr.symm, hstep, if_pos hlive]
        generalize cachedRoute st (followMount st r).1 names = route at htail ⊢
        obtain _ | ⟨found, e⟩ := route
        · intro hfills hcached hslash
          obtain ⟨hnew, hfound⟩ := htail hfills hcached fun n hn =>
            hslash n (List.mem_cons_of_mem _ hn)
          refine ⟨hnew, fun e he => ?_⟩
          rcases List.mem_cons.mp he with rfl | he
          · rw [← hsame.live]
            exact hlive
          · exact hfound e he
        · exact ⟨htail.1, congrArg (r :: ·) htail.2⟩

theorem Walks.ups_eq_nil (h : Walks fs s d names steps x s')
    (hnorm : ∀ name ∈ names, name ≠ [46] ∧ name ≠ [46, 46]) :
    steps.flatMap WalkStep.ups = [] := by
  induction h with
  | nil => rfl
  | cons hcomp tail ih =>
      obtain ⟨hdot, hdotdot⟩ := hnorm _ List.mem_cons_self
      obtain ⟨r, s₁, -, -, -, hstep⟩ := walkComponent_named hdot hdotdot hcomp
      rw [List.flatMap_cons, hstep]
      exact ih fun n hn => hnorm n (List.mem_cons_of_mem _ hn)

theorem walkComponent_cached_error {err : Int} (hdot : name ≠ [46]) (hdotdot : name ≠ [46, 46])
    (hcache : dentryLookup s.dc (s.dc.dentry (lookupBase s d)).dSb (lookupBase s d)
      (qstrInit name) ≠ 0)
    (h : vfsWalkComponent fs s d name = (.error err, s')) : err ≠ -ENOENT := by
  unfold vfsWalkComponent vfsLookupSingle at h
  rw [if_neg hdot, if_neg hdotdot] at h
  by_cases hinval : d = 0 ∨ UInt32.ofNat name.length = 0
  · rw [if_pos hinval] at h
    cases h
    decide
  rw [if_neg hinval] at h
  simp only at h
  by_cases hdir : isDirectory fs s (lookupBase s d) = false
  · rw [if_pos hdir] at h
    cases h
    decide
  rw [if_neg hdir] at h
  by_cases hop : fs.hasLookup s.world (s.dc.dentry (lookupBase s d)).dInode = false
  · rw [if_pos hop] at h
    cases h
    decide
  · simp only [qstrInit] at hcache
    rw [if_neg hop, if_pos hcache] at h
    cases h

/-- Where the cache has all names, a walk that fails has met something that is no directory. -/
theorem cached_error {fuel : Nat} {nd : Nameidata} {err : Int} (hs : s.Sound)
    (hsame : SameTree st s) (hd : s.dc.live d = true)
    (hnorm : ∀ name ∈ pathNames fuel path, name ≠ [46] ∧ name ≠ [46, 46])
    (hroute : cachedRoute st d (pathNames fuel path) ≠ none) (hpath : path ≠ [])
    (h : vfsPathWalkLoop fs fuel s nd d path = (.error err, s')) : err ≠ -ENOENT := by
  induction fuel generalizing s nd d path with
  | zero => cases h
  | succ fuel ih =>
      unfold vfsPathWalkLoop at h
      rw [pathNames, if_neg hpath] at hnorm hroute
      unfold cachedRoute at hroute
      simp only at h hroute
      obtain ⟨hdot, hdotdot⟩ := hnorm _ List.mem_cons_self
      have hcache := hsame.cached d (qstrInit (vfsGetName path))
      rw [← hcache] at hroute
      split at hroute
      · exact absurd rfl hroute
      rename_i hfound
      have hspec := vfsWalkComponent_spec fs hs hd (vfsGetName path)
      generalize hcomp : vfsWalkComponent fs s d (vfsGetName path) = r at h hspec
      obtain ⟨err' | ⟨next, lastType⟩, s₁⟩ := r
      · cases h
        exact walkComponent_cached_error hdot hdotdot hfound hcomp
      obtain ⟨r, s₂, hlookup, rfl, rfl, -⟩ := walkComponent_named hdot hdotdot hcomp
      obtain ⟨rfl, hr⟩ := lookupSingle_cached hlookup hfound
      simp only at h
      split at h
      · cases h
      rename_i hrest
      split at h
      · cases h
        decide
      · refine ih hspec.ext.sound (hsame.trans ((SameTree.of_followMount s₂ r).trans (.put _ d)))
          hspec.live (fun n hn => hnorm n (List.mem_cons_of_mem _ hn)) (fun hnone => ?_) hrest h
        rw [show dentryLookup _ _ _ (qstrInit (vfsGetName path)) = r from hr.symm,
          ← (hsame.followMount r).1, hnone] at hroute
        exact hroute rfl

theorem vfsPathLookup_cached_error {err : Int} (hs : st.Sound) (hstart : startOf st 0 ≠ 0)
    (hnorm : ∀ name ∈ namesOf path, name ≠ [46] ∧ name ≠ [46, 46])
    (hroute : cachedRoute st (startOf st 0) (namesOf path) ≠ none)
    (h : vfsPathLookup fs st 0 path flags = (.error err, s')) : err ≠ -ENOENT := by
  have hlive := startOf_live hs (.inl rfl) hstart
  have hext := Vfs.Extends.get hs (startOf st 0)
  unfold vfsPathLookup vfsPathWalk at h
  simp only at h
  rw [if_neg hstart, if_neg hstart] at h
  by_cases hpath : vfsSkipSlashes path = []
  · rw [if_pos hpath] at h
    cases h
  rw [if_neg hpath] at h
  generalize hloop : vfsPathWalkLoop fs (vfsSkipSlashes path).length _ _ _ _ = r at h
  obtain ⟨err' | nd, s₁⟩ := r
  · cases h
    exact cached_error hext.sound (SameTree.get st _) (hext.grows.live _ hlive) hnorm hroute hpath
      hloop
  · cases h

/-! ## Going up from a new dentry -/

/-- Dentries that were not there in the state `st` are further down than their parents. -/
def Ranked (st s : Vfs W) : Prop :=
  ∃ rank : Addr → Nat, (∀ d, st.dc.live d = true → rank d = 0)
    ∧ ∀ d, s.dc.live d = true → st.dc.live d = false → rank (s.dc.dentry d).dParent < rank d

theorem Ranked.same (h : Ranked st s) (hsame : SameTree s s') : Ranked st s' := by
  obtain ⟨rank, hzero, hlt⟩ := h
  refine ⟨rank, hzero, fun d hd hnew => ?_⟩
  rw [hsame.live] at hd
  rw [(hsame.dentry d).dParent]
  exact hlt d hd hnew

/-- A new dentry is put below the others. -/
theorem Ranked.made (h : Ranked st s) (hg : st.Grows s) (hs : s.Sound)
    (hdir : s.dc.live dir = true) (hmade : Made s dir name x s') : Ranked st s' := by
  obtain ⟨rank, hzero, hlt⟩ := h
  have hnew : s.dc.live x ≠ true := by
    rw [hmade.new]
    exact Bool.false_ne_true
  have hold : ∀ e, s.dc.live e = true → Function.update rank x (rank dir + 1) e = rank e :=
    fun e he => Function.update_of_ne (fun heq => hnew (by rwa [heq] at he)) _ _
  refine ⟨Function.update rank x (rank dir + 1), fun d hd => ?_, fun d hd hdead => ?_⟩
  · rw [hold d (hg.live d hd)]
    exact hzero d hd
  by_cases hx : d = x
  · subst hx
    rw [hmade.parent, hold dir hdir, Function.update_self]
    exact Nat.lt_succ_self _
  · rw [hmade.live, Function.update_of_ne hx] at hd
    rw [(hmade.ext.grows.dentry d hd).dParent, hold d hd]
    have hparent : (s.dc.dentry d).dParent ≠ x := by
      intro heq
      rcases hs.parent d hd with hnull | hlive
      · refine hmade.ext.sound.ne_zero (d := x) ?_ (heq.symm.trans hnull)
        rw [hmade.live]
        exact Function.update_self _ _ _
      · exact hnew (heq ▸ hlive)
    rw [Function.update_of_ne hparent]
    exact hlt d hd hdead

theorem Ranked.component (h : Ranked st s) (hg : st.Grows s) (hs : s.Sound)
    (hd : s.dc.live d = true) (hfills : fs.FillsIn) {lastType : LastType}
    (hcomp : vfsWalkComponent fs s d name = (.ok (next, lastType), s')) : Ranked st s' := by
  by_cases hdot : name = [46]
  · subst hdot
    cases hcomp
    exact h
  by_cases hup : name = [46, 46]
  · subst hup
    cases hcomp
    exact h
  obtain ⟨r, s₁, hlookup, -, rfl, -⟩ := walkComponent_named hdot hup hcomp
  have hsame := (SameTree.of_followMount s₁ r).trans (.put _ d)
  obtain ⟨-, rfl, -⟩ | ⟨hmade, -⟩ := lookupSingle_cases hfills hs hd hlookup
  · exact h.same hsame
  · exact (h.made hg hs (lookupBase_live hs hd) hmade).same hsame

/-- At the end of a walk each step of `..` still goes to the parent, and new dentries are below
their parents. -/
theorem Walks.ranked (h : Walks fs s d names steps x s') (hfills : fs.FillsIn) (hs : s.Sound)
    (hd : s.dc.live d = true) (hg : st.Grows s) (hr : Ranked st s) :
    s.Grows s' ∧ Ranked st s' ∧ ∀ u ∈ steps.flatMap WalkStep.ups,
      s'.dc.live u.1 = true ∧ u.2 ≠ 0 ∧ u.2 = (s'.dc.dentry u.1).dParent := by
  induction h with
  | nil s d => exact ⟨.refl s, hr, fun u hu => absurd hu List.not_mem_nil⟩
  | cons hcomp tail ih =>
      rename_i s s' s'' d next x name names steps lastType
      have hspec := vfsWalkComponent_spec fs hs hd name
      rw [hcomp] at hspec
      obtain ⟨hext, hlive, -⟩ := hspec
      obtain ⟨hgrows, hranked, hups⟩ := ih hext.sound hlive (hg.trans hext.grows)
        (hr.component hg hs hd hfills hcomp)
      refine ⟨hext.grows.trans hgrows, hranked, fun u hu => ?_⟩
      rw [List.flatMap_cons, List.mem_append] at hu
      rcases hu with hu | hu
      · -- the step of this component
        unfold walkStep at hu
        split at hu
        · exact absurd hu List.not_mem_nil
        split at hu
        · simp only at hu
          split at hu
          · rename_i hparent
            obtain rfl := List.mem_singleton.mp hu
            have hall := hext.grows.trans hgrows
            exact ⟨hall.live d hd, hparent.1, (hall.dentry d hd).dParent.symm⟩
          · exact absurd hu List.not_mem_nil
        · split at hu
          · exact absurd hu List.not_mem_nil
          · exact absurd hu List.not_mem_nil
      · exact hups u hu

/-- A walk that goes up from a new dentry is out of balance. -/
theorem Walks.not_up_new (h : Walks fs s d names steps x s') (hfills : fs.FillsIn)
    (hst : st.Sound) (hsame : SameTree st s) (hs : s.Sound) (hd : s.dc.live d = true)
    (hg : st.Grows s)
    (hperm : ((steps.flatMap WalkStep.ups).map Prod.fst).Perm
      ((steps.flatMap WalkStep.ups).map Prod.snd)) :
    ¬∃ u ∈ steps.flatMap WalkStep.ups, st.dc.live u.1 = false := by
  have hstart : Ranked st s := by
    refine ⟨fun _ => 0, fun _ _ => rfl, fun e he hnew => ?_⟩
    rw [hsame.live, hnew] at he
    cases he
  obtain ⟨hgrows, ⟨rank, hzero, hlt⟩, hups⟩ := h.ranked hfills hs hd hg hstart
  have hall := hg.trans hgrows
  have hle : ∀ u ∈ steps.flatMap WalkStep.ups, rank u.2 ≤ rank u.1 := by
    intro u hu
    obtain ⟨hlive, hnull, hparent⟩ := hups u hu
    rw [hparent] at hnull ⊢
    by_cases hold : st.dc.live u.1 = true
    · rw [(hall.dentry _ hold).dParent] at hnull ⊢
      rw [hzero _ ((hst.parent _ hold).resolve_left hnull)]
      exact Nat.zero_le _
    · exact (hlt _ hlive (Bool.eq_false_of_not_eq_true hold)).le
  rintro ⟨u, hu, hnew⟩
  obtain ⟨hlive, -, hparent⟩ := hups u hu
  have heq := rank_eq_of_perm hperm hle u hu
  rw [hparent] at heq
  exact (hlt _ hlive hnew).ne heq

/-! ## References on success -/

theorem length_pathNames_le (fuel : Nat) (path : List UInt8) :
    (pathNames fuel path).length ≤ fuel := by
  induction fuel generalizing path with
  | zero => exact le_rfl
  | succ fuel ih =>
      rw [pathNames]
      split
      · exact Nat.zero_le _
      · exact Nat.succ_le_succ (ih _)

theorem length_namesOf_le (path : List UInt8) : (namesOf path).length ≤ path.length :=
  (length_pathNames_le _ _).trans (length_vfsSkipSlashes_le path)

theorem Walks.length_eq (h : Walks fs s d names steps x s') : steps.length = names.length := by
  induction h with
  | nil => rfl
  | cons _ _ ih => exact congrArg (· + 1) ih

/-- A step goes up or finds a dentry, if any. -/
theorem length_ups_found (steps : List WalkStep) :
    (steps.flatMap WalkStep.ups).length + (steps.flatMap WalkStep.found).length
      ≤ steps.length := by
  induction steps with
  | nil => exact le_rfl
  | cons step steps ih =>
      rw [List.flatMap_cons, List.flatMap_cons, List.length_append, List.length_append,
        List.length_cons]
      have hone : step.ups.length + step.found.length ≤ 1 := by
        cases step with
        | stay => exact Nat.zero_le _
        | up dentry parent => exact le_rfl
        | down dentry next found =>
            rw [WalkStep.ups, WalkStep.found, List.length_nil, Nat.zero_add]
            cases found with
            | none => exact Nat.zero_le _
            | some d => exact le_rfl
        | notDir dentry => exact Nat.zero_le _
      omega

/-- Few steps are in balance only if they find nothing. -/
theorem UpsBalanced.perm (h : UpsBalanced steps) (hshort : steps.length < 2 ^ 32) :
    steps.flatMap WalkStep.found = []
      ∧ ((steps.flatMap WalkStep.ups).map Prod.fst).Perm
        ((steps.flatMap WalkStep.ups).map Prod.snd) := by
  have hlen := length_ups_found steps
  have hperm : ((steps.flatMap WalkStep.ups).map Prod.fst).Perm
      ((steps.flatMap WalkStep.ups).map Prod.snd ++ steps.flatMap WalkStep.found) := by
    refine List.perm_iff_count.mpr fun e => ?_
    rw [List.count_append]
    have hfst := List.count_le_length (a := e) (l := (steps.flatMap WalkStep.ups).map Prod.fst)
    have hsnd := List.count_le_length (a := e) (l := (steps.flatMap WalkStep.ups).map Prod.snd)
    have hfound := List.count_le_length (a := e) (l := steps.flatMap WalkStep.found)
    rw [List.length_map] at hfst hsnd
    exact (h e).eq_of_lt_of_lt (by omega) (by omega)
  have hnil : steps.flatMap WalkStep.found = [] := by
    have hlength := hperm.length_eq
    rw [List.length_append, List.length_map, List.length_map] at hlength
    exact List.length_eq_zero_iff.mp (by omega)
  rw [hnil, List.append_nil] at hperm
  exact ⟨hnil, hperm⟩

theorem UpsBalanced.of_perm (hfound : steps.flatMap WalkStep.found = [])
    (hperm : ((steps.flatMap WalkStep.ups).map Prod.fst).Perm
      ((steps.flatMap WalkStep.ups).map Prod.snd)) : UpsBalanced steps := by
  intro e
  rw [hfound, List.count_nil, Nat.add_zero, hperm.count_eq]

/-- The first name that is looked up is an unknown one if nothing is found. -/
theorem unknown_of_found (hfills : fs.FillsIn) (hs : s.Sound) (hd : s.dc.live d = true)
    (hcached : MountpointsCached s) (hslash : 47 ∉ name) (hdot : name ≠ [46])
    (hdotdot : name ≠ [46, 46]) {lastType : LastType}
    (hcomp : vfsWalkComponent fs s d name = (.ok (next, lastType), s'))
    (hfound : (walkStep fs s d name).found = []) : Unknown s d name := by
  obtain ⟨r, s₁, hlookup, -, -, hstep⟩ := walkComponent_named hdot hdotdot hcomp
  obtain ⟨hnull, -, hcache⟩ | ⟨-, hnone⟩ := lookupSingle_cases hfills hs hd hlookup
  · have hlive : s.dc.live r = true := by
      rw [← hcache] at hnull ⊢
      exact dentryLookup_live hs hnull
    rw [hstep, if_pos hlive] at hfound
    cases hfound
  · refine ⟨hnone, ?_⟩
    by_contra hmount
    exact hcached _ name hslash hmount hnone

theorem fillsIn_nameFs (inode : List UInt8 → Addr) : (nameFs inode).FillsIn := by
  intro w live dir d dentry r h
  unfold nameFs at h
  simp only at h
  split at h
  · cases h
  · cases h
    rfl

/-- The root is mounted on itself, under a name that no path has. -/
theorem mountOn_rootOnly {dir : Addr} (hslash : 47 ∉ name) : mountOn rootOnly dir name = none := by
  refine List.find?_eq_none.mpr fun mnt hmnt heq => ?_
  obtain rfl := List.mem_singleton.mp hmnt
  obtain ⟨-, -, -, hname⟩ := of_decide_eq_true heq
  rw [← hname] at hslash
  exact hslash (List.mem_singleton_self _)

theorem mountpointsCached_rootOnly : MountpointsCached rootOnly :=
  fun _ _ hslash hmount => absurd (mountOn_rootOnly hslash) hmount

end NoobKernel.Fs
