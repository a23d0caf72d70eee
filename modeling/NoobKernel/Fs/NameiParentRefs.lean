import NoobKernel.Fs.NameiParent

set_option autoImplicit false

/-! # References of the directory of the last component

`vfs_path_parent` takes a reference to the dentry that it starts at, and gives it up when it
fails, wherever it is then. A dentry that it leaves is put unless it is the start, and a dentry
that was there before is not referenced when it is entered. The steps of the loop say what is left.
-/

namespace NoobKernel.Fs

open Tally

variable {W : Type} {fs : FileSystem W} {st st' st'' : Vfs W} {base current next d e : Addr}
  {p path : List UInt8}

/-- A name before the last component is looked up. -/
def parentStep (st : Vfs W) (current : Addr) : Except Int Addr × Vfs W → WalkStep
  | (.error _, _) => .stay
  | (.ok next, st') =>
      .down current (followMount st' next).1 (if st.dc.live next then some next else none)

/-- The steps of the loop, as far as it gets. -/
def parentLoopSteps (fs : FileSystem W) (base : Addr) : Nat → Vfs W → Addr → List UInt8 →
    List WalkStep
  | 0, _, _, _ => []
  | fuel + 1, st, current, p =>
      let name := vfsGetName p
      let rest := vfsSkipSlashes (p.drop name.length)
      if p = [] ∨ rest = [] then []
      else
        let looked := vfsLookupSingle fs st current name (UInt32.ofNat name.length)
        match looked with
        | (.error _, _) => []
        | (.ok next, st') =>
            let followed := followMount st' next
            let st'' := if current ≠ base then followed.2.dentryPut current else followed.2
            parentStep st current looked :: parentLoopSteps fs base fuel st'' followed.1 rest

/-- The steps of `vfs_path_parent`. -/
def parentSteps (fs : FileSystem W) (st : Vfs W) (base : Addr) (path : List UInt8) :
    List WalkStep :=
  if startOf st base = 0 then []
  else
    let p := vfsSkipSlashes path
    parentLoopSteps fs (startOf st base) p.length (st.dentryGet (startOf st base))
      (startOf st base) p

/-- The steps that start at the base, which is not given up there. -/
def starts (base : Addr) (steps : List WalkStep) : List Addr :=
  ((steps.flatMap WalkStep.moves).map Prod.fst).filter (· = base)

/-- Where the steps lead. -/
def stepsEnd (base : Addr) (steps : List WalkStep) : Addr :=
  ((steps.flatMap WalkStep.moves).map Prod.snd).getLastD base

/-- Only the base is found, as often as it is left. -/
def StartsBalanced (base : Addr) (steps : List WalkStep) : Prop :=
  ∀ e, (steps.flatMap WalkStep.found).count e ≡ (starts base steps).count e [MOD 2 ^ 32]

/-- What is found makes up for the reference at the end and for those to the base. -/
def EndBalanced (base : Addr) (steps : List WalkStep) : Prop :=
  ∀ e, (steps.flatMap WalkStep.found).count e + [base].count e
    ≡ (starts base steps).count e + [stepsEnd base steps].count e [MOD 2 ^ 32]

/-! ## One name -/

/-- The counts after steps of this loop. -/
def ParentCounts (st : Vfs W) (base : Addr) (steps : List WalkStep) (st' : Vfs W) : Prop :=
  ∀ e, st'.dc.refs e + tally (steps.flatMap WalkStep.puts) e
    = st.dc.refs e + tally (steps.flatMap WalkStep.gets) e + tally (starts base steps) e

/-- Steps of this loop that lead from one dentry to another. -/
structure ParentTo (st : Vfs W) (base current : Addr) (steps : List WalkStep) (next : Addr)
    (st' : Vfs W) : Prop where
  ext : st.Extends st'
  live : st'.dc.live next = true
  moves : Moves current (steps.flatMap WalkStep.moves) next
  downs : steps.flatMap WalkStep.ups = [] ∧ steps.flatMap WalkStep.notDirs = []
  counts : ParentCounts st base steps st'

theorem ParentTo.refl (hs : st.Sound) (hd : st.dc.live d = true) :
    ParentTo st base d [] d st := ⟨.refl hs, hd, rfl, ⟨rfl, rfl⟩, fun _ => (UInt32.add_zero _).symm⟩

open scoped UInt32.CommRing in
theorem ParentTo.append {xs ys : List WalkStep} {d' : Addr} (h : ParentTo st base current xs d st')
    (h' : ParentTo st' base d ys d' st'') : ParentTo st base current (xs ++ ys) d' st'' where
  ext := h.ext.trans h'.ext
  live := h'.live
  moves := by
    rw [List.flatMap_append]
    exact h.moves.append h'.moves
  downs := by
    rw [List.flatMap_append, List.flatMap_append, h.downs.1, h.downs.2, h'.downs.1, h'.downs.2]
    exact ⟨rfl, rfl⟩
  counts := by
    intro e
    have hstarts : starts base (xs ++ ys) = starts base xs ++ starts base ys := by
      rw [starts, List.flatMap_append, List.map_append, List.filter_append]
      rfl
    rw [hstarts, List.flatMap_append, List.flatMap_append, tally_append, tally_append,
      tally_append]
    linear_combination h.counts e + h'.counts e

variable (base) in
open scoped UInt32.CommRing in
/-- A name that is found. -/
theorem parentTo_lookup (hs : st.Sound) (hd : st.dc.live current = true) {name : List UInt8}
    {len : UInt32} (h : vfsLookupSingle fs st current name len = (.ok next, st')) :
    ParentTo st base current [parentStep st current (.ok next, st')] (followMount st' next).1
      (if current ≠ base then (followMount st' next).2.dentryPut current
        else (followMount st' next).2) := by
  have hspec := vfsLookupSingle_spec fs hs hd name len
  rw [h] at hspec
  obtain ⟨hext, hlive, hfound⟩ := lookedUp_followMount hspec
  have hput := Vfs.Extends.put hext.sound current
  by_cases hbase : current = base
  · -- the start keeps its reference, which the steps count as one that is given up
    rw [if_neg (not_not.mpr hbase)]
    refine ⟨hext, hlive, ⟨rfl, rfl⟩, ⟨rfl, rfl⟩, fun e => ?_⟩
    have hstarts : starts base [parentStep st current (.ok next, st')] = [current] := by
      simp [starts, parentStep, WalkStep.moves, hbase]
    rw [hstarts, List.flatMap_singleton, List.flatMap_singleton]
    simp only [parentStep, WalkStep.gets, WalkStep.puts]
    rw [tally_cons current]
    linear_combination hfound e
  · rw [if_pos hbase]
    refine ⟨hext.trans hput, hput.grows.live _ hlive, ⟨rfl, rfl⟩, ⟨rfl, rfl⟩, fun e => ?_⟩
    have hstarts : starts base [parentStep st current (.ok next, st')] = [] := by
      simp [starts, parentStep, WalkStep.moves, hbase]
    have hleft := hext.sound.refs_put (hext.grows.live _ hd) e
    rw [hstarts, List.flatMap_singleton, List.flatMap_singleton]
    simp only [parentStep, WalkStep.gets, WalkStep.puts]
    rw [tally_cons current, tally_nil]
    linear_combination hfound e + hleft

/-! ## The loop -/

/-- A failed loop has given up the reference to the base. -/
def ParentFails (st : Vfs W) (base current : Addr) (steps : List WalkStep) (st' : Vfs W) : Prop :=
  ∃ d st₁, ParentTo st base current steps d st₁ ∧ st₁.Extends st'
    ∧ ∀ e, st'.dc.refs e + tally [base] e = st₁.dc.refs e

variable (fs p) in
theorem vfsPathParentLoop_steps (fuel : Nat) (hs : st.Sound) (hd : st.dc.live current = true)
    (hb : st.dc.live base = true) (lastStart : Option (List UInt8)) :
    match vfsPathParentLoop fs base fuel st current lastStart p with
    | (.ok (d, _), st') => ParentTo st base current (parentLoopSteps fs base fuel st current p) d st'
    | (.error _, st') => ParentFails st base current (parentLoopSteps fs base fuel st current p) st' := by
  induction fuel generalizing st current p lastStart with
  | zero => exact .refl hs hd
  | succ fuel ih =>
      unfold vfsPathParentLoop parentLoopSteps
      by_cases hnil : p = []
      · rw [if_pos hnil, if_pos (.inl hnil)]
        exact .refl hs hd
      rw [if_neg hnil]
      simp only
      by_cases hrest : vfsSkipSlashes (p.drop (vfsGetName p).length) = []
      · -- the last component
        rw [if_pos hrest, if_pos (.inr hrest), hrest, vfsPathParentLoop_nil]
        exact .refl hs hd
      rw [if_neg hrest, if_neg (not_or.mpr ⟨hnil, hrest⟩)]
      have hspec := vfsLookupSingle_spec fs hs hd (vfsGetName p)
        (UInt32.ofNat (vfsGetName p).length)
      generalize hlookup : vfsLookupSingle fs st current (vfsGetName p)
        (UInt32.ofNat (vfsGetName p).length) = r at hspec ⊢
      obtain ⟨err | next, st₁⟩ := r
      · obtain ⟨hext, hrefs⟩ := hspec
        refine ⟨current, st, .refl hs hd, hext.trans (.put hext.sound base), fun e => ?_⟩
        exact (hext.sound.refs_put (hext.grows.live _ hb) e).trans (hrefs e)
      have hstep := parentTo_lookup base hs hd hlookup
      simp only
      have htail := ih (vfsSkipSlashes (p.drop (vfsGetName p).length)) hstep.ext.sound hstep.live
        (hstep.ext.grows.live _ hb) (some p)
      generalize vfsPathParentLoop fs base fuel _ (followMount st₁ next).1 (some p)
        (vfsSkipSlashes (p.drop (vfsGetName p).length)) = r at htail ⊢
      obtain ⟨err | ⟨d, lastStart'⟩, st₂⟩ := r
      · obtain ⟨d, st₃, hto, hfail⟩ := htail
        exact ⟨d, st₃, hstep.append hto, hfail⟩
      · exact hstep.append htail

variable (fs) in
theorem vfsPathParent_steps (hs : st.Sound) (hbase : base = 0 ∨ st.dc.live base = true)
    (hstart : startOf st base ≠ 0) (path : List UInt8) :
    match vfsPathParent fs st base path with
    | (.ok (parent, _), st') => ∃ st₁, ParentTo (st.dentryGet (startOf st base)) (startOf st base)
        (startOf st base) (parentSteps fs st base path) parent.dentry st₁
        ∧ st₁.Extends st' ∧ ∀ e, st'.dc.refs e = st₁.dc.refs e
    | (.error _, st') => ParentFails (st.dentryGet (startOf st base)) (startOf st base)
        (startOf st base) (parentSteps fs st base path) st' := by
  unfold vfsPathParent parentSteps
  simp only
  rw [if_neg hstart, if_neg hstart]
  have hb := startOf_live hs hbase hstart
  generalize startOf st base = b at hb hstart
  have hext := Vfs.Extends.get hs b
  have hb' := hext.grows.live b hb
  have hloop := vfsPathParentLoop_steps fs (vfsSkipSlashes path) (vfsSkipSlashes path).length
    hext.sound hb' hb' none
  generalize vfsPathParentLoop fs b (vfsSkipSlashes path).length (st.dentryGet b) b none
    (vfsSkipSlashes path) = r at hloop ⊢
  obtain ⟨err | ⟨d, lastStart⟩, st₁⟩ := r
  · exact hloop
  have hto : ParentTo (st.dentryGet b) b b _ d st₁ := hloop
  -- `kmalloc` changes the world, and no dentry
  have hworld : st₁.Extends { st₁ with world := (fs.kmalloc st₁.world).2 } :=
    .of_frees (hto.ext.sound.congr rfl (fun _ _ => rfl) (fun _ _ h => h) rfl rfl)
      ⟨fun _ h => h, fun _ _ => .refl _, rfl, rfl⟩ rfl
  simp only
  by_cases hmem : (fs.kmalloc st₁.world).1 = false
  · -- no memory for the name: the base is put once more
    rw [if_pos hmem]
    have hb₁ := hto.ext.grows.live b hb'
    refine ⟨d, st₁, hto, hworld.trans (.put hworld.sound b), fun e => ?_⟩
    exact hworld.sound.refs_put (hworld.grows.live b hb₁) e
  · rw [if_neg hmem]
    exact ⟨st₁, hto, hworld, fun _ => rfl⟩

/-! ## Balance -/

open scoped UInt32.CommRing in
/-- The counts at the end of the loop, from what it found and how often it left the base. -/
theorem ParentTo.refs {steps : List WalkStep} (hs : st.Sound) (hb : st.dc.live base = true)
    (h : ParentTo (st.dentryGet base) base base steps d st') (e : Addr) :
    st'.dc.refs e + tally (steps.flatMap WalkStep.found) e
      = st.dc.refs e + tally [d] e + tally (starts base steps) e := by
  have hget := hs.refs_get hb e
  have hcounts := h.counts e
  have hmoves := h.moves.tally_eq e
  have hleft := tally_left steps e
  have hentered := tally_entered steps e
  obtain ⟨hups, hnotDirs⟩ := h.downs
  rw [hups, hnotDirs, List.map_nil, tally_nil] at hleft
  rw [hups, List.map_nil, tally_nil] at hentered
  linear_combination hcounts + hget - hmoves + hleft - hentered

variable (fs) in
open scoped UInt32.CommRing in
/-- On success one reference is left, to the directory,
exactly if the loop finds the base as often as it leaves it and finds nothing else. On failure
none is left exactly if what is found makes up for the dentry that the loop was at. -/
theorem parentNeutral_iff_steps (hs : st.Sound) (hbase : base = 0 ∨ st.dc.live base = true)
    (path : List UInt8) :
    match vfsPathParent fs st base path with
    | (.ok (parent, _), st') => NeutralOk st parent.dentry st'
        ↔ StartsBalanced (startOf st base) (parentSteps fs st base path)
    | (.error _, st') => NeutralError st st'
        ↔ EndBalanced (startOf st base) (parentSteps fs st base path) := by
  by_cases hstart : startOf st base = 0
  · unfold vfsPathParent parentSteps
    simp only
    rw [if_pos hstart, if_pos hstart]
    exact iff_of_true (fun _ => rfl) fun _ => Nat.ModEq.add_left _ rfl
  have hspec := vfsPathParent_steps fs hs hbase hstart path
  have hb := startOf_live hs hbase hstart
  -- only what the specification says of the steps and the result matters from here on
  generalize parentSteps fs st base path = steps at hspec ⊢
  generalize startOf st base = b at hb hstart hspec ⊢
  generalize vfsPathParent fs st base path = r at hspec ⊢
  obtain ⟨err | ⟨parent, last⟩, st'⟩ := r
  · obtain ⟨d, st₁, hto, -, hput⟩ := hspec
    have hend : stepsEnd b steps = d := hto.moves.getLastD_eq
    refine forall_congr' fun e => ?_
    have hrefs := hto.refs hs hb e
    have hput := hput e
    rw [hend, ← List.count_append, ← List.count_append, ← tally_eq_iff, tally_append, tally_append]
    -- both sides count the references to `e`, and differ by `hrefs` and `hput`
    constructor
    · intro hneutral
      linear_combination hrefs + hput - hneutral
    · intro hbalanced
      linear_combination hrefs + hput - hbalanced
  · obtain ⟨st₁, hto, -, hsame⟩ := hspec
    refine forall_congr' fun e => ?_
    have hrefs := hto.refs hs hb e
    have hsame := hsame e
    rw [← tally_singleton, ← tally_eq_iff]
    constructor
    · intro hneutral
      linear_combination hrefs + hsame - hneutral
    · intro hbalanced
      linear_combination hrefs + hsame - hbalanced

end NoobKernel.Fs
