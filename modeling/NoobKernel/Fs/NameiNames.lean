import NoobKernel.Fs.NameiParent

set_option autoImplicit false

/-! # The names of a path

The components of a path are what stands between its slashes. `vfs_get_name` takes at most
`NAME_MAX` characters, and the loops go on after these, so that a longer component is taken apart
into names that are looked up one in the other.
-/

namespace NoobKernel.Fs

variable {W : Type} {fs : FileSystem W} {st st' : Vfs W} {base : Addr} {name path : List UInt8}

/-- The runs of characters between slashes that are not empty. -/
def components (path : List UInt8) : List (List UInt8) := (path.splitOn 47).filter (· ≠ [])

/-- The names that the loop of `vfs_path_walk` extracts. -/
def walkNames (fs : FileSystem W) : Nat → Vfs W → Addr → List UInt8 → List (List UInt8)
  | 0, _, _, _ => []
  | fuel + 1, st, dentry, path =>
      let name := vfsGetName path
      name :: match vfsWalkComponent fs st dentry name with
        | (.error _, _) => []
        | (.ok (dentry, _), st) =>
            let path := vfsSkipSlashes (path.drop name.length)
            if path = [] ∨ isDirectory fs st dentry = false then []
            else walkNames fs fuel st dentry path

def pathWalkNames (fs : FileSystem W) (st : Vfs W) (nd : Nameidata) (path : List UInt8) :
    List (List UInt8) :=
  let path := vfsSkipSlashes path
  if nd.dentry = 0 ∨ path = [] then [] else walkNames fs path.length st nd.dentry path

/-- The names that the loop of `vfs_path_parent` extracts. -/
def parentNames (fs : FileSystem W) (base : Addr) : Nat → Vfs W → Addr → List UInt8 →
    List (List UInt8)
  | 0, _, _, _ => []
  | fuel + 1, st, current, p =>
      if p = [] then []
      else
        let name := vfsGetName p
        let rest := vfsSkipSlashes (p.drop name.length)
        name ::
          if rest = [] then []
          else
            match vfsLookupSingle fs st current name (UInt32.ofNat name.length) with
            | (.error _, _) => []
            | (.ok next, st) =>
                let followed := followMount st next
                let st := if current ≠ base then followed.2.dentryPut current else followed.2
                parentNames fs base fuel st followed.1 rest

def pathParentNames (fs : FileSystem W) (st : Vfs W) (base : Addr) (path : List UInt8) :
    List (List UInt8) :=
  let base := startOf st base
  let p := vfsSkipSlashes path
  if base = 0 then [] else parentNames fs base p.length (st.dentryGet base) base p

/-! ## Components -/

theorem components_slash (path : List UInt8) : components (47 :: path) = components path := by
  rw [components, List.splitOn_cons_eq_if_modifyHead, if_pos (by decide)]
  rfl

theorem components_skipSlashes (path : List UInt8) :
    components (vfsSkipSlashes path) = components path := by
  induction path with
  | nil => rfl
  | cons c path ih =>
      by_cases hc : c = 47
      · subst hc
        rw [components_slash]
        exact ih
      · rw [vfsSkipSlashes, List.dropWhile_cons_of_neg (by simpa using hc)]

/-- A run of other characters, and what follows it. -/
theorem components_append {rest : List UInt8} (hne : name ≠ []) (hslash : 47 ∉ name)
    (hrest : rest = [] ∨ rest.head? = some 47) :
    components (name ++ rest) = name :: components rest := by
  cases rest with
  | nil =>
      rw [List.append_nil, components, List.splitOn_eq_singleton hslash]
      simp [hne, components]
  | cons c rest =>
      obtain rfl : c = 47 := by
        rcases hrest with hnil | hhead
        · cases hnil
        · exact Option.some.inj hhead
      rw [components_slash, components, List.splitOn_append_cons_self_of_not_mem hslash,
        List.filter_cons_of_pos (by simpa using hne), components]

theorem head?_dropWhile_slash (path : List UInt8) :
    path.dropWhile (· ≠ 47) = [] ∨ (path.dropWhile (· ≠ 47)).head? = some 47 := by
  cases hrest : path.dropWhile (· ≠ 47) with
  | nil => exact .inl rfl
  | cons c rest =>
      have hnot := List.head?_dropWhile_not (fun c : UInt8 => decide (c ≠ 47)) path
      rw [hrest] at hnot
      have hc : c = 47 := by simpa using hnot
      exact .inr (congrArg some hc)

/-- The first component of a path that does not start with a slash. -/
theorem components_takeWhile (hne : path ≠ []) (hstart : path.head? ≠ some 47) :
    components path = path.takeWhile (· ≠ 47) :: components (path.dropWhile (· ≠ 47)) := by
  have hslash : 47 ∉ path.takeWhile (· ≠ 47) := by
    intro hmem
    have hpos := List.all_eq_true.mp List.all_takeWhile _ hmem
    simp at hpos
  have hfirst : path.takeWhile (· ≠ 47) ≠ [] := by
    cases path with
    | nil => exact absurd rfl hne
    | cons c path =>
        have hc : c ≠ 47 := fun heq => hstart (heq ▸ rfl)
        rw [List.takeWhile_cons_of_pos (by simpa using hc)]
        exact List.cons_ne_nil _ _
  have hsplit := components_append hfirst hslash (head?_dropWhile_slash path)
  rw [List.takeWhile_append_dropWhile] at hsplit
  exact hsplit

theorem mem_pathNames {fuel : Nat} {path name : List UInt8} (h : name ∈ pathNames fuel path) :
    ∃ rest, name = vfsGetName rest := by
  induction fuel generalizing path with
  | zero => exact absurd h List.not_mem_nil
  | succ fuel ih =>
      rw [pathNames] at h
      split at h
      · exact absurd h List.not_mem_nil
      · rcases List.mem_cons.mp h with rfl | h
        · exact ⟨path, rfl⟩
        · exact ih h

/-- No name of a path has a slash. -/
theorem slash_notMem_of_mem_namesOf (h : name ∈ namesOf path) : 47 ∉ name := by
  obtain ⟨rest, rfl⟩ := mem_pathNames h
  intro hslash
  have hpos := List.all_eq_true.mp List.all_takeWhile _ (List.mem_of_mem_take hslash)
  simp at hpos

/-- Where no component is too long, the names are the components. -/
theorem pathNames_eq_components {fuel : Nat} (hstart : path.head? ≠ some 47)
    (hshort : ∀ c ∈ components path, c.length ≤ NAME_MAX) (hfuel : path.length ≤ fuel) :
    pathNames fuel path = components path := by
  induction fuel generalizing path with
  | zero =>
      rw [List.length_eq_zero_iff.mp (Nat.le_zero.mp hfuel)]
      rfl
  | succ fuel ih =>
      rw [pathNames]
      by_cases hne : path = []
      · rw [if_pos hne, hne]
        rfl
      rw [if_neg hne]
      rw [components_takeWhile hne hstart] at hshort ⊢
      have hname : vfsGetName path = path.takeWhile (· ≠ 47) :=
        List.take_of_length_le (hshort _ List.mem_cons_self)
      have hdrop : path.drop (path.takeWhile (· ≠ 47)).length = path.dropWhile (· ≠ 47) :=
        calc path.drop (path.takeWhile (· ≠ 47)).length
            = (path.takeWhile (· ≠ 47) ++ path.dropWhile (· ≠ 47)).drop
                (path.takeWhile (· ≠ 47)).length := by rw [List.takeWhile_append_dropWhile]
          _ = path.dropWhile (· ≠ 47) := List.drop_left
      have hlt := length_rest_lt (getName_ne_nil hne hstart)
      rw [hname, hdrop] at hlt ⊢
      rw [ih (head?_skipSlashes_ne _) ?_ (by omega), components_skipSlashes]
      rw [components_skipSlashes]
      exact fun c hc => hshort c (List.mem_cons_of_mem _ hc)

theorem namesOf_eq_components (hshort : ∀ c ∈ components path, c.length ≤ NAME_MAX) :
    namesOf path = components path := by
  rw [← components_skipSlashes] at hshort ⊢
  exact pathNames_eq_components (head?_skipSlashes_ne _) hshort le_rfl

/-! ## What the loops extract -/

/-- The names of the path, as far as the walk gets. -/
theorem walkNames_spec {fuel : Nat} (hne : path ≠ []) (st : Vfs W) (nd : Nameidata)
    (dentry : Addr) :
    match vfsPathWalkLoop fs fuel st nd dentry path with
    | (.ok _, _) => walkNames fs fuel st dentry path = pathNames fuel path
    | (.error _, _) => walkNames fs fuel st dentry path <+: pathNames fuel path := by
  induction fuel generalizing st nd dentry path with
  | zero => exact rfl
  | succ fuel ih =>
      rw [vfsPathWalkLoop, walkNames, pathNames, if_neg hne]
      simp only
      generalize vfsWalkComponent fs st dentry (vfsGetName path) = r
      obtain ⟨err | ⟨next, lastType⟩, st₁⟩ := r
      · exact (List.prefix_cons_inj _).mpr List.nil_prefix
      simp only
      by_cases hrest : vfsSkipSlashes (path.drop (vfsGetName path).length) = []
      · -- the last name
        rw [if_pos hrest, if_pos (.inl hrest), hrest]
        cases fuel with
        | zero => exact rfl
        | succ fuel => exact rfl
      rw [if_neg hrest]
      by_cases hdir : isDirectory fs st₁ next = false
      · rw [if_pos hdir, if_pos (.inr hdir)]
        exact (List.prefix_cons_inj _).mpr List.nil_prefix
      rw [if_neg hdir, if_neg (not_or.mpr ⟨hrest, hdir⟩)]
      have htail := ih hrest st₁ { nd with lastType := lastType } next
      generalize vfsPathWalkLoop fs fuel st₁ { nd with lastType := lastType } next
        (vfsSkipSlashes (path.drop (vfsGetName path).length)) = r at htail ⊢
      obtain ⟨err | nd', st₂⟩ := r
      · exact (List.prefix_cons_inj _).mpr htail
      · exact congrArg (vfsGetName path :: ·) htail

/-- Where the last component starts: at the last name that has been extracted. -/
def lastName : Option (List UInt8) → List UInt8
  | some start => vfsGetName start
  | none => []

variable (fs base) in
theorem parentNames_spec {fuel : Nat} (hfuel : path.length ≤ fuel) (hstart : path.head? ≠ some 47)
    (st : Vfs W) (current : Addr) (lastStart : Option (List UInt8)) :
    match vfsPathParentLoop fs base fuel st current lastStart path with
    | (.ok (_, start), _) => parentNames fs base fuel st current path = pathNames fuel path
        ∧ lastName start = (pathNames fuel path).getLastD (lastName lastStart)
    | (.error _, _) => parentNames fs base fuel st current path <+: pathNames fuel path := by
  induction fuel generalizing st current lastStart path with
  | zero => exact ⟨rfl, rfl⟩
  | succ fuel ih =>
      rw [vfsPathParentLoop, parentNames, pathNames]
      by_cases hne : path = []
      · rw [if_pos hne, if_pos hne, if_pos hne]
        exact ⟨rfl, rfl⟩
      rw [if_neg hne, if_neg hne, if_neg hne]
      simp only
      have hlt := length_rest_lt (getName_ne_nil hne hstart)
      have hstart' := head?_skipSlashes_ne (path.drop (vfsGetName path).length)
      by_cases hrest : vfsSkipSlashes (path.drop (vfsGetName path).length) = []
      · rw [if_pos hrest, if_pos hrest, hrest, vfsPathParentLoop_nil]
        cases fuel with
        -- the name is the last one: the loop ends behind it
        | zero => exact ⟨rfl, rfl⟩
        | succ fuel => exact ⟨rfl, rfl⟩
      rw [if_neg hrest, if_neg hrest]
      -- the names do not depend on what the lookup finds, only on whether it fails
      generalize vfsLookupSingle fs st current (vfsGetName path)
        (UInt32.ofNat (vfsGetName path).length) = r
      obtain ⟨err | next, st₁⟩ := r
      · exact (List.prefix_cons_inj _).mpr List.nil_prefix
      simp only
      generalize (if current ≠ base then (followMount st₁ next).2.dentryPut current
        else (followMount st₁ next).2) = st₂
      have htail := ih (by omega) hstart' st₂ (followMount st₁ next).1 (some path)
      generalize vfsPathParentLoop fs base fuel st₂ (followMount st₁ next).1 (some path)
        (vfsSkipSlashes (path.drop (vfsGetName path).length)) = r at htail ⊢
      obtain ⟨err | ⟨d, start⟩, st₃⟩ := r
      · exact (List.prefix_cons_inj _).mpr htail
      · refine ⟨congrArg (vfsGetName path :: ·) htail.1, ?_⟩
        rw [List.getLastD_cons]
        exact htail.2

/-- The names that `vfs_path_walk` extracts, up to where it fails. -/
theorem pathWalkNames_spec (fs : FileSystem W) (st : Vfs W) (nd : Nameidata) (path : List UInt8) :
    match vfsPathWalk fs st nd path with
    | (.ok _, _) => pathWalkNames fs st nd path = namesOf path
    | (.error _, _) => pathWalkNames fs st nd path <+: namesOf path := by
  unfold vfsPathWalk pathWalkNames namesOf
  simp only
  by_cases hnull : nd.dentry = 0
  · rw [if_pos hnull, if_pos (.inl hnull)]
    exact List.nil_prefix
  rw [if_neg hnull]
  by_cases hpath : vfsSkipSlashes path = []
  · rw [if_pos hpath, if_pos (.inr hpath), hpath]
    exact rfl
  · rw [if_neg hpath, if_neg (not_or.mpr ⟨hnull, hpath⟩)]
    exact walkNames_spec hpath st nd nd.dentry

/-- Those of `vfs_path_parent`, and the last of them. -/
theorem pathParentNames_spec (fs : FileSystem W) (st : Vfs W) (base : Addr) (path : List UInt8) :
    match vfsPathParent fs st base path with
    | (.ok (_, last), _) => pathParentNames fs st base path = namesOf path
        ∧ last.name = (namesOf path).getLastD []
    | (.error _, _) => pathParentNames fs st base path <+: namesOf path := by
  unfold vfsPathParent pathParentNames namesOf
  simp only
  by_cases hstart : startOf st base = 0
  · rw [if_pos hstart, if_pos hstart]
    exact List.nil_prefix
  rw [if_neg hstart, if_neg hstart]
  have hloop := parentNames_spec fs (startOf st base) le_rfl (head?_skipSlashes_ne path)
    (st.dentryGet (startOf st base)) (startOf st base) none
  generalize vfsPathParentLoop fs (startOf st base) (vfsSkipSlashes path).length
    (st.dentryGet (startOf st base)) (startOf st base) none (vfsSkipSlashes path) = r at hloop ⊢
  obtain ⟨err | ⟨d, start⟩, st₁⟩ := r
  · exact hloop
  simp only
  by_cases hmem : (fs.kmalloc st₁.world).1 = false
  · rw [if_pos hmem, hloop.1]
  · rw [if_neg hmem]
    refine ⟨hloop.1, Eq.trans ?_ hloop.2⟩
    cases start with
    | none => rfl
    | some start => rfl

/-! ## Long components -/

/-- What the walkers should make of a path: over every file system and in every state the names are
the components, up to the first that cannot be looked up, and a component that is too long is an
error. -/
structure PathParsed (path : List UInt8) : Prop where
  walk : ∀ (W : Type) (fs : FileSystem W) (st : Vfs W) (nd : Nameidata),
    match vfsPathWalk fs st nd path with
    | (.ok _, _) => pathWalkNames fs st nd path = components path
    | (.error _, _) => pathWalkNames fs st nd path <+: components path
  parent : ∀ (W : Type) (fs : FileSystem W) (st : Vfs W) (base : Addr),
    match vfsPathParent fs st base path with
    | (.ok (_, last), _) => pathParentNames fs st base path = components path
        ∧ last.name = (components path).getLastD []
    | (.error _, _) => pathParentNames fs st base path <+: components path
  refused : (∃ c ∈ components path, NAME_MAX < c.length) →
    ∀ (W : Type) (fs : FileSystem W) (st : Vfs W) (nd : Nameidata) (base : Addr),
      (vfsPathWalk fs st nd path).1.isOk = false ∧ (vfsPathParent fs st base path).1.isOk = false

/-- The walk starts at the root directory whose names lead back to it. -/
def loopStart : Nameidata := ⟨0x80001000, 0, 0, .norm, none, 0⟩

/-- There every path can be walked. -/
theorem loopStart_walk (path : List UInt8) :
    ∃ nd st', vfsPathWalk loopFs loopRoot loopStart path = (.ok nd, st') := by
  have hne : ¬loopStart.dentry = 0 := by decide
  unfold vfsPathWalk
  simp only
  rw [if_neg hne]
  by_cases hnil : vfsSkipSlashes path = []
  · rw [if_pos hnil]
    exact ⟨_, _, rfl⟩
  · rw [if_neg hnil]
    exact Looped.start.walkLoop _ hnil (head?_skipSlashes_ne _) loopStart

theorem length_le_of_pathParsed (h : PathParsed path) :
    ∀ c ∈ components path, c.length ≤ NAME_MAX := by
  intro c hc
  by_contra hlong
  obtain ⟨nd, st', hwalk⟩ := loopStart_walk path
  have hrefused := (h.refused ⟨c, hc, Nat.lt_of_not_le hlong⟩ Unit loopFs loopRoot loopStart 0).1
  rw [hwalk] at hrefused
  cases hrefused

/-- **The names of a path** are its components exactly if none is longer than `NAME_MAX`: no path is
refused for a long one. -/
theorem pathParsed_iff (path : List UInt8) :
    PathParsed path ↔ ∀ c ∈ components path, c.length ≤ NAME_MAX := by
  constructor
  · exact length_le_of_pathParsed
  · intro hshort
    have hnames := namesOf_eq_components hshort
    refine ⟨fun W fs st nd => ?_, fun W fs st base => ?_, ?_⟩
    · rw [← hnames]
      exact pathWalkNames_spec fs st nd path
    · rw [← hnames]
      exact pathParentNames_spec fs st base path
    · rintro ⟨c, hc, hlong⟩
      exact absurd (hshort c hc) (Nat.not_le_of_lt hlong)

theorem getName_of_noSlash (hslash : 47 ∉ name) : vfsGetName name = name.take NAME_MAX := by
  have hname : vfsGetName (name ++ []) = _ := getName_append hslash fun _ hc => nomatch hc
  rwa [List.append_nil] at hname

theorem skipSlashes_of_noSlash (hslash : 47 ∉ name) : vfsSkipSlashes name = name :=
  skipSlashes_of_head fun hhead => hslash (List.mem_of_mem_head? hhead)

theorem pathNames_nil (fuel : Nat) : pathNames fuel [] = [] := by
  cases fuel with
  | zero => rfl
  | succ fuel => rfl

/-- A component that is too long by one. -/
theorem namesOf_long {c : UInt8} (hslash : 47 ∉ name ++ [c]) (hlen : name.length = NAME_MAX) :
    namesOf (name ++ [c]) = [name, [c]] := by
  have hc : 47 ∉ [c] := fun hmem => hslash (List.mem_append_right _ hmem)
  have hfirst : vfsGetName (name ++ [c]) = name := by
    rw [getName_of_noSlash hslash, ← hlen, List.take_left]
  have hsecond : vfsGetName [c] = [c] := by
    rw [getName_of_noSlash hc]
    rfl
  have hmax : name.length = 254 + 1 := hlen
  rw [namesOf, skipSlashes_of_noSlash hslash, List.length_append, List.length_singleton, pathNames,
    if_neg (List.append_ne_nil_of_right_ne_nil _ (List.cons_ne_nil _ _)), hfirst, List.drop_left,
    skipSlashes_of_noSlash hc, hmax, pathNames, if_neg (List.cons_ne_nil _ _), hsecond,
    List.drop_length]
  exact congrArg (fun names => name :: [c] :: names) (pathNames_nil 254)

/-- A name of 256 characters is looked up as one of 255 and, in what that leads to, one of 1. -/
theorem not_pathParsed : ∃ path, path = List.replicate NAME_MAX 97 ++ [97]
    ∧ components path = [path]
    ∧ (∃ nd st', vfsPathWalk loopFs loopRoot loopStart path = (.ok nd, st'))
    ∧ pathWalkNames loopFs loopRoot loopStart path = [List.replicate NAME_MAX 97, [97]]
    ∧ ¬PathParsed path := by
  have hlen : (List.replicate NAME_MAX (97 : UInt8)).length = NAME_MAX := List.length_replicate
  have hslash : (47 : UInt8) ∉ List.replicate NAME_MAX 97 ++ [97] := by
    rw [List.mem_append, List.mem_replicate, List.mem_singleton]
    decide
  generalize hname : List.replicate NAME_MAX (97 : UInt8) = name at hlen hslash
  have hcomponents : components (name ++ [97]) = [name ++ [97]] := by
    have hsplit := components_append (List.append_ne_nil_of_right_ne_nil _ (List.cons_ne_nil _ _))
      hslash (.inl rfl)
    rw [List.append_nil] at hsplit
    exact hsplit
  obtain ⟨nd, st', hwalk⟩ := loopStart_walk (name ++ [97])
  have hspec := pathWalkNames_spec loopFs loopRoot loopStart (name ++ [97])
  rw [hwalk, namesOf_long hslash hlen] at hspec
  refine ⟨_, rfl, hcomponents, ⟨nd, st', hwalk⟩, hspec, fun h => ?_⟩
  have hshort := length_le_of_pathParsed h (name ++ [97]) (hcomponents ▸ List.mem_singleton_self _)
  rw [List.length_append, hlen, List.length_singleton] at hshort
  exact Nat.not_succ_le_self _ hshort

end NoobKernel.Fs
