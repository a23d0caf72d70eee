import NoobKernel.Fs.NameiParentRefs
import NoobKernel.Fs.Vfs

set_option autoImplicit false

/-! # What the operations of the VFS leave in use

A walk keeps the hash table in order (`Inv`), so that a freed dentry is in no bucket. What an
operation does to the dentries is a chain of steps that keep a set `R` of dentries in use and free
nothing of it (`Vfs.Keeps`).
-/

namespace NoobKernel.Fs

variable {W : Type} {fs : FileSystem W} {st st' : Vfs W} {d e base : Addr} {path : List UInt8}

/-! ## The hash table -/

theorem inv_get (hi : Inv st.dc) (d : Addr) : Inv (st.dentryGet d).dc :=
  hi.same (sameCache_dentryGet st.dc d)

theorem inv_put (hi : Inv st.dc) (d : Addr) : Inv (st.dentryPut d).dc :=
  hi.same (sameCache_dentryPut st.dc d)

theorem inv_setInode {dc : Dcache} (hi : Inv dc) (d inode : Addr) : Inv (dc.setInode d inode) := by
  refine hi.congr rfl rfl fun e => ?_
  rw [setInode_dentry]
  exact ⟨rfl, rfl, rfl⟩

variable (fs)

theorem inv_alloc (hi : Inv st.dc) (parent sb : Addr) (name : List UInt8) :
    Inv (st.dentryAlloc fs parent sb name).2.dc := by
  obtain ⟨memory, nameMemory, world, hnew, hrun⟩ := st.dentryAlloc_eq fs parent sb name
  rw [hrun]
  exact hi.alloc memory nameMemory parent sb name hnew

theorem inv_free (hi : Inv st.dc) (hd : st.dc.live d = true) (deleting : Bool) :
    Inv (st.dentryFree fs deleting d).dc := by
  unfold Vfs.dentryFree
  rw [if_neg (hi.live_ne_zero hd)]
  exact hi.free hd

theorem inv_insert (hi : Inv st.dc) (hd : st.dc.live d = true) :
    Inv (st.dentryInsert fs d).2.dc := by
  unfold Vfs.dentryInsert
  generalize fs.kmalloc st.world = mem
  obtain ⟨memory, world⟩ := mem
  exact hi.insert hd memory

theorem inv_lookupNew (hi : Inv st.dc) (base : Addr) (name : List UInt8) :
    Inv (vfsLookupNew fs st base name).2.dc := by
  have hi₁ := inv_alloc fs hi base (st.dc.dentry base).dSb name
  unfold vfsLookupNew
  generalize halloc : st.dentryAlloc fs base (st.dc.dentry base).dSb name = x at hi₁ ⊢
  obtain ⟨err | d, st₁⟩ := x
  · exact hi₁
  have hnew := dentryAlloc_ok halloc
  have hlaw := fs.lookup_live st₁.world st₁.dc.live (st₁.dc.dentry base).dInode d
    (st₁.dc.dentry d)
  simp only
  generalize fs.lookup st₁.world st₁.dc.live (st₁.dc.dentry base).dInode d (st₁.dc.dentry d)
    = found at hlaw ⊢
  obtain ⟨⟨err | r, inode⟩, world⟩ := found
  · have hfill : Inv (st₁.fill d inode world).dc := inv_setInode hi₁ d inode
    exact inv_free fs hfill hnew.live_self false
  have hlive : st₁.dc.live r = true := hlaw r hnew.live_self rfl
  have hfill : Inv (st₁.fill d inode world).dc := inv_setInode hi₁ d inode
  simp only
  -- the file system may answer with another dentry, and then the new one is freed
  by_cases hr : r = d
  · subst hr
    rw [if_neg (not_not.mpr rfl)]
    exact inv_insert fs hfill hlive
  · rw [if_pos hr]
    refine inv_insert fs (inv_free fs hfill hnew.live_self false) ?_
    unfold Vfs.dentryFree
    rw [if_neg hnew.null, dentryFree_eq hnew.null]
    exact (Function.update_of_ne hr _ _).trans hlive

theorem inv_lookupSingle (hi : Inv st.dc) (base : Addr) (name : List UInt8) (len : UInt32) :
    Inv (vfsLookupSingle fs st base name len).2.dc := by
  unfold vfsLookupSingle
  split
  · exact hi
  simp only
  split
  · exact hi
  split
  · exact hi
  split
  · exact hi
  · exact inv_lookupNew fs hi _ name

variable {fs}

theorem inv_followMount (hi : Inv st.dc) (d : Addr) : Inv (followMount st d).2.dc := by
  unfold followMount
  split
  · exact inv_get (inv_put hi d) _
  · exact hi

variable (fs)

theorem inv_walkComponent (hi : Inv st.dc) (dentry : Addr) (name : List UInt8) :
    Inv (vfsWalkComponent fs st dentry name).2.dc := by
  unfold vfsWalkComponent
  split
  · exact hi
  split
  · exact hi
  have hi₁ := inv_lookupSingle fs hi dentry name (UInt32.ofNat name.length)
  generalize vfsLookupSingle fs st dentry name (UInt32.ofNat name.length) = x at hi₁ ⊢
  obtain ⟨err | next, st₁⟩ := x
  · exact hi₁
  · exact inv_put (inv_followMount hi₁ next) dentry

theorem inv_walkLoop (fuel : Nat) (hi : Inv st.dc) (nd : Nameidata) (dentry : Addr)
    (path : List UInt8) : Inv (vfsPathWalkLoop fs fuel st nd dentry path).2.dc := by
  induction fuel generalizing st nd dentry path with
  | zero => exact hi
  | succ fuel ih =>
      have hi₁ := inv_walkComponent fs hi dentry (vfsGetName path)
      unfold vfsPathWalkLoop
      simp only
      generalize vfsWalkComponent fs st dentry (vfsGetName path) = x at hi₁ ⊢
      obtain ⟨err | ⟨next, lastType⟩, st₁⟩ := x
      · exact hi₁
      simp only
      split
      · exact hi₁
      split
      · exact inv_put hi₁ next
      · exact ih hi₁ _ _ _

theorem inv_pathLookup (hi : Inv st.dc) (base : Addr) (path : List UInt8) (flags : UInt32) :
    Inv (vfsPathLookup fs st base path flags).2.dc := by
  have hi₁ := inv_get hi (startOf st base)
  unfold vfsPathLookup vfsPathWalk
  simp only
  by_cases hstart : startOf st base = 0
  · rw [if_pos hstart]
    exact hi
  rw [if_neg hstart, if_neg hstart]
  by_cases hpath : vfsSkipSlashes path = []
  · rw [if_pos hpath]
    exact hi₁
  rw [if_neg hpath]
  have hloop := inv_walkLoop fs (vfsSkipSlashes path).length hi₁
    ⟨startOf st base, ((st.dentryGet (startOf st base)).dc.dentry (startOf st base)).dInode, flags,
      .norm, none, 0⟩ (startOf st base) (vfsSkipSlashes path)
  generalize vfsPathWalkLoop fs (vfsSkipSlashes path).length (st.dentryGet (startOf st base))
    ⟨startOf st base, ((st.dentryGet (startOf st base)).dc.dentry (startOf st base)).dInode, flags,
      .norm, none, 0⟩ (startOf st base) (vfsSkipSlashes path) = x at hloop ⊢
  obtain ⟨err | nd, st₁⟩ := x
  · exact inv_put hloop _
  · exact hloop

theorem inv_parentLoop (fuel : Nat) (hi : Inv st.dc) (base cur : Addr)
    (lastStart : Option (List UInt8)) (path : List UInt8) :
    Inv (vfsPathParentLoop fs base fuel st cur lastStart path).2.dc := by
  induction fuel generalizing st cur lastStart path with
  | zero => exact hi
  | succ fuel ih =>
      unfold vfsPathParentLoop
      by_cases hpath : path = []
      · rw [if_pos hpath]
        exact hi
      rw [if_neg hpath]
      simp only
      by_cases hrest : vfsSkipSlashes (path.drop (vfsGetName path).length) = []
      · rw [if_pos hrest]
        exact ih hi _ _ _
      rw [if_neg hrest]
      have hi₁ := inv_lookupSingle fs hi cur (vfsGetName path)
        (UInt32.ofNat (vfsGetName path).length)
      generalize vfsLookupSingle fs st cur (vfsGetName path)
        (UInt32.ofNat (vfsGetName path).length) = x at hi₁ ⊢
      obtain ⟨err | next, st₁⟩ := x
      · exact inv_put hi₁ base
      · refine ih ?_ _ _ _
        have hi₂ := inv_followMount hi₁ next
        split
        · exact inv_put hi₂ cur
        · exact hi₂

theorem inv_pathParent (hi : Inv st.dc) (base : Addr) (path : List UInt8) :
    Inv (vfsPathParent fs st base path).2.dc := by
  have hloop := inv_parentLoop fs (vfsSkipSlashes path).length (inv_get hi (startOf st base))
    (startOf st base) (startOf st base) none (vfsSkipSlashes path)
  unfold vfsPathParent
  simp only
  by_cases hstart : startOf st base = 0
  · rw [if_pos hstart]
    exact hi
  rw [if_neg hstart]
  generalize vfsPathParentLoop fs (startOf st base) (vfsSkipSlashes path).length
    (st.dentryGet (startOf st base)) (startOf st base) none (vfsSkipSlashes path) = x at hloop ⊢
  obtain ⟨err | ⟨current, lastStart⟩, st₁⟩ := x
  · exact hloop
  generalize fs.kmalloc st₁.world = mem
  obtain ⟨memory, world⟩ := mem
  simp only
  split
  · exact hloop.same (sameCache_dentryPut st₁.dc _)
  · exact hloop

/-! ## The parent of a path -/

theorem vfsPathParent_spec (hs : st.Sound) (hbase : base = 0 ∨ st.dc.live base = true)
    (path : List UInt8) :
    match vfsPathParent fs st base path with
    | (.ok (parent, _), st') => st.Extends st' ∧ st'.dc.live parent.dentry = true
    | (.error _, st') => st.Extends st' := by
  by_cases hstart : startOf st base = 0
  · unfold vfsPathParent
    simp only
    rw [if_pos hstart]
    exact .refl hs
  have hget := Vfs.Extends.get hs (startOf st base)
  have hsteps := vfsPathParent_steps fs hs hbase hstart path
  generalize vfsPathParent fs st base path = x at hsteps ⊢
  obtain ⟨err | ⟨parent, last⟩, st'⟩ := x
  · obtain ⟨d, st₁, hto, hext, -⟩ := hsteps
    exact (hget.trans hto.ext).trans hext
  · obtain ⟨st₁, hto, hext, -⟩ := hsteps
    exact ⟨(hget.trans hto.ext).trans hext, hext.grows.live _ hto.live⟩

/-! ## Dentries that stay -/

variable {fs} {R : Addr → Prop}

/-- No other dentry in use has it as its parent. -/
def Childless (dc : Dcache) (d : Addr) : Prop :=
  ∀ e, dc.live e = true → e ≠ d → (dc.dentry e).dParent ≠ d

/-- A state without dangling pointers that has the dentries of `R` in use, those of the mounts
among them. -/
structure Vfs.Holding (R : Addr → Prop) (st : Vfs W) : Prop where
  sound : st.Sound
  inv : Inv st.dc
  live : ∀ e, R e → st.dc.live e = true
  mount : ∀ mnt ∈ st.mounts, R mnt.mntRoot ∧ (mnt.mntMountpoint = 0 ∨ R mnt.mntMountpoint)
  root : ∀ mnt, st.rootMount = some mnt → R mnt.mntRoot

/-- What is freed on the way is not in `R`. -/
structure Vfs.Keeps (R : Addr → Prop) (st st' : Vfs W) : Prop where
  holding : st'.Holding R
  frees : ∃ calls, st'.frees = st.frees ++ calls ∧ ∀ c ∈ calls, ¬R c.d

theorem Vfs.Keeps.trans {st'' : Vfs W} (h : st.Keeps R st') (h' : st'.Keeps R st'') :
    st.Keeps R st'' := by
  obtain ⟨-, calls, hfrees, hcalls⟩ := h
  obtain ⟨hh, calls', hfrees', hcalls'⟩ := h'
  refine ⟨hh, calls ++ calls', ?_, fun c hc => ?_⟩
  · rw [hfrees', hfrees, List.append_assoc]
  · rcases List.mem_append.mp hc with hc | hc
    · exact hcalls c hc
    · exact hcalls' c hc

namespace Vfs.Holding

theorem of_extends (h : st.Holding R) (hext : st.Extends st') (hi : Inv st'.dc) :
    st.Keeps R st' where
  holding := by
    refine ⟨hext.sound, hi, fun e he => hext.grows.live e (h.live e he), ?_, ?_⟩
    · rw [hext.grows.mounts]
      exact h.mount
    · rw [hext.grows.rootMount]
      exact h.root
  frees := by
    obtain ⟨calls, hfrees, hcalls⟩ := hext.frees
    refine ⟨calls, hfrees, fun c hc hR => ?_⟩
    have hdead := (hcalls c hc).2.1
    rw [h.live c.d hR] at hdead
    cases hdead

theorem refl (h : st.Holding R) : st.Keeps R st := h.of_extends (.refl h.sound) h.inv

theorem get (h : st.Holding R) (d : Addr) : st.Keeps R (st.dentryGet d) :=
  h.of_extends (.get h.sound d) (inv_get h.inv d)

theorem put (h : st.Holding R) (d : Addr) : st.Keeps R (st.dentryPut d) :=
  h.of_extends (.put h.sound d) (inv_put h.inv d)

theorem fill (h : st.Holding R) (d inode : Addr) (world : W) :
    st.Keeps R (st.fill d inode world) :=
  ⟨⟨h.sound.fill d inode world, inv_setInode h.inv d inode, h.live, h.mount, h.root⟩, [],
    (List.append_nil _).symm, fun _ hc => absurd hc List.not_mem_nil⟩

theorem world (h : st.Holding R) (world : W) : st.Keeps R { st with world := world } :=
  ⟨⟨h.sound.congr rfl (fun _ _ => rfl) (fun _ _ hn => hn) rfl rfl, h.inv, h.live, h.mount, h.root⟩,
    [], (List.append_nil _).symm, fun _ hc => absurd hc List.not_mem_nil⟩

variable (fs) in
theorem insert (h : st.Holding R) (hd : st.dc.live d = true) :
    st.Keeps R (st.dentryInsert fs d).2 :=
  h.of_extends (h.sound.insert fs hd).1 (inv_insert fs h.inv hd)

theorem alloc (h : st.Holding R) {parent sb : Addr} {name : List UInt8}
    (hparent : st.dc.live parent = true)
    (halloc : st.dentryAlloc fs parent sb name = (.ok d, st')) : st.Keeps R st' := by
  have hnew := dentryAlloc_ok halloc
  have hi := inv_alloc fs h.inv parent sb name
  rw [halloc] at hi
  exact h.of_extends (.of_frees (hnew.sound h.sound hparent) hnew.grows hnew.frees) hi

theorem alloc_error (h : st.Holding R) {parent sb : Addr} {name : List UInt8} {err : Int}
    (halloc : st.dentryAlloc fs parent sb name = (.error err, st')) : st.Keeps R st' := by
  rw [dentryAlloc_error halloc]
  exact h.world _

variable (fs) in
/-- A dentry that is in no one's way may go. -/
theorem free (h : st.Holding R) (hd : st.dc.live d = true) (hR : ¬R d)
    (hchild : Childless st.dc d) (deleting : Bool) :
    st.Keeps R (st.dentryFree fs deleting d) := by
  have hi := inv_free fs h.inv hd deleting
  have hne := h.inv.live_ne_zero hd
  unfold Vfs.dentryFree at hi ⊢
  rw [if_neg hne] at hi ⊢
  rw [dentryFree_eq hne] at hi ⊢
  -- whatever is held on to is another dentry, and stays
  have hstays : ∀ e, e ≠ d → st.dc.live e = true → Function.update st.dc.live d false e = true :=
    fun e he hlive => (Function.update_of_ne he _ _).trans hlive
  have hother : ∀ e, R e → e ≠ d := by
    rintro e he rfl
    exact hR he
  refine ⟨⟨⟨hi.null, fun e he => ?_, fun i n hn => .inr (hi.node i n hn).1, fun mnt hmnt => ?_,
    fun mnt hmnt => ?_, fun mnt hmnt => ?_⟩, hi, fun e he => ?_, h.mount, h.root⟩, [_], rfl,
    fun c hc => ?_⟩
  · have hne' : e ≠ d := by
      rintro rfl
      exact Bool.false_ne_true ((Function.update_self e false st.dc.live).symm.trans he)
    have he' : st.dc.live e = true := (Function.update_of_ne hne' _ _).symm.trans he
    exact (h.sound.parent e he').imp_right (hstays _ (hchild e he' hne'))
  · exact hstays _ (hother _ (h.mount mnt hmnt).1) (h.sound.mount mnt hmnt)
  · refine (h.mount mnt hmnt).2.imp_right fun hpoint => ?_
    exact hstays _ (hother _ hpoint) (h.live _ hpoint)
  · exact hstays _ (hother _ (h.root mnt hmnt)) (h.sound.root mnt hmnt)
  · exact hstays e (hother e he) (h.live e he)
  · obtain rfl := List.mem_singleton.mp hc
    exact hR

end Vfs.Holding

/-- The new dentry has no children, and nothing of `R` is new. -/
theorem Allocated.childless {parent : Addr} (h : Allocated st d parent st') (hs : st.Sound) :
    Childless st'.dc d := by
  intro e he hne hparent
  have he' := ((h.of_live he).resolve_left hne).2
  rw [h.other e hne] at hparent
  rcases hs.parent e he' with hzero | hlive
  · exact h.null (hparent.symm.trans hzero)
  · rw [hparent, h.new] at hlive
    cases hlive

/-- The new dentry is another's child. -/
theorem Allocated.childless_of {parent : Addr} (h : Allocated st d parent st')
    (hchild : Childless st.dc e) (hne : parent ≠ e) :
    Childless st'.dc e := by
  intro a ha hae
  rcases h.of_live ha with rfl | ⟨had, ha⟩
  · rw [h.parent]
    split
    · exact hne
    · exact hae
  · rw [h.other a had]
    exact hchild a ha hae

theorem Allocated.notMem {parent : Addr} (h : Allocated st d parent st') (hh : st.Holding R) :
    ¬R d := by
  intro hR
  have hlive := hh.live d hR
  rw [h.new] at hlive
  cases hlive

theorem Childless.insert (h : Childless st.dc d) (e : Addr) :
    Childless (st.dentryInsert fs e).2.dc d := by
  obtain ⟨hlive, hdentry⟩ := dentryInsert_same fs st e
  unfold Childless
  rw [hlive, hdentry]
  exact h

theorem Childless.setInode {dc : Dcache} (h : Childless dc d) (e inode : Addr) :
    Childless (dc.setInode e inode) d := by
  intro a ha hne
  rw [setInode_dentry]
  exact h a ha hne

end NoobKernel.Fs
