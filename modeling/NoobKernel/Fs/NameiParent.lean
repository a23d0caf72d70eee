import Mathlib.Data.List.Find
import Mathlib.Data.List.TakeWhile
import NoobKernel.Fs.NameiWalk

set_option autoImplicit false

/-! # The two path walkers

`vfs_path_parent` takes a path apart like `vfs_path_walk`, but it hands `.` and `..` to the file
system, and what it takes for the last component is at most `NAME_MAX` characters long. On the
other paths it ends where a lookup of the path without its last component ends. The two count
references differently, so their states are the same but for the references (`SameTree`).
-/

namespace NoobKernel.Fs

variable {W : Type} {fs : FileSystem W} {s t u : Vfs W} {d base : Addr} {name path : List UInt8}

/-! ## States that differ in references -/

namespace Dentry.Same

variable {a b : Dentry} (h : a.Same b)

include h

theorem symm : b.Same a := by
  rw [Dentry.Same] at h ⊢
  rw [h]

theorem dName : b.dName = a.dName := by rw [h]

theorem dInode : b.dInode = a.dInode := by rw [h]

theorem dSb : b.dSb = a.dSb := by rw [h]

theorem dParent : b.dParent = a.dParent := by rw [h]

end Dentry.Same

structure SameTree (s t : Vfs W) : Prop where
  dentry : ∀ d, (s.dc.dentry d).Same (t.dc.dentry d)
  live : t.dc.live = s.dc.live
  ht : t.dc.ht = s.dc.ht
  mounts : t.mounts = s.mounts
  rootMount : t.rootMount = s.rootMount
  world : t.world = s.world

namespace SameTree

theorem refl (s : Vfs W) : SameTree s s := ⟨fun _ => .refl _, rfl, rfl, rfl, rfl, rfl⟩

theorem symm (h : SameTree s t) : SameTree t s :=
  ⟨fun d => (h.dentry d).symm, h.live.symm, h.ht.symm, h.mounts.symm, h.rootMount.symm,
    h.world.symm⟩

theorem trans (h : SameTree s t) (h' : SameTree t u) : SameTree s u :=
  ⟨fun d => (h.dentry d).trans (h'.dentry d), h'.live.trans h.live, h'.ht.trans h.ht,
    h'.mounts.trans h.mounts, h'.rootMount.trans h.rootMount, h'.world.trans h.world⟩

theorem of_same {dc : Dcache} (h : SameCache s.dc dc) : SameTree s { s with dc := dc } := by
  obtain ⟨hht, hlive, -, -, hid⟩ := h
  exact ⟨hid, hlive, hht, rfl, rfl, rfl⟩

theorem get (s : Vfs W) (d : Addr) : SameTree s (s.dentryGet d) :=
  .of_same (sameCache_dentryGet s.dc d)

theorem put (s : Vfs W) (d : Addr) : SameTree s (s.dentryPut d) :=
  .of_same (sameCache_dentryPut s.dc d)

/-! ## What the operations read -/

theorem lookupMount (h : SameTree s t) (d : Addr) : vfsLookupMount t d = vfsLookupMount s d := by
  unfold vfsLookupMount
  rw [h.mounts]
  simp only [(h.dentry _).dParent, (h.dentry _).dName]

theorem lookupBase (h : SameTree s t) (d : Addr) : lookupBase t d = lookupBase s d := by
  unfold Fs.lookupBase
  rw [h.lookupMount]

theorem isDirectory (h : SameTree s t) (d : Addr) : isDirectory fs t d = isDirectory fs s d := by
  unfold Fs.isDirectory
  rw [(h.dentry d).dInode, h.world]

theorem hashKey (h : SameTree s t) (sb parent : Addr) (name : Qstr) :
    dentryHashKey t.dc sb parent name = dentryHashKey s.dc sb parent name := by
  unfold dentryHashKey
  rw [h.ht]

theorem key (h : SameTree s t) (d : Addr) : t.dc.key d = s.dc.key d := by
  unfold Dcache.key
  rw [h.hashKey, (h.dentry d).dSb, (h.dentry d).dParent, (h.dentry d).dName]

theorem lookup (h : SameTree s t) (sb parent : Addr) (name : Qstr) :
    dentryLookup t.dc sb parent name = dentryLookup s.dc sb parent name := by
  unfold dentryLookup
  rw [h.hashKey, h.ht]
  simp only [(h.dentry _).dSb, (h.dentry _).dParent, (h.dentry _).dName]

theorem startOf (h : SameTree s t) (d : Addr) : startOf t d = startOf s d := by
  unfold Fs.startOf vfsGetRoot
  rw [h.rootMount]

/-! ## What the operations do -/

/-- The same result, and states that are the same but for references. -/
def Lockstep {A : Type} (x y : A × Vfs W) : Prop := y.1 = x.1 ∧ SameTree x.2 y.2

theorem followMount (h : SameTree s t) (d : Addr) :
    Lockstep (followMount s d) (followMount t d) := by
  unfold Fs.followMount
  rw [h.lookupMount]
  split
  · rename_i mnt _
    refine ⟨rfl, ?_⟩
    have hs := (SameTree.put s d).trans (.get _ mnt.mntRoot)
    have ht := (SameTree.put t d).trans (.get _ mnt.mntRoot)
    exact hs.symm.trans (h.trans ht)
  · exact ⟨rfl, h⟩

theorem of_followMount (s : Vfs W) (d : Addr) : SameTree s (Fs.followMount s d).2 := by
  unfold Fs.followMount
  split
  · rename_i mnt _
    exact (SameTree.put s d).trans (.get _ mnt.mntRoot)
  · exact .refl s

variable (fs) in
/-- A new dentry is the same in both, with its one reference. -/
theorem alloc (h : SameTree s t) (parent sb : Addr) (name : List UInt8) :
    Lockstep (s.dentryAlloc fs parent sb name) (t.dentryAlloc fs parent sb name)
      ∧ ∀ d, (s.dentryAlloc fs parent sb name).1 = .ok d →
        (t.dentryAlloc fs parent sb name).2.dc.dentry d
          = (s.dentryAlloc fs parent sb name).2.dc.dentry d := by
  unfold Vfs.dentryAlloc
  rw [h.world, h.live]
  generalize fs.kmemCacheAlloc s.world s.dc.live = mem
  obtain ⟨memory, world⟩ := mem
  simp only
  generalize (if memory = 0 then (false, world) else fs.kmalloc world) = names
  obtain ⟨nameMemory, world⟩ := names
  unfold Fs.dentryAlloc
  by_cases hnone : memory = 0 ∨ nameMemory = false
  · simp only [if_pos hnone]
    exact ⟨⟨rfl, h.dentry, h.live, h.ht, h.mounts, h.rootMount, rfl⟩, nofun⟩
  · simp only [if_neg hnone]
    refine ⟨⟨rfl, fun d => ?_, congrArg (Function.update · memory true) h.live, h.ht, h.mounts,
      h.rootMount, rfl⟩, ?_⟩
    · by_cases hd : d = memory
      · subst hd
        simp only [Function.update_self]
        exact .refl _
      · simp only [Function.update_of_ne hd]
        exact h.dentry d
    · rintro d ⟨⟩
      simp only [Function.update_self]

theorem fill (h : SameTree s t) (d inode : Addr) (world : W) :
    SameTree (s.fill d inode world) (t.fill d inode world) := by
  refine ⟨fun e => ?_, h.live, h.ht, h.mounts, h.rootMount, rfl⟩
  by_cases he : e = d
  · subst he
    simp only [Vfs.fill, Dcache.setInode, Function.update_self]
    rw [Dentry.Same, (h.dentry e).dName, (h.dentry e).dSb, (h.dentry e).dParent]
  · simp only [Vfs.fill, Dcache.setInode, Function.update_of_ne he]
    exact h.dentry e

/-- The file system is told about the dentry that is freed. -/
theorem free (h : SameTree s t) (d : Addr) (heq : t.dc.dentry d = s.dc.dentry d)
    (deleting : Bool) : SameTree (s.dentryFree fs deleting d) (t.dentryFree fs deleting d) := by
  unfold Vfs.dentryFree
  by_cases hd : d = 0
  · rw [if_pos hd, if_pos hd]
    exact h
  · rw [if_neg hd, if_neg hd, dentryFree_eq hd, dentryFree_eq hd, h.key, h.ht, h.world, heq, h.live]
    exact ⟨h.dentry, rfl, rfl, h.mounts, h.rootMount, rfl⟩

theorem insert (h : SameTree s t) (d : Addr) :
    Lockstep (s.dentryInsert fs d) (t.dentryInsert fs d) := by
  unfold Vfs.dentryInsert
  rw [h.world]
  generalize fs.kmalloc s.world = mem
  obtain ⟨memory, world⟩ := mem
  simp only
  unfold Fs.dentryInsert
  rw [(h.dentry d).dSb, (h.dentry d).dParent, h.key, h.ht]
  by_cases hd : d = 0
  · simp only [if_pos hd]
    exact ⟨rfl, h.dentry, h.live, h.ht, h.mounts, h.rootMount, rfl⟩
  simp only [if_neg hd]
  by_cases hsb : (s.dc.dentry d).dSb = 0
  · simp only [if_pos hsb]
    exact ⟨rfl, h.dentry, h.live, h.ht, h.mounts, h.rootMount, rfl⟩
  simp only [if_neg hsb]
  by_cases hparent : (s.dc.dentry d).dParent = 0
  · simp only [if_pos hparent]
    exact ⟨rfl, h.dentry, h.live, h.ht, h.mounts, h.rootMount, rfl⟩
  simp only [if_neg hparent]
  by_cases hkey : hashtableLookup s.dc.ht (s.dc.key d) ≠ 0
  · simp only [if_pos hkey]
    exact ⟨rfl, h.dentry, h.live, h.ht, h.mounts, h.rootMount, rfl⟩
  · simp only [if_neg hkey]
    exact ⟨rfl, h.dentry, h.live, rfl, h.mounts, h.rootMount, rfl⟩

theorem lookupNew (h : SameTree s t) (base : Addr) (name : List UInt8) :
    Lockstep (vfsLookupNew fs s base name) (vfsLookupNew fs t base name) := by
  unfold vfsLookupNew
  rw [(h.dentry base).dSb]
  have halloc := h.alloc fs base (s.dc.dentry base).dSb name
  generalize s.dentryAlloc fs base (s.dc.dentry base).dSb name = x at halloc ⊢
  generalize t.dentryAlloc fs base (s.dc.dentry base).dSb name = y at halloc ⊢
  obtain ⟨err | d, s₁⟩ := x
  · obtain ⟨y, t₁⟩ := y
    obtain ⟨⟨rfl, hsame⟩, -⟩ := halloc
    exact ⟨rfl, hsame⟩
  obtain ⟨y, t₁⟩ := y
  obtain ⟨⟨rfl, hsame⟩, hnew⟩ := halloc
  have hd : t₁.dc.dentry d = s₁.dc.dentry d := hnew d rfl
  simp only
  rw [hd, (hsame.dentry base).dInode, hsame.world, hsame.live]
  generalize fs.lookup s₁.world s₁.dc.live (s₁.dc.dentry base).dInode d (s₁.dc.dentry d) = found
  obtain ⟨⟨err | r, inode⟩, world⟩ := found
  · refine ⟨rfl, (hsame.fill d inode world).free d ?_ false⟩
    simp only [Vfs.fill, Dcache.setInode, Function.update_self, hd]
  simp only
  by_cases hr : r = d
  · subst hr
    simp only [ne_eq, not_true_eq_false, if_false]
    exact ⟨rfl, ((hsame.fill r inode world).insert r).2⟩
  · rw [if_pos hr, if_pos hr]
    refine ⟨rfl, (((hsame.fill d inode world).free d ?_ false).insert r).2⟩
    simp only [Vfs.fill, Dcache.setInode, Function.update_self, hd]

variable (fs) in
theorem lookupSingle (h : SameTree s t) (base : Addr) (name : List UInt8) (len : UInt32) :
    Lockstep (vfsLookupSingle fs s base name len) (vfsLookupSingle fs t base name len) := by
  unfold vfsLookupSingle
  by_cases hinval : base = 0 ∨ len = 0
  · rw [if_pos hinval, if_pos hinval]
    exact ⟨rfl, h⟩
  rw [if_neg hinval, if_neg hinval]
  simp only
  rw [h.lookupBase, h.isDirectory, (h.dentry (Fs.lookupBase s base)).dInode, h.world]
  by_cases hdir : Fs.isDirectory fs s (Fs.lookupBase s base) = false
  · rw [if_pos hdir, if_pos hdir]
    exact ⟨rfl, h⟩
  rw [if_neg hdir, if_neg hdir]
  by_cases hop : fs.hasLookup s.world (s.dc.dentry (Fs.lookupBase s base)).dInode = false
  · rw [if_pos hop, if_pos hop]
    exact ⟨rfl, h⟩
  rw [if_neg hop, if_neg hop, (h.dentry (Fs.lookupBase s base)).dSb, h.lookup]
  by_cases hfound : dentryLookup s.dc (s.dc.dentry (Fs.lookupBase s base)).dSb
      (Fs.lookupBase s base) ⟨name, len, hashString name len⟩ ≠ 0
  · rw [if_pos hfound, if_pos hfound]
    exact ⟨rfl, h⟩
  · rw [if_neg hfound, if_neg hfound]
    exact h.lookupNew _ name

end SameTree

/-! ## Names -/

/-- The names that the loops take from a path, one after the other. -/
def pathNames : Nat → List UInt8 → List (List UInt8)
  | 0, _ => []
  | fuel + 1, path =>
      if path = [] then []
      else
        vfsGetName path :: pathNames fuel (vfsSkipSlashes (path.drop (vfsGetName path).length))

def namesOf (path : List UInt8) : List (List UInt8) :=
  pathNames (vfsSkipSlashes path).length (vfsSkipSlashes path)

/-- The characters after the last slash but those at the end. -/
def lastComponent (path : List UInt8) : List UInt8 :=
  ((path.reverse.dropWhile (· = 47)).takeWhile (· ≠ 47)).reverse

/-- The path without its last component and the slashes after it. -/
def parentPath (path : List UInt8) : List UInt8 :=
  ((path.reverse.dropWhile (· = 47)).dropWhile (· ≠ 47)).reverse

/-- What follows the directory in a path: the last component, and slashes. -/
structure LastPart (last rest : List UInt8) : Prop where
  ne_nil : last ≠ []
  slash : 47 ∉ last
  rest : ∃ slashes, (∀ c ∈ slashes, c = 47) ∧ rest = last ++ slashes

theorem path_eq (path : List UInt8) (hlast : lastComponent path ≠ []) :
    ∃ rest, LastPart (lastComponent path) rest ∧ path = parentPath path ++ rest := by
  refine ⟨lastComponent path ++ (path.reverse.takeWhile (· = 47)).reverse, ⟨hlast, ?_, _, ?_, rfl⟩, ?_⟩
  · intro hmem
    have hpos := List.all_eq_true.mp List.all_takeWhile _ (List.mem_reverse.mp hmem)
    simp at hpos
  · intro c hc
    have hpos := List.all_eq_true.mp List.all_takeWhile _ (List.mem_reverse.mp hc)
    simpa using hpos
  · have hsplit : path.reverse = path.reverse.takeWhile (· = 47)
        ++ ((path.reverse.dropWhile (· = 47)).takeWhile (· ≠ 47)
          ++ (path.reverse.dropWhile (· = 47)).dropWhile (· ≠ 47)) := by
      rw [List.takeWhile_append_dropWhile, List.takeWhile_append_dropWhile]
    have hrev := congrArg List.reverse hsplit
    rw [List.reverse_reverse, List.reverse_append, List.reverse_append] at hrev
    rw [lastComponent, parentPath, ← List.append_assoc]
    exact hrev

/-- The directory part is empty or ends in a slash. -/
theorem parentPath_end (path : List UInt8) :
    parentPath path = [] ∨ (parentPath path).getLast? = some 47 := by
  rw [parentPath, List.getLast?_reverse]
  generalize path.reverse.dropWhile (· = 47) = cs
  induction cs with
  | nil => exact .inl rfl
  | cons c cs ih =>
      by_cases hc : c = 47
      · subst hc
        exact .inr rfl
      · rw [List.dropWhile_cons_of_pos (by simpa using hc)]
        exact ih

/-- A path that the loops are at: it does not start with a slash, and it ends with one. -/
structure DirPart (p : List UInt8) : Prop where
  start : p.head? ≠ some 47
  last : p.getLast? = some 47

variable {p last rest : List UInt8}

theorem DirPart.ne_nil (h : DirPart p) : p ≠ [] := by
  rintro rfl
  cases h.last

theorem DirPart.takeWhile_ne (h : DirPart p) : (p.takeWhile (· ≠ 47)).length ≠ p.length := by
  intro heq
  have hall := (List.takeWhile_prefix (p := (· ≠ (47 : UInt8)))).eq_of_length heq
  have hmem := List.mem_of_getLast? h.last
  rw [← hall] at hmem
  have hne := List.all_eq_true.mp List.all_takeWhile _ hmem
  simp at hne

/-- What follows the directory does not change its names. -/
theorem DirPart.getName_append (h : DirPart p) (rest : List UInt8) :
    vfsGetName (p ++ rest) = vfsGetName p := by
  rw [vfsGetName, List.takeWhile_append, if_neg h.takeWhile_ne, vfsGetName]

theorem DirPart.length_getName_lt (h : DirPart p) : (vfsGetName p).length < p.length := by
  have hle : (vfsGetName p).length ≤ (p.takeWhile (· ≠ 47)).length :=
    (List.take_sublist _ _).length_le
  have hle' : (p.takeWhile (· ≠ 47)).length ≤ p.length := (List.takeWhile_sublist _).length_le
  have hne := h.takeWhile_ne
  omega

/-- A name ends at the next slash. -/
theorem getName_append {name : List UInt8} (hslash : 47 ∉ name) (hrest : ∀ c ∈ rest.head?, c = 47) :
    vfsGetName (name ++ rest) = name.take NAME_MAX := by
  have hall : name.takeWhile (· ≠ 47) = name := by
    rw [List.takeWhile_eq_self_iff]
    intro c hc
    have hne : c ≠ 47 := fun heq => hslash (heq ▸ hc)
    simpa using hne
  have hnone : rest.takeWhile (· ≠ 47) = [] := by
    cases rest with
    | nil => rfl
    | cons c rest =>
        have hc : c = 47 := hrest c rfl
        exact List.takeWhile_cons_of_neg (by simpa using hc)
  rw [vfsGetName, List.takeWhile_append, hall, if_pos rfl, hnone, List.append_nil]

theorem skipSlashes_of_head (hstart : path.head? ≠ some 47) : vfsSkipSlashes path = path := by
  cases path with
  | nil => rfl
  | cons c path =>
      have hc : ¬c = 47 := fun heq => hstart (heq ▸ rfl)
      rw [vfsSkipSlashes, List.dropWhile_cons_of_neg (by simpa using hc)]

theorem getName_ne_nil (hne : path ≠ []) (hstart : path.head? ≠ some 47) : vfsGetName path ≠ [] := by
  cases path with
  | nil => exact absurd rfl hne
  | cons c path =>
      have hc : c ≠ 47 := fun heq => hstart (heq ▸ rfl)
      rw [vfsGetName, List.takeWhile_cons_of_pos (by simpa using hc), NAME_MAX]
      exact List.cons_ne_nil _ _

theorem DirPart.getName_ne_nil (h : DirPart p) : vfsGetName p ≠ [] :=
  Fs.getName_ne_nil h.ne_nil h.start

/-- A name is short enough for its length to be one of 32 bits. -/
theorem length_getName_ne_zero (hne : path ≠ []) (hstart : path.head? ≠ some 47) :
    UInt32.ofNat (vfsGetName path).length ≠ 0 := by
  have hpos := List.length_pos_of_ne_nil (getName_ne_nil hne hstart)
  have hmax : (vfsGetName path).length ≤ 255 := List.length_take_le _ _
  intro hzero
  have htoNat := congrArg UInt32.toNat hzero
  rw [UInt32.toNat_ofNat_of_lt' (by simp only [UInt32.size]; omega)] at htoNat
  exact hpos.ne' htoNat

theorem head?_skipSlashes_ne (path : List UInt8) : (vfsSkipSlashes path).head? ≠ some 47 := by
  intro h
  have hnot := List.head?_dropWhile_not (· = 47) path
  rw [vfsSkipSlashes] at h
  rw [h] at hnot
  simp at hnot

/-- The rest of the directory after a name is empty or again a directory. -/
theorem DirPart.next (h : DirPart p) : vfsSkipSlashes (p.drop (vfsGetName p).length) = []
    ∨ DirPart (vfsSkipSlashes (p.drop (vfsGetName p).length)) := by
  by_cases hnil : vfsSkipSlashes (p.drop (vfsGetName p).length) = []
  · exact .inl hnil
  · refine .inr ⟨head?_skipSlashes_ne _, ?_⟩
    have hsuffix : vfsSkipSlashes (p.drop (vfsGetName p).length) <:+ p :=
      (List.dropWhile_suffix _).trans (List.drop_suffix _ _)
    obtain ⟨before, heq⟩ := hsuffix
    have hlast := h.last
    rw [← heq, List.getLast?_append_of_ne_nil _ hnil] at hlast
    exact hlast

theorem LastPart.skipSlashes (h : LastPart last rest) : vfsSkipSlashes rest = rest := by
  obtain ⟨slashes, -, rfl⟩ := h.rest
  refine skipSlashes_of_head ?_
  cases last with
  | nil => exact absurd rfl h.ne_nil
  | cons c last => exact fun heq => h.slash (Option.some.inj heq ▸ List.mem_cons_self)

theorem LastPart.rest_ne_nil (h : LastPart last rest) : rest ≠ [] := by
  obtain ⟨slashes, -, rfl⟩ := h.rest
  exact List.append_ne_nil_of_left_ne_nil h.ne_nil _

/-- After a name of the directory the loop over the whole path is where that over the directory
is. -/
theorem DirPart.skip_append (h : DirPart p) (hlast : LastPart last rest) :
    vfsSkipSlashes ((p ++ rest).drop (vfsGetName (p ++ rest)).length)
      = vfsSkipSlashes (p.drop (vfsGetName p).length) ++ rest := by
  rw [h.getName_append, List.drop_append_of_le_length h.length_getName_lt.le, vfsSkipSlashes,
    List.dropWhile_append, vfsSkipSlashes]
  split
  · rename_i hempty
    rw [List.isEmpty_iff.mp hempty]
    exact hlast.skipSlashes
  · rfl

/-- The last component is a name when it is not too long. -/
theorem LastPart.getName (h : LastPart last rest) (hmax : last.length ≤ NAME_MAX) :
    vfsGetName rest = last := by
  obtain ⟨slashes, hslashes, rfl⟩ := h.rest
  rw [getName_append h.slash fun c hc => hslashes c (List.mem_of_mem_head? hc)]
  exact List.take_of_length_le hmax

theorem LastPart.skip (h : LastPart last rest) (hmax : last.length ≤ NAME_MAX) :
    vfsSkipSlashes (rest.drop (vfsGetName rest).length) = [] := by
  rw [h.getName hmax]
  obtain ⟨slashes, hslashes, rfl⟩ := h.rest
  rw [List.drop_left, vfsSkipSlashes, List.dropWhile_eq_nil_iff]
  intro c hc
  simpa using hslashes c hc

/-! ## Mounts -/

/-- A mount root is not itself mounted over, unless by itself or as a directory. -/
def MountsOk (fs : FileSystem W) (st : Vfs W) : Prop :=
  ∀ mnt ∈ st.mounts, lookupBase st mnt.mntRoot = mnt.mntRoot
    ∨ (st.dc.dentry mnt.mntRoot).dInode ≠ 0
      ∧ ∀ world, sIsDir (fs.iMode world (st.dc.dentry mnt.mntRoot).dInode) = true

theorem Vfs.Grows.lookupMount (h : s.Grows t) (hs : s.Sound) (hd : s.dc.live d = true) :
    vfsLookupMount t d = vfsLookupMount s d := by
  have hsame := h.dentry d hd
  unfold vfsLookupMount
  rw [h.mounts, hsame.dParent, hsame.dName]
  split
  · rfl
  refine List.find?_congr fun mnt hmnt => ?_
  rcases hs.mountpoint mnt hmnt with hzero | hlive
  · simp [hzero]
  · have hpoint := h.dentry _ hlive
    simp only [hpoint.dParent, hpoint.dName]

theorem MountsOk.grows (h : MountsOk fs s) (hs : s.Sound) (hg : s.Grows t) : MountsOk fs t := by
  intro mnt hmnt
  rw [hg.mounts] at hmnt
  have hroot := hs.mount mnt hmnt
  rw [(hg.dentry _ hroot).dInode]
  refine (h mnt hmnt).imp_left fun hbase => ?_
  rw [lookupBase, hg.lookupMount hs hroot]
  exact hbase

theorem MountsOk.same (h : MountsOk fs s) (hsame : SameTree s t) : MountsOk fs t := by
  intro mnt hmnt
  rw [hsame.mounts] at hmnt
  rw [hsame.lookupBase, (hsame.dentry _).dInode]
  exact h mnt hmnt

/-- Where a mount has been followed, what is no directory is none for a lookup either. -/
theorem MountsOk.followed (h : MountsOk fs s)
    (hdir : isDirectory fs s (followMount s d).1 = false) :
    isDirectory fs s (lookupBase s (followMount s d).1) = false := by
  unfold followMount at hdir ⊢
  cases hmnt : vfsLookupMount s d with
  | none =>
      rw [hmnt] at hdir
      rw [lookupBase, hmnt]
      exact hdir
  | some mnt =>
      rw [hmnt] at hdir
      simp only at hdir ⊢
      rcases h mnt (vfsLookupMount_mem hmnt) with hbase | ⟨hinode, hmode⟩
      · rw [hbase]
        exact hdir
      · rw [isDirectory, hmode, Bool.and_true, decide_eq_true hinode] at hdir
        cases hdir

/-! ## The loops -/

theorem vfsPathParentLoop_nil (fuel : Nat) (st : Vfs W) (cur : Addr)
    (lastStart : Option (List UInt8)) :
    vfsPathParentLoop fs base fuel st cur lastStart [] = (.ok (cur, lastStart), st) := by
  cases fuel with
  | zero => rfl
  | succ fuel => rfl

/-- The last component is not looked up. -/
theorem vfsPathParentLoop_last {fuel : Nat} (h : LastPart last rest) (hmax : last.length ≤ NAME_MAX)
    (hfuel : rest.length ≤ fuel) (st : Vfs W) (cur : Addr) (lastStart : Option (List UInt8)) :
    vfsPathParentLoop fs base fuel st cur lastStart rest = (.ok (cur, some rest), st) := by
  cases fuel with
  | zero => exact absurd (List.length_eq_zero_iff.mp (Nat.le_zero.mp hfuel)) h.rest_ne_nil
  | succ fuel =>
      rw [vfsPathParentLoop, if_neg h.rest_ne_nil]
      simp only
      rw [if_pos (h.skip hmax), h.skip hmax]
      exact vfsPathParentLoop_nil fuel st cur _

/-- The results of the loops. -/
def LoopsAgree (rest : List UInt8) : Except Int Nameidata × Vfs W →
    Except Int (Addr × Option (List UInt8)) × Vfs W → Prop
  | (.ok nd, s), (.ok (cur, lastStart), t) =>
      cur = nd.dentry ∧ lastStart = some rest ∧ SameTree s t
  | (.error _, _), (.error _, _) => True
  | (.ok _, _), (.error _, _) | (.error _, _), (.ok _, _) => False

/-- A name that is followed by more is looked up. -/
theorem vfsPathParentLoop_dir {fuel : Nat} (hp : DirPart p) (hlast : LastPart last rest)
    (st : Vfs W) (cur : Addr) (lastStart : Option (List UInt8)) :
    vfsPathParentLoop fs base (fuel + 1) st cur lastStart (p ++ rest)
      = match vfsLookupSingle fs st cur (vfsGetName p) (UInt32.ofNat (vfsGetName p).length) with
        | (.error e, st) => (.error e, st.dentryPut base)
        | (.ok next, st) =>
            let followed := followMount st next
            let st := if cur ≠ base then followed.2.dentryPut cur else followed.2
            vfsPathParentLoop fs base fuel st followed.1 (some (p ++ rest))
              (vfsSkipSlashes (p.drop (vfsGetName p).length) ++ rest) := by
  have hne : vfsSkipSlashes (p.drop (vfsGetName p).length) ++ rest ≠ [] :=
    List.append_ne_nil_of_right_ne_nil _ hlast.rest_ne_nil
  rw [vfsPathParentLoop, if_neg (List.append_ne_nil_of_left_ne_nil hp.ne_nil _)]
  simp only
  rw [hp.skip_append hlast, hp.getName_append]
  exact if_neg hne

/-- Not being a directory fails the next lookup. -/
theorem LoopsAgree.notDir {fuel : Nat} (hp : DirPart p) (hlast : LastPart last rest)
    {st : Vfs W} {cur : Addr} (hdir : isDirectory fs st (lookupBase st cur) = false)
    (hfuel : (p ++ rest).length ≤ fuel) (e : Int) (s : Vfs W)
    (lastStart : Option (List UInt8)) :
    LoopsAgree rest (.error e, s)
      (vfsPathParentLoop fs base fuel st cur lastStart (p ++ rest)) := by
  cases fuel with
  | zero =>
      have hnil := List.length_eq_zero_iff.mp (Nat.le_zero.mp hfuel)
      exact absurd hnil (List.append_ne_nil_of_left_ne_nil hp.ne_nil _)
  | succ fuel =>
      rw [vfsPathParentLoop_dir hp hlast, vfsLookupSingle]
      split
      · rename_i heq
        split at heq
        · exact trivial
        · exact trivial
      · rename_i heq
        rw [if_pos hdir] at heq
        split at heq
        · cases heq
        · cases heq

variable (base) in
theorem loops_agree {fuel fuel' : Nat} {cur : Addr} (hp : DirPart p) (hlast : LastPart last rest)
    (hmax : last.length ≤ NAME_MAX) (hsame : SameTree s t) (hs : s.Sound)
    (hcur : s.dc.live cur = true) (hm : MountsOk fs s)
    (hnames : ∀ name ∈ pathNames fuel p, name ≠ [46] ∧ name ≠ [46, 46])
    (hfuel : p.length ≤ fuel) (hfuel' : (p ++ rest).length ≤ fuel') (nd : Nameidata)
    (lastStart : Option (List UInt8)) :
    LoopsAgree rest (vfsPathWalkLoop fs fuel s nd cur p)
      (vfsPathParentLoop fs base fuel' t cur lastStart (p ++ rest)) := by
  induction fuel generalizing fuel' s t cur p nd lastStart with
  | zero => exact absurd (List.length_eq_zero_iff.mp (Nat.le_zero.mp hfuel)) hp.ne_nil
  | succ fuel ih =>
      obtain ⟨fuel', rfl⟩ : ∃ n, fuel' = n + 1 := by
        refine Nat.exists_eq_succ_of_ne_zero fun hzero => ?_
        have hpos := List.length_pos_of_ne_nil hp.ne_nil
        rw [List.length_append] at hfuel'
        omega
      rw [pathNames, if_neg hp.ne_nil] at hnames
      obtain ⟨hdot, hdotdot⟩ := hnames _ List.mem_cons_self
      rw [vfsPathParentLoop_dir hp hlast, vfsPathWalkLoop]
      simp only
      -- both look the name up
      rw [vfsWalkComponent, if_neg hdot, if_neg hdotdot]
      have hlookup := hsame.lookupSingle fs cur (vfsGetName p)
        (UInt32.ofNat (vfsGetName p).length)
      have hspec := vfsLookupSingle_spec fs hs hcur (vfsGetName p)
        (UInt32.ofNat (vfsGetName p).length)
      generalize vfsLookupSingle fs s cur (vfsGetName p) (UInt32.ofNat (vfsGetName p).length) = x
        at hlookup hspec ⊢
      generalize vfsLookupSingle fs t cur (vfsGetName p) (UInt32.ofNat (vfsGetName p).length) = y
        at hlookup ⊢
      obtain ⟨err | next, s₁⟩ := x
      · obtain ⟨y, t₁⟩ := y
        obtain ⟨rfl, -⟩ := hlookup
        exact trivial
      obtain ⟨y, t₁⟩ := y
      obtain ⟨rfl, hsame₁⟩ := hlookup
      obtain ⟨hfollow, hsame₂⟩ := hsame₁.followMount next
      obtain ⟨hext, hlive, -⟩ := followMount_spec hspec.ext.sound hspec.live
      have hext' := (hspec.ext.trans hext).trans (.put hext.sound cur)
      simp only
      rw [hfollow]
      -- the one always puts the dentry that it leaves, the other not the base
      generalize ht₂ : (if cur ≠ base then (followMount t₁ next).2.dentryPut cur
        else (followMount t₁ next).2) = t₂
      have hput : SameTree (followMount t₁ next).2 t₂ := by
        rw [← ht₂]
        split
        · exact .put _ cur
        · exact .refl _
      have hsame₃ : SameTree ((followMount s₁ next).2.dentryPut cur) t₂ :=
        (SameTree.put _ cur).symm.trans (hsame₂.trans hput)
      rcases hp.next with hnil | hp'
      · -- the walk is over, and the other loop is at the last component
        rw [if_pos hnil, hnil, List.nil_append]
        rw [List.length_append] at hfuel'
        rw [vfsPathParentLoop_last hlast hmax (by have := hp.length_getName_lt; omega)]
        exact ⟨rfl, rfl, hsame₃⟩
      rw [if_neg hp'.ne_nil]
      have hlt := length_rest_lt hp.getName_ne_nil
      rw [List.length_append] at hfuel'
      have hfuel'' : (vfsSkipSlashes (p.drop (vfsGetName p).length) ++ rest).length ≤ fuel' := by
        rw [List.length_append]
        omega
      by_cases hdir : isDirectory fs ((followMount s₁ next).2.dentryPut cur)
          (followMount s₁ next).1 = false
      · -- the other loop finds out at the next name
        rw [if_pos hdir]
        have hsame₁₂ : SameTree s₁ ((followMount s₁ next).2.dentryPut cur) :=
          (SameTree.of_followMount s₁ next).trans (.put _ cur)
        have hm₁ := hm.grows hs hspec.ext.grows
        rw [hsame₁₂.isDirectory] at hdir
        have hbase := hm₁.followed hdir
        refine .notDir hp' hlast ?_ hfuel'' _ _ _
        rw [hsame₃.isDirectory, hsame₃.lookupBase, hsame₁₂.isDirectory, hsame₁₂.lookupBase]
        exact hbase
      · rw [if_neg hdir]
        refine ih hp' hsame₃ hext'.sound ((grows_put _ cur).live _ hlive)
          (hm.grows hs hext'.grows) (fun name hname => hnames name (List.mem_cons_of_mem _ hname))
          (by omega) hfuel'' _ _

/-! ## Agreement -/

/-- Both succeed, with the same inode and the last component, or both fail. -/
def SameDirectory (last : List UInt8) :
    Except Int (Path × Qstr) × Vfs W → Except Int Addr × Vfs W → Prop
  | (.ok (parent, qstr), _), (.ok d, st) =>
      parent.inode = (st.dc.dentry d).dInode ∧ qstr.name = last
  | (.error _, _), (.error _, _) => True
  | (.ok _, _), (.error _, _) | (.error _, _), (.ok _, _) => False

/-- `vfs_path_parent` goes where a lookup of the path without its last component does. -/
def Agree (fs : FileSystem W) (st : Vfs W) (base : Addr) (path : List UInt8) (flags : UInt32) :
    Prop :=
  SameDirectory (lastComponent path) (vfsPathParent fs st base path)
    (vfsPathLookup fs st base (parentPath path) flags)

/-- No name before the last component is `.` or `..`, and the last component is not too long. -/
def PathOk (path : List UInt8) : Prop :=
  (∀ name ∈ namesOf (parentPath path), name ≠ [46] ∧ name ≠ [46, 46])
    ∧ (lastComponent path).length ≤ NAME_MAX

/-- The directory part of a path, without slashes in front. -/
theorem dirPart_parentPath (path : List UInt8) :
    vfsSkipSlashes (parentPath path) = [] ∨ DirPart (vfsSkipSlashes (parentPath path)) := by
  by_cases hnil : vfsSkipSlashes (parentPath path) = []
  · exact .inl hnil
  · refine .inr ⟨head?_skipSlashes_ne _, ?_⟩
    obtain ⟨before, heq⟩ : vfsSkipSlashes (parentPath path) <:+ parentPath path :=
      List.dropWhile_suffix _
    rcases parentPath_end path with hempty | hlast
    · rw [hempty] at hnil
      exact absurd rfl hnil
    · rwa [← heq, List.getLast?_append_of_ne_nil _ hnil] at hlast

theorem skipSlashes_path (hlast : LastPart last rest) (dir : List UInt8) :
    vfsSkipSlashes (dir ++ rest) = vfsSkipSlashes dir ++ rest := by
  rw [vfsSkipSlashes, List.dropWhile_append, vfsSkipSlashes]
  split
  · rename_i hempty
    rw [List.isEmpty_iff.mp hempty]
    exact hlast.skipSlashes
  · rfl

/-- Where the loops agree, so do the walkers. -/
theorem agree_of_pathOk (hs : s.Sound) (hbase : base = 0 ∨ s.dc.live base = true)
    (hm : MountsOk fs s) (hmem : ∀ world, (fs.kmalloc world).1 = true)
    (hpath : lastComponent path ≠ []) (hok : PathOk path) (flags : UInt32) :
    Agree fs s base path flags := by
  obtain ⟨hnames, hmax⟩ := hok
  obtain ⟨rest, hlast, heq⟩ := path_eq path hpath
  have hskip : vfsSkipSlashes path = vfsSkipSlashes (parentPath path) ++ rest := by
    conv_lhs => rw [heq]
    exact skipSlashes_path hlast _
  have hdir := dirPart_parentPath path
  have hname := hlast.getName hmax
  unfold Agree vfsPathParent vfsPathLookup
  simp only
  by_cases hstart : startOf s base = 0
  · rw [if_pos hstart, if_pos hstart]
    exact trivial
  rw [if_neg hstart, if_neg hstart, hskip]
  have hb := startOf_live hs hbase hstart
  generalize startOf s base = b at hb hstart
  have hget := Vfs.Extends.get hs b
  -- what the result is made of, once the loops have agreed
  have hfinish : ∀ (d : Addr) (t₁ t₂ : Vfs W), SameTree t₁ t₂ →
      SameDirectory (lastComponent path)
        (if (fs.kmalloc t₂.world).1 = false then
          (.error (-ENOMEM), ({ t₂ with world := (fs.kmalloc t₂.world).2 } : Vfs W).dentryPut b)
        else (.ok (⟨d, (t₂.dc.dentry d).dInode⟩, qstrInit (vfsGetName rest)),
          { t₂ with world := (fs.kmalloc t₂.world).2 })) (.ok d, t₁) := by
    intro d t₁ t₂ hsame
    rw [hmem, if_neg (by decide), hname]
    exact ⟨(hsame.dentry d).dInode, rfl⟩
  unfold vfsPathWalk
  rw [if_neg hstart]
  simp only
  rcases hdir with hnil | hp
  · rw [if_pos hnil, hnil, List.nil_append, vfsPathParentLoop_last hlast hmax le_rfl]
    exact hfinish b _ _ (.refl _)
  · rw [if_neg hp.ne_nil]
    have hloops := loops_agree b hp hlast hmax (.refl _) hget.sound (hget.grows.live b hb) (hm.grows hs hget.grows) hnames le_rfl le_rfl
      ⟨b, ((s.dentryGet b).dc.dentry b).dInode, flags, .norm, none, 0⟩ none
    generalize vfsPathWalkLoop fs (vfsSkipSlashes (parentPath path)).length (s.dentryGet b)
      ⟨b, ((s.dentryGet b).dc.dentry b).dInode, flags, .norm, none, 0⟩ b
      (vfsSkipSlashes (parentPath path)) = x at hloops ⊢
    generalize vfsPathParentLoop fs b (vfsSkipSlashes (parentPath path) ++ rest).length
      (s.dentryGet b) b none (vfsSkipSlashes (parentPath path) ++ rest) = y at hloops ⊢
    obtain ⟨err | nd, s₁⟩ := x
    · obtain ⟨err' | r, t₁⟩ := y
      · exact trivial
      · exact hloops.elim
    · obtain ⟨err' | ⟨cur, lastStart⟩, t₁⟩ := y
      · exact hloops.elim
      · obtain ⟨rfl, rfl, hsame⟩ := hloops
        exact hfinish _ _ _ hsame

/-! ## A directory whose names lead back to it -/

/-- Every name but `.` and `..` is one of the root directory. -/
def loopFs : FileSystem Unit where
  kmemCacheAlloc _ live := (if live 0x80001100 then 0 else 0x80001100, ())
  kmalloc _ := (true, ())
  iMode _ _ := S_IFDIR
  hasLookup _ _ := true
  lookup _ live _ d dentry :=
    if dentry.dName.name = [46] ∨ dentry.dName.name = [46, 46] then (⟨.error (-ENOENT), 0⟩, ())
    else (⟨.ok (if live 0x80001000 then 0x80001000 else d), 0⟩, ())
  release _ _ _ := ()
  kmemCacheAlloc_new := by
    intro _ live
    simp only
    split
    · exact .inl rfl
    · rename_i h
      exact .inr (Bool.eq_false_of_not_eq_true h)
  lookup_live := by
    intro _ live dir d dentry r hd h
    split at h
    · cases h
    · cases h
      split
      · assumption
      · exact hd

def loopRoot : Vfs Unit where
  dc := { dentryInit (fun _ => ⟨qstrInit [47], 1, 0x80002000, 0x80001000, 1⟩) ⟨id, id⟩ ⟨id, id⟩ with
    live := fun d => d == 0x80001000 }
  mounts := []
  rootMount := some ⟨0x80001000, 0x80001000⟩
  world := ()
  frees := []

theorem sound_loopRoot : loopRoot.Sound where
  null := by decide
  parent := fun _ _ => .inr rfl
  cached := fun _ _ h => absurd h List.not_mem_nil
  mount := nofun
  mountpoint := nofun
  root := by
    rintro mnt (_ | _)
    rfl

/-- The root is still the only dentry. -/
structure Looped (st : Vfs Unit) : Prop where
  ext : loopRoot.Extends st
  live : st.dc.live = loopRoot.dc.live

/-- What the cache finds has the name. -/
theorem dentryLookup_name {dc : Dcache} {sb parent : Addr} {qstr : Qstr}
    (h : dentryLookup dc sb parent qstr ≠ 0) :
    (dc.dentry (dentryLookup dc sb parent qstr)).dName.name = qstr.name := by
  unfold dentryLookup at h ⊢
  simp only at h ⊢
  split
  · rename_i node hfind
    have hsome := List.find?_some hfind
    exact (of_decide_eq_true hsome).2.2.2.2
  · rename_i hfind
    rw [hfind] at h
    exact absurd rfl h

namespace Looped

variable {st st' : Vfs Unit}

theorem start : Looped loopRoot := ⟨.refl sound_loopRoot, rfl⟩

theorem next (h : Looped st) (hext : st.Extends st') (hlive : st'.dc.live = st.dc.live) :
    Looped st' := ⟨h.ext.trans hext, hlive.trans h.live⟩

theorem live_root (h : Looped st) : st.dc.live 0x80001000 = true := by
  rw [h.live]
  rfl

theorem eq_root (h : Looped st) {d : Addr} (hd : st.dc.live d = true) : d = 0x80001000 := by
  rw [h.live] at hd
  exact eq_of_beq hd

theorem root (h : Looped st) : (loopRoot.dc.dentry 0x80001000).Same (st.dc.dentry 0x80001000) :=
  h.ext.grows.dentry _ rfl

theorem lookupMount (h : Looped st) (d : Addr) : vfsLookupMount st d = none := by
  unfold vfsLookupMount
  rw [h.ext.grows.mounts]
  split
  · rfl
  · rfl

theorem lookupBase (h : Looped st) (d : Addr) : lookupBase st d = d := by
  rw [Fs.lookupBase, h.lookupMount]

theorem followMount (h : Looped st) (d : Addr) : followMount st d = (d, st) := by
  rw [Fs.followMount, h.lookupMount]

theorem isDirectory (h : Looped st) : isDirectory loopFs st 0x80001000 = true := by
  have hmode : sIsDir S_IFDIR = true := by decide
  rw [Fs.isDirectory, h.root.dInode]
  exact hmode

/-! ### One name -/

/-- The new dentry is not the root, and there is memory for it. -/
theorem alloc (h : Looped st) (parent sb : Addr) (name : List UInt8) :
    ∃ st', st.dentryAlloc loopFs parent sb name = (.ok 0x80001100, st')
      ∧ (st'.dc.dentry 0x80001100).dName.name = name := by
  have hnew : st.dc.live 0x80001100 = false := by
    rw [h.live]
    decide
  have hmem : loopFs.kmemCacheAlloc st.world st.dc.live = (0x80001100, ()) := by
    unfold loopFs
    simp only
    rw [hnew, if_neg Bool.false_ne_true]
  have halloc : st.dentryAlloc loopFs parent sb name = (.ok 0x80001100,
      { st with dc := (Fs.dentryAlloc st.dc 0x80001100 true parent sb name).2, world := () }) := by
    unfold Vfs.dentryAlloc
    rw [hmem]
    rfl
  refine ⟨_, halloc, ?_⟩
  have hdentry : (Fs.dentryAlloc st.dc 0x80001100 true parent sb name).2.dentry 0x80001100
      = ⟨qstrInit name, 0, sb, if parent ≠ 0 then parent else 0x80001100, 1⟩ := by
    have hok : ¬((0x80001100 : Addr) = 0 ∨ true = false) := by decide
    unfold Fs.dentryAlloc
    rw [if_neg hok]
    exact Function.update_self (0x80001100 : Addr) _ st.dc.dentry
  exact congrArg (fun dentry : Dentry => dentry.dName.name) hdentry

/-- The file system returns the root, and the new dentry goes back. -/
theorem lookupNew (h : Looped st) {name : List UInt8} (hname : name ≠ [46] ∧ name ≠ [46, 46]) :
    ∃ st', vfsLookupNew loopFs st 0x80001000 name = (.ok 0x80001000, st') ∧ Looped st' := by
  obtain ⟨st₁, halloc, hdName⟩ := h.alloc 0x80001000 (st.dc.dentry 0x80001000).dSb name
  have hnew := dentryAlloc_ok halloc
  have hspec := vfsLookupNew_spec loopFs h.ext.sound h.live_root name
  have hlookup : (loopFs.lookup st₁.world st₁.dc.live (st₁.dc.dentry 0x80001000).dInode 0x80001100
      (st₁.dc.dentry 0x80001100)).1 = ⟨.ok 0x80001000, 0⟩ := by
    unfold loopFs
    simp only
    rw [hdName, if_neg (not_or.mpr hname), if_pos (hnew.grows.live _ h.live_root)]
  unfold vfsLookupNew at hspec ⊢
  rw [halloc] at hspec ⊢
  simp only at hspec ⊢
  rw [hlookup] at hspec ⊢
  simp only at hspec ⊢
  have hne : (0x80001000 : Addr) ≠ 0x80001100 := by decide
  rw [if_pos hne] at hspec ⊢
  refine ⟨_, rfl, h.next hspec.ext ?_⟩
  rw [(dentryInsert_same _ _ _).1]
  exact hnew.live_free loopFs 0 ()

theorem lookupSingle (h : Looped st) {name : List UInt8} (hname : name ≠ [46] ∧ name ≠ [46, 46])
    {len : UInt32} (hlen : len ≠ 0) :
    ∃ st', vfsLookupSingle loopFs st 0x80001000 name len = (.ok 0x80001000, st') ∧ Looped st' := by
  unfold vfsLookupSingle
  rw [if_neg (not_or.mpr ⟨by decide, hlen⟩)]
  simp only
  rw [h.lookupBase, h.isDirectory, if_neg (by decide), if_neg (by exact nofun)]
  by_cases hfound : dentryLookup st.dc (st.dc.dentry 0x80001000).dSb 0x80001000
      ⟨name, len, hashString name len⟩ ≠ 0
  · rw [if_pos hfound, h.eq_root (dentryLookup_live h.ext.sound hfound)]
    exact ⟨st, rfl, h⟩
  · rw [if_neg hfound]
    exact h.lookupNew hname

/-- `.` and `..` are not there: the name of the root is another one. -/
theorem lookupSingle_dots (h : Looped st) {name : List UInt8} (hname : name = [46] ∨ name = [46, 46])
    (len : UInt32) : ∃ err st', vfsLookupSingle loopFs st 0x80001000 name len = (.error err, st') := by
  unfold vfsLookupSingle
  by_cases hlen : (0x80001000 : Addr) = 0 ∨ len = 0
  · rw [if_pos hlen]
    exact ⟨_, _, rfl⟩
  rw [if_neg hlen]
  simp only
  rw [h.lookupBase, h.isDirectory, if_neg (by decide), if_neg (by exact nofun)]
  -- the root alone is cached, and its name is `/`
  have hnone : dentryLookup st.dc (st.dc.dentry 0x80001000).dSb 0x80001000
      ⟨name, len, hashString name len⟩ = 0 := by
    by_contra hfound
    have hroot := h.eq_root (dentryLookup_live h.ext.sound hfound)
    have hdName := dentryLookup_name hfound
    rw [hroot, h.root.dName] at hdName
    have hslash : name = [47] := hdName.symm
    rcases hname with rfl | rfl
    · cases hslash
    · cases hslash
  rw [if_neg (not_not.mpr hnone)]
  obtain ⟨st₁, halloc, hdName⟩ := h.alloc 0x80001000 (st.dc.dentry 0x80001000).dSb name
  have hlookup : (loopFs.lookup st₁.world st₁.dc.live (st₁.dc.dentry 0x80001000).dInode 0x80001100
      (st₁.dc.dentry 0x80001100)).1 = ⟨.error (-ENOENT), 0⟩ := by
    unfold loopFs
    simp only
    rw [hdName, if_pos hname]
  unfold vfsLookupNew
  rw [halloc]
  simp only
  rw [hlookup]
  exact ⟨_, _, rfl⟩

/-! ### Paths -/

theorem walkComponent (h : Looped st) {name : List UInt8}
    (hlen : UInt32.ofNat name.length ≠ 0) : ∃ lastType st',
      vfsWalkComponent loopFs st 0x80001000 name = (.ok (0x80001000, lastType), st')
        ∧ Looped st' := by
  unfold vfsWalkComponent
  by_cases hdot : name = [46]
  · rw [if_pos hdot]
    exact ⟨_, st, rfl, h⟩
  rw [if_neg hdot]
  by_cases hdotdot : name = [46, 46]
  · rw [if_pos hdotdot]
    simp only
    rw [h.root.dParent, if_neg (by decide)]
    exact ⟨_, st, rfl, h⟩
  rw [if_neg hdotdot]
  obtain ⟨st₁, hlookup, h₁⟩ := h.lookupSingle ⟨hdot, hdotdot⟩ hlen
  rw [hlookup]
  simp only
  rw [h₁.followMount]
  have hput := Vfs.Extends.put h₁.ext.sound 0x80001000
  exact ⟨_, _, rfl, h₁.next hput (sameCache_dentryPut st₁.dc _).2.1⟩

/-- Every path can be walked. -/
theorem walkLoop (fuel : Nat) (h : Looped st) (hne : path ≠ []) (hstart : path.head? ≠ some 47)
    (nd : Nameidata) :
    ∃ nd' st', vfsPathWalkLoop loopFs fuel st nd 0x80001000 path = (.ok nd', st') := by
  induction fuel generalizing st path nd with
  | zero => exact ⟨nd, st, rfl⟩
  | succ fuel ih =>
      obtain ⟨lastType, st₁, hcomponent, h₁⟩ := h.walkComponent (length_getName_ne_zero hne hstart)
      rw [vfsPathWalkLoop]
      simp only
      rw [hcomponent]
      simp only
      by_cases hnil : vfsSkipSlashes (path.drop (vfsGetName path).length) = []
      · rw [if_pos hnil]
        exact ⟨_, _, rfl⟩
      · rw [if_neg hnil, h₁.isDirectory, if_neg (by decide)]
        exact ih h₁ hnil (head?_skipSlashes_ne _) _

theorem pathLookup (path : List UInt8) (flags : UInt32) :
    ∃ d st', vfsPathLookup loopFs loopRoot 0 path flags = (.ok d, st') := by
  have hb : startOf loopRoot 0 = 0x80001000 := rfl
  have hne : ¬(0x80001000 : Addr) = 0 := by decide
  unfold vfsPathLookup vfsPathWalk
  simp only
  rw [hb, if_neg hne, if_neg hne]
  by_cases hnil : vfsSkipSlashes path = []
  · rw [if_pos hnil]
    exact ⟨_, _, rfl⟩
  · rw [if_neg hnil]
    have hget := Vfs.Extends.get sound_loopRoot 0x80001000
    have h := start.next hget (sameCache_dentryGet loopRoot.dc _).2.1
    obtain ⟨nd, st', hwalk⟩ := h.walkLoop (vfsSkipSlashes path).length hnil
      (head?_skipSlashes_ne _) ⟨0x80001000, ((loopRoot.dentryGet 0x80001000).dc.dentry
        0x80001000).dInode, flags, .norm, none, 0⟩
    rw [hwalk]
    exact ⟨_, _, rfl⟩

/-- The other loop fails at the first `.` or `..` before the last component. -/
theorem parentLoop_dots {fuel fuel' : Nat} (h : Looped st) (hp : DirPart p)
    (hlast : LastPart last rest)
    (hdots : ∃ name ∈ pathNames fuel p, name = [46] ∨ name = [46, 46])
    (hfuel : (p ++ rest).length ≤ fuel') (lastStart : Option (List UInt8)) :
    ∃ err st', vfsPathParentLoop loopFs 0x80001000 fuel' st 0x80001000 lastStart (p ++ rest)
      = (.error err, st') := by
  induction fuel generalizing fuel' st p lastStart with
  | zero =>
      obtain ⟨name, hmem, -⟩ := hdots
      exact absurd hmem List.not_mem_nil
  | succ fuel ih =>
      obtain ⟨fuel', rfl⟩ : ∃ n, fuel' = n + 1 := by
        refine Nat.exists_eq_succ_of_ne_zero fun hzero => ?_
        have hpos := List.length_pos_of_ne_nil hp.ne_nil
        rw [List.length_append] at hfuel
        omega
      rw [vfsPathParentLoop_dir hp hlast]
      by_cases hname : vfsGetName p = [46] ∨ vfsGetName p = [46, 46]
      · obtain ⟨err, st', hlookup⟩ := h.lookupSingle_dots hname
          (UInt32.ofNat (vfsGetName p).length)
        rw [hlookup]
        exact ⟨_, _, rfl⟩
      obtain ⟨st₁, hlookup, h₁⟩ := h.lookupSingle (not_or.mp hname)
        (length_getName_ne_zero hp.ne_nil hp.start)
      rw [hlookup]
      simp only
      rw [h₁.followMount, if_neg (not_not.mpr rfl)]
      -- the name that fails comes later
      obtain ⟨name, hmem, heq⟩ := hdots
      rw [pathNames, if_neg hp.ne_nil] at hmem
      rcases List.mem_cons.mp hmem with rfl | hmem
      · exact absurd heq hname
      rcases hp.next with hnil | hp'
      · rw [hnil] at hmem
        cases fuel with
        | zero => exact absurd hmem List.not_mem_nil
        | succ fuel => exact absurd hmem List.not_mem_nil
      · refine ih h₁ hp' ⟨name, hmem, heq⟩ ?_ _
        have hlt := length_rest_lt hp.getName_ne_nil
        rw [List.length_append] at hfuel ⊢
        omega

end Looped

/-! ## The paths on which the walkers agree -/

/-- **The two walkers.** Exactly on these paths `vfs_path_parent` finds the directory in which a
lookup ends, over every file system. -/
theorem walkers_agree_iff (path : List UInt8) (flags : UInt32) (hpath : lastComponent path ≠ []) :
    (∀ (W : Type) (fs : FileSystem W) (st : Vfs W) (base : Addr), st.Sound →
      (base = 0 ∨ st.dc.live base = true) → MountsOk fs st →
      (∀ world, (fs.kmalloc world).1 = true) → Agree fs st base path flags) ↔ PathOk path := by
  constructor
  · intro hagree
    have h := hagree Unit loopFs loopRoot 0 sound_loopRoot (.inl rfl) nofun fun _ => rfl
    obtain ⟨rest, hlast, heq⟩ := path_eq path hpath
    obtain ⟨d, st₁, hlookup⟩ := Looped.pathLookup (parentPath path) flags
    rw [Agree, hlookup] at h
    constructor
    · -- the lookup passes over the dots
      intro name hname
      rw [← not_or]
      intro hdots
      have hskip : vfsSkipSlashes path = vfsSkipSlashes (parentPath path) ++ rest := by
        conv_lhs => rw [heq]
        exact skipSlashes_path hlast _
      have hp := (dirPart_parentPath path).resolve_left fun hnil => by
        rw [namesOf, hnil] at hname
        exact absurd hname List.not_mem_nil
      have hb : startOf loopRoot 0 = 0x80001000 := rfl
      have hget := Vfs.Extends.get sound_loopRoot 0x80001000
      have hloop := Looped.start.next hget (sameCache_dentryGet loopRoot.dc _).2.1
      obtain ⟨err, st₂, hparent⟩ := hloop.parentLoop_dots hp hlast ⟨name, hname, hdots⟩ le_rfl none
      unfold vfsPathParent at h
      simp only at h
      rw [hb, if_neg (by decide), hskip, hparent] at h
      exact h
    · -- a name that is taken from the path is not longer
      unfold vfsPathParent at h
      simp only at h
      split at h
      · exact h.elim
      split at h
      · exact h.elim
      split at h
      · exact h.elim
      · rw [← h.2]
        split
        · exact List.length_take_le _ _
        · exact Nat.zero_le _
  · intro hok W fs st base hs hbase hm hmem
    exact agree_of_pathOk hs hbase hm hmem hpath hok flags

theorem mountsOk_rootOnly (fs : FileSystem Nat) : MountsOk fs rootOnly := by
  rintro mnt (_ | _)
  · exact .inl rfl
  · contradiction

/-- `/a/b`: the directory is `/a`. -/
theorem walkers_agree_ab : lastComponent [47, 97, 47, 98] ≠ []
    ∧ Agree (nameFs fun _ => 1) rootOnly 0 [47, 97, 47, 98] 0 := by
  have hpath : lastComponent [47, 97, 47, 98] ≠ [] := by decide
  have hok : PathOk [47, 97, 47, 98] := by
    unfold PathOk
    decide
  exact ⟨hpath, (walkers_agree_iff _ 0 hpath).mpr hok Nat _ _ _ sound_rootOnly (.inl rfl)
    (mountsOk_rootOnly _) fun _ => rfl⟩

/-- `/./b`: a lookup of `/./` stays at the root, and there is no `.` for `vfs_path_parent`. -/
theorem not_walkers_agree : rootOnly.Sound ∧ MountsOk (nameFs fun _ => 0) rootOnly
    ∧ lastComponent [47, 46, 47, 98] = [98] ∧ parentPath [47, 46, 47, 98] = [47, 46, 47]
    ∧ (vfsPathParent (nameFs fun _ => 0) rootOnly 0 [47, 46, 47, 98]).1.isOk = false
    ∧ (vfsPathLookup (nameFs fun _ => 0) rootOnly 0 [47, 46, 47] 0).1.isOk = true
    ∧ ¬Agree (nameFs fun _ => 0) rootOnly 0 [47, 46, 47, 98] 0 := by
  have hparent : vfsPathParent (nameFs fun _ => 0) rootOnly 0 [47, 46, 47, 98]
      = (.error (-ENOENT), (vfsPathParent (nameFs fun _ => 0) rootOnly 0 [47, 46, 47, 98]).2) := rfl
  have hlookup : vfsPathLookup (nameFs fun _ => 0) rootOnly 0 [47, 46, 47] 0
      = (.ok 0x80001000, (vfsPathLookup (nameFs fun _ => 0) rootOnly 0 [47, 46, 47] 0).2) := rfl
  have hdir : parentPath [47, 46, 47, 98] = [47, 46, 47] := by decide
  refine ⟨sound_rootOnly, mountsOk_rootOnly _, by decide, hdir, rfl, rfl, fun h => ?_⟩
  rw [Agree, hdir, hparent, hlookup] at h
  exact h

end NoobKernel.Fs
