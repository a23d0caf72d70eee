import Mathlib.Logic.Relation
import NoobKernel.Fs.VfsKeeps

set_option autoImplicit false

/-! # Runs of the VFS

Callers open and close files, remove and rename what paths lead to, and take and give up references
to dentries. `dentry_delete` does not look at the references. As long as callers remove only what
nothing refers to (`Careful`), no run frees a dentry that an open file, a caller or a mount refers
to.
-/

namespace NoobKernel.Fs

variable {W : Type} {ops : VfsOps W} {s s' : VfsState W}

/-- The references to dentries. -/
inductive Referenced (s : VfsState W) : Addr → Prop
  | file {f : Addr} (live : s.files.live f = true) (null : (s.files.file f).fDentry ≠ 0) :
      Referenced s (s.files.file f).fDentry
  | caller {d : Addr} (mem : d ∈ s.held) : Referenced s d
  | mount {mnt : Mount} (mem : mnt ∈ s.vfs.mounts) : Referenced s mnt.mntRoot
  | mountpoint {mnt : Mount} (mem : mnt ∈ s.vfs.mounts) (null : mnt.mntMountpoint ≠ 0) :
      Referenced s mnt.mntMountpoint
  | root {mnt : Mount} (root : s.vfs.rootMount = some mnt) : Referenced s mnt.mntRoot

/-! ## Calls -/

inductive VfsCall
  | vfsOpen (path : List UInt8) (flags : UInt32)
  | vfsClose (f : Addr)
  | vfsUnlink (path : List UInt8)
  | vfsRmdir (path : List UInt8)
  | vfsRename (oldPath newPath : List UInt8)
  | dentryGet (d : Addr)
  | dentryPut (d : Addr)

variable (ops) in
def VfsCall.exec (s : VfsState W) : VfsCall → VfsState W
  | vfsOpen path flags => (Fs.vfsOpen ops s path flags).2
  | vfsClose f => (Fs.vfsClose ops s f).2
  | vfsUnlink path => { s with vfs := (Fs.vfsUnlink ops s.vfs path).2 }
  | vfsRmdir path => { s with vfs := (Fs.vfsRmdir ops s.vfs path).2 }
  | vfsRename oldPath newPath => { s with vfs := (Fs.vfsRename ops s.vfs oldPath newPath).2 }
  | dentryGet d => { s with vfs := s.vfs.dentryGet d, held := d :: s.held }
  | dentryPut d => { s with vfs := s.vfs.dentryPut d, held := s.held.erase d }

/-- Callers close open files, take references to dentries in use, and give up their own. -/
def VfsCall.Valid (s : VfsState W) : VfsCall → Prop
  | vfsClose f => s.files.live f = true
  | dentryGet d => s.vfs.dc.live d = true
  | dentryPut d => d ∈ s.held
  | _ => True

/-- The path to the dentry that a call removes. -/
def VfsCall.removes : VfsCall → Option (List UInt8)
  | vfsUnlink path | vfsRmdir path | vfsRename path _ => some path
  | _ => none

variable (ops) in
/-- No dentry in use is a child of the one that a call removes: none is when the path has been
looked up, and a new name is not below it. -/
def VfsCall.Leaf (st : Vfs W) (d : Addr) : VfsCall → Prop
  | vfsRename _ newPath => ∀ parent last st',
      vfsPathParent ops.toFileSystem st 0 newPath = (.ok (parent, last), st') →
        parent.dentry ≠ d ∧ Childless st'.dc d
  | _ => Childless st.dc d

variable (ops) in
/-- `vfs.c` itself does not refuse the removal. -/
def VfsCall.Asked (st : Vfs W) (d : Addr) : VfsCall → Prop
  | vfsUnlink _ => Unlinkable ops st d
  | vfsRmdir _ => Rmdirable ops st d
  | _ => True

variable (ops) in
/-- The file system may carry the removal out. -/
def VfsCall.Granted (d : Addr) : VfsCall → Prop
  | vfsUnlink _ => ∃ w dir dentry, 0 ≤ (ops.unlink w dir d dentry).1.ret
  | vfsRmdir _ => ∃ w dir dentry, 0 ≤ (ops.rmdir w dir d dentry).1.ret
  | vfsRename _ _ => ∃ w dir dentry newDir newD newDentry,
      0 ≤ (ops.rename w dir d dentry newDir newD newDentry).1.ret
  | _ => False

variable (ops) in
/-- The path of a removal leads to a dentry that nothing refers to, without children, unless
`vfs.c` or the file system refuses to let it go. -/
structure VfsCall.Careful (s : VfsState W) (call : VfsCall) : Prop where
  valid : call.Valid s
  removes : ∀ path, call.removes = some path → ∀ d st,
    vfsPathLookup ops.toFileSystem s.vfs 0 path LOOKUP_FOLLOW = (.ok d, st) →
      call.Asked ops st d → Deletable ops d → call.Granted ops d →
        ¬Referenced s d ∧ call.Leaf ops st d

variable (ops) in
def VfsStep (ok : VfsState W → VfsCall → Prop) (s s' : VfsState W) : Prop :=
  ∃ call : VfsCall, ok s call ∧ s' = call.exec ops s

/-- Nothing is open, and nothing has been freed. -/
structure VfsState.Start (s : VfsState W) : Prop where
  sound : s.vfs.Sound
  inv : Inv s.vfs.dc
  files : ∀ f, s.files.live f = false
  held : s.held = []
  frees : s.vfs.frees = []

/-! ## Steps -/

/-- What there are references to is in use. -/
def VfsState.Good (s : VfsState W) : Prop := s.vfs.Holding (Referenced s)

theorem good_of (hs : s.vfs.Sound) (hi : Inv s.vfs.dc)
    (hfile : ∀ f, s.files.live f = true → (s.files.file f).fDentry ≠ 0 →
      s.vfs.dc.live (s.files.file f).fDentry = true)
    (hheld : ∀ d ∈ s.held, s.vfs.dc.live d = true) : s.Good where
  sound := hs
  inv := hi
  live := by
    intro d hd
    cases hd with
    | file live null => exact hfile _ live null
    | caller mem => exact hheld d mem
    | mount mem => exact hs.mount _ mem
    | mountpoint mem null => exact (hs.mountpoint _ mem).resolve_left null
    | root root => exact hs.root _ root
  mount := by
    intro mnt hmnt
    refine ⟨.mount hmnt, ?_⟩
    by_cases hnull : mnt.mntMountpoint = 0
    · exact .inl hnull
    · exact .inr (.mountpoint hmnt hnull)
  root := fun mnt hmnt => .root hmnt

theorem VfsState.Start.good (h : s.Start) : s.Good := by
  refine good_of h.sound h.inv (fun f hf => ?_) fun d hd => ?_
  · rw [h.files f] at hf
    cases hf
  · rw [h.held] at hd
    exact absurd hd List.not_mem_nil

/-- Nothing is freed that something refers to. -/
def FreesUnreferenced (s s' : VfsState W) : Prop :=
  ∃ calls, s'.vfs.frees = s.vfs.frees ++ calls ∧ ∀ c ∈ calls, ¬Referenced s c.d

theorem FilesOf.refl (d : Addr) (files : Files) : FilesOf d files files :=
  fun _ hf => .inr ⟨hf, rfl⟩

/-- A step that keeps the referenced dentries, and takes references only to dentries in use. -/
theorem good_step {d : Addr} (hkeeps : s.vfs.Keeps (Referenced s) s'.vfs)
    (hfiles : FilesOf d s.files s'.files) (hd : d = 0 ∨ s'.vfs.dc.live d = true)
    (hheld : ∀ e ∈ s'.held, e ∈ s.held ∨ s'.vfs.dc.live e = true) :
    s'.Good ∧ FreesUnreferenced s s' := by
  obtain ⟨h, hfrees⟩ := hkeeps
  refine ⟨good_of h.sound h.inv (fun f hf hnull => ?_) fun e he => ?_, hfrees⟩
  · rcases hfiles f hf with heq | ⟨hlive, heq⟩
    · rw [heq] at hnull ⊢
      exact hd.resolve_left hnull
    · rw [heq] at hnull ⊢
      exact h.live _ (.file hlive hnull)
  · rcases hheld e he with hmem | hlive
    · exact h.live e (.caller hmem)
    · exact hlive

theorem Counts.live {d : Addr} {dc dc' : Dcache} (h : Counts d dc dc') : dc'.live = dc.live := by
  rcases h with rfl | rfl | rfl | rfl
  · rfl
  · exact (sameCache_dentryGet dc d).2.1
  · exact (sameCache_dentryPut dc d).2.1
  · exact (sameCache_dentryPut _ d).2.1.trans (sameCache_dentryGet dc d).2.1

variable (ops) in
/-- `file_open` works on memory that is not in use. -/
theorem VfsState.fileOpen_eq (s : VfsState W) (d : Addr) (flags : UInt32) :
    ∃ memory iMode iFop ret world r, (memory = 0 ∨ s.files.live memory = false)
      ∧ Fs.fileOpen s.files s.vfs.dc memory iMode iFop ret d flags = r
      ∧ s.fileOpen ops d flags
        = (r.1, { s with files := r.2.1, vfs := { s.vfs with dc := r.2.2, world := world } }) := by
  refine ⟨_, _, _, _, _, _, ?_, rfl, rfl⟩
  split
  · exact .inl rfl
  · exact ops.fileCacheAlloc_new _ _

variable (ops) in
theorem VfsState.fileOpen_keeps {R : Addr → Prop} (h : s.vfs.Holding R) (d : Addr)
    (flags : UInt32) :
    s.vfs.Keeps R (s.fileOpen ops d flags).2.vfs
      ∧ FilesOf d s.files (s.fileOpen ops d flags).2.files
      ∧ (s.fileOpen ops d flags).2.held = s.held
      ∧ (s.fileOpen ops d flags).2.vfs.dc.live = s.vfs.dc.live := by
  obtain ⟨memory, iMode, iFop, ret, world, r, hnew, hr, hrun⟩ := s.fileOpen_eq ops d flags
  obtain ⟨hfiles, hcounts⟩ := fileOpen_effect hnew s.vfs.dc iMode flags iFop ret d
  rw [hr] at hfiles hcounts
  rw [hrun]
  exact ⟨h.counts hcounts _, hfiles, rfl, hcounts.live⟩

theorem VfsState.Good.open (h : s.Good) (path : List UInt8) (flags : UInt32) :
    (vfsOpen ops s path flags).2.Good ∧ FreesUnreferenced s (vfsOpen ops s path flags).2 := by
  have hdentry := Vfs.Holding.openDentry ops h path flags
  unfold vfsOpen
  generalize vfsOpenDentry ops s.vfs path flags = x at hdentry ⊢
  obtain ⟨err | d, vfs⟩ := x
  · exact good_step hdentry (.refl 0 _) (.inl rfl) fun e he => .inl he
  obtain ⟨hkeeps, hd⟩ := hdentry
  have hfile := VfsState.fileOpen_keeps ops (s := { s with vfs := vfs }) hkeeps.holding d flags
  simp only
  generalize VfsState.fileOpen ops { s with vfs := vfs } d flags = y at hfile ⊢
  obtain ⟨err | f, s₁⟩ := y
  · obtain ⟨hkeeps', hfiles, hheld, hlive⟩ := hfile
    have hput := (hkeeps.trans hkeeps').trans (hkeeps'.holding.put d)
    refine good_step hput hfiles (.inr ?_) fun e he => .inl (hheld ▸ he)
    refine (grows_put s₁.vfs d).live d ?_
    rw [hlive]
    exact hd
  · obtain ⟨hkeeps', hfiles, hheld, hlive⟩ := hfile
    refine good_step (hkeeps.trans hkeeps') hfiles (.inr ?_) fun e he => .inl (hheld ▸ he)
    rw [hlive]
    exact hd

theorem VfsState.Good.close (h : s.Good) (f : Addr) :
    (vfsClose ops s f).2.Good ∧ FreesUnreferenced s (vfsClose ops s f).2 := by
  obtain ⟨hfiles, hcounts⟩ := fileClose_effect s.files s.vfs.dc f 0
  unfold vfsClose
  exact good_step (h.counts hcounts _) hfiles (.inl rfl) fun e he => .inl he

/-- **One call** keeps what there are references to in use. -/
theorem VfsState.Good.call (h : s.Good) {call : VfsCall} (hcall : call.Careful ops s) :
    (call.exec ops s).Good ∧ FreesUnreferenced s (call.exec ops s) := by
  obtain ⟨hvalid, hremoves⟩ := hcall
  cases call with
  | vfsOpen path flags => exact h.open path flags
  | vfsClose f => exact h.close f
  | vfsUnlink path =>
      have hkeeps := Vfs.Holding.unlink h path (hremoves path rfl)
      exact good_step hkeeps (.refl 0 _) (.inl rfl) fun e he => .inl he
  | vfsRmdir path =>
      have hkeeps := Vfs.Holding.rmdir h path (hremoves path rfl)
      exact good_step hkeeps (.refl 0 _) (.inl rfl) fun e he => .inl he
  | vfsRename oldPath newPath =>
      have hkeeps := Vfs.Holding.rename h oldPath newPath fun d st hlookup =>
        hremoves oldPath rfl d st hlookup trivial
      exact good_step hkeeps (.refl 0 _) (.inl rfl) fun e he => .inl he
  | dentryGet d =>
      refine good_step (h.get d) (.refl 0 _) (.inl rfl) fun e he => ?_
      rcases List.mem_cons.mp he with rfl | hmem
      · exact .inr ((grows_get s.vfs e).live e hvalid)
      · exact .inl hmem
  | dentryPut d =>
      exact good_step (h.put d) (.refl 0 _) (.inl rfl) fun e he => .inl (List.mem_of_mem_erase he)

/-! ## Runs -/

theorem VfsState.Good.run (h : s.Good)
    (run : Relation.ReflTransGen (VfsStep ops (VfsCall.Careful ops)) s s') : s'.Good := by
  induction run with
  | refl => exact h
  | tail _ step ih =>
      obtain ⟨call, hcall, rfl⟩ := step
      exact (ih.call hcall).1

/-- **No dentry is freed while something refers to it**: over any file systems, in every run of
careful callers, what is referred to is in use, and no call frees any of it. -/
theorem frees_unreferenced {s₀ : VfsState W} (hstart : s₀.Start)
    (run : Relation.ReflTransGen (VfsStep ops (VfsCall.Careful ops)) s₀ s)
    (step : VfsStep ops (VfsCall.Careful ops) s s') :
    FreesUnreferenced s s' ∧ ∀ d, Referenced s' d → s'.vfs.dc.live d = true := by
  obtain ⟨call, hcall, rfl⟩ := step
  obtain ⟨hgood, hfrees⟩ := (hstart.good.run run).call hcall
  exact ⟨hfrees, hgood.live⟩

/-! ## A file with one dentry -/

/-- Every name is one of the same file, whose dentry the file system returns again. -/
def linkFs : FileSystem Nat :=
  { nameFs fun _ => 2 with
    lookup := fun n live _ d _ => (⟨.ok (if live 0x80000000 then 0x80000000 else d), 2⟩, n)
    lookup_live := by
      intro n live dir d dentry r hd h
      cases h
      split
      · assumption
      · exact hd }

/-- Removals succeed. -/
def linkOps : VfsOps Nat where
  toFileSystem := linkFs
  hasCreate _ _ := true
  hasUnlink _ _ := true
  hasRmdir _ _ := true
  hasRename _ _ := true
  create n _ _ _ _ := (⟨0, 2⟩, n)
  unlink n _ _ dentry := (⟨0, dentry.dInode⟩, n)
  rmdir n _ _ dentry := (⟨0, dentry.dInode⟩, n)
  rename n _ _ dentry _ _ _ := (⟨0, dentry.dInode⟩, dentry.dInode, n)
  dDelete n _ _ := (none, n)
  fileCacheAlloc n live := (if live 0x80010000 then 0 else 0x80010000, n)
  iFop _ _ := none
  openFile n _ _ := (0, n)
  releaseFile n _ := n
  fileCacheAlloc_new := by
    intro n live
    simp only
    split
    · exact .inl rfl
    · rename_i h
      exact .inr (Bool.eq_false_of_not_eq_true h)

def nothingOpen : VfsState Nat where
  vfs := rootOnly
  files := fileInit (fun _ => ⟨0, 0, none, 0, 0, 0, 0⟩) ⟨id, id⟩
  held := []

theorem start_nothingOpen : nothingOpen.Start where
  sound := sound_rootOnly
  inv := ⟨Hashtable.valid_init 128, rfl, rfl, fun _ _ => rfl, fun _ _ h => absurd h List.not_mem_nil⟩
  files := fun _ => rfl
  held := rfl
  frees := rfl

/-- `/a` is open. -/
def openA : VfsState Nat := (VfsCall.vfsOpen [47, 97] 0).exec linkOps nothingOpen

/-- `/a` has been closed again. -/
def closedA : VfsState Nat := (VfsCall.vfsClose 0x80010000).exec linkOps openA

theorem not_referenced_closedA : ¬Referenced closedA 0x80000000 := by
  generalize hd : (0x80000000 : Addr) = d
  intro h
  cases h with
  | @file f live null =>
      have hlive : closedA.files.live f = Function.update (Function.update (fun _ => false)
          0x80010000 true) 0x80010000 false f := rfl
      rw [hlive, Function.update_idem, Function.update_apply, ite_self] at live
      cases live
  | caller mem => exact absurd mem List.not_mem_nil
  | @mount mnt mem =>
      obtain rfl : mnt = ⟨0x80001000, 0x80001000⟩ := List.mem_singleton.mp mem
      cases hd
  | @mountpoint mnt mem null =>
      obtain rfl : mnt = ⟨0x80001000, 0x80001000⟩ := List.mem_singleton.mp mem
      cases hd
  | @root mnt root =>
      cases root
      cases hd

/-- The state in which the file has been looked up again. -/
def foundA : Vfs Nat := (vfsPathLookup linkFs closedA.vfs 0 [47, 97] LOOKUP_FOLLOW).2

theorem childless_foundA : Childless foundA.dc 0x80000000 := by
  intro e he hne
  have hlive : foundA.dc.live e = Function.update (Function.update (Function.update
      (fun d : Addr => d == 0x80001000) 0x80000000 true) 0x80000100 true) 0x80000100 false e := rfl
  rw [hlive, Function.update_apply] at he
  split at he
  · cases he
  · rename_i hne'
    rw [Function.update_of_ne hne', Function.update_of_ne hne] at he
    obtain rfl := eq_of_beq he
    decide

/-- The file is opened, closed and removed. -/
theorem frees_unreferenced_closed : nothingOpen.Start
    ∧ Relation.ReflTransGen (VfsStep linkOps (VfsCall.Careful linkOps)) nothingOpen closedA
    ∧ ∃ s, VfsStep linkOps (VfsCall.Careful linkOps) closedA s ∧ FreesUnreferenced closedA s
      ∧ s.vfs.dc.live 0x80000000 = false := by
  have hopen : VfsStep linkOps (VfsCall.Careful linkOps) nothingOpen openA :=
    ⟨.vfsOpen [47, 97] 0, ⟨trivial, nofun⟩, rfl⟩
  have hlive : openA.files.live 0x80010000 = true := by decide
  have hclose : VfsStep linkOps (VfsCall.Careful linkOps) openA closedA :=
    ⟨.vfsClose 0x80010000, ⟨hlive, nofun⟩, rfl⟩
  have hunlink : VfsStep linkOps (VfsCall.Careful linkOps) closedA
      ((VfsCall.vfsUnlink [47, 97]).exec linkOps closedA) := by
    refine ⟨.vfsUnlink [47, 97], ⟨trivial, ?_⟩, rfl⟩
    rintro path ⟨⟩ d st hlookup - - -
    have hfound : vfsPathLookup linkFs closedA.vfs 0 [47, 97] LOOKUP_FOLLOW
        = (.ok 0x80000000, foundA) := rfl
    cases hfound.symm.trans hlookup
    exact ⟨not_referenced_closedA, childless_foundA⟩
  have hrun := (Relation.ReflTransGen.single hopen).tail hclose
  exact ⟨start_nothingOpen, hrun, _, hunlink, (frees_unreferenced start_nothingOpen hrun hunlink).1,
    by decide⟩

/-- The file is removed while it is open, and the dentry that it refers to is freed. -/
theorem not_frees_unreferenced : nothingOpen.Start
    ∧ VfsStep linkOps (fun s call => call.Valid s) nothingOpen openA
    ∧ ∃ s, VfsStep linkOps (fun s call => call.Valid s) openA s
      ∧ s.files.live 0x80010000 = true
      ∧ (s.files.file 0x80010000).fDentry = 0x80000000
      ∧ s.vfs.dc.live 0x80000000 = false ∧ ¬FreesUnreferenced openA s := by
  have hfrees : ((VfsCall.vfsUnlink [47, 97]).exec linkOps openA).vfs.frees.map FreeCall.d
      = [0x80000100, 0x80000000] := by decide
  have hlive : openA.files.live 0x80010000 = true := by decide
  have hdentry : (openA.files.file 0x80010000).fDentry = 0x80000000 := by decide
  refine ⟨start_nothingOpen, ⟨.vfsOpen [47, 97] 0, trivial, rfl⟩, _,
    ⟨.vfsUnlink [47, 97], trivial, rfl⟩, hlive, hdentry, by decide, ?_⟩
  rintro ⟨calls, heq, hcalls⟩
  have hnone : openA.vfs.frees = [] := by
    rw [← List.map_eq_nil_iff (f := FreeCall.d)]
    decide
  rw [hnone, List.nil_append] at heq
  rw [heq] at hfrees
  have hmem : (0x80000000 : Addr) ∈ calls.map FreeCall.d := by
    rw [hfrees]
    decide
  obtain ⟨c, hc, hd⟩ := List.mem_map.mp hmem
  have href : Referenced openA (openA.files.file 0x80010000).fDentry :=
    .file hlive (by rw [hdentry]; decide)
  refine hcalls c hc ?_
  rw [hd, ← hdentry]
  exact href

end NoobKernel.Fs
