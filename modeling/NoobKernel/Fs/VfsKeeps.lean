import NoobKernel.Fs.FileLifetime
import NoobKernel.Fs.VfsInv

set_option autoImplicit false

/-! # What the operations of the VFS free

An operation frees dentries that it has made, and what it deletes. Over a state that holds a set
`R` of dentries it keeps them all, when the dentry it deletes is not one of them and has no
children.
-/

namespace NoobKernel.Fs

variable {W : Type} {ops : VfsOps W} {st st' : Vfs W} {R : Addr → Prop} {d : Addr}

/-! ## Paths -/

variable (ops) in
theorem Vfs.Holding.lookup (h : st.Holding R) (path : List UInt8) (flags : UInt32) :
    match vfsPathLookup ops.toFileSystem st 0 path flags with
    | (.ok d, st') => st.Keeps R st' ∧ st'.dc.live d = true
    | (.error _, st') => st.Keeps R st' := by
  have hspec := vfsPathLookup_spec ops.toFileSystem h.sound (.inl rfl : (0 : Addr) = 0 ∨ _) path flags
  have hi := inv_pathLookup ops.toFileSystem h.inv 0 path flags
  generalize vfsPathLookup ops.toFileSystem st 0 path flags = x at hspec hi ⊢
  obtain ⟨err | d, st₁⟩ := x
  · exact h.of_extends hspec.1 hi
  · obtain ⟨-, hsteps⟩ := hspec
    have hget := h.get (startOf st 0)
    exact ⟨hget.trans (hget.holding.of_extends hsteps.ext hi), hsteps.live⟩

variable (ops) in
theorem Vfs.Holding.parent (h : st.Holding R) (path : List UInt8) :
    match vfsPathParent ops.toFileSystem st 0 path with
    | (.ok (parent, _), st') => st.Keeps R st' ∧ st'.dc.live parent.dentry = true
    | (.error _, st') => st.Keeps R st' := by
  have hspec := vfsPathParent_spec ops.toFileSystem h.sound (.inl rfl : (0 : Addr) = 0 ∨ _) path
  have hi := inv_pathParent ops.toFileSystem h.inv 0 path
  generalize vfsPathParent ops.toFileSystem st 0 path = x at hspec hi ⊢
  obtain ⟨err | ⟨parent, last⟩, st₁⟩ := x
  · exact h.of_extends hspec hi
  · exact ⟨h.of_extends hspec.1 hi, hspec.2⟩

/-! ## Deletions -/

variable (ops) in
/-- Its `d_delete` operation may let the dentry go. -/
def Deletable (d : Addr) : Prop := ∃ w dentry, ¬(ops.dDelete w d dentry).1.any (· ≠ 0) = true

theorem Vfs.Holding.delete (h : st.Holding R) (hd : st.dc.live d = true)
    (hgo : Deletable ops d → ¬R d ∧ Childless st.dc d) : st.Keeps R (st.dentryDelete ops d) := by
  unfold Vfs.dentryDelete
  rw [if_neg (h.inv.live_ne_zero hd)]
  generalize hasked : ops.dDelete st.world d (st.dc.dentry d) = asked
  obtain ⟨ret, world⟩ := asked
  have hworld := h.world world
  simp only
  by_cases hret : ret.any (· ≠ 0) = true
  · rw [if_pos hret]
    exact hworld
  · rw [if_neg hret]
    obtain ⟨hR, hchild⟩ := hgo ⟨st.world, st.dc.dentry d, by rwa [hasked]⟩
    exact hworld.trans (hworld.holding.free ops.toFileSystem hd hR hchild true)

/-- The dentry has a directory, and the file system the operation to remove it there. -/
def Removable (hasOp : W → Addr → Bool) (st : Vfs W) (d : Addr) : Prop :=
  (st.dc.dentry d).dParent ≠ 0 ∧ (st.dc.dentry (st.dc.dentry d).dParent).dInode ≠ 0
    ∧ hasOp st.world (st.dc.dentry (st.dc.dentry d).dParent).dInode = true

variable (ops) in
/-- `vfs_unlink` asks the file system: there is an inode, which is not a directory. -/
def Unlinkable (st : Vfs W) (d : Addr) : Prop :=
  (st.dc.dentry d).dInode ≠ 0 ∧ sIsDir (ops.iMode st.world (st.dc.dentry d).dInode) = false
    ∧ Removable ops.hasUnlink st d

variable (ops) in
/-- `vfs_rmdir` asks the file system. -/
def Rmdirable (st : Vfs W) (d : Addr) : Prop :=
  isDirectory ops.toFileSystem st d = true ∧ Removable ops.hasRmdir st d

theorem Vfs.Holding.remove {hasOp : W → Addr → Bool} {op : W → Addr → Addr → Dentry → Done × W}
    (h : st.Holding R) (hd : st.dc.live d = true)
    (hgo : Removable hasOp st d → Deletable ops d →
      (∃ w dir dentry, 0 ≤ (op w dir d dentry).1.ret) → ¬R d ∧ Childless st.dc d) :
    st.Keeps R (vfsRemove ops hasOp op st d).2 := by
  unfold vfsRemove
  simp only
  by_cases hparent : (st.dc.dentry d).dParent = 0
      ∨ (st.dc.dentry (st.dc.dentry d).dParent).dInode = 0
  · rw [if_pos hparent]
    exact h.put d
  rw [if_neg hparent]
  by_cases hop : hasOp st.world (st.dc.dentry (st.dc.dentry d).dParent).dInode = false
  · rw [if_pos hop]
    exact h.put d
  rw [if_neg hop]
  generalize hdone : op st.world (st.dc.dentry (st.dc.dentry d).dParent).dInode d (st.dc.dentry d)
    = done
  have hfill := h.fill d done.1.inode done.2
  by_cases hret : done.1.ret < 0
  · rw [if_pos hret]
    exact hfill.trans (hfill.holding.put d)
  · rw [if_neg hret]
    refine hfill.trans (hfill.holding.delete hd fun hdelete => ?_)
    have hret' : 0 ≤ done.1.ret := Int.not_lt.mp hret
    rw [← hdone] at hret'
    rw [not_or] at hparent
    exact (hgo ⟨hparent.1, hparent.2, Bool.not_eq_false _ ▸ hop⟩ hdelete
      ⟨_, _, _, hret'⟩).imp_right fun hchild => hchild.setInode d done.1.inode

theorem Vfs.Holding.unlink (h : st.Holding R) (path : List UInt8)
    (hgo : ∀ d st', vfsPathLookup ops.toFileSystem st 0 path LOOKUP_FOLLOW = (.ok d, st') →
      Unlinkable ops st' d → Deletable ops d →
        (∃ w dir dentry, 0 ≤ (ops.unlink w dir d dentry).1.ret) → ¬R d ∧ Childless st'.dc d) : st.Keeps R (vfsUnlink ops st path).2 := by
  have hlookup := h.lookup ops path LOOKUP_FOLLOW
  unfold vfsUnlink
  generalize vfsPathLookup ops.toFileSystem st 0 path LOOKUP_FOLLOW = x at hlookup hgo ⊢
  obtain ⟨err | d, st₁⟩ := x
  · exact hlookup
  obtain ⟨hkeeps, hlive⟩ := hlookup
  refine hkeeps.trans ?_
  simp only
  split
  · exact hkeeps.holding.put d
  rename_i hinode
  split
  · exact hkeeps.holding.put d
  · rename_i hdir
    refine hkeeps.holding.remove hlive fun hremovable => ?_
    exact hgo d st₁ rfl ⟨hinode, Bool.not_eq_true _ ▸ hdir, hremovable⟩

theorem Vfs.Holding.rmdir (h : st.Holding R) (path : List UInt8)
    (hgo : ∀ d st', vfsPathLookup ops.toFileSystem st 0 path LOOKUP_FOLLOW = (.ok d, st') →
      Rmdirable ops st' d → Deletable ops d →
        (∃ w dir dentry, 0 ≤ (ops.rmdir w dir d dentry).1.ret) → ¬R d ∧ Childless st'.dc d) : st.Keeps R (vfsRmdir ops st path).2 := by
  have hlookup := h.lookup ops path LOOKUP_FOLLOW
  unfold vfsRmdir
  generalize vfsPathLookup ops.toFileSystem st 0 path LOOKUP_FOLLOW = x at hlookup hgo ⊢
  obtain ⟨err | d, st₁⟩ := x
  · exact hlookup
  obtain ⟨hkeeps, hlive⟩ := hlookup
  refine hkeeps.trans ?_
  simp only
  split
  · exact hkeeps.holding.put d
  · rename_i hdir
    refine hkeeps.holding.remove hlive fun hremovable => ?_
    exact hgo d st₁ rfl ⟨Bool.not_eq_false _ ▸ hdir, hremovable⟩

/-! ## Renames -/

variable (ops) in
theorem Vfs.Holding.renameTo {oldD newD : Addr} (h : st.Holding R) (newDir : Addr)
    (hold : st.dc.live oldD = true)
    (hgo : Deletable ops oldD → (∃ w dir dentry newDir newD newDentry,
      0 ≤ (ops.rename w dir oldD dentry newDir newD newDentry).1.ret) →
        ¬R oldD ∧ Childless st.dc oldD)
    (hnew : st.dc.live newD = true) (hR' : ¬R newD) (hchild' : Childless st.dc newD) :
    st.Keeps R (vfsRenameTo ops st oldD newDir newD).2 := by
  have hfree := h.free ops.toFileSystem hnew hR' hchild' false
  unfold vfsRenameTo
  simp only
  by_cases hparent : (st.dc.dentry oldD).dParent = 0
      ∨ (st.dc.dentry (st.dc.dentry oldD).dParent).dInode = 0
  · rw [if_pos hparent]
    exact hfree.trans (hfree.holding.put oldD)
  rw [if_neg hparent]
  by_cases hop : ops.hasRename st.world (st.dc.dentry (st.dc.dentry oldD).dParent).dInode = false
  · rw [if_pos hop]
    exact hfree.trans (hfree.holding.put oldD)
  rw [if_neg hop]
  generalize hdone : ops.rename st.world (st.dc.dentry (st.dc.dentry oldD).dParent).dInode oldD
    (st.dc.dentry oldD) newDir newD (st.dc.dentry newD) = done
  -- the operation has written both inodes
  have hfill := h.fill oldD done.1.inode done.2.2
  have hfill' := hfill.trans (hfill.holding.fill newD done.2.1 done.2.2)
  have hleaf' := (hchild'.setInode oldD done.1.inode).setInode newD done.2.1
  by_cases hret : done.1.ret < 0
  · rw [if_pos hret]
    have hfree' := hfill'.trans (hfill'.holding.free ops.toFileSystem hnew hR' hleaf' false)
    exact hfree'.trans (hfree'.holding.put oldD)
  · rw [if_neg hret]
    have hinsert := hfill'.trans (hfill'.holding.insert ops.toFileSystem (d := newD) hnew)
    have hlive := (hfill'.holding.sound.insert ops.toFileSystem (d := newD) hnew).1.grows.live
    have hret' : 0 ≤ done.1.ret := Int.not_lt.mp hret
    rw [← hdone] at hret'
    have hdelete := Vfs.Holding.delete hinsert.holding (hlive oldD hold) fun hdelete =>
      (hgo hdelete ⟨_, _, _, _, _, _, hret'⟩).imp_right fun hchild =>
        .insert ((hchild.setInode oldD done.1.inode).setInode newD done.2.1) newD
    have hkeeps := hinsert.trans hdelete
    exact hkeeps.trans (hkeeps.holding.put newD)

theorem Vfs.Holding.rename (h : st.Holding R) (oldPath newPath : List UInt8)
    (hgo : ∀ d st₁, vfsPathLookup ops.toFileSystem st 0 oldPath LOOKUP_FOLLOW = (.ok d, st₁) →
      Deletable ops d → (∃ w dir dentry newDir newD newDentry,
        0 ≤ (ops.rename w dir d dentry newDir newD newDentry).1.ret) →
          ¬R d ∧ ∀ parent last st₂, vfsPathParent ops.toFileSystem st₁ 0 newPath
            = (.ok (parent, last), st₂) → parent.dentry ≠ d ∧ Childless st₂.dc d) :
    st.Keeps R (vfsRename ops st oldPath newPath).2 := by
  have hlookup := h.lookup ops oldPath LOOKUP_FOLLOW
  unfold vfsRename
  generalize vfsPathLookup ops.toFileSystem st 0 oldPath LOOKUP_FOLLOW = x at hlookup hgo ⊢
  obtain ⟨err | oldD, st₁⟩ := x
  · exact hlookup
  obtain ⟨hkeeps, hold⟩ := hlookup
  have hleaf := hgo oldD st₁ rfl
  have hparent := hkeeps.holding.parent ops newPath
  have hspec := vfsPathParent_spec ops.toFileSystem hkeeps.holding.sound
    (.inl rfl : (0 : Addr) = 0 ∨ _) newPath
  simp only
  generalize vfsPathParent ops.toFileSystem st₁ 0 newPath = y at hparent hspec hleaf ⊢
  obtain ⟨err | ⟨newParent, newLast⟩, st₂⟩ := y
  · have hkeeps' := hkeeps.trans hparent
    exact hkeeps'.trans (hkeeps'.holding.put oldD)
  have hkeeps' := hkeeps.trans hparent.1
  have hold' := hspec.1.grows.live oldD hold
  refine hkeeps'.trans ?_
  simp only
  have h₂ := hkeeps'.holding
  -- the errors put the old dentry and the new parent
  have hput := h₂.put oldD
  have hputs := hput.trans (hput.holding.put newParent.dentry)
  by_cases hdir : isDirectory ops.toFileSystem st₂ newParent.dentry = false
  · rw [if_pos hdir]
    exact hputs
  rw [if_neg hdir]
  generalize halloc : st₂.dentryAlloc ops.toFileSystem newParent.dentry
    (st₂.dc.dentry newParent.dentry).dSb newLast.name = z
  obtain ⟨err | newD, st₃⟩ := z
  · have herr := h₂.alloc_error halloc
    have hput' := herr.trans (herr.holding.put oldD)
    exact hput'.trans (hput'.holding.put newParent.dentry)
  · have hnew := dentryAlloc_ok halloc
    have hkeeps₃ := h₂.alloc hparent.2 halloc
    have hto := hkeeps₃.holding.renameTo ops (st₃.dc.dentry newParent.dentry).dInode
      (hnew.grows.live oldD hold') ?_ hnew.live_self (hnew.notMem h₂) (hnew.childless h₂.sound)
    · have hkeeps₄ := hkeeps₃.trans hto
      exact hkeeps₄.trans (hkeeps₄.holding.put newParent.dentry)
    · intro hdelete hret
      obtain ⟨hR, hchild⟩ := hleaf hdelete hret
      obtain ⟨hne, hchild⟩ := hchild newParent newLast st₂ rfl
      exact ⟨hR, hnew.childless_of hchild hne⟩

/-! ## Opening -/

variable (ops) in
theorem Vfs.Holding.openCreate (h : st.Holding R) (path : List UInt8) :
    match vfsOpenCreate ops st path with
    | (.ok d, st') => st.Keeps R st' ∧ st'.dc.live d = true
    | (.error _, st') => st.Keeps R st' := by
  have hparent := h.parent ops path
  unfold vfsOpenCreate
  generalize vfsPathParent ops.toFileSystem st 0 path = x at hparent ⊢
  obtain ⟨err | ⟨parent, last⟩, st₁⟩ := x
  · exact hparent
  obtain ⟨hkeeps, hlive⟩ := hparent
  -- from here on every way out puts the parent, but for a parent that is null
  have hput := hkeeps.trans (hkeeps.holding.put parent.dentry)
  simp only
  by_cases hnull : parent.dentry = 0
  · rw [if_pos hnull]
    exact hkeeps
  rw [if_neg hnull]
  by_cases hinode : (st₁.dc.dentry parent.dentry).dInode = 0
  · rw [if_pos hinode]
    exact hput
  rw [if_neg hinode]
  by_cases hdir : sIsDir (ops.iMode st₁.world (st₁.dc.dentry parent.dentry).dInode) = false
  · rw [if_pos hdir]
    exact hput
  rw [if_neg hdir]
  by_cases hop : ops.hasCreate st₁.world (st₁.dc.dentry parent.dentry).dInode = false
  · rw [if_pos hop]
    exact hput
  rw [if_neg hop]
  generalize halloc : st₁.dentryAlloc ops.toFileSystem parent.dentry
    (st₁.dc.dentry parent.dentry).dSb last.name = y
  obtain ⟨err | d, st₂⟩ := y
  · have herr := hkeeps.trans (hkeeps.holding.alloc_error halloc)
    exact herr.trans (herr.holding.put parent.dentry)
  have hnew := dentryAlloc_ok halloc
  have hkeeps₂ := hkeeps.trans (hkeeps.holding.alloc hlive halloc)
  simp only
  generalize ops.create st₂.world (st₁.dc.dentry parent.dentry).dInode d (st₂.dc.dentry d)
    (S_IFREG ||| 0o644) = done
  have hfill := hkeeps₂.trans (hkeeps₂.holding.fill d done.1.inode done.2)
  by_cases hret : done.1.ret < 0
  · rw [if_pos hret]
    have hchild := (hnew.childless hkeeps.holding.sound).setInode d done.1.inode
    have hfree := hfill.trans (hfill.holding.free ops.toFileSystem hnew.live_self
      (hnew.notMem hkeeps.holding) hchild false)
    exact hfree.trans (hfree.holding.put parent.dentry)
  · rw [if_neg hret]
    have hext := (hfill.holding.sound.insert ops.toFileSystem (d := d) hnew.live_self).1
    have hinsert := hfill.trans (hfill.holding.insert ops.toFileSystem (d := d) hnew.live_self)
    exact ⟨hinsert.trans (hinsert.holding.put parent.dentry),
      (grows_put _ parent.dentry).live d (hext.grows.live d hnew.live_self)⟩

variable (ops) in
theorem Vfs.Holding.openDentry (h : st.Holding R) (path : List UInt8) (flags : UInt32) :
    match vfsOpenDentry ops st path flags with
    | (.ok d, st') => st.Keeps R st' ∧ st'.dc.live d = true
    | (.error _, st') => st.Keeps R st' := by
  have hlookup := h.lookup ops path LOOKUP_FOLLOW
  unfold vfsOpenDentry
  generalize vfsPathLookup ops.toFileSystem st 0 path LOOKUP_FOLLOW = x at hlookup ⊢
  obtain ⟨err | d, st₁⟩ := x
  · simp only
    by_cases hcreat : flags &&& O_CREAT ≠ 0 ∧ err = -ENOENT
    · rw [if_pos hcreat]
      have hcreate := hlookup.holding.openCreate ops path
      generalize vfsOpenCreate ops st₁ path = y at hcreate ⊢
      obtain ⟨err' | d, st₂⟩ := y
      · exact hlookup.trans hcreate
      · exact ⟨hlookup.trans hcreate.1, hcreate.2⟩
    · rw [if_neg hcreat]
      exact hlookup
  · exact hlookup

/-! ## Files -/

/-- Whatever file is allocated afterwards was so before, with the same dentry, or it is a file of
`d`. -/
def FilesOf (d : Addr) (files files' : Files) : Prop :=
  ∀ f, files'.live f = true → (files'.file f).fDentry = d
    ∨ files.live f = true ∧ (files'.file f).fDentry = (files.file f).fDentry

/-- What `file_open` and `file_close` do to the references of a dentry. -/
def Counts (d : Addr) (dc dc' : Dcache) : Prop :=
  dc' = dc ∨ dc' = dentryGet dc d ∨ dc' = dentryPut dc d ∨ dc' = dentryPut (dentryGet dc d) d

theorem fileOpen_effect {files : Files} {memory : Addr}
    (hnew : memory = 0 ∨ files.live memory = false) (dc : Dcache) (iMode flags : UInt32)
    (iFop : Option FileOperations) (ret : Int) (d : Addr) :
    FilesOf d files (fileOpen files dc memory iMode iFop ret d flags).2.1
      ∧ Counts d dc (fileOpen files dc memory iMode iFop ret d flags).2.2 := by
  unfold fileOpen fileAlloc
  simp only
  by_cases hinode : d = 0 ∨ (dc.dentry d).dInode = 0
  · rw [if_pos hinode]
    exact ⟨fun f hf => .inr ⟨hf, rfl⟩, .inl rfl⟩
  rw [if_neg hinode]
  by_cases hmemory : memory = 0
  · rw [if_pos hmemory]
    exact ⟨fun f hf => .inr ⟨hf, rfl⟩, .inl rfl⟩
  rw [if_neg hmemory]
  simp only
  split
  · -- the `open` operation fails, and the file goes back
    refine ⟨fun f hf => ?_, .inr (.inr (.inr rfl))⟩
    unfold fileFree at hf ⊢
    rw [if_neg hmemory] at hf ⊢
    have hne : f ≠ memory := by
      rintro rfl
      simp at hf
    simp only [Function.update_of_ne hne] at hf ⊢
    exact .inr ⟨hf, trivial⟩
  · refine ⟨fun f hf => ?_, .inr (.inl rfl)⟩
    by_cases hne : f = memory
    · subst hne
      exact .inl (by simp)
    · simp only [Function.update_of_ne hne] at hf ⊢
      exact .inr ⟨hf, trivial⟩

theorem drop_fDentry (files : Files) (f g : Addr) :
    ((files.drop f).file g).fDentry = (files.file g).fDentry := by
  by_cases hg : g = f
  · subst hg
    rw [drop_file]
  · simp [Files.drop, Files.setRefcnt, Files.record, hg]

theorem fileClose_effect (files : Files) (dc : Dcache) (f d : Addr) :
    FilesOf d files (fileClose files dc f).2.1
      ∧ Counts (files.file f).fDentry dc (fileClose files dc f).2.2 := by
  by_cases hf : f = 0
  · unfold fileClose
    rw [if_pos hf]
    exact ⟨fun g hg => .inr ⟨hg, rfl⟩, .inl rfl⟩
  have heq := fileClose_eq hf (files, dc)
  simp only at heq
  rw [heq]
  split
  · refine ⟨fun g hg => .inr ⟨?_, drop_fDentry files f g⟩, .inr (.inr (.inl rfl))⟩
    have hne : g ≠ f := by
      rintro rfl
      have hclosed : (closeFile g (files, dc)).1.live g = false := by simp [closeFile]
      rw [hclosed] at hg
      cases hg
    have hother : (closeFile f (files, dc)).1.live g = files.live g := by simp [closeFile, hne]
    exact hother.symm.trans hg
  · exact ⟨fun g hg => .inr ⟨hg, drop_fDentry files f g⟩, .inl rfl⟩

theorem Vfs.Holding.counts (h : st.Holding R) {dc : Dcache} (hdc : Counts d st.dc dc) (world : W) :
    st.Keeps R { st with dc := dc, world := world } := by
  rcases hdc with rfl | rfl | rfl | rfl
  · exact h.world world
  · exact (h.get d).trans ((h.get d).holding.world world)
  · exact (h.put d).trans ((h.put d).holding.world world)
  · have hkeeps := (h.get d).trans ((h.get d).holding.put d)
    exact hkeeps.trans (hkeeps.holding.world world)

end NoobKernel.Fs
