import NoobKernel.Fs.LockDiscipline

set_option autoImplicit false

/-! # The count that `file_read` passes on

`file_read` shortens the count to what is left of the file if `pos + count > i_size`, a sum of 64
bits. For a count near the maximum the sum is less than the position, and the count is passed on
as it is (`clampedRead_iff`).

The count is observed in the log: the read operations of `noting` note the count they are called
with before they do anything else.
-/

namespace NoobKernel.Fs.Locked

open Misc Exec Mm Locking

variable {D R α : Type}

theorem emit_takes {A : Set (MemLock FsLock)} (r : R) :
    TakesOnly (D := D) A (emit r : FsM D R Unit) :=
  fun _ _ _ _ => ⟨fun _ _ => trivial, Same.refl _⟩

/-- The callback, after an event. -/
def Callback.noting (r : R) (callback : Callback D R α) : Callback D R α where
  run := do
    emit r
    callback.run
  quiet := Takes.bind (emit_takes r) fun _ => callback.quiet

/-- The operations, of which `read` notes its count first. -/
def noting (ops : Operations D (UInt64 ⊕ R)) : Operations D (UInt64 ⊕ R) :=
  { ops with
    read := fun file => (ops.read file).map fun callback buf count pos =>
      (callback buf count pos).noting (.inl count) }

/-- The count of the call of a read operation that a run begins with. -/
def countNoted : Outcome (Kernel (FsState D)) (UInt64 ⊕ R) Fault α → Option UInt64
  | .ok _ _ (.inl count :: _) => some count
  | .fault _ (.inl count :: _) => some count
  | _ => none

/-- `f_pos`, where it is not negative. -/
def filePos (s : FsState D) (file : Addr) : Nat := (s.files.file file).fPos.toNatClampNeg

section

variable (ops : Operations D (UInt64 ⊕ R)) (k : Kernel (FsState D)) (file buf : Addr)
  (count : UInt64)

/-- The count that `file_read` passes to the operation, if it calls it. -/
def countPassed : Option UInt64 := countNoted (fileRead (noting ops) file buf count k)

/-- A regular file that is open for reading, at a position that is not negative. -/
structure Readable (s : FsState D) (file : Addr) : Prop where
  ne_null : file ≠ 0
  inode : (s.files.file file).fInode ≠ 0
  access : (s.files.file file).fFlags &&& O_ACCMODE ≠ O_WRONLY
  regular : sIsReg (s.ic.inode (s.files.file file).fInode).iMode = true
  pos : 0 ≤ (s.files.file file).fPos

/-- What is passed on is at most what is left of the file, and nothing is at its end. -/
def ClampedRead : Prop :=
  ∀ passed, countPassed ops k file buf count = some passed →
    filePos k.ext file < (fileSize k.ext file).toNat
      ∧ passed.toNat ≤ (fileSize k.ext file).toNat - filePos k.ext file

/-- `file_read` gets as far as the comparison of the position. -/
def ReadStarts : Prop :=
  buf ≠ 0 ∧ count ≠ 0 ∧ (ops.read file).isSome ∧ k.ext.locked (.file file) = false

end

variable {ops : Operations D (UInt64 ⊕ R)} {k : Kernel (FsState D)} {file buf : Addr}
  {count : UInt64}

theorem countNoted_noting {β : Type} (callback : Callback D (UInt64 ⊕ R) α)
    (f : α → FsM D (UInt64 ⊕ R) β) :
    countNoted (((callback.noting (.inl count)).run >>= f) k) = some count := by
  have hnoted : (callback.noting (.inl count)).run k = (callback.run k).after [.inl count] := rfl
  cases hrun : callback.run k with
  | ok a k' log =>
      rw [hrun] at hnoted
      rw [bind_ok hnoted]
      cases f a k' <;> rfl
  | fault e log =>
      rw [hrun] at hnoted
      rw [bind_fault hnoted]
      rfl

theorem sIsDir_of_sIsReg {mode : UInt32} (h : sIsReg mode = true) : sIsDir mode = false := by
  unfold sIsReg at h
  unfold sIsDir
  rw [eq_of_beq h]
  rfl

theorem Readable.fileCheck (h : Readable k.ext file) (hbuf : buf ≠ 0) (hcount : count ≠ 0) :
    fileCheck k.ext file buf count O_WRONLY = none := by
  unfold Locked.fileCheck
  rw [if_neg (by simp [h.ne_null, hbuf, hcount]), if_neg h.inode, if_neg h.access,
    sIsDir_of_sIsReg h.regular]
  rfl

theorem spinlockAcquire_bind {l : FsLock} {f : Unit → FsM D R α} {k : Kernel (FsState D)}
    (h : k.ext.locked l = false) :
    (spinlockAcquire l >>= f) k = f () { k with
      ext := { k.ext with locked := Function.update k.ext.locked l true } } := by
  have hacquire : (spinlockAcquire l : FsM D R Unit) k = .ok () { k with
      ext := { k.ext with locked := Function.update k.ext.locked l true } } [] := by
    unfold spinlockAcquire
    rw [read_bind_apply, h]
    rfl
  rw [bind_ok hacquire, Outcome.after_nil]

theorem ite_run {c : Prop} [Decidable c] (x y : FsM D R α) (k : Kernel (FsState D)) :
    (if c then x else y) k = if c then x k else y k := by
  split <;> rfl

theorem spinlockAcquire_held {l : FsLock} {f : Unit → FsM D R α} {k : Kernel (FsState D)}
    (h : k.ext.locked l = true) : (spinlockAcquire l >>= f) k = .fault .lock [] := by
  have hacquire : (spinlockAcquire l : FsM D R Unit) k = .fault .lock [] := by
    unfold spinlockAcquire
    rw [read_bind_apply, h]
    rfl
  exact bind_fault hacquire

theorem spinlockRelease_bind {l : FsLock} {f : Unit → FsM D R α} {k : Kernel (FsState D)}
    (h : k.ext.locked l = true) :
    (spinlockRelease l >>= f) k = f () { k with
      ext := { k.ext with locked := Function.update k.ext.locked l false } } := by
  have hrelease : (spinlockRelease l : FsM D R Unit) k = .ok () { k with
      ext := { k.ext with locked := Function.update k.ext.locked l false } } [] := by
    unfold spinlockRelease
    rw [read_bind_apply, h]
    rfl
  rw [bind_ok hrelease, Outcome.after_nil]

/-- The count that is passed on, by the comparisons of the code. -/
theorem countPassed_of_starts (h : Readable k.ext file) (hstarts : ReadStarts ops k file buf count) :
    countPassed ops k file buf count =
      let pos := (k.ext.files.file file).fPos.toUInt64
      if fileSize k.ext file ≤ pos then none
      else some (if fileSize k.ext file < pos + count then fileSize k.ext file - pos else count) := by
  obtain ⟨hbuf, hcount, hread, hfree⟩ := hstarts
  obtain ⟨callback, hcallback⟩ := Option.isSome_iff_exists.mp hread
  have hnoting : (noting ops).read file
      = some fun buf count pos => (callback buf count pos).noting (.inl count) := by
    show (ops.read file).map _ = _
    rw [hcallback]
    rfl
  unfold countPassed fileRead
  rw [read_bind_apply, h.fileCheck hbuf hcount, hnoting]
  dsimp only
  rw [spinlockAcquire_bind hfree, read_bind_apply]
  dsimp only
  rw [ite_run]
  by_cases hend : fileSize k.ext file ≤ (k.ext.files.file file).fPos.toUInt64
  · rw [if_pos hend]
    refine (congrArg countNoted (if_pos hend)).trans ?_
    rw [spinlockRelease_bind (Function.update_self ..)]
    rfl
  · rw [if_neg hend]
    refine (congrArg countNoted (if_neg hend)).trans ?_
    exact countNoted_noting _ _

theorem countPassed_eq_none (h : ¬ReadStarts ops k file buf count) :
    countPassed ops k file buf count = none := by
  unfold countPassed fileRead
  rw [read_bind_apply]
  cases hcheck : fileCheck k.ext file buf count O_WRONLY with
  | some ret => rfl
  | none =>
      cases hread : ops.read file with
      | none =>
          have hnoting : (noting ops).read file = none := by
            show (ops.read file).map _ = _
            rw [hread]
            rfl
          rw [hnoting]
          rfl
      | some callback =>
          have hnoting : (noting ops).read file
              = some fun buf count pos => (callback buf count pos).noting (.inl count) := by
            show (ops.read file).map _ = _
            rw [hread]
            rfl
          rw [hnoting]
          -- only the lock is left as a reason, and a read under it never gets to the file system
          have hheld : k.ext.locked (.file file) = true := by
            by_contra hfree
            refine h ⟨?_, ?_, by rw [hread]; rfl, Bool.eq_false_iff.mpr hfree⟩
            · rintro rfl
              simp [Locked.fileCheck] at hcheck
            · rintro rfl
              simp [Locked.fileCheck] at hcheck
          dsimp only
          rw [spinlockAcquire_held hheld]
          rfl

theorem Readable.toNat_pos (h : Readable k.ext file) :
    (k.ext.files.file file).fPos.toUInt64.toNat = filePos k.ext file :=
  Int64.toNat_toUInt64_of_le h.pos

/-- **Reads are clamped** to the size of the file exactly where the operation is not called, or
the sum of position and count fits in 64 bits. -/
theorem clampedRead_iff (h : Readable k.ext file) :
    ClampedRead ops k file buf count ↔
      ¬ReadStarts ops k file buf count ∨ (fileSize k.ext file).toNat ≤ filePos k.ext file
        ∨ filePos k.ext file + count.toNat < 2 ^ 64 := by
  by_cases hstarts : ReadStarts ops k file buf count
  swap
  · refine iff_of_true (fun passed hpassed => ?_) (.inl hstarts)
    rw [countPassed_eq_none hstarts] at hpassed
    cases hpassed
  have hpos := h.toNat_pos
  unfold ClampedRead
  rw [countPassed_of_starts h hstarts]
  generalize (k.ext.files.file file).fPos.toUInt64 = pos at hpos
  generalize fileSize k.ext file = size
  generalize filePos k.ext file = position at hpos
  subst hpos
  have hsize := size.toNat_lt
  have hcount := count.toNat_lt
  dsimp only
  by_cases hend : size ≤ pos
  · rw [if_pos hend]
    have hend : size.toNat ≤ pos.toNat := hend
    exact iff_of_true (fun _ hpassed => by cases hpassed) (.inr (.inl hend))
  rw [if_neg hend]
  have hlt : pos.toNat < size.toNat := Nat.lt_of_not_le hend
  have hrest : (size - pos).toNat = size.toNat - pos.toNat :=
    UInt64.toNat_sub_of_le _ _ (Nat.le_of_lt hlt)
  have hsum : (pos + count).toNat = (pos.toNat + count.toNat) % 2 ^ 64 := UInt64.toNat_add _ _
  constructor
  · intro hclamped
    refine .inr (.inr (Nat.lt_of_not_le fun hwrap => ?_))
    -- the sum has wrapped, and is less than the position
    have hnot : ¬size < pos + count := by
      rw [UInt64.lt_iff_toNat_lt]
      omega
    rw [if_neg hnot] at hclamped
    have hle := (hclamped count rfl).2
    omega
  · rintro (hnot | hle | hfits) passed hpassed
    · exact absurd hstarts hnot
    · omega
    · refine ⟨hlt, ?_⟩
      cases hpassed
      split
      · exact hrest.le
      · rename_i hnot
        rw [UInt64.lt_iff_toNat_lt] at hnot
        omega

/-! ## A file of 100 bytes -/

/-- A file system that reads as much as it is asked for. -/
def greedyOps : Operations Nat (UInt64 ⊕ Unit) where
  allocInode _ := none
  destroyInode _ := none
  dirtyInode _ := none
  writeInode _ := none
  dropInode _ := none
  dRelease _ := none
  llseek _ := none
  read _ := some fun _ count pos => .update fun n => ((count.toNat, pos + count.toInt64), n + 1)
  write _ := none
  release _ := none

/-- The file at `64` is open at position 10, and the size of its inode is 100. -/
def hundredBytes : Kernel (FsState Nat) :=
  { bootState with
    ext := { bootState.ext with
      ic := { bootState.ext.ic with
        inode := fun _ => { newInode 0 with iMode := S_IFREG, iSize := 100 } }
      files := { bootState.ext.files with
        file := fun _ => ⟨192, 128, some ⟨false, false⟩, 10, O_RDONLY, S_IFREG, 1⟩ } } }

theorem readable_hundredBytes : Readable hundredBytes.ext 64 := by
  constructor <;> decide

/-- A count of 200 is shortened to 90. -/
theorem clampedRead_hundredBytes : ClampedRead greedyOps hundredBytes 64 4096 200 :=
  (clampedRead_iff readable_hundredBytes).mpr (.inr (.inr (by decide)))

/-- With the largest count the sum is 9, and the count is passed on. -/
theorem not_forall_clampedRead :
    ¬∀ (ops : Operations Nat (UInt64 ⊕ Unit)) (k : Kernel (FsState Nat)) (file buf : Addr)
      (count : UInt64), Readable k.ext file → ClampedRead ops k file buf count := by
  intro h
  have hclamped := h greedyOps hundredBytes 64 4096 (-1) readable_hundredBytes
  have hle := (hclamped (-1) rfl).2
  exact absurd hle (by decide)

end NoobKernel.Fs.Locked
