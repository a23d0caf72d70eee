import NoobKernel.Fs.Locked

set_option autoImplicit false

/-! # Descriptor tables (`fs/fd_table.c`)

The functions on one table, which is there and whose lock is free. The sizes of a table are the
powers of two from `NR_OPEN_DEFAULT` to `NR_OPEN_MAX`, so the half of the new size that `fd_alloc`
returns when it has enlarged a table is the old size, the index of the first new entry
(`allocPreserves`).

`fd_table_dup` copies no more entries than a new table has, and drops those behind them
(`duplicates_iff`).
-/

namespace NoobKernel.Fs

open Locked (NR_OPEN_MAX freeFd growFdTable)

/-- `memory` is whether `kmalloc` has memory for a larger array. -/
def fdAlloc (fdt : FdTable) (memory : Bool) : Int × FdTable :=
  match freeFd fdt with
  | some fd => (fd, { fdt with openFds := fdt.openFds + 1 })
  | none =>
      if fdt.maxFds < NR_OPEN_MAX ∧ memory then
        let newMax := if NR_OPEN_MAX < fdt.maxFds * 2 then NR_OPEN_MAX else fdt.maxFds * 2
        ((newMax.toNat / 2 : Nat), growFdTable fdt newMax)
      else (-EMFILE, fdt)

/-- The descriptor is not one of the table. -/
def FdTable.outside (fdt : FdTable) (fd : Int) : Prop := fd < 0 ∨ fdt.maxFds.toNat ≤ fd.toNat

instance (fdt : FdTable) (fd : Int) : Decidable (fdt.outside fd) := inferInstanceAs (Decidable (_ ∨ _))

def fdInstall (fdt : FdTable) (fd : Int) (file : Addr) : Int × FdTable :=
  if file = 0 ∨ fdt.outside fd then (-EINVAL, fdt)
  else if fdt.fds fd.toNat ≠ 0 then (-EBADF, fdt)
  else
    (0, { fdt with fds := Function.update fdt.fds fd.toNat file, openFds := fdt.openFds + 1 })

def fdGet (fdt : FdTable) (files : Files) (fd : Int) : Addr × Files :=
  if fdt.outside fd then (0, files) else (fdt.fds fd.toNat, fileGet files (fdt.fds fd.toNat))

/-- What the loop of `fd_table_dup` does with one entry. -/
def fdTableDupEntry (fdt : FdTable) (s : FdTable × Files) (i : Nat) : FdTable × Files :=
  if fdt.fds i ≠ 0 then
    ({ s.1 with fds := Function.update s.1.fds i (fdt.fds i), openFds := s.1.openFds + 1 },
      fileGet s.2 (fdt.fds i))
  else s

/-- The new table, if `fd_table_alloc` returns one. -/
def fdTableDup (fdt : FdTable) (files : Files) : FdTable × Files :=
  (List.range (min fdt.maxFds.toNat fdTableAlloc.maxFds.toNat)).foldl (fdTableDupEntry fdt)
    (fdTableAlloc, files)

/-- How many of the first `n` entries are not `NULL`. -/
def FdTable.installed (fdt : FdTable) (n : Nat) : Nat :=
  (List.range n).countP fun i => fdt.fds i ≠ 0

/-- How many of the first `n` entries are the file. -/
def FdTable.naming (fdt : FdTable) (f : Addr) (n : Nat) : Nat :=
  (List.range n).countP fun i => fdt.fds i = f

/-- The tables that the calls lead to. -/
inductive FdReach : FdTable → Prop
  | fresh : FdReach fdTableAlloc
  | alloc {fdt : FdTable} (h : FdReach fdt) (memory : Bool) : FdReach (fdAlloc fdt memory).2
  | install {fdt : FdTable} (h : FdReach fdt) (fd : Int) (file : Addr) :
      FdReach (fdInstall fdt fd file).2
  | free {fdt : FdTable} (h : FdReach fdt) (files : Files) (dc : Dcache) (fd : Int) :
      FdReach (fdFree fdt files dc fd).1
  | dup {fdt : FdTable} (h : FdReach fdt) (files : Files) : FdReach (fdTableDup fdt files).1

variable {fdt fdt' : FdTable} {files : Files} {dc : Dcache}

/-! ## What the calls do -/

theorem freeFd_eq_some {fd : Nat} :
    freeFd fdt = some fd ↔ fd < fdt.maxFds.toNat ∧ fdt.fds fd = 0 ∧ ∀ i < fd, fdt.fds i ≠ 0 := by
  unfold freeFd
  rw [List.find?_range_eq_some]
  simp only [decide_eq_true_eq, List.mem_range, Bool.not_eq_eq_eq_not, Bool.not_true,
    decide_eq_false_iff_not]
  tauto

theorem freeFd_eq_none : freeFd fdt = none ↔ ∀ i < fdt.maxFds.toNat, fdt.fds i ≠ 0 := by
  unfold freeFd
  rw [List.find?_range_eq_none]
  simp only [Bool.not_eq_eq_eq_not, Bool.not_true, decide_eq_false_iff_not]

/-- The size of the table that a full one is copied to. -/
def newMaxFds (max : UInt32) : UInt32 := if NR_OPEN_MAX < max * 2 then NR_OPEN_MAX else max * 2

/-- `fd_alloc`, by cases. -/
theorem fdAlloc_cases (fdt : FdTable) (memory : Bool) :
    (∃ fd : Nat, freeFd fdt = some fd
      ∧ fdAlloc fdt memory = ((fd : Int), { fdt with openFds := fdt.openFds + 1 }))
    ∨ (freeFd fdt = none ∧ fdt.maxFds < NR_OPEN_MAX ∧ fdAlloc fdt memory
      = ((((newMaxFds fdt.maxFds).toNat / 2 : Nat) : Int),
        growFdTable fdt (newMaxFds fdt.maxFds)))
    ∨ (freeFd fdt = none ∧ (NR_OPEN_MAX ≤ fdt.maxFds ∨ memory = false)
      ∧ fdAlloc fdt memory = (-EMFILE, fdt)) := by
  unfold fdAlloc
  cases hfree : freeFd fdt with
  | some fd => exact .inl ⟨fd, rfl, rfl⟩
  | none =>
      dsimp only
      split
      · rename_i hgrow
        exact .inr (.inl ⟨rfl, hgrow.1, rfl⟩)
      · rename_i hfull
        refine .inr (.inr ⟨rfl, ?_, rfl⟩)
        rw [← UInt32.not_lt]
        by_contra hnot
        push Not at hnot
        exact hfull ⟨hnot.1, by simpa using hnot.2⟩

theorem fdInstall_cases (fdt : FdTable) (fd : Int) (file : Addr) :
    (fdt.outside fd ∨ file = 0) ∧ fdInstall fdt fd file = (-EINVAL, fdt)
    ∨ (¬fdt.outside fd ∧ fdt.fds fd.toNat ≠ 0) ∧ fdInstall fdt fd file = (-EBADF, fdt)
    ∨ (¬fdt.outside fd ∧ file ≠ 0 ∧ fdt.fds fd.toNat = 0) ∧ fdInstall fdt fd file
      = (0, { fdt with
        fds := Function.update fdt.fds fd.toNat file, openFds := fdt.openFds + 1 }) := by
  unfold fdInstall
  split
  · rename_i hinvalid
    exact .inl ⟨hinvalid.symm, rfl⟩
  · rename_i hvalid
    push Not at hvalid
    split
    · rename_i htaken
      exact .inr (.inl ⟨⟨hvalid.2, htaken⟩, rfl⟩)
    · rename_i hfree
      exact .inr (.inr ⟨⟨hvalid.2, hvalid.1, not_not.mp hfree⟩, rfl⟩)

theorem fdInstall_empty {fd : Int} {file : Addr} (hfile : file ≠ 0) (hin : ¬fdt.outside fd)
    (hempty : fdt.fds fd.toNat = 0) : fdInstall fdt fd file
      = (0, { fdt with
        fds := Function.update fdt.fds fd.toNat file, openFds := fdt.openFds + 1 }) := by
  unfold fdInstall
  rw [if_neg (not_or.mpr ⟨hfile, hin⟩), if_neg (not_not.mpr hempty)]

/-- What `fd_free` does to the table, whatever becomes of the file. -/
theorem fdFree_table (fdt : FdTable) (files : Files) (dc : Dcache) (fd : Int) :
    (fdFree fdt files dc fd).1 = if fdt.outside fd ∨ fdt.fds fd.toNat = 0 then fdt
      else { fdt with fds := Function.update fdt.fds fd.toNat 0, openFds := fdt.openFds - 1 } := by
  unfold fdFree
  by_cases hout : fdt.outside fd
  · rw [if_pos (show fd < 0 ∨ _ from hout), if_pos (.inl hout)]
  · rw [if_neg (show ¬(fd < 0 ∨ _) from hout)]
    by_cases hempty : fdt.fds fd.toNat = 0
    · dsimp only
      rw [if_neg (not_not.mpr hempty), if_pos (.inr hempty)]
    · dsimp only
      rw [if_pos hempty, if_neg (not_or.mpr ⟨hout, hempty⟩)]

/-- The state of the loop of `fd_table_dup` after `n` rounds. -/
structure Copied (fdt : FdTable) (files : Files) (n : Nat) (s : FdTable × Files) : Prop where
  size : s.1.maxFds = NR_OPEN_DEFAULT
  fds : ∀ i, s.1.fds i = if i < n then fdt.fds i else 0
  openFds : s.1.openFds = UInt32.ofNat (fdt.installed n)
  refcnt : ∀ f ≠ 0, (s.2.file f).fRefcnt
    = (files.file f).fRefcnt + UInt32.ofNat (fdt.naming f n)

theorem installed_succ (fdt : FdTable) (n : Nat) :
    fdt.installed (n + 1) = fdt.installed n + if fdt.fds n ≠ 0 then 1 else 0 := by
  unfold FdTable.installed
  rw [List.range_succ, List.countP_append, List.countP_singleton]
  simp only [decide_eq_true_eq]

theorem naming_succ (fdt : FdTable) (f : Addr) (n : Nat) :
    fdt.naming f (n + 1) = fdt.naming f n + if fdt.fds n = f then 1 else 0 := by
  unfold FdTable.naming
  rw [List.range_succ, List.countP_append, List.countP_singleton]
  simp only [decide_eq_true_eq]

theorem fileGet_refcnt {g : Addr} (hg : g ≠ 0) (f : Addr) :
    ((fileGet files g).file f).fRefcnt
      = (files.file f).fRefcnt + if g = f then 1 else 0 := by
  unfold fileGet Files.setRefcnt
  rw [if_neg hg]
  dsimp only
  by_cases heq : g = f
  · rw [if_pos heq, heq, Function.update_self]
  · rw [if_neg heq, Function.update_of_ne (Ne.symm heq), UInt32.add_zero]

theorem Copied.next {n : Nat} {s : FdTable × Files} (h : Copied fdt files n s) :
    Copied fdt files (n + 1) (fdTableDupEntry fdt s n) := by
  unfold fdTableDupEntry
  by_cases hfile : fdt.fds n ≠ 0
  · -- the entry names a file: it is copied, marked as open, and one reference more is taken
    rw [if_pos hfile]
    refine ⟨h.size, fun i => ?_, ?_, fun f hf => ?_⟩
    · dsimp only
      rw [Function.update_apply, h.fds i]
      rcases Nat.lt_trichotomy i n with hlt | rfl | hlt
      · rw [if_neg hlt.ne, if_pos hlt, if_pos (Nat.lt_succ_of_lt hlt)]
      · rw [if_pos rfl, if_pos (Nat.lt_succ_self i)]
      · rw [if_neg hlt.ne', if_neg (Nat.not_lt.mpr hlt.le), if_neg (by omega)]
    · dsimp only
      rw [h.openFds, installed_succ, if_pos hfile, UInt32.ofNat_add]
      rfl
    · dsimp only
      rw [fileGet_refcnt hfile, h.refcnt f hf, naming_succ]
      split
      · rw [UInt32.ofNat_add, ← UInt32.add_assoc]
        rfl
      · rw [UInt32.add_zero, Nat.add_zero]
  · rw [if_neg hfile]
    have hempty : fdt.fds n = 0 := not_not.mp hfile
    refine ⟨h.size, fun i => ?_, ?_, fun f hf => ?_⟩
    · rw [h.fds i]
      rcases Nat.lt_trichotomy i n with hlt | rfl | hlt
      · rw [if_pos hlt, if_pos (Nat.lt_succ_of_lt hlt)]
      · rw [if_neg (Nat.lt_irrefl i), if_pos (Nat.lt_succ_self i), hempty]
      · rw [if_neg (Nat.not_lt.mpr hlt.le), if_neg (by omega)]
    · rw [h.openFds, installed_succ, if_neg hfile, Nat.add_zero]
    · rw [h.refcnt f hf, naming_succ, hempty, if_neg (Ne.symm hf), Nat.add_zero]

theorem copied_fdTableDup (fdt : FdTable) (files : Files) :
    Copied fdt files (min fdt.maxFds.toNat NR_OPEN_DEFAULT.toNat) (fdTableDup fdt files) := by
  have hloop : ∀ n, Copied fdt files n
      ((List.range n).foldl (fdTableDupEntry fdt) (fdTableAlloc, files)) := by
    intro n
    induction n with
    | zero =>
        exact ⟨rfl, fun i => (if_neg (Nat.not_lt_zero i)).symm, rfl,
          fun f _ => (UInt32.add_zero _).symm⟩
    | succ n ih =>
        rw [List.range_succ, List.foldl_append]
        exact ih.next
  exact hloop _

/-! ## Sizes -/

/-- The sizes of a table. -/
def fdSizes : List UInt32 := [32, 64, 128, 256, 512, 1024]

theorem mem_fdSizes {max : UInt32} : max ∈ fdSizes
    ↔ max = 32 ∨ max = 64 ∨ max = 128 ∨ max = 256 ∨ max = 512 ∨ max = 1024 := by
  simp only [fdSizes, List.mem_cons, List.not_mem_nil, or_false]

theorem fdSizes_le : ∀ max ∈ fdSizes, max ≤ NR_OPEN_MAX := by
  intro max hmax
  rcases mem_fdSizes.mp hmax with rfl | rfl | rfl | rfl | rfl | rfl <;> decide

theorem fdSizes_ge : ∀ max ∈ fdSizes, NR_OPEN_DEFAULT ≤ max := by
  intro max hmax
  rcases mem_fdSizes.mp hmax with rfl | rfl | rfl | rfl | rfl | rfl <;> decide

/-- A larger table has another of the sizes, and its second half is new. -/
theorem newMaxFds_spec : ∀ max ∈ fdSizes, max < NR_OPEN_MAX → newMaxFds max ∈ fdSizes
    ∧ (newMaxFds max).toNat / 2 = max.toNat ∧ max.toNat < (newMaxFds max).toNat := by
  intro max hmax
  rcases mem_fdSizes.mp hmax with rfl | rfl | rfl | rfl | rfl | rfl <;> decide

theorem fdAlloc_size (hsize : fdt.maxFds ∈ fdSizes) (memory : Bool) :
    (fdAlloc fdt memory).2.maxFds ∈ fdSizes := by
  rcases fdAlloc_cases fdt memory with ⟨fd, -, heq⟩ | ⟨-, hlt, heq⟩ | ⟨-, -, heq⟩
  · rwa [heq]
  · rw [heq]
    exact (newMaxFds_spec _ hsize hlt).1
  · rwa [heq]

theorem fdInstall_size (fdt : FdTable) (fd : Int) (file : Addr) :
    (fdInstall fdt fd file).2.maxFds = fdt.maxFds := by
  rcases fdInstall_cases fdt fd file with ⟨-, heq⟩ | ⟨-, heq⟩ | ⟨-, heq⟩ <;> rw [heq]

theorem fdFree_size (fdt : FdTable) (files : Files) (dc : Dcache) (fd : Int) :
    (fdFree fdt files dc fd).1.maxFds = fdt.maxFds := by
  rw [fdFree_table]
  split <;> rfl

theorem FdReach.size (h : FdReach fdt) : fdt.maxFds ∈ fdSizes := by
  induction h with
  | fresh => decide
  | alloc _ memory ih => exact fdAlloc_size ih memory
  | install _ fd file ih => rwa [fdInstall_size]
  | free _ files dc fd ih => rwa [fdFree_size]
  | dup _ files _ =>
      rw [(copied_fdTableDup _ files).size]
      decide

/-! ## A table that fills up -/

/-- The first `n` descriptors have been allocated and installed, for the file at `64`. -/
def filled (n : Nat) : FdTable where
  fds i := if i < n then 64 else 0
  maxFds := NR_OPEN_DEFAULT
  openFds := UInt32.ofNat (2 * n)

/-- The same, and the next descriptor has been allocated. -/
def filledAllocated (n : Nat) : FdTable := ⟨(filled n).fds, NR_OPEN_DEFAULT, (filled n).openFds + 1⟩

theorem fdAlloc_filled {n : Nat} (hn : n < 32) (memory : Bool) :
    fdAlloc (filled n) memory = ((n : Int), filledAllocated n) := by
  have hfree : freeFd (filled n) = some n := by
    refine freeFd_eq_some.mpr ⟨hn, if_neg (Nat.lt_irrefl n), fun i hi => ?_⟩
    show (if i < n then (64 : Addr) else 0) ≠ 0
    rw [if_pos hi]
    decide
  unfold fdAlloc
  rw [hfree]
  rfl

theorem fdInstall_filled {n : Nat} (hn : n < 32) :
    fdInstall (filledAllocated n) n 64 = (0, filled (n + 1)) := by
  have hfile : (64 : Addr) ≠ 0 := by decide
  have hin : ¬(filledAllocated n).outside n := by
    rintro (hneg | hle)
    · omega
    · exact absurd hn (Nat.not_lt.mpr hle)
  have hfree : (filledAllocated n).fds (n : Int).toNat = 0 := if_neg (Nat.lt_irrefl n)
  have hfds : Function.update (filled n).fds (n : Int).toNat 64 = (filled (n + 1)).fds := by
    funext i
    rw [Int.toNat_natCast, Function.update_apply]
    show (if i = n then (64 : Addr) else if i < n then 64 else 0) = if i < n + 1 then 64 else 0
    rcases Nat.lt_trichotomy i n with hlt | rfl | hlt
    · rw [if_neg hlt.ne, if_pos hlt, if_pos (Nat.lt_succ_of_lt hlt)]
    · rw [if_pos rfl, if_pos (Nat.lt_succ_self i)]
    · rw [if_neg hlt.ne', if_neg (Nat.not_lt.mpr hlt.le), if_neg (by omega)]
  have hcount : (filled n).openFds + 1 + 1 = (filled (n + 1)).openFds := by
    show UInt32.ofNat (2 * n) + 1 + 1 = UInt32.ofNat (2 * n + 1 + 1)
    rw [UInt32.ofNat_add, UInt32.ofNat_add]
    rfl
  rw [fdInstall_empty hfile hin hfree]
  show (0, FdTable.mk (Function.update (filled n).fds _ 64) _ ((filled n).openFds + 1 + 1)) = _
  rw [hfds, hcount]
  rfl

theorem fdReach_filled {n : Nat} (hn : n ≤ 32) : FdReach (filled n) := by
  induction n with
  | zero => exact FdReach.fresh
  | succ n ih =>
      have hreach := ((ih (Nat.le_of_succ_le hn)).alloc true).install n 64
      rw [fdAlloc_filled hn, fdInstall_filled hn] at hreach
      exact hreach

/-- The table after the next `fd_alloc`, with the file installed once more. -/
def spilled : FdTable := (fdInstall (fdAlloc (filled 32) true).2 32 64).2

theorem fdReach_spilled : FdReach spilled := ((fdReach_filled le_rfl).alloc true).install 32 64

/-! ## `fd_alloc` -/

/-- A descriptor that is returned is an empty entry, the entries of the table are as they were, new
ones are empty, and there is no descriptor only if the table is full and cannot grow. -/
structure AllocPreserves (fdt : FdTable) (memory : Bool) : Prop where
  returned : 0 ≤ (fdAlloc fdt memory).1 →
    (fdAlloc fdt memory).1 < (fdAlloc fdt memory).2.maxFds.toNat
      ∧ (fdAlloc fdt memory).2.fds (fdAlloc fdt memory).1.toNat = 0
  entries : ∀ i < fdt.maxFds.toNat, (fdAlloc fdt memory).2.fds i = fdt.fds i
  grows : fdt.maxFds ≤ (fdAlloc fdt memory).2.maxFds
  empty : ∀ i < (fdAlloc fdt memory).2.maxFds.toNat, fdt.maxFds.toNat ≤ i →
    (fdAlloc fdt memory).2.fds i = 0
  bounded : (fdAlloc fdt memory).2.maxFds ≤ NR_OPEN_MAX
  fails : (fdAlloc fdt memory).1 < 0 → (fdAlloc fdt memory).1 = -EMFILE
  full : (fdAlloc fdt memory).1 = -EMFILE → (∀ i < fdt.maxFds.toNat, fdt.fds i ≠ 0)
    ∧ (fdt.maxFds = NR_OPEN_MAX ∨ memory = false) ∧ (fdAlloc fdt memory).2 = fdt

/-- **Growth preserves the table**, from every table that is reached. -/
theorem allocPreserves (h : FdReach fdt) (memory : Bool) : AllocPreserves fdt memory := by
  have hsize := h.size
  have hbounded := fdSizes_le _ (fdAlloc_size hsize memory)
  have hno : ∀ fd : Nat, (fd : Int) ≠ -EMFILE := fun fd heq => by
    have hneg : -EMFILE < 0 := by decide
    omega
  rcases fdAlloc_cases fdt memory with ⟨fd, hfree, heq⟩ | ⟨hnone, hlt, heq⟩ | ⟨hnone, hstuck, heq⟩
  · -- a free descriptor below `max_fds`: the table does not grow
    obtain ⟨hmax, hempty, -⟩ := freeFd_eq_some.mp hfree
    rw [heq] at hbounded
    constructor <;> rw [heq]
    · exact fun _ => ⟨Int.ofNat_lt.mpr hmax, hempty⟩
    · exact fun _ _ => rfl
    · exact UInt32.le_refl _
    · exact fun i hi hle => absurd hle (Nat.not_le.mpr hi)
    · exact hbounded
    · intro hneg
      omega
    · exact fun hfull => absurd hfull (hno fd)
  · -- the table doubles, and the first new descriptor is returned
    obtain ⟨-, hhalf, hmore⟩ := newMaxFds_spec _ hsize hlt
    rw [heq] at hbounded
    constructor <;> rw [heq]
    · refine fun _ => ⟨Int.ofNat_lt.mpr ?_, ?_⟩
      · rw [hhalf]
        exact hmore
      · rw [Int.toNat_natCast, hhalf]
        exact if_neg (Nat.lt_irrefl _)
    · exact fun i hi => if_pos hi
    · exact Nat.le_of_lt hmore
    · exact fun i _ hle => if_neg (Nat.not_lt.mpr hle)
    · exact hbounded
    · intro hneg
      omega
    · exact fun hfull => absurd hfull (hno _)
  · -- no growth is possible: `-EMFILE`
    rw [heq] at hbounded
    constructor <;> rw [heq]
    · exact fun hneg => absurd hneg (show ¬0 ≤ -EMFILE by decide)
    · exact fun _ _ => rfl
    · exact UInt32.le_refl _
    · exact fun i hi hle => absurd hle (Nat.not_le.mpr hi)
    · exact hbounded
    · exact fun _ => rfl
    · refine fun _ => ⟨freeFd_eq_none.mp hnone, hstuck.imp_left fun hle => ?_, rfl⟩
      exact UInt32.le_antisymm hbounded hle

/-- A full table grows. -/
theorem allocPreserves_filled : AllocPreserves (filled 32) true :=
  allocPreserves (fdReach_filled le_rfl) true

/-! ## `fd_table_dup` -/

/-- The new table names the same files, each of which has as many more references as there are
descriptors for it. -/
def Duplicates (fdt : FdTable) (files : Files) : Prop :=
  (∀ fd : Int, (fdGet (fdTableDup fdt files).1 (fdTableDup fdt files).2 fd).1
    = (fdGet fdt files fd).1)
  ∧ ∀ f ≠ 0, ((fdTableDup fdt files).2.file f).fRefcnt
    = (files.file f).fRefcnt + UInt32.ofNat (fdt.naming f fdt.maxFds.toNat)

theorem fdGet_fst (fdt : FdTable) (files : Files) (fd : Int) :
    (fdGet fdt files fd).1 = if fdt.outside fd then 0 else fdt.fds fd.toNat := by
  unfold fdGet
  split <;> rfl

/-- Entries behind the first `n` that are empty name nothing. -/
theorem naming_of_empty {f : Addr} (hf : f ≠ 0) {n m : Nat} (hle : n ≤ m)
    (h : ∀ i, n ≤ i → i < m → fdt.fds i = 0) : fdt.naming f m = fdt.naming f n := by
  induction m, hle using Nat.le_induction with
  | base => rfl
  | succ m hle ih =>
      rw [naming_succ, h m hle (Nat.lt_succ_self m), if_neg (Ne.symm hf), Nat.add_zero]
      exact ih fun i hi hlt => h i hi (Nat.lt_succ_of_lt hlt)

/-- **Duplicating loses nothing** exactly if there are no files behind the entries of a new
table. -/
theorem duplicates_iff (h : FdReach fdt) (files : Files) :
    Duplicates fdt files ↔ ∀ i, NR_OPEN_DEFAULT.toNat ≤ i → i < fdt.maxFds.toNat → fdt.fds i = 0 := by
  have hcopied := copied_fdTableDup fdt files
  have hmin : NR_OPEN_DEFAULT.toNat ≤ fdt.maxFds.toNat := fdSizes_ge _ h.size
  rw [Nat.min_eq_right hmin] at hcopied
  have hnew : ∀ fd : Int, (fdTableDup fdt files).1.outside fd
      ↔ fd < 0 ∨ NR_OPEN_DEFAULT.toNat ≤ fd.toNat := by
    intro fd
    unfold FdTable.outside
    rw [hcopied.size]
  constructor
  · -- the new table has no entry here, so the old one has no file
    rintro ⟨hget, -⟩ i hle hlt
    have hi := hget i
    have hin : ¬fdt.outside (i : Int) := by
      unfold FdTable.outside
      omega
    rw [fdGet_fst, fdGet_fst, if_pos ((hnew i).mpr (.inr hle)), if_neg hin] at hi
    exact hi.symm
  · intro hempty
    refine ⟨fun fd => ?_, fun f hf => ?_⟩
    · rw [fdGet_fst, fdGet_fst, hcopied.fds]
      -- outside both tables, in the part copied, or in the old table only
      by_cases hout : fdt.outside fd
      · have hnewOut : fd < 0 ∨ NR_OPEN_DEFAULT.toNat ≤ fd.toNat :=
          hout.imp_right fun hle => Nat.le_trans hmin hle
        rw [if_pos hout, if_pos ((hnew fd).mpr hnewOut)]
      · rw [if_neg hout]
        unfold FdTable.outside at hout
        push Not at hout
        by_cases hcopy : fd.toNat < NR_OPEN_DEFAULT.toNat
        · rw [if_neg fun h => ((hnew fd).mp h).elim (by omega) (by omega), if_pos hcopy]
        · have hbehind := Nat.not_lt.mp hcopy
          rw [if_pos ((hnew fd).mpr (.inr hbehind))]
          exact (hempty _ hbehind hout.2).symm
    · rw [hcopied.refcnt f hf, naming_of_empty hf hmin hempty]

/-- The first 32 descriptors are duplicated. -/
theorem duplicates_filled : Duplicates (filled 32) (fileInit (fun _ => ⟨0, 0, none, 0, 0, 0, 1⟩) ⟨id, id⟩) :=
  (duplicates_iff (fdReach_filled le_rfl) _).mpr fun _ hle hlt => absurd hlt (Nat.not_lt.mpr hle)

/-- The next one is lost. -/
theorem not_forall_duplicates :
    ¬∀ (fdt : FdTable) (files : Files), FdReach fdt → Duplicates fdt files := by
  intro h
  have hget := (h spilled (fileInit (fun _ => ⟨0, 0, none, 0, 0, 0, 1⟩) ⟨id, id⟩)
    fdReach_spilled).1 32
  exact absurd hget (by decide)

end NoobKernel.Fs
