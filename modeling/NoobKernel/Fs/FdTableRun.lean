import NoobKernel.Lib.Lts
import NoobKernel.Fs.FdTable

set_option autoImplicit false

/-! # Descriptors in use

A descriptor is opened in two calls, `fd_alloc` and `fd_install`, of any number of openers that
share a table. Between the two the table does not show that the descriptor is taken, so `fd_alloc`
returns it again as long as it is the first empty entry (`distinct_iff`). Both calls count the
descriptor in `open_fds`, and `fd_free` counts it down once (`openFds_iff`).
-/

namespace NoobKernel.Fs

/-- `allocs` is the number of descriptors `fd_alloc` has returned since the table was made; `held`
are those that are not freed, and the ones that were there; `reserved` are not yet installed. -/
structure FdUse where
  table : FdTable
  allocs : Nat
  held : List Nat
  reserved : List Nat

/-- The descriptors that name a file. -/
def FdTable.occupied (fdt : FdTable) : List Nat :=
  (List.range fdt.maxFds.toNat).filter fun i => fdt.fds i ≠ 0

/-- A table that nobody has opened a descriptor of yet. -/
def FdUse.start (fdt : FdTable) : FdUse := ⟨fdt, 0, fdt.occupied, []⟩

inductive FdOp
  | alloc (memory : Bool)
  | install (fd : Nat) (file : Addr)
  | free (fd : Int) (files : Files) (dc : Dcache)
  /-- what follows is about the new table -/
  | dup (files : Files)

/-- An opener installs a descriptor that `fd_alloc` has returned. -/
def FdUse.next (s : FdUse) : FdOp → Option FdUse
  | .alloc memory =>
      let r := fdAlloc s.table memory
      if r.1 < 0 then some { s with table := r.2 }
      else some ⟨r.2, s.allocs + 1, r.1.toNat :: s.held, r.1.toNat :: s.reserved⟩
  | .install fd file =>
      let r := fdInstall s.table fd file
      if fd ∈ s.reserved then
        some { s with
          table := r.2, reserved := if r.1 = 0 then s.reserved.erase fd else s.reserved }
      else none
  | .free fd files dc =>
      let table := (fdFree s.table files dc fd).1
      if fd < 0 then some { s with table := table }
      else some ⟨table, s.allocs, s.held.erase fd.toNat, s.reserved.erase fd.toNat⟩
  | .dup files => some (.start (fdTableDup s.table files).1)

/-- The calls one after the other, from a new table. -/
def FdRun (ops : List FdOp) (s : FdUse) : Prop :=
  Lts.exec FdUse.next (fun _ _ => True) (.start fdTableAlloc) ops = some s

open Locked (NR_OPEN_MAX freeFd growFdTable)

variable {fdt : FdTable} {s s' : FdUse} {op : FdOp} {ops : List FdOp}

/-! ## What a call does -/

def FdTable.setEntry (fdt : FdTable) (i : Nat) (file : Addr) (openFds : UInt32) : FdTable :=
  ⟨Function.update fdt.fds i file, fdt.maxFds, openFds⟩

/-- The call of `op` leads from `s` to the other state. -/
inductive FdMove (s : FdUse) : FdOp → FdUse → Prop
  | alloc (memory : Bool) {fd : Nat} (hfree : freeFd s.table = some fd) :
      FdMove s (.alloc memory) ⟨{ s.table with openFds := s.table.openFds + 1 }, s.allocs + 1,
        fd :: s.held, fd :: s.reserved⟩
  | grow (memory : Bool) (hfull : freeFd s.table = none) (hlt : s.table.maxFds < NR_OPEN_MAX) :
      FdMove s (.alloc memory) ⟨growFdTable s.table (newMaxFds s.table.maxFds), s.allocs + 1,
        s.table.maxFds.toNat :: s.held, s.table.maxFds.toNat :: s.reserved⟩
  | install {fd : Nat} {file : Addr} (hmem : fd ∈ s.reserved) (hin : fd < s.table.maxFds.toNat)
      (hfile : file ≠ 0) (hempty : s.table.fds fd = 0) :
      FdMove s (.install fd file) { s with
        table := s.table.setEntry fd file (s.table.openFds + 1)
        reserved := s.reserved.erase fd }
  | clear (files : Files) (dc : Dcache) {fd : Nat} (hin : fd < s.table.maxFds.toNat)
      (hfile : s.table.fds fd ≠ 0) :
      FdMove s (.free fd files dc) ⟨s.table.setEntry fd 0 (s.table.openFds - 1), s.allocs,
        s.held.erase fd, s.reserved.erase fd⟩
  | release (files : Files) (dc : Dcache) {fd : Nat}
      (hempty : s.table.maxFds.toNat ≤ fd ∨ s.table.fds fd = 0) :
      FdMove s (.free fd files dc) ⟨s.table, s.allocs, s.held.erase fd, s.reserved.erase fd⟩
  | dup (files : Files) : FdMove s (.dup files) (.start (fdTableDup s.table files).1)
  /-- the call has failed, or the descriptor is negative -/
  | same (op : FdOp) (hfull : ∀ memory, op = .alloc memory → freeFd s.table = none) : FdMove s op s

theorem not_outside {fd : Nat} : ¬fdt.outside fd ↔ fd < fdt.maxFds.toNat := by
  unfold FdTable.outside
  omega

theorem next_move (hsize : s.table.maxFds ∈ fdSizes) (hnext : s.next op = some s') :
    FdMove s op s' := by
  cases op with
  | alloc memory =>
      rw [FdUse.next] at hnext
      rcases fdAlloc_cases s.table memory with ⟨fd, hfree, heq⟩ | ⟨hfull, hlt, heq⟩ | ⟨hfull, -, heq⟩
      · rw [heq, if_neg (by omega)] at hnext
        cases hnext
        exact .alloc memory hfree
      · -- the table has grown, and the descriptor is the first of the new ones
        rw [heq, if_neg (by omega)] at hnext
        cases hnext
        rw [Int.toNat_natCast, (newMaxFds_spec _ hsize hlt).2.1]
        exact .grow memory hfull hlt
      · rw [heq, if_pos (show (-EMFILE : Int) < 0 by decide)] at hnext
        cases hnext
        exact .same _ fun _ _ => hfull
  | install fd file =>
      rw [FdUse.next] at hnext
      split at hnext
      swap
      · cases hnext
      rename_i hmem
      have hsame : FdMove s (.install fd file) s := .same _ fun _ heq => by cases heq
      rcases fdInstall_cases s.table fd file with ⟨-, heq⟩ | ⟨-, heq⟩ | ⟨⟨hin, hfile, hempty⟩, heq⟩
      · rw [heq, if_neg (show (-EINVAL : Int) ≠ 0 by decide)] at hnext
        cases hnext
        exact hsame
      · rw [heq, if_neg (show (-EBADF : Int) ≠ 0 by decide)] at hnext
        cases hnext
        exact hsame
      · rw [heq, if_pos rfl] at hnext
        cases hnext
        exact .install hmem (not_outside.mp hin) hfile hempty
  | free fd files dc =>
      rw [FdUse.next, fdFree_table] at hnext
      split at hnext
      · rename_i hneg
        rw [if_pos (.inl (.inl hneg))] at hnext
        cases hnext
        exact .same _ fun _ heq => by cases heq
      · rename_i hpos
        obtain ⟨fd, rfl⟩ := Int.eq_ofNat_of_zero_le (Int.not_lt.mp hpos)
        split at hnext
        · -- there is no file, so the table stays
          rename_i hempty
          cases hnext
          refine .release files dc (hempty.imp_left fun hout => ?_)
          exact Nat.not_lt.mp fun hlt => not_outside.mpr hlt hout
        · rename_i hfile
          push Not at hfile
          cases hnext
          exact .clear files dc (not_outside.mp hfile.1) hfile.2
  | dup files =>
      cases hnext
      exact .dup files

/-! ## The count -/

/-- The number of entries that are not `NULL`. -/
def FdTable.entries (fdt : FdTable) : Nat := fdt.installed fdt.maxFds.toNat

/-- `installed` depends on the entries counted. -/
theorem installed_congr {fdt' : FdTable} {n : Nat} (h : ∀ i < n, fdt'.fds i = fdt.fds i) :
    fdt'.installed n = fdt.installed n := by
  unfold FdTable.installed
  refine List.countP_congr fun i hi => ?_
  rw [h i (List.mem_range.mp hi)]

theorem installed_of_empty {n m : Nat} (hle : n ≤ m)
    (h : ∀ i, n ≤ i → i < m → fdt.fds i = 0) : fdt.installed m = fdt.installed n := by
  induction m, hle using Nat.le_induction with
  | base => rfl
  | succ m hle ih =>
      rw [installed_succ, h m hle (Nat.lt_succ_self m), if_neg (not_not.mpr rfl), Nat.add_zero]
      exact ih fun i hi hlt => h i hi (Nat.lt_succ_of_lt hlt)

/-- One entry changes. -/
theorem installed_setEntry (fdt : FdTable) {i n : Nat} (hi : i < n) (file : Addr)
    (openFds : UInt32) :
    (fdt.setEntry i file openFds).installed n + (if fdt.fds i ≠ 0 then 1 else 0)
      = fdt.installed n + if file ≠ 0 then 1 else 0 := by
  induction n with
  | zero => omega
  | succ n ih =>
      rw [installed_succ, installed_succ]
      unfold FdTable.setEntry at ih ⊢
      by_cases heq : i = n
      · subst heq
        rw [installed_congr fun j hj => Function.update_of_ne hj.ne _ _]
        simp only [Function.update_self]
        exact Nat.add_right_comm ..
      · simp only [Function.update_of_ne (Ne.symm heq)]
        have hrest := ih (by omega)
        omega

/-- `open_fds` counts each installed descriptor, and each that has been allocated once more. -/
structure Doubled (s : FdUse) : Prop where
  size : s.table.maxFds ∈ fdSizes
  count : s.table.openFds = UInt32.ofNat (s.table.entries + s.allocs)

theorem entries_le (hsize : fdt.maxFds ∈ fdSizes) : fdt.entries ≤ 1024 := by
  have hmax : fdt.maxFds.toNat ≤ 1024 := fdSizes_le _ hsize
  have hle : fdt.entries ≤ (List.range fdt.maxFds.toNat).length := List.countP_le_length
  rw [List.length_range] at hle
  omega

theorem doubled_fresh : Doubled (.start fdTableAlloc) := ⟨by decide, by decide⟩

theorem doubled_dup (hsize : fdt.maxFds ∈ fdSizes) (files : Files) :
    Doubled (.start (fdTableDup fdt files).1) := by
  have hcopied := copied_fdTableDup fdt files
  have hmin : NR_OPEN_DEFAULT.toNat ≤ fdt.maxFds.toNat := fdSizes_ge _ hsize
  rw [Nat.min_eq_right hmin] at hcopied
  have hentries : (fdTableDup fdt files).1.entries = fdt.installed NR_OPEN_DEFAULT.toNat := by
    unfold FdTable.entries
    rw [hcopied.size]
    exact installed_congr fun i hi => (hcopied.fds i).trans (if_pos hi)
  refine ⟨?_, ?_⟩
  · show (fdTableDup fdt files).1.maxFds ∈ fdSizes
    rw [hcopied.size]
    decide
  · show (fdTableDup fdt files).1.openFds = UInt32.ofNat ((fdTableDup fdt files).1.entries + 0)
    rw [hcopied.openFds, hentries, Nat.add_zero]

theorem Doubled.next (h : Doubled s) (hnext : s.next op = some s') : Doubled s' := by
  have hsize := h.size
  have hcount := h.count
  cases next_move hsize hnext with
  | alloc memory hfree =>
      refine ⟨hsize, ?_⟩
      show s.table.openFds + 1 = UInt32.ofNat (s.table.entries + s.allocs + 1)
      rw [hcount, UInt32.ofNat_add _ 1]
      rfl
  | grow memory hfull hlt =>
      obtain ⟨hnew, -, hmore⟩ := newMaxFds_spec _ hsize hlt
      have hentries : (growFdTable s.table (newMaxFds s.table.maxFds)).entries
          = s.table.entries := by
        refine (installed_of_empty hmore.le fun i hle _ => if_neg (Nat.not_lt.mpr hle)).trans ?_
        exact installed_congr fun i hi => if_pos hi
      refine ⟨hnew, ?_⟩
      show s.table.openFds + 1 = UInt32.ofNat (FdTable.entries _ + s.allocs + 1)
      rw [hcount, hentries, UInt32.ofNat_add _ 1]
      rfl
  | install hmem hin hfile hempty =>
      rename_i fd file
      -- an entry more, and counted a second time
      have hentries := installed_setEntry s.table hin file (s.table.openFds + 1)
      rw [if_neg (not_not.mpr hempty), if_pos hfile, Nat.add_zero] at hentries
      refine ⟨hsize, ?_⟩
      show s.table.openFds + 1
        = UInt32.ofNat ((s.table.setEntry fd file _).installed s.table.maxFds.toNat + s.allocs)
      rw [hentries, hcount, Nat.add_right_comm, UInt32.ofNat_add _ 1]
      rfl
  | clear files dc hin hfile =>
      rename_i fd
      have hentries := installed_setEntry s.table hin 0 (s.table.openFds - 1)
      rw [if_pos hfile, if_neg (not_not.mpr rfl), Nat.add_zero] at hentries
      refine ⟨hsize, ?_⟩
      show s.table.openFds - 1
        = UInt32.ofNat ((s.table.setEntry fd 0 _).installed s.table.maxFds.toNat + s.allocs)
      generalize (s.table.setEntry fd 0 _).installed _ = n at hentries ⊢
      have hbefore : s.table.entries = n + 1 := hentries.symm
      rw [hcount, hbefore, Nat.add_right_comm, UInt32.ofNat_add _ 1]
      exact UInt32.add_sub_cancel _ _
  | release files dc hempty => exact ⟨hsize, hcount⟩
  | dup files => exact doubled_dup hsize files
  | same _ _ => exact h

theorem FdRun.doubled (run : FdRun ops s) : Doubled s := by
  refine (Lts.run_of_exec run).invariant doubled_fresh ?_
  rintro s e t h ⟨op, -, -, hnext⟩
  exact h.next hnext

/-- **The count is right** exactly if the number of descriptors that `fd_alloc` has returned is a
multiple of 2³². -/
theorem openFds_iff (run : FdRun ops s) :
    s.table.openFds.toNat = s.table.entries ↔ 2 ^ 32 ∣ s.allocs := by
  have hdoubled := run.doubled
  have hle := entries_le hdoubled.size
  rw [hdoubled.count, UInt32.toNat_ofNat']
  omega

/-- One descriptor is allocated and installed, and the table is duplicated. -/
theorem openFds_dup : ∃ s, FdRun [.alloc true, .install 0 64,
      .dup (fileInit (fun _ => ⟨0, 0, none, 0, 0, 0, 1⟩) ⟨id, id⟩)] s ∧ s.table.entries = 1
    ∧ (s.table.openFds.toNat = s.table.entries ↔ 2 ^ 32 ∣ s.allocs) :=
  have hrun : FdRun [.alloc true, .install 0 64,
    .dup (fileInit (fun _ => ⟨0, 0, none, 0, 0, 0, 1⟩) ⟨id, id⟩)] _ := rfl
  ⟨_, hrun, by decide, openFds_iff hrun⟩

/-- A descriptor that has been allocated and installed is counted twice. -/
theorem not_forall_openFds : ¬∀ (ops : List FdOp) (s : FdUse), FdRun ops s → s.reserved = [] →
    s.table.openFds.toNat = s.table.entries := by
  intro h
  have hcount := h [.alloc true, .install 0 64] _ rfl rfl
  exact absurd hcount (by decide)

/-! ## The descriptors -/

/-- No descriptor has been returned to two openers, and installing one does not find it taken. -/
def Distinct (s : FdUse) : Prop :=
  s.held.Nodup ∧ ∀ fd ∈ s.reserved, ∀ file, (fdInstall s.table fd file).1 ≠ -EBADF

/-- `fd_alloc` is called when there is an empty entry before each reserved one. -/
def Spaced (s : FdUse) : FdOp → Prop
  | .alloc _ => ∀ fd ∈ s.reserved, ∃ i < fd, s.table.fds i = 0
  | _ => True

structure FdInv (s : FdUse) : Prop where
  size : s.table.maxFds ∈ fdSizes
  nodup : s.held.Nodup
  reserved : s.reserved.Nodup
  sub : ∀ fd ∈ s.reserved, fd ∈ s.held
  empty : ∀ fd ∈ s.reserved, fd < s.table.maxFds.toNat ∧ s.table.fds fd = 0
  installed : ∀ fd, fd ∈ s.held ∧ fd ∉ s.reserved ↔ fd < s.table.maxFds.toNat ∧ s.table.fds fd ≠ 0

theorem fdInv_start (hsize : fdt.maxFds ∈ fdSizes) : FdInv (.start fdt) where
  size := hsize
  nodup := List.nodup_range.filter _
  reserved := List.nodup_nil
  sub _ h := absurd h List.not_mem_nil
  empty _ h := absurd h List.not_mem_nil
  installed fd := by
    show fd ∈ fdt.occupied ∧ fd ∉ [] ↔ _
    unfold FdTable.occupied
    rw [List.mem_filter, List.mem_range, decide_eq_true_eq]
    exact and_iff_left List.not_mem_nil

theorem FdInv.distinct (h : FdInv s) : Distinct s := by
  refine ⟨h.nodup, fun fd hfd file => ?_⟩
  rcases fdInstall_cases s.table fd file with ⟨-, heq⟩ | ⟨⟨-, htaken⟩, -⟩ | ⟨-, heq⟩
  · rw [heq]
    exact (by decide : -EINVAL ≠ -EBADF)
  · exact absurd (h.empty fd hfd).2 htaken
  · rw [heq]
    exact (by decide : 0 ≠ -EBADF)

theorem FdInv.held_lt (h : FdInv s) {fd : Nat} (hfd : fd ∈ s.held) :
    fd < s.table.maxFds.toNat := by
  by_cases hmem : fd ∈ s.reserved
  · exact (h.empty fd hmem).1
  · exact ((h.installed fd).mp ⟨hfd, hmem⟩).1

/-- An empty entry that is not reserved is not held. -/
theorem FdInv.not_held (h : FdInv s) {fd : Nat} (hempty : s.table.fds fd = 0)
    (hmem : fd ∉ s.reserved) : fd ∉ s.held :=
  fun hheld => ((h.installed fd).mp ⟨hheld, hmem⟩).2 hempty

/-- A descriptor that is not held is returned. -/
theorem FdInv.reserve (h : FdInv s) {fd : Nat} {table : FdTable} (hsize : table.maxFds ∈ fdSizes)
    (hheld : fd ∉ s.held) (hin : fd < table.maxFds.toNat)
    (hmax : s.table.maxFds.toNat ≤ table.maxFds.toNat)
    (hfds : ∀ i < s.table.maxFds.toNat, table.fds i = s.table.fds i) (hempty : table.fds fd = 0)
    (hnew : ∀ i < table.maxFds.toNat, s.table.maxFds.toNat ≤ i → table.fds i = 0) :
    FdInv ⟨table, s.allocs + 1, fd :: s.held, fd :: s.reserved⟩ := by
  refine ⟨hsize, List.nodup_cons.mpr ⟨hheld, h.nodup⟩,
    List.nodup_cons.mpr ⟨fun hmem => hheld (h.sub fd hmem), h.reserved⟩, fun e he => ?_,
    fun e he => ?_, fun e => ?_⟩
  · rcases List.mem_cons.mp he with rfl | he
    · exact List.mem_cons_self
    · exact List.mem_cons_of_mem _ (h.sub e he)
  · rcases List.mem_cons.mp he with rfl | he
    · exact ⟨hin, hempty⟩
    · obtain ⟨hlt, hzero⟩ := h.empty e he
      exact ⟨Nat.lt_of_lt_of_le hlt hmax, (hfds e hlt).trans hzero⟩
  · -- the new descriptor is reserved and not installed yet
    have hinstalled := h.installed e
    dsimp only
    rw [List.mem_cons, List.mem_cons, not_or]
    constructor
    · rintro ⟨rfl | he, hne, hmem⟩
      · exact absurd rfl hne
      · obtain ⟨hlt, hfile⟩ := hinstalled.mp ⟨he, hmem⟩
        exact ⟨Nat.lt_of_lt_of_le hlt hmax, (hfds e hlt).symm ▸ hfile⟩
    · rintro ⟨hlt, hfile⟩
      have hold : e < s.table.maxFds.toNat := by
        by_contra hge
        exact hfile (hnew e hlt (Nat.not_lt.mp hge))
      obtain ⟨he, hmem⟩ := hinstalled.mpr ⟨hold, hfds e hold ▸ hfile⟩
      exact ⟨.inr he, fun heq => hheld (heq ▸ he), hmem⟩

/-- A reserved descriptor is installed. -/
theorem FdInv.install (h : FdInv s) {fd : Nat} {file : Addr} (hmem : fd ∈ s.reserved)
    (hfile : file ≠ 0) (openFds : UInt32) :
    FdInv { s with
      table := s.table.setEntry fd file openFds, reserved := s.reserved.erase fd } := by
  have herase : ∀ {e}, e ∈ s.reserved.erase fd ↔ e ≠ fd ∧ e ∈ s.reserved :=
    h.reserved.mem_erase_iff
  refine ⟨h.size, h.nodup, h.reserved.erase fd, fun e he => h.sub e (List.mem_of_mem_erase he),
    fun e he => ?_, fun e => ?_⟩
  · obtain ⟨hne, he⟩ := herase.mp he
    exact ⟨(h.empty e he).1, (Function.update_of_ne hne _ _).trans (h.empty e he).2⟩
  · show e ∈ s.held ∧ e ∉ s.reserved.erase fd
      ↔ e < s.table.maxFds.toNat ∧ Function.update s.table.fds fd file e ≠ 0
    rw [herase]
    by_cases heq : e = fd
    · rw [heq, Function.update_self]
      exact iff_of_true ⟨h.sub fd hmem, fun hne => hne.1 rfl⟩ ⟨(h.empty fd hmem).1, hfile⟩
    · rw [Function.update_of_ne heq, ← h.installed e, and_iff_right heq]

/-- A descriptor is given up, with what it may name. -/
theorem FdInv.drop (h : FdInv s) {fd : Nat} {table : FdTable}
    (hmax : table.maxFds = s.table.maxFds) (hfds : ∀ i, i ≠ fd → table.fds i = s.table.fds i)
    (hempty : fd < s.table.maxFds.toNat → table.fds fd = 0) :
    FdInv ⟨table, s.allocs, s.held.erase fd, s.reserved.erase fd⟩ := by
  have hheld : ∀ {e}, e ∈ s.held.erase fd ↔ e ≠ fd ∧ e ∈ s.held := h.nodup.mem_erase_iff
  have hreserved : ∀ {e}, e ∈ s.reserved.erase fd ↔ e ≠ fd ∧ e ∈ s.reserved :=
    h.reserved.mem_erase_iff
  refine ⟨hmax ▸ h.size, h.nodup.erase fd, h.reserved.erase fd, fun e he => ?_, fun e he => ?_,
    fun e => ?_⟩
  · obtain ⟨hne, he⟩ := hreserved.mp he
    exact hheld.mpr ⟨hne, h.sub e he⟩
  · obtain ⟨hne, he⟩ := hreserved.mp he
    exact ⟨hmax ▸ (h.empty e he).1, (hfds e hne).trans (h.empty e he).2⟩
  · show e ∈ s.held.erase fd ∧ e ∉ s.reserved.erase fd ↔ e < table.maxFds.toNat ∧ table.fds e ≠ 0
    rw [hheld, hreserved, hmax]
    by_cases heq : e = fd
    · rw [heq]
      exact iff_of_false (fun hin => hin.1.1 rfl) fun hin => hin.2 (hempty hin.1)
    · rw [hfds e heq, ← h.installed e, and_iff_right heq, and_iff_right heq]

theorem FdInv.next (h : FdInv s) (hnext : s.next op = some s') (hspaced : Spaced s op) :
    FdInv s' := by
  cases next_move h.size hnext with
  | alloc memory hfree =>
      obtain ⟨hin, hempty, hfirst⟩ := freeFd_eq_some.mp hfree
      refine h.reserve h.size (h.not_held hempty fun hmem => ?_) hin le_rfl (fun _ _ => rfl) hempty
        fun i hi hle => absurd hi (Nat.not_lt.mpr hle)
      obtain ⟨i, hi, hzero⟩ := hspaced _ hmem
      exact hfirst i hi hzero
  | grow memory hfull hlt =>
      obtain ⟨hnew, -, hmore⟩ := newMaxFds_spec _ h.size hlt
      refine h.reserve hnew (fun hheld => Nat.lt_irrefl _ (h.held_lt hheld)) hmore hmore.le ?_ ?_ ?_
      · exact fun i hi => if_pos hi
      · exact if_neg (Nat.lt_irrefl _)
      · exact fun i _ hle => if_neg (Nat.not_lt.mpr hle)
  | install hmem hin hfile hempty => exact h.install hmem hfile _
  | clear files dc hin hfile =>
      exact h.drop rfl (fun i hne => Function.update_of_ne hne _ _) fun _ => Function.update_self ..
  | release files dc hempty =>
      exact h.drop rfl (fun _ _ => rfl) fun hin => hempty.resolve_left (Nat.not_le.mpr hin)
  | dup files =>
      refine fdInv_start ?_
      rw [(copied_fdTableDup s.table files).size]
      decide
  | same _ _ => exact h

/-- A descriptor that is reserved and is the first empty entry is returned again. -/
theorem FdInv.spaced (h : FdInv s) (hnext : s.next op = some s') (hdistinct : Distinct s') :
    Spaced s op := by
  -- in a full table nothing is reserved
  have hspaced : ∀ memory, freeFd s.table = none → Spaced s (.alloc memory) := by
    intro memory hfull fd hfd
    obtain ⟨hin, hempty⟩ := h.empty fd hfd
    exact absurd hempty (freeFd_eq_none.mp hfull fd hin)
  cases next_move h.size hnext with
  | alloc memory hfree =>
      rename_i fd
      obtain ⟨-, hempty, hfirst⟩ := freeFd_eq_some.mp hfree
      intro fd' hfd'
      have hheld : fd ∉ s.held := (List.nodup_cons.mp hdistinct.1).1
      have hne : fd ≠ fd' := fun heq => hheld (heq ▸ h.sub fd' hfd')
      have hle : ¬fd' < fd := fun hlt => hfirst fd' hlt (h.empty fd' hfd').2
      exact ⟨fd, by omega, hempty⟩
  | grow memory hfull _ => exact hspaced memory hfull
  | same op hfull =>
      cases op with
      | alloc memory => exact hspaced memory (hfull memory rfl)
      | _ => trivial
  | _ => trivial

/-- **Descriptors are distinct** throughout the calls on a table exactly if no `fd_alloc` is made
while the first empty entry is reserved. -/
theorem distinct_iff (h : FdReach fdt) (ops : List FdOp) :
    Lts.Throughout FdUse.next Distinct (.start fdt) ops
      ↔ Lts.Allowed FdUse.next Spaced (.start fdt) ops :=
  Lts.throughout_iff_allowed (fun _ => FdInv.distinct) (fun _ _ _ h => h.next)
    (fun _ _ _ h => h.spaced) (fdInv_start h.size)

/-- An opener that installs its descriptor before the next one allocates. -/
theorem distinct_installed : Lts.Throughout FdUse.next Distinct (.start fdTableAlloc)
    [.alloc true, .install 0 64, .alloc true] := by
  refine (distinct_iff FdReach.fresh _).mpr fun s hs => ⟨fun fd hfd => absurd hfd List.not_mem_nil, ?_⟩
  cases hs
  refine fun s hs => ⟨trivial, ?_⟩
  cases hs
  exact fun s hs => ⟨fun fd hfd => absurd hfd List.not_mem_nil, trivial⟩

/-- Two openers are given the descriptor 0, and the second one finds it taken. -/
theorem not_forall_distinct : ¬∀ (fdt : FdTable) (ops : List FdOp), FdReach fdt →
    Lts.Throughout FdUse.next Distinct (.start fdt) ops := by
  intro h
  have hdistinct : Distinct _ := (h fdTableAlloc [.alloc true, .alloc true, .install 0 64]
    FdReach.fresh).of_exec rfl
  exact hdistinct.2 0 (List.mem_singleton_self 0) 128 (by decide)

end NoobKernel.Fs
