import NoobKernel.Fs.Super

set_option autoImplicit false

/-! # File system types (`fs/vfs.c`)

The registered `struct file_system_type`s are on `vfs_state.fs_list`, a list through their field
`fs_list` whose head is the node `0`. The types themselves are static data of the file systems:
their names and `mount` functions do not change.

Registered types go by their names (`FsTable`), and the three functions are exactly the operations
of such a table, in every run of calls with any arguments (`filesystems_refine`).
-/

namespace NoobKernel.Fs

/-- `name` is `none` for `NULL`. -/
structure FileSystemType where
  name : Option String
  hasMount : Bool
  deriving DecidableEq

variable (fs : Addr → FileSystemType)

/-- The loop over `fs_list`; `none` if it does not end. -/
def fsFind (list : Links Addr) (p : Addr → Bool) : Option (Option Addr) :=
  Links.scan list.next 0 p SUPER_ROUNDS (list.next 0)

/-- None if the loop does not end. -/
def registerFilesystem (list : Links Addr) (t : Addr) : Option (Int × Links Addr) :=
  if t = 0 ∨ (fs t).name = none ∨ (fs t).hasMount = false then some (-EINVAL, list)
  else
    (fsFind list fun existing => (fs existing).name = (fs t).name).map fun existing =>
      if existing.isSome then (-EEXIST, list) else (0, (list.init t).add t 0)

def unregisterFilesystem (list : Links Addr) (t : Addr) : Option (Int × Links Addr) :=
  if t = 0 then some (-EINVAL, list)
  else
    (fsFind list (· = t)).map fun found =>
      if found.isSome then (0, list.del t) else (-ENOENT, list)

/-- The pointer returned, `0` for `NULL`. -/
def getFs (list : Links Addr) (name : Option String) : Option Addr :=
  match name with
  | none => some 0
  | some name => (fsFind list fun t => (fs t).name = some name).map (Option.getD · 0)

/-! ## Runs -/

inductive FsCall
  | register (t : Addr)
  | unregister (t : Addr)
  | get (name : Option String)

/-- What a call returns: a number or a pointer. -/
inductive FsRet
  | code (ret : Int)
  | ptr (t : Addr)
  deriving DecidableEq

def FsCall.exec (list : Links Addr) : FsCall → Option (FsRet × Links Addr)
  | register t => (registerFilesystem fs list t).map fun r => (.code r.1, r.2)
  | unregister t => (unregisterFilesystem list t).map fun r => (.code r.1, r.2)
  | get name => (getFs fs list name).map fun t => (.ptr t, list)

/-- The calls one after the other, from the list `vfs_init` has set up. -/
def fsRun (list : Links Addr) : List FsCall → Option (List FsRet × Links Addr)
  | [] => some ([], list)
  | c :: cs => do
      let (r, list) ← c.exec fs list
      let (rs, list) ← fsRun list cs
      some (r :: rs, list)

/-! ## The table -/

/-- Which type has a name. -/
abbrev FsTable := String → Option Addr

/-- A type that can be registered, with its name. -/
def FileSystemType.registrable (t : FileSystemType) : Option String :=
  if t.hasMount then t.name else none

/-- A call on the table: a name belongs to the type registered under it first, until that type is
taken out. -/
def FsCall.spec (table : FsTable) : FsCall → FsRet × FsTable
  | register t =>
      match if t = 0 then none else (fs t).registrable with
      | none => (.code (-EINVAL), table)
      | some name =>
          if (table name).isSome then (.code (-EEXIST), table)
          else (.code 0, Function.update table name (some t))
  | unregister t =>
      if t = 0 then (.code (-EINVAL), table)
      else
        match (fs t).name with
        | none => (.code (-ENOENT), table)
        | some name =>
            if table name = some t then (.code 0, Function.update table name none)
            else (.code (-ENOENT), table)
  | get name => (.ptr ((name.bind table).getD 0), table)

def specRun (table : FsTable) : List FsCall → List FsRet × FsTable
  | [] => ([], table)
  | c :: cs =>
      let (r, table) := c.spec fs table
      let (rs, table) := specRun table cs
      (r :: rs, table)

/-! ## Refinement -/

/-- The list has the types of the table, in some order. -/
structure FsInv (list : Links Addr) (table : FsTable) (xs : List Addr) : Prop where
  circle : list.Circle 0 xs
  mem_iff : ∀ t, t ∈ xs ↔ ∃ name, table name = some t
  named : ∀ name t, table name = some t → (fs t).name = some name

variable {fs} {list : Links Addr} {table : FsTable} {xs : List Addr} {t : Addr} {name : String}

/-- A loop over a list visits no address twice. -/
theorem length_lt_rounds (h : list.Circle 0 xs) : xs.length < SUPER_ROUNDS := by
  have hnodup : xs.Nodup := (List.nodup_cons.mp h.1).2
  have hlen := length_le_of_nodup hnodup fun d _ => ⟨Nat.zero_le _, d.toNat_lt⟩
  unfold SUPER_ROUNDS
  omega

theorem fsInv_init (list : Links Addr) : FsInv fs (list.init 0) (fun _ => none) [] where
  circle := Links.circle_init list 0
  mem_iff t := by
    refine iff_of_false List.not_mem_nil ?_
    rintro ⟨name, h⟩
    cases h
  named _ _ h := by cases h

namespace FsInv

/-- Every loop over the list ends. -/
theorem find_eq (h : FsInv fs list table xs) (p : Addr → Bool) :
    fsFind list p = some (xs.find? p) :=
  h.circle.scan_next p (length_lt_rounds h.circle)

/-- The type of a name is the one the table has. -/
theorem find_name (h : FsInv fs list table xs) (name : String) :
    xs.find? (fun e => (fs e).name = some name) = table name := by
  cases hfind : xs.find? fun e => (fs e).name = some name with
  | none =>
      cases htable : table name with
      | none => rfl
      | some t =>
          have hnone := List.find?_eq_none.mp hfind t ((h.mem_iff t).mpr ⟨name, htable⟩)
          exact absurd (decide_eq_true (h.named name t htable)) hnone
  | some t =>
      have hname := List.find?_some hfind
      rw [decide_eq_true_iff] at hname
      obtain ⟨name', htable⟩ := (h.mem_iff t).mp (List.mem_of_find?_eq_some hfind)
      rw [← htable, Option.some.inj ((h.named name' t htable).symm.trans hname)]

theorem mem_of_name (h : FsInv fs list table xs) (hname : (fs t).name = some name) :
    t ∈ xs ↔ table name = some t := by
  rw [h.mem_iff]
  constructor
  · rintro ⟨name', htable⟩
    rwa [← Option.some.inj ((h.named name' t htable).symm.trans hname)]
  · exact fun htable => ⟨name, htable⟩

theorem not_mem_of_nameless (h : FsInv fs list table xs) (hname : (fs t).name = none) :
    t ∉ xs := by
  intro hmem
  obtain ⟨name, htable⟩ := (h.mem_iff t).mp hmem
  rw [h.named name t htable] at hname
  cases hname

theorem add (h : FsInv fs list table xs) (ht : t ≠ 0) (hname : (fs t).name = some name)
    (hfree : table name = none) :
    FsInv fs ((list.init t).add t 0) (Function.update table name (some t)) (t :: xs) := by
  have hnot : t ∉ 0 :: xs := by
    intro hmem
    rcases List.mem_cons.mp hmem with heq | hmem
    · exact ht heq
    · rw [h.mem_of_name hname, hfree] at hmem
      cases hmem
  refine ⟨(h.circle.init hnot).add hnot, fun e => ?_, fun name' e htable => ?_⟩
  · rw [List.mem_cons, h.mem_iff]
    constructor
    · rintro (rfl | ⟨name', htable⟩)
      · exact ⟨name, Function.update_self ..⟩
      · have hne : name' ≠ name := by
          rintro rfl
          rw [hfree] at htable
          cases htable
        exact ⟨name', by rwa [Function.update_of_ne hne]⟩
    · rintro ⟨name', htable⟩
      by_cases heq : name' = name
      · rw [heq, Function.update_self] at htable
        exact .inl (Option.some.inj htable).symm
      · rw [Function.update_of_ne heq] at htable
        exact .inr ⟨name', htable⟩
  · by_cases heq : name' = name
    · rw [heq, Function.update_self] at htable
      rw [heq, ← Option.some.inj htable, hname]
    · rw [Function.update_of_ne heq] at htable
      exact h.named name' e htable

theorem del (h : FsInv fs list table xs) (hname : (fs t).name = some name)
    (htable : table name = some t) :
    FsInv fs (list.del t) (Function.update table name none) (xs.erase t) := by
  have hmem : t ∈ xs := (h.mem_of_name hname).mpr htable
  have hnodup : xs.Nodup := (List.nodup_cons.mp h.circle.1).2
  refine ⟨h.circle.del hmem, fun e => ?_, fun name' e htable' => ?_⟩
  · rw [hnodup.mem_erase_iff, h.mem_iff]
    constructor
    · rintro ⟨hne, name', htable'⟩
      refine ⟨name', ?_⟩
      rw [Function.update_of_ne]
      · exact htable'
      · rintro rfl
        exact hne (Option.some.inj (htable'.symm.trans htable))
    · rintro ⟨name', htable'⟩
      have hne : name' ≠ name := by
        rintro rfl
        rw [Function.update_self] at htable'
        cases htable'
      rw [Function.update_of_ne hne] at htable'
      refine ⟨?_, name', htable'⟩
      rintro rfl
      exact hne (Option.some.inj ((h.named name' e htable').symm.trans hname))
  · have hne : name' ≠ name := by
      rintro rfl
      rw [Function.update_self] at htable'
      cases htable'
    rw [Function.update_of_ne hne] at htable'
    exact h.named name' e htable'

/-! ### The calls -/

theorem register (h : FsInv fs list table xs) (t : Addr) :
    ∃ list' xs', (FsCall.register t).exec fs list =
        some (((FsCall.register t).spec fs table).1, list') ∧
      FsInv fs list' ((FsCall.register t).spec fs table).2 xs' := by
  unfold FsCall.exec FsCall.spec registerFilesystem FileSystemType.registrable
  dsimp only
  by_cases ht : t = 0
  · rw [if_pos (.inl ht), if_pos ht]
    exact ⟨list, xs, rfl, h⟩
  · rw [if_neg ht]
    cases hname : (fs t).name with
    | none =>
        rw [if_pos (.inr (.inl rfl)), ite_self]
        exact ⟨list, xs, rfl, h⟩
    | some name =>
        by_cases hmount : (fs t).hasMount
        · have hok : ¬(t = 0 ∨ some name = none ∨ (fs t).hasMount = false) := by
            rintro (heq | heq | heq)
            · exact ht heq
            · cases heq
            · rw [hmount] at heq
              cases heq
          rw [if_neg hok, if_pos hmount, h.find_eq, h.find_name]
          dsimp only [Option.map_some]
          cases htable : table name with
          | none => exact ⟨_, _, rfl, h.add ht hname htable⟩
          | some e => exact ⟨list, xs, rfl, h⟩
        · rw [if_pos (.inr (.inr (Bool.eq_false_iff.mpr hmount))), if_neg hmount]
          exact ⟨list, xs, rfl, h⟩

theorem unregister (h : FsInv fs list table xs) (t : Addr) :
    ∃ list' xs', (FsCall.unregister t).exec fs list =
        some (((FsCall.unregister t).spec fs table).1, list') ∧
      FsInv fs list' ((FsCall.unregister t).spec fs table).2 xs' := by
  have hself : (xs.find? (· = t)).isSome ↔ t ∈ xs := by
    rw [List.find?_isSome]
    simp
  unfold FsCall.exec FsCall.spec unregisterFilesystem
  dsimp only
  by_cases ht : t = 0
  · rw [if_pos ht, if_pos ht]
    exact ⟨list, xs, rfl, h⟩
  · rw [if_neg ht, if_neg ht, h.find_eq]
    dsimp only [Option.map_some]
    cases hname : (fs t).name with
    | none =>
        rw [if_neg (hself.not.mpr (h.not_mem_of_nameless hname))]
        exact ⟨list, xs, rfl, h⟩
    | some name =>
        dsimp only
        by_cases htable : table name = some t
        · rw [if_pos (hself.mpr ((h.mem_of_name hname).mpr htable)), if_pos htable]
          exact ⟨_, _, rfl, h.del hname htable⟩
        · rw [if_neg (hself.not.mpr ((h.mem_of_name hname).not.mpr htable)), if_neg htable]
          exact ⟨list, xs, rfl, h⟩

theorem get (h : FsInv fs list table xs) (name : Option String) :
    (FsCall.get name).exec fs list = some (((FsCall.get name).spec fs table).1, list) := by
  cases name with
  | none => rfl
  | some name =>
      unfold FsCall.exec FsCall.spec getFs
      dsimp only
      rw [h.find_eq, h.find_name]
      rfl

theorem exec (h : FsInv fs list table xs) (c : FsCall) :
    ∃ list' xs', c.exec fs list = some ((c.spec fs table).1, list') ∧
      FsInv fs list' (c.spec fs table).2 xs' := by
  cases c with
  | register t => exact h.register t
  | unregister t => exact h.unregister t
  | get name => exact ⟨list, xs, h.get name, h⟩

theorem run (h : FsInv fs list table xs) (cs : List FsCall) :
    ∃ list' xs', fsRun fs list cs = some ((specRun fs table cs).1, list') ∧
      FsInv fs list' (specRun fs table cs).2 xs' := by
  induction cs generalizing list table xs with
  | nil => exact ⟨list, xs, rfl, h⟩
  | cons c cs ih =>
      obtain ⟨list', xs', hexec, h'⟩ := h.exec c
      obtain ⟨list'', xs'', hrun, h''⟩ := ih h'
      refine ⟨list'', xs'', ?_, h''⟩
      unfold fsRun
      rw [hexec, Option.bind_eq_bind, Option.bind_some]
      dsimp only
      rw [hrun]
      rfl

end FsInv

/-- **The registered file systems are a table by name.** Whatever calls are made, with whatever
pointers and names, every one returns what the table says, no loop runs on, and the list keeps
every type of the table once. -/
theorem filesystems_refine (fs : Addr → FileSystemType) (list : Links Addr) (cs : List FsCall) :
    ∃ list' xs, fsRun fs (list.init 0) cs = some ((specRun fs (fun _ => none) cs).1, list') ∧
      FsInv fs list' (specRun fs (fun _ => none) cs).2 xs :=
  (fsInv_init list).run cs

end NoobKernel.Fs
