import Mathlib.Data.UInt
import NoobKernel.Fs.File

set_option autoImplicit false

/-! # The lifetime of a file

A file is open with one reference, and `file_get`, `file_put` and `file_close` are called on it in
any order. `file_close` closes the file when it takes the count from 1 to 0. `file_put` calls
`file_close` after it has taken the count to 0 itself, so that the count wraps and the file stays
open (`filePut_open`): the last reference has to be dropped by `file_close`.
-/

namespace NoobKernel.Fs

inductive FileOp
  | get
  | put
  | close
  deriving DecidableEq

def FileOp.isDrop : FileOp → Bool
  | get => false
  | put | close => true

def FileOp.exec (f : Addr) (s : Files × Dcache) : FileOp → Files × Dcache
  | get => (fileGet s.1 f, s.2)
  | put => filePut s.1 s.2 f
  | close => (fileClose s.1 s.2 f).2

def fileRun (f : Addr) (s : Files × Dcache) (ops : List FileOp) : Files × Dcache :=
  ops.foldl (FileOp.exec f) s

def drops (ops : List FileOp) : Nat := ops.countP (·.isDrop)

def gets (ops : List FileOp) : Nat := ops.countP (!·.isDrop)

/-- A file with its one reference, as `file_open` returns it. -/
structure OpenFile (f : Addr) (s : Files × Dcache) : Prop where
  null : f ≠ 0
  live : s.1.live f = true
  listed : ∃ xs, s.1.list.Circle 0 xs ∧ f ∈ xs
  dentry : (s.1.file f).fDentry ≠ 0
  refcnt : (s.1.file f).fRefcnt = 1

/-- Nothing happens but to the count of the file, which does not wrap below zero. -/
def StaysOpen (f : Addr) (s t : Files × Dcache) : Prop :=
  (t.1.live = s.1.live ∧ t.1.list = s.1.list ∧ t.1.count = s.1.count ∧ t.2 = s.2)
    ∧ ∃ refcnts : List UInt32, t.1.log = s.1.log ++ refcnts.map (.drop f) ∧ 0 ∉ refcnts

/-- What happens to a file that is closed. -/
def closing (f : Addr) (file : File) : List FileEvent :=
  (if file.fOp.any (·.hasRelease) then [.release f] else [])
    ++ (if file.fDentry ≠ 0 then [.dentryPut f file.fDentry] else []) ++ [.free f]

/-- The count goes from 1 to 0, the release operation runs, the reference to the dentry is put, and
the file leaves `file_list`. -/
def Closed (f : Addr) (s t : Files × Dcache) : Prop :=
  t.1.log = s.1.log ++ .drop f 1 :: closing f (s.1.file f)
    ∧ t.2 = dentryPut s.2 (s.1.file f).fDentry ∧ t.1.count = s.1.count - 1
    ∧ t.1.live = Function.update s.1.live f false
    ∧ ∀ xs, s.1.list.Circle 0 xs → f ∈ xs → t.1.list.Circle 0 (xs.erase f)

/-- The last drop, and nothing else, closes the file. -/
def Lifetime (f : Addr) (s : Files × Dcache) (ops : List FileOp) : Prop :=
  ∃ before last after, ops = before ++ last :: after ∧ last.isDrop ∧ (∀ op ∈ after, op = .get)
    ∧ StaysOpen f s (fileRun f s before)
    ∧ Closed f (fileRun f s before) (fileRun f s (before ++ [last]))
    ∧ StaysOpen f (fileRun f s (before ++ [last])) (fileRun f s ops)

/-- The references to the file, counted in 32 bits. -/
def held (ops : List FileOp) : UInt32 := 1 + UInt32.ofNat (gets ops) - UInt32.ofNat (drops ops)

/-- No drop is the last one so far. -/
def Shared (ops : List FileOp) : Prop :=
  ∀ before op after, ops = before ++ op :: after → op.isDrop → held before ≠ 0 ∧ held before ≠ 1

/-- The last drop is a `file_close` of the last reference, and the other drops are of others. -/
def LastIsClose (ops : List FileOp) : Prop :=
  ∃ before after, ops = before ++ .close :: after ∧ (∀ op ∈ after, op = .get)
    ∧ held before = 1 ∧ Shared before

variable {f : Addr} {s t : Files × Dcache} {ops : List FileOp} {op : FileOp}

/-! ## One call -/

@[simp] theorem drop_refcnt (files : Files) (f : Addr) :
    ((files.drop f).file f).fRefcnt = (files.file f).fRefcnt - 1 := by
  simp [Files.drop, Files.setRefcnt, Files.record]

/-- The fields of the file other than the count. -/
theorem drop_file (files : Files) (f : Addr) : (files.drop f).file f
    = { files.file f with fRefcnt := (files.file f).fRefcnt - 1 } := by
  simp [Files.drop, Files.setRefcnt, Files.record]

theorem drop_log (files : Files) (f : Addr) :
    (files.drop f).log = files.log ++ [.drop f (files.file f).fRefcnt] := rfl

@[simp] theorem drop_live (files : Files) (f : Addr) : (files.drop f).live = files.live := rfl

@[simp] theorem drop_list (files : Files) (f : Addr) : (files.drop f).list = files.list := rfl

@[simp] theorem drop_count (files : Files) (f : Addr) : (files.drop f).count = files.count := rfl

theorem sub_one_eq_zero {r : UInt32} : r - 1 = 0 ↔ r = 1 := by
  constructor
  · intro h
    rw [← UInt32.sub_add_cancel r 1, h]
    rfl
  · rintro rfl
    rfl

theorem filePut_eq (hf : f ≠ 0) (files : Files) (dc : Dcache) : filePut files dc f
    = if (files.file f).fRefcnt = 1 then ((files.drop f).drop f, dc) else (files.drop f, dc) := by
  have hwrap : (0 : UInt32) - 1 ≠ 0 := by decide
  unfold filePut
  rw [if_neg hf]
  simp only [drop_refcnt, sub_one_eq_zero]
  by_cases hone : (files.file f).fRefcnt = 1
  · rw [if_pos hone, if_pos hone]
    -- `file_close` finds the count at 0
    unfold fileClose
    rw [if_neg hf]
    have hzero : (((files.drop f).drop f).file f).fRefcnt ≠ 0 := by
      rw [drop_refcnt, drop_refcnt, hone]
      exact hwrap
    simp only
    rw [if_neg hzero]
  · rw [if_neg hone, if_neg hone]

/-- The state in which a file has been closed. -/
def closeFile (f : Addr) (s : Files × Dcache) : Files × Dcache :=
  ({ s.1.drop f with
    list := s.1.list.del f
    count := s.1.count - 1
    live := Function.update s.1.live f false
    log := s.1.log ++ .drop f (s.1.file f).fRefcnt :: closing f (s.1.file f) },
    dentryPut s.2 (s.1.file f).fDentry)

theorem fileClose_eq (hf : f ≠ 0) (s : Files × Dcache) : (fileClose s.1 s.2 f).2
    = if (s.1.file f).fRefcnt = 1 then closeFile f s else (s.1.drop f, s.2) := by
  unfold fileClose
  rw [if_neg hf]
  simp only [drop_refcnt, sub_one_eq_zero]
  by_cases hone : (s.1.file f).fRefcnt = 1
  · rw [if_pos hone, if_pos hone, drop_file]
    unfold closeFile closing
    by_cases hop : (s.1.file f).fOp.any (·.hasRelease)
    · by_cases hd : (s.1.file f).fDentry = 0
      · simp [hop, hd, fileFree, hf, Files.record, dentryPut, drop_log]
      · simp [hop, hd, fileFree, hf, Files.record, drop_log]
    · by_cases hd : (s.1.file f).fDentry = 0
      · simp [hop, hd, fileFree, hf, dentryPut, drop_log]
      · simp [hop, hd, fileFree, hf, Files.record, drop_log]
  · rw [if_neg hone, if_neg hone]

/-- `file_open` returns open files, in memory that is on no list. -/
theorem openFile_fileOpen {files : Files} {dc : Dcache} {memory dentry : Addr} {iMode flags : UInt32}
    {iFop : Option FileOperations} {ret : Int} {xs : List Addr} (hxs : files.list.Circle 0 xs)
    (hmem : memory ∉ 0 :: xs)
    (h : fileOpen files dc memory iMode iFop ret dentry flags = (.ok f, s)) : OpenFile f s := by
  have hnull : memory ≠ 0 := fun heq => hmem (heq ▸ List.mem_cons_self)
  unfold fileOpen fileAlloc at h
  simp only [if_neg hnull] at h
  split at h
  · cases h
  rename_i hdentry
  split at h
  · cases h
  · cases h
    refine ⟨hnull, ?_, ⟨f :: xs, (hxs.init hmem).add hmem, List.mem_cons_self⟩, ?_, ?_⟩
    · exact Function.update_self _ _ _
    · simp only [Function.update_self]
      exact (not_or.mp hdentry).1
    · simp only [Function.update_self]

/-- A call that does not drop the last reference changes the count, and that is all. -/
def FileOp.Quiet (refcnt : UInt32) (op : FileOp) : Prop := op.isDrop → refcnt ≠ 0 ∧ refcnt ≠ 1

def FileOp.next (refcnt : UInt32) : FileOp → UInt32
  | get => refcnt + 1
  | put | close => refcnt - 1

theorem StaysOpen.refl (f : Addr) (s : Files × Dcache) : StaysOpen f s s :=
  ⟨⟨rfl, rfl, rfl, rfl⟩, [], (List.append_nil _).symm, List.not_mem_nil⟩

theorem StaysOpen.trans {u : Files × Dcache} (hst : StaysOpen f s t) (htu : StaysOpen f t u) :
    StaysOpen f s u := by
  obtain ⟨⟨hlive, hlist, hcount, hdc⟩, rs, hlog, hrs⟩ := hst
  obtain ⟨⟨hlive', hlist', hcount', hdc'⟩, rs', hlog', hrs'⟩ := htu
  refine ⟨⟨hlive'.trans hlive, hlist'.trans hlist, hcount'.trans hcount, hdc'.trans hdc⟩,
    rs ++ rs', ?_, ?_⟩
  · rw [hlog', hlog, List.map_append, List.append_assoc]
  · rw [List.mem_append]
    rintro (hmem | hmem)
    · exact hrs hmem
    · exact hrs' hmem

theorem staysOpen_drop (hne : (s.1.file f).fRefcnt ≠ 0) : StaysOpen f s (s.1.drop f, s.2) :=
  ⟨⟨rfl, rfl, rfl, rfl⟩, [(s.1.file f).fRefcnt], rfl, fun hmem =>
    hne (List.mem_singleton.mp hmem).symm⟩

theorem exec_get (hf : f ≠ 0) (s : Files × Dcache) : FileOp.get.exec f s
    = (s.1.setRefcnt f ((s.1.file f).fRefcnt + 1), s.2) := by
  simp [FileOp.exec, fileGet, hf]

/-- What a quiet call does. -/
theorem FileOp.Quiet.exec (hquiet : op.Quiet (s.1.file f).fRefcnt) (hf : f ≠ 0) :
    StaysOpen f s (op.exec f s) ∧ (op.exec f s).1.file f
      = { s.1.file f with fRefcnt := op.next (s.1.file f).fRefcnt } := by
  have hdrop : op.isDrop → StaysOpen f s (s.1.drop f, s.2) := fun h => staysOpen_drop (hquiet h).1
  cases op with
  | get =>
      rw [exec_get hf]
      refine ⟨⟨⟨rfl, rfl, rfl, rfl⟩, [], (List.append_nil _).symm, List.not_mem_nil⟩, ?_⟩
      simp [Files.setRefcnt, FileOp.next]
  | put =>
      rw [FileOp.exec, filePut_eq hf, if_neg (hquiet rfl).2]
      exact ⟨hdrop rfl, drop_file _ _⟩
  | close =>
      rw [FileOp.exec, fileClose_eq hf, if_neg (hquiet rfl).2]
      exact ⟨hdrop rfl, drop_file _ _⟩

/-- The events of a call. -/
def FileOp.events (f : Addr) (file : File) : FileOp → List FileEvent
  | get => []
  | put => .drop f file.fRefcnt :: if file.fRefcnt = 1 then [.drop f 0] else []
  | close => .drop f file.fRefcnt :: if file.fRefcnt = 1 then closing f file else []

theorem exec_log (hf : f ≠ 0) (op : FileOp) (s : Files × Dcache) :
    (op.exec f s).1.log = s.1.log ++ op.events f (s.1.file f) := by
  cases op with
  | get =>
      rw [exec_get hf]
      exact (List.append_nil _).symm
  | put =>
      rw [FileOp.exec, filePut_eq hf, FileOp.events]
      by_cases hone : (s.1.file f).fRefcnt = 1
      · rw [if_pos hone, if_pos hone, drop_log, drop_log, drop_refcnt, hone, List.append_assoc]
        rfl
      · rw [if_neg hone, if_neg hone, drop_log]
  | close =>
      rw [FileOp.exec, fileClose_eq hf, FileOp.events]
      by_cases hone : (s.1.file f).fRefcnt = 1
      · rw [if_pos hone, if_pos hone]
        rfl
      · rw [if_neg hone, if_neg hone, drop_log]

theorem free_mem_closing (f : Addr) (file : File) : .free f ∈ closing f file :=
  List.mem_append_right _ (List.mem_singleton_self _)

/-- A call that is not quiet shows. -/
theorem quiet_of_events (hfree : .free f ∉ op.events f (s.1.file f))
    (hzero : .drop f 0 ∉ op.events f (s.1.file f)) : op.Quiet (s.1.file f).fRefcnt := by
  rintro hdrop
  constructor
  · intro h
    cases op with
    | get => cases hdrop
    | put => exact hzero (h ▸ List.mem_cons_self)
    | close => exact hzero (h ▸ List.mem_cons_self)
  · intro h
    cases op with
    | get => cases hdrop
    | put =>
        rw [FileOp.events, if_pos h] at hzero
        exact hzero (List.mem_cons_of_mem _ (List.mem_singleton_self _))
    | close =>
        rw [FileOp.events, if_pos h] at hfree
        exact hfree (List.mem_cons_of_mem _ (free_mem_closing f _))

/-! ## Runs -/

theorem fileRun_concat (f : Addr) (s : Files × Dcache) (ops : List FileOp) (op : FileOp) :
    fileRun f s (ops ++ [op]) = op.exec f (fileRun f s ops) := List.foldl_concat _ _ _ _

theorem fileRun_append (f : Addr) (s : Files × Dcache) (ops ops' : List FileOp) :
    fileRun f s (ops ++ ops') = fileRun f (fileRun f s ops) ops' := List.foldl_append

theorem gets_concat (ops : List FileOp) (op : FileOp) :
    gets (ops ++ [op]) = gets ops + if op.isDrop then 0 else 1 := by
  rw [gets, List.countP_append, List.countP_singleton]
  cases op <;> rfl

theorem drops_concat (ops : List FileOp) (op : FileOp) :
    drops (ops ++ [op]) = drops ops + if op.isDrop then 1 else 0 := by
  rw [drops, List.countP_append, List.countP_singleton]
  rfl

open scoped UInt32.CommRing in
theorem held_concat (ops : List FileOp) (op : FileOp) : held (ops ++ [op]) = op.next (held ops) := by
  unfold held
  rw [gets_concat, drops_concat, UInt32.ofNat_add, UInt32.ofNat_add]
  have hone : UInt32.ofNat 1 = 1 := rfl
  have hzero : UInt32.ofNat 0 = 0 := rfl
  cases op with
  | get =>
      simp only [FileOp.isDrop, FileOp.next, if_false, Bool.false_eq_true, hone, hzero]
      ring
  | put =>
      simp only [FileOp.isDrop, FileOp.next, if_true, hone, hzero]
      ring
  | close =>
      simp only [FileOp.isDrop, FileOp.next, if_true, hone, hzero]
      ring

theorem Shared.concat_iff :
    Shared (ops ++ [op]) ↔ Shared ops ∧ op.Quiet (held ops) := by
  constructor
  · intro h
    refine ⟨fun before op' after heq => ?_, h ops op [] rfl⟩
    exact h before op' (after ++ [op]) (by rw [heq, List.append_assoc, List.cons_append])
  · rintro ⟨hops, hop⟩ before op' after heq
    rcases List.eq_nil_or_concat after with rfl | ⟨after, last, rfl⟩
    · obtain ⟨rfl, hlast⟩ := List.append_inj' heq rfl
      obtain rfl : op = op' := List.head_eq_of_cons_eq hlast
      exact hop
    · rw [List.concat_eq_append, ← List.cons_append, ← List.append_assoc] at heq
      exact hops before op' after (List.append_inj' heq rfl).1

/-- While no drop is the last, the file stays open, and the count is right. -/
theorem OpenFile.shared (h : OpenFile f s) (hshared : Shared ops) : StaysOpen f s (fileRun f s ops)
    ∧ (fileRun f s ops).1.file f = { s.1.file f with fRefcnt := held ops } := by
  induction ops using List.reverseRecOn with
  | nil =>
      refine ⟨.refl f s, ?_⟩
      have hone : held [] = (s.1.file f).fRefcnt := h.refcnt.symm
      rw [hone]
      rfl
  | append_singleton ops op ih =>
      obtain ⟨hops, hop⟩ := Shared.concat_iff.mp hshared
      obtain ⟨hopen, hfile⟩ := ih hops
      have hquiet : op.Quiet ((fileRun f s ops).1.file f).fRefcnt := by
        rw [hfile]
        exact hop
      obtain ⟨hstep, hfile'⟩ := hquiet.exec h.null
      rw [fileRun_concat, held_concat]
      refine ⟨hopen.trans hstep, ?_⟩
      rw [hfile', hfile]

theorem fileRun_log (hf : f ≠ 0) (s : Files × Dcache) (ops : List FileOp) :
    ∃ events, (fileRun f s ops).1.log = s.1.log ++ events := by
  induction ops using List.reverseRecOn with
  | nil => exact ⟨[], (List.append_nil _).symm⟩
  | append_singleton ops op ih =>
      obtain ⟨events, hlog⟩ := ih
      rw [fileRun_concat, exec_log hf, hlog, List.append_assoc]
      exact ⟨_, rfl⟩

/-- A run that neither frees the file nor drops a reference at count 0 drops none at count 1. -/
theorem OpenFile.shared_of_log (h : OpenFile f s) {events : List FileEvent}
    (hlog : (fileRun f s ops).1.log = s.1.log ++ events) (hfree : .free f ∉ events)
    (hzero : .drop f 0 ∉ events) : Shared ops := by
  induction ops using List.reverseRecOn generalizing events with
  | nil =>
      intro before op after heq
      simp at heq
  | append_singleton ops op ih =>
      obtain ⟨events', hlog'⟩ := fileRun_log h.null s ops
      rw [fileRun_concat, exec_log h.null, hlog', List.append_assoc, List.append_cancel_left_eq]
        at hlog
      rw [← hlog, List.mem_append, not_or] at hfree hzero
      have hops := ih hlog' hfree.1 hzero.1
      refine Shared.concat_iff.mpr ⟨hops, ?_⟩
      have hquiet := quiet_of_events hfree.2 hzero.2
      rwa [(h.shared hops).2] at hquiet

theorem OpenFile.shared_iff (h : OpenFile f s) :
    Shared ops ↔ StaysOpen f s (fileRun f s ops) := by
  refine ⟨fun hshared => (h.shared hshared).1, ?_⟩
  rintro ⟨-, refcnts, hlog, hzero⟩
  apply h.shared_of_log hlog
  · simp
  · simpa using hzero

/-- After the last drop there are only gets, on memory that is no longer the file's. -/
theorem staysOpen_gets (hf : f ≠ 0) (hops : ∀ op ∈ ops, op = .get) (s : Files × Dcache) :
    StaysOpen f s (fileRun f s ops) := by
  induction ops generalizing s with
  | nil => exact .refl f s
  | cons op ops ih =>
      obtain rfl : op = .get := hops op List.mem_cons_self
      have hquiet : FileOp.get.Quiet (s.1.file f).fRefcnt := fun h => nomatch h
      exact (hquiet.exec hf).1.trans (ih (fun op hop => hops op (List.mem_cons_of_mem _ hop)) _)

theorem closed_closeFile (hone : (s.1.file f).fRefcnt = 1) : Closed f s (closeFile f s) := by
  refine ⟨?_, rfl, rfl, rfl, fun xs hxs hmem => hxs.del hmem⟩
  rw [← hone]
  rfl

/-- Only `file_close` closes a file, and only at count 1. -/
theorem closed_exec_iff (hf : f ≠ 0) :
    Closed f s (op.exec f s) ↔ op = .close ∧ (s.1.file f).fRefcnt = 1 := by
  constructor
  · rintro ⟨hlog, -⟩
    rw [exec_log hf, List.append_cancel_left_eq] at hlog
    cases op with
    | get => cases hlog
    | put =>
        -- nothing is freed
        exfalso
        have hmem : .free f ∈ FileOp.put.events f (s.1.file f) :=
          hlog ▸ List.mem_cons_of_mem _ (free_mem_closing f _)
        rw [FileOp.events] at hmem
        split at hmem <;> simp at hmem
    | close => exact ⟨rfl, (FileEvent.drop.inj (List.head_eq_of_cons_eq hlog)).2⟩
  · rintro ⟨rfl, hone⟩
    rw [FileOp.exec, fileClose_eq hf, if_pos hone]
    exact closed_closeFile hone

theorem OpenFile.lifetime_iff (h : OpenFile f s) : Lifetime f s ops ↔ LastIsClose ops := by
  constructor
  · rintro ⟨before, last, after, rfl, -, hafter, hopen, hclosed, -⟩
    have hshared := h.shared_iff.mpr hopen
    rw [fileRun_concat] at hclosed
    obtain ⟨rfl, hone⟩ := (closed_exec_iff h.null).mp hclosed
    rw [(h.shared hshared).2] at hone
    exact ⟨before, after, rfl, hafter, hone, hshared⟩
  · rintro ⟨before, after, rfl, hafter, hone, hshared⟩
    obtain ⟨hopen, hfile⟩ := h.shared hshared
    refine ⟨before, .close, after, rfl, rfl, hafter, hopen, ?_, ?_⟩
    · rw [fileRun_concat]
      refine (closed_exec_iff h.null).mpr ⟨rfl, ?_⟩
      rw [hfile]
      exact hone
    · rw [List.append_cons before .close after, fileRun_append f s (before ++ [FileOp.close])]
      exact staysOpen_gets h.null hafter _

/-! ## Callers that hold what they drop -/

open scoped UInt32.CommRing in
theorem held_eq {k : Nat} (h : gets ops = drops ops + k) : held ops = UInt32.ofNat (1 + k) := by
  have hone : UInt32.ofNat 1 = 1 := rfl
  rw [held, h, UInt32.ofNat_add, UInt32.ofNat_add, hone]
  ring

theorem ofNat_ne {k : Nat} (hpos : 0 < k) (hk : k < 2 ^ 32 - 1) :
    UInt32.ofNat (1 + k) ≠ 0 ∧ UInt32.ofNat (1 + k) ≠ 1 := by
  have hnat : (UInt32.ofNat (1 + k)).toNat = 1 + k := UInt32.toNat_ofNat_of_lt' (by
    have hsize : UInt32.size = 2 ^ 32 := rfl
    omega)
  constructor
  · intro h
    have hzero : (UInt32.ofNat (1 + k)).toNat = 0 := by rw [h]; rfl
    omega
  · intro h
    have hone : (UInt32.ofNat (1 + k)).toNat = 1 := by rw [h]; rfl
    omega

theorem drops_append (ops ops' : List FileOp) : drops (ops ++ ops') = drops ops + drops ops' :=
  List.countP_append

theorem gets_append (ops ops' : List FileOp) : gets (ops ++ ops') = gets ops + gets ops' :=
  List.countP_append

/-- When each call is made on a file that is still referenced, and the references stay below
`2 ^ 32`, it is left to whether the last call is a `file_close`. -/
theorem lastIsClose_iff (hdrops : drops ops = gets ops + 1)
    (hheld : ∀ before op after, ops = before ++ op :: after → drops before ≤ gets before)
    (hsize : gets ops < 2 ^ 32 - 1) : LastIsClose ops ↔ ops.getLast? = some .close := by
  rw [List.getLast?_eq_some_iff]
  constructor
  · rintro ⟨before, after, rfl, hafter, -, -⟩
    refine ⟨before, ?_⟩
    cases after with
    | nil => rfl
    | cons op after =>
        -- the reference that this call needs is gone
        exfalso
        have hle := hheld (before ++ [.close]) op after (List.append_cons _ _ _)
        have hnone : drops (op :: after) = 0 := by
          rw [drops, List.countP_eq_zero]
          intro op' hop'
          rw [hafter op' hop']
          exact Bool.false_ne_true
        rw [List.append_cons, drops_append, gets_append, hnone] at hdrops
        omega
  · rintro ⟨before, rfl⟩
    rw [drops_concat, gets_concat] at hdrops
    have heq : gets before = drops before + 0 := by
      simp only [FileOp.isDrop, if_true] at hdrops
      omega
    refine ⟨before, [], rfl, fun _ h => absurd h List.not_mem_nil, held_eq heq, ?_⟩
    rintro b op a rfl hop
    have hsplit : b ++ op :: a ++ [FileOp.close] = (b ++ [op]) ++ (a ++ [.close]) := by simp
    have hlt : drops (b ++ [op]) ≤ gets (b ++ [op]) := by
      cases ha : a ++ [FileOp.close] with
      | nil => simp at ha
      | cons op' a' => exact hheld _ op' a' (by rw [hsplit, ha])
    rw [drops_concat, gets_concat, hop] at hlt
    simp only [if_true] at hlt
    have hb : gets b = drops b + (gets b - drops b) := by omega
    rw [held_eq hb]
    rw [gets_concat, gets_append] at hsize
    exact ofNat_ne (by omega) (by omega)

/-! ## Descriptor tables -/

/-- Files have references dropped, and nothing else happens to them or to the dentries. -/
def OnlyDrops (s t : Files × Dcache) : Prop :=
  (t.1.live = s.1.live ∧ t.1.list = s.1.list ∧ t.1.count = s.1.count ∧ t.2 = s.2)
    ∧ ∃ refcnts : List (Addr × UInt32),
      t.1.log = s.1.log ++ refcnts.map fun r => .drop r.1 r.2

theorem OnlyDrops.refl (s : Files × Dcache) : OnlyDrops s s :=
  ⟨⟨rfl, rfl, rfl, rfl⟩, [], (List.append_nil _).symm⟩

theorem OnlyDrops.trans {u : Files × Dcache} (hst : OnlyDrops s t) (htu : OnlyDrops t u) :
    OnlyDrops s u := by
  obtain ⟨⟨hlive, hlist, hcount, hdc⟩, rs, hlog⟩ := hst
  obtain ⟨⟨hlive', hlist', hcount', hdc'⟩, rs', hlog'⟩ := htu
  refine ⟨⟨hlive'.trans hlive, hlist'.trans hlist, hcount'.trans hcount, hdc'.trans hdc⟩,
    rs ++ rs', ?_⟩
  rw [hlog', hlog, List.map_append, List.append_assoc]

theorem onlyDrops_drop (files : Files) (dc : Dcache) (f : Addr) :
    OnlyDrops (files, dc) (files.drop f, dc) :=
  ⟨⟨rfl, rfl, rfl, rfl⟩, [(f, (files.file f).fRefcnt)], rfl⟩

/-- `file_put` closes no file. -/
theorem filePut_open (files : Files) (dc : Dcache) (f : Addr) :
    OnlyDrops (files, dc) (filePut files dc f) := by
  by_cases hf : f = 0
  · rw [filePut, if_pos hf]
    exact .refl _
  · rw [filePut_eq hf]
    split
    · exact (onlyDrops_drop files dc f).trans (onlyDrops_drop _ dc f)
    · exact onlyDrops_drop files dc f

theorem fdFree_open (fdt : FdTable) (files : Files) (dc : Dcache) (fd : Int) :
    OnlyDrops (files, dc) (fdFree fdt files dc fd).2 := by
  unfold fdFree
  split
  · exact .refl _
  simp only
  split
  · exact filePut_open files dc _
  · exact .refl _

theorem fdTableFree_open (fdt : FdTable) (files : Files) (dc : Dcache) :
    OnlyDrops (files, dc) (fdTableFree fdt files dc) := by
  unfold fdTableFree
  generalize List.range fdt.maxFds.toNat = entries
  induction entries generalizing files dc with
  | nil => exact .refl _
  | cons i entries ih =>
      have hentry : OnlyDrops (files, dc) (fdTableFreeEntry fdt (files, dc) i) := by
        unfold fdTableFreeEntry
        split
        · exact filePut_open files dc _
        · exact .refl _
      exact hentry.trans (ih _ _)

/-- **The lifetime of a file.** However it is shared, it lives until its last drop exactly if this
is a `file_close`, with no drop at count 1 or 0 before. The descriptor tables drop with
`file_put`, and never close a file. -/
theorem fileLifetime_iff (h : OpenFile f s) :
    (∀ ops, drops ops = gets ops + 1 → (Lifetime f s ops ↔ LastIsClose ops))
      ∧ (∀ fdt fd, OnlyDrops s (fdFree fdt s.1 s.2 fd).2)
      ∧ ∀ fdt, OnlyDrops s (fdTableFree fdt s.1 s.2) := by
  refine ⟨fun ops _ => h.lifetime_iff, fun fdt fd => ?_, fun fdt => ?_⟩
  · exact fdFree_open fdt s.1 s.2 fd
  · exact fdTableFree_open fdt s.1 s.2

/-- The files after the first `file_open`, of the dentry at `0x80001000`. -/
def firstOpened : Except Int Addr × Files × Dcache :=
  fileOpen (fileInit (fun _ => ⟨0, 0, none, 0, 0, 0, 0⟩) ⟨id, id⟩)
    (dentryInit (fun _ => ⟨qstrInit [97], 0x80002000, 0x80003000, 0x80001000, 1⟩) ⟨id, id⟩ ⟨id, id⟩)
    0x80000000 S_IFREG (some ⟨false, true⟩) 0 0x80001000 0

theorem openFile_firstOpened : OpenFile 0x80000000 firstOpened.2 := by
  have hopen : firstOpened = (.ok 0x80000000, firstOpened.2) := rfl
  have hmem : (0x80000000 : Addr) ∉ [0] := by decide
  unfold firstOpened at hopen
  exact openFile_fileOpen (Links.circle_init ⟨id, id⟩ 0) hmem hopen

/-- The file is shared, given up with `file_put`, and closed. -/
theorem fileLifetime_iff_shared : ∃ s, firstOpened = (.ok 0x80000000, s) ∧ OpenFile 0x80000000 s
    ∧ drops [.get, .put, .close] = gets [.get, .put, .close] + 1
    ∧ (Lifetime 0x80000000 s [.get, .put, .close] ↔ LastIsClose [.get, .put, .close]) := by
  have h := openFile_firstOpened
  exact ⟨_, rfl, h, rfl, (fileLifetime_iff h).1 _ rfl⟩

/-- The only reference to a file is dropped with `file_put`: the file stays on `file_list`, its
release operation does not run, and the count is `2 ^ 32 - 1`; so for `fd_free` and
`fd_table_free`. -/
theorem not_lifetime : ∃ s, firstOpened = (.ok 0x80000000, s) ∧ OpenFile 0x80000000 s
    ∧ drops [.put] = gets [.put] + 1 ∧ ¬Lifetime 0x80000000 s [.put]
    ∧ ∀ fdt : FdTable, fdt = { fdTableAlloc with
        fds := Function.update fdTableAlloc.fds 0 0x80000000, openFds := 1 } →
      ∀ t, t = (fdFree fdt s.1 s.2 0).2 ∨ t = fdTableFree fdt s.1 s.2 →
        t.1.live 0x80000000 = true ∧ (t.1.file 0x80000000).fRefcnt = 0xffffffff
          ∧ t.1.log = [.drop 0x80000000 1, .drop 0x80000000 0] := by
  have h := openFile_firstOpened
  refine ⟨_, rfl, h, rfl, ?_, ?_⟩
  · rintro ⟨before, last, after, heq, -, -, -, hclosed, -⟩
    rw [fileRun_concat, closed_exec_iff h.null] at hclosed
    obtain ⟨rfl, -⟩ := hclosed
    have hmem : FileOp.close ∈ [FileOp.put] := heq ▸ List.mem_append_right _ List.mem_cons_self
    exact absurd hmem (by decide)
  · rintro fdt rfl t (rfl | rfl)
    · decide
    · decide

end NoobKernel.Fs
