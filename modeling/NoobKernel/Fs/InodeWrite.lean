import NoobKernel.Fs.Inode

set_option autoImplicit false

/-! # Writing inodes back (`fs/inode.c`)

`I_DIRTY` is 3, the sum of `I_NEW` and `I_CREATING`, where the other two are single bits. So
`inode_write` takes a new inode for a dirty one, `inode_dirty` makes every inode a new one that is
being created, and a successful `write_inode` ends both states (`writesOk_iff`).
-/

namespace NoobKernel.Fs

def I_CREATING : UInt32 := 2
def I_DIRTY : UInt32 := 3

/-- Which operations for the contents of inodes a super block has. -/
structure WriteOperations where
  dirtyInode : Bool
  writeInode : Bool

/-- A call of such an operation. -/
inductive WriteCall
  | dirtyInode (a : Addr)
  | writeInode (a : Addr)
  deriving DecidableEq

def Icache.setState (ic : Icache) (a : Addr) (state : UInt32) : Icache :=
  ic.setInode a { ic.inode a with iState := state }

@[simp] theorem Icache.setState_inode (ic : Icache) (a : Addr) (state : UInt32) :
    (ic.setState a state).inode a = { ic.inode a with iState := state } :=
  Function.update_self _ _ _

section

variable (wops : Addr → WriteOperations)

def inodeDirty (ic : Icache) (a : Addr) : Icache × List WriteCall :=
  if a = 0 then (ic, [])
  else
    let sb := (ic.inode a).iSb
    (ic.setState a ((ic.inode a).iState ||| I_DIRTY),
      if sb ≠ 0 ∧ (wops sb).dirtyInode then [.dirtyInode a] else [])

/-- `ret` is what `write_inode` returns, if it is called. -/
def inodeWrite (ic : Icache) (a : Addr) (ret : Int) : Int × Icache × List WriteCall :=
  if a = 0 then (-EINVAL, ic, [])
  else if (ic.inode a).iState &&& I_DIRTY = 0 then (0, ic, [])
  else if (ic.inode a).iSb = 0 ∨ (wops (ic.inode a).iSb).writeInode = false then (-ENOSYS, ic, [])
  else
    (ret, if ret = 0 then ic.setState a ((ic.inode a).iState &&& ~~~I_DIRTY) else ic,
      [.writeInode a])

end

/-! ## Runs -/

/-- A call for one inode. -/
inductive WritebackCall
  | alloc
  | dirty
  | write (ret : Int)
  deriving DecidableEq

/-- The cache, with whether the inode has been made dirty since the last `write_inode` that returned
0, or since it was allocated. -/
structure WriteState where
  ic : Icache
  modified : Bool

section

variable (ops : Addr → SuperOperations) (wops : Addr → WriteOperations) (sb a : Addr)

def WriteState.next (s : WriteState) : WritebackCall → WriteState
  | .alloc => ⟨(inodeAlloc ops s.ic sb a).2, false⟩
  | .dirty => ⟨(inodeDirty wops s.ic a).1, true⟩
  | .write ret =>
      let r := inodeWrite wops s.ic a ret
      ⟨r.2.1, if r.2.2 ≠ [] ∧ ret = 0 then false else s.modified⟩

/-- `inode_write` calls `write_inode` for a modified inode and no other; and when it succeeds or has
nothing to do, the inode is as new as it was. -/
def WriteState.WriteOk (s : WriteState) (ret : Int) : Prop :=
  let r := inodeWrite wops s.ic a ret
  (.writeInode a ∈ r.2.2 ↔ s.modified = true)
    ∧ (r.1 = 0 → (r.2.1.inode a).iState &&& I_NEW = (s.ic.inode a).iState &&& I_NEW
      ∧ (r.2.1.inode a).iState &&& I_CREATING = (s.ic.inode a).iState &&& I_CREATING)

/-- All the writes of a run are so. -/
def WriteState.WritesOk : WriteState → List WritebackCall → Prop
  | _, [] => True
  | s, .write ret :: calls =>
      s.WriteOk wops a ret ∧ WritesOk (s.next ops wops sb a (.write ret)) calls
  | s, call :: calls => WritesOk (s.next ops wops sb a call) calls

end

/-- No write before the inode has been modified once, and `write_inode` never returns 0. -/
def NeverClean : (modified : Bool) → List WritebackCall → Prop
  | _, [] => True
  | _, .alloc :: calls => NeverClean false calls
  | _, .dirty :: calls => NeverClean true calls
  | modified, .write ret :: calls => modified = true ∧ ret ≠ 0 ∧ NeverClean modified calls

namespace WriteState

/-- The state of an inode that has never been written back with success. -/
structure Unwritten (s : WriteState) (sb a : Addr) : Prop where
  sb : (s.ic.inode a).iSb = sb
  state : (s.ic.inode a).iState = if s.modified then I_NEW ||| I_CREATING else I_NEW

variable {ops : Addr → SuperOperations} {wops : Addr → WriteOperations} {sb a : Addr}
  {s : WriteState} {ret : Int}

theorem unwritten_alloc (ha : a ≠ 0) (herr : isErr a = false) (s : WriteState) :
    (s.next ops wops sb a .alloc).Unwritten sb a := by
  have halloc : (inodeAlloc ops s.ic sb a).2 = s.ic.construct sb a := by
    unfold inodeAlloc
    simp [ha, herr]
  have hinode : ((s.ic.construct sb a).inode a) = newInode sb := Function.update_self _ _ _
  constructor
  · show ((inodeAlloc ops s.ic sb a).2.inode a).iSb = sb
    rw [halloc, hinode]
    rfl
  · show ((inodeAlloc ops s.ic sb a).2.inode a).iState = _
    rw [halloc, hinode]
    rfl

theorem Unwritten.dirty (ha : a ≠ 0) (h : s.Unwritten sb a) :
    (s.next ops wops sb a .dirty).Unwritten sb a := by
  constructor
  · simpa [next, inodeDirty, ha] using h.sb
  · have hstate := h.state
    cases hm : s.modified <;> rw [hm] at hstate <;> simp [next, inodeDirty, ha, hstate] <;> decide

/-- Every write calls `write_inode`. -/
theorem Unwritten.write (ha : a ≠ 0) (hsb : sb ≠ 0) (hop : (wops sb).writeInode = true)
    (h : s.Unwritten sb a) : inodeWrite wops s.ic a ret
      = (ret, if ret = 0 then s.ic.setState a 0 else s.ic, [.writeInode a]) := by
  have hstate := h.state
  have hdirty : ¬(s.ic.inode a).iState &&& I_DIRTY = 0 := by
    rw [hstate]
    cases s.modified <;> decide
  have hclear : (s.ic.inode a).iState &&& ~~~I_DIRTY = 0 := by
    rw [hstate]
    cases s.modified <;> decide
  unfold inodeWrite
  rw [if_neg ha, if_neg hdirty, h.sb, if_neg (by simp [hsb, hop]), hclear]

/-- Which is right as long as it fails for a modified inode. -/
theorem Unwritten.writeOk_iff (ha : a ≠ 0) (hsb : sb ≠ 0) (hop : (wops sb).writeInode = true)
    (h : s.Unwritten sb a) : s.WriteOk wops a ret ↔ s.modified = true ∧ ret ≠ 0 := by
  unfold WriteOk
  rw [h.write ha hsb hop]
  have hstate := h.state
  constructor
  · rintro ⟨hcall, hkeep⟩
    have hmod : s.modified = true := hcall.mp List.mem_cons_self
    refine ⟨hmod, fun hret => ?_⟩
    -- the inode was a new one, and is not any more
    have hnew := (hkeep hret).1
    rw [hstate, if_pos hmod] at hnew
    simp only [if_pos hret, Icache.setState_inode] at hnew
    exact absurd hnew (by decide)
  · rintro ⟨hmod, hret⟩
    exact ⟨iff_of_true List.mem_cons_self hmod, fun hzero => absurd hzero hret⟩

/-- **Write-back.** From `inode_alloc` on, for any sequence of calls, `inode_write` does right
exactly as long as it never runs before the first `inode_dirty` and `write_inode` never succeeds. -/
theorem writesOk_iff (ha : a ≠ 0) (herr : isErr a = false) (hsb : sb ≠ 0)
    (hop : (wops sb).writeInode = true) (s : WriteState) (calls : List WritebackCall) :
    (s.next ops wops sb a .alloc).WritesOk ops wops sb a calls ↔ NeverClean false calls := by
  have hrun : ∀ t : WriteState, t.Unwritten sb a →
      (t.WritesOk ops wops sb a calls ↔ NeverClean t.modified calls) := by
    clear s
    induction calls with
    | nil => exact fun _ _ => Iff.rfl
    | cons call calls ih =>
        intro t h
        cases call with
        | alloc => exact ih _ (unwritten_alloc ha herr t)
        | dirty => exact ih _ (h.dirty ha)
        | write ret =>
            rw [WritesOk, NeverClean, h.writeOk_iff ha hsb hop, and_assoc]
            refine and_congr_right fun hmod => and_congr_right fun hret => ?_
            have hnext : t.next ops wops sb a (.write ret) = t := by
              simp only [next, h.write ha hsb hop, if_neg hret]
              rw [if_neg fun hboth => hret hboth.2]
            rw [hnext]
            exact ih t h
  exact hrun _ (unwritten_alloc ha herr s)

/-- No inodes, and a super block at `0x80002000` that can write them. -/
def noInodes : WriteState :=
  ⟨inodeInit (fun _ => newInode 0) ⟨id, id⟩, false⟩

/-- A modified inode, and a device that fails. -/
theorem writesOk_iff_failing :
    (noInodes.next (fun _ => ⟨false, false, false⟩) (fun _ => ⟨false, true⟩) 0x80002000 0x80000000
        .alloc).WritesOk (fun _ => ⟨false, false, false⟩) (fun _ => ⟨false, true⟩) 0x80002000
        0x80000000 [.dirty, .write (-5), .dirty, .write (-5)]
      ↔ NeverClean false [.dirty, .write (-5), .dirty, .write (-5)] :=
  writesOk_iff (by decide) (by decide) (by decide) rfl _ _

/-- An inode that nobody has modified is written, and one that has been modified is not new
afterwards. -/
theorem not_writesOk :
    (¬(noInodes.next (fun _ => ⟨false, false, false⟩) (fun _ => ⟨false, true⟩) 0x80002000 0x80000000
        .alloc).WritesOk (fun _ => ⟨false, false, false⟩) (fun _ => ⟨false, true⟩) 0x80002000
        0x80000000 [.write 0])
      ∧ ¬(noInodes.next (fun _ => ⟨false, false, false⟩) (fun _ => ⟨false, true⟩) 0x80002000
        0x80000000 .alloc).WritesOk (fun _ => ⟨false, false, false⟩) (fun _ => ⟨false, true⟩)
        0x80002000 0x80000000 [.dirty, .write 0] := by
  constructor
  · rintro ⟨⟨hcall, -⟩, -⟩
    exact absurd (hcall.mp (by decide)) (by decide)
  · rintro ⟨⟨-, hkeep⟩, -⟩
    exact absurd (hkeep (by decide)).1 (by decide)

end WriteState

end NoobKernel.Fs
