import NoobKernel.Lib.Lts
import NoobKernel.Lib.Rv64Spaces
import NoobKernel.Trap.Kernelvec

set_option autoImplicit false

/-! # Traps from user mode (`trap/trampoline.S`)

`uservec` takes a trap from user mode into the kernel and `userret` leads back. Both run at one
address in the user's and in the kernel's address space, and exchange the user's registers with
the `struct trapframe` that the user's space maps at `TRAPFRAME`; the kernel sees the same frame
at its physical address.

The kernel's side, between the jump to `kernel_trap` and the call of `userret`, is any code that
does what the comments of `trampoline.S` ask of `usertrapret` (`KernelRun`). A process is then run
by the hardware, the trampoline and the kernel in turns (`UserStep`), and this refines a process
whose traps are single steps on its registers (`ProcStep`).
-/

namespace NoobKernel.Trap

open Rv64

def TRAPFRAME : Word := 0x3fffffe000

/-! ## The code -/

/-- The slots of `struct trapframe` in the order in which both routines use them; `a0` is saved and
restored by way of `sscratch`. -/
def tfSlots : List (Reg × Nat) :=
  [(.ra, 40), (.sp, 48), (.gp, 56), (.tp, 64), (.t0, 72), (.t1, 80), (.t2, 88), (.s0, 96),
   (.s1, 104), (.a1, 120), (.a2, 128), (.a3, 136), (.a4, 144), (.a5, 152), (.a6, 160),
   (.a7, 168), (.s2, 176), (.s3, 184), (.s4, 192), (.s5, 200), (.s6, 208), (.s7, 216),
   (.s8, 224), (.s9, 232), (.s10, 240), (.s11, 248), (.t3, 256), (.t4, 264), (.t5, 272),
   (.t6, 280)]

/-- `uservec` behind the stores of the registers. -/
def uservecTail : List SpaceInstr :=
  [.csrr .t0 .sscratch, .sd .t0 112 .a0, .csrr .t1 .sepc, .sd .t1 24 .a0,
   .ld .sp 8 .a0, .ld .tp 32 .a0, .ld .t0 16 .a0, .ld .t1 0 .a0,
   .csrw .satp .t1, .sfence, .jr .t0]

def uservec : List SpaceInstr :=
  .csrrw .a0 .sscratch .a0 :: (Spaced.saves .a0 tfSlots ++ uservecTail)

/-- `userret` before the loads of the registers. -/
def userretHead : List SpaceInstr :=
  [.csrw .satp .a1, .sfence, .ld .t0 112 .a0, .csrw .sscratch .t0]

def userret : List SpaceInstr :=
  userretHead ++ (Spaced.restores .a0 tfSlots ++ [.csrrw .a0 .sscratch .a0, .sret])

/-! ## Processes -/

/-- What belongs to a process: its address space, the physical address of its trap frame, and what
the kernel has put into the frame for its own entry. -/
structure UserProc where
  satp : Word
  frame : Word
  kernelSatp : Word
  kernelSp : Word
  kernelTrap : Word
  kernelHartid : Word

/-- The offsets in `struct trapframe`. -/
def tfSlot : Reg → Nat
  | .ra => 40 | .sp => 48 | .gp => 56 | .tp => 64
  | .t0 => 72 | .t1 => 80 | .t2 => 88 | .s0 => 96 | .s1 => 104
  | .a0 => 112 | .a1 => 120 | .a2 => 128 | .a3 => 136
  | .a4 => 144 | .a5 => 152 | .a6 => 160 | .a7 => 168
  | .s2 => 176 | .s3 => 184 | .s4 => 192 | .s5 => 200 | .s6 => 208 | .s7 => 216
  | .s8 => 224 | .s9 => 232 | .s10 => 240 | .s11 => 248
  | .t3 => 256 | .t4 => 264 | .t5 => 272 | .t6 => 280

/-- A user's registers and program counter. -/
@[ext] structure Context where
  x : Reg → Word
  pc : Word

variable (tr : Word → Word → Word) (P : UserProc)

/-- The user's space has the frame at `TRAPFRAME`. -/
def MapsFrame : Prop :=
  ∀ o < 288, tr P.satp (TRAPFRAME + BitVec.ofNat 64 o) = P.frame + BitVec.ofNat 64 o

namespace UserProc

def slot (o : Nat) : Word := P.frame + BitVec.ofNat 64 o

/-- The context in the frame. -/
def saved (mem : Word → Word) : Context := ⟨fun r => mem (P.slot (tfSlot r)), mem (P.slot 24)⟩

/-- The kernel's part of the frame. -/
structure Prepared (mem : Word → Word) : Prop where
  satp : mem (P.slot 0) = P.kernelSatp
  sp : mem (P.slot 8) = P.kernelSp
  trap : mem (P.slot 16) = P.kernelTrap
  hartid : mem (P.slot 32) = P.kernelHartid

/-- The process is in user mode, or has just trapped. -/
structure InUser (m : Spaced) : Prop where
  satp : m.csr .satp = P.satp
  sscratch : m.csr .sscratch = TRAPFRAME
  prepared : P.Prepared m.mem

end UserProc

/-! ## `uservec` -/

variable {tr P} {m : Spaced}

theorem place_a0 (maps : MapsFrame tr P) (hsatp : m.csr .satp = P.satp)
    (ha0 : m.x .a0 = TRAPFRAME) {o : Nat} (ho : o < 288) : m.place tr .a0 o = P.slot o := by
  rw [Spaced.place, hsatp, ha0]
  exact maps o ho

theorem slot_ne {o o' : Nat} (ho : o < 288) (ho' : o' < 288) (hne : o ≠ o') :
    P.slot o ≠ P.slot o' := fun h => hne
  (add_ofNat_inj P.frame (ho.trans (by decide)) (ho'.trans (by decide)) h)

theorem tfSlots_lt : ∀ p ∈ tfSlots, 40 ≤ p.2 ∧ p.2 < 288 ∧ p.2 ≠ 112 := by decide

theorem tfSlots_slot : ∀ p ∈ tfSlots, p.2 = tfSlot p.1 := by decide

theorem mem_tfSlots {r : Reg} (hr : r ≠ .a0) : (r, tfSlot r) ∈ tfSlots := by
  revert hr
  cases r <;> decide

theorem places_tfSlots (maps : MapsFrame tr P) (hsatp : m.csr .satp = P.satp)
    (ha0 : m.x .a0 = TRAPFRAME) :
    m.places tr .a0 tfSlots = tfSlots.map fun p => P.slot p.2 :=
  List.map_congr_left fun p hp => place_a0 maps hsatp ha0 (tfSlots_lt p hp).2.1

theorem tfSlots_nodup : (tfSlots.map fun p => P.slot p.2).Nodup := by
  have hnd : (tfSlots.map Prod.snd).Nodup := by decide
  refine List.Nodup.map_on ?_ (List.Nodup.of_map _ hnd)
  intro p hp q hq heq
  by_contra hne
  refine slot_ne (tfSlots_lt p hp).2.1 (tfSlots_lt q hq).2.1 (fun h => hne ?_) heq
  exact List.inj_on_of_nodup_map hnd hp hq h

/-- The kernel is entered at `kernel_trap`, in its own space, on its own stack and with its own
`tp`, which come from the frame; `a0` is the frame's address for the user. -/
structure Entered (P : UserProc) (k k' : Spaced) : Prop where
  mem : k'.mem = ((k.store (P.slot 112) (k.csr .sscratch)).store (P.slot 24) (k.csr .sepc)).mem
  satp : k'.csr .satp = k'.mem (P.slot 0)
  sp : k'.x .sp = k'.mem (P.slot 8)
  tp : k'.x .tp = k'.mem (P.slot 32)
  pc : k'.pc = k'.mem (P.slot 16)
  others : ∀ r, r ≠ .sp → r ≠ .tp → r ≠ .t0 → r ≠ .t1 → k'.x r = k.x r
  csr : ∀ c, c ≠ .satp → k'.csr c = k.csr c

theorem exec_uservecTail (maps : MapsFrame tr P) (hsatp : m.csr .satp = P.satp)
    (ha0 : m.x .a0 = TRAPFRAME) : Entered P m (m.exec tr uservecTail) := by
  have hplace : ∀ o < 288, m.place tr .a0 o = P.slot o := fun o ho => place_a0 maps hsatp ha0 ho
  -- the frame is complete, then the kernel's registers come from it
  set k : Spaced := (((m.setX .t0 (m.csr .sscratch)).store (P.slot 112) (m.csr .sscratch)).setX .t1
    (m.csr .sepc)).store (P.slot 24) (m.csr .sepc) with hk
  set k' : Spaced := (((k.setX .sp (k.mem (P.slot 8))).setX .tp (k.mem (P.slot 32))).setX .t0
    (k.mem (P.slot 16))).setX .t1 (k.mem (P.slot 0)) with hk'
  have hexec : m.exec tr uservecTail
      = (k'.setCsr .satp (k.mem (P.slot 0))).setPc (k.mem (P.slot 16)) := by
    simp only [uservecTail, Spaced.exec_cons, Spaced.exec_nil, Spaced.step, ne_eq, reduceCtorEq,
      not_false_eq_true, Spaced.place_setX, Spaced.place_store, Nat.reduceLT, hplace,
      Spaced.setX_csr, Spaced.store_csr, Spaced.setX_x_self, Spaced.setX_mem, hk, hk']
    rfl
  rw [hexec]
  refine ⟨rfl, Spaced.setCsr_csr_self k' .satp (k.mem (P.slot 0)), ?_, ?_, rfl, fun r hsp htp ht0 ht1 => ?_,
    fun c hc => ?_⟩
  · show k'.x .sp = _
    rw [hk', Spaced.setX_x_of_ne _ _ (by decide), Spaced.setX_x_of_ne _ _ (by decide),
      Spaced.setX_x_of_ne _ _ (by decide), Spaced.setX_x_self]
    rfl
  · show k'.x .tp = _
    rw [hk', Spaced.setX_x_of_ne _ _ (by decide), Spaced.setX_x_of_ne _ _ (by decide),
      Spaced.setX_x_self]
    rfl
  · show k'.x r = _
    rw [hk', Spaced.setX_x_of_ne _ _ ht1, Spaced.setX_x_of_ne _ _ ht0, Spaced.setX_x_of_ne _ _ htp,
      Spaced.setX_x_of_ne _ _ hsp, hk, Spaced.store_x, Spaced.setX_x_of_ne _ _ ht1,
      Spaced.store_x, Spaced.setX_x_of_ne _ _ ht0]
  · exact Spaced.setCsr_csr_of_ne _ _ hc

/-- What the kernel finds at `kernel_trap`. -/
structure KernelEntry (P : UserProc) (m k : Spaced) : Prop where
  saved : P.saved k.mem = ⟨m.x, m.csr .sepc⟩
  prepared : P.Prepared k.mem
  outside : ∀ a, (∀ o < 288, a ≠ P.slot o) → k.mem a = m.mem a
  satp : k.csr .satp = P.kernelSatp
  sp : k.x .sp = P.kernelSp
  tp : k.x .tp = P.kernelHartid
  pc : k.pc = P.kernelTrap
  gp : k.x .gp = m.x .gp

/-- **What `uservec` hands to the kernel.** -/
theorem exec_uservec (maps : MapsFrame tr P) (user : P.InUser m) :
    KernelEntry P m (m.exec tr uservec) := by
  set m₁ : Spaced := (m.setCsr .sscratch (m.x .a0)).setX .a0 TRAPFRAME with hm₁
  set m₂ : Spaced := m₁.exec tr (Spaced.saves .a0 tfSlots) with hm₂
  have hexec : m.exec tr uservec = m₂.exec tr uservecTail := by
    rw [uservec, Spaced.exec_cons, Spaced.exec_append, hm₂, hm₁, ← user.sscratch]
    rfl
  have ha0 : m₁.x .a0 = TRAPFRAME := Spaced.setX_x_self _ _ _
  have hsatp : m₁.csr .satp = P.satp := by
    rw [hm₁, Spaced.setX_csr, Spaced.setCsr_csr_of_ne _ _ (by decide), user.satp]
  have hx₂ : m₂.x = m₁.x := Spaced.saves_x _ _ _
  have hcsr₂ : m₂.csr = m₁.csr := Spaced.saves_csr _ _ _
  have hentered : Entered P m₂ (m₂.exec tr uservecTail) :=
    exec_uservecTail maps (by rw [hcsr₂, hsatp]) (by rw [hx₂, ha0])
  have hplaces := places_tfSlots maps hsatp ha0
  have hslot : ∀ p ∈ tfSlots, m₂.mem (P.slot p.2) = m.x p.1 := by
    intro p hp
    have hsaved := Spaced.saves_mem .a0 tfSlots m₁ (by rw [hplaces]; exact tfSlots_nodup) p hp
    rw [place_a0 maps hsatp ha0 (tfSlots_lt p hp).2.1] at hsaved
    rw [hm₂, hsaved]
    have hne : ∀ p ∈ tfSlots, p.1 ≠ .a0 := by decide
    exact Spaced.setX_x_of_ne _ _ (hne p hp)
  have hkept : ∀ a, (∀ p ∈ tfSlots, a ≠ P.slot p.2) → m₂.mem a = m.mem a := by
    intro a ha
    refine Spaced.saves_mem_of_notMem .a0 tfSlots m₁ a ?_
    rw [hplaces]
    intro hmem
    obtain ⟨p, hp, heq⟩ := List.mem_map.mp hmem
    exact ha p hp heq.symm
  rw [hexec]
  generalize m₂.exec tr uservecTail = k at hentered
  have hmem : ∀ a, a ≠ P.slot 112 → a ≠ P.slot 24 → k.mem a = m₂.mem a := by
    intro a h112 h24
    rw [hentered.mem, Spaced.store_mem_of_ne _ _ h24, Spaced.store_mem_of_ne _ _ h112]
  have hlow : ∀ o < 40, o ≠ 24 → k.mem (P.slot o) = m.mem (P.slot o) := by
    intro o ho h24
    rw [hmem _ (slot_ne (by omega) (by omega) (by omega)) (slot_ne (by omega) (by omega) h24)]
    refine hkept _ fun p hp => slot_ne (by omega) (tfSlots_lt p hp).2.1 ?_
    have := (tfSlots_lt p hp).1
    omega
  have hprepared : P.Prepared k.mem :=
    ⟨(hlow 0 (by omega) (by omega)).trans user.prepared.satp,
      (hlow 8 (by omega) (by omega)).trans user.prepared.sp,
      (hlow 16 (by omega) (by omega)).trans user.prepared.trap,
      (hlow 32 (by omega) (by omega)).trans user.prepared.hartid⟩
  refine ⟨?_, hprepared, ?_, hentered.satp.trans hprepared.satp, hentered.sp.trans hprepared.sp,
    hentered.tp.trans hprepared.hartid, hentered.pc.trans hprepared.trap, ?_⟩
  · refine Context.ext (funext fun r => ?_) ?_
    · show k.mem (P.slot (tfSlot r)) = m.x r
      by_cases hr : r = .a0
      · rw [hr, show tfSlot .a0 = 112 from rfl, hentered.mem, Spaced.store_mem_of_ne _ _
          (slot_ne (by decide) (by decide) (by decide)), Spaced.store_mem_self, hcsr₂]
        exact Spaced.setCsr_csr_self m .sscratch (m.x .a0)
      · have hp := mem_tfSlots hr
        have hlt := tfSlots_lt _ hp
        rw [hmem _ (slot_ne hlt.2.1 (by decide) hlt.2.2)
          (slot_ne hlt.2.1 (by decide) (by have := hlt.1; omega))]
        exact hslot _ hp
    · show k.mem (P.slot 24) = m.csr .sepc
      rw [hentered.mem, Spaced.store_mem_self, hcsr₂, hm₁, Spaced.setX_csr]
      exact Spaced.setCsr_csr_of_ne _ _ (by decide)
  · intro a ha
    rw [hmem a (ha 112 (by decide)) (ha 24 (by decide))]
    exact hkept a fun p hp => ha p.2 (tfSlots_lt p hp).2.1
  · rw [hentered.others .gp (by decide) (by decide) (by decide) (by decide), hx₂]
    exact Spaced.setX_x_of_ne _ _ (by decide)

/-! ## `userret` -/

/-- **What `userret` resumes**: the context in the frame, in the user's space, with `sscratch` ready
for the next trap. -/
theorem exec_userret (maps : MapsFrame tr P) (ha0 : m.x .a0 = TRAPFRAME) (ha1 : m.x .a1 = P.satp) :
    (m.exec tr userret).x = (P.saved m.mem).x ∧ (m.exec tr userret).pc = m.csr .sepc
      ∧ (m.exec tr userret).mem = m.mem ∧ (m.exec tr userret).csr .satp = P.satp
      ∧ (m.exec tr userret).csr .sscratch = TRAPFRAME := by
  set m₁ : Spaced := ((m.setCsr .satp P.satp).setX .t0 (m.mem (P.slot 112))).setCsr .sscratch
    (m.mem (P.slot 112)) with hm₁
  have hhead : m.exec tr userretHead = m₁ := by
    have hplace : (m.setCsr .satp P.satp).place tr .a0 112 = P.slot 112 :=
      place_a0 maps (Spaced.setCsr_csr_self _ _ _) ha0 (by decide)
    simp only [userretHead, Spaced.exec_cons, Spaced.exec_nil, Spaced.step, ha1, hplace,
      Spaced.setX_x_self, Spaced.setCsr_mem, hm₁]
  have hsatp₁ : m₁.csr .satp = P.satp := by
    rw [hm₁, Spaced.setCsr_csr_of_ne _ _ (by decide), Spaced.setX_csr, Spaced.setCsr_csr_self]
  have ha0₁ : m₁.x .a0 = TRAPFRAME := by
    rw [hm₁, Spaced.setCsr_x, Spaced.setX_x_of_ne _ _ (by decide), Spaced.setCsr_x, ha0]
  have hx : ∀ p ∈ tfSlots, (m₁.exec tr (Spaced.restores .a0 tfSlots)).x p.1
      = m₁.mem (m₁.place tr .a0 p.2) :=
    Spaced.restores_x .a0 tfSlots m₁ (by decide) (by decide)
  have ha0₂ : (m₁.exec tr (Spaced.restores .a0 tfSlots)).x .a0 = m₁.x .a0 :=
    Spaced.restores_x_of_notMem .a0 tfSlots m₁ .a0 (by decide)
  have hcsr : (m₁.exec tr (Spaced.restores .a0 tfSlots)).csr = m₁.csr :=
    Spaced.restores_csr .a0 tfSlots m₁
  have hmem : (m₁.exec tr (Spaced.restores .a0 tfSlots)).mem = m₁.mem :=
    Spaced.restores_mem .a0 tfSlots m₁
  rw [userret, Spaced.exec_append, hhead, Spaced.exec_append]
  generalize m₁.exec tr (Spaced.restores .a0 tfSlots) = m₂ at hx ha0₂ hcsr hmem
  set m₃ : Spaced := (m₂.setCsr .sscratch (m₂.x .a0)).setX .a0 (m₂.csr .sscratch) with hm₃
  have htail : m₂.exec tr [.csrrw .a0 .sscratch .a0, .sret]
      = (m₃.setCsr .sstatus (sretStatus (m₃.csr .sstatus))).setPc (m₃.csr .sepc) := rfl
  have hcsr₃ : ∀ c, c ≠ .sscratch → m₃.csr c = m₁.csr c := by
    intro c hc
    rw [hm₃, Spaced.setX_csr, Spaced.setCsr_csr_of_ne _ _ hc, hcsr]
  rw [htail, Spaced.setPc_x, Spaced.setCsr_x, Spaced.setPc_pc, Spaced.setPc_mem, Spaced.setCsr_mem,
    Spaced.setPc_csr, Spaced.setCsr_csr_of_ne _ _ (by decide),
    Spaced.setCsr_csr_of_ne _ _ (by decide)]
  refine ⟨funext fun r => ?_, ?_, hmem, (hcsr₃ .satp (by decide)).trans hsatp₁, ?_⟩
  · show m₃.x r = m.mem (P.slot (tfSlot r))
    by_cases hr : r = .a0
    · rw [hr, hm₃, Spaced.setX_x_self, hcsr, hm₁, Spaced.setCsr_csr_self]
      rfl
    · rw [hm₃, Spaced.setX_x_of_ne _ _ hr, Spaced.setCsr_x, hx _ (mem_tfSlots hr),
        place_a0 maps hsatp₁ ha0₁ (tfSlots_lt _ (mem_tfSlots hr)).2.1]
      rfl
  · rw [hcsr₃ _ (by decide), hm₁, Spaced.setCsr_csr_of_ne _ _ (by decide), Spaced.setX_csr,
      Spaced.setCsr_csr_of_ne _ _ (by decide)]
  · rw [hm₃, Spaced.setX_csr, Spaced.setCsr_csr_self, ha0₂, ha0₁]

/-! ## A process and its traps -/

/-- User memory, or all of it but the frame. -/
abbrev Memory := Word → Word

namespace UserProc

open Classical in
/-- The memory outside the frame. -/
noncomputable def outside (P : UserProc) (mem : Memory) : Memory := fun a =>
  if ∃ o < 288, a = P.slot o then 0 else mem a

/-- The process as the hart has it in user mode. -/
noncomputable def view (P : UserProc) (m : Spaced) : Context × Memory :=
  (⟨m.x, m.pc⟩, P.outside m.mem)

/-- The process as the kernel has it in the frame. -/
noncomputable def kernelView (P : UserProc) (k : Spaced) : Context × Memory :=
  (P.saved k.mem, P.outside k.mem)

end UserProc

/-- The registers the kernel is entered with. -/
structure EntryRegs where
  satp : Word
  sp : Word
  tp : Word
  pc : Word
  deriving DecidableEq

def UserProc.entry (P : UserProc) : EntryRegs :=
  ⟨P.kernelSatp, P.kernelSp, P.kernelHartid, P.kernelTrap⟩

/-- A trap as the kernel sees it: the registers it starts with, the process it finds, and the
process it goes on with. -/
structure TrapEvent where
  entry : EntryRegs
  seen : Context × Memory
  resumed : Context × Memory

/-- From `kernel_trap` to the call `userret(TRAPFRAME, pagetable)`: `sepc` has been set from the
frame, and the kernel's part of the frame is there for the next trap. -/
structure KernelRun (P : UserProc) (k' : Spaced) : Prop where
  a0 : k'.x .a0 = TRAPFRAME
  a1 : k'.x .a1 = P.satp
  sepc : k'.csr .sepc = k'.mem (P.slot 24)
  prepared : P.Prepared k'.mem

/-- The machine: the user's code, which has no access to the frame and the CSRs, or a trap with
all that follows up to the return. -/
inductive UserStep (tr : Word → Word → Word) (P : UserProc) (vec : Word)
    (U : Context × Memory → Context × Memory → Prop) : Spaced → Option TrapEvent → Spaced → Prop
  | code {m m' : Spaced} (step : U (P.view m) (P.view m')) (csr : m'.csr = m.csr)
      (frame : ∀ o < 288, m'.mem (P.slot o) = m.mem (P.slot o)) : UserStep tr P vec U m none m'
  | trap {m k k' : Spaced} (cause : Word) (enter : k = (m.userTrap vec cause).exec tr uservec)
      (kernel : KernelRun P k') :
      UserStep tr P vec U m
        (some ⟨⟨k.csr .satp, k.x .sp, k.x .tp, k.pc⟩, P.kernelView k, P.kernelView k'⟩)
        (k'.exec tr userret)

/-- The process: its code, or a trap as one step in which the kernel finds the process as it is and
replaces it by another. -/
inductive ProcStep (P : UserProc) (U : Context × Memory → Context × Memory → Prop) :
    Context × Memory → Option TrapEvent → Context × Memory → Prop
  | code {s s' : Context × Memory} (step : U s s') : ProcStep P U s none s'
  | trap (e : TrapEvent) (entry : e.entry = P.entry) : ProcStep P U e.seen (some e) e.resumed

theorem inUser_userTrap (vec cause : Word) (user : P.InUser m) :
    P.InUser (m.userTrap vec cause) where
  satp := by
    rw [Spaced.userTrap, Spaced.setPc_csr, Spaced.setCsr_csr_of_ne _ _ (by decide),
      Spaced.setCsr_csr_of_ne _ _ (by decide), Spaced.setCsr_csr_of_ne _ _ (by decide), user.satp]
  sscratch := by
    rw [Spaced.userTrap, Spaced.setPc_csr, Spaced.setCsr_csr_of_ne _ _ (by decide),
      Spaced.setCsr_csr_of_ne _ _ (by decide), Spaced.setCsr_csr_of_ne _ _ (by decide),
      user.sscratch]
  prepared := user.prepared

theorem userTrap_sepc (m : Spaced) (vec cause : Word) :
    (m.userTrap vec cause).csr .sepc = m.pc := by
  rw [Spaced.userTrap, Spaced.setPc_csr, Spaced.setCsr_csr_of_ne _ _ (by decide),
    Spaced.setCsr_csr_of_ne _ _ (by decide), Spaced.setCsr_csr_self]

theorem outside_congr {mem mem' : Memory} (h : ∀ a, (∀ o < 288, a ≠ P.slot o) → mem a = mem' a) :
    P.outside mem = P.outside mem' := by
  funext a
  by_cases ha : ∃ o < 288, a = P.slot o
  · rw [UserProc.outside, UserProc.outside, if_pos ha, if_pos ha]
  · rw [UserProc.outside, UserProc.outside, if_neg ha, if_neg ha]
    exact h a fun o ho heq => ha ⟨o, ho, heq⟩

theorem inUser_step {vec : Word} {U : Context × Memory → Context × Memory → Prop}
    {e : Option TrapEvent} {m' : Spaced} (maps : MapsFrame tr P) (user : P.InUser m)
    (step : UserStep tr P vec U m e m') : P.InUser m' := by
  cases step with
  | code step csr frame =>
      refine ⟨csr ▸ user.satp, csr ▸ user.sscratch, ?_, ?_, ?_, ?_⟩
      · exact (frame 0 (by decide)).trans user.prepared.satp
      · exact (frame 8 (by decide)).trans user.prepared.sp
      · exact (frame 16 (by decide)).trans user.prepared.trap
      · exact (frame 32 (by decide)).trans user.prepared.hartid
  | trap cause enter kernel =>
      obtain ⟨-, -, hmem, hsatp, hsscratch⟩ := exec_userret maps kernel.a0 kernel.a1
      exact ⟨hsatp, hsscratch, hmem ▸ kernel.prepared⟩

/-- One turn of the machine is one step of the process. -/
theorem procStep_of_userStep {vec : Word} {U : Context × Memory → Context × Memory → Prop}
    {e : Option TrapEvent} {m' : Spaced} (maps : MapsFrame tr P) (user : P.InUser m)
    (step : UserStep tr P vec U m e m') : ProcStep P U (P.view m) e (P.view m') := by
  cases step with
  | code step csr frame => exact .code step
  | @trap k k' cause enter kernel =>
      have hentry := exec_uservec maps (inUser_userTrap vec cause user)
      rw [← enter] at hentry
      obtain ⟨hx, hpc, hmem, -⟩ := exec_userret maps kernel.a0 kernel.a1
      have hseen : P.view m = P.kernelView k := by
        refine Prod.ext ?_ (outside_congr fun a ha => (hentry.outside a ha).symm)
        show _ = P.saved k.mem
        rw [hentry.saved, userTrap_sepc]
        rfl
      have hresumed : P.view (k'.exec tr userret) = P.kernelView k' := by
        refine Prod.ext (Context.ext hx ?_) (congrArg P.outside hmem)
        exact hpc.trans kernel.sepc
      rw [hseen, hresumed]
      refine .trap ⟨_, P.kernelView k, P.kernelView k'⟩ ?_
      show EntryRegs.mk _ _ _ _ = EntryRegs.mk _ _ _ _
      rw [hentry.satp, hentry.sp, hentry.tp, hentry.pc]

/-- **Traps are transparent for user code.** For every user program, every translation with the
frame at `TRAPFRAME` and every sequence of traps, a run of the machine is a run of the process in
which each trap is one step: the kernel is entered in its own space and on its own stack and finds
in the frame exactly the 31 registers and the program counter the user had, and the user goes on
with exactly those the kernel left there. -/
theorem user_traps_refine {vec : Word} {U : Context × Memory → Context × Memory → Prop}
    {es : List TrapEvent} {m' : Spaced} (maps : MapsFrame tr P) (user : P.InUser m)
    (run : Lts.Run (UserStep tr P vec U) m es m') :
    Lts.Run (ProcStep P U) (P.view m) es (P.view m') :=
  run.simulation user rfl (fun _ _ _ h step => inUser_step maps h step)
    fun _ _ _ h step => .inr (procStep_of_userStep maps h step)

/-- A process with its frame at `0x80500000`. -/
def shell : UserProc := ⟨7, 0x80500000, 1, 0x80601000, 0x80200400, 0⟩

/-- In the space `7` the frame is at `TRAPFRAME`; other addresses are physical. -/
def shellSpace (satp va : Word) : Word :=
  if satp = 7 then va - TRAPFRAME + 0x80500000 else va

theorem shellSpace_maps : MapsFrame shellSpace shell := by
  intro o _
  show TRAPFRAME + BitVec.ofNat 64 o - TRAPFRAME + 0x80500000 = 0x80500000 + BitVec.ofNat 64 o
  rw [BitVec.add_comm TRAPFRAME, BitVec.add_sub_cancel, BitVec.add_comm]

/-- The process in user mode, at `0x1000` with `9` in `a0` and `0x80700000` in `gp`. -/
def shellHart : Spaced where
  x := fun r => if r = .a0 then 9 else if r = .gp then 0x80700000 else 0
  csr := fun c => match c with
    | .satp => 7
    | .sscratch => TRAPFRAME
    | _ => 0
  pc := 0x1000
  mem := fun a =>
    if a = 0x80500000 then 1 else if a = 0x80500008 then 0x80601000
    else if a = 0x80500010 then 0x80200400 else 0

/-- The kernel answers a call: it leaves `5` in the frame's `a0` and calls `userret`. -/
def answer (k : Spaced) : Spaced :=
  (((k.store 0x80500070 5).setX .a0 TRAPFRAME).setX .a1 7).setCsr .sepc (k.mem 0x80500018)

theorem shellHart_inUser : shell.InUser shellHart := ⟨rfl, rfl, rfl, rfl, rfl, rfl⟩

theorem answer_mem (k : Spaced) {a : Word} (ha : a ≠ 0x80500070) :
    (answer k).mem a = k.mem a :=
  Spaced.store_mem_of_ne k 5 ha

theorem answer_kernelRun {k : Spaced} (prepared : shell.Prepared k.mem) :
    KernelRun shell (answer k) where
  a0 := by rw [answer, Spaced.setCsr_x, Spaced.setX_x_of_ne _ _ (by decide), Spaced.setX_x_self]
  a1 := by rw [answer, Spaced.setCsr_x, Spaced.setX_x_self]; rfl
  sepc := by
    rw [answer_mem k (by decide)]
    exact Spaced.setCsr_csr_self _ _ _
  prepared :=
    ⟨(answer_mem k (by decide)).trans prepared.satp,
      (answer_mem k (by decide)).trans prepared.sp,
      (answer_mem k (by decide)).trans prepared.trap,
      (answer_mem k (by decide)).trans prepared.hartid⟩

theorem answer_a0 (k : Spaced) : (shell.saved (answer k).mem).x .a0 = 5 := by
  have hslot : shell.slot (tfSlot .a0) = 0x80500070 := by decide
  show (answer k).mem (shell.slot (tfSlot .a0)) = 5
  rw [hslot]
  exact Spaced.store_mem_self k 0x80500070 5

theorem user_traps_refine_call : ∃ e m', e.resumed.1.x .a0 = 5 ∧
    Lts.Run (ProcStep shell fun _ _ => False) (shell.view shellHart) [e] (shell.view m') := by
  have hentry := exec_uservec shellSpace_maps (inUser_userTrap 0x3ffffff000 8 shellHart_inUser)
  have hstep : UserStep shellSpace shell 0x3ffffff000 (fun _ _ => False) shellHart (some _) _ :=
    .trap 8 rfl (answer_kernelRun hentry.prepared)
  have hrun := Lts.Run.refl.tail hstep
  refine ⟨_, _, ?_, user_traps_refine shellSpace_maps shellHart_inUser hrun⟩
  exact answer_a0 _

/-! ## The frame of the next kernel trap -/

/-- **A kernel trap before `gp` is set writes where the user says.** `uservec` leaves the user's
value in `gp`, and `kernelvec` takes `gp` for the address of the running process's frame. Whatever
the kernel does after `uservec` without loading `gp`, the next kernel trap stores `sepc`, `sstatus`
and the 31 registers at the user's `gp`. -/
theorem kernelvec_stores_at_user_gp (maps : MapsFrame tr P) (user : P.InUser m)
    (vec cause vec' cause' link : Word) (h : Hart)
    (kept : h.x .gp = ((m.userTrap vec cause).exec tr uservec).x .gp) :
    ((h.trapEntry vec' cause').exec (kernelvec link)).mem (m.x .gp) = h.pc
      ∧ ((h.trapEntry vec' cause').exec (kernelvec link)).mem (m.x .gp + 8)
        = trapStatus (h.csr .sstatus)
      ∧ ∀ p ∈ ktfSlots, p.1 ≠ .t0 → p.1 ≠ .t1 → p.1 ≠ .t2 →
        ((h.trapEntry vec' cause').exec (kernelvec link)).mem (m.x .gp + BitVec.ofNat 64 p.2)
          = h.x p.1 := by
  have hentry := exec_uservec maps (inUser_userTrap vec cause user)
  have hgp : (h.trapEntry vec' cause').x .gp = m.x .gp := kept.trans hentry.gp
  obtain ⟨-, hsepc, hsstatus, hslots⟩ := exec_kernelvec link (h.trapEntry vec' cause')
  have haddr : ∀ o, (h.trapEntry vec' cause').addr .gp o = m.x .gp + BitVec.ofNat 64 o := by
    intro o
    rw [Hart.addr, hgp]
  rw [haddr, BitVec.add_zero] at hsepc
  rw [haddr] at hsstatus
  refine ⟨hsepc.trans ?_, hsstatus.trans ?_, fun p hp h0 h1 h2 => ?_⟩
  · rfl
  · rfl
  · have hslot := hslots p hp
    rw [haddr] at hslot
    rw [hslot, clobbered_x_of_ne _ h0 h1 h2]
    rfl

/-- A timer interrupt in the kernel writes the frame at `0x80700000`. -/
theorem kernelvec_stores_at_user_gp_shell :
    ∃ h : Hart, ((h.trapEntry 0x80200000 5).exec (kernelvec 0x80200080)).mem 0x80700000 = h.pc := by
  obtain ⟨k, hk⟩ : ∃ k, k = (shellHart.userTrap 0x3ffffff000 8).exec shellSpace uservec := ⟨_, rfl⟩
  have hstores := kernelvec_stores_at_user_gp shellSpace_maps shellHart_inUser 0x3ffffff000 8
    0x80200000 5 0x80200080 ⟨k.x, fun _ => 0, 0x80200400, fun _ => 0⟩ (by rw [← hk])
  have hgp : shellHart.x .gp = 0x80700000 := rfl
  rw [hgp] at hstores
  exact ⟨_, hstores.1⟩

end NoobKernel.Trap
