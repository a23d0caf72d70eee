import NoobKernel.Trap.Intr

set_option autoImplicit false

/-! # Nested `intr_off` and `intr_on` under interrupts

The outermost `intr_off` stores the status it has read before it turns interrupts off. A handler
that runs in between finds depth zero as well and replaces the stored status by its own, in which
`SIE` is clear. As long as no handler that interrupts there calls `intr_off` (`IntrCareful`), each
pair restores `SIE` and has it clear inside (`Restored`).
-/

namespace NoobKernel.Trap

/-! ## The property and the condition -/

/-- The code is between an `intr_off` that has returned and the `intr_on` that matches it. -/
def IntrFrame.inside (f : IntrFrame) : Bool :=
  match f.pc with
  | .done | .onTest | .onDepth | .onStore _ | .onLast | .onLoad | .onWrite _ => f.opened ≠ 0
  | .offTest | .offRead | .offSave _ | .offLoad | .offWrite _ | .offDepth | .offStore _ =>
      1 < f.opened
  | .panicked => false

/-- What runs has `SIE` as it was before its outermost `intr_off` once that is matched, and clear
until then. -/
structure Restored (m : IntrMachine) : Prop where
  after : ∀ f ∈ m.frames.head?, f.pc = .done → f.opened = 0 → sieOf m.vars.sstatus = f.before
  inside : ∀ f ∈ m.frames.head?, f.inside = true → sieOf m.vars.sstatus = false
  matched : ∀ f ∈ m.frames.head?, f.pc ≠ .panicked

/-- The status is saved and interrupts are not off yet. -/
def IntrPc.window : IntrPc → Bool
  | .offLoad | .offWrite _ => true
  | _ => false

/-- `intr_off` is not called by a handler that interrupted an `intr_off` in its window, nor at a
depth that `intr_depth` cannot count. -/
def IntrCareful (m : IntrMachine) (a : IntrAction) : Prop :=
  a = .off → m.vars.intrDepth ≠ BitVec.intMax 32 ∧ ∀ f ∈ m.frames.tail, f.pc.window = false

instance (m : IntrMachine) (a : IntrAction) : Decidable (IntrCareful m a) :=
  inferInstanceAs (Decidable (_ → _))

/-! ## The `SIE` bit -/

theorem sieOf_trapStatus (s : BitVec 64) : sieOf (Rv64.trapStatus s) = false := by
  unfold sieOf Rv64.trapStatus
  rw [Rv64.getLsbD_setBit _ _ _ _ (by decide), if_neg (by decide),
    Rv64.getLsbD_setBit _ _ _ _ (by decide), if_pos rfl]

theorem sieOf_sretStatus (s : BitVec 64) :
    sieOf (Rv64.sretStatus (Rv64.trapStatus s)) = sieOf s :=
  Rv64.getLsbD_sretStatus_trapStatus s Rv64.SIE (by decide) (by decide)

theorem sieOf_clear (s : BitVec 64) : sieOf (s &&& ~~~SSTATUS_SIE) = false := by
  have hbit : (~~~SSTATUS_SIE).getLsbD Rv64.SIE = false := by decide
  rw [sieOf, BitVec.getLsbD_and, hbit, Bool.and_false]

/-! ## The invariant of the code that runs -/

/-- No pair is open. -/
def Unlocked (v : IntrVars) (before : Bool) : Prop :=
  v.intrDepth = 0 ∧ sieOf v.sstatus = before

/-- Interrupts are off, `n` deep, and the status before is saved. -/
structure Locked (v : IntrVars) (n : Nat) (before : Bool) : Prop where
  depth : v.intrDepth = BitVec.ofNat 32 n
  bound : n < 2 ^ 31
  off : sieOf v.sstatus = false
  saved : sieOf v.intrState = before

/-- Unlocked for no open pair, locked for any more. -/
def AtDepth (v : IntrVars) (n : Nat) (before : Bool) : Prop :=
  if n = 0 then Unlocked v before else Locked v n before

/-- The variables as the code before `pc` has left them; `opened` counts the call in progress. -/
def FrameOk (f : IntrFrame) (v : IntrVars) : Prop :=
  match f.pc with
  | .done => AtDepth v f.opened f.before
  | .offTest => AtDepth v (f.opened - 1) f.before ∧ 0 < f.opened ∧ f.opened < 2 ^ 31
  | .offRead => Unlocked v f.before ∧ f.opened = 1
  | .offSave status => Unlocked v f.before ∧ f.opened = 1 ∧ sieOf status = f.before
  | .offLoad | .offWrite _ => Unlocked v f.before ∧ f.opened = 1 ∧ sieOf v.intrState = f.before
  | .offDepth => Locked v (f.opened - 1) f.before ∧ 0 < f.opened ∧ f.opened < 2 ^ 31
  | .offStore depth => Locked v (f.opened - 1) f.before ∧ 0 < f.opened ∧ f.opened < 2 ^ 31
      ∧ depth = v.intrDepth
  | .onTest | .onDepth => Locked v (f.opened + 1) f.before
  | .onStore depth => Locked v (f.opened + 1) f.before ∧ depth = v.intrDepth
  | .onLast => Locked v f.opened f.before
  | .onLoad => Locked v 0 f.before ∧ f.opened = 0
  | .onWrite status => Locked v 0 f.before ∧ f.opened = 0 ∧ sieOf status = f.before
  | .panicked => False

variable {v : IntrVars} {f : IntrFrame} {n : Nat} {b : Bool}

theorem atDepth_zero : AtDepth v 0 b ↔ Unlocked v b := by
  rw [AtDepth, if_pos rfl]

theorem atDepth_of_ne (h : n ≠ 0) : AtDepth v n b ↔ Locked v n b := by
  rw [AtDepth, if_neg h]

theorem Locked.depth_eq_zero (h : Locked v n b) : v.intrDepth = 0 ↔ n = 0 := by
  have hn := h.bound
  rw [h.depth]
  constructor
  · intro heq
    have := congrArg BitVec.toNat heq
    rw [BitVec.toNat_ofNat, Nat.mod_eq_of_lt (by omega)] at this
    exact this
  · rintro rfl
    rfl

/-- The depth is positive where a pair is open. -/
theorem Locked.not_sle (h : Locked v (n + 1) b) : v.intrDepth.sle 0 = false := by
  have hn := h.bound
  rw [h.depth, BitVec.sle_eq_decide, decide_eq_false_iff_not, BitVec.toInt_eq_toNat_of_lt]
  · rw [BitVec.toNat_ofNat, Nat.mod_eq_of_lt (by omega)]
    show ¬((n + 1 : Nat) : Int) ≤ 0
    omega
  · rw [BitVec.toNat_ofNat, Nat.mod_eq_of_lt (by omega)]
    omega

theorem Locked.inc (h : Locked v n b) (hn : n + 1 < 2 ^ 31) :
    Locked { v with intrDepth := v.intrDepth + 1 } (n + 1) b := by
  refine ⟨?_, hn, h.off, h.saved⟩
  show v.intrDepth + 1 = _
  rw [h.depth, BitVec.ofNat_add]
  rfl

theorem Locked.dec (h : Locked v (n + 1) b) :
    Locked { v with intrDepth := v.intrDepth - 1 } n b := by
  refine ⟨?_, Nat.lt_of_succ_lt h.bound, h.off, h.saved⟩
  show v.intrDepth - 1 = _
  rw [h.depth, BitVec.ofNat_add]
  exact BitVec.add_sub_cancel _ _

/-- **One access** of a call keeps what the code has established. -/
theorem FrameOk.exec (h : FrameOk f v) (hpc : f.pc ≠ .done) :
    FrameOk { f with pc := (intrStep v f.pc).1 } (intrStep v f.pc).2 := by
  obtain ⟨pc, opened, before, saved⟩ := f
  cases pc with
  | offTest =>
      obtain ⟨hat, hpos, hbound⟩ := h
      simp only at hat hpos hbound
      rw [AtDepth] at hat
      split at hat
      · -- the outermost call
        have hone : opened = 1 := by omega
        simp only [intrStep, if_pos hat.1]
        exact ⟨hat, hone⟩
      · have hne : v.intrDepth ≠ 0 := fun heq => absurd (hat.depth_eq_zero.mp heq) (by assumption)
        simp only [intrStep, if_neg hne]
        exact ⟨hat, hpos, hbound⟩
  | offRead =>
      obtain ⟨hun, hone⟩ := h
      exact ⟨hun, hone, hun.2⟩
  | offSave status =>
      obtain ⟨hun, hone, hstatus⟩ := h
      exact ⟨hun, hone, hstatus⟩
  | offLoad => exact h
  | offWrite state =>
      -- interrupts go off here, and the depth is still that of the code outside
      obtain ⟨⟨hdepth, -⟩, hone, hsaved⟩ := h
      simp only at hone hsaved
      subst hone
      exact ⟨⟨hdepth, Nat.two_pow_pos 31, sieOf_clear state, hsaved⟩, Nat.one_pos,
        Nat.one_lt_two_pow (by decide)⟩
  | offDepth =>
      obtain ⟨hlocked, hpos, hbound⟩ := h
      exact ⟨hlocked, hpos, hbound, rfl⟩
  | offStore depth =>
      obtain ⟨hlocked, hpos, hbound, rfl⟩ := h
      have hcancel : opened - 1 + 1 = opened := Nat.sub_add_cancel hpos
      have hinc := hlocked.inc (by rw [hcancel]; exact hbound)
      rw [hcancel] at hinc
      exact (atDepth_of_ne (Nat.pos_iff_ne_zero.mp hpos)).mpr hinc
  | onTest =>
      -- the panic branch is not reached: inside a section interrupts are off
      have hlocked : Locked v (opened + 1) before := h
      simp only [intrStep, hlocked.not_sle, Bool.false_eq_true, if_false]
      exact hlocked
  | onDepth => exact ⟨h, rfl⟩
  | onStore depth =>
      obtain ⟨hlocked, rfl⟩ := h
      exact hlocked.dec
  | onLast =>
      have hlocked : Locked v opened before := h
      by_cases hzero : opened = 0
      · -- the last section closes, and the saved state is restored
        subst hzero
        simp only [intrStep, if_pos (hlocked.depth_eq_zero.mpr rfl)]
        exact ⟨hlocked, rfl⟩
      · simp only [intrStep, if_neg (fun heq => hzero (hlocked.depth_eq_zero.mp heq))]
        exact (atDepth_of_ne hzero).mpr hlocked
  | onLoad =>
      obtain ⟨hlocked, hzero⟩ := h
      exact ⟨hlocked, hzero, hlocked.saved⟩
  | onWrite state =>
      obtain ⟨hlocked, hzero, hstate⟩ := h
      simp only at hzero
      subst hzero
      exact atDepth_zero.mpr ⟨hlocked.depth, hstate⟩
  | done => exact absurd rfl hpc
  | panicked => exact h.elim

/-- Code that began with interrupts off never has them on. -/
theorem FrameOk.sie_eq_false (h : FrameOk f v) (hb : f.before = false) :
    sieOf v.sstatus = false := by
  obtain ⟨pc, opened, before, saved⟩ := f
  simp only at hb
  subst hb
  have hdepth : ∀ {n}, AtDepth v n false → sieOf v.sstatus = false := by
    intro n hat
    rw [AtDepth] at hat
    split at hat
    · exact hat.2
    · exact hat.off
  cases pc with
  | done => exact hdepth h
  | offTest => exact hdepth h.1
  | offRead | offSave | offLoad | offWrite => exact h.1.2
  | offDepth | offStore => exact h.1.off
  | onTest | onDepth | onLast => exact Locked.off h
  | onStore | onLoad | onWrite => exact h.1.off
  | panicked => exact h.elim

/-- Where interrupts are on, no pair is open, and the saved status matters in the window only. -/
theorem FrameOk.congr (h : FrameOk f v) (hsie : sieOf v.sstatus = true) {v' : IntrVars}
    (hsie' : sieOf v'.sstatus = true) (hdepth : v'.intrDepth = 0)
    (hstate : f.pc.window = true → v'.intrState = v.intrState) : FrameOk f v' := by
  obtain ⟨pc, opened, before, saved⟩ := f
  have hun : ∀ {b}, Unlocked v b → Unlocked v' b := fun h => ⟨hdepth, hsie'.trans (hsie.symm.trans h.2)⟩
  have hno : ∀ {n b}, ¬Locked v n b := fun h => Bool.false_ne_true (h.off.symm.trans hsie)
  have hat : ∀ {n b}, AtDepth v n b → AtDepth v' n b := by
    intro n b h
    rw [AtDepth] at h ⊢
    split at h
    · rename_i hzero
      rw [if_pos hzero]
      exact hun h
    · exact absurd h hno
  cases pc with
  | done => exact hat h
  | offTest => exact ⟨hat h.1, h.2⟩
  | offRead => exact ⟨hun h.1, h.2⟩
  | offSave => exact ⟨hun h.1, h.2⟩
  | offLoad | offWrite =>
      refine ⟨hun h.1, h.2.1, ?_⟩
      rw [hstate rfl]
      exact h.2.2
  | offDepth | offStore => exact absurd h.1 hno
  | onTest | onDepth | onLast => exact absurd h hno
  | onStore | onLoad | onWrite => exact absurd h.1 hno
  | panicked => exact h.elim

theorem FrameOk.depth_eq_zero (h : FrameOk f v) (hsie : sieOf v.sstatus = true) :
    v.intrDepth = 0 := by
  obtain ⟨pc, opened, before, saved⟩ := f
  have hno : ∀ {n b}, ¬Locked v n b := fun h => Bool.false_ne_true (h.off.symm.trans hsie)
  have hat : ∀ {n b}, AtDepth v n b → v.intrDepth = 0 := by
    intro n b h
    rw [AtDepth] at h
    split at h
    · exact h.1
    · exact absurd h hno
  cases pc with
  | done => exact hat h
  | offTest => exact hat h.1
  | offRead | offSave | offLoad | offWrite => exact h.1.1
  | offDepth | offStore => exact absurd h.1 hno
  | onTest | onDepth | onLast => exact absurd h hno
  | onStore | onLoad | onWrite => exact absurd h.1 hno
  | panicked => exact h.elim

/-! ## Calls -/

/-- The frame at a call of `intr_off`. -/
def IntrFrame.callOff (f : IntrFrame) (v : IntrVars) : IntrFrame :=
  { f with pc := .offTest, opened := f.opened + 1, before :=
    if f.opened = 0 then sieOf v.sstatus else f.before }

/-- The frame at a call of `intr_on`. -/
def IntrFrame.callOn (f : IntrFrame) : IntrFrame := { f with pc := .onTest, opened := f.opened - 1 }

theorem FrameOk.off (h : FrameOk f v) (hpc : f.pc = .done)
    (hdepth : v.intrDepth ≠ BitVec.intMax 32) : FrameOk (f.callOff v) v := by
  obtain ⟨pc, opened, before, saved⟩ := f
  obtain rfl : pc = .done := hpc
  have hat : AtDepth v opened before := h
  by_cases hzero : opened = 0
  · subst hzero
    exact ⟨atDepth_zero.mpr ⟨(atDepth_zero.mp hat).1, rfl⟩, Nat.one_pos,
      Nat.one_lt_two_pow (by decide)⟩
  · have hlocked := (atDepth_of_ne hzero).mp hat
    have hbound : opened + 1 < 2 ^ 31 := by
      by_contra hlt
      have hmax : opened = 2 ^ 31 - 1 := by
        have := hlocked.bound
        omega
      exact hdepth (hlocked.depth.trans (by rw [hmax]; rfl))
    refine ⟨?_, Nat.succ_pos _, hbound⟩
    show AtDepth v opened (if opened = 0 then _ else before)
    rw [if_neg hzero]
    exact hat

theorem FrameOk.on (h : FrameOk f v) (hpc : f.pc = .done) (hopened : f.opened ≠ 0) :
    FrameOk f.callOn v := by
  obtain ⟨pc, opened, before, saved⟩ := f
  obtain rfl : pc = .done := hpc
  have hlocked : Locked v opened before := (atDepth_of_ne hopened).mp h
  show Locked v (opened - 1 + 1) before
  rwa [Nat.sub_add_cancel (Nat.pos_of_ne_zero hopened)]

/-! ## The machine -/

/-- A handler runs above code that had interrupts on. In the window it has made no call. -/
structure Interrupted (handler f : IntrFrame) (v : IntrVars) : Prop where
  before : handler.before = false
  status : sieOf (Rv64.sretStatus handler.saved) = true
  below : FrameOk f ⟨Rv64.sretStatus handler.saved, v.intrState, 0⟩
  quiet : f.pc.window = true → handler.pc = .done ∧ handler.opened = 0

/-- The handler moves on where it does not stand above a window. -/
theorem Interrupted.update {handler handler' : IntrFrame} {v' : IntrVars}
    (h : Interrupted handler f v) (hwindow : f.pc.window = false)
    (hbefore : handler'.before = false) (hsaved : handler'.saved = handler.saved) :
    Interrupted handler' f v' := by
  refine ⟨hbefore, hsaved ▸ h.status, ?_, fun hw => ?_⟩
  · rw [hsaved]
    exact h.below.congr h.status h.status rfl fun hw => absurd (hwindow.symm.trans hw) (by decide)
  · exact absurd (hwindow.symm.trans hw) (by decide)

inductive IntrInv : IntrMachine → Prop
  | thread {v : IntrVars} {f : IntrFrame} (running : FrameOk f v) : IntrInv ⟨v, [f]⟩
  | handler {v : IntrVars} {handler f : IntrFrame} (running : FrameOk handler v)
      (interrupted : Interrupted handler f v) : IntrInv ⟨v, [handler, f]⟩

theorem intrInv_start (sstatus intrState : BitVec 64) : IntrInv (.start sstatus intrState) :=
  .thread (atDepth_zero.mpr ⟨rfl, rfl⟩)

theorem IntrInv.step {m m' : IntrMachine} {a : IntrAction} (inv : IntrInv m)
    (careful : IntrCareful m a) (hnext : m.next a = some m') : IntrInv m' := by
  cases a with
  | off =>
      obtain ⟨hdepth, hquiet⟩ := careful rfl
      cases inv with
      | thread running =>
          simp only [IntrMachine.next] at hnext
          split at hnext
          · obtain rfl := Option.some.inj hnext
            exact .thread (running.off (by assumption) hdepth)
          · cases hnext
      | @handler v handler f running interrupted =>
          simp only [IntrMachine.next] at hnext
          split at hnext
          · obtain rfl := Option.some.inj hnext
            -- a handler starts with interrupts off, and its calls leave them off
            have hbefore : (handler.callOff v).before = false := by
              show (if handler.opened = 0 then _ else _) = _
              rw [running.sie_eq_false interrupted.before, interrupted.before, ite_self]
            exact .handler (running.off (by assumption) hdepth)
              (interrupted.update (hquiet f List.mem_cons_self) hbefore rfl)
          · cases hnext
  | on =>
      cases inv with
      | thread running =>
          simp only [IntrMachine.next] at hnext
          split at hnext
          · rename_i hpc
            obtain rfl := Option.some.inj hnext
            exact .thread (running.on hpc.1 hpc.2)
          · cases hnext
      | @handler v handler f running interrupted =>
          simp only [IntrMachine.next] at hnext
          split at hnext
          · rename_i hpc
            obtain rfl := Option.some.inj hnext
            -- code interrupted in its window has a handler that makes no calls
            have hwindow : f.pc.window = false := by
              by_contra hw
              exact hpc.2 (interrupted.quiet (by simpa using hw)).2
            exact .handler (running.on hpc.1 hpc.2)
              (interrupted.update hwindow interrupted.before rfl)
          · cases hnext
  | exec =>
      cases inv with
      | thread running =>
          simp only [IntrMachine.next] at hnext
          split at hnext
          · cases hnext
          · rename_i hpc
            obtain rfl := Option.some.inj hnext
            exact .thread (running.exec hpc)
      | @handler v handler f running interrupted =>
          simp only [IntrMachine.next] at hnext
          split at hnext
          · cases hnext
          · rename_i hpc
            obtain rfl := Option.some.inj hnext
            have hwindow : f.pc.window = false := by
              by_contra hw
              exact hpc (interrupted.quiet (by simpa using hw)).1
            exact .handler (running.exec hpc) (interrupted.update hwindow interrupted.before rfl)
  | interrupt =>
      cases inv with
      | @thread v f running =>
          simp only [IntrMachine.next] at hnext
          split at hnext
          · rename_i hsie
            obtain rfl := Option.some.inj hnext
            -- interrupts are on, so no section is open, and `sret` will find them on
            have hzero := running.depth_eq_zero hsie
            have hstatus : sieOf (Rv64.sretStatus (Rv64.trapStatus v.sstatus)) = true :=
              (sieOf_sretStatus _).trans hsie
            refine .handler (atDepth_zero.mpr ⟨hzero, rfl⟩) ⟨sieOf_trapStatus _, hstatus, ?_,
              fun _ => ⟨rfl, rfl⟩⟩
            exact running.congr hsie hstatus rfl fun _ => rfl
          · cases hnext
      | handler running interrupted =>
          -- a handler has interrupts off
          simp only [IntrMachine.next, running.sie_eq_false interrupted.before,
            Bool.false_eq_true, if_false] at hnext
          cases hnext
  | ret =>
      cases inv with
      | thread running =>
          simp only [IntrMachine.next, ne_eq, not_true_eq_false, and_false, if_false] at hnext
          cases hnext
      | @handler v handler f running interrupted =>
          simp only [IntrMachine.next] at hnext
          split at hnext
          · rename_i hpc
            obtain rfl := Option.some.inj hnext
            have hat : AtDepth v handler.opened handler.before := by
              rw [FrameOk, hpc.1] at running
              exact running
            rw [hpc.2.1, atDepth_zero] at hat
            exact .thread (interrupted.below.congr interrupted.status interrupted.status hat.1
              fun _ => rfl)
          · cases hnext

/-- What the invariant says about the frame that runs. -/
theorem FrameOk.restored (h : FrameOk f v) :
    (f.pc = .done → f.opened = 0 → sieOf v.sstatus = f.before)
      ∧ (f.inside = true → sieOf v.sstatus = false) ∧ f.pc ≠ .panicked := by
  obtain ⟨pc, opened, before, saved⟩ := f
  have hdepth : ∀ {n b}, AtDepth v n b → n ≠ 0 → sieOf v.sstatus = false :=
    fun hat hne => ((atDepth_of_ne hne).mp hat).off
  cases pc with
  | done =>
      refine ⟨fun _ hzero => ?_, fun hin => hdepth h (of_decide_eq_true hin), nofun⟩
      simp only at hzero
      subst hzero
      exact (atDepth_zero.mp h).2
  | offTest =>
      refine ⟨nofun, fun hin => hdepth h.1 ?_, nofun⟩
      have := of_decide_eq_true hin
      simp only at this ⊢
      omega
  | offRead | offSave | offLoad | offWrite =>
      refine ⟨nofun, fun hin => ?_, nofun⟩
      have hlt := of_decide_eq_true hin
      have hone := h.2
      grind
  | offDepth | offStore => exact ⟨nofun, fun _ => h.1.off, nofun⟩
  | onTest | onDepth | onLast => exact ⟨nofun, fun _ => Locked.off h, nofun⟩
  | onStore | onLoad | onWrite => exact ⟨nofun, fun _ => h.1.off, nofun⟩
  | panicked => exact h.elim

/-- **Careful handlers leave the nesting intact**: in every run, whatever the nesting and wherever
interrupts arrive, `SIE` is clear inside a pair and is what it was after the outermost one. -/
theorem intr_nesting_restored {sstatus intrState : BitVec 64} {as : List IntrAction}
    {m : IntrMachine} (run : IntrRun IntrCareful sstatus intrState as m) : Restored m := by
  have inv : IntrInv m := run.invariant (intrInv_start sstatus intrState)
    fun _ _ _ inv ⟨_, hok, _, hnext⟩ => inv.step hok hnext
  cases inv with
  | thread running | handler running =>
      obtain ⟨hafter, hinside, hmatched⟩ := running.restored
      constructor
      · rintro _ ⟨⟩
        exact hafter
      · rintro _ ⟨⟩
        exact hinside
      · rintro _ ⟨⟩
        exact hmatched

/-- A pair of calls on its own. -/
def intrPair : List IntrAction :=
  .off :: (List.replicate 7 .exec ++ .on :: List.replicate 6 .exec)

/-- A pair interrupted in front of its window, by a handler with a pair. -/
def interruptedEarly : List IntrAction :=
  .off :: .exec :: .exec :: .interrupt :: (intrPair
    ++ .ret :: (List.replicate 5 .exec ++ .on :: List.replicate 6 .exec))

theorem intr_nesting_restored_early : ∃ m, IntrRun IntrCareful SSTATUS_SIE 0 interruptedEarly m
    ∧ m.vars.sstatus.getLsbD Rv64.SIE = true ∧ Restored m := by
  have hexec : (Lts.exec IntrMachine.next IntrCareful (.start SSTATUS_SIE 0) interruptedEarly).map
      (fun m => m.vars.sstatus.getLsbD Rv64.SIE) = some true := by
    decide
  obtain ⟨m, hm, hsie⟩ := Option.map_eq_some_iff.mp hexec
  exact ⟨m, Lts.run_of_exec hm, hsie, intr_nesting_restored (Lts.run_of_exec hm)⟩

/-- The same handler, three instructions later: between the store of the status and the write
that turns interrupts off. -/
def interruptedLate : List IntrAction :=
  .off :: .exec :: .exec :: .exec :: .interrupt :: (intrPair
    ++ .ret :: (List.replicate 4 .exec ++ .on :: List.replicate 6 .exec))

/-- Interrupts were on before the pair and stay off behind it. -/
theorem not_restored : ∃ m, IntrRun (fun _ _ => True) SSTATUS_SIE 0 interruptedLate m
    ∧ ¬Restored m := by
  have hexec : Lts.exec IntrMachine.next (fun _ _ => True) (.start SSTATUS_SIE 0) interruptedLate
      = some ⟨⟨0x120, 0x120, 0⟩, [⟨.done, 0, true, 0⟩]⟩ := by
    decide
  refine ⟨_, Lts.run_of_exec hexec, fun h => ?_⟩
  have hafter := h.after _ rfl rfl rfl
  exact absurd hafter (by decide)

end NoobKernel.Trap
