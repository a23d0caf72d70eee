import NoobKernel.Misc.Align
import NoobKernel.Misc.Config
import NoobKernel.Task.Threads
import NoobKernel.Trap.Intr

set_option autoImplicit false

/-! # Kernel threads (`task/kthread.c`, `task/kthread_entry.S`)

`kthread_create` writes the context of a new thread and puts its function and argument on the new
stack; `kthread_start` is where the first switch to the thread arrives. Of `struct proc` the context
is followed here, which `alloc_proc` has begun.
-/

namespace NoobKernel.Task.Kthread

open Rv64 Trap Misc

/-- The stack of a thread, which is `kmalloc(PAGE_SIZE)`. -/
def kstackArea (kstack : Word) : List Word := area kstack (PAGE_SIZE / 8)

def stackTop (kstack : Word) : Word := (kstack + BitVec.ofNat 64 PAGE_SIZE) &&& ~~~0xF#64

/-- What memory holds after `kzalloc` and `alloc_proc`: `p->ctx` is at `ctx`, `p->ktf` at `ktf`. -/
def allocProc (mem : Word → Word) (ctx ktf : Word) : Word → Word :=
  let zeroed := (contextArea ctx).foldl (fun mem a => Function.update mem a 0) mem
  let mem := Function.update zeroed (ctx + 16#64) ktf
  Function.update mem (ctx + 120#64) SSTATUS_SIE

/-- The rest of `kthread_create(fn, arg, name)`; `start` is the address of `kthread_start`. -/
def kthreadCreate (mem : Word → Word) (ctx ktf kstack start fn arg : Word) : Word → Word :=
  let mem := allocProc mem ctx ktf
  let top := stackTop kstack
  let mem := Function.update mem ctx start
  let mem := Function.update mem (ctx + 8#64) top
  let args := top - 16#64
  let mem := Function.update mem args fn
  let mem := Function.update mem (args + 8#64) arg
  Function.update mem (ctx + 8#64) (top - 16#64)

/-- `kthread_start`, up to and including `jalr t0`; `link` is the address of `call kthread_exit`. -/
def kthreadStart (link : Word) (h : Hart) : Hart :=
  let h := h.exec [.ld .t0 0 .sp, .ld .a0 8 .sp]
  let h := h.setX .sp (h.x .sp + 16#64)
  let h := h.setX .ra link
  { h with pc := h.x .t0 }

/-! ## The context of a new thread -/

/-- The context that `kthread_create` leaves. -/
def kthreadContext (ktf kstack start : Word) : List Word :=
  [start, stackTop kstack - 16#64, ktf] ++ List.replicate 12 0 ++ [SSTATUS_SIE]

theorem foldl_update_zero (as : List Word) (mem : Word → Word) (a : Word) :
    as.foldl (fun mem a => Function.update mem a 0) mem a = if a ∈ as then 0 else mem a := by
  induction as generalizing mem with
  | nil => rfl
  | cons b as ih =>
      rw [List.foldl_cons, ih]
      by_cases hmem : a ∈ as
      · simp [hmem]
      · by_cases heq : a = b
        · simp [heq]
        · simp [heq, hmem]

section Create

variable {mem : Word → Word} {ctx ktf kstack start fn arg a : Word}

/-- Outside the context and the arguments nothing changes. -/
theorem kthreadCreate_of_notMem (hctx : a ∉ contextArea ctx)
    (hfn : a ≠ stackTop kstack - 16#64) (harg : a ≠ stackTop kstack - 16#64 + 8#64) :
    kthreadCreate mem ctx ktf kstack start fn arg a = mem a := by
  have hne : ∀ i < 16, a ≠ ctx + BitVec.ofNat 64 (8 * i) := by
    rintro i hi rfl
    exact hctx (mem_area.mpr ⟨i, hi, rfl⟩)
  have h0 : a ≠ ctx := by
    have h := hne 0 (by decide)
    simpa using h
  have h1 : a ≠ ctx + 8#64 := hne 1 (by decide)
  have h2 : a ≠ ctx + 16#64 := hne 2 (by decide)
  have h15 : a ≠ ctx + 120#64 := hne 15 (by decide)
  simp only [kthreadCreate, allocProc, Function.update_of_ne h0, Function.update_of_ne h1,
    Function.update_of_ne h2, Function.update_of_ne h15, Function.update_of_ne hfn,
    Function.update_of_ne harg]
  rw [foldl_update_zero, if_neg hctx]

/-- The context is that of a thread that is about to run `kthread_start`. -/
theorem contextAt_kthreadCreate (hargs : ∀ a ∈ contextArea ctx,
      a ≠ stackTop kstack - 16#64 ∧ a ≠ stackTop kstack - 16#64 + 8#64) :
    contextAt (kthreadCreate mem ctx ktf kstack start fn arg) ctx
      = kthreadContext ktf kstack start := by
  have hslot : ∀ i < 16, kthreadCreate mem ctx ktf kstack start fn arg (ctx + BitVec.ofNat 64 (8 * i))
      = if i = 1 then stackTop kstack - 16#64 else if i = 0 then start
        else if i = 15 then SSTATUS_SIE else if i = 2 then ktf else 0 := by
    intro i hi
    have hmem : ctx + BitVec.ofNat 64 (8 * i) ∈ contextArea ctx := mem_area.mpr ⟨i, hi, rfl⟩
    obtain ⟨hfn, harg⟩ := hargs _ hmem
    have hzero := foldl_update_zero (contextArea ctx) mem (ctx + BitVec.ofNat 64 (8 * i))
    rw [if_pos hmem] at hzero
    have heq : ∀ j < 16, ctx + BitVec.ofNat 64 (8 * i) = ctx + BitVec.ofNat 64 (8 * j) ↔ i = j := by
      intro j hj
      refine ⟨fun h => ?_, fun h => by rw [h]⟩
      have := add_ofNat_inj ctx (by omega) (by omega) h
      omega
    have h0 : ctx + BitVec.ofNat 64 (8 * i) = ctx ↔ i = 0 := by
      have h := heq 0 (by decide)
      simpa using h
    have h1 : ctx + BitVec.ofNat 64 (8 * i) = ctx + 8#64 ↔ i = 1 := heq 1 (by decide)
    have h2 : ctx + BitVec.ofNat 64 (8 * i) = ctx + 16#64 ↔ i = 2 := heq 2 (by decide)
    have h15 : ctx + BitVec.ofNat 64 (8 * i) = ctx + 120#64 ↔ i = 15 := heq 15 (by decide)
    generalize ctx + BitVec.ofNat 64 (8 * i) = a at *
    simp only [kthreadCreate, allocProc, Function.update_apply, h0, h1, h2, h15, hfn, harg, hzero,
      if_false]
    split_ifs <;> rfl
  rw [contextAt, contextArea, area, List.map_map]
  have hmap : (List.range 16).map (kthreadCreate mem ctx ktf kstack start fn arg ∘
      fun i => ctx + BitVec.ofNat 64 (8 * i)) = (List.range 16).map fun i =>
        if i = 1 then stackTop kstack - 16#64 else if i = 0 then start
        else if i = 15 then SSTATUS_SIE else if i = 2 then ktf else 0 :=
    List.map_congr_left fun i hi => hslot i (List.mem_range.mp hi)
  rw [hmap]
  rfl

end Create

/-- The stack leaves room for the arguments, and its top is aligned. -/
theorem stackTop_toNat {kstack : Word} (hfits : kstack.toNat + PAGE_SIZE < 2 ^ 64) :
    (stackTop kstack).toNat = (kstack.toNat + PAGE_SIZE) / 16 * 16 := by
  have hadd : (kstack + BitVec.ofNat 64 PAGE_SIZE).toNat = kstack.toNat + PAGE_SIZE := by
    rw [BitVec.toNat_add, BitVec.toNat_ofNat, Nat.mod_eq_of_lt (a := PAGE_SIZE) (by decide),
      Nat.mod_eq_of_lt hfits]
  have hdown := ALIGN_DOWN_two_pow hfits (k := 4) (by decide)
  rw [stackTop, BitVec.toNat_and, hadd]
  exact hdown

/-- Where the arguments are on the stack. -/
theorem args_mem {kstack : Word} (hfits : kstack.toNat + PAGE_SIZE < 2 ^ 64)
    (haligned : kstack.toNat % 8 = 0) :
    stackTop kstack - 16#64 ∈ kstackArea kstack
      ∧ stackTop kstack - 16#64 + 8#64 ∈ kstackArea kstack := by
  have htop := stackTop_toNat hfits
  rw [PAGE_SIZE_eq] at htop hfits
  have hle : 16 ≤ (stackTop kstack).toNat := by omega
  have hargs : (stackTop kstack - 16#64).toNat = (stackTop kstack).toNat - 16 :=
    BitVec.toNat_sub_of_le (BitVec.le_def.mpr hle)
  have hslot : ∀ i < 512, ∀ a : Word, a.toNat = kstack.toNat + 8 * i → a ∈ kstackArea kstack := by
    intro i hi a ha
    refine mem_area.mpr ⟨i, hi, BitVec.eq_of_toNat_eq ?_⟩
    rw [BitVec.toNat_add, BitVec.toNat_ofNat, ha]
    omega
  constructor
  · refine hslot (((stackTop kstack).toNat - 16 - kstack.toNat) / 8) (by omega) _ ?_
    omega
  · refine hslot (((stackTop kstack).toNat - 8 - kstack.toNat) / 8) (by omega) _ ?_
    rw [BitVec.toNat_add, hargs, show (8#64).toNat = 8 from rfl]
    omega

theorem kthreadStart_eq (link : Word) (h : Hart) :
    kthreadStart link h =
      { (((h.setX .t0 (h.mem (h.x .sp))).setX .a0 (h.mem (h.x .sp + 8#64))).setX .sp
          (h.x .sp + 16#64)).setX .ra link with pc := h.mem (h.x .sp) } := by
  simp [kthreadStart, Hart.exec, Hart.step, Hart.addr, Hart.setX]

/-! ## From creation to the first run -/

variable {T : Type} {c : ThreadMap T} {s s' : OneHart T} {t : T}
  {ktf kstack start fn arg link : Word}

/-- The hart after `kthread_create`, called by the thread that runs. -/
def kthreadCreated (c : ThreadMap T) (s : OneHart T) (t : T) (ktf kstack start fn arg : Word) :
    OneHart T :=
  ⟨{ s.hart with mem := kthreadCreate s.hart.mem (c.ctx t) ktf kstack start fn arg }, s.running⟩

section Created

variable (hstack : c.stack t = kstackArea kstack) (hfits : kstack.toNat + PAGE_SIZE < 2 ^ 64)
  (haligned : kstack.toNat % 8 = 0)

include hstack hfits haligned

/-- The arguments are not in a context. -/
theorem args_apart (t' : T) : ∀ a ∈ contextArea (c.ctx t'),
    a ≠ stackTop kstack - 16#64 ∧ a ≠ stackTop kstack - 16#64 + 8#64 := by
  obtain ⟨hfn, harg⟩ := args_mem hfits haligned
  rw [← hstack] at hfn harg
  intro a ha
  constructor
  · rintro rfl
    exact c.stack_ctx_apart t t' _ hfn ha
  · rintro rfl
    exact c.stack_ctx_apart t t' _ harg ha

/-- `kthread_create` sets up another thread, and leaves the rest alone. -/
theorem kthreadCreated_step (other : t ≠ s.running) :
    c.Step s (some (.created t ⟨kthreadContext ktf kstack start,
        (c.stack t).map (kthreadCreate s.hart.mem (c.ctx t) ktf kstack start fn arg)⟩))
      (kthreadCreated c s t ktf kstack start fn arg) := by
  have hctx : contextAt (kthreadCreate s.hart.mem (c.ctx t) ktf kstack start fn arg) (c.ctx t) = _ :=
    contextAt_kthreadCreate (args_apart hstack hfits haligned t)
  rw [← hctx]
  refine .create (h := (kthreadCreated c s t ktf kstack start fn arg).hart) other
    fun t' _ hne a ha => ?_
  obtain ⟨hfn, harg⟩ := args_mem hfits haligned
  rw [← hstack] at hfn harg
  rcases List.mem_append.mp ha with hctx | hst
  · obtain ⟨hafn, haarg⟩ := args_apart hstack hfits haligned t' a hctx
    exact kthreadCreate_of_notMem (c.ctx_apart t' t hne a hctx) hafn haarg
  · refine kthreadCreate_of_notMem (c.stack_ctx_apart t' t a hst) ?_ ?_
    · rintro rfl
      exact c.stack_apart t' t hne _ hst hfn
    · rintro rfl
      exact c.stack_apart t' t hne _ hst harg

/-- **A kernel thread starts as asked.** `kthread_create(fn, arg)` leaves all other threads what they
have, and after it the threads may run and switch in any way: when one of them switches to the new
thread for the first time, `kthread_start` calls `fn(arg)` from the aligned top of the new stack,
with interrupts on, and `fn` returns to the call of `kthread_exit`. -/
theorem kthread_started [DecidableEq T] (other : t ≠ s.running) :
    c.Step s (some (.created t ⟨kthreadContext ktf kstack start,
        (c.stack t).map (kthreadCreated c s t ktf kstack start fn arg).hart.mem⟩))
        (kthreadCreated c s t ktf kstack start fn arg)
      ∧ ∀ es s', Lts.Run c.Step (kthreadCreated c s t ktf kstack start fn arg) es s' →
        (∀ e ∈ es, e.thread ≠ t) → s'.hart.x .a0 = c.ctx s'.running → s'.hart.x .a1 = c.ctx t →
        let h := s'.hart.exec contextSwitch
        let h' := kthreadStart link h
        h.pc = start ∧ h'.pc = fn ∧ h'.x .a0 = arg ∧ h'.x .ra = link
          ∧ (h'.x .sp).toNat = (kstack.toNat + PAGE_SIZE) / 16 * 16
          ∧ h'.x .gp = ktf ∧ h'.csr .sstatus = SSTATUS_SIE := by
  refine ⟨kthreadCreated_step hstack hfits haligned other, ?_⟩
  intro es s' run first old new h h'
  obtain ⟨hfn, harg⟩ := args_mem hfits haligned
  have hnot := args_apart hstack hfits haligned t
  rw [← hstack] at hfn harg
  -- the thread has what `kthread_create` has left it
  obtain ⟨hkept, -⟩ := Threads.kept (threads_refine run) first other
  have hthread : ((⟨h, t⟩ : OneHart T).threads c).thread t = _ :=
    (congrFun (threads_switch old new) t).trans hkept
  rw [thread_of_ne (s := kthreadCreated c s t ktf kstack start fn arg) other] at hthread
  have hregs : contextOf h = kthreadContext ktf kstack start := by
    have hown : contextOf h
        = contextAt (kthreadCreated c s t ktf kstack start fn arg).hart.mem (c.ctx t) := by
      simpa [OneHart.threads] using congrArg Thread.regs hthread
    exact hown.trans (contextAt_kthreadCreate hnot)
  have hmem : ∀ a ∈ c.stack t,
      h.mem a = kthreadCreate s.hart.mem (c.ctx t) ktf kstack start fn arg a :=
    List.map_inj_left.mp (congrArg Thread.stack hthread)
  -- the two words on its stack
  have hslot : c.ctx t + 8#64 ∈ contextArea (c.ctx t) := mem_area.mpr ⟨1, by decide, rfl⟩
  obtain ⟨hfn1, harg1⟩ := hnot _ hslot
  have hmemfn : h.mem (stackTop kstack - 16#64) = fn := by
    rw [hmem _ hfn]
    simp [kthreadCreate, Function.update_of_ne (Ne.symm hfn1)]
  have hmemarg : h.mem (stackTop kstack - 16#64 + 8#64) = arg := by
    rw [hmem _ harg]
    simp [kthreadCreate, Function.update_of_ne (Ne.symm harg1)]
  simp only [contextOf, contextSlots, kthreadContext, List.map_cons, List.map_nil, List.cons_append,
    List.nil_append, List.replicate, List.cons.injEq, and_true] at hregs
  obtain ⟨hra, hsp, hgp, -, -, -, -, -, -, -, -, -, -, -, -, hstatus⟩ := hregs
  have hpc : h.pc = start := by
    rw [← hra]
    show (s'.hart.exec contextSwitch).pc = (s'.hart.exec contextSwitch).x .ra
    rw [exec_contextSwitch]
    exact loadHalf_pc _
  have hstart : h' = _ := kthreadStart_eq link h
  rw [hsp, hmemfn, hmemarg, BitVec.sub_add_cancel] at hstart
  rw [hstart]
  refine ⟨hpc, rfl, ?_, ?_, ?_, ?_, hstatus⟩
  · simp [Hart.setX]
  · simp [Hart.setX]
  · simpa [Hart.setX] using stackTop_toNat hfits
  · simpa [Hart.setX] using hgp

end Created

theorem kthread_started_creator :
    let created := kthreadCreated twoThreads creator true 0x80401100 0x80402000 0x80200040
      0x80200100 7
    let h := kthreadStart 0x80200050 (created.hart.exec contextSwitch)
    h.pc = 0x80200100 ∧ h.x .a0 = 7 ∧ (h.x .sp).toNat = 0x80403000 := by
  intro created h
  have hstack : twoThreads.stack true = kstackArea 0x80402000 := by
    rw [kstackArea, PAGE_SIZE_eq]
    simp only [twoThreads, if_true]
    rfl
  obtain ⟨-, hpc, ha0, -, hsp, -⟩ := (@kthread_started Bool twoThreads creator true 0x80401100 0x80402000
    0x80200040 0x80200100 7 0x80200050 hstack (by decide) (by decide) _ (by decide)).2 [] created .refl
    (fun e he => absurd he List.not_mem_nil) rfl rfl
  exact ⟨hpc, ha0, hsp.trans (by decide)⟩

end NoobKernel.Task.Kthread
