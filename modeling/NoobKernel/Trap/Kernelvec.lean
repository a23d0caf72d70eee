import NoobKernel.Lib.Rv64

set_option autoImplicit false

/-! # Kernel traps: `kernelvec`, `kernelret` and `context_switch`

The assembly of `trap/kernelvec.S` and `task/switch.S` as instruction lists over the hart of
`Lib/Rv64.lean`, and what an interrupted kernel thread finds when it is resumed.

A trap is taken at a hart whose `gp` points at the current process's `struct ktrapframe`;
`kernelvec` fills that frame, calls the C function `kerneltrap`, and `kernelret` reloads the
registers from the frame `gp` points at. The C side is not translated instruction by
instruction: `TrapRun` says what any run of it does to the interrupted process, including
any number of `context_switch` calls that take the hart to other processes and back.
-/

namespace NoobKernel.Trap

open Rv64

/-! ## The two save areas (`task/proc.h`) -/

/-- The slots of the general registers in `struct ktrapframe`, in the order in which
`kernelvec` writes them and `kernelret` reads them. -/
def ktfSlots : List (Reg × Nat) :=
  [(.ra, 24), (.sp, 32), (.gp, 40), (.tp, 48), (.t0, 56), (.t1, 64), (.t2, 72),
   (.s0, 80), (.s1, 88), (.a0, 96), (.a1, 104), (.a2, 112), (.a3, 120), (.a4, 128),
   (.a5, 136), (.a6, 144), (.a7, 152), (.s2, 160), (.s3, 168), (.s4, 176), (.s5, 184),
   (.s6, 192), (.s7, 200), (.s8, 208), (.s9, 216), (.s10, 224), (.s11, 232),
   (.t3, 240), (.t4, 248), (.t5, 256), (.t6, 264)]

/-- The slots of `struct context` below its `sstatus` at offset 120. -/
def contextSlots : List (Reg × Nat) :=
  [(.ra, 0), (.sp, 8), (.gp, 16), (.s0, 24), (.s1, 32), (.s2, 40), (.s3, 48), (.s4, 56),
   (.s5, 64), (.s6, 72), (.s7, 80), (.s8, 88), (.s9, 96), (.s10, 104), (.s11, 112)]

/-- The doublewords of the `struct ktrapframe` at `ktf`: `sepc`, `sstatus`, `scause` and the
31 registers. -/
def ktfArea (ktf : Word) : List Word := area ktf 34

/-- The doublewords of the `struct context` at `ctx`. -/
def contextArea (ctx : Word) : List Word := area ctx 16

/-! ## The code -/

/-- `kernelvec`, up to and including the call of `kerneltrap`, which returns to `link`. -/
def kernelvec (link : Word) : List Instr :=
  [.csrr .t0 .sepc, .csrr .t1 .sstatus, .csrr .t2 .scause,
   .sd .t0 0 .gp, .sd .t1 8 .gp, .sd .t2 16 .gp]
  ++ stores .gp ktfSlots
  ++ [.mv .a0 .gp, .link link]

def kernelret : List Instr :=
  loads .gp ktfSlots
  ++ [.ld .t0 0 .gp, .ld .t1 8 .gp, .csrw .sepc .t0, .csrw .sstatus .t1, .sret]

/-- `context_switch(old, new)`: `a0` is `old`, `a1` is `new`. -/
def contextSwitch : List Instr :=
  stores .a0 contextSlots ++ [.csrr .t0 .sstatus, .sd .t0 120 .a0]
  ++ (loads .a1 contextSlots ++ [.ld .t0 120 .a1, .csrw .sstatus .t0, .ret])

/-! ## The C side of a trap -/

/-- The frame of the interrupted process, its `gp` and nothing else that matters to
`kernelret` are as they were. -/
structure FrameKept (ktf : Word) (h h' : Hart) : Prop where
  gp : h'.x .gp = h.x .gp
  frame : ∀ a ∈ ktfArea ktf, h'.mem a = h.mem a

theorem FrameKept.refl (ktf : Word) (h : Hart) : FrameKept ktf h h := ⟨rfl, fun _ _ => rfl⟩

/-- What runs between `call kerneltrap` and its return, seen from the process whose frame is
at `ktf` and whose context is at `ctx`. -/
inductive TrapRun (ktf ctx : Word) : Hart → Hart → Prop
  /-- C code of the handler: `gp` is reserved for the frame pointer, and the handler does not
  write the frame. -/
  | code {h h' : Hart} (kept : FrameKept ktf h h') : TrapRun ktf ctx h h'
  /-- `sched_yield` picks another process. Until some process, whose context does not overlap
  the areas of this one, switches back, anything at all may happen, any number of further
  switches included, except writes to this process's frame and context. -/
  | away {h h₁ : Hart} (out : h.x .a0 = ctx)
      (others : ∀ a ∈ ktfArea ktf ++ contextArea ctx, h₁.mem a = (h.exec contextSwitch).mem a)
      (back : h₁.x .a1 = ctx)
      (apart : ∀ a ∈ contextArea (h₁.x .a0), a ∉ ktfArea ktf ++ contextArea ctx) :
      TrapRun ktf ctx h (h₁.exec contextSwitch)
  /-- `sched_yield` picks the yielding process itself. -/
  | self {h : Hart} (out : h.x .a0 = ctx) (back : h.x .a1 = ctx) :
      TrapRun ktf ctx h (h.exec contextSwitch)
  | trans {h₁ h₂ h₃ : Hart} (first : TrapRun ktf ctx h₁ h₂) (rest : TrapRun ktf ctx h₂ h₃) :
      TrapRun ktf ctx h₁ h₃

/-- The resumed process finds what it had when the trap was taken at `h`: every general
register, the program counter, and the status, from which `sret` takes the interrupt enable
back. -/
structure Transparent (h h' : Hart) : Prop where
  regs : ∀ r, h'.x r = h.x r
  pc : h'.pc = h.csr .sepc
  sstatus : h'.csr .sstatus = sretStatus (h.csr .sstatus)

/-! ## `context_switch` -/

theorem contextSlots_mem_area (base : Word) :
    ∀ a ∈ slotAddrs base contextSlots, a ∈ contextArea base := by
  intro a ha
  obtain ⟨p, hp, rfl⟩ := List.mem_map.mp ha
  have hall : ∀ p ∈ contextSlots, 8 * (p.2 / 8) = p.2 ∧ p.2 / 8 < 16 := by decide
  obtain ⟨h8, hlt⟩ := hall p hp
  refine mem_area.mpr ⟨p.2 / 8, hlt, ?_⟩
  rw [h8]

theorem contextSlots_nodup (base : Word) : (slotAddrs base contextSlots).Nodup :=
  slotAddrs_nodup base contextSlots (by decide) (by decide)

/-- The saving half of `context_switch`. -/
def saveHalf : List Instr :=
  stores .a0 contextSlots ++ [.csrr .t0 .sstatus, .sd .t0 120 .a0]

/-- The loading half of `context_switch`. -/
def loadHalf : List Instr :=
  loads .a1 contextSlots ++ [.ld .t0 120 .a1, .csrw .sstatus .t0, .ret]

theorem exec_contextSwitch (h : Hart) :
    h.exec contextSwitch = (h.exec saveHalf).exec loadHalf := by
  rw [show contextSwitch = saveHalf ++ loadHalf from rfl, Hart.exec_append]

/-- What `saveHalf` does once its stores have run. -/
theorem exec_saveHalf (h : Hart) :
    h.exec saveHalf
      = ((h.exec (stores .a0 contextSlots)).setX .t0 (h.csr .sstatus)).store
          (h.addr .a0 120) (h.csr .sstatus) := by
  have hx := Hart.stores_x .a0 contextSlots h
  have hcsr := Hart.stores_csr .a0 contextSlots h
  rw [saveHalf, Hart.exec_append]
  generalize h.exec (stores .a0 contextSlots) = h₁ at hx hcsr ⊢
  have haddr : (h₁.setX .t0 (h.csr .sstatus)).addr .a0 120 = h.addr .a0 120 := by
    rw [Hart.addr, Hart.addr, Hart.setX_x_of_ne _ _ (by decide), hx]
  simp only [Hart.exec_cons, Hart.exec_nil, Hart.step, Hart.setX_x_self, hcsr, haddr]

theorem loadHalf_mem (h : Hart) : (h.exec loadHalf).mem = h.mem := by
  have hmem := Hart.loads_mem .a1 contextSlots h
  rw [loadHalf, Hart.exec_append]
  generalize h.exec (loads .a1 contextSlots) = h₁ at hmem ⊢
  exact hmem

theorem saveHalf_x {h : Hart} {r : Reg} (hr : r ≠ .t0) : (h.exec saveHalf).x r = h.x r := by
  rw [exec_saveHalf, Hart.store_x, Hart.setX_x_of_ne _ _ hr, Hart.stores_x]

/-- `context_switch` writes only the context it is given as `old`. -/
theorem saveHalf_mem_of_notMem (h : Hart) (a : Word) (ha : a ∉ contextArea (h.x .a0)) :
    (h.exec saveHalf).mem a = h.mem a := by
  have hslots : a ∉ slotAddrs (h.x .a0) contextSlots :=
    fun hmem => ha (contextSlots_mem_area _ a hmem)
  have hlast : a ≠ h.addr .a0 120 := by
    rintro rfl
    exact ha (mem_area.mpr ⟨15, by decide, rfl⟩)
  rw [exec_saveHalf, Hart.store_mem_of_ne _ _ hlast, Hart.setX_mem]
  exact Hart.stores_mem_of_notMem _ _ h a hslots

theorem saveHalf_mem (h : Hart) :
    ∀ p ∈ contextSlots, (h.exec saveHalf).mem (h.addr .a0 p.2) = h.x p.1 := by
  intro p hp
  have hlt : ∀ p ∈ contextSlots, p.2 < 120 := by decide
  have hne : h.addr .a0 p.2 ≠ h.addr .a0 120 := by
    intro heq
    have := add_ofNat_inj _ (Nat.lt_trans (hlt p hp) (by decide)) (by decide) heq
    exact absurd this (Nat.ne_of_lt (hlt p hp))
  rw [exec_saveHalf, Hart.store_mem_of_ne _ _ hne, Hart.setX_mem]
  exact Hart.stores_mem _ _ h (contextSlots_nodup _) p hp

/-- After `context_switch` every register of the context holds what the context loaded says. -/
theorem loadHalf_x (h : Hart) :
    ∀ p ∈ contextSlots, (h.exec loadHalf).x p.1 = h.mem (h.addr .a1 p.2) := by
  intro p hp
  have hnt : ∀ p ∈ contextSlots, p.1 ≠ .t0 := by decide
  have hloaded := Hart.loads_x .a1 contextSlots h (by decide)
    (fun o ho => absurd ho (by simp [contextSlots])) p hp
  rw [loadHalf, Hart.exec_append]
  generalize h.exec (loads .a1 contextSlots) = h₁ at hloaded ⊢
  rw [← hloaded]
  exact Hart.setX_x_of_ne _ _ (hnt p hp)

/-! ## The C side keeps the frame -/

/-- **The frame survives every trap run.** Whatever is scheduled in between, the process is
resumed with its own `gp` and with the frame `kernelvec` filled. -/
theorem TrapRun.frameKept {ktf ctx : Word} (apart : ∀ a ∈ contextArea ctx, a ∉ ktfArea ktf)
    {h h' : Hart} (run : TrapRun ktf ctx h h') : FrameKept ktf h h' := by
  have hgp : (Reg.gp, 16) ∈ contextSlots := by decide
  have hgpSlot : ∀ b : Word, b + BitVec.ofNat 64 16 ∈ contextArea b :=
    fun b => mem_area.mpr ⟨2, by decide, rfl⟩
  induction run with
  | code kept => exact kept
  | @away h h₁ out others back apart₁ =>
      -- memory outside `ctx` is untouched by the switch out
      have hout : ∀ a ∈ ktfArea ktf, (h.exec contextSwitch).mem a = h.mem a := by
        intro a ha
        rw [exec_contextSwitch, loadHalf_mem]
        exact saveHalf_mem_of_notMem h a (by rw [out]; exact fun hc => apart a hc ha)
      -- and both areas by the switch back
      have hback : ∀ a ∈ ktfArea ktf ++ contextArea ctx,
          (h₁.exec saveHalf).mem a = h₁.mem a :=
        fun a ha => saveHalf_mem_of_notMem h₁ a (fun hc => apart₁ a hc ha)
      refine ⟨?_, ?_⟩
      · have hslot : ctx + BitVec.ofNat 64 16 ∈ ktfArea ktf ++ contextArea ctx :=
          List.mem_append_right _ (hgpSlot ctx)
        have haddr : (h₁.exec saveHalf).addr .a1 16 = ctx + BitVec.ofNat 64 16 := by
          rw [Hart.addr, saveHalf_x (by decide), back]
        rw [exec_contextSwitch, loadHalf_x _ _ hgp]
        show (h₁.exec saveHalf).mem ((h₁.exec saveHalf).addr .a1 16) = h.x .gp
        rw [haddr, hback _ hslot, others _ hslot, exec_contextSwitch, loadHalf_mem]
        have hsaved := saveHalf_mem h _ hgp
        rwa [Hart.addr, out] at hsaved
      · intro a ha
        rw [exec_contextSwitch, loadHalf_mem, hback a (List.mem_append_left _ ha),
          others a (List.mem_append_left _ ha), hout a ha]
  | @self h out back =>
      refine ⟨?_, ?_⟩
      · rw [exec_contextSwitch, loadHalf_x _ _ hgp]
        show (h.exec saveHalf).mem ((h.exec saveHalf).addr .a1 16) = h.x .gp
        rw [Hart.addr, saveHalf_x (by decide), back, ← out]
        exact saveHalf_mem h _ hgp
      · intro a ha
        rw [exec_contextSwitch, loadHalf_mem]
        exact saveHalf_mem_of_notMem h a (by rw [out]; exact fun hc => apart a hc ha)
  | trans _ _ ih₁ ih₂ =>
      exact ⟨ih₂.gp.trans ih₁.gp, fun a ha => (ih₂.frame a ha).trans (ih₁.frame a ha)⟩

/-! ## `kernelvec` and `kernelret` -/

/-- Every general register has a slot. -/
theorem exists_ktfSlot (r : Reg) : ∃ o, (r, o) ∈ ktfSlots := by
  cases r <;> exact ⟨_, by simp [ktfSlots]; rfl⟩

/-- The hart whose registers `kernelvec` saves. Reading the trap CSRs into `t0`, `t1` and `t2`
comes first, so these three no longer hold what the interrupted code had in them. -/
def clobbered (h : Hart) : Hart :=
  ((h.setX .t0 (h.csr .sepc)).setX .t1 (h.csr .sstatus)).setX .t2 (h.csr .scause)

theorem clobbered_x_of_ne (h : Hart) {r : Reg} (h0 : r ≠ .t0) (h1 : r ≠ .t1) (h2 : r ≠ .t2) :
    (clobbered h).x r = h.x r := by
  rw [clobbered, Hart.setX_x_of_ne _ _ h2, Hart.setX_x_of_ne _ _ h1, Hart.setX_x_of_ne _ _ h0]

/-- **What `kernelvec` leaves in the frame**: the trap CSRs, and every register as it is once
they have been read. -/
theorem exec_kernelvec (link : Word) (h : Hart) :
    (h.exec (kernelvec link)).x .gp = h.x .gp
      ∧ (h.exec (kernelvec link)).mem (h.addr .gp 0) = h.csr .sepc
      ∧ (h.exec (kernelvec link)).mem (h.addr .gp 8) = h.csr .sstatus
      ∧ ∀ p ∈ ktfSlots,
          (h.exec (kernelvec link)).mem (h.addr .gp p.2) = (clobbered h).x p.1 := by
  have hge : ∀ p ∈ ktfSlots, 24 ≤ p.2 ∧ p.2 < 2 ^ 64 := by decide
  -- the hart after the three CSR reads and the three CSR stores
  set k : Hart := (((clobbered h).store (h.addr .gp 0) (h.csr .sepc)).store
    (h.addr .gp 8) (h.csr .sstatus)).store (h.addr .gp 16) (h.csr .scause) with hk
  have hkx : k.x = (clobbered h).x := rfl
  have hkgp : k.x .gp = h.x .gp := by
    rw [hkx]
    exact clobbered_x_of_ne h (by decide) (by decide) (by decide)
  have haddr : ∀ o, k.addr .gp o = h.addr .gp o := by
    intro o
    rw [Hart.addr, Hart.addr, hkgp]
  have hpre : h.exec [.csrr .t0 .sepc, .csrr .t1 .sstatus, .csrr .t2 .scause,
      .sd .t0 0 .gp, .sd .t1 8 .gp, .sd .t2 16 .gp] = k := rfl
  have hexec : h.exec (kernelvec link)
      = ((k.exec (stores .gp ktfSlots)).setX .a0 (k.x .gp)).setX .ra link := by
    rw [kernelvec, Hart.exec_append, Hart.exec_append, hpre]
    have hx := Hart.stores_x .gp ktfSlots k
    generalize k.exec (stores .gp ktfSlots) = k₁ at hx ⊢
    simp only [Hart.exec_cons, Hart.exec_nil, Hart.step, hx]
  have hlow : ∀ o, o < 24 → (k.exec (stores .gp ktfSlots)).mem (h.addr .gp o)
      = k.mem (h.addr .gp o) := by
    intro o ho
    refine Hart.stores_mem_of_notMem _ _ k _ ?_
    intro hmem
    obtain ⟨p, hp, heq⟩ := List.mem_map.mp hmem
    rw [hkgp] at heq
    have := add_ofNat_inj _ (hge p hp).2 (Nat.lt_trans ho (by decide)) heq
    exact absurd (hge p hp).1 (by omega)
  have hne : ∀ m n, m < 24 → n < 24 → m ≠ n → h.addr .gp m ≠ h.addr .gp n := by
    intro m n hm hn hmn heq
    exact hmn (add_ofNat_inj _ (Nat.lt_trans hm (by decide)) (Nat.lt_trans hn (by decide)) heq)
  rw [hexec]
  refine ⟨?_, ?_, ?_, ?_⟩
  · rw [Hart.setX_x_of_ne _ _ (by decide), Hart.setX_x_of_ne _ _ (by decide), Hart.stores_x,
      hkgp]
  · rw [Hart.setX_mem, Hart.setX_mem, hlow 0 (by omega), hk,
      Hart.store_mem_of_ne _ _ (hne 0 16 (by omega) (by omega) (by omega)),
      Hart.store_mem_of_ne _ _ (hne 0 8 (by omega) (by omega) (by omega)), Hart.store_mem_self]
  · rw [Hart.setX_mem, Hart.setX_mem, hlow 8 (by omega), hk,
      Hart.store_mem_of_ne _ _ (hne 8 16 (by omega) (by omega) (by omega)), Hart.store_mem_self]
  · intro p hp
    have hsaved := Hart.stores_mem .gp ktfSlots k
      (slotAddrs_nodup _ _ (fun q hq => (hge q hq).2) (by decide)) p hp
    rw [haddr] at hsaved
    rw [Hart.setX_mem, Hart.setX_mem, hsaved, hkx]

/-- **What `kernelret` resumes**, from a frame whose `gp` slot holds its own address: every
register comes from its slot, except that `t0` and `t1` are needed for the CSRs and are left
holding what was written to them. -/
theorem exec_kernelret {h : Hart} (hgp : h.mem (h.addr .gp 40) = h.x .gp) :
    (∀ p ∈ ktfSlots, p.1 ≠ .t0 → p.1 ≠ .t1 →
        (h.exec kernelret).x p.1 = h.mem (h.addr .gp p.2))
      ∧ (h.exec kernelret).x .t0 = h.mem (h.addr .gp 0)
      ∧ (h.exec kernelret).x .t1 = h.mem (h.addr .gp 8)
      ∧ (h.exec kernelret).pc = h.mem (h.addr .gp 0)
      ∧ (h.exec kernelret).csr .sstatus = sretStatus (h.mem (h.addr .gp 8)) := by
  have hbase : ∀ o, (Reg.gp, o) ∈ ktfSlots → h.mem (h.addr .gp o) = h.x .gp := by
    intro o ho
    have h40 : ∀ p ∈ ktfSlots, p.1 = .gp → p.2 = 40 := by decide
    have ho40 : o = 40 := h40 _ ho rfl
    rw [ho40]
    exact hgp
  have hx := Hart.loads_x .gp ktfSlots h (by decide) hbase
  have hmem := Hart.loads_mem .gp ktfSlots h
  have hgp₁ : (h.exec (loads .gp ktfSlots)).x .gp = h.x .gp :=
    (hx (.gp, 40) (by decide)).trans hgp
  rw [kernelret, Hart.exec_append]
  generalize h.exec (loads .gp ktfSlots) = k at hx hmem hgp₁ ⊢
  have haddr : ∀ o, k.addr .gp o = h.addr .gp o := by
    intro o
    rw [Hart.addr, Hart.addr, hgp₁]
  -- the five instructions after the loads, run on `k`
  have haddr' : (k.setX .t0 (h.mem (h.addr .gp 0))).addr .gp 8 = h.addr .gp 8 := by
    rw [← haddr 8, Hart.addr, Hart.setX_x_of_ne _ _ (by decide), Hart.addr]
  set k₂ : Hart := (k.setX .t0 (h.mem (h.addr .gp 0))).setX .t1 (h.mem (h.addr .gp 8)) with hk₂
  have ht0 : k₂.x .t0 = h.mem (h.addr .gp 0) := by
    rw [hk₂, Hart.setX_x_of_ne _ _ (by decide), Hart.setX_x_self]
  have ht1 : k₂.x .t1 = h.mem (h.addr .gp 8) := by
    rw [hk₂, Hart.setX_x_self]
  have htail : k.exec [.ld .t0 0 .gp, .ld .t1 8 .gp, .csrw .sepc .t0, .csrw .sstatus .t1, .sret]
      = ((k₂.setCsr .sepc (k₂.x .t0)).setCsr .sstatus (k₂.x .t1)).step .sret := by
    simp only [Hart.exec_cons, Hart.exec_nil, Hart.step, hmem, haddr, Hart.setX_mem, haddr']
    rfl
  rw [htail, ht0, ht1]
  refine ⟨?_, ht0, ht1, ?_, ?_⟩
  · intro p hp h0 h1
    show k₂.x p.1 = _
    rw [hk₂, Hart.setX_x_of_ne _ _ h1, Hart.setX_x_of_ne _ _ h0]
    exact hx p hp
  · simp [Hart.step, Hart.setCsr]
  · simp [Hart.step]

/-! ## Transparency -/

/-- What a trap resumes, whatever ran in between: the interrupted program counter and status,
every register other than `t0`, `t1` and `t2`, and in these three the trap CSRs. -/
theorem resumed {ktf ctx link : Word} (apart : ∀ a ∈ contextArea ctx, a ∉ ktfArea ktf)
    {h h₁ : Hart} (hgp : h.x .gp = ktf)
    (run : TrapRun ktf ctx (h.exec (kernelvec link)) h₁) :
    (∀ r, (h₁.exec kernelret).x r = (clobbered h).x r)
      ∧ (h₁.exec kernelret).pc = h.csr .sepc
      ∧ (h₁.exec kernelret).csr .sstatus = sretStatus (h.csr .sstatus) := by
  obtain ⟨hvgp, hv0, hv8, hvslot⟩ := exec_kernelvec link h
  obtain ⟨hkgp, hkframe⟩ := run.frameKept apart
  have hgp₁ : h₁.x .gp = h.x .gp := hkgp.trans hvgp
  have haddr : ∀ o, h₁.addr .gp o = h.addr .gp o := by
    intro o
    rw [Hart.addr, Hart.addr, hgp₁]
  -- the frame `kernelret` reads is the one `kernelvec` wrote
  have hmem : ∀ i < 34, h₁.mem (h.addr .gp (8 * i))
      = (h.exec (kernelvec link)).mem (h.addr .gp (8 * i)) := by
    intro i hi
    refine hkframe _ (mem_area.mpr ⟨i, hi, ?_⟩)
    rw [Hart.addr, hgp]
  have hslot : ∀ p ∈ ktfSlots, h₁.mem (h₁.addr .gp p.2) = (clobbered h).x p.1 := by
    intro p hp
    have hall : ∀ p ∈ ktfSlots, 8 * (p.2 / 8) = p.2 ∧ p.2 / 8 < 34 := by decide
    obtain ⟨h8, hlt⟩ := hall p hp
    have hread := hmem (p.2 / 8) hlt
    rw [h8] at hread
    rw [haddr, hread]
    exact hvslot p hp
  have hself : h₁.mem (h₁.addr .gp 40) = h₁.x .gp := by
    rw [hslot (.gp, 40) (by decide), hgp₁]
    exact clobbered_x_of_ne h (by decide) (by decide) (by decide)
  obtain ⟨hregs, ht0, ht1, hpc, hst⟩ := exec_kernelret hself
  rw [haddr, hmem 0 (by omega), hv0] at ht0 hpc
  rw [haddr, hmem 1 (by omega), hv8] at ht1 hst
  refine ⟨fun r => ?_, hpc, hst⟩
  by_cases hr0 : r = .t0
  · rw [hr0, ht0, clobbered, Hart.setX_x_of_ne _ _ (by decide), Hart.setX_x_of_ne _ _ (by decide),
      Hart.setX_x_self]
  by_cases hr1 : r = .t1
  · rw [hr1, ht1, clobbered, Hart.setX_x_of_ne _ _ (by decide), Hart.setX_x_self]
  obtain ⟨o, ho⟩ := exists_ktfSlot r
  rw [hregs (r, o) ho hr0 hr1]
  exact hslot (r, o) ho

theorem clobbered_x_eq_iff (h : Hart) :
    (∀ r, (clobbered h).x r = h.x r)
      ↔ h.x .t0 = h.csr .sepc ∧ h.x .t1 = h.csr .sstatus ∧ h.x .t2 = h.csr .scause := by
  have ht0 : (clobbered h).x .t0 = h.csr .sepc := by
    rw [clobbered, Hart.setX_x_of_ne _ _ (by decide), Hart.setX_x_of_ne _ _ (by decide),
      Hart.setX_x_self]
  have ht1 : (clobbered h).x .t1 = h.csr .sstatus := by
    rw [clobbered, Hart.setX_x_of_ne _ _ (by decide), Hart.setX_x_self]
  have ht2 : (clobbered h).x .t2 = h.csr .scause := by
    rw [clobbered, Hart.setX_x_self]
  constructor
  · intro hall
    exact ⟨(hall .t0).symm.trans ht0, (hall .t1).symm.trans ht1, (hall .t2).symm.trans ht2⟩
  · rintro ⟨h0, h1, h2⟩ r
    by_cases hr0 : r = .t0
    · rw [hr0, ht0, h0]
    by_cases hr1 : r = .t1
    · rw [hr1, ht1, h1]
    by_cases hr2 : r = .t2
    · rw [hr2, ht2, h2]
    exact clobbered_x_of_ne h hr0 hr1 hr2

/-- **When a trap is transparent.** The interrupted process is resumed with its registers,
program counter and status exactly when `t0`, `t1` and `t2` happened to hold `sepc`,
`sstatus` and `scause` as the trap was taken: these three registers are overwritten before
`kernelvec` saves them, and whatever the process had in them is lost. -/
theorem transparent_iff {ktf ctx link : Word} (apart : ∀ a ∈ contextArea ctx, a ∉ ktfArea ktf)
    {h h₁ : Hart} (hgp : h.x .gp = ktf)
    (run : TrapRun ktf ctx (h.exec (kernelvec link)) h₁) :
    Transparent h (h₁.exec kernelret)
      ↔ h.x .t0 = h.csr .sepc ∧ h.x .t1 = h.csr .sstatus ∧ h.x .t2 = h.csr .scause := by
  obtain ⟨hx, hpc, hst⟩ := resumed apart hgp run
  rw [← clobbered_x_eq_iff]
  constructor
  · intro ht r
    rw [← hx r, ht.regs r]
  · intro hall
    exact ⟨fun r => (hx r).trans (hall r), hpc, hst⟩

/-- A hart interrupted with its frame at `0x80400000`, a program counter in the kernel text
and `v` in `t0`, where a timer interrupt is pending. -/
def timerHart (v : Word) : Hart where
  x := fun r => if r = .gp then 0x80400000 else if r = .t0 then v else 0
  csr := fun c => match c with
    | .sepc => 0x80200100
    | .sstatus => 0
    | .scause => 0x8000000000000005
  pc := 0x80200000
  mem := fun _ => 0

/-- The frame and the context of the process `timerHart` runs. -/
theorem timerHart_apart : ∀ a ∈ contextArea 0x80400200, a ∉ ktfArea 0x80400000 :=
  fun _ ha hk => notMem_area_of_le (by decide) (by decide) hk ha

/-- The trap of `timerHart` when the handler yields to another process, which then switches
back. -/
theorem transparent_iff_timerHart :
    let h := timerHart 0x80200100
    let out := (h.exec (kernelvec 0x80200080)).setX .a0 0x80400200
    let back := ((out.exec contextSwitch).setX .a0 0x80401000).setX .a1 0x80400200
    Transparent h ((back.exec contextSwitch).exec kernelret)
      ↔ h.x .t0 = h.csr .sepc ∧ h.x .t1 = h.csr .sstatus ∧ h.x .t2 = h.csr .scause := by
  intro h out back
  have toYield : TrapRun 0x80400000 0x80400200 (h.exec (kernelvec 0x80200080)) out :=
    .code ⟨Hart.setX_x_of_ne _ _ (by decide), fun _ _ => rfl⟩
  have ha0 : back.x .a0 = 0x80401000 := by
    rw [Hart.setX_x_of_ne _ _ (by decide), Hart.setX_x_self]
  have clear : ∀ a ∈ contextArea (back.x .a0),
      a ∉ ktfArea 0x80400000 ++ contextArea 0x80400200 := by
    intro a ha hmem
    rw [ha0] at ha
    rcases List.mem_append.mp hmem with hk | hc
    · exact notMem_area_of_le (by decide) (by decide) hk ha
    · exact notMem_area_of_le (by decide) (by decide) hc ha
  have switched : TrapRun 0x80400000 0x80400200 out (back.exec contextSwitch) :=
    .away (Hart.setX_x_self _ _ _) (fun _ _ => rfl) (Hart.setX_x_self _ _ _) clear
  exact transparent_iff timerHart_apart rfl (toYield.trans switched)

/-- A timer interrupt that finds `7` in `t0` resumes the process with its program counter
there. -/
theorem not_transparent :
    ¬ ∀ (ktf ctx link : Word) (h h₁ : Hart), (∀ a ∈ contextArea ctx, a ∉ ktfArea ktf) →
      h.x .gp = ktf → TrapRun ktf ctx (h.exec (kernelvec link)) h₁ →
      Transparent h (h₁.exec kernelret) := by
  intro hall
  have run : TrapRun 0x80400000 0x80400200 ((timerHart 7).exec (kernelvec 0x80200080))
      ((timerHart 7).exec (kernelvec 0x80200080)) := .code (.refl _ _)
  have htrans := hall _ _ _ _ _ timerHart_apart rfl run
  have hx := (resumed timerHart_apart rfl run).1 .t0
  rw [htrans.regs .t0] at hx
  exact absurd hx (by decide)

end NoobKernel.Trap
