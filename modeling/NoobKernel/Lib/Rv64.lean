import Mathlib.Tactic

set_option autoImplicit false

/-! # Straight-line RV64 supervisor code

The part of a RISC-V hart that save and restore sequences touch: the 31 general registers,
the trap CSRs, the program counter and a memory of doublewords. Code is a list of
instructions, run from left to right; an area is addressed as `off(base)`, and all accesses
are doubleword accesses at distinct multiples of eight off one base, so that memory is a
function from addresses to doublewords.

The rules below are what a proof about a save or restore sequence needs: a block of stores
(`stores`) leaves every saved register in its slot and nothing else changed, and a block of
loads (`loads`) fills every register from its slot even when the base register is itself
among the loaded ones, as long as its slot holds its value.
-/

namespace Rv64

abbrev Word := BitVec 64

/-- The general registers other than the constant zero. -/
inductive Reg
  | ra | sp | gp | tp | t0 | t1 | t2 | s0 | s1
  | a0 | a1 | a2 | a3 | a4 | a5 | a6 | a7
  | s2 | s3 | s4 | s5 | s6 | s7 | s8 | s9 | s10 | s11
  | t3 | t4 | t5 | t6
  deriving DecidableEq, Repr

inductive Csr
  | sepc | sstatus | scause
  deriving DecidableEq, Repr

structure Hart where
  x : Reg → Word
  csr : Csr → Word
  pc : Word
  mem : Word → Word

inductive Instr
  | csrr (rd : Reg) (c : Csr)
  | csrw (c : Csr) (rs : Reg)
  | sd (rs : Reg) (off : Nat) (base : Reg)
  | ld (rd : Reg) (off : Nat) (base : Reg)
  | mv (rd rs : Reg)
  /-- The register effect of a call: `ra` receives the return address. -/
  | link (ret : Word)
  | ret
  | sret
  deriving DecidableEq, Repr

/-! ## The interrupt-enable stack of `sstatus` -/

def SIE : Nat := 1
def SPIE : Nat := 5
def SPP : Nat := 8

def setBit (s : Word) (i : Nat) (b : Bool) : Word :=
  if b then s ||| (1#64 <<< i) else s &&& ~~~(1#64 <<< i)

/-- The status a supervisor trap leaves: interrupts are off, `SPIE` remembers whether they
were on, and `SPP` says that the trap came from supervisor mode. -/
def trapStatus (s : Word) : Word :=
  setBit (setBit (setBit s SPIE (s.getLsbD SIE)) SIE false) SPP true

/-- The status `sret` leaves: `SIE` is taken back from `SPIE`. -/
def sretStatus (s : Word) : Word :=
  setBit (setBit (setBit s SIE (s.getLsbD SPIE)) SPIE true) SPP false

theorem getLsbD_setBit (s : Word) (i : Nat) (b : Bool) (j : Nat) (hi : i < 64) :
    (setBit s i b).getLsbD j = if j = i then b else s.getLsbD j := by
  unfold setBit
  by_cases hj : j = i
  · subst hj
    cases b <;> simp [hi]
  · have hd : j < i ∨ i < j := by omega
    cases b with
    | true =>
        simp only [if_true, BitVec.getLsbD_or, BitVec.getLsbD_shiftLeft, BitVec.getLsbD_one,
          if_neg hj]
        rcases hd with h | h
        · simp [h]
        · simp [show ¬ j - i = 0 by omega]
    | false =>
        simp only [Bool.false_eq_true, if_false, BitVec.getLsbD_and, BitVec.getLsbD_not,
          BitVec.getLsbD_shiftLeft, BitVec.getLsbD_one, if_neg hj]
        by_cases hj64 : j < 64
        · rcases hd with h | h
          · simp [h, hj64]
          · simp [hj64, show ¬ j - i = 0 by omega]
        · simp [BitVec.getLsbD_of_ge s j (by omega)]

/-- A trap taken and left at once gives the status back, up to the two bits that every
`sret` sets to the same values. -/
theorem getLsbD_sretStatus_trapStatus (s : Word) (j : Nat) (h5 : j ≠ SPIE) (h8 : j ≠ SPP) :
    (sretStatus (trapStatus s)).getLsbD j = s.getLsbD j := by
  unfold SPIE at h5
  unfold SPP at h8
  have get8 := fun (t : Word) b => getLsbD_setBit t 8 b j (by omega)
  have get5 := fun (t : Word) b => getLsbD_setBit t 5 b j (by omega)
  have get1 := fun (t : Word) b => getLsbD_setBit t 1 b j (by omega)
  simp only [sretStatus, trapStatus, SIE, SPIE, SPP, get8, get5, get1, if_neg h5, if_neg h8]
  by_cases h1 : j = 1
  · -- `SIE` comes back from `SPIE`, where the trap put it
    subst h1
    rw [if_pos rfl, getLsbD_setBit _ _ _ _ (by omega), getLsbD_setBit _ _ _ _ (by omega),
      getLsbD_setBit _ _ _ _ (by omega)]
    simp
  · rw [if_neg h1, if_neg h1]

/-! ## Execution -/

namespace Hart

def setX (h : Hart) (r : Reg) (v : Word) : Hart := { h with x := Function.update h.x r v }

def setCsr (h : Hart) (c : Csr) (v : Word) : Hart := { h with csr := Function.update h.csr c v }

def store (h : Hart) (a v : Word) : Hart := { h with mem := Function.update h.mem a v }

/-- The address `off(base)`. -/
def addr (h : Hart) (base : Reg) (off : Nat) : Word := h.x base + BitVec.ofNat 64 off

def step (h : Hart) : Instr → Hart
  | .csrr rd c => h.setX rd (h.csr c)
  | .csrw c rs => h.setCsr c (h.x rs)
  | .sd rs off base => h.store (h.addr base off) (h.x rs)
  | .ld rd off base => h.setX rd (h.mem (h.addr base off))
  | .mv rd rs => h.setX rd (h.x rs)
  | .link ret => h.setX .ra ret
  | .ret => { h with pc := h.x .ra }
  | .sret =>
      { h with
        pc := h.csr .sepc
        csr := Function.update h.csr .sstatus (sretStatus (h.csr .sstatus)) }

def exec (h : Hart) (p : List Instr) : Hart := p.foldl step h

/-- The hardware's side of a trap: `sepc`, `scause` and `sstatus` are written and control
goes to the vector. -/
def trapEntry (h : Hart) (vec cause : Word) : Hart :=
  { ((h.setCsr .sepc h.pc).setCsr .scause cause).setCsr .sstatus (trapStatus (h.csr .sstatus)) with
    pc := vec }

@[simp] theorem setX_csr (h : Hart) (r : Reg) (v : Word) : (h.setX r v).csr = h.csr := rfl
@[simp] theorem setX_pc (h : Hart) (r : Reg) (v : Word) : (h.setX r v).pc = h.pc := rfl
@[simp] theorem setX_mem (h : Hart) (r : Reg) (v : Word) : (h.setX r v).mem = h.mem := rfl
@[simp] theorem setCsr_x (h : Hart) (c : Csr) (v : Word) : (h.setCsr c v).x = h.x := rfl
@[simp] theorem setCsr_pc (h : Hart) (c : Csr) (v : Word) : (h.setCsr c v).pc = h.pc := rfl
@[simp] theorem setCsr_mem (h : Hart) (c : Csr) (v : Word) : (h.setCsr c v).mem = h.mem := rfl
@[simp] theorem store_x (h : Hart) (a v : Word) : (h.store a v).x = h.x := rfl
@[simp] theorem store_csr (h : Hart) (a v : Word) : (h.store a v).csr = h.csr := rfl
@[simp] theorem store_pc (h : Hart) (a v : Word) : (h.store a v).pc = h.pc := rfl

@[simp] theorem setX_x_self (h : Hart) (r : Reg) (v : Word) : (h.setX r v).x r = v := by
  simp [setX]

theorem setX_x_of_ne (h : Hart) {r r' : Reg} (v : Word) (hne : r' ≠ r) :
    (h.setX r v).x r' = h.x r' := by
  simp [setX, hne]

@[simp] theorem setCsr_csr_self (h : Hart) (c : Csr) (v : Word) : (h.setCsr c v).csr c = v := by
  simp [setCsr]

theorem store_mem_self (h : Hart) (a v : Word) : (h.store a v).mem a = v := by
  simp [store]

theorem store_mem_of_ne (h : Hart) {a b : Word} (v : Word) (hne : b ≠ a) :
    (h.store a v).mem b = h.mem b := by
  simp [store, hne]

@[simp] theorem exec_nil (h : Hart) : h.exec [] = h := rfl

theorem exec_cons (h : Hart) (i : Instr) (p : List Instr) :
    h.exec (i :: p) = (h.step i).exec p := rfl

theorem exec_append (h : Hart) (p q : List Instr) : h.exec (p ++ q) = (h.exec p).exec q :=
  List.foldl_append

/-- Leaving a trap at once resumes the interrupted code: registers, memory and program
counter are those at the trap. -/
theorem sret_trapEntry (h : Hart) (vec cause : Word) :
    ((h.trapEntry vec cause).exec [.sret]).x = h.x
      ∧ ((h.trapEntry vec cause).exec [.sret]).mem = h.mem
      ∧ ((h.trapEntry vec cause).exec [.sret]).pc = h.pc
      ∧ ((h.trapEntry vec cause).exec [.sret]).csr .sstatus
          = sretStatus (trapStatus (h.csr .sstatus)) := by
  refine ⟨rfl, rfl, ?_, ?_⟩
  · simp [exec, step, trapEntry, setCsr]
  · simp [exec, step, trapEntry, setCsr]

end Hart

/-! ## Save areas -/

/-- The first `n` doublewords at `base`. -/
def area (base : Word) (n : Nat) : List Word :=
  (List.range n).map fun i => base + BitVec.ofNat 64 (8 * i)

theorem mem_area {base a : Word} {n : Nat} :
    a ∈ area base n ↔ ∃ i < n, base + BitVec.ofNat 64 (8 * i) = a := by
  simp [area]

/-- Two areas that follow one another do not overlap. -/
theorem notMem_area_of_le {b c a : Word} {m n : Nat} (hle : b.toNat + 8 * m ≤ c.toNat)
    (hlt : c.toNat + 8 * n < 2 ^ 64) (hb : a ∈ area b m) : a ∉ area c n := by
  intro hc
  obtain ⟨i, hi, rfl⟩ := mem_area.mp hb
  obtain ⟨j, hj, heq⟩ := mem_area.mp hc
  have hnat := congrArg BitVec.toNat heq
  rw [BitVec.toNat_add, BitVec.toNat_add, BitVec.toNat_ofNat, BitVec.toNat_ofNat,
    Nat.mod_eq_of_lt (a := 8 * j) (by omega), Nat.mod_eq_of_lt (a := 8 * i) (by omega),
    Nat.mod_eq_of_lt (by omega), Nat.mod_eq_of_lt (by omega)] at hnat
  omega

/-- The addresses of the slots `slots` of an area at `base`. -/
def slotAddrs (base : Word) (slots : List (Reg × Nat)) : List Word :=
  slots.map fun p => base + BitVec.ofNat 64 p.2

/-- Save every register in its slot of the area at `base`. -/
def stores (base : Reg) (slots : List (Reg × Nat)) : List Instr :=
  slots.map fun p => .sd p.1 p.2 base

/-- Fill every register from its slot of the area at `base`. -/
def loads (base : Reg) (slots : List (Reg × Nat)) : List Instr :=
  slots.map fun p => .ld p.1 p.2 base

theorem add_ofNat_inj (b : Word) {m n : Nat} (hm : m < 2 ^ 64) (hn : n < 2 ^ 64)
    (h : b + BitVec.ofNat 64 m = b + BitVec.ofNat 64 n) : m = n := by
  have h' : BitVec.ofNat 64 m = BitVec.ofNat 64 n := (BitVec.add_right_inj b).mp h
  have hnat := congrArg BitVec.toNat h'
  rwa [BitVec.toNat_ofNat, BitVec.toNat_ofNat, Nat.mod_eq_of_lt hm, Nat.mod_eq_of_lt hn] at hnat

/-- Distinct offsets are distinct addresses. -/
theorem slotAddrs_nodup (base : Word) (slots : List (Reg × Nat))
    (hlt : ∀ p ∈ slots, p.2 < 2 ^ 64) (hnd : (slots.map Prod.snd).Nodup) :
    (slotAddrs base slots).Nodup := by
  have hmap : slotAddrs base slots
      = (slots.map Prod.snd).map (fun o => base + BitVec.ofNat 64 o) := by
    simp [slotAddrs]
  rw [hmap]
  refine List.Nodup.map_on ?_ hnd
  intro a ha b hb hab
  obtain ⟨p, hp, rfl⟩ := List.mem_map.mp ha
  obtain ⟨q, hq, rfl⟩ := List.mem_map.mp hb
  exact add_ofNat_inj base (hlt p hp) (hlt q hq) hab

namespace Hart

theorem stores_x (base : Reg) (slots : List (Reg × Nat)) (h : Hart) :
    (h.exec (stores base slots)).x = h.x := by
  induction slots generalizing h with
  | nil => rfl
  | cons p l ih => exact ih (h.step (.sd p.1 p.2 base))

theorem stores_csr (base : Reg) (slots : List (Reg × Nat)) (h : Hart) :
    (h.exec (stores base slots)).csr = h.csr := by
  induction slots generalizing h with
  | nil => rfl
  | cons p l ih => exact ih (h.step (.sd p.1 p.2 base))

/-- A block of stores changes no memory outside its slots. -/
theorem stores_mem_of_notMem (base : Reg) (slots : List (Reg × Nat)) (h : Hart) (a : Word)
    (ha : a ∉ slotAddrs (h.x base) slots) :
    (h.exec (stores base slots)).mem a = h.mem a := by
  induction slots generalizing h with
  | nil => rfl
  | cons p l ih =>
      simp only [slotAddrs, List.map_cons, List.mem_cons, not_or] at ha
      have hrest := ih (h.step (.sd p.1 p.2 base)) ha.2
      rw [show stores base (p :: l) = .sd p.1 p.2 base :: stores base l from rfl, exec_cons,
        hrest]
      exact store_mem_of_ne _ _ ha.1

/-- A block of stores at distinct slots leaves every register in its slot. -/
theorem stores_mem (base : Reg) (slots : List (Reg × Nat)) (h : Hart)
    (hnd : (slotAddrs (h.x base) slots).Nodup) :
    ∀ p ∈ slots, (h.exec (stores base slots)).mem (h.addr base p.2) = h.x p.1 := by
  induction slots generalizing h with
  | nil => intro p hp; cases hp
  | cons q l ih =>
      simp only [slotAddrs, List.map_cons, List.nodup_cons] at hnd
      intro p hp
      rw [show stores base (q :: l) = .sd q.1 q.2 base :: stores base l from rfl, exec_cons]
      rcases List.mem_cons.mp hp with rfl | hp
      · -- the slot just written is not among the later ones
        rw [stores_mem_of_notMem base l (h.step (.sd p.1 p.2 base)) (h.addr base p.2) hnd.1]
        exact store_mem_self h (h.addr base p.2) (h.x p.1)
      · exact ih (h.step (.sd q.1 q.2 base)) hnd.2 p hp

theorem loads_mem (base : Reg) (slots : List (Reg × Nat)) (h : Hart) :
    (h.exec (loads base slots)).mem = h.mem := by
  induction slots generalizing h with
  | nil => rfl
  | cons p l ih => exact ih (h.step (.ld p.1 p.2 base))

theorem loads_x_of_notMem (base : Reg) (slots : List (Reg × Nat)) (h : Hart) (r : Reg)
    (hr : r ∉ slots.map Prod.fst) : (h.exec (loads base slots)).x r = h.x r := by
  induction slots generalizing h with
  | nil => rfl
  | cons p l ih =>
      simp only [List.map_cons, List.mem_cons, not_or] at hr
      rw [show loads base (p :: l) = .ld p.1 p.2 base :: loads base l from rfl, exec_cons,
        ih _ hr.2]
      exact setX_x_of_ne _ _ hr.1

/-- A block of loads into distinct registers fills each from its slot. The base register may
be among them: its slot then has to hold its value, so that the later loads still address
the same area. -/
theorem loads_x (base : Reg) (slots : List (Reg × Nat)) (h : Hart)
    (hnd : (slots.map Prod.fst).Nodup)
    (hbase : ∀ o, (base, o) ∈ slots → h.mem (h.addr base o) = h.x base) :
    ∀ p ∈ slots, (h.exec (loads base slots)).x p.1 = h.mem (h.addr base p.2) := by
  induction slots generalizing h with
  | nil => intro p hp; cases hp
  | cons q l ih =>
      simp only [List.map_cons, List.nodup_cons] at hnd
      intro p hp
      rw [show loads base (q :: l) = .ld q.1 q.2 base :: loads base l from rfl, exec_cons]
      rcases List.mem_cons.mp hp with rfl | hp
      · rw [loads_x_of_notMem base l _ _ hnd.1]
        exact setX_x_self h p.1 _
      · have hsame : (h.step (.ld q.1 q.2 base)).x base = h.x base := by
          by_cases hq : base = q.1
          · have hmem : (base, q.2) ∈ q :: l := by rw [hq]; exact List.mem_cons_self
            show (h.setX q.1 (h.mem (h.addr base q.2))).x base = _
            rw [hbase q.2 hmem, ← hq, setX_x_self]
          · exact setX_x_of_ne _ _ hq
        have haddr : ∀ o, (h.step (.ld q.1 q.2 base)).addr base o = h.addr base o := by
          intro o
          simp only [addr, hsame]
        have hrest := ih (h.step (.ld q.1 q.2 base)) hnd.2
          (by
            intro o ho
            rw [haddr, hsame]
            exact hbase o (List.mem_cons_of_mem _ ho)) p hp
        rw [haddr] at hrest
        exact hrest

end Hart

end Rv64
