import NoobKernel.Lib.Rv64

set_option autoImplicit false

/-! # Supervisor code across address spaces

Code that changes the address space it runs in, as a trap from user mode does. A `Spaced` hart has
the registers of a `Hart`, `satp` and `sscratch` among the CSRs, and physical memory; what a load
or a store means depends on the space that `satp` selects, which is given by a translation `tr`
from `satp` and a virtual address to a physical one. The code itself is to be mapped at one
address in all the spaces, so that its execution goes on when `satp` is written.

The rules are those of save and restore sequences, with the slots where the translation puts them.
-/

namespace Rv64

inductive SpaceCsr
  | sepc | sstatus | scause | sscratch | satp
  deriving DecidableEq, Repr

structure Spaced where
  x : Reg → Word
  csr : SpaceCsr → Word
  pc : Word
  mem : Word → Word

inductive SpaceInstr
  | csrr (rd : Reg) (c : SpaceCsr)
  | csrw (c : SpaceCsr) (rs : Reg)
  | csrrw (rd : Reg) (c : SpaceCsr) (rs : Reg)
  | sd (rs : Reg) (off : Nat) (base : Reg)
  | ld (rd : Reg) (off : Nat) (base : Reg)
  | sfence
  | jr (rs : Reg)
  | sret
  deriving DecidableEq, Repr

/-- The status a trap from user mode leaves. -/
def userTrapStatus (s : Word) : Word :=
  setBit (setBit (setBit s SPIE (s.getLsbD SIE)) SIE false) SPP false

namespace Spaced

def setX (m : Spaced) (r : Reg) (v : Word) : Spaced := { m with x := Function.update m.x r v }

def setCsr (m : Spaced) (c : SpaceCsr) (v : Word) : Spaced :=
  { m with csr := Function.update m.csr c v }

def store (m : Spaced) (a v : Word) : Spaced := { m with mem := Function.update m.mem a v }

def setPc (m : Spaced) (v : Word) : Spaced := { m with pc := v }

/-- The physical address of `off(base)`. -/
def place (tr : Word → Word → Word) (m : Spaced) (base : Reg) (off : Nat) : Word :=
  tr (m.csr .satp) (m.x base + BitVec.ofNat 64 off)

def step (tr : Word → Word → Word) (m : Spaced) : SpaceInstr → Spaced
  | .csrr rd c => m.setX rd (m.csr c)
  | .csrw c rs => m.setCsr c (m.x rs)
  | .csrrw rd c rs => (m.setCsr c (m.x rs)).setX rd (m.csr c)
  | .sd rs off base => m.store (m.place tr base off) (m.x rs)
  | .ld rd off base => m.setX rd (m.mem (m.place tr base off))
  | .sfence => m
  | .jr rs => m.setPc (m.x rs)
  | .sret => (m.setCsr .sstatus (sretStatus (m.csr .sstatus))).setPc (m.csr .sepc)

def exec (tr : Word → Word → Word) (m : Spaced) (p : List SpaceInstr) : Spaced :=
  p.foldl (step tr) m

/-- The hardware's side of a trap from user mode. -/
def userTrap (m : Spaced) (vec cause : Word) : Spaced :=
  (((m.setCsr .sepc m.pc).setCsr .scause cause).setCsr .sstatus
    (userTrapStatus (m.csr .sstatus))).setPc vec

variable {tr : Word → Word → Word} {m : Spaced}

@[simp] theorem setX_csr (m : Spaced) (r : Reg) (v : Word) : (m.setX r v).csr = m.csr := rfl
@[simp] theorem setX_pc (m : Spaced) (r : Reg) (v : Word) : (m.setX r v).pc = m.pc := rfl
@[simp] theorem setX_mem (m : Spaced) (r : Reg) (v : Word) : (m.setX r v).mem = m.mem := rfl
@[simp] theorem setCsr_x (m : Spaced) (c : SpaceCsr) (v : Word) : (m.setCsr c v).x = m.x := rfl
@[simp] theorem setCsr_pc (m : Spaced) (c : SpaceCsr) (v : Word) : (m.setCsr c v).pc = m.pc := rfl
@[simp] theorem setCsr_mem (m : Spaced) (c : SpaceCsr) (v : Word) :
    (m.setCsr c v).mem = m.mem := rfl
@[simp] theorem setPc_x (m : Spaced) (v : Word) : (m.setPc v).x = m.x := rfl
@[simp] theorem setPc_csr (m : Spaced) (v : Word) : (m.setPc v).csr = m.csr := rfl
@[simp] theorem setPc_mem (m : Spaced) (v : Word) : (m.setPc v).mem = m.mem := rfl
@[simp] theorem setPc_pc (m : Spaced) (v : Word) : (m.setPc v).pc = v := rfl
@[simp] theorem store_x (m : Spaced) (a v : Word) : (m.store a v).x = m.x := rfl
@[simp] theorem store_csr (m : Spaced) (a v : Word) : (m.store a v).csr = m.csr := rfl
@[simp] theorem store_pc (m : Spaced) (a v : Word) : (m.store a v).pc = m.pc := rfl

@[simp] theorem setX_x_self (m : Spaced) (r : Reg) (v : Word) : (m.setX r v).x r = v :=
  Function.update_self _ _ _

theorem setX_x_of_ne (m : Spaced) {r r' : Reg} (v : Word) (hne : r' ≠ r) :
    (m.setX r v).x r' = m.x r' :=
  Function.update_of_ne hne _ _

@[simp] theorem setCsr_csr_self (m : Spaced) (c : SpaceCsr) (v : Word) :
    (m.setCsr c v).csr c = v :=
  Function.update_self _ _ _

theorem setCsr_csr_of_ne (m : Spaced) {c c' : SpaceCsr} (v : Word) (hne : c' ≠ c) :
    (m.setCsr c v).csr c' = m.csr c' :=
  Function.update_of_ne hne _ _

theorem store_mem_self (m : Spaced) (a v : Word) : (m.store a v).mem a = v :=
  Function.update_self _ _ _

theorem store_mem_of_ne (m : Spaced) {a b : Word} (v : Word) (hne : b ≠ a) :
    (m.store a v).mem b = m.mem b :=
  Function.update_of_ne hne _ _

@[simp] theorem place_setX {base r : Reg} (hne : base ≠ r) (v : Word) (off : Nat) :
    (m.setX r v).place tr base off = m.place tr base off := by
  rw [place, setX_x_of_ne _ _ hne]
  rfl

@[simp] theorem place_store (a v : Word) (base : Reg) (off : Nat) :
    (m.store a v).place tr base off = m.place tr base off := rfl

theorem exec_nil (m : Spaced) : m.exec tr [] = m := rfl

theorem exec_cons (m : Spaced) (i : SpaceInstr) (p : List SpaceInstr) :
    m.exec tr (i :: p) = (m.step tr i).exec tr p := rfl

theorem exec_append (m : Spaced) (p q : List SpaceInstr) :
    m.exec tr (p ++ q) = (m.exec tr p).exec tr q :=
  List.foldl_append

/-! ## Save areas -/

/-- Save every register in its slot of the area at `base`. -/
def saves (base : Reg) (slots : List (Reg × Nat)) : List SpaceInstr :=
  slots.map fun p => .sd p.1 p.2 base

/-- Fill every register from its slot of the area at `base`. -/
def restores (base : Reg) (slots : List (Reg × Nat)) : List SpaceInstr :=
  slots.map fun p => .ld p.1 p.2 base

/-- Where the slots are in memory. -/
def places (tr : Word → Word → Word) (m : Spaced) (base : Reg) (slots : List (Reg × Nat)) :
    List Word :=
  slots.map fun p => m.place tr base p.2

theorem saves_x (base : Reg) (slots : List (Reg × Nat)) (m : Spaced) :
    (m.exec tr (saves base slots)).x = m.x := by
  induction slots generalizing m with
  | nil => rfl
  | cons p l ih => exact ih (m.step tr (.sd p.1 p.2 base))

theorem saves_csr (base : Reg) (slots : List (Reg × Nat)) (m : Spaced) :
    (m.exec tr (saves base slots)).csr = m.csr := by
  induction slots generalizing m with
  | nil => rfl
  | cons p l ih => exact ih (m.step tr (.sd p.1 p.2 base))

theorem saves_mem_of_notMem (base : Reg) (slots : List (Reg × Nat)) (m : Spaced) (a : Word)
    (ha : a ∉ m.places tr base slots) : (m.exec tr (saves base slots)).mem a = m.mem a := by
  induction slots generalizing m with
  | nil => rfl
  | cons p l ih =>
      rw [places, List.map_cons, List.mem_cons, not_or] at ha
      exact (ih (m.step tr (.sd p.1 p.2 base)) ha.2).trans (store_mem_of_ne _ _ ha.1)

theorem saves_mem (base : Reg) (slots : List (Reg × Nat)) (m : Spaced)
    (hnd : (m.places tr base slots).Nodup) :
    ∀ p ∈ slots, (m.exec tr (saves base slots)).mem (m.place tr base p.2) = m.x p.1 := by
  induction slots generalizing m with
  | nil => exact fun p hp => absurd hp List.not_mem_nil
  | cons q l ih =>
      rw [places, List.map_cons, List.nodup_cons] at hnd
      intro p hp
      rcases List.mem_cons.mp hp with rfl | hp
      · -- the slot just written is not among the later ones
        exact (saves_mem_of_notMem base l (m.step tr (.sd p.1 p.2 base)) _ hnd.1).trans
          (store_mem_self m _ _)
      · exact ih (m.step tr (.sd q.1 q.2 base)) hnd.2 p hp

theorem restores_mem (base : Reg) (slots : List (Reg × Nat)) (m : Spaced) :
    (m.exec tr (restores base slots)).mem = m.mem := by
  induction slots generalizing m with
  | nil => rfl
  | cons p l ih => exact ih (m.step tr (.ld p.1 p.2 base))

theorem restores_csr (base : Reg) (slots : List (Reg × Nat)) (m : Spaced) :
    (m.exec tr (restores base slots)).csr = m.csr := by
  induction slots generalizing m with
  | nil => rfl
  | cons p l ih => exact ih (m.step tr (.ld p.1 p.2 base))

theorem restores_x_of_notMem (base : Reg) (slots : List (Reg × Nat)) (m : Spaced) (r : Reg)
    (hr : r ∉ slots.map Prod.fst) : (m.exec tr (restores base slots)).x r = m.x r := by
  induction slots generalizing m with
  | nil => rfl
  | cons p l ih =>
      rw [List.map_cons, List.mem_cons, not_or] at hr
      exact (ih (m.step tr (.ld p.1 p.2 base)) hr.2).trans (setX_x_of_ne _ _ hr.1)

/-- Loads into distinct registers other than the base fill each from its slot. -/
theorem restores_x (base : Reg) (slots : List (Reg × Nat)) (m : Spaced)
    (hnd : (slots.map Prod.fst).Nodup) (hbase : base ∉ slots.map Prod.fst) :
    ∀ p ∈ slots, (m.exec tr (restores base slots)).x p.1 = m.mem (m.place tr base p.2) := by
  induction slots generalizing m with
  | nil => exact fun p hp => absurd hp List.not_mem_nil
  | cons q l ih =>
      rw [List.map_cons, List.nodup_cons] at hnd
      rw [List.map_cons, List.mem_cons, not_or] at hbase
      intro p hp
      rcases List.mem_cons.mp hp with rfl | hp
      · exact (restores_x_of_notMem base l (m.step tr (.ld p.1 p.2 base)) _ hnd.1).trans
          (setX_x_self m _ _)
      · have hsame : (m.step tr (.ld q.1 q.2 base)).place tr base p.2 = m.place tr base p.2 := by
          show tr (m.csr .satp) ((m.setX q.1 _).x base + _) = _
          rw [setX_x_of_ne _ _ hbase.1]
          rfl
        rw [← hsame]
        exact ih (m.step tr (.ld q.1 q.2 base)) hnd.2 hbase.2 p hp

end Spaced

end Rv64
