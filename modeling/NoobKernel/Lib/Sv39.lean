import NoobKernel.Lib.Radix

set_option autoImplicit false

/-! # Sv39 address translation

What the hardware makes of page tables in supervisor mode. A table is named by its base address and
holds 512 entries; the walk goes from the root over three levels, ends at an entry that permits
reading, writing or executing, and translates the rest of the address by it. A page of user mode is
out of reach, and the hardware keeps the accessed and dirty bits itself.

Where every entry above the last level is a bare pointer or invalid, there are no large pages, and
the walk is a lookup in a radix tree (`walk_eq`).
-/

namespace Sv39

open Radix

def PAGE : Nat := 4096

/-- The flags of an entry, by their bits. -/
def V : Nat := 0
def R : Nat := 1
def W : Nat := 2
def X : Nat := 3
def U : Nat := 4

inductive Access
  | load
  | store
  | fetch
  deriving DecidableEq

/-- The flag that permits an access. -/
def Access.flag : Access → Nat
  | .load => R
  | .store => W
  | .fetch => X

/-- The page an entry points to, its physical page number times the size of a page. -/
def target (pte : Nat) : Nat := pte / 2 ^ 10 % 2 ^ 44 * PAGE

def isLeaf (pte : Nat) : Bool := pte.testBit R || pte.testBit W || pte.testBit X

/-- An entry that is not valid, or that permits writing without reading. -/
def invalid (pte : Nat) : Bool := !pte.testBit V || (!pte.testBit R && pte.testBit W)

/-- The index of an address at a level. -/
def vpn (level va : Nat) : Nat := va / 2 ^ (12 + 9 * level) % 512

/-- What a leaf entry at a level makes of an address. A large page has to be aligned. -/
def leafTarget (level pte va : Nat) (acc : Access) : Option Nat :=
  let size := 2 ^ (12 + 9 * level)
  if pte.testBit U || !pte.testBit acc.flag then none
  else if target pte % size ≠ 0 then none
  else some (target pte + va % size)

/-- The walk from a level down; `none` is a page fault. -/
def walk (tab : Nat → Nat → Nat) (va : Nat) (acc : Access) : Nat → Nat → Option Nat
  | 0, table =>
      let pte := tab table (vpn 0 va)
      if invalid pte then none
      else if isLeaf pte then leafTarget 0 pte va acc
      else none
  | level + 1, table =>
      let pte := tab table (vpn (level + 1) va)
      if invalid pte then none
      else if isLeaf pte then leafTarget (level + 1) pte va acc
      else walk tab va acc level (target pte)

/-- Bits 38 and up of an address are all equal. -/
def canonical (va : Nat) : Bool := va < 2 ^ 38 || (2 ^ 64 - 2 ^ 38 ≤ va && va < 2 ^ 64)

/-- What `satp` selects: the mode is Sv39, and the rest is the number of the root page. -/
def translate (tab : Nat → Nat → Nat) (satp va : Nat) (acc : Access) : Option Nat :=
  if satp / 2 ^ 60 = 8 ∧ canonical va then walk tab va acc 2 (satp % 2 ^ 44 * PAGE) else none

/-! ## Tables of small pages -/

/-- An entry above the last level that is no large page: it is invalid, or no flag but `V` is set. -/
def bare (pte : Nat) : Bool := !pte.testBit V || !isLeaf pte

/-- The indices of an address from a level down. -/
def key (va : Nat) : Nat → List Nat
  | 0 => [vpn 0 va]
  | level + 1 => vpn (level + 1) va :: key va level

theorem length_key (va level : Nat) : (key va level).length = level + 1 := by
  induction level with
  | zero => rfl
  | succ level ih => rw [key, List.length_cons, ih]

/-- The table an entry points to. -/
def child (pte : Nat) : Option Nat := if pte.testBit V then some (target pte) else none

/-- What the last level makes of an address. -/
def page (pte va : Nat) (acc : Access) : Option Nat :=
  if pte.testBit V && pte.testBit acc.flag && !pte.testBit U && !invalid pte then
    some (target pte + va % PAGE)
  else none

theorem target_mod (pte : Nat) : target pte % PAGE = 0 := Nat.mul_mod_left _ _

theorem isLeaf_of_flag {pte : Nat} {acc : Access} (h : pte.testBit acc.flag = true) :
    isLeaf pte = true := by
  cases acc <;> simp only [Access.flag] at h <;> simp [isLeaf, h]

theorem walk_zero (tab : Nat → Nat → Nat) (va : Nat) (acc : Access) (table : Nat) :
    walk tab va acc 0 table = page (tab table (vpn 0 va)) va acc := by
  have hmod : target (tab table (vpn 0 va)) % 2 ^ (12 + 9 * 0) = 0 := target_mod _
  have hsize : va % 2 ^ (12 + 9 * 0) = va % PAGE := rfl
  rw [walk, page]
  generalize tab table (vpn 0 va) = pte at hmod ⊢
  simp only [leafTarget, hmod, hsize, ne_eq, not_true_eq_false, if_false]
  by_cases hinv : invalid pte = true
  · simp [hinv]
  · have hv : pte.testBit V = true := by
      by_contra hv
      exact hinv (by simp [invalid, hv])
    cases hflag : pte.testBit acc.flag with
    | false => simp [hinv]
    | true => cases huser : pte.testBit U <;> simp [hinv, hv, isLeaf_of_flag hflag]

theorem walk_succ {tab : Nat → Nat → Nat} {va level table : Nat} {acc : Access}
    (hbare : bare (tab table (vpn (level + 1) va)) = true) :
    walk tab va acc (level + 1) table
      = match child (tab table (vpn (level + 1) va)) with
        | none => none
        | some t => walk tab va acc level t := by
  rw [walk, child]
  generalize tab table (vpn (level + 1) va) = pte at hbare ⊢
  cases hv : pte.testBit V with
  | false => simp [invalid, hv]
  | true =>
      have hleaf : isLeaf pte = false := by simpa [bare, hv] using hbare
      have hinv : invalid pte = false := by
        simp only [isLeaf, Bool.or_eq_false_iff] at hleaf
        simp [invalid, hv, hleaf.1.2]
      simp [hinv, hleaf]

/-- **The walk is a lookup**, where the tables are a tree below `next`, and `next` is what the hardware
makes of the entries above the last level. -/
theorem walk_eq {next : Nat → Option Nat} {tab : Nat → Nat → Nat} {root : Nat} {nodes : List Nat}
    {path : Nat → List Nat} (tree : Tree next 3 root nodes path tab)
    (hinner : ∀ n ∈ nodes, (path n).length < 2 → ∀ i,
      bare (tab n i) = true ∧ child (tab n i) = next (tab n i))
    (va : Nat) (acc : Access) (level : Nat) {table : Nat} (htable : table ∈ nodes)
    (hlen : (path table).length + level = 2) :
    walk tab va acc level table = page (lookup next 0 tab table (key va level)) va acc := by
  induction level generalizing table with
  | zero => rw [walk_zero, key, lookup_one]
  | succ level ih =>
      have hkey : ∃ j is, key va level = j :: is := by
        cases level with
        | zero => exact ⟨_, _, rfl⟩
        | succ level => exact ⟨_, _, rfl⟩
      obtain ⟨j, is, hkey⟩ := hkey
      obtain ⟨hbare, hnext⟩ := hinner table htable (by omega) (vpn (level + 1) va)
      rw [walk_succ hbare, key, hnext]
      cases hchild : next (tab table (vpn (level + 1) va)) with
      | none =>
          rw [hkey, lookup_none hchild]
          simp [page]
      | some t =>
          obtain ⟨ht, hpath⟩ := tree.child_mem table htable (by omega) _ _ hchild
          rw [hkey, lookup_some hchild, ← hkey]
          refine ih ht ?_
          rw [hpath, List.length_append, List.length_singleton]
          omega

end Sv39
