import NoobKernel.Mm.BuddyRun
import NoobKernel.Mm.Boot
import NoobKernel.Mm.SlabLocks

set_option autoImplicit false

/-! # Freeing an object that is free

`slab_free` finds the bit of the object clear, warns and returns; its caller counts the object
as freed all the same (`kmemCacheFree_doubleFree`). So no double free leaves the cache as it was
(`doubleFree_changes`), and `n` of them leave it with `n` objects too many (`freeAgain_count`).
-/

namespace NoobKernel.Mm

open Misc Exec

variable {E R : Type}

/-- The index of the object at an address of a slab, as `slab_free` computes it. -/
def Kernel.objectIndex (k : Kernel E) (addr : Nat) : Nat :=
  divu32 ((addr - SLAB_ALIGN_DOWN addr) % 2 ^ 32 - (k.slabs (SLAB_ALIGN_DOWN addr)).offset)
    (k.caches (k.slabs (SLAB_ALIGN_DOWN addr)).kmem).allocSize

/-- The address is that of an object of a slab, and the bit of the object is clear. -/
structure DoubleFree (k : Kernel E) (addr : Nat) : Prop where
  magic : (k.slabs (SLAB_ALIGN_DOWN addr)).magic = SLAB_MAGIC
  offset_le : (k.slabs (SLAB_ALIGN_DOWN addr)).offset ≤ (addr - SLAB_ALIGN_DOWN addr) % 2 ^ 32
  index_lt : k.objectIndex addr < (k.slabs (SLAB_ALIGN_DOWN addr)).total
  clear : (k.slabs (SLAB_ALIGN_DOWN addr)).bm.get (k.objectIndex addr) = false

/-- The call returns and leaves all caches and slabs as they were. -/
def FreeUnchanged (warnf : Mem E R Unit) (k : Kernel E) (addr : Nat) : Prop :=
  ∃ k' log, kmemCacheFree warnf addr k = .ok () k' log ∧ k'.caches = k.caches ∧ k'.slabs = k.slabs

/-- Printing leaves the caches and the slabs alone. -/
def KeepsSlabs (warnf : Mem E R Unit) : Prop :=
  ∀ k k' log, warnf k = .ok () k' log → k'.caches = k.caches ∧ k'.slabs = k.slabs

theorem keepsSlabs_quiet : KeepsSlabs (quiet : Mem E R Unit) := by
  intro k k' log h
  cases h
  exact ⟨rfl, rfl⟩

variable {warnf : Mem E R Unit} {k k' : Kernel E} {addr : Nat} {log : List R}

theorem slabFree_doubleFree (h : DoubleFree k addr) : slabFree warnf addr k = warnf k := by
  rw [slabFree]
  simp only [read_bind_apply]
  rw [if_neg (not_not.mpr h.magic), if_neg (Nat.not_lt.mpr h.offset_le)]
  have hindex := h.index_lt
  have hclear := h.clear
  rw [Kernel.objectIndex] at hindex hclear
  rw [if_neg (Nat.not_le.mpr hindex), if_pos hclear]

/-- The cache counts an object as freed. -/
def countFree (k : Kernel E) (c : Nat) : Kernel E :=
  k.updateCache c fun kmem => { kmem with free := kmem.free + 1 }

theorem kmemCacheFreeNolock_doubleFree {c : Nat} (hwarn : KeepsSlabs warnf)
    (h : DoubleFree k addr) (run : kmemCacheFreeNolock warnf c addr k = .ok () k' log) :
    k'.caches = (countFree k c).caches ∧ k'.slabs = k.slabs := by
  rw [kmemCacheFreeNolock] at run
  obtain ⟨_, k₁, l₁, l₂, hfree, hcount⟩ := bind_ok_inv run
  rw [slabFree_doubleFree h] at hfree
  obtain ⟨hcaches, hslabs⟩ := hwarn _ _ _ hfree
  cases hcount
  refine ⟨?_, hslabs⟩
  simp only [countFree, Kernel.updateCache, hcaches]

/-- Taking a lock frees nothing. -/
theorem DoubleFree.setLocked (h : DoubleFree k addr) (c : Nat) (b : Bool) :
    DoubleFree (k.updateCache c (.setLocked b)) addr := by
  have hindex : (k.updateCache c (.setLocked b)).objectIndex addr = k.objectIndex addr := by
    have hsize := updateCache_field (f := .setLocked b) (g := KmemCache.allocSize) (fun _ => rfl) k c
      (k.slabs (SLAB_ALIGN_DOWN addr)).kmem
    exact congrArg (divu32 _) hsize
  exact ⟨h.magic, h.offset_le, by rw [hindex]; exact h.index_lt, by rw [hindex]; exact h.clear⟩

/-- **What a double free leaves**: its cache counts one free object more, and nothing else has
changed. -/
theorem kmemCacheFree_doubleFree (hwarn : KeepsSlabs warnf) (h : DoubleFree k addr)
    (run : kmemCacheFree warnf addr k = .ok () k' log) :
    k'.caches = (countFree k (k.slabs (SLAB_ALIGN_DOWN addr)).kmem).caches
      ∧ k'.slabs = k.slabs := by
  rw [kmemCacheFree, read_bind_apply] at run
  generalize hc : (k.slabs (SLAB_ALIGN_DOWN addr)).kmem = c at run
  split at run
  · exact kmemCacheFreeNolock_doubleFree hwarn h run
  · rename_i hunlocked
    rw [Bool.not_eq_true] at hunlocked
    rw [bind_ok (lockCache_apply hunlocked), Outcome.after_nil] at run
    obtain ⟨_, k₁, l₁, l₂, hfree, hunlock⟩ := bind_ok_inv run
    obtain ⟨hcaches, hslabs⟩ := kmemCacheFreeNolock_doubleFree hwarn (h.setLocked c true) hfree
    have hlocked : (k₁.caches c).locked = true := by
      rw [hcaches, countFree, updateCache_self, updateCache_self]
      rfl
    rw [unlockCache, read_bind_apply, if_pos hlocked] at hunlock
    cases hunlock
    refine ⟨funext fun c' => ?_, hslabs⟩
    -- the lock is back where it was
    by_cases heq : c' = c
    · rw [heq, updateCache_self, hcaches, countFree, countFree, updateCache_self, updateCache_self,
        updateCache_self]
      rw [KmemCache.setLocked, KmemCache.setLocked, ← hunlocked]
    · rw [updateCache_of_ne _ _ heq, hcaches, countFree, countFree, updateCache_of_ne _ _ heq,
        updateCache_of_ne _ _ heq, updateCache_of_ne _ _ heq]

theorem countFree_ne (k : Kernel E) (c : Nat) : k.caches ≠ (countFree k c).caches := by
  intro h
  have hfree := congrArg KmemCache.free (congrFun h c)
  rw [countFree, updateCache_self] at hfree
  exact Nat.succ_ne_self _ hfree.symm

/-- **No double free leaves the cache as it was.** -/
theorem doubleFree_changes (hwarn : KeepsSlabs warnf) (h : DoubleFree k addr) :
    ¬FreeUnchanged warnf k addr := by
  rintro ⟨k', log, run, hcaches, -⟩
  have hcount := (kmemCacheFree_doubleFree hwarn h run).1
  rw [hcaches] at hcount
  exact countFree_ne k _ hcount

/-! ## Repeated frees -/

/-- An object is freed `n` times. -/
def freeAgain (warnf : Mem E R Unit) (addr : Nat) : Nat → Mem E R Unit
  | 0 => pure ()
  | n + 1 => do
      kmemCacheFree warnf addr
      freeAgain warnf addr n

theorem DoubleFree.of_free (hwarn : KeepsSlabs warnf) (h : DoubleFree k addr)
    (run : kmemCacheFree warnf addr k = .ok () k' log) : DoubleFree k' addr := by
  obtain ⟨hcaches, hslabs⟩ := kmemCacheFree_doubleFree hwarn h run
  have hindex : k'.objectIndex addr = k.objectIndex addr := by
    have hsize := updateCache_field (f := fun kmem => { kmem with free := kmem.free + 1 })
      (g := KmemCache.allocSize) (fun _ => rfl) k (k.slabs (SLAB_ALIGN_DOWN addr)).kmem
      (k.slabs (SLAB_ALIGN_DOWN addr)).kmem
    rw [Kernel.objectIndex, Kernel.objectIndex, hslabs, hcaches]
    exact congrArg (divu32 _) hsize
  refine ⟨?_, ?_, ?_, ?_⟩
  · rw [hslabs]
    exact h.magic
  · rw [hslabs]
    exact h.offset_le
  · rw [hindex, hslabs]
    exact h.index_lt
  · rw [hindex, hslabs]
    exact h.clear

/-- **The drift**: every double free counts one object that is not there, and the slabs never
notice. -/
theorem freeAgain_count (hwarn : KeepsSlabs warnf) {n : Nat} (h : DoubleFree k addr)
    (run : freeAgain warnf addr n k = .ok () k' log) : k'.slabs = k.slabs
      ∧ (k'.caches (k.slabs (SLAB_ALIGN_DOWN addr)).kmem).free
        = (k.caches (k.slabs (SLAB_ALIGN_DOWN addr)).kmem).free + n := by
  induction n generalizing k log with
  | zero =>
      cases run
      exact ⟨rfl, rfl⟩
  | succ n ih =>
      obtain ⟨_, k₁, l₁, l₂, hfree, hrest⟩ := bind_ok_inv run
      obtain ⟨hcaches, hslabs⟩ := kmemCacheFree_doubleFree hwarn h hfree
      obtain ⟨hslabs', hcount⟩ := ih (h.of_free hwarn hfree) hrest
      rw [hslabs] at hcount hslabs'
      refine ⟨hslabs', ?_⟩
      calc (k'.caches (k.slabs (SLAB_ALIGN_DOWN addr)).kmem).free
          = (k₁.caches (k.slabs (SLAB_ALIGN_DOWN addr)).kmem).free + n := hcount
        _ = (k.caches (k.slabs (SLAB_ALIGN_DOWN addr)).kmem).free + 1 + n := by
            rw [hcaches, countFree, updateCache_self]
        _ = (k.caches (k.slabs (SLAB_ALIGN_DOWN addr)).kmem).free + (n + 1) := by
            rw [Nat.add_assoc, Nat.add_comm 1 n]

/-! ## After boot -/

/-- An object of 64 bytes is allocated after boot and freed. -/
def freedObject : Mem Unit (HeapEvent Unit) Nat := do
  let _ ← pmInit smallKernel (kernelOps smallKernel)
  let a ← kmalloc quiet (kernelOps smallKernel) 64
  kfree quiet (kernelOps smallKernel) a
  pure a

theorem freedObject_doubleFree :
    ∃ a k log, freedObject (bss ()) = .ok a k log ∧ DoubleFree k a := by
  have hrun : (freedObject (bss ())).check (fun a k =>
      decide ((k.slabs (SLAB_ALIGN_DOWN a)).magic = SLAB_MAGIC
        ∧ (k.slabs (SLAB_ALIGN_DOWN a)).offset ≤ (a - SLAB_ALIGN_DOWN a) % 2 ^ 32
        ∧ k.objectIndex a < (k.slabs (SLAB_ALIGN_DOWN a)).total
        ∧ (k.slabs (SLAB_ALIGN_DOWN a)).bm.get (k.objectIndex a) = false)) = true := by
    decide +kernel
  obtain ⟨a, k, log, hrun, hcheck⟩ := Outcome.of_check hrun
  obtain ⟨hmagic, hoffset, hindex, hclear⟩ := of_decide_eq_true hcheck
  exact ⟨a, k, log, hrun, hmagic, hoffset, hindex, hclear⟩

/-- The object is freed a second time. -/
theorem doubleFree_changes_boot : ∃ a k log, freedObject (bss ()) = .ok a k log
    ∧ DoubleFree k a ∧ ¬FreeUnchanged (quiet : Mem Unit (HeapEvent Unit) Unit) k a := by
  obtain ⟨a, k, log, hrun, hdouble⟩ := freedObject_doubleFree
  exact ⟨a, k, log, hrun, hdouble, doubleFree_changes keepsSlabs_quiet hdouble⟩

/-- Not every double free changes nothing. -/
theorem not_doubleFree_unchanged :
    ¬∀ a k log, freedObject (bss ()) = .ok a k log → DoubleFree k a → FreeUnchanged (quiet : Mem Unit (HeapEvent Unit) Unit) k a := by
  intro hall
  obtain ⟨a, k, log, hrun, hdouble⟩ := freedObject_doubleFree
  obtain ⟨k', log', hfree, hcaches, -⟩ := hall a k log hrun hdouble
  have hcount := (kmemCacheFree_doubleFree keepsSlabs_quiet hdouble hfree).1
  rw [hcaches] at hcount
  exact countFree_ne k _ hcount

end NoobKernel.Mm
