import NoobKernel.Mm.PageTableWalk

set_option autoImplicit false

/-! # The kernel's address space (`mm/vm.c`)

`kvminit` builds the page table of the kernel from the addresses that the linker script defines
(`scripts/kernel.ld`). `kvminit_space` is about what the hardware then makes of it: the devices, the
segments of the image and the remaining memory are mapped where they are, no address can be both
written and executed, none is open to user mode, and nothing else is mapped.

The trampoline is mapped wherever the linker has put it. The script collects `.text.trampsec`, but
`trampoline.S` names its section `trampsec`, which is none of the script's: the alignment that its
comment speaks of is not the trampoline's, and `kvminit` panics where it is missing.
-/

namespace NoobKernel.Mm

open Misc Radix

def PTE_R : Nat := 1 <<< 1
def PTE_W : Nat := 1 <<< 2
def PTE_X : Nat := 1 <<< 3
def PTE_U : Nat := 1 <<< 4
def PTE_G : Nat := 1 <<< 5

def TRAMPOLINE : Nat := VM_END - PAGE_SIZE

def SATP_SV39 : Nat := 8 <<< 60
def MAKE_SATP (pagetable : Nat) : Nat := SATP_SV39 ||| (pagetable >>> 12)

/-- The symbols of the linker script, with what it says about them: the segments follow each other
in the memory of the machine, on page boundaries. About `trampoline` it says nothing. -/
structure KernelImage where
  s_text : Nat
  e_text : Nat
  s_rodata : Nat
  e_rodata : Nat
  s_data : Nat
  e_bss : Nat
  ekernel : Nat
  trampoline : Nat
  start_le : PM_START ≤ s_text
  text_le : s_text ≤ e_text
  rodata_start : e_text ≤ s_rodata
  rodata_le : s_rodata ≤ e_rodata
  data_start : e_rodata ≤ s_data
  data_le : s_data ≤ e_bss
  ekernel_start : e_bss ≤ ekernel
  ekernel_le : ekernel ≤ PM_END
  aligned : ∀ a ∈ [s_text, e_text, s_rodata, e_rodata, s_data, e_bss, ekernel], a % PAGE_SIZE = 0
  trampoline_lt : trampoline + PAGE_SIZE < 2 ^ 64

/-- What `mappages` asks of the page with the trampoline. -/
def KernelImage.TrampolinePage (y : KernelImage) : Prop :=
  y.trampoline % PAGE_SIZE = 0 ∧ y.trampoline + PAGE_SIZE ≤ PM_END

instance (y : KernelImage) : Decidable y.TrampolinePage := inferInstanceAs (Decidable (_ ∧ _))

/-- What is mapped, by the message of its panic. -/
inductive KvmPart
  /-- `mapping device memory` -/
  | device
  /-- `mapping kernel text seg` -/
  | text
  /-- `mapping kernel rodata seg` -/
  | rodata
  /-- `mapping kernel data&bss seg` -/
  | data
  /-- `mapping kernel trampoline` -/
  | trampoline
  /-- `mapping remeaing memory` -/
  | remaining
  deriving DecidableEq

/-- A call of `kmappages`, and the panic if it fails. -/
structure KMap where
  part : KvmPart
  va : Nat
  pa : Nat
  npages : Nat
  perm : Nat

def kperm (perm : Nat) : BitVec 32 :=
  (BitVec.ofNat 32 perm &&& ~~~BitVec.ofNat 32 PTE_U) ||| BitVec.ofNat 32 PTE_V

def kmappages (alloc : List Nat → Nat) (m : PtMem) (pagetable va pa npages perm : Nat) :
    Option Int × PtMem :=
  mappages alloc m pagetable va pa npages (kperm perm)

/-- The calls of `kvminit`, in their order; the first is that of `devminit`. -/
def kvmMaps (y : KernelImage) : List KMap :=
  [⟨.device, 0, 0, PM_START / PAGE_SIZE, PTE_R ||| PTE_W⟩,
   ⟨.text, y.s_text, y.s_text, (y.e_text - y.s_text) / PAGE_SIZE, PTE_R ||| PTE_X⟩,
   ⟨.rodata, y.s_rodata, y.s_rodata, (y.e_rodata - y.s_rodata) / PAGE_SIZE, PTE_R⟩,
   ⟨.data, y.s_data, y.s_data, (y.e_bss - y.s_data) / PAGE_SIZE, PTE_R ||| PTE_W⟩,
   ⟨.trampoline, TRAMPOLINE, y.trampoline, 1, PTE_R ||| PTE_X ||| PTE_G⟩,
   ⟨.remaining, y.ekernel, y.ekernel, (PM_END - y.ekernel) / PAGE_SIZE, PTE_R ||| PTE_W⟩]

/-- The calls one after the other, up to the first that fails; `none` is the dereference of `NULL`. -/
def kmapAll (alloc : List Nat → Nat) (pagetable : Nat) :
    List KMap → PtMem → Option (Except KvmPart Unit) × PtMem
  | [], m => (some (.ok ()), m)
  | k :: ks, m =>
      match kmappages alloc m pagetable k.va k.pa k.npages k.perm with
      | (none, m) => (none, m)
      | (some r, m) => if r ≠ 0 then (some (.error k.part), m) else kmapAll alloc pagetable ks m

/-- `kvminit`: what it writes to `satp`, or the call it panics at. -/
def kvminit (alloc : List Nat → Nat) (y : KernelImage) (m : PtMem) :
    Option (Except KvmPart Nat) × PtMem :=
  let (kpagetable, m) := pagetableCreate alloc m
  let (r, m) := kmapAll alloc kpagetable (kvmMaps y) m
  (r.map fun r => r.map fun _ => MAKE_SATP kpagetable, m)

/-! ## The entries that the calls leave -/

namespace KMap

/-- The range of a call. -/
def Covers (k : KMap) (va : Nat) : Prop := k.va ≤ va ∧ va < k.va + k.npages * PAGE_SIZE

instance (k : KMap) (va : Nat) : Decidable (k.Covers va) :=
  inferInstanceAs (Decidable (_ ∧ _))

structure Valid (k : KMap) : Prop where
  va_aligned : k.va % PAGE_SIZE = 0
  pa_aligned : k.pa % PAGE_SIZE = 0
  va_le : k.va + k.npages * PAGE_SIZE ≤ VM_END
  pa_le : k.pa + k.npages * PAGE_SIZE ≤ PM_END

/-- The flags that the call puts into its entries. -/
def flags (k : KMap) : Nat := (kperm k.perm &&& 0x3f).toNat

/-- The entry of an address of the range. -/
def pte (k : KMap) (va : Nat) : Nat := leafPte k.pa k.flags (va / PAGE_SIZE - k.va / PAGE_SIZE)

end KMap

/-- The entry of an address after the calls, `old` where none of them covers it. -/
def kvmPte (ks : List KMap) (old va : Nat) : Nat :=
  match ks.find? fun k => k.Covers va with
  | some k => k.pte va
  | none => old

theorem kmapAll_log (alloc : List Nat → Nat) (root : Nat) (ks : List KMap) (m : PtMem) :
    m.log <+: (kmapAll alloc root ks m).2.log := by
  induction ks generalizing m with
  | nil => exact List.prefix_rfl
  | cons k ks ih =>
      have hlog := mappages_log alloc m root k.va k.pa k.npages (kperm k.perm)
      rw [kmapAll, kmappages]
      cases hrun : mappages alloc m root k.va k.pa k.npages (kperm k.perm) with
      | mk r m' =>
          rw [hrun] at hlog
          cases r with
          | none => exact hlog
          | some r =>
              simp only
              split
              · exact hlog
              · exact hlog.trans (ih m')

variable {alloc : List Nat → Nat} {root : Nat} {path : Nat → List Nat} {m : PtMem}

/-- The range of a call, by its pages. -/
theorem KMap.Valid.covers_iff {k : KMap} (h : k.Valid) (va : Nat) :
    k.Covers va ↔ k.va / PAGE_SIZE ≤ va / PAGE_SIZE
      ∧ va / PAGE_SIZE < k.va / PAGE_SIZE + k.npages := by
  have hva := h.va_aligned
  have hsize : PAGE_SIZE = 4096 := rfl
  rw [hsize] at hva
  rw [KMap.Covers, hsize]
  omega

theorem kmapAll_log_append (ks ks' : List KMap) (m : PtMem) :
    (kmapAll alloc root ks m).2.log <+: (kmapAll alloc root (ks ++ ks') m).2.log := by
  induction ks generalizing m with
  | nil => exact kmapAll_log alloc root ks' m
  | cons k ks ih =>
      rw [List.cons_append, kmapAll, kmapAll]
      cases kmappages alloc m root k.va k.pa k.npages k.perm with
      | mk r m₁ =>
          cases r with
          | none => exact List.prefix_rfl
          | some r =>
              simp only
              split
              · exact List.prefix_rfl
              · exact ih m₁

theorem kmapAll_append (ks ks' : List KMap) {m m' : PtMem}
    (h : kmapAll alloc root ks m = (some (.ok ()), m')) :
    kmapAll alloc root (ks ++ ks') m = kmapAll alloc root ks' m' := by
  induction ks generalizing m with
  | nil =>
      obtain rfl : m = m' := congrArg Prod.snd h
      rfl
  | cons k ks ih =>
      rw [List.cons_append, kmapAll]
      rw [kmapAll] at h
      cases hrun : kmappages alloc m root k.va k.pa k.npages k.perm with
      | mk r m₁ =>
          rw [hrun] at h
          cases r with
          | none => cases congrArg Prod.fst h
          | some r =>
              simp only at h ⊢
              split at h
              · cases congrArg Prod.fst h
              · rename_i hr
                rw [if_neg hr]
                exact ih h

/-- **The calls one after the other**, of ranges that are not mapped yet and do not overlap. -/
theorem kmapAll_maps {ks : List KMap} (w : Walkable root path m) (valid : ∀ k ∈ ks, k.Valid)
    (apart : ks.Pairwise fun k k' => ∀ va, k.Covers va → ¬ k'.Covers va)
    (unmapped : ∀ k ∈ ks, ∀ va, k.Covers va → leaf m root va &&& PTE_M = 0)
    (fresh : Fresh (kmapAll alloc root ks m).2.log)
    (phys : ∀ p ∈ (kmapAll alloc root ks m).2.log, p < 2 ^ 56) :
    ∃ path' m', kmapAll alloc root ks m = (some (.ok ()), m') ∧ Walkable root path' m'
      ∧ ∀ va < VM_END, leaf m' root va = kvmPte ks (leaf m root va) va := by
  induction ks generalizing m path with
  | nil => exact ⟨path, m, rfl, w, fun _ _ => rfl⟩
  | cons k ks ih =>
      have hk := valid k List.mem_cons_self
      obtain ⟨hother, hrest⟩ := List.pairwise_cons.mp apart
      have hsize : PAGE_SIZE = 4096 := rfl
      have hlog : (mappages alloc m root k.va k.pa k.npages (kperm k.perm)).2.log
          <+: (kmapAll alloc root (k :: ks) m).2.log := by
        rw [kmapAll, kmappages]
        cases hrun : mappages alloc m root k.va k.pa k.npages (kperm k.perm) with
        | mk r m' =>
            cases r with
            | none => exact List.prefix_rfl
            | some r =>
                simp only
                split
                · exact List.prefix_rfl
                · exact kmapAll_log alloc root ks m'
      have hfree : ∀ i < k.npages, mapped m root (k.va + i * PAGE_SIZE) = false := by
        intro i hi
        have hcov : k.Covers (k.va + i * PAGE_SIZE) := by
          rw [KMap.Covers, hsize]
          omega
        simp [mapped_eq, unmapped k List.mem_cons_self _ hcov]
      have hfresh := fresh.of_prefix hlog
      obtain ⟨-, m', hrun, -, hleaf⟩ := mappages_leaf w.shape hk.va_aligned hk.pa_aligned hk.va_le
        hk.pa_le hfree hfresh
      -- the tables can still be walked
      obtain ⟨path', w'⟩ := w.mappages hfresh fun p hp => phys p (hlog.subset hp)
      rw [hrun] at w'
      have hstep : kmapAll alloc root (k :: ks) m = kmapAll alloc root ks m' := by
        rw [kmapAll, kmappages, hrun]
        simp
      rw [hstep] at fresh phys ⊢
      have hunmapped : ∀ k' ∈ ks, ∀ va, k'.Covers va → leaf m' root va &&& PTE_M = 0 := by
        intro k' hk' va hcov
        have hlt : va < VM_END := Nat.lt_of_lt_of_le hcov.2 (valid k' (List.mem_cons_of_mem k hk')).va_le
        have hnot : ¬ k.Covers va := fun h => hother k' hk' va h hcov
        rw [hleaf va hlt, if_neg (fun h => hnot ((hk.covers_iff va).mpr h))]
        exact unmapped k' (List.mem_cons_of_mem k hk') va hcov
      obtain ⟨path'', m'', hall, w'', hleaf''⟩ :=
        ih w' (fun k' hk' => valid k' (List.mem_cons_of_mem k hk')) hrest hunmapped fresh phys
      refine ⟨path'', m'', hall, w'', fun va hva => ?_⟩
      rw [hleaf'' va hva, hleaf va hva, kvmPte, kvmPte, List.find?_cons]
      by_cases hcov : k.Covers va
      · have hnone : ks.find? (fun k' => k'.Covers va) = none :=
          List.find?_eq_none.mpr fun k' hk' => by simpa using hother k' hk' va hcov
        rw [hnone, if_pos ((hk.covers_iff va).mp hcov)]
        simp only [hcov, decide_true]
        rfl
      · rw [if_neg (fun h => hcov ((hk.covers_iff va).mpr h))]
        simp only [hcov, decide_false]

/-! ## What the hardware makes of them -/

/-- The flags of a call permit an access in supervisor mode. -/
def KMap.permits (k : KMap) (acc : Sv39.Access) : Bool :=
  k.flags.testBit Sv39.V && k.flags.testBit acc.flag && !k.flags.testBit Sv39.U
    && (k.flags.testBit Sv39.R || !k.flags.testBit Sv39.W)

theorem KMap.flags_lt (k : KMap) : k.flags < 2 ^ 6 := by
  rw [KMap.flags, BitVec.toNat_and]
  exact Nat.lt_of_le_of_lt Nat.and_le_right (by decide)

/-- An address of the range is translated by its distance from the start. -/
theorem KMap.Valid.page_eq {k : KMap} (h : k.Valid) {va : Nat} (hcov : k.Covers va)
    (acc : Sv39.Access) :
    Sv39.page (k.pte va) va acc = if k.permits acc then some (k.pa + (va - k.va)) else none := by
  have hsize : PAGE_SIZE = 4096 := rfl
  have hend : PM_END = 0x88000000 := rfl
  have hva := h.va_aligned
  have hple := h.pa_le
  obtain ⟨hle, hlt⟩ := hcov
  rw [hsize] at hva hple hlt
  rw [hend] at hple
  have hfits : k.pa + (va / PAGE_SIZE - k.va / PAGE_SIZE) * PAGE_SIZE < 2 ^ 56 := by
    rw [hsize]
    omega
  have hbit := fun i (hi : i < 8) =>
    @testBit_leafPte k.pa k.flags _ (Nat.lt_trans hfits (by decide)) i hi
  have hflag : acc.flag < 8 := by cases acc <;> decide
  have htarget := target_leafPte hfits h.pa_aligned k.flags_lt
  rw [Sv39.page, KMap.pte, Sv39.invalid, hbit _ hflag, hbit Sv39.V (by decide),
    hbit Sv39.U (by decide), hbit Sv39.R (by decide), hbit Sv39.W (by decide), htarget]
  have hsum : k.pa + (va / PAGE_SIZE - k.va / PAGE_SIZE) * PAGE_SIZE + va % Sv39.PAGE
      = k.pa + (va - k.va) := by
    rw [hsize, Sv39.PAGE]
    omega
  rw [hsum, KMap.permits]
  cases k.flags.testBit Sv39.V <;> cases k.flags.testBit Sv39.U <;>
    cases k.flags.testBit Sv39.R <;> cases k.flags.testBit Sv39.W <;>
    cases k.flags.testBit acc.flag <;> rfl

/-- The address space of the kernel: where an address is and what it is for. -/
def kernelSpace (y : KernelImage) (va : Nat) (acc : Sv39.Access) : Option Nat :=
  if va < PM_START then if acc = .fetch then none else some va
  else if y.s_text ≤ va ∧ va < y.e_text then if acc = .store then none else some va
  else if y.s_rodata ≤ va ∧ va < y.e_rodata then if acc = .load then some va else none
  else if y.s_data ≤ va ∧ va < y.e_bss then if acc = .fetch then none else some va
  else if y.ekernel ≤ va ∧ va < PM_END then if acc = .fetch then none else some va
  else if TRAMPOLINE ≤ va ∧ va < VM_END then
    if acc = .store then none else some (y.trampoline + (va - TRAMPOLINE))
  else none

/-! ## `kvminit` -/

/-- A call that maps the pages from `s` to `e`. -/
theorem covers_segment {s e pa perm va : Nat} {part : KvmPart} (hs : s % PAGE_SIZE = 0)
    (he : e % PAGE_SIZE = 0) (hle : s ≤ e) :
    (⟨part, s, pa, (e - s) / PAGE_SIZE, perm⟩ : KMap).Covers va ↔ s ≤ va ∧ va < e := by
  have hsize : PAGE_SIZE = 4096 := rfl
  rw [hsize] at hs he
  rw [KMap.Covers, hsize]
  dsimp only
  omega

theorem valid_segment {s e perm : Nat} {part : KvmPart} (hs : s % PAGE_SIZE = 0) (hle : s ≤ e)
    (hend : e ≤ PM_END) : (⟨part, s, s, (e - s) / PAGE_SIZE, perm⟩ : KMap).Valid := by
  have hsize : PAGE_SIZE = 4096 := rfl
  have hpm : PM_END = 0x88000000 := rfl
  have hvm : VM_END = 2 ^ 38 := rfl
  have hdiv := Nat.div_mul_le_self (e - s) 4096
  rw [hpm] at hend
  refine ⟨hs, hs, ?_, ?_⟩
  · rw [hsize, hvm]
    dsimp only
    omega
  · rw [hsize, hpm]
    dsimp only
    omega

section Image

variable (y : KernelImage)

theorem KernelImage.text_aligned : y.s_text % PAGE_SIZE = 0 ∧ y.e_text % PAGE_SIZE = 0 :=
  ⟨y.aligned _ (by simp), y.aligned _ (by simp)⟩

theorem KernelImage.rodata_aligned : y.s_rodata % PAGE_SIZE = 0 ∧ y.e_rodata % PAGE_SIZE = 0 :=
  ⟨y.aligned _ (by simp), y.aligned _ (by simp)⟩

theorem KernelImage.data_aligned : y.s_data % PAGE_SIZE = 0 ∧ y.e_bss % PAGE_SIZE = 0 :=
  ⟨y.aligned _ (by simp), y.aligned _ (by simp)⟩

theorem KernelImage.ekernel_aligned : y.ekernel % PAGE_SIZE = 0 := y.aligned _ (by simp)

section Covers

variable {y} {va perm : Nat} {part : KvmPart}

theorem covers_device :
    (⟨part, 0, 0, PM_START / PAGE_SIZE, perm⟩ : KMap).Covers va ↔ va < PM_START := by
  have hsize : PM_START / PAGE_SIZE * PAGE_SIZE = PM_START := rfl
  rw [KMap.Covers, hsize]
  dsimp only
  omega

theorem covers_text :
    (⟨part, y.s_text, y.s_text, (y.e_text - y.s_text) / PAGE_SIZE, perm⟩ : KMap).Covers va
      ↔ y.s_text ≤ va ∧ va < y.e_text :=
  covers_segment y.text_aligned.1 y.text_aligned.2 y.text_le

theorem covers_rodata :
    (⟨part, y.s_rodata, y.s_rodata, (y.e_rodata - y.s_rodata) / PAGE_SIZE, perm⟩ : KMap).Covers va
      ↔ y.s_rodata ≤ va ∧ va < y.e_rodata :=
  covers_segment y.rodata_aligned.1 y.rodata_aligned.2 y.rodata_le

theorem covers_data :
    (⟨part, y.s_data, y.s_data, (y.e_bss - y.s_data) / PAGE_SIZE, perm⟩ : KMap).Covers va
      ↔ y.s_data ≤ va ∧ va < y.e_bss :=
  covers_segment y.data_aligned.1 y.data_aligned.2 y.data_le

theorem covers_trampoline :
    (⟨part, TRAMPOLINE, y.trampoline, 1, perm⟩ : KMap).Covers va ↔ TRAMPOLINE ≤ va ∧ va < VM_END := by
  have hsum : TRAMPOLINE + 1 * PAGE_SIZE = VM_END := rfl
  rw [KMap.Covers, hsum]

theorem covers_remaining :
    (⟨part, y.ekernel, y.ekernel, (PM_END - y.ekernel) / PAGE_SIZE, perm⟩ : KMap).Covers va
      ↔ y.ekernel ≤ va ∧ va < PM_END :=
  covers_segment y.ekernel_aligned (by decide) y.ekernel_le

end Covers

/-- A call of `kvminit` can only fail at the trampoline. -/
theorem kvmMaps_valid :
    ∀ k ∈ kvmMaps y, (k.part = .trampoline → y.TrampolinePage) → k.Valid := by
  have hdev : (⟨.device, 0, 0, (PM_START - 0) / PAGE_SIZE, PTE_R ||| PTE_W⟩ : KMap).Valid :=
    valid_segment (by decide) (Nat.zero_le _) (by decide)
  have htramp (h : y.TrampolinePage) :
      (⟨.trampoline, TRAMPOLINE, y.trampoline, 1, PTE_R ||| PTE_X ||| PTE_G⟩ : KMap).Valid :=
    ⟨show TRAMPOLINE % PAGE_SIZE = 0 by decide, h.1,
      show TRAMPOLINE + 1 * PAGE_SIZE ≤ VM_END by decide, by
        rw [one_mul]
        exact h.2⟩
  have h1 := y.text_le
  have h2 := y.rodata_start
  have h3 := y.rodata_le
  have h4 := y.data_start
  have h5 := y.data_le
  have h6 := y.ekernel_start
  have h7 := y.ekernel_le
  intro k hk hpage
  simp only [kvmMaps, List.mem_cons, List.not_mem_nil, or_false] at hk
  rcases hk with rfl | rfl | rfl | rfl | rfl | rfl
  · exact hdev
  · exact valid_segment y.text_aligned.1 h1 (by omega)
  · exact valid_segment y.rodata_aligned.1 h3 (by omega)
  · exact valid_segment y.data_aligned.1 h5 (by omega)
  · exact htramp (hpage rfl)
  · exact valid_segment y.ekernel_aligned h7 le_rfl

theorem kvmMaps_apart :
    (kvmMaps y).Pairwise fun k k' => ∀ va, k.Covers va → ¬ k'.Covers va := by
  have hpm : PM_START = 0x80000000 := rfl
  have hpe : PM_END = 0x88000000 := rfl
  have ht : TRAMPOLINE = 0x3ffffff000 := rfl
  have h0 := y.start_le
  have h1 := y.text_le
  have h2 := y.rodata_start
  have h3 := y.rodata_le
  have h4 := y.data_start
  have h5 := y.data_le
  have h6 := y.ekernel_start
  have h7 := y.ekernel_le
  simp only [kvmMaps, List.pairwise_cons, List.mem_cons, List.not_mem_nil, or_false, forall_eq_or_imp,
    forall_eq, covers_device, covers_text, covers_rodata, covers_data, covers_trampoline,
    covers_remaining, List.Pairwise.nil, false_implies, implies_true, and_true]
  rw [hpm] at h0 ⊢
  rw [hpe] at h7 ⊢
  rw [ht]
  refine ⟨⟨?_, ?_, ?_, ?_, ?_⟩, ⟨?_, ?_, ?_, ?_⟩, ⟨?_, ?_, ?_⟩, ⟨?_, ?_⟩, ?_⟩ <;> intro va hva <;> omega

/-- The permissions of the calls. -/
theorem permits_rw (part : KvmPart) (va pa n : Nat) (acc : Sv39.Access) :
    (⟨part, va, pa, n, PTE_R ||| PTE_W⟩ : KMap).permits acc = decide (acc ≠ .fetch) := by
  have hflags : (kperm (PTE_R ||| PTE_W) &&& 0x3f).toNat = 7 := by decide
  rw [KMap.permits, KMap.flags, hflags]
  cases acc <;> decide

theorem permits_rx (part : KvmPart) (va pa n : Nat) (acc : Sv39.Access) :
    (⟨part, va, pa, n, PTE_R ||| PTE_X⟩ : KMap).permits acc = decide (acc ≠ .store) := by
  have hflags : (kperm (PTE_R ||| PTE_X) &&& 0x3f).toNat = 11 := by decide
  rw [KMap.permits, KMap.flags, hflags]
  cases acc <;> decide

theorem permits_r (part : KvmPart) (va pa n : Nat) (acc : Sv39.Access) :
    (⟨part, va, pa, n, PTE_R⟩ : KMap).permits acc = decide (acc = .load) := by
  have hflags : (kperm PTE_R &&& 0x3f).toNat = 3 := by decide
  rw [KMap.permits, KMap.flags, hflags]
  cases acc <;> decide

theorem permits_rxg (part : KvmPart) (va pa n : Nat) (acc : Sv39.Access) :
    (⟨part, va, pa, n, PTE_R ||| PTE_X ||| PTE_G⟩ : KMap).permits acc = decide (acc ≠ .store) := by
  have hflags : (kperm (PTE_R ||| PTE_X ||| PTE_G) &&& 0x3f).toNat = 43 := by decide
  rw [KMap.permits, KMap.flags, hflags]
  cases acc <;> decide

/-- What the hardware makes of an address, where nothing was mapped before. -/
def kvmTranslate (ks : List KMap) (va : Nat) (acc : Sv39.Access) : Option Nat :=
  match ks.find? fun k => k.Covers va with
  | some k => if k.permits acc then some (k.pa + (va - k.va)) else none
  | none => none

omit y in
theorem page_kvmPte {ks : List KMap} (valid : ∀ k ∈ ks, k.Valid) (va : Nat) (acc : Sv39.Access) :
    Sv39.page (kvmPte ks 0 va) va acc = kvmTranslate ks va acc := by
  rw [kvmPte, kvmTranslate]
  cases hfind : ks.find? fun k => k.Covers va with
  | none => simp [Sv39.page]
  | some k =>
      have hcov : k.Covers va := by simpa using List.find?_some hfind
      exact (valid k (List.mem_of_find?_eq_some hfind)).page_eq hcov acc

theorem kvmTranslate_kvmMaps (va : Nat) (acc : Sv39.Access) :
    kvmTranslate (kvmMaps y) va acc = kernelSpace y va acc := by
  have hpe : PM_END < TRAMPOLINE := by decide
  have hself : ∀ {s : Nat}, s ≤ va → s + (va - s) = va := fun h => Nat.add_sub_of_le h
  rw [kvmTranslate, kernelSpace]
  simp only [kvmMaps, List.find?_cons, List.find?_nil, covers_device, covers_text, covers_rodata,
    covers_data, covers_trampoline, covers_remaining]
  by_cases h0 : va < PM_START
  · simp [h0, permits_rw]
  by_cases h1 : y.s_text ≤ va ∧ va < y.e_text
  · simp [h0, h1, permits_rx, hself h1.1]
  by_cases h2 : y.s_rodata ≤ va ∧ va < y.e_rodata
  · simp [h0, h1, h2, permits_r, hself h2.1]
  by_cases h3 : y.s_data ≤ va ∧ va < y.e_bss
  · simp [h0, h1, h2, h3, permits_rw, hself h3.1]
  by_cases h4 : y.ekernel ≤ va ∧ va < PM_END
  · have h5 : ¬ (TRAMPOLINE ≤ va ∧ va < VM_END) := by omega
    simp [h0, h1, h2, h3, h4, h5, permits_rw, hself h4.1]
  by_cases h5 : TRAMPOLINE ≤ va ∧ va < VM_END
  · simp [h0, h1, h2, h3, h4, h5, permits_rxg]
  · simp [h0, h1, h2, h3, h4, h5]

end Image

/-- The page that `pagetable_create` returns is a tree of one table with no entries. -/
theorem walkable_create (tab : Nat → Nat → Nat) (hne : alloc [] ≠ 0) :
    ∃ m, pagetableCreate alloc ⟨tab, []⟩ = (alloc [], m) ∧ m.log = [alloc []]
      ∧ Walkable (alloc []) (fun _ => []) m ∧ ∀ va, leaf m (alloc []) va = 0 := by
  have hzero : ∀ i, Function.update tab (alloc []) (fun _ => 0) (alloc []) i = 0 := by simp
  refine ⟨⟨Function.update tab (alloc []) fun _ => 0, [alloc []]⟩, ?_, rfl, ⟨⟨?_, rfl, ?_⟩, ?_⟩, ?_⟩
  · rw [pagetableCreate, kzalloc, if_neg hne]
    rfl
  · exact List.mem_singleton.mpr rfl
  · intro n hn _ i p hp
    obtain rfl := List.mem_singleton.mp hn
    dsimp only at hp
    rw [hzero, nextTable_zero] at hp
    cases hp
  · intro n hn _ i
    obtain rfl := List.mem_singleton.mp hn
    exact .inl (hzero i)
  · intro va
    obtain ⟨j, is, hkey⟩ := keyFrom_ne_nil va 1
    rw [leaf, keyFrom, hkey]
    refine Radix.lookup_none ?_
    dsimp only
    rw [hzero, nextTable_zero]

theorem translate_MAKE_SATP {tab : Nat → Nat → Nat} {root va : Nat} (hroot : root < 2 ^ 56)
    (haligned : root % PAGE_SIZE = 0) (hva : va < VM_END) (acc : Sv39.Access) :
    Sv39.translate tab (MAKE_SATP root) va acc = Sv39.walk tab va acc 2 root := by
  have hsize : PAGE_SIZE = 4096 := rfl
  have hend : VM_END = 2 ^ 38 := rfl
  rw [hsize] at haligned
  rw [hend] at hva
  have hpage : root >>> 12 = root / 4096 := Nat.shiftRight_eq_div_pow root 12
  have hsatp : MAKE_SATP root = 2 ^ 60 * 8 + root / 4096 := by
    have hlt : root / 4096 < 2 ^ 60 := by omega
    have hmode : SATP_SV39 = 2 ^ 60 * 8 := by decide
    rw [MAKE_SATP, hpage, hmode, Nat.two_pow_add_eq_or_of_lt hlt]
  have hmode : MAKE_SATP root / 2 ^ 60 = 8 := by
    rw [hsatp]
    omega
  have hppn : MAKE_SATP root % 2 ^ 44 * Sv39.PAGE = root := by
    rw [hsatp, Sv39.PAGE]
    omega
  have hcanon : Sv39.canonical va = true := by
    rw [Sv39.canonical, decide_eq_true hva]
    rfl
  rw [Sv39.translate, if_pos ⟨hmode, hcanon⟩, hppn]

theorem kvminit_log (y : KernelImage) (m : PtMem) :
    (kvminit alloc y m).2.log = (kmapAll alloc (pagetableCreate alloc m).1 (kvmMaps y)
      (pagetableCreate alloc m).2).2.log := rfl

/-- Without a page for it the call for the trampoline fails. -/
theorem kmappages_trampoline (y : KernelImage) (h : ¬y.TrampolinePage) (m : PtMem) (va perm : Nat) :
    ∃ r : Int, r ≠ 0 ∧ kmappages alloc m root va y.trampoline 1 perm = (some r, m) := by
  have hlt := y.trampoline_lt
  rw [kmappages, mappages]
  by_cases hroot : root = 0
  · exact ⟨-EINVAL, by decide, if_pos hroot⟩
  rw [if_neg hroot]
  by_cases haligned : (!PAGE_ALIGNED va || !PAGE_ALIGNED y.trampoline) = true
  · exact ⟨-EINVAL, by decide, if_pos haligned⟩
  rw [if_neg haligned, if_neg one_ne_zero]
  by_cases hva : VM_END < (va + 1 * PAGE_SIZE) % 2 ^ 64
  · exact ⟨-ERANGE, by decide, if_pos hva⟩
  rw [if_neg hva]
  refine ⟨-ERANGE, by decide, if_pos ?_⟩
  rw [one_mul, Nat.mod_eq_of_lt hlt]
  by_contra hle
  refine h ⟨(PAGE_ALIGNED_iff _).mp ?_, Nat.le_of_not_lt hle⟩
  rw [Bool.or_eq_true, not_or, Bool.not_eq_true, Bool.not_eq_true, Bool.not_eq_false',
    Bool.not_eq_false'] at haligned
  exact haligned.2

/-- **The address space of the kernel.** With page allocations that behave, and wherever the
trampoline is linked to, `kvminit` panics at it or not at all: it returns if the trampoline is on a
page boundary of the memory. From then on the hardware translates every access to an address below
`VM_END` as `kernelSpace` says. -/
theorem kvminit_space (y : KernelImage) {tab : Nat → Nat → Nat}
    (fresh : Fresh (kvminit alloc y ⟨tab, []⟩).2.log)
    (phys : ∀ p ∈ (kvminit alloc y ⟨tab, []⟩).2.log, p < 2 ^ 56) :
    (y.TrampolinePage → ∃ satp m', kvminit alloc y ⟨tab, []⟩ = (some (.ok satp), m')
        ∧ ∀ va < VM_END, ∀ acc, Sv39.translate m'.tab satp va acc = kernelSpace y va acc)
      ∧ (¬y.TrampolinePage →
        ∃ m', kvminit alloc y ⟨tab, []⟩ = (some (.error .trampoline), m')) := by
  have hlog : [alloc []] <+: (kvminit alloc y ⟨tab, []⟩).2.log := by
    have hcreate := kzalloc_log alloc ⟨tab, []⟩
    rw [kvminit_log, ← List.nil_append [alloc []], ← hcreate]
    exact kmapAll_log _ _ _ _
  have hmem := hlog.subset (List.mem_singleton.mpr rfl)
  obtain ⟨m, hcreate, -, w, hblank⟩ := walkable_create tab (fresh.ne_zero _ hmem)
  have hrun : kvminit alloc y ⟨tab, []⟩
      = ((kmapAll alloc (alloc []) (kvmMaps y) m).1.map fun r => r.map fun _ =>
          MAKE_SATP (alloc []), (kmapAll alloc (alloc []) (kvmMaps y) m).2) := by
    rw [kvminit, hcreate]
  rw [hrun] at fresh phys
  have hvalid := kvmMaps_valid y
  have hblank' : ∀ k ∈ kvmMaps y, ∀ va, k.Covers va → leaf m (alloc []) va &&& PTE_M = 0 :=
    fun k _ va _ => by rw [hblank, Nat.zero_and]
  constructor
  · intro hpage
    have hall : ∀ k ∈ kvmMaps y, k.Valid := fun k hk => hvalid k hk fun _ => hpage
    obtain ⟨path, m', hmaps, w', hleaf⟩ :=
      kmapAll_maps w hall (kvmMaps_apart y) hblank' fresh phys
    rw [hmaps] at fresh phys
    refine ⟨MAKE_SATP (alloc []), m', by rw [hrun, hmaps]; rfl, fun va hva acc => ?_⟩
    have hroot := w'.shape.root_mem
    rw [translate_MAKE_SATP (phys _ hroot)
      ((PAGE_ALIGNED_iff _).mp (fresh.aligned _ hroot)) hva, w'.walk_leaf, hleaf va hva, hblank,
      page_kvmPte hall, kvmTranslate_kvmMaps]
  · -- the calls in front of the trampoline's are those for the segments, which succeed
    intro hpage
    have hsplit : kvmMaps y = (kvmMaps y).take 4 ++ (kvmMaps y).drop 4 :=
      (List.take_append_drop 4 _).symm
    have hsub : ∀ k ∈ (kvmMaps y).take 4, k ∈ kvmMaps y := fun k hk => List.mem_of_mem_take hk
    have hparts : ∀ k ∈ (kvmMaps y).take 4, k.part ≠ .trampoline := by
      intro k hk
      simp only [kvmMaps, List.take_succ_cons, List.take_zero, List.mem_cons, List.not_mem_nil,
        or_false] at hk
      rcases hk with rfl | rfl | rfl | rfl <;> exact nofun
    have hlogs : (kmapAll alloc (alloc []) ((kvmMaps y).take 4) m).2.log
        <+: (kmapAll alloc (alloc []) ((kvmMaps y).take 4 ++ (kvmMaps y).drop 4) m).2.log :=
      kmapAll_log_append _ _ m
    rw [← hsplit] at hlogs
    obtain ⟨path, m', hmaps, -, -⟩ := kmapAll_maps w
      (fun k hk => hvalid k (hsub k hk) fun h => absurd h (hparts k hk))
      ((kvmMaps_apart y).sublist (List.take_sublist 4 _)) (fun k hk => hblank' k (hsub k hk))
      (fresh.of_prefix hlogs) fun p hp => phys p (hlogs.subset hp)
    obtain ⟨r, hr, hfail⟩ : ∃ r : Int, r ≠ 0 ∧ kmappages alloc m' (alloc []) TRAMPOLINE
        y.trampoline 1 (PTE_R ||| PTE_X ||| PTE_G) = (some r, m') :=
      kmappages_trampoline y hpage m' _ _
    refine ⟨m', ?_⟩
    rw [hrun, hsplit, kmapAll_append _ _ hmaps]
    simp only [kvmMaps, List.drop_succ_cons, List.drop_zero, kmapAll, hfail, if_pos hr]
    rfl

/-! ## How many pages it takes -/

/-- `log'` is `log` after at most `n` more calls of the allocator. -/
def Allocs (alloc : List Nat → Nat) (n : Nat) (log log' : List Nat) : Prop :=
  ∃ j ≤ n, log' = (fun l => l ++ [alloc l])^[j] log

namespace Allocs

variable {l l' l'' : List Nat} {n n' : Nat}

theorem refl : Allocs alloc n l l := ⟨0, Nat.zero_le n, rfl⟩

theorem one : Allocs alloc 1 l (l ++ [alloc l]) := ⟨1, le_rfl, rfl⟩

theorem trans (h : Allocs alloc n l l') (h' : Allocs alloc n' l' l'') :
    Allocs alloc (n + n') l l'' := by
  obtain ⟨j, hj, rfl⟩ := h
  obtain ⟨j', hj', rfl⟩ := h'
  refine ⟨j' + j, by omega, ?_⟩
  rw [Function.iterate_add_apply]

theorem mono (h : Allocs alloc n l l') (hle : n ≤ n') : Allocs alloc n' l l' := by
  obtain ⟨j, hj, rfl⟩ := h
  exact ⟨j, hj.trans hle, rfl⟩

end Allocs

/-- One page for each level. -/
theorem va2pteFrom_allocs (va level table : Nat) (create : Bool) (m : PtMem) :
    Allocs alloc level m.log (va2pteFrom alloc va create level table m).2.log := by
  induction level generalizing table m with
  | zero => exact .refl
  | succ level ih =>
      rw [va2pteFrom]
      by_cases hv : m.load (table, PX (level + 1) va) &&& PTE_V ≠ 0
      · simp only [if_pos hv]
        exact (ih _ _).mono (Nat.le_succ level)
      · simp only [if_neg hv]
        by_cases hc : create = false
        · rw [if_pos hc]
          exact .refl
        · rw [if_neg hc]
          have hone : Allocs alloc 1 m.log (kzalloc alloc m).2.log := by
            rw [kzalloc_log]
            exact .one
          by_cases hz : (kzalloc alloc m).1 = 0
          · simp only [if_pos hz]
            exact hone.mono (by omega)
          · simp only [if_neg hz]
            exact (hone.trans (ih _ ((kzalloc alloc m).2.store _ _))).mono (by omega)

theorem mappagesFrom_allocs (va pa perm n i : Nat) (m : PtMem) :
    Allocs alloc (2 * n) m.log (mappagesFrom alloc root va pa perm n i m).2.log := by
  induction n generalizing i m with
  | zero => exact .refl
  | succ n ih =>
      have hwalk : Allocs alloc 2 m.log _ :=
        va2pteFrom_allocs ((va + i * PAGE_SIZE) % 2 ^ 64) 2 root true m
      rw [mappagesFrom, va2pte]
      cases hw : va2pteFrom alloc ((va + i * PAGE_SIZE) % 2 ^ 64) true 2 root m with
      | mk pte m₁ =>
          rw [hw] at hwalk
          cases pte with
          | none => exact hwalk.mono (by omega)
          | some pte =>
              simp only
              by_cases hm : m₁.load pte &&& PTE_M ≠ 0
              · rw [if_pos hm]
                exact hwalk.mono (by omega)
              · rw [if_neg hm]
                exact (hwalk.trans (ih _ (m₁.store pte _))).mono (by omega)

theorem kmapAll_allocs (ks : List KMap) (m : PtMem) :
    Allocs alloc (2 * (ks.map KMap.npages).sum) m.log (kmapAll alloc root ks m).2.log := by
  induction ks generalizing m with
  | nil => exact .refl
  | cons k ks ih =>
      have hone : Allocs alloc (2 * k.npages) m.log
          (mappages alloc m root k.va k.pa k.npages (kperm k.perm)).2.log := by
        rcases mappages_cases alloc m root k.va k.pa k.npages (kperm k.perm) with h | h
        · rw [h]
          exact .refl
        · rw [h]
          exact mappagesFrom_allocs _ _ _ _ _ _
      rw [List.map_cons, List.sum_cons, kmapAll, kmappages]
      cases hrun : mappages alloc m root k.va k.pa k.npages (kperm k.perm) with
      | mk r m' =>
          rw [hrun] at hone
          cases r with
          | none => exact hone.mono (by omega)
          | some r =>
              simp only
              split
              · exact hone.mono (by omega)
              · exact (hone.trans (ih m')).mono (by omega)

/-! ## A kernel image -/

theorem bumpAlloc_iterate (j : Nat) :
    (fun l => l ++ [bumpAlloc l])^[j] [] = (List.range j).map fun i => 0x80400000 + i * PAGE_SIZE := by
  induction j with
  | zero => rfl
  | succ j ih =>
      rw [Function.iterate_succ_apply', ih, List.range_succ, List.map_append, bumpAlloc,
        List.length_map, List.length_range]
      rfl

theorem fresh_bumpAlloc {j : Nat} (hj : j < 2 ^ 40) :
    Fresh ((List.range j).map fun i => 0x80400000 + i * PAGE_SIZE)
      ∧ ∀ p ∈ (List.range j).map fun i => 0x80400000 + i * PAGE_SIZE, p < 2 ^ 56 := by
  have hsize : PAGE_SIZE = 4096 := rfl
  have hpage : ∀ p ∈ (List.range j).map fun i => 0x80400000 + i * PAGE_SIZE,
      ∃ i < 2 ^ 40, p = 0x80400000 + i * 4096 := by
    intro p hp
    obtain ⟨i, hi, rfl⟩ := List.mem_map.mp hp
    exact ⟨i, (List.mem_range.mp hi).trans hj, by rw [hsize]⟩
  refine ⟨⟨?_, fun p hp => ?_, fun p hp => ?_, fun p hp => ?_⟩, fun p hp => ?_⟩
  · refine List.Nodup.map (fun i i' heq => ?_) List.nodup_range
    rw [hsize] at heq
    omega
  · obtain ⟨i, -, rfl⟩ := hpage p hp
    omega
  · obtain ⟨i, -, rfl⟩ := hpage p hp
    rw [PAGE_ALIGNED_iff, hsize]
    omega
  · obtain ⟨i, hi, rfl⟩ := hpage p hp
    omega
  · obtain ⟨i, hi, rfl⟩ := hpage p hp
    omega

/-- A small image. The section of the trampoline is none of the script's and is not loaded, and
starts at address 0. -/
def smallImage : KernelImage where
  s_text := 0x80200000
  e_text := 0x80210000
  s_rodata := 0x80210000
  e_rodata := 0x80214000
  s_data := 0x80214000
  e_bss := 0x80300000
  ekernel := 0x80300000
  trampoline := 0
  start_le := by decide
  text_le := by decide
  rodata_start := by decide
  rodata_le := by decide
  data_start := by decide
  data_le := by decide
  ekernel_start := by decide
  ekernel_le := by decide
  aligned := by decide
  trampoline_lt := by decide

/-- Its text can be executed and not written, its devices the other way round, and `TRAMPOLINE` is
the first page of these once more. -/
theorem kvminit_space_small : ∃ satp m',
    kvminit bumpAlloc smallImage ⟨fun _ _ => 0, []⟩ = (some (.ok satp), m')
      ∧ Sv39.translate m'.tab satp 0x80200000 .fetch = some 0x80200000
      ∧ Sv39.translate m'.tab satp 0x80200000 .store = none
      ∧ Sv39.translate m'.tab satp 0x10000000 .store = some 0x10000000
      ∧ Sv39.translate m'.tab satp 0x10000000 .fetch = none
      ∧ Sv39.translate m'.tab satp TRAMPOLINE .fetch = some 0 := by
  have hlog : ∃ j < 2 ^ 40, (kvminit bumpAlloc smallImage ⟨fun _ _ => 0, []⟩).2.log
      = (List.range j).map fun i => 0x80400000 + i * PAGE_SIZE := by
    have hcreate : Allocs bumpAlloc 1 [] (pagetableCreate bumpAlloc ⟨fun _ _ => 0, []⟩).2.log := .one
    obtain ⟨j, hj, hall⟩ := hcreate.trans (kmapAll_allocs (kvmMaps smallImage) _)
    have hsum : ((kvmMaps smallImage).map KMap.npages).sum = 0x88000 - 0x300 + 0x101 := by decide
    rw [hsum] at hj
    rw [kvminit_log]
    exact ⟨j, by omega, hall.trans (bumpAlloc_iterate j)⟩
  obtain ⟨j, hj, hlog⟩ := hlog
  obtain ⟨hfresh, hphys⟩ := fresh_bumpAlloc hj
  rw [← hlog] at hfresh hphys
  obtain ⟨satp, m', hrun, hspace⟩ := (kvminit_space smallImage hfresh hphys).1 (by decide)
  refine ⟨satp, m', hrun, ?_, ?_, ?_, ?_, ?_⟩
  · rw [hspace _ (by decide)]
    decide
  · rw [hspace _ (by decide)]
    decide
  · rw [hspace _ (by decide)]
    decide
  · rw [hspace _ (by decide)]
    decide
  · rw [hspace _ (by decide)]
    decide

end NoobKernel.Mm
