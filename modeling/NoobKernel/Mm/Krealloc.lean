import NoobKernel.Mm.KallocLocks
import NoobKernel.Mm.Reissue

set_option autoImplicit false

/-! # `krealloc`

`krealloc` frees the old memory before it allocates, and copies nothing. So what it promises holds
where the allocator hands out the same memory again (`Reissued`). Elsewhere the memory that it returns
has the contents it had before, and whether these are the same is chance (`krealloc_preserves`).
-/

namespace NoobKernel.Mm

open Misc Exec Locking
open Dyadic hiding Mem

variable {E : Type} {lay : Layout} {α : Type}

/-! ## The memory of the users -/

section

variable {L : Type} {outer : Locking E L Unit} {A : Set (MemLock L)} {P : (Nat → Bool) → Prop}

theorem watch_takes (held : Option Entry) :
    (memLocks outer).Takes (lockPolicy (HeapEvent E)) A P (watch held) := by
  cases held with
  | none => exact Takes.pure ()
  | some e =>
      intro k _ _ _
      exact ⟨fun _ _ => trivial, Same.refl k⟩

theorem logged_takes {alloc : Mem E (HeapEvent E) Nat}
    (halloc : (memLocks outer).Takes (lockPolicy (HeapEvent E)) A P alloc) (size : Nat) :
    (memLocks outer).Takes (lockPolicy (HeapEvent E)) A P (logged size alloc) := by
  refine Takes.bind halloc fun r => Takes.bind ?_ fun _ => Takes.pure r
  rw [logObject]
  split
  · intro k _ _ _
    exact ⟨fun _ _ => trivial, Same.refl k⟩
  · exact Takes.pure ()

theorem outside_empty : Outside (∅ : Set (MemLock L)) := ⟨id, fun _ => id⟩

theorem quiet_takes : (slabLocks outer).Takes (lockPolicy (HeapEvent E)) (∅ : Set (MemLock L))
    (fun _ => True) quiet := Takes.pure ()

theorem opsTake_busy : OpsTake outer ∅ Expanding (kernelOpsAt (E := E) lay 1) where
  alloc e := Takes.bind (watch_takes e) fun _ => logged_takes (allocMemBlock_takes outside_empty
    quiet_takes opsTake_never fun f hexp hnot => by
      rw [Expanding, hnot] at hexp
      cases hexp) _
  free p := freeMemBlock_takes outside_empty quiet_takes p

/-- The nesting of `kernelOps` is that of `memOps`. -/
theorem opsTake_kernelOps : OpsTake outer ∅ (fun _ => True) (kernelOps (E := E) lay) where
  alloc e := Takes.bind (watch_takes e) fun _ => logged_takes (allocMemBlock_takes outside_empty
    quiet_takes opsTake_busy fun f _ _ => by
      rw [Expanding, Function.update_self]) _
  free p := freeMemBlock_takes outside_empty quiet_takes p

end

open Classical in
/-- That the environment is `e`, as a lock. -/
noncomputable def isLock {e e' : E} (hne : e' ≠ e) : Locking E Unit Unit where
  held x _ := decide (x = e)
  set _ _ b := if b then e else e'
  frame _ := ()
  held_set_self x _ b := by
    cases b with
    | false => exact decide_eq_false hne
    | true => exact decide_eq_true rfl
  held_set_of_ne x l b l' h := absurd rfl h
  frame_set _ _ _ := rfl

/-- **What takes no lock of the environment** leaves the environment alone. -/
theorem ext_of_takes {x : Mem E (HeapEvent E) α} {k k' : Kernel E} {a : α} {log : List (HeapEvent E)}
    (hx : ∀ outer : Locking E Unit Unit,
      (memLocks outer).Takes (lockPolicy (HeapEvent E)) {.buddy} (fun _ => True) x)
    (hunlocked : k.buddyLocked = false) (hrun : x k = .ok a k' log) : k'.ext = k.ext := by
  classical
  by_cases hone : ∃ e', e' ≠ k.ext
  · obtain ⟨e', hne⟩ := hone
    have hfree : ∀ l ∈ ({.buddy} : Set (MemLock Unit)),
        (memLocks (isLock hne)).held k l = false := by
      rintro l rfl
      exact hunlocked
    have hyields := hx (isLock hne) k trivial hfree
    rw [hrun] at hyields
    have hheld := (hyields fun _ _ => trivial).2.held (.outer ())
    have hself : (memLocks (isLock hne)).held k (.outer ()) = true := decide_eq_true rfl
    exact of_decide_eq_true (hheld.trans hself)
  · exact not_not.mp (not_exists.mp hone k'.ext)

section

variable {k k' : Kernel E} {log : List (HeapEvent E)}

theorem kmalloc_ext {size r : Nat} (hunlocked : k.buddyLocked = false)
    (hrun : kmalloc quiet (kernelOps lay) size k = .ok r k' log) : k'.ext = k.ext := by
  refine ext_of_takes (fun outer => ?_) hunlocked hrun
  exact (kmalloc_takes outside_empty quiet_takes opsTake_kernelOps size).mono (Set.empty_subset _)

theorem kfree_ext {ptr : Nat} (hunlocked : k.buddyLocked = false)
    (hrun : kfree quiet (kernelOps lay) ptr k = .ok () k' log) : k'.ext = k.ext := by
  refine ext_of_takes (fun outer => ?_) hunlocked hrun
  exact (kfree_takes outside_empty quiet_takes opsTake_kernelOps ptr).mono
    (Set.insert_subset (Set.mem_singleton _) (Set.empty_subset _))

end

/-- **`krealloc` copies nothing.** -/
theorem HeapInv.krealloc_ext {h : Heap E} (inv : HeapInv lay h) {ptr : Nat} (hlive : h.Live ptr)
    (size : Nat) : Yields (heapPolicy E) (Kalloc.krealloc quiet (kernelOps lay) ptr size h.kernel)
      fun _ k => k.ext = h.kernel.ext := by
  have hfree : Yields (heapPolicy E) (Mm.kfree quiet (kernelOps lay) ptr h.kernel) fun _ k =>
      HeapInv lay (({ h with kernel := k } : Heap E).drop ptr) ∧ k.ext = h.kernel.ext :=
    (heap_of_held (inv.kfree hlive)).mono_ok fun _ k log hrun hinv => ⟨hinv, kfree_ext inv.unlocked hrun⟩
  refine Yields.bind hfree ?_
  rintro - k ⟨hinv, hext⟩
  rw [Heap.drop_kernel] at hinv
  exact (heap_of_held (hinv.kmalloc size)).mono_ok fun r k' log hrun _ =>
    (kmalloc_ext hinv.unlocked hrun).trans hext

/-! ## What `krealloc` preserves -/

/-- The memory that the users of the heap write to. -/
abbrev Contents : Type := Nat → BitVec 8

def zeroBytes (ptr n : Nat) (mem : Contents) : Contents := fun a =>
  if ptr ≤ a ∧ a < ptr + n then 0 else mem a

/-- A user holds the pointer, with a capacity. -/
def Heap.Holds (h : Heap E) (ptr cap : Nat) : Prop :=
  (∃ c, (c, ptr) ∈ h.objects ∧ cap = classSize c)
    ∨ ∃ o, (ptr, o) ∈ h.blocks ∧ cap = PAGE_SIZE <<< o

/-- The data of `ptr` has moved to `r`, or is where it was if there is no memory. -/
structure Preserved (h : Heap Contents) (ptr cap size r : Nat) (h' : Heap Contents) : Prop where
  moved : r ≠ 0 → (∀ i < min cap size, h'.kernel.ext (r + i) = h.kernel.ext (ptr + i))
    ∧ (h'.Live ptr → r = ptr)
  kept : r = 0 → size ≠ 0 → h'.Live ptr
    ∧ ∀ i < cap, h'.kernel.ext (ptr + i) = h.kernel.ext (ptr + i)

/-- **What `krealloc` promises**, when it returns. -/
def ReallocPreserves (safe : HeapEvent Contents → Prop) (lay : Layout) (h : Heap Contents)
    (ptr cap size : Nat) : Prop :=
  Yields (heapPolicyOf safe) (Kalloc.krealloc quiet (kernelOps lay) ptr size h.kernel) fun r k =>
    Preserved h ptr cap size r ((({ h with kernel := k } : Heap Contents).drop ptr).give size r)

section

variable {h : Heap E} {ptr cap size : Nat}

theorem Heap.Holds.live (holds : h.Holds ptr cap) : h.Live ptr := by
  rcases holds with ⟨c, hmem, -⟩ | ⟨o, hmem, -⟩
  · exact Or.inl (List.mem_map_of_mem hmem)
  · exact Or.inr (List.mem_map_of_mem hmem)

/-- An object and a block that users hold are different. -/
theorem HeapInv.object_ne_block (inv : HeapInv lay h) {o : Nat × Nat} (ho : o ∈ h.objects)
    {b : Block} (hb : b ∈ h.blocks) : o.2 ≠ b.1 := by
  obtain ⟨A, good⟩ := inv.good
  obtain ⟨hc, huse⟩ := good.owns.clients.object o ho
  intro heq
  have hslab := (good.owns.heap.block_page good.inv hb).2
  have hmark := (good.owns.heap.object_page hc huse).2
  rw [heq, good.owns.heap.block_align good.inv hb] at hmark
  exact hmark hslab

/-- The blocks that users hold begin at different addresses. -/
theorem HeapInv.blocks_nodup (inv : HeapInv lay h) : (h.blocks.map Prod.fst).Nodup := by
  obtain ⟨A, good⟩ := inv.good
  have hpair := (good.owns.heap.handed.pairwise_iff Apart.symm).mp
    (List.pairwise_append.mp (Partition.of_inv good.inv).disjoint).2.1
  refine List.pairwise_map.mpr ((List.pairwise_append.mp hpair).2.1.imp ?_)
  intro b b' hapart heq
  exact hapart b.1 (mem_start b) (heq ▸ mem_start b')

/-- **A pointer that is given back is not live.** -/
theorem HeapInv.drop_not_live (inv : HeapInv lay h) (hlive : h.Live ptr) : ¬(h.drop ptr).Live ptr := by
  obtain ⟨A, good⟩ := inv.good
  rw [Heap.drop]
  split
  · rename_i hobj
    obtain ⟨o, ho, hperm⟩ := perm_eraseP_map hobj
    have hnodup := (hperm.map Prod.snd).nodup_iff.mp good.owns.clients.nodup
    rintro (hmem | hmem)
    · exact (List.nodup_cons.mp hnodup).1 (ho ▸ hmem)
    · obtain ⟨b, hb, hstart⟩ := List.mem_map.mp hmem
      have hmem' := hperm.mem_iff.mpr List.mem_cons_self
      exact inv.object_ne_block hmem' hb (ho.trans hstart.symm)
  · rename_i hobj
    obtain ⟨b, hb, hperm⟩ := perm_eraseP_map (hlive.resolve_left hobj)
    have hnodup := (hperm.map Prod.fst).nodup_iff.mp inv.blocks_nodup
    rintro (hmem | hmem)
    · exact hobj hmem
    · exact (List.nodup_cons.mp hnodup).1 (hb ▸ hmem)

theorem Heap.live_give {r : Nat} (hlive : (h.give size r).Live ptr) : h.Live ptr ∨ r = ptr := by
  unfold Heap.give Heap.giveObject Heap.giveBlock at hlive
  split at hlive
  · split at hlive
    · exact Or.inl hlive
    · rcases hlive with hmem | hmem
      · exact (List.mem_cons.mp hmem).symm.imp Or.inl Eq.symm
      · exact Or.inl (Or.inr hmem)
  · split at hlive
    · exact Or.inl hlive
    · rcases hlive with hmem | hmem
      · exact Or.inl (Or.inl hmem)
      · exact (List.mem_cons.mp hmem).symm.imp Or.inr Eq.symm

end

variable {memset : Nat → Nat → Contents → Contents} {h : Heap Contents} {ptr cap size : Nat}

/-- **Elsewhere it is chance**: the promise is kept if and only if there is memory, and the memory
that is handed out happens to have the same contents. -/
theorem HeapInv.krealloc_preserved_iff (inv : HeapInv lay h) (hlive : h.Live ptr) (cap : Nat) :
    Yields (heapPolicy Contents) (Kalloc.krealloc quiet (kernelOps lay) ptr size h.kernel) fun r k =>
      Preserved h ptr cap size r ((({ h with kernel := k } : Heap Contents).drop ptr).give size r)
        ↔ (r = 0 → size = 0)
          ∧ (r ≠ 0 → ∀ i < min cap size, h.kernel.ext (r + i) = h.kernel.ext (ptr + i)) := by
  refine (inv.krealloc_ext hlive size).mono fun r k hext => ?_
  have hdead := inv.drop_not_live hlive
  rw [Heap.drop_kernel, Heap.give_kernel]
  constructor
  · intro hpres
    refine ⟨fun hr => by_contra fun hsize => ?_, fun hr i hi => ?_⟩
    · have hkept := (hpres.kept hr hsize).1
      rw [hr, Heap.give_null] at hkept
      exact hdead hkept
    · rw [← (hpres.moved hr).1 i hi]
      exact (congrFun hext _).symm
  · rintro ⟨hnull, hbytes⟩
    refine ⟨fun hr => ⟨fun i hi => ?_, fun h' => ?_⟩, fun hr hsize => absurd (hnull hr) hsize⟩
    · rw [← hbytes hr i hi]
      exact congrFun hext _
    · exact (Heap.live_give h').resolve_left hdead

/-- **In runs with safe events**, `krealloc` keeps its promise where the memory is handed out again.
Elsewhere in settled states it returns other memory, and keeps the promise by chance alone. -/
theorem krealloc_preserves (run : HeapRun HeapEvent.Safe lay memset h) (holds : h.Holds ptr cap) :
    (Reissued h ptr size → ReallocPreserves HeapEvent.Safe lay h ptr cap size)
      ∧ (Settled h ptr size → ¬Reissued h ptr size →
        Yields (heapPolicyOf HeapEvent.Safe)
          (Kalloc.krealloc quiet (kernelOps lay) ptr size h.kernel) fun r k =>
            r ≠ ptr
              ∧ (Preserved h ptr cap size r
                  ((({ h with kernel := k } : Heap Contents).drop ptr).give size r)
                ↔ r ≠ 0 ∧ ∀ i < min cap size, h.kernel.ext (r + i) = h.kernel.ext (ptr + i))) := by
  have inv := heapRun_inv run
  have hlive := holds.live
  constructor
  · intro reissued
    refine ((inv.krealloc_ext hlive size).and
      (heap_of_held (inv.krealloc_reissued hlive reissued))).mono ?_
    rintro r k ⟨hext, hr⟩
    rw [Heap.drop_kernel, Heap.give_kernel]
    rcases hr with ⟨hzero, rfl⟩ | rfl
    · exact ⟨fun hr => absurd rfl hr, fun _ hsize => absurd hzero hsize⟩
    · refine ⟨fun _ => ⟨fun i _ => ?_, fun _ => rfl⟩, fun hr => absurd hr (inv.live_ne hlive)⟩
      exact congrFun hext _
  · intro settled moved
    have hpos : size ≠ 0 := fun hzero => moved (.nothing hzero)
    refine ((heap_of_held (inv.krealloc_moves hlive settled moved)).and
      (inv.krealloc_preserved_iff hlive cap)).mono ?_
    rintro r k ⟨hne, hiff⟩
    refine ⟨hne, hiff.trans ⟨fun h => ?_, fun h => ⟨fun hr => absurd hr h.1, fun _ => h.2⟩⟩⟩
    have hr : r ≠ 0 := fun hr => hpos (h.1 hr)
    exact ⟨hr, h.2 hr⟩

/-- An object of 64 bytes, of which the first one is set. -/
def writtenObject : List (HeapCall Contents) :=
  [.kmalloc 64, .write fun mem a => if a = 0x808500C0 then 1 else mem a]

/-- A block of two pages is reallocated for 5000 bytes, and an object of 64 bytes for 128. -/
theorem krealloc_preserves_boot :
    (∃ (h : Heap Contents) (ptr : Nat), h.Holds ptr 8192
      ∧ ReallocPreserves HeapEvent.Safe smallKernel h ptr 8192 5000)
    ∧ ∃ h : Heap Contents, h.Holds 0x808500C0 64
      ∧ Yields (heapPolicyOf HeapEvent.Safe)
        (Kalloc.krealloc quiet (kernelOps smallKernel) 0x808500C0 128 h.kernel)
          fun r _ => r ≠ 0x808500C0 := by
  constructor
  · have hrun : (bootCalls smallKernel zeroBytes HeapEvent.harmless [.kmalloc 8192]
        (pmInit smallKernel (kernelOps smallKernel) (bss fun _ => 0))).any (fun h =>
          h.blocks.any fun b => b.2 = 1) = true := by
      decide +kernel
    obtain ⟨h, hcalls, hcheck⟩ := (Option.any_eq_true _ _).mp hrun
    obtain ⟨⟨ptr, o⟩, hmem, ho⟩ := List.any_eq_true.mp hcheck
    obtain rfl : o = 1 := of_decide_eq_true ho
    have holds : h.Holds ptr 8192 := Or.inr ⟨1, hmem, rfl⟩
    exact ⟨h, ptr, holds,
      (krealloc_preserves (.of_boot HeapEvent.safe_of_harmless rfl hcalls) holds).1
        (.block hmem (by decide) (by decide) (by decide))⟩
  · have hrun : (bootCalls smallKernel zeroBytes HeapEvent.harmless writtenObject
        (pmInit smallKernel (kernelOps smallKernel) (bss fun _ => 0))).any (fun h =>
          h.objects = [(5, 0x808500C0)] ∧ h.blocks = []) = true := by
      decide +kernel
    obtain ⟨h, hcalls, hcheck⟩ := (Option.any_eq_true _ _).mp hrun
    obtain ⟨hobjects, hblocks⟩ := of_decide_eq_true hcheck
    have hblock : ∀ b, b ∉ h.blocks := by
      rw [hblocks]
      exact fun _ => List.not_mem_nil
    have hobject : ∀ c, (c, 0x808500C0) ∈ h.objects ↔ c = 5 := fun c => by
      rw [hobjects, List.mem_singleton, Prod.mk.injEq]
      exact and_iff_left rfl
    have holds : h.Holds 0x808500C0 64 := Or.inl ⟨5, (hobject 5).mpr rfl, rfl⟩
    have settled : Settled h 0x808500C0 128 :=
      ⟨fun ho => absurd ((hobject _).mp ho) (by decide), fun _ hb => absurd hb (hblock _),
        fun _ hb => absurd hb (hblock _), fun _ hb => absurd hb (hblock _),
        fun _ hb => absurd hb (hblock _)⟩
    have moved : ¬Reissued h 0x808500C0 128 := by
      rintro (hzero | hb | hb | hb | ⟨ho, -, -, hsame, -⟩)
      · cases hzero
      · exact hblock _ hb
      · exact hblock _ hb
      · exact hblock _ hb
      · exact absurd (hsame.trans ((hobject _).mp ho)) (by decide)
    exact ⟨h, holds, ((krealloc_preserves (.of_boot HeapEvent.safe_of_harmless rfl hcalls) holds).2
      settled moved).mono fun _ _ hr => hr.1⟩

/-- Reallocated for 128 bytes, the object loses its first byte. -/
theorem not_krealloc_preserves : ¬∀ (h : Heap Contents) (ptr cap size : Nat),
    HeapRun (fun _ => True) smallKernel zeroBytes h → h.Holds ptr cap →
      ReallocPreserves (fun _ => True) smallKernel h ptr cap size := by
  intro hall
  have hrun : (bootCalls smallKernel zeroBytes (fun _ => true) writtenObject
      (pmInit smallKernel (kernelOps smallKernel) (bss fun _ => 0))).any (fun h =>
        (5, 0x808500C0) ∈ h.objects
          ∧ (Kalloc.krealloc quiet (kernelOps smallKernel) 0x808500C0 128 h.kernel).check
            fun r k => r ≠ 0 ∧ k.ext r ≠ h.kernel.ext 0x808500C0) = true := by
    decide +kernel
  obtain ⟨h, hcalls, hcheck⟩ := (Option.any_eq_true _ _).mp hrun
  obtain ⟨hmem, hcall⟩ := of_decide_eq_true hcheck
  obtain ⟨r, k, log, hrealloc, hlost⟩ := Outcome.of_check hcall
  obtain ⟨hr, hbyte⟩ := of_decide_eq_true hlost
  have hpreserves := hall h 0x808500C0 64 128 (.of_boot (fun _ _ => trivial) rfl hcalls)
    (Or.inl ⟨5, hmem, rfl⟩)
  rw [ReallocPreserves, hrealloc] at hpreserves
  obtain ⟨hbytes, -⟩ := (hpreserves fun _ _ => trivial).2.moved hr
  have hfirst := hbytes 0 (by decide)
  rw [Heap.drop_kernel, Heap.give_kernel] at hfirst
  exact hbyte hfirst

end NoobKernel.Mm
