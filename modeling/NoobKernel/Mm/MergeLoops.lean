import NoobKernel.Mm.HeapRun

set_option autoImplicit false

/-! # The loops of `merge_blocks` and their cursor

`merge_blocks` runs all its loops over one cursor `p`, which `list_for_each_safe` sets and the `while`
around it compares with the head of the list. After a merge it points into a block that is off its
list, or freed, and from one order to the next it keeps its value. Here the loops are run with the
cursor. They do what `mergeBlocks` does, which scans lists (`mergeBlocksLoop_eq`), within as many
rounds as there are free blocks (`mergeBlocks_fixpoint`).
-/

namespace NoobKernel.Mm

open Misc Exec
open Dyadic hiding Mem

variable {E R : Type}

/-- A `struct list_head *`: `NULL`, the head of a list, or the links in a `mem_block`. -/
inductive ListPtr
  | null
  | head (i : Nat)
  | entry (p : Nat)
  deriving DecidableEq, Repr

/-- An entry of list `i`, or its head. -/
def ListPtr.of (i : Nat) : Option Nat → ListPtr
  | none => .head i
  | some p => .entry p

/-- `p->next`. -/
def listNext : ListPtr → Mem E R ListPtr
  | .null => fault .nullDeref
  | .head i => do
      let k ← read
      pure (.of i (k.buddyFreeList i).head?)
  | .entry p => do
      let k ← read
      match k.linksOf p with
      | none => fault .nullDeref
      | some links => pure (.of links.list links.next)

/-- `list_for_each_safe(p, n, &buddy_free_list[i])` from `p` on: the cursor it leaves and, after a
`break`, the block and its buddy. -/
def mergeScanLoop (i : Nat) : Nat → ListPtr → ListPtr → Mem E R (ListPtr × Option (Nat × Nat))
  | 0, _, _ => fault .rounds
  | fuel + 1, p, n =>
      if p = .head i then pure (p, none)
      else
        match p with
        | .entry block => do
            let k ← read
            let page ← readPage (k.memBlock block)
            let buddyPage ← readPage (getBuddyAddr (k.memBlock block) page.order)
            if buddyPage.priv = 0 ∨ buddyPage.order ≠ i then do
              let next ← listNext n
              mergeScanLoop i fuel n next
            else pure (p, some (block, buddyPage.priv))
        -- `list_entry` of a pointer into no `mem_block`
        | _ => fault .nullDeref

/-- `while (p != &buddy_free_list[i])`. -/
def mergeLevelLoop (ops : MetaOps E R) (i : Nat) : Nat → ListPtr → Mem E R ListPtr
  | 0, _ => fault .rounds
  | fuel + 1, p =>
      if p = .head i then pure p
      else do
        let first ← listNext (.head i)
        let n ← listNext first
        let (p, found) ← mergeScanLoop i fuel first n
        match found with
        | none => mergeLevelLoop ops i fuel p
        | some (block, buddyBlock) => do
            mergePair ops block buddyBlock
            mergeLevelLoop ops i fuel p

/-- `merge_blocks`, with the cursor at the end: `for (i = 0; i < order; i++)` by its last round. Each
loop in it may take `fuel` rounds. -/
def mergeBlocksLoop (ops : MetaOps E R) (fuel : Nat) : Nat → Mem E R ListPtr
  | 0 => pure .null
  | i + 1 => do
      let p ← mergeBlocksLoop ops fuel i
      let k ← read
      if k.buddyFreeList i = [] then pure p
      else mergeLevelLoop ops i fuel p

/-! ## Links of entries -/

theorem neighbours_none {p : Nat} {prev : Option Nat} {l : List Nat} (hp : p ∉ l) :
    neighbours p prev l = none := by
  induction l generalizing prev with
  | nil => rfl
  | cons q l ih =>
      obtain ⟨hne, hl⟩ := not_or.mp (List.mem_cons.not.mp hp)
      rw [neighbours, if_neg (Ne.symm hne), ih hl]

theorem neighbours_append {p : Nat} (prev : Option Nat) {l : List Nat} (hp : p ∉ l)
    (l' : List Nat) : ∃ b, neighbours p prev (l ++ p :: l') = some (b, l'.head?) := by
  induction l generalizing prev with
  | nil => exact ⟨prev, if_pos rfl⟩
  | cons q l ih =>
      obtain ⟨hne, hl⟩ := not_or.mp (List.mem_cons.not.mp hp)
      obtain ⟨b, hb⟩ := ih (some q) hl
      refine ⟨b, ?_⟩
      rw [List.cons_append, neighbours, if_neg (Ne.symm hne), hb]

section Lists

variable {lo hi : Nat} {k : Kernel E} {A : List Block} {S : List Entry} {i : Nat}

theorem ptrs_entries (k : Kernel E) :
    (entries k).map Entry.ptr = (List.range (BUDDY_MAX_ORDER + 1)).flatMap k.buddyFreeList := by
  rw [entries, entriesBelow, List.map_flatMap]
  refine List.flatMap_congr fun o _ => ?_
  rw [List.map_map]
  exact List.map_id _

theorem BuddyInv.list_nodup (h : BuddyInv lo hi k A S) (hi' : i ≤ BUDDY_MAX_ORDER) :
    (k.buddyFreeList i).Nodup := by
  have hnodup := h.records.nodup
  rw [List.map_append, ptrs_entries] at hnodup
  exact (List.nodup_flatMap.mp (List.nodup_append.mp hnodup).1).1 i
    (List.mem_range.mpr (Nat.lt_succ_of_le hi'))

theorem list_length_le (k : Kernel E) (hi' : i ≤ BUDDY_MAX_ORDER) :
    (k.buddyFreeList i).length ≤ (entries k).length := by
  have hmem := List.mem_map_of_mem (f := k.buddyFreeList)
    (List.mem_range.mpr (Nat.lt_succ_of_le hi'))
  have hle := (List.sublist_flatten_of_mem hmem).length_le
  rwa [← List.flatMap_def, ← ptrs_entries, List.length_map] at hle

/-- The links of an entry lead to the rest of its list. -/
theorem BuddyInv.linksOf_eq (h : BuddyInv lo hi k A S) {p : Nat} {l l' : List Nat}
    (hlist : k.buddyFreeList i = l ++ p :: l') :
    ∃ b, k.linksOf p = some ⟨i, b, l'.head?⟩ := by
  have hp : p ∈ k.buddyFreeList i := by
    rw [hlist]
    simp
  have hi' := h.mem_list hp
  have hnodup := h.list_nodup hi'
  rw [hlist] at hnodup
  have hl : p ∉ l := fun hmem =>
    (List.nodup_append.mp hnodup).2.2 p hmem p List.mem_cons_self rfl
  obtain ⟨b, hb⟩ := neighbours_append none hl l'
  refine ⟨b, ?_⟩
  unfold Kernel.linksOf
  cases hsome : (List.range (BUDDY_MAX_ORDER + 1)).findSome? fun j =>
      (neighbours p none (k.buddyFreeList j)).map fun n => (⟨j, n.1, n.2⟩ : StaleLinks) with
  | none =>
      have hnone := List.findSome?_eq_none_iff.mp hsome i
        (List.mem_range.mpr (Nat.lt_succ_of_le hi'))
      rw [hlist, hb] at hnone
      cases hnone
  | some links =>
      obtain ⟨j, -, hj⟩ := List.exists_of_findSome?_eq_some hsome
      -- `p` is on no other list
      have hji : j = i := by
        by_contra hne
        rw [neighbours_none fun hmem => hne (h.list_unique hmem hp)] at hj
        cases hj
      rw [hji, hlist, hb] at hj
      cases hj
      rfl

/-- The successor of an entry, and of the head of the list if no entry is left. -/
theorem BuddyInv.listNext_of (h : BuddyInv lo hi k A S) {l ps : List Nat}
    (hlist : k.buddyFreeList i = l ++ ps) :
    ∃ n, (listNext (.of i ps.head?) : Mem E R ListPtr) k = .ok n k []
      ∧ ∀ p l', ps = p :: l' → n = .of i l'.head? := by
  cases ps with
  | nil => exact ⟨_, read_bind_apply _ k, fun p l' heq => by cases heq⟩
  | cons p l' =>
      obtain ⟨b, hb⟩ := h.linksOf_eq hlist
      refine ⟨.of i l'.head?, ?_, fun q l'' heq => by cases heq; rfl⟩
      show (listNext (.entry p) : Mem E R ListPtr) k = _
      rw [listNext, read_bind_apply, hb]
      rfl

end Lists

/-! ## The loops -/

section Loops

variable {lo hi : Nat} {k : Kernel E} {A : List Block} {S : List Entry} {c : Contract E}
  {ops : MetaOps E R} {i : Nat}

theorem mergeScanLoop_entry (reg : Region lo hi) (h : BuddyInv lo hi k A S)
    (hi' : i < BUDDY_MAX_ORDER) {p : Nat} (hp : p ∈ k.buddyFreeList i) (n : ListPtr) (fuel : Nat) :
    (mergeScanLoop i (fuel + 1) (.entry p) n : Mem E R _) k
      = (if (k.page (buddy PAGE_SHIFT (k.memBlock p) i)).priv = 0
          ∨ (k.page (buddy PAGE_SHIFT (k.memBlock p) i)).order ≠ i then
          listNext n >>= mergeScanLoop i fuel n
        else pure (.entry p, some (p, (k.page (buddy PAGE_SHIFT (k.memBlock p) i)).priv)) :
          Mem E R _) k :=
  (read_bind_apply _ k).trans (scanPages_bind reg h hi' hp _)

/-- **`list_for_each_safe`** stops where the scan of the list does, at the block it has found or at
the head. -/
theorem mergeScanLoop_eq (reg : Region lo hi) (h : BuddyInv lo hi k A S) (hi' : i < BUDDY_MAX_ORDER)
    {ps l : List Nat} {n : ListPtr} {fuel : Nat} (hlist : k.buddyFreeList i = l ++ ps)
    (hn : ∀ p l', ps = p :: l' → n = .of i l'.head?) (hfuel : ps.length < fuel) :
    (mergeScanLoop i fuel (.of i ps.head?) n : Mem E R _) k
      = (mergeScan i ps >>= fun found => pure (.of i (found.map Prod.fst), found)) k := by
  induction ps generalizing l n fuel with
  | nil =>
      obtain ⟨fuel, rfl⟩ : ∃ n, fuel = n + 1 := Nat.exists_eq_succ_of_ne_zero (Nat.ne_of_gt hfuel)
      exact (congrFun (if_pos rfl) k).trans (pure_bind_apply _ _ k).symm
  | cons p ps ih =>
      obtain ⟨fuel, rfl⟩ : ∃ n, fuel = n + 1 := Nat.exists_eq_succ_of_ne_zero (by omega)
      have hp : p ∈ k.buddyFreeList i := by
        rw [hlist]
        simp
      rw [bind_congr_apply (mergeScan_cons reg h hi' hp ps)]
      refine (mergeScanLoop_entry reg h hi' hp n fuel).trans ?_
      split
      · -- `continue`: `n` becomes the cursor, and its successor is read before the next round
        have hrest : k.buddyFreeList i = (l ++ [p]) ++ ps := by
          rw [hlist, List.append_cons]
        obtain ⟨n', hnext, hn'⟩ := h.listNext_of (R := R) hrest
        rw [hn p ps rfl, bind_ok hnext, Outcome.after_nil]
        exact ih hrest hn' (Nat.lt_of_succ_lt_succ hfuel)
      · -- `break` leaves the cursor at `p`
        rw [pure_bind_apply]
        rfl

/-- **`while (p != &buddy_free_list[i])`** from a cursor that is not yet the head. -/
theorem mergeLevelLoop_eq (reg : Region lo hi) (spec : FreeSpec Policy.silent c ops)
    (hi' : i < BUDDY_MAX_ORDER) {ord : Nat} (hord : i < ord) (h : Good c lo hi k A S)
    (hguard : Guard A S ord) {p : ListPtr} (hp : p ≠ .head i) {fuel rounds : Nat}
    (hfuel : (k.buddyFreeList i).length + 1 < fuel) (hrounds : (k.buddyFreeList i).length < rounds) :
    mergeLevelLoop ops i fuel p k = (mergeLevel ops i rounds >>= fun _ => pure (.head i)) k := by
  -- every round but the last merges two blocks of the list, which gets shorter
  induction rounds generalizing fuel k p with
  | zero => exact absurd hrounds (Nat.not_lt_zero _)
  | succ rounds ih =>
      obtain ⟨fuel, rfl⟩ : ∃ n, fuel = n + 1 := Nat.exists_eq_succ_of_ne_zero (by omega)
      obtain ⟨found, hscan, hfound⟩ := mergeScan_level (R := R) reg h.inv hi' hord hguard
      obtain ⟨n, hnext, hn⟩ := h.inv.listNext_of (R := R) (List.nil_append (k.buddyFreeList i)).symm
      have hloop := mergeScanLoop_eq (R := R) reg h.inv hi' (List.nil_append _).symm hn
        (Nat.lt_of_succ_lt_succ hfuel)
      rw [bind_ok hscan, Outcome.after_nil, pure_apply] at hloop
      have hfirst : (listNext (.head i) : Mem E R ListPtr) k
          = .ok (.of i (k.buddyFreeList i).head?) k [] := read_bind_apply _ k
      rw [mergeLevelLoop, if_neg hp, bind_ok hfirst, Outcome.after_nil, bind_ok hnext,
        Outcome.after_nil, bind_ok hloop, Outcome.after_nil]
      unfold mergeLevel
      rw [bind_bind, read_bind_apply, bind_bind, bind_ok hscan, Outcome.after_nil]
      cases found with
      | none =>
          -- the scan has reached the head, which ends the `while`
          obtain ⟨fuel, rfl⟩ : ∃ n, fuel = n + 1 := Nat.exists_eq_succ_of_ne_zero (by omega)
          exact (congrFun (if_pos rfl) k).trans (pure_bind_apply _ _ k).symm
      | some found =>
          obtain ⟨b, q⟩ := found
          obtain ⟨hb, hq, hbq⟩ := hfound
          obtain ⟨⟨⟩, k₁, hpair, hgood, -, hlen⟩ := (mergePair_spec reg spec h hi' hb hq hbq).silent
          -- the cursor is in the block `b`, off its list by now
          have hrest : mergeLevelLoop ops i fuel (.entry b) k₁
              = (mergeLevel ops i rounds >>= fun _ => pure (.head i)) k₁ :=
            ih hgood (by rintro ⟨⟩) (by omega) (by omega)
          show (mergePair ops b q >>= fun _ => mergeLevelLoop ops i fuel (.entry b)) k
            = ((mergePair ops b q >>= fun _ => mergeLevel ops i rounds)
                >>= fun _ => pure (.head i)) k
          rw [bind_bind, bind_ok hpair, bind_ok hpair, hrest]

/-- **`merge_blocks`** with its cursor does what it does on lists. When the cursor comes to order `n`
it is still `NULL` or the head of a list below. -/
theorem mergeBlocksLoop_eq (reg : Region lo hi) (spec : FreeSpec Policy.silent c ops) {n ord : Nat}
    (hn : n ≤ ord) (hmax : ord ≤ BUDDY_MAX_ORDER) (h : Good c lo hi k A S) (hguard : Guard A S ord)
    {fuel : Nat} (hfuel : (entries k).length + 1 < fuel) :
    ∃ p, (∀ j, p = .head j → j < n)
      ∧ mergeBlocksLoop ops fuel n k = (mergeBlocks ops n >>= fun _ => pure p) k := by
  induction n with
  | zero =>
      refine ⟨.null, ?_, (pure_bind_apply _ _ k).symm⟩
      rintro j ⟨⟩
  | succ n ih =>
      obtain ⟨p, hp, hloop⟩ := ih (by omega)
      obtain ⟨⟨⟩, k₁, hmerge, hgood, hbelow, -⟩ :=
        (mergeBlocks_spec reg spec (n := n) (by omega) hmax h hguard).silent
      have hlen := (list_length_le k₁ (i := n) (by omega)).trans hbelow.blocks
      rw [bind_ok hmerge, Outcome.after_nil, pure_apply] at hloop
      have hlists : ∀ q, (mergeBlocks ops (n + 1) >>= fun _ => pure q : Mem E R ListPtr) k
          = ((if k₁.buddyFreeList n = [] then pure ()
              else mergeLevel ops n (2 * (k₁.buddyFreeList n).length + 1))
            >>= fun _ => pure q : Mem E R ListPtr) k₁ := by
        intro q
        rw [mergeBlocks, bind_bind, bind_ok hmerge, Outcome.after_nil, bind_bind, read_bind_apply]
      -- the list of order `n` may have got blocks from the rounds before
      rw [mergeBlocksLoop, bind_ok hloop, Outcome.after_nil, read_bind_apply]
      by_cases hempty : k₁.buddyFreeList n = []
      · refine ⟨p, fun j hj => (hp j hj).trans (Nat.lt_succ_self n), ?_⟩
        rw [hlists, if_pos hempty, if_pos hempty, pure_bind_apply]
      · refine ⟨.head n, ?_, ?_⟩
        · rintro j ⟨⟩
          exact Nat.lt_succ_self n
        · have hne : p ≠ .head n := fun heq => absurd (hp n heq) (lt_irrefl n)
          rw [hlists, if_neg hempty, if_neg hempty]
          exact mergeLevelLoop_eq reg spec (by omega) (by omega) hgood hguard hne (by omega) (by omega)

/-- Where no two free blocks are buddies there is nothing to merge. -/
theorem mergeBlocks_idle (reg : Region lo hi) (h : BuddyInv lo hi k A S) {n ord : Nat} (hn : n ≤ ord)
    (hmax : ord ≤ BUDDY_MAX_ORDER) (hguard : Guard A S ord) (hpairs : ∀ i < n, NoPairs k i) :
    mergeBlocks ops n k = .ok () k [] := by
  induction n with
  | zero => rfl
  | succ n ih =>
      have hlt : n < BUDDY_MAX_ORDER := Nat.lt_of_lt_of_le hn hmax
      rw [mergeBlocks, bind_ok (ih (by omega) fun i hi' => hpairs i (by omega)), Outcome.after_nil,
        read_bind_apply]
      split
      · rfl
      · obtain ⟨found, hscan, hfound⟩ := mergeScan_level (R := R) reg h hlt hn hguard
        rw [mergeLevel, read_bind_apply, bind_ok hscan, Outcome.after_nil]
        cases found with
        | none => rfl
        | some found =>
            obtain ⟨p, q⟩ := found
            obtain ⟨hp, hq, hpq⟩ := hfound
            exact absurd hpq (hpairs n (Nat.lt_succ_self n) _ (mem_entries_of hlt.le hp) _
              (mem_entries_of hlt.le hq) rfl rfl)

end Loops

/-! ## The whole function -/

variable {lay : Layout} {P : Holding} {k k' : Kernel E} {A : List Block}

/-- **What `merge_blocks(order)` leaves behind.** -/
structure MergedUp (lay : Layout) (A : List Block) (order : Nat) (k k' : Kernel E) : Prop where
  partition : Partition lay k' A
  free : ∀ x, FreeAt k' x ↔ FreeAt k x
  freePages : k'.buddyFreePages = k.buddyFreePages
  noBuddies : ∀ b ∈ freeBlocks k', ∀ b' ∈ freeBlocks k', b.2 < order → b'.2 = b.2 →
    b'.1 ≠ getBuddyAddr b.1 b.2

theorem kernelOps_frees {pol : Policy (HeapEvent E) Fault} :
    FreeSpec pol (heapContract E lay P) (kernelOps lay) :=
  ⟨fun own hp _ => freeMemBlock_spec own hp⟩

theorem Partition.tiles (h : Partition lay k A) :
    Tiles PAGE_SHIFT lay.BUDDY_SYSTEM_BASE Layout.BUDDY_SYSTEM_END (freeBlocks k ++ A) := by
  have htiles := h.inv.records.tiles
  rwa [List.append_nil] at htiles

/-- Free memory is what is not allocated, so with the allocated blocks it stays the same. -/
theorem Partition.freeAt_iff (h : Partition lay k A) (h' : Partition lay k' A) (x : Nat) :
    FreeAt k' x ↔ FreeAt k x :=
  (Mm.freeAt_iff h'.tiles x).trans (Mm.freeAt_iff h.tiles x).symm

/-- **`merge_blocks` ends** after at most as many rounds of a loop as there are free blocks, and two,
and what it has left cannot be merged any more: a second call changes nothing. -/
theorem mergeBlocks_fixpoint {order : Nat} (horder : order ≤ BUDDY_MAX_ORDER)
    (hpart : Partition lay k A) (hheap : HeapOwns lay P k A (ptrs k [])) :
    ∃ k', MergedUp lay A order k k' ∧ HeapOwns lay P k' A (ptrs k' [])
      ∧ ∀ fuel, (freeBlocks k).length + 1 < fuel →
        (∃ p, mergeBlocksLoop (kernelOps lay) fuel order k = .ok p k' [])
          ∧ ∃ p, mergeBlocksLoop (kernelOps lay) fuel order k' = .ok p k' [] := by
  have hguard : Guard A [] order := fun e he => by cases he
  have hgood : HeapGood lay P k A [] := ⟨hpart.inv, hheap⟩
  have frees : FreeSpec Policy.silent (heapContract E lay P) (kernelOps lay) := kernelOps_frees
  obtain ⟨⟨⟩, k', hmerge, hgood', hbelow, hpairs⟩ :=
    (mergeBlocks_spec lay.region frees (le_refl order) horder hgood hguard).silent
  -- the second call finds no two buddies below the order
  have hidle : mergeBlocks (kernelOps lay) order k' = .ok () k' [] :=
    mergeBlocks_idle lay.region hgood'.inv (le_refl order) horder hguard hpairs
  have hpart' := Partition.of_inv hgood'.inv
  refine ⟨k', ⟨hpart', hpart.freeAt_iff hpart', hbelow.freePages, ?_⟩, hgood'.owns,
    fun fuel hfuel => ?_⟩
  · intro b hb b' hb' ho ho'
    obtain ⟨e, he, rfl⟩ := List.mem_map.mp hb
    obtain ⟨e', he', rfl⟩ := List.mem_map.mp hb'
    rw [getBuddyAddr_eq]
    exact hpairs e.order ho e he e' he' rfl ho'
  · have hlen : (entries k).length + 1 < fuel := by
      rwa [freeBlocks, List.length_map] at hfuel
    obtain ⟨p, -, hloop⟩ := mergeBlocksLoop_eq lay.region frees (le_refl order) horder hgood hguard hlen
    obtain ⟨p', -, hagain⟩ := mergeBlocksLoop_eq lay.region frees (le_refl order) horder hgood' hguard
      (Nat.lt_of_le_of_lt (Nat.succ_le_succ hbelow.blocks) hlen)
    rw [bind_ok hmerge, Outcome.after_nil, pure_apply] at hloop
    rw [bind_ok hidle, Outcome.after_nil, pure_apply] at hagain
    exact ⟨⟨p, hloop⟩, p', hagain⟩

/-- Two pages are allocated after boot and given back, next to the two pages that `split_blocks` has cut
off them. -/
theorem mergeBlocks_fixpoint_boot : ∃ k : Kernel Unit, (0x80920000, 1) ∈ freeBlocks k
    ∧ (getBuddyAddr 0x80920000 1, 1) ∈ freeBlocks k
    ∧ ∃ A k', MergedUp smallKernel A BUDDY_MAX_ORDER k k' := by
  have hrun : (bootCalls smallKernel (fun _ _ e => e) HeapEvent.harmless
      [.kmalloc 8192, .kfree 0x80920000]
      (pmInit smallKernel (kernelOps smallKernel) (bss ()))).any (fun h =>
        (0x80920000, 1) ∈ freeBlocks h.kernel
          ∧ (getBuddyAddr 0x80920000 1, 1) ∈ freeBlocks h.kernel) = true := by
    decide +kernel
  obtain ⟨h, hcalls, hcheck⟩ := (Option.any_eq_true _ _).mp hrun
  obtain ⟨hblock, hbuddy⟩ := of_decide_eq_true hcheck
  obtain ⟨A, good⟩ := (heapRun_inv (.of_boot HeapEvent.safe_of_harmless rfl hcalls)).good
  obtain ⟨k', hmerged, -⟩ := mergeBlocks_fixpoint (le_refl BUDDY_MAX_ORDER)
    (Partition.of_inv good.inv) good.owns
  exact ⟨h.kernel, hblock, hbuddy, A, k', hmerged⟩

end NoobKernel.Mm
