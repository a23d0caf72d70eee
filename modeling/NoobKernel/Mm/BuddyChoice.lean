import NoobKernel.Mm.BuddyRun

set_option autoImplicit false

/-! # Which block the buddy system hands out

`buddy_alloc` takes the first block of the list of the order. If there is none, the free blocks of
smaller orders are merged, and the result is a run of these (`merged_covered`); only if they have no
such run (`not_covered`) is the first block of the next larger order split, and its first part is
handed out (`splitDown_first`). So a block that has just been freed, and is the first of its list, is
handed out for a smaller order if and only if no smaller blocks serve (`buddyAlloc_part_iff`), and
for a larger order only as the beginning of a run (`buddyAlloc_whole`).
-/

namespace NoobKernel.Mm

open Misc Exec
open Dyadic hiding Mem

variable {E R : Type} {lay : Layout} {k k₁ k' : Kernel E} {A : List Block} {o p r : Nat}
  {rest : List Nat}

/-! ## Free blocks -/

theorem mem_freeBlocks {b : Block} : b ∈ freeBlocks k
    ↔ b.2 ≤ BUDDY_MAX_ORDER ∧ ∃ p ∈ k.buddyFreeList b.2, k.memBlock p = b.1 := by
  rw [freeBlocks, List.mem_map]
  constructor
  · rintro ⟨e, he, rfl⟩
    obtain ⟨hmax, hlist, hstart⟩ := mem_entries.mp he
    exact ⟨hmax, e.ptr, hlist, hstart.symm⟩
  · rintro ⟨hmax, p, hlist, hstart⟩
    exact ⟨_, mem_entries_of hmax hlist, Prod.ext hstart rfl⟩

section

variable (inv : BuddyInv lay.BUDDY_SYSTEM_BASE Layout.BUDDY_SYSTEM_END k A [])
include inv

theorem BuddyInv.tiles : Tiles PAGE_SHIFT lay.BUDDY_SYSTEM_BASE Layout.BUDDY_SYSTEM_END
    (freeBlocks k ++ A) := by
  have htiles := inv.records.tiles
  rwa [List.append_nil] at htiles

theorem BuddyInv.free_of_list (hp : p ∈ k.buddyFreeList o) : (k.memBlock p, o) ∈ freeBlocks k :=
  mem_freeBlocks.mpr ⟨inv.mem_list hp, p, hp, rfl⟩

theorem BuddyInv.free_aligned {b : Block} (hb : b ∈ freeBlocks k) : Aligned PAGE_SHIFT b :=
  inv.tiles.aligned b (List.mem_append_left _ hb)

/-- An address lies in one free block only. -/
theorem BuddyInv.free_unique {b b' : Block} (hb : b ∈ freeBlocks k) (hb' : b' ∈ freeBlocks k)
    {x : Nat} (hx : Dyadic.Mem PAGE_SHIFT b x) (hx' : Dyadic.Mem PAGE_SHIFT b' x) : b = b' :=
  inv.tiles.eq_of_mem (List.mem_append_left _ hb) (List.mem_append_left _ hb') hx hx'

/-- The start of a free block is not covered by smaller ones. -/
theorem BuddyInv.not_covered_start {b : Block} (hb : b ∈ freeBlocks k) {top : Nat} (htop : top ≤ b.2)
    (o : Nat) : ¬Covered PAGE_SHIFT (freeBlocks k) top (b.1, o) := by
  rintro ⟨-, hcover⟩
  obtain ⟨f, hf, hlt, hmem⟩ := hcover b.1 (mem_start (b.1, o))
  rw [inv.free_unique hf hb hmem (mem_start b)] at hlt
  exact absurd htop (Nat.not_le.mpr hlt)

end

/-! ## Merging -/

/-- Merging below an order changes no block above it. -/
theorem MergedBelow.large_iff (h : MergedBelow o k k₁) {b : Block} (hb : o < b.2) :
    b ∈ freeBlocks k₁ ↔ b ∈ freeBlocks k := by
  rw [mem_freeBlocks, mem_freeBlocks, h.list b.2 hb, h.memBlock]

section

variable (inv : BuddyInv lay.BUDDY_SYSTEM_BASE Layout.BUDDY_SYSTEM_END k A [])
  (inv₁ : BuddyInv lay.BUDDY_SYSTEM_BASE Layout.BUDDY_SYSTEM_END k₁ A [])
  (merged : MergedBelow o k k₁)
include inv inv₁ merged

/-- **A block that merging makes** is a run of smaller free blocks. -/
theorem merged_covered (hempty : k.buddyFreeList o = []) (hp : p ∈ k₁.buddyFreeList o) :
    Covered PAGE_SHIFT (freeBlocks k) o (k₁.memBlock p, o) := by
  have hfree := inv₁.free_of_list hp
  refine ⟨inv₁.free_aligned hfree, fun x hx => ?_⟩
  -- what is free has not changed, as nothing has been allocated
  obtain ⟨f, hf, hmem⟩ := (freeAt_iff inv.tiles x).mpr
    ((freeAt_iff inv₁.tiles x).mp ⟨_, hfree, hx⟩)
  refine ⟨f, hf, ?_, hmem⟩
  rcases Nat.lt_trichotomy f.2 o with hlt | heq | hgt
  · exact hlt
  · obtain ⟨-, q, hq, -⟩ := mem_freeBlocks.mp hf
    rw [heq, hempty] at hq
    cases hq
  · have heq := inv₁.free_unique ((merged.large_iff hgt).mpr hf) hfree hmem hx
    rw [heq] at hgt
    exact absurd hgt (lt_irrefl _)

/-- **If merging makes no block of the order**, the smaller free blocks have no run of it. -/
theorem not_covered (hnone : k₁.buddyFreeList o = []) (hpairs : ∀ i < o, NoPairs k₁ i) (a : Nat) :
    ¬Covered PAGE_SHIFT (freeBlocks k) o (a, o) := by
  rintro ⟨haligned, hcover⟩
  have hsmall : Covered PAGE_SHIFT (freeBlocks k₁) o (a, o) := by
    refine ⟨haligned, fun x hx => ?_⟩
    obtain ⟨f, hf, hlt, hmem⟩ := hcover x hx
    obtain ⟨g, hg, hxg⟩ := (freeAt_iff inv₁.tiles x).mpr
      ((freeAt_iff inv.tiles x).mp ⟨f, hf, hmem⟩)
    refine ⟨g, hg, ?_, hxg⟩
    rcases Nat.lt_trichotomy g.2 o with hlt' | heq | hgt
    · exact hlt'
    · obtain ⟨-, q, hq, -⟩ := mem_freeBlocks.mp hg
      rw [heq, hnone] at hq
      cases hq
    · rw [inv.free_unique ((merged.large_iff hgt).mp hg) hf hxg hmem] at hgt
      exact absurd hgt (Nat.not_lt.mpr hlt.le)
  obtain ⟨f, hf, hlt, hbuddy⟩ := hsmall.exists_buddies inv₁.tiles (le_refl o)
  obtain ⟨e, he, rfl⟩ := List.mem_map.mp hf
  obtain ⟨e', he', heq⟩ := List.mem_map.mp hbuddy
  exact hpairs e.order hlt e he e' he' rfl (congrArg Prod.snd heq) (congrArg Prod.fst heq)

end

/-! ## Splitting -/

/-- The allocator of `mem_block`s has some at hand (`stock n`: for `n` calls), which it hands out
without the help of the buddy system. -/
structure Supply (c : Contract E) (lay : Layout) (ops : MetaOps E R) (stock : Nat → Kernel E → Prop) :
    Prop where
  rest : ∀ {n k k'}, RestSame k k' → stock n k → stock n k'
  mono : ∀ {m n k}, m ≤ n → stock n k → stock m k
  alloc : ∀ {X k A q k' log n},
    Good c lay.BUDDY_SYSTEM_BASE Layout.BUDDY_SYSTEM_END k A (Option.toList X ++ []) →
    stock (n + 1) k → ops.allocMemBlock X k = .ok q k' log → BuddySame k k' ∧ stock n k'
  free : ∀ {k A p M k' log n}, c.Owns k A (p :: M) → stock n k →
    ops.freeMemBlock p k = .ok () k' log → stock n k'

/-- The contract together with what is at hand. -/
def Contract.stocked (c : Contract E) {stock : Kernel E → Prop}
    (hrest : ∀ {k k'}, RestSame k k' → stock k → stock k') : Contract E where
  Owns k A M := c.Owns k A M ∧ stock k
  Grows := c.Grows
  rest h howns := ⟨c.rest h howns.1, hrest h howns.2⟩
  subset hsub howns := ⟨c.subset hsub howns.1, howns.2⟩
  refl := c.refl
  trans := c.trans
  mono := c.mono

section

variable {pol : Policy R Fault} {c : Contract E} {ops : MetaOps E R}
  {stock : Nat → Kernel E → Prop}
  (spec : OpsSpec pol c lay.BUDDY_SYSTEM_BASE Layout.BUDDY_SYSTEM_END [] ops)
  (supply : Supply c lay ops stock)
include spec supply

/-- Merging uses nothing up. -/
theorem Supply.frees (n : Nat) : FreeSpec pol (c.stocked (supply.rest (n := n))) ops where
  free {k A p M} howns hp hpos := by
    refine (spec.free howns.1 hp hpos).mono_ok fun _ k' log hrun hpost => ?_
    obtain ⟨hsame, howns'⟩ := hpost
    exact ⟨hsame, howns', supply.free howns.1 howns.2 hrun⟩

/-- **The first part of the block** that is split is the first of the list of the order. -/
theorem splitDown_first {target n : Nat} (hmax : target + n ≤ BUDDY_MAX_ORDER)
    (h : Good c lay.BUDDY_SYSTEM_BASE Layout.BUDDY_SYSTEM_END k A []) (hstock : stock n k)
    (hlist : k.buddyFreeList (target + n) = p :: rest)
    (hempty : ∀ i, target ≤ i → i < target + n → k.buddyFreeList i = []) :
    Yields pol (splitDown ops target n k) fun _ k' =>
      (∃ rest', k'.buddyFreeList target = p :: rest') ∧ k'.memBlock p = k.memBlock p := by
  induction n generalizing k A rest with
  | zero => exact Yields.ok ⟨⟨rest, hlist⟩, rfl⟩
  | succ n ih =>
      have hp : p ∈ k.buddyFreeList (target + n + 1) := by
        rw [Nat.add_assoc, hlist]
        exact List.mem_cons_self
      unfold splitDown
      refine Yields.bind (splitOne_halves lay.region spec (by omega) h hlist) ?_
      rintro - k' ⟨-, ⟨A', -, hgood⟩, q, k₁, log, halloc, hne, halved⟩
      obtain ⟨hsame, hstock₁⟩ := supply.alloc (h.unlink hp)
        (supply.rest (restSame_unlink k p) hstock) halloc
      -- the nested call has left the lists alone, so those below are still empty
      have hlists : ∀ i, target ≤ i → i ≤ target + n → k₁.buddyFreeList i = [] := by
        intro i h₁ h₂
        rw [hsame.freeList]
        show (k.buddyFreeList i).erase p = []
        rw [hempty i h₁ (by omega)]
        rfl
      have hstart : k'.memBlock p = k.memBlock p := by
        rw [halved.memBlock, Function.update_of_ne hne, hsame.memBlock, Kernel.unlink_memBlock]
      have hlist' : k'.buddyFreeList (target + n) = [p, q] := by
        rw [halved.freeList, Function.update_self, hlists _ (Nat.le_add_right _ _) (le_refl _)]
        rfl
      refine (ih (by omega) hgood (supply.rest halved.rest hstock₁) hlist' ?_).mono ?_
      · intro i h₁ h₂
        rw [halved.freeList, Function.update_of_ne h₂.ne, hlists i h₁ h₂.le]
      · rintro - k₂ ⟨hfirst, hstart₂⟩
        exact ⟨hfirst, hstart₂.trans hstart⟩

/-- **The block that is split** is the first of the first list that is not empty. -/
theorem splitBlocks_first {j : Nat}
    (h : Good c lay.BUDDY_SYSTEM_BASE Layout.BUDDY_SYSTEM_END k A []) (hlt : o < j)
    (hlist : k.buddyFreeList j ≠ []) (hempty : k.buddyFreeList o = []) (hstock : stock (j - o) k) :
    Yields pol (splitBlocks ops o k) fun _ k' => k'.buddyLocked = k.buddyLocked
      ∧ (∃ A', Good c lay.BUDDY_SYSTEM_BASE Layout.BUDDY_SYSTEM_END k' A' [])
      ∧ ∃ s q rest rest', o < s ∧ k.buddyFreeList s = q :: rest
        ∧ (∀ i, o ≤ i → i < s → k.buddyFreeList i = [])
        ∧ k'.buddyFreeList o = q :: rest' ∧ k'.memBlock q = k.memBlock q := by
  have hj : j ≤ BUDDY_MAX_ORDER := Nat.le_of_not_lt fun hgt => hlist (h.inv.above j hgt)
  rw [splitBlocks, read_bind_apply]
  cases hsource : sourceOrder k.buddyFreeList (BUDDY_MAX_ORDER - o) (o + 1) with
  | none => exact absurd (sourceOrder_none hsource j (by omega) (by omega)) hlist
  | some s =>
      obtain ⟨hos, -, hne, hbefore⟩ := sourceOrder_some hsource
      obtain ⟨q, rest, hfirst⟩ := List.exists_cons_of_ne_nil hne
      have hsj : s ≤ j := Nat.le_of_not_lt fun hgt => hlist (hbefore j hlt hgt)
      have hbetween : ∀ i, o ≤ i → i < s → k.buddyFreeList i = [] := by
        intro i h₁ h₂
        rcases Nat.eq_or_lt_of_le h₁ with rfl | hlt'
        · exact hempty
        · exact hbefore i hlt' h₂
      have hsum : o + (s - o) = s := by omega
      have hdown := splitDown_spec lay.region spec (hsum.trans_le (hsj.trans hj)) h (by rwa [hsum])
      refine (hdown.and (splitDown_first spec supply (by omega) h
        (supply.mono (Nat.sub_le_sub_right hsj o) hstock) (by rwa [hsum]) (by rwa [hsum]))).mono ?_
      rintro - k' ⟨⟨hlocked, A', -, hgood, -⟩, ⟨rest', hlist'⟩, hstart⟩
      exact ⟨hlocked, ⟨A', hgood⟩, s, q, rest, rest', hos, hfirst, hbetween, hlist', hstart⟩

end

/-! ## Allocating -/

section

variable {ops : MetaOps E R} {log : List R}

theorem buddyAllocInner_first (hlist : k.buddyFreeList o = p :: rest)
    (hrun : buddyAllocInner ops o k = .ok r k' log) : r = k.memBlock p := by
  rw [buddyAllocInner, read_bind_apply, hlist, firstEntry, pure_bind_apply] at hrun
  obtain ⟨page, k₁, -, l₁, -, hrest⟩ := bind_ok_inv hrun
  split at hrest
  · cases hrest
  · obtain ⟨-, k₂, -, l₂, -, hrest⟩ := bind_ok_inv hrest
    obtain ⟨-, k₃, -, l₃, -, hrest⟩ := bind_ok_inv hrest
    obtain ⟨-, k₄, -, l₄, -, hrest⟩ := bind_ok_inv hrest
    obtain ⟨-, k₅, -, l₅, -, hrest⟩ := bind_ok_inv hrest
    cases hrest
    rfl

theorem buddyAllocNolock_first {size : Nat} (hlist : k.buddyFreeList (size2order size) = p :: rest)
    (hrun : buddyAllocNolock ops size k = .ok r k' log) : r = k.memBlock p := by
  have hne : k.buddyFreeList (size2order size) ≠ [] := by
    rw [hlist]
    exact List.cons_ne_nil _ _
  rw [buddyAllocNolock, read_bind_apply, if_pos hne] at hrun
  exact buddyAllocInner_first hlist hrun

/-- The lock does not matter. -/
theorem buddyAlloc_nolock {size : Nat} (hlo : PAGE_SIZE ≤ size) (hhi : size ≤ BUDDY_BLOB_SIZE)
    (hrun : buddyAlloc ops size k = .ok r k' log) :
    ∃ b k₁ log₁, buddyAllocNolock ops size { k with buddyLocked := b } = .ok r k₁ log₁ := by
  have hsize : ¬(size < PAGE_SIZE ∨ BUDDY_BLOB_SIZE < size) :=
    not_or.mpr ⟨Nat.not_lt.mpr hlo, Nat.not_lt.mpr hhi⟩
  rw [buddyAlloc, if_neg hsize, read_bind_apply] at hrun
  split at hrun
  · exact ⟨k.buddyLocked, k', log, hrun⟩
  · rename_i hlocked
    rw [bind_ok (lockBuddy_apply (Bool.eq_false_iff.mpr hlocked)), Outcome.after_nil] at hrun
    obtain ⟨addr, k₁, l₁, l₂, halloc, hrest⟩ := bind_ok_inv hrun
    obtain ⟨-, k₂, -, l₃, -, hrest⟩ := bind_ok_inv hrest
    cases hrest
    exact ⟨true, k₁, l₁, halloc⟩

/-- **`buddy_alloc`** returns the first block of the list, if there is one. -/
theorem buddyAlloc_first {size : Nat} (hlo : PAGE_SIZE ≤ size) (hhi : size ≤ BUDDY_BLOB_SIZE)
    (hlist : k.buddyFreeList (size2order size) = p :: rest)
    (hrun : buddyAlloc ops size k = .ok r k' log) : r = k.memBlock p := by
  obtain ⟨b, k₁, log₁, hnolock⟩ := buddyAlloc_nolock hlo hhi hrun
  exact buddyAllocNolock_first (k := { k with buddyLocked := b }) hlist hnolock

end

section

variable {pol : Policy R Fault} {c : Contract E} {ops : MetaOps E R}
  {stock : Nat → Kernel E → Prop} {size j : Nat}

theorem buddyAlloc_yields {Q : Nat → Prop} (hlo : PAGE_SIZE ≤ size) (hhi : size ≤ BUDDY_BLOB_SIZE)
    (h : ∀ b, Yields pol (buddyAllocNolock ops size { k with buddyLocked := b }) fun r k' =>
      k'.buddyLocked = b ∧ Q r) : Yields pol (buddyAlloc ops size k) fun r _ => Q r := by
  have hsize : ¬(size < PAGE_SIZE ∨ BUDDY_BLOB_SIZE < size) :=
    not_or.mpr ⟨Nat.not_lt.mpr hlo, Nat.not_lt.mpr hhi⟩
  rw [buddyAlloc, if_neg hsize, read_bind_apply]
  split
  · exact (h k.buddyLocked).mono fun _ _ h => h.2
  · rename_i hlocked
    rw [bind_ok (lockBuddy_apply (Bool.eq_false_iff.mpr hlocked)), Outcome.after_nil]
    refine Yields.bind (h true) ?_
    rintro r k₁ ⟨hheld, hQ⟩
    rw [bind_ok (unlockBuddy_apply hheld), Outcome.after_nil]
    exact Yields.pure hQ

/-- The first block of the list of the order `s`, the least from `o` on that is not empty, is that of
the order `j` if and only if the blocks below `j` have no run of the order `o`. -/
theorem source_iff {s q : Nat} (inv : BuddyInv lay.BUDDY_SYSTEM_BASE Layout.BUDDY_SYSTEM_END k A [])
    (hlist : k.buddyFreeList j = p :: rest) {rest' : List Nat}
    (hsource : k.buddyFreeList s = q :: rest') (hos : o ≤ s) (hoj : o ≤ j)
    (hempty : ∀ i, o ≤ i → i < s → k.buddyFreeList i = [])
    (hnone : ∀ a, ¬Covered PAGE_SHIFT (freeBlocks k) o (a, o)) :
    k.memBlock q = k.memBlock p ↔ ∀ a, ¬Covered PAGE_SHIFT (freeBlocks k) j (a, o) := by
  have hp := inv.free_of_list (p := p) (o := j) (by rw [hlist]; exact List.mem_cons_self)
  have hq := inv.free_of_list (p := q) (o := s) (by rw [hsource]; exact List.mem_cons_self)
  have hle : s ≤ j := Nat.le_of_not_lt fun hlt => by
    rw [hempty j hoj hlt] at hlist
    cases hlist
  rcases Nat.eq_or_lt_of_le hle with rfl | hlt
  · rw [hlist] at hsource
    cases hsource
    refine iff_of_true rfl fun a hcover => hnone a ⟨hcover.1, fun x hx => ?_⟩
    obtain ⟨f, hf, hlt, hmem⟩ := hcover.2 x hx
    refine ⟨f, hf, Nat.lt_of_not_le fun hof => ?_, hmem⟩
    obtain ⟨-, p', hp', -⟩ := mem_freeBlocks.mp hf
    rw [hempty f.2 hof hlt] at hp'
    cases hp'
  · refine iff_of_false (fun heq => hlt.ne ?_) fun hno => hno (k.memBlock q)
      (.of_mem hq (inv.free_aligned hq) hlt hos)
    have hmem : Dyadic.Mem PAGE_SHIFT (k.memBlock p, j) (k.memBlock q) := by
      rw [heq]
      exact mem_start (k.memBlock p, j)
    exact congrArg Prod.snd (inv.free_unique hq hp (mem_start (k.memBlock q, s)) hmem)


section

variable (spec : OpsSpec pol c lay.BUDDY_SYSTEM_BASE Layout.BUDDY_SYSTEM_END [] ops)
  (hlo : PAGE_SIZE ≤ size) (hhi : size ≤ BUDDY_BLOB_SIZE)
  (h : Good c lay.BUDDY_SYSTEM_BASE Layout.BUDDY_SYSTEM_END k A [])
include spec hlo hhi h

/-- **The first block of a larger order** is split for the order of `size` if and only if the smaller
free blocks have no run of this order. -/
theorem buddyAllocNolock_part_iff (supply : Supply c lay ops stock)
    (hlist : k.buddyFreeList j = p :: rest) (hlt : size2order size < j)
    (hstock : stock (j - size2order size) k) :
    Yields pol (buddyAllocNolock ops size k) fun r k' => k'.buddyLocked = k.buddyLocked
      ∧ (r = k.memBlock p
        ↔ ∀ a, ¬Covered PAGE_SHIFT (freeBlocks k) j (a, size2order size)) := by
  have hp := h.inv.free_of_list (p := p) (o := j) (by rw [hlist]; exact List.mem_cons_self)
  have hmax := (size2order_spec hlo hhi).1
  generalize hord : size2order size = o at hlt hstock hmax ⊢
  unfold buddyAllocNolock
  rw [hord, read_bind_apply]
  by_cases hempty : k.buddyFreeList o = []
  · rw [if_neg (not_not.mpr hempty)]
    have hstocked : Good (c.stocked (supply.rest (n := j - o))) lay.BUDDY_SYSTEM_BASE
        Layout.BUDDY_SYSTEM_END k A [] := ⟨h.inv, h.owns, hstock⟩
    refine Yields.bind (mergeBlocks_spec lay.region (supply.frees spec (j - o)) (le_refl o) hmax
      hstocked fun e he => by cases he) ?_
    rintro - k₁ ⟨⟨inv₁, howns₁, hstock₁⟩, hbelow, hpairs⟩
    have hgood₁ : Good c lay.BUDDY_SYSTEM_BASE Layout.BUDDY_SYSTEM_END k₁ A [] := ⟨inv₁, howns₁⟩
    rw [read_bind_apply]
    by_cases hempty₁ : k₁.buddyFreeList o = []
    · rw [if_neg (not_not.mpr hempty₁)]
      have hlist₁ := (hbelow.list j hlt).trans hlist
      refine Yields.bind (splitBlocks_first spec supply hgood₁ hlt
        (by rw [hlist₁]; exact List.cons_ne_nil _ _) hempty₁ hstock₁) ?_
      rintro - k₂ ⟨hlocked₂, ⟨A₂, hgood₂⟩, s, q, rest₁, rest₂, hos, hsource, hbefore, hlist₂, hstart⟩
      have hne₂ : k₂.buddyFreeList o ≠ [] := by
        rw [hlist₂]
        exact List.cons_ne_nil _ _
      rw [read_bind_apply, if_pos hne₂]
      refine (buddyAllocInner_spec lay.region spec hgood₂ hne₂).mono_ok
        fun r k₃ log hrun hpost => ⟨hpost.1.trans (hlocked₂.trans hbelow.locked), ?_⟩
      rw [buddyAllocInner_first hlist₂ hrun, hstart, hbelow.memBlock]
      refine source_iff h.inv hlist ((hbelow.list s hos).symm.trans hsource) hos.le hlt.le
        (fun i h₁ h₂ => ?_) (not_covered h.inv inv₁ hbelow hempty₁ hpairs)
      rcases Nat.eq_or_lt_of_le h₁ with rfl | hlt'
      · exact hempty
      · exact (hbelow.list i hlt').symm.trans (hbefore i h₁ h₂)
    · rw [if_pos hempty₁]
      obtain ⟨q, rest', hlist₁⟩ := List.exists_cons_of_ne_nil hempty₁
      have hcover := merged_covered h.inv inv₁ hbelow hempty (p := q) (by
        rw [hlist₁]
        exact List.mem_cons_self)
      refine (buddyAllocInner_spec lay.region spec hgood₁ hempty₁).mono_ok fun r k₂ log hrun hpost =>
        ⟨hpost.1.trans hbelow.locked, ?_⟩
      rw [buddyAllocInner_first hlist₁ hrun]
      refine iff_of_false (fun heq => ?_) fun hno => hno _ (hcover.mono hlt.le)
      rw [heq] at hcover
      exact h.inv.not_covered_start hp hlt.le o hcover
  · rw [if_pos hempty]
    obtain ⟨q, rest', hlist'⟩ := List.exists_cons_of_ne_nil hempty
    have hq := h.inv.free_of_list (p := q) (o := o) (by rw [hlist']; exact List.mem_cons_self)
    refine (buddyAllocInner_spec lay.region spec h hempty).mono_ok fun r k₁ log hrun hpost =>
      ⟨hpost.1, ?_⟩
    rw [buddyAllocInner_first hlist' hrun]
    have hcover : Covered PAGE_SHIFT (freeBlocks k) j (k.memBlock q, o) :=
      .of_mem hq (h.inv.free_aligned hq) hlt (le_refl o)
    refine iff_of_false (fun heq => ?_) fun hno => hno _ hcover
    rw [heq] at hcover
    exact h.inv.not_covered_start hp (le_refl j) o hcover

theorem buddyAlloc_part_iff (supply : Supply c lay ops stock)
    (hlist : k.buddyFreeList j = p :: rest) (hlt : size2order size < j)
    (hstock : stock (j - size2order size) k) :
    Yields pol (buddyAlloc ops size k) fun r _ => r = k.memBlock p
      ↔ ∀ a, ¬Covered PAGE_SHIFT (freeBlocks k) j (a, size2order size) :=
  buddyAlloc_yields hlo hhi fun b => buddyAllocNolock_part_iff spec hlo hhi (h.set_locked b) supply
    hlist hlt (supply.rest (restSame_locked k b) hstock)

/-- **A run of smaller blocks** is handed out if it is the only free one of its order. -/
theorem buddyAllocNolock_whole {a : Nat}
    (hcover : Covered PAGE_SHIFT (freeBlocks k) (size2order size) (a, size2order size))
    (honly : ∀ a', Covered PAGE_SHIFT (freeBlocks k) (size2order size + 1) (a', size2order size) →
      a' = a) :
    Yields pol (buddyAllocNolock ops size k) fun r k' => k'.buddyLocked = k.buddyLocked ∧ r = a := by
  have hmax := (size2order_spec hlo hhi).1
  generalize hord : size2order size = o at hcover honly hmax
  unfold buddyAllocNolock
  rw [hord, read_bind_apply]
  by_cases hempty : k.buddyFreeList o = []
  · rw [if_neg (not_not.mpr hempty)]
    refine Yields.bind (mergeBlocks_spec lay.region spec.frees (le_refl o) hmax h
      fun e he => by cases he) ?_
    rintro - k₁ ⟨hgood₁, hbelow, hpairs⟩
    have hempty₁ : k₁.buddyFreeList o ≠ [] := fun hnil =>
      not_covered h.inv hgood₁.inv hbelow hnil hpairs a hcover
    obtain ⟨q, rest', hlist₁⟩ := List.exists_cons_of_ne_nil hempty₁
    have hmade := merged_covered h.inv hgood₁.inv hbelow hempty (p := q) (by
      rw [hlist₁]
      exact List.mem_cons_self)
    rw [read_bind_apply, if_pos hempty₁]
    refine (buddyAllocInner_spec lay.region spec hgood₁ hempty₁).mono_ok fun r k₂ log hrun hpost =>
      ⟨hpost.1.trans hbelow.locked, ?_⟩
    rw [buddyAllocInner_first hlist₁ hrun]
    exact honly _ (hmade.mono (Nat.le_succ o))
  · -- a block of the order would be another run
    obtain ⟨q, rest', hlist'⟩ := List.exists_cons_of_ne_nil hempty
    have hq := h.inv.free_of_list (p := q) (o := o) (by rw [hlist']; exact List.mem_cons_self)
    have heq := honly _ (.of_mem hq (h.inv.free_aligned hq) (Nat.lt_succ_self o) (le_refl o))
    rw [← heq] at hcover
    exact absurd hcover (h.inv.not_covered_start hq (le_refl o) o)

theorem buddyAlloc_whole {a : Nat}
    (hcover : Covered PAGE_SHIFT (freeBlocks k) (size2order size) (a, size2order size))
    (honly : ∀ a', Covered PAGE_SHIFT (freeBlocks k) (size2order size + 1) (a', size2order size) →
      a' = a) : Yields pol (buddyAlloc ops size k) fun r _ => r = a :=
  buddyAlloc_yields hlo hhi fun b =>
    buddyAllocNolock_whole spec hlo hhi (h.set_locked b) hcover honly

/-- The start of a smaller free block is handed out only as the beginning of such a run. -/
theorem buddyAlloc_covered {b : Block} (hb : b ∈ freeBlocks k) (hlt : b.2 < size2order size) :
    Yields pol (buddyAlloc ops size k) fun r _ => r = b.1 →
      Covered PAGE_SHIFT (freeBlocks k) (size2order size) (b.1, size2order size) := by
  have hpos : b.1 ≠ 0 := lay.region.pos (h.inv.records.pageIn (List.mem_append_left _ (by
    rw [List.append_nil]
    exact hb)))
  refine (buddyAlloc_spec lay.region spec hlo hhi h (Or.inr fun e he => by cases he)).mono ?_
  rintro r k' ⟨-, A', hgrows, -, hres⟩ rfl
  rcases hres with ⟨hr, -⟩ | ⟨-, inv'⟩
  · exact absurd hr hpos
  have hmem : (b.1, size2order size) ∈ freeBlocks k' ++ (b.1, size2order size) :: A' := by simp
  have haligned := inv'.tiles.aligned _ hmem
  refine ⟨haligned, fun x hx => ?_⟩
  -- what is handed out was not allocated before
  obtain ⟨f, hf, hxf⟩ := (freeAt_iff h.inv.tiles x).mpr
    ⟨(inv'.tiles.cover x).mpr ⟨_, hmem, hx⟩, fun ⟨d, hd, hxd⟩ => by
      have hpair := (List.pairwise_append.mp inv'.tiles.apart).2.1
      exact (List.pairwise_cons.mp hpair).1 d (c.mono hgrows hd) x hx hxd⟩
  refine ⟨f, hf, Nat.lt_of_not_le fun hle => ?_, hxf⟩
  have hstart := mem_of_mem haligned (h.inv.free_aligned hf) hle hx hxf
    (mem_start (b.1, size2order size))
  rw [h.inv.free_unique hf hb hstart (mem_start b)] at hle
  exact absurd hlt (Nat.not_lt.mpr hle)

end

/-! ## Freeing -/

theorem Relisted.first {b : Block} {q : Nat} (h : Relisted b q k k') :
    ∃ rest, k'.buddyFreeList b.2 = q :: rest ∧ k'.memBlock q = b.1 := by
  refine ⟨k.buddyFreeList b.2, ?_, ?_⟩
  · rw [h.freeList, Function.update_self]
  · rw [h.memBlock, Function.update_self]

theorem Relisted.freeBlocks {b : Block} {q : Nat} (h : Relisted b q k k') (hmax : b.2 ≤ BUDDY_MAX_ORDER)
    (hq : q ∉ ptrs k []) : (freeBlocks k').Perm (b :: Mm.freeBlocks k) := by
  have hentries := BuddyInv.entries_setList (k.setStart q b.1) k' (p := q) hmax (List.Perm.refl _)
    h.freeList h.memBlock
  have hstart : (k.setStart q b.1).memBlock q = b.1 := Function.update_self _ _ _
  rw [BuddyInv.entries_setStart hq, hstart] at hentries
  exact hentries.map Entry.block

/-- **`buddy_free`**, with `mem_block`s at hand, makes the block the first of its list and changes no
other free block. -/
theorem buddyFree_blocks (spec : OpsSpec pol c lay.BUDDY_SYSTEM_BASE Layout.BUDDY_SYSTEM_END [] ops)
    (supply : Supply c lay ops stock) {b : Block} {n : Nat} (hb : b ∈ A)
    (h : Good c lay.BUDDY_SYSTEM_BASE Layout.BUDDY_SYSTEM_END k A [])
    (hlocked : k.buddyLocked = false) (hstock : stock (n + 1) k) :
    Yields pol (buddyFree ops b.1 k) fun _ k' => stock n k'
      ∧ (∃ q rest, k'.buddyFreeList b.2 = q :: rest ∧ k'.memBlock q = b.1)
      ∧ (freeBlocks k').Perm (b :: freeBlocks k) := by
  refine (buddyFree_relists lay.region spec hb h hlocked).mono ?_
  rintro - k' ⟨-, ⟨q, k₁, log, halloc, hq, hlisted⟩, -⟩
  obtain ⟨hsame, hstock₁⟩ := supply.alloc (X := none) h hstock halloc
  have hmax : b.2 ≤ BUDDY_MAX_ORDER := h.inv.records.le_max b (List.mem_append_right _ hb)
  have hblocks := hlisted.freeBlocks hmax hq
  have hentries : freeBlocks k₁ = freeBlocks k := by
    rw [Mm.freeBlocks, Mm.freeBlocks, entries_congr hsame.freeList hsame.memBlock]
  rw [hentries] at hblocks
  exact ⟨supply.rest hlisted.rest hstock₁, ⟨q, hlisted.first⟩, hblocks⟩

end

end NoobKernel.Mm
