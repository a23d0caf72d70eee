import NoobKernel.Mm.Buddy

set_option autoImplicit false

/-! # The invariant of the buddy system

The free blocks, those held by a suspended operation and the allocated ones tile the region of
the buddy system, and the pages at their heads say which is which. `Records` states this about
the pages and a list of entries, `BuddyInv` about a kernel whose lists hold these entries,
except for the ones of `S` that an operation has taken off its list and not yet put back.
-/

namespace NoobKernel.Mm

open Misc Exec
open Dyadic hiding Mem

variable {E R : Type} {lo hi : Nat}

/-- Bounds of a region made of whole blobs of the memory. -/
structure Region (lo hi : Nat) : Prop where
  start_le : PM_START ≤ lo
  le_end : hi ≤ PM_END
  lo_dvd : BUDDY_BLOB_SIZE ∣ lo
  hi_dvd : BUDDY_BLOB_SIZE ∣ hi

/-- The address of a page of the region. -/
def PageIn (lo hi a : Nat) : Prop := PAGE_SIZE ∣ a ∧ lo ≤ a ∧ a < hi

theorem page_dvd {b : Block} (h : Aligned PAGE_SHIFT b) : PAGE_SIZE ∣ b.1 :=
  (size_dvd (u := PAGE_SHIFT) (Nat.zero_le b.2)).trans h

/-- Blocks smaller than a blob have their buddy in the region. -/
theorem Region.buddy (reg : Region lo hi) {a o : Nat} (ha : Aligned PAGE_SHIFT (a, o))
    (hin : lo ≤ a ∧ a < hi) (ho : o < BUDDY_MAX_ORDER) :
    lo ≤ buddy PAGE_SHIFT a o ∧ buddy PAGE_SHIFT a o < hi := by
  have hblob : BUDDY_BLOB_SIZE = size PAGE_SHIFT BUDDY_MAX_ORDER := rfl
  have hpos : 0 < BUDDY_BLOB_SIZE := by decide
  obtain ⟨l, rfl⟩ := reg.lo_dvd
  obtain ⟨h, rfl⟩ := reg.hi_dvd
  -- the blob of `a` contains the parent of the two buddies
  have halign : Aligned PAGE_SHIFT (BUDDY_BLOB_SIZE * (a / BUDDY_BLOB_SIZE), BUDDY_MAX_ORDER) :=
    ⟨a / BUDDY_BLOB_SIZE, rfl⟩
  have hpar := mem_parent_iff ha
  have hablob : Dyadic.Mem PAGE_SHIFT (BUDDY_BLOB_SIZE * (a / BUDDY_BLOB_SIZE), BUDDY_MAX_ORDER) a := by
    constructor
    · exact Nat.mul_div_le a _
    · show a < BUDDY_BLOB_SIZE * (a / BUDDY_BLOB_SIZE) + size PAGE_SHIFT BUDDY_MAX_ORDER
      rw [← hblob]
      exact Nat.lt_mul_div_succ a hpos
  have hmem := mem_of_mem ha.parent halign ho ((hpar a).mpr (Or.inl (mem_start (a, o)))) hablob
    ((hpar _).mpr (Or.inr (mem_start (buddy PAGE_SHIFT a o, o))))
  obtain ⟨h₁, h₂⟩ := hmem
  rw [← hblob] at h₂
  have hl : l ≤ a / BUDDY_BLOB_SIZE := (Nat.le_div_iff_mul_le hpos).mpr (by rw [Nat.mul_comm]; exact hin.1)
  have hh : a / BUDDY_BLOB_SIZE + 1 ≤ h := (Nat.div_lt_iff_lt_mul hpos).mpr (by rw [Nat.mul_comm]; exact hin.2)
  constructor
  · exact (Nat.mul_le_mul_left _ hl).trans h₁
  · exact Nat.lt_of_lt_of_le h₂ (Nat.mul_le_mul_left _ hh)

/-! ## Entries, allocated blocks and their pages -/

/-- The entries `L` and the allocated blocks `A` tile the region; the head of an entry's block
carries its order and its address, the head of an allocated block its order and no entry, and
no other page has an entry. -/
structure Records (lo hi : Nat) (page : Nat → Page) (L : List Entry) (A : List Block) : Prop where
  tiles : Tiles PAGE_SHIFT lo hi (L.map Entry.block ++ A)
  nodup : (L.map Entry.ptr).Nodup
  ptr_ne : ∀ e ∈ L, e.ptr ≠ 0
  le_max : ∀ b ∈ L.map Entry.block ++ A, b.2 ≤ BUDDY_MAX_ORDER
  entry : ∀ e ∈ L, (page e.start).order = e.order ∧ (page e.start).priv = e.ptr
  allocated : ∀ b ∈ A, (page b.1).order = b.2 ∧ (page b.1).priv = 0
  head : ∀ a, PageIn lo hi a → (page a).priv ≠ 0 → ∃ e ∈ L, e.start = a

namespace Records

variable {page page' : Nat → Page} {L L' old new : List Entry} {A A' oldA newA : List Block}

theorem perm (h : Records lo hi page L A) (hL : L.Perm L') (hA : A.Perm A') :
    Records lo hi page L' A' where
  tiles := h.tiles.perm ((hL.map _).append hA)
  nodup := (hL.map _).nodup_iff.mp h.nodup
  ptr_ne e he := h.ptr_ne e (hL.mem_iff.mpr he)
  le_max b hb := h.le_max b (((hL.map _).append hA).mem_iff.mpr hb)
  entry e he := h.entry e (hL.mem_iff.mpr he)
  allocated b hb := h.allocated b (hA.mem_iff.mpr hb)
  head a ha hp := by
    obtain ⟨e, he, heq⟩ := h.head a ha hp
    exact ⟨e, hL.mem_iff.mp he, heq⟩

theorem aligned (h : Records lo hi page L A) {b : Block} (hb : b ∈ L.map Entry.block ++ A) :
    Aligned PAGE_SHIFT b := h.tiles.aligned b hb

theorem pageIn (h : Records lo hi page L A) {b : Block} (hb : b ∈ L.map Entry.block ++ A) :
    PageIn lo hi b.1 :=
  ⟨page_dvd (h.aligned hb), (h.tiles.cover b.1).mpr ⟨b, hb, mem_start b⟩⟩

theorem pageIn_entry (h : Records lo hi page L A) {e : Entry} (he : e ∈ L) :
    PageIn lo hi e.start :=
  h.pageIn (List.mem_append_left _ (List.mem_map_of_mem he))

theorem aligned_entry (h : Records lo hi page L A) {e : Entry} (he : e ∈ L) :
    Aligned PAGE_SHIFT (e.start, e.order) :=
  h.aligned (List.mem_append_left _ (List.mem_map_of_mem he))

/-- Only orders and entries of pages matter. -/
theorem congr (h : Records lo hi page L A) (same : ∀ a, PageIn lo hi a →
    (page' a).order = (page a).order ∧ (page' a).priv = (page a).priv) :
    Records lo hi page' L A where
  tiles := h.tiles
  nodup := h.nodup
  ptr_ne := h.ptr_ne
  le_max := h.le_max
  entry e he := by
    obtain ⟨horder, hpriv⟩ := same _ (h.pageIn_entry he)
    rw [horder, hpriv]
    exact h.entry e he
  allocated b hb := by
    obtain ⟨horder, hpriv⟩ := same _ (h.pageIn (List.mem_append_right _ hb))
    rw [horder, hpriv]
    exact h.allocated b hb
  head a ha hp := by
    rw [(same a ha).2] at hp
    exact h.head a ha hp

/-- An entry's block and an allocated block have no byte in common. -/
theorem entry_apart (h : Records lo hi page L A) {e : Entry} {b : Block} (he : e ∈ L) (hb : b ∈ A)
    {x : Nat} (hxe : Dyadic.Mem PAGE_SHIFT e.block x) (hxb : Dyadic.Mem PAGE_SHIFT b x) : False := by
  have heq := h.tiles.eq_of_mem (List.mem_append_left _ (List.mem_map_of_mem he))
    (List.mem_append_right _ hb) hxe hxb
  have hpriv := (h.allocated b hb).2
  rw [← heq] at hpriv
  exact h.ptr_ne e he ((h.entry e he).2.symm.trans hpriv)

/-- **Replacing blocks by others that cover the same memory**, when only pages of the old
blocks change, their heads among them. -/
theorem replace (T : List Nat) (h : Records lo hi page (old ++ L) (oldA ++ A))
    (tiles : Tiles PAGE_SHIFT lo hi ((new ++ L).map Entry.block ++ (newA ++ A)))
    (covered : ∀ x ∈ T, ∃ b ∈ old.map Entry.block ++ oldA, Dyadic.Mem PAGE_SHIFT b x)
    (heads : ∀ e ∈ old, e.start ∈ T)
    (same : ∀ x, PageIn lo hi x → x ∉ T → page' x = page x)
    (head : ∀ x ∈ T, (page' x).priv ≠ 0 → ∃ e ∈ new, e.start = x)
    (entry : ∀ e ∈ new, (page' e.start).order = e.order ∧ (page' e.start).priv = e.ptr)
    (allocated : ∀ b ∈ newA, (page' b.1).order = b.2 ∧ (page' b.1).priv = 0)
    (nodup : ((new ++ L).map Entry.ptr).Nodup) (ptr_ne : ∀ e ∈ new, e.ptr ≠ 0)
    (le_max : ∀ b ∈ new.map Entry.block ++ newA, b.2 ≤ BUDDY_MAX_ORDER) :
    Records lo hi page' (new ++ L) (newA ++ A) := by
  -- what is kept has no page among the old blocks
  have hkept : ∀ b ∈ L.map Entry.block ++ A, b.1 ∉ T := by
    intro b hb hmem
    obtain ⟨c, hc, hcx⟩ := covered _ hmem
    have hpair := h.tiles.apart
    rw [List.map_append, List.append_assoc] at hpair
    have hperm : (old.map Entry.block ++ (L.map Entry.block ++ (oldA ++ A))).Perm
        ((old.map Entry.block ++ oldA) ++ (L.map Entry.block ++ A)) := by
      rw [List.append_assoc]
      refine List.Perm.append_left _ ?_
      rw [← List.append_assoc, ← List.append_assoc]
      exact List.Perm.append_right _ List.perm_append_comm
    have hpair' := (hperm.pairwise_iff Apart.symm).mp hpair
    exact (List.pairwise_append.mp hpair').2.2 c hc b hb b.1 hcx (mem_start b)
  refine ⟨tiles, nodup, ?_, ?_, ?_, ?_, ?_⟩
  · intro e he
    rcases List.mem_append.mp he with he | he
    · exact ptr_ne e he
    · exact h.ptr_ne e (List.mem_append_right _ he)
  · intro b hb
    simp only [List.map_append, List.mem_append] at hb
    have hmax := h.le_max b
    have hnew := le_max b
    simp only [List.map_append, List.mem_append] at hmax hnew
    rcases hb with (hb | hb) | (hb | hb)
    · exact hnew (Or.inl hb)
    · exact hmax (Or.inl (Or.inr hb))
    · exact hnew (Or.inr hb)
    · exact hmax (Or.inr (Or.inr hb))
  · intro e he
    rcases List.mem_append.mp he with he | he
    · exact entry e he
    · rw [same _ (h.pageIn_entry (List.mem_append_right _ he))
        (hkept _ (List.mem_append_left _ (List.mem_map_of_mem he)))]
      exact h.entry e (List.mem_append_right _ he)
  · intro b hb
    rcases List.mem_append.mp hb with hb | hb
    · exact allocated b hb
    · rw [same _ (h.pageIn (List.mem_append_right _ (List.mem_append_right _ hb)))
        (hkept _ (List.mem_append_right _ hb))]
      exact h.allocated b (List.mem_append_right _ hb)
  · intro a ha hp
    by_cases hT : a ∈ T
    · obtain ⟨e, he, heq⟩ := head a hT hp
      exact ⟨e, List.mem_append_left _ he, heq⟩
    · rw [same a ha hT] at hp
      obtain ⟨e, he, heq⟩ := h.head a ha hp
      rcases List.mem_append.mp he with he | he
      · exact absurd (heq ▸ heads e he) hT
      · exact ⟨e, List.mem_append_right _ he, heq⟩

/-- Two free buddies become one free block. -/
theorem join {g s : Entry} (h : Records lo hi page (g :: s :: L) A)
    (hg : g.start = buddy PAGE_SHIFT s.start s.order) (ho : g.order = s.order)
    (hlt : s.order < BUDDY_MAX_ORDER) (hle : s.start < g.start)
    (same : ∀ x, PageIn lo hi x → x ≠ g.start → x ≠ s.start → page' x = page x)
    (gone : (page' g.start).priv = 0)
    (kept : (page' s.start).order = s.order + 1 ∧ (page' s.start).priv = s.ptr) :
    Records lo hi page' (⟨s.ptr, s.start, s.order + 1⟩ :: L) A := by
  have hmin : min s.start (buddy PAGE_SHIFT s.start s.order) = s.start :=
    Nat.min_eq_left (hg ▸ hle.le)
  -- as tiles the two blocks make one of the next order
  have htiles : Tiles PAGE_SHIFT lo hi ((s.start, s.order) ::
      (buddy PAGE_SHIFT s.start s.order, s.order) :: (L.map Entry.block ++ A)) := by
    have := h.tiles.perm (List.Perm.swap s.block g.block (L.map Entry.block ++ A))
    rwa [Entry.block, Entry.block, hg, ho] at this
  refine @replace lo hi page page' L [g, s] [⟨s.ptr, s.start, s.order + 1⟩] A [] []
    [g.start, s.start] h ?_ ?_ ?_ ?_ ?_ ?_ ?_ ?_ ?_ ?_
  · have := htiles.join
    rwa [hmin] at this
  · simp only [List.mem_cons, List.not_mem_nil, or_false, List.map_cons, List.map_nil,
      List.append_nil]
    rintro x (rfl | rfl)
    · exact ⟨g.block, Or.inl rfl, mem_start g.block⟩
    · exact ⟨s.block, Or.inr rfl, mem_start s.block⟩
  · simp
  · intro x hx hT
    simp only [List.mem_cons, List.not_mem_nil, or_false, not_or] at hT
    exact same x hx hT.1 hT.2
  · simp only [List.mem_cons, List.not_mem_nil, or_false]
    rintro x (rfl | rfl) hp
    · exact absurd gone hp
    · exact ⟨_, rfl, rfl⟩
  · simpa using kept
  · simp
  · have hnd := h.nodup
    simp only [List.map_cons, List.nodup_cons] at hnd
    simpa using hnd.2
  · simpa using h.ptr_ne s (by simp)
  · simpa [Entry.block] using hlt

/-- A free block becomes two free buddies. -/
theorem split {e : Entry} {n q : Nat} (h : Records lo hi page (e :: L) A) (ho : e.order = n + 1)
    (hq : q ≠ 0) (hfresh : q ∉ (e :: L).map Entry.ptr)
    (same : ∀ x, PageIn lo hi x → x ≠ e.start → x ≠ buddy PAGE_SHIFT e.start n → page' x = page x)
    (first : (page' e.start).order = n ∧ (page' e.start).priv = e.ptr)
    (second : (page' (buddy PAGE_SHIFT e.start n)).order = n
      ∧ (page' (buddy PAGE_SHIFT e.start n)).priv = q) :
    Records lo hi page' (⟨e.ptr, e.start, n⟩ :: ⟨q, buddy PAGE_SHIFT e.start n, n⟩ :: L) A := by
  have htiles : Tiles PAGE_SHIFT lo hi ((e.start, n + 1) :: (L.map Entry.block ++ A)) := by
    have := h.tiles
    rwa [List.map_cons, Entry.block, ho] at this
  have hal : Aligned PAGE_SHIFT (e.start, n + 1) := htiles.aligned _ List.mem_cons_self
  -- the two pages that are written belong to the block
  have hmem : Dyadic.Mem PAGE_SHIFT e.block (buddy PAGE_SHIFT e.start n) := by
    have hb := hal.buddy_of_succ
    have hs := size_succ (u := PAGE_SHIFT) n
    have hp := size_pos (u := PAGE_SHIFT) n
    rw [Entry.block, ho, Dyadic.Mem, hb, hs]
    dsimp only
    omega
  refine @replace lo hi page page' L [e]
    [⟨e.ptr, e.start, n⟩, ⟨q, buddy PAGE_SHIFT e.start n, n⟩] A [] []
    [e.start, buddy PAGE_SHIFT e.start n] h htiles.halve ?_ ?_ ?_ ?_ ?_ ?_ ?_ ?_ ?_
  · simp only [List.mem_cons, List.not_mem_nil, or_false, List.map_cons, List.map_nil,
      List.append_nil]
    rintro x (rfl | rfl)
    · exact ⟨e.block, rfl, mem_start e.block⟩
    · exact ⟨e.block, rfl, hmem⟩
  · simp
  · intro x hx hT
    simp only [List.mem_cons, List.not_mem_nil, or_false, not_or] at hT
    exact same x hx hT.1 hT.2
  · simp only [List.mem_cons, List.not_mem_nil, or_false]
    rintro x (rfl | rfl) -
    · exact ⟨_, Or.inl rfl, rfl⟩
    · exact ⟨_, Or.inr rfl, rfl⟩
  · simpa using ⟨first, second⟩
  · simp
  · have hnd := h.nodup
    simp only [List.map_cons, List.nodup_cons, List.mem_cons, not_or] at hnd hfresh
    simpa using ⟨⟨Ne.symm hfresh.1, by simpa using hnd.1⟩, by simpa using hfresh.2, hnd.2⟩
  · simpa using ⟨h.ptr_ne e (by simp), hq⟩
  · have := h.le_max e.block (by simp)
    rw [Entry.block, ho] at this
    dsimp only at this
    simpa [Entry.block] using by omega

/-- A free block is handed out. -/
theorem take {e : Entry} (h : Records lo hi page (e :: L) A)
    (same : ∀ x, PageIn lo hi x → x ≠ e.start → page' x = page x)
    (gone : (page' e.start).order = e.order ∧ (page' e.start).priv = 0) :
    Records lo hi page' L (e.block :: A) := by
  refine @replace lo hi page page' L [e] [] A [] [e.block] [e.start] h ?_ ?_ ?_ ?_ ?_ ?_ ?_ ?_ ?_ ?_
  · exact h.tiles.perm List.perm_middle.symm
  · simp only [List.mem_singleton, List.map_cons, List.map_nil, List.append_nil]
    rintro x rfl
    exact ⟨e.block, rfl, mem_start e.block⟩
  · simp
  · intro x hx hT
    exact same x hx (by simpa using hT)
  · simp only [List.mem_singleton]
    rintro x rfl hp
    exact absurd gone.2 hp
  · simp
  · simpa [Entry.block] using gone
  · exact (List.nodup_cons.mp h.nodup).2
  · simp
  · simpa using h.le_max e.block (by simp)

/-- An allocated block is taken back. -/
theorem give {b : Block} {q : Nat} (h : Records lo hi page L (b :: A)) (hq : q ≠ 0)
    (hfresh : q ∉ L.map Entry.ptr) (same : ∀ x, PageIn lo hi x → x ≠ b.1 → page' x = page x)
    (back : (page' b.1).order = b.2 ∧ (page' b.1).priv = q) :
    Records lo hi page' (⟨q, b.1, b.2⟩ :: L) A := by
  refine @replace lo hi page page' L [] [⟨q, b.1, b.2⟩] A [b] [] [b.1] h ?_ ?_ ?_ ?_ ?_ ?_ ?_ ?_ ?_ ?_
  · exact h.tiles.perm List.perm_middle
  · simp only [List.mem_singleton, List.map_nil, List.nil_append]
    rintro x rfl
    exact ⟨b, rfl, mem_start b⟩
  · simp
  · intro x hx hT
    exact same x hx (by simpa using hT)
  · simp only [List.mem_singleton]
    rintro x rfl -
    exact ⟨_, rfl, rfl⟩
  · simpa using back
  · simp
  · simpa using ⟨by simpa using hfresh, h.nodup⟩
  · simpa using hq
  · simpa [Entry.block] using h.le_max b (by simp)

/-- The region grows by a free blob. -/
theorem extend {p t : Nat} (h : Records lo p page L A) (hlo : lo ≤ p) (hp : BUDDY_BLOB_SIZE ∣ p)
    (ht : t ≠ 0) (hfresh : t ∉ L.map Entry.ptr)
    (same : ∀ x, PageIn lo p x → page' x = page x)
    (first : (page' p).order = BUDDY_MAX_ORDER ∧ (page' p).priv = t)
    (inner : ∀ x, PageIn p (p + BUDDY_BLOB_SIZE) x → x ≠ p → (page' x).priv = 0) :
    Records lo (p + BUDDY_BLOB_SIZE) page' (⟨t, p, BUDDY_MAX_ORDER⟩ :: L) A := by
  refine ⟨h.tiles.extend hlo (o := BUDDY_MAX_ORDER) hp, ?_, ?_, ?_, ?_, ?_, ?_⟩
  · exact List.nodup_cons.mpr ⟨hfresh, h.nodup⟩
  · intro e he
    rcases List.mem_cons.mp he with rfl | he
    · exact ht
    · exact h.ptr_ne e he
  · intro b hb
    rcases List.mem_cons.mp hb with rfl | hb
    · exact le_refl _
    · exact h.le_max b hb
  · intro e he
    rcases List.mem_cons.mp he with rfl | he
    · exact first
    · rw [same _ (h.pageIn_entry he)]
      exact h.entry e he
  · intro b hb
    rw [same _ (h.pageIn (List.mem_append_right _ hb))]
    exact h.allocated b hb
  · intro a ha hpriv
    rcases Nat.lt_or_ge a p with hlt | hge
    · rw [same a ⟨ha.1, ha.2.1, hlt⟩] at hpriv
      obtain ⟨e, he, heq⟩ := h.head a ⟨ha.1, ha.2.1, hlt⟩ hpriv
      exact ⟨e, List.mem_cons_of_mem _ he, heq⟩
    · refine ⟨_, List.mem_cons_self, ?_⟩
      by_contra hne
      exact hpriv (inner a ⟨ha.1, hge, ha.2.2⟩ (Ne.symm hne))

end Records

/-! ## Entries of the lists -/

/-- The entries linked on `freeList 0`, ..., `freeList (n - 1)`. -/
def entriesBelow (freeList : Nat → List Nat) (memBlock : Nat → Nat) (n : Nat) : List Entry :=
  (List.range n).flatMap fun o => (freeList o).map fun p => ⟨p, memBlock p, o⟩

/-- The free blocks of all orders. -/
def entries (k : Kernel E) : List Entry :=
  entriesBelow k.buddyFreeList k.memBlock (BUDDY_MAX_ORDER + 1)

theorem mem_entries {k : Kernel E} {e : Entry} :
    e ∈ entries k ↔ e.order ≤ BUDDY_MAX_ORDER ∧ e.ptr ∈ k.buddyFreeList e.order
      ∧ e.start = k.memBlock e.ptr := by
  simp only [entries, entriesBelow, List.mem_flatMap, List.mem_range, List.mem_map,
    Nat.lt_succ_iff]
  constructor
  · rintro ⟨o, ho, p, hp, rfl⟩
    exact ⟨ho, hp, rfl⟩
  · rintro ⟨ho, hp, hs⟩
    exact ⟨e.order, ho, e.ptr, hp, by rw [← hs]⟩

theorem mem_entries_of {k : Kernel E} {p o : Nat} (ho : o ≤ BUDDY_MAX_ORDER)
    (hp : p ∈ k.buddyFreeList o) : ⟨p, k.memBlock p, o⟩ ∈ entries k :=
  mem_entries.mpr ⟨ho, hp, rfl⟩

/-- A pointer more on one list is an entry more. -/
theorem entriesBelow_add {fl fl' : Nat → List Nat} {mb : Nat → Nat} {p i n : Nat} (hi : i < n)
    (hadd : (fl' i).Perm (p :: fl i)) (hsame : ∀ j, j ≠ i → fl' j = fl j) :
    (entriesBelow fl' mb n).Perm (⟨p, mb p, i⟩ :: entriesBelow fl mb n) := by
  induction n with
  | zero => exact absurd hi (Nat.not_lt_zero i)
  | succ n ih =>
      have hunfold : ∀ f : Nat → List Nat, entriesBelow f mb (n + 1)
          = entriesBelow f mb n ++ (f n).map fun p => ⟨p, mb p, n⟩ := by
        intro f
        simp [entriesBelow, List.range_succ]
      rw [hunfold, hunfold]
      rcases Nat.lt_succ_iff_lt_or_eq.mp hi with hlt | rfl
      · rw [hsame n (by omega)]
        exact (ih hlt).append_right _
      · have hbelow : entriesBelow fl' mb i = entriesBelow fl mb i := by
          unfold entriesBelow
          refine List.flatMap_congr fun o ho => ?_
          rw [hsame o (by have := List.mem_range.mp ho; omega)]
        rw [hbelow]
        exact ((hadd.map _).append_left _).trans List.perm_middle

/-- `block->start` of an entry on no list does not matter. -/
theorem entriesBelow_memBlock {fl : Nat → List Nat} {mb : Nat → Nat} {q v n : Nat}
    (hq : ∀ o < n, q ∉ fl o) :
    entriesBelow fl (Function.update mb q v) n = entriesBelow fl mb n := by
  unfold entriesBelow
  refine List.flatMap_congr fun o ho => List.map_congr_left fun p hp => ?_
  rw [Function.update_of_ne]
  rintro rfl
  exact hq o (List.mem_range.mp ho) hp

/-! ## The invariant -/

/-- `A` are the allocated blocks, `S` the entries taken off their lists. -/
structure BuddyInv (lo hi : Nat) (k : Kernel E) (A : List Block) (S : List Entry) : Prop where
  records : Records lo hi k.page (entries k ++ S) A
  suspended : ∀ e ∈ S, k.memBlock e.ptr = e.start
  freePages : k.buddyFreePages = ((entries k ++ S).map fun e => 2 ^ e.order).sum
  above : ∀ o, BUDDY_MAX_ORDER < o → k.buddyFreeList o = []

/-- The addresses of the `mem_block`s in use. -/
def ptrs (k : Kernel E) (S : List Entry) : List Nat := (entries k ++ S).map Entry.ptr

/-- The kernels agree on what the buddy system works on. -/
structure BuddySame (k k' : Kernel E) : Prop where
  freeList : k'.buddyFreeList = k.buddyFreeList
  memBlock : k'.memBlock = k.memBlock
  freePages : k'.buddyFreePages = k.buddyFreePages
  locked : k'.buddyLocked = k.buddyLocked
  pages : k'.pages = k.pages

theorem BuddySame.page {k k' : Kernel E} (h : BuddySame k k') (a : Nat) :
    k'.page a = k.page a := by
  rw [Kernel.page, Kernel.page, h.pages]

/-- The kernels agree on everything else. -/
structure RestSame (k k' : Kernel E) : Prop where
  flags : ∀ i, (k'.pages i).flags = (k.pages i).flags
  earlyBrk : k'.earlyBrk = k.earlyBrk
  buddyInited : k'.buddyInited = k.buddyInited
  kallocInited : k'.kallocInited = k.kallocInited
  caches : k'.caches = k.caches
  slabs : k'.slabs = k.slabs
  ext : k'.ext = k.ext

theorem RestSame.refl (k : Kernel E) : RestSame k k :=
  ⟨fun _ => rfl, rfl, rfl, rfl, rfl, rfl, rfl⟩

theorem RestSame.trans {k₁ k₂ k₃ : Kernel E} (h : RestSame k₁ k₂) (h' : RestSame k₂ k₃) :
    RestSame k₁ k₃ where
  flags i := (h'.flags i).trans (h.flags i)
  earlyBrk := h'.earlyBrk.trans h.earlyBrk
  buddyInited := h'.buddyInited.trans h.buddyInited
  kallocInited := h'.kallocInited.trans h.kallocInited
  caches := h'.caches.trans h.caches
  slabs := h'.slabs.trans h.slabs
  ext := h'.ext.trans h.ext

/-- Setting fields of a page other than `flags`. -/
theorem RestSame.setPage (k : Kernel E) (a : Nat) {p : Page} (hp : p.flags = (k.page a).flags) :
    RestSame k (k.setPage a p) := by
  refine ⟨fun i => ?_, rfl, rfl, rfl, rfl, rfl, rfl⟩
  unfold Kernel.setPage
  dsimp only
  by_cases hi : i = (a - PM_START) / PAGE_SIZE
  · rw [hi, Function.update_self]
    exact hp
  · rw [Function.update_of_ne hi]

theorem entries_congr {k k' : Kernel E} (hfl : k'.buddyFreeList = k.buddyFreeList)
    (hmb : k'.memBlock = k.memBlock) : entries k' = entries k := by
  rw [entries, entries, hfl, hmb]

namespace BuddyInv

variable {k k' : Kernel E} {A A' : List Block} {S S' : List Entry}

/-- The flags of pages do not matter. -/
theorem of_pages (h : BuddyInv lo hi k A S) (same : ∀ a, PageIn lo hi a →
      (k'.page a).order = (k.page a).order ∧ (k'.page a).priv = (k.page a).priv)
    (hfl : k'.buddyFreeList = k.buddyFreeList) (hmb : k'.memBlock = k.memBlock)
    (hpages : k'.buddyFreePages = k.buddyFreePages) : BuddyInv lo hi k' A S := by
  have hentries := entries_congr hfl hmb
  refine ⟨?_, ?_, ?_, ?_⟩
  · rw [hentries]
    exact h.records.congr same
  · intro e he
    rw [hmb]
    exact h.suspended e he
  · rw [hentries, hpages]
    exact h.freePages
  · intro o ho
    rw [hfl]
    exact h.above o ho

theorem of_same (h : BuddyInv lo hi k A S) (hs : BuddySame k k') : BuddyInv lo hi k' A S :=
  h.of_pages (fun a _ => by rw [hs.page]; exact ⟨rfl, rfl⟩) hs.freeList hs.memBlock hs.freePages

theorem perm (h : BuddyInv lo hi k A S) (hA : A.Perm A') (hS : S.Perm S') :
    BuddyInv lo hi k A' S' where
  records := h.records.perm (hS.append_left _) hA
  suspended e he := h.suspended e (hS.mem_iff.mpr he)
  freePages := by
    rw [h.freePages]
    exact ((hS.append_left _).map _).sum_eq
  above := h.above

theorem mem_list (h : BuddyInv lo hi k A S) {p o : Nat} (hp : p ∈ k.buddyFreeList o) :
    o ≤ BUDDY_MAX_ORDER := by
  by_contra hgt
  rw [h.above o (Nat.lt_of_not_le hgt)] at hp
  cases hp

/-- A pointer is on one list only. -/
theorem list_unique (h : BuddyInv lo hi k A S) {p o o' : Nat} (hp : p ∈ k.buddyFreeList o)
    (hp' : p ∈ k.buddyFreeList o') : o = o' := by
  have h₁ := List.mem_append_left S (mem_entries_of (h.mem_list hp) hp)
  have h₂ := List.mem_append_left S (mem_entries_of (h.mem_list hp') hp')
  have := List.inj_on_of_nodup_map h.records.nodup h₁ h₂ rfl
  exact congrArg Entry.order this

/-! ### What the operations do to the invariant -/

theorem unlink_perm (h : BuddyInv lo hi k A S) {p o : Nat} (hp : p ∈ k.buddyFreeList o) :
    (entries k).Perm (⟨p, k.memBlock p, o⟩ :: entries (k.unlink p)) := by
  refine entriesBelow_add (Nat.lt_succ_of_le (h.mem_list hp)) (List.perm_cons_erase hp) ?_
  intro j hj
  exact (List.erase_of_not_mem fun hmem => hj (h.list_unique hmem hp)).symm

/-- A free block is taken off its list. -/
theorem unlink (h : BuddyInv lo hi k A S) {p o : Nat} (hp : p ∈ k.buddyFreeList o) :
    BuddyInv lo hi (k.unlink p) A (⟨p, k.memBlock p, o⟩ :: S) := by
  have hperm : (entries k ++ S).Perm (entries (k.unlink p) ++ ⟨p, k.memBlock p, o⟩ :: S) :=
    ((h.unlink_perm hp).append_right S).trans List.perm_middle.symm
  refine ⟨h.records.perm hperm (List.Perm.refl A), ?_, ?_, ?_⟩
  · intro e he
    rcases List.mem_cons.mp he with rfl | he
    · rfl
    · exact h.suspended e he
  · rw [← (hperm.map _).sum_eq]
    exact h.freePages
  · intro o' ho'
    show (k.buddyFreeList o').erase p = []
    rw [h.above o' ho']
    rfl

variable (k k') in
theorem entries_setList {i : Nat} (hi : i ≤ BUDDY_MAX_ORDER) {p : Nat} {l : List Nat}
    (hl : l.Perm (p :: k.buddyFreeList i))
    (hfl : k'.buddyFreeList = Function.update k.buddyFreeList i l)
    (hmb : k'.memBlock = k.memBlock) :
    (entries k').Perm (⟨p, k.memBlock p, i⟩ :: entries k) := by
  rw [entries, entries, hfl, hmb]
  refine entriesBelow_add (Nat.lt_succ_of_le hi) ?_ fun j hj => Function.update_of_ne hj _ _
  rw [Function.update_self]
  exact hl

theorem entries_setStart {q : Nat} (hq : q ∉ ptrs k S) (v : Nat) :
    entries (k.setStart q v) = entries k := by
  refine entriesBelow_memBlock fun o ho hmem => hq ?_
  exact List.mem_map_of_mem
    (List.mem_append_left S (mem_entries_of (k := k) (Nat.lt_succ_iff.mp ho) hmem))

/-- Two buddies off their lists become one free block. -/
theorem join {g s : Entry} (h : BuddyInv lo hi k A (g :: s :: S))
    (hg : g.start = buddy PAGE_SHIFT s.start s.order) (ho : g.order = s.order)
    (hlt : s.order < BUDDY_MAX_ORDER) (hle : s.start < g.start)
    (same : ∀ x, PageIn lo hi x → x ≠ g.start → x ≠ s.start → k'.page x = k.page x)
    (gone : (k'.page g.start).priv = 0)
    (kept : (k'.page s.start).order = s.order + 1 ∧ (k'.page s.start).priv = s.ptr)
    (hfl : k'.buddyFreeList
      = Function.update k.buddyFreeList (s.order + 1) (s.ptr :: k.buddyFreeList (s.order + 1)))
    (hmb : k'.memBlock = k.memBlock) (hpages : k'.buddyFreePages = k.buddyFreePages) :
    BuddyInv lo hi k' A S := by
  have hmid : (entries k ++ g :: s :: S).Perm (g :: s :: (entries k ++ S)) :=
    List.perm_middle.trans (List.perm_middle.cons g)
  have hstart : k.memBlock s.ptr = s.start := h.suspended s (by simp)
  have hentries := entries_setList k k' hlt (List.Perm.refl _) hfl hmb
  rw [hstart] at hentries
  have hperm : (⟨s.ptr, s.start, s.order + 1⟩ :: (entries k ++ S)).Perm (entries k' ++ S) :=
    (hentries.append_right S).symm
  refine ⟨?_, ?_, ?_, ?_⟩
  · exact ((h.records.perm hmid (List.Perm.refl A)).join hg ho hlt hle same gone kept).perm hperm
      (List.Perm.refl A)
  · intro e he
    rw [hmb]
    exact h.suspended e (by simp [he])
  · rw [hpages, h.freePages, (hmid.map _).sum_eq, ← (hperm.map _).sum_eq]
    simp only [List.map_cons, List.sum_cons, ho, Nat.pow_succ]
    omega
  · intro o ho'
    rw [hfl, Function.update_of_ne (by omega)]
    exact h.above o ho'

/-- A block off its list becomes two free buddies. -/
theorem split {e : Entry} {n q : Nat} (h : BuddyInv lo hi k A (e :: S)) (ho : e.order = n + 1)
    (hq : q ≠ 0) (hfresh : q ∉ ptrs k (e :: S))
    (same : ∀ x, PageIn lo hi x → x ≠ e.start → x ≠ buddy PAGE_SHIFT e.start n →
      k'.page x = k.page x)
    (first : (k'.page e.start).order = n ∧ (k'.page e.start).priv = e.ptr)
    (second : (k'.page (buddy PAGE_SHIFT e.start n)).order = n
      ∧ (k'.page (buddy PAGE_SHIFT e.start n)).priv = q)
    (hfl : k'.buddyFreeList
      = Function.update k.buddyFreeList n (k.buddyFreeList n ++ [e.ptr] ++ [q]))
    (hmb : k'.memBlock = Function.update k.memBlock q (buddy PAGE_SHIFT e.start n))
    (hpages : k'.buddyFreePages = k.buddyFreePages) : BuddyInv lo hi k' A S := by
  have hmid : (entries k ++ e :: S).Perm (e :: (entries k ++ S)) := List.perm_middle
  have hmax : n + 1 ≤ BUDDY_MAX_ORDER := by
    have := h.records.le_max e.block (by simp)
    rwa [Entry.block, ho] at this
  have hne : e.ptr ≠ q := by
    rintro rfl
    exact hfresh (by simp [ptrs])
  -- the lists of `k'` are those of `k` with the pointers `e.ptr` and `q` more
  have hentries : (entries k').Perm (⟨e.ptr, e.start, n⟩
      :: ⟨q, buddy PAGE_SHIFT e.start n, n⟩ :: entries k) := by
    have h₁ : (entries ((k.setStart q (buddy PAGE_SHIFT e.start n)).setList n
        (k.buddyFreeList n ++ [e.ptr]))).Perm (⟨e.ptr, e.start, n⟩ :: entries k) := by
      have hadd := entries_setList (k.setStart q (buddy PAGE_SHIFT e.start n))
        ((k.setStart q (buddy PAGE_SHIFT e.start n)).setList n (k.buddyFreeList n ++ [e.ptr]))
        (i := n) (p := e.ptr) (by omega) (List.perm_append_singleton _ _) rfl rfl
      have hstart : (k.setStart q (buddy PAGE_SHIFT e.start n)).memBlock e.ptr = e.start := by
        show Function.update k.memBlock q _ e.ptr = _
        rw [Function.update_of_ne hne, h.suspended e (by simp)]
      rwa [hstart, entries_setStart hfresh] at hadd
    have h₂ := entries_setList
      ((k.setStart q (buddy PAGE_SHIFT e.start n)).setList n (k.buddyFreeList n ++ [e.ptr])) k'
      (i := n) (p := q) (l := k.buddyFreeList n ++ [e.ptr] ++ [q]) (by omega)
      (by
        show List.Perm _ (q :: Function.update k.buddyFreeList n _ n)
        rw [Function.update_self]
        exact List.perm_append_singleton _ _)
      (by
        rw [hfl]
        exact (Function.update_idem _ _ _).symm)
      hmb
    have hstart : ((k.setStart q (buddy PAGE_SHIFT e.start n)).setList n
        (k.buddyFreeList n ++ [e.ptr])).memBlock q = buddy PAGE_SHIFT e.start n :=
      Function.update_self _ _ _
    rw [hstart] at h₂
    exact (h₂.trans (h₁.cons _)).trans (List.Perm.swap _ _ _)
  have hperm : (⟨e.ptr, e.start, n⟩ :: ⟨q, buddy PAGE_SHIFT e.start n, n⟩
      :: (entries k ++ S)).Perm (entries k' ++ S) := (hentries.append_right S).symm
  have hfresh' : q ∉ (e :: (entries k ++ S)).map Entry.ptr := fun hmem =>
    hfresh ((hmid.map _).mem_iff.mpr hmem)
  refine ⟨?_, ?_, ?_, ?_⟩
  · exact ((h.records.perm hmid (List.Perm.refl A)).split ho hq hfresh' same first second).perm hperm
      (List.Perm.refl A)
  · intro e' he'
    rw [hmb, Function.update_of_ne]
    · exact h.suspended e' (by simp [he'])
    · rintro rfl
      exact hfresh (List.mem_map_of_mem (by simp [he']))
  · rw [hpages, h.freePages, (hmid.map _).sum_eq, ← (hperm.map _).sum_eq]
    simp only [List.map_cons, List.sum_cons, ho, Nat.pow_succ]
    omega
  · intro o ho'
    rw [hfl, Function.update_of_ne (by omega)]
    exact h.above o ho'

/-- A block off its list is handed out. -/
theorem take {e : Entry} (h : BuddyInv lo hi k A (e :: S))
    (same : ∀ x, PageIn lo hi x → x ≠ e.start → k'.page x = k.page x)
    (gone : (k'.page e.start).order = e.order ∧ (k'.page e.start).priv = 0)
    (hfl : k'.buddyFreeList = k.buddyFreeList) (hmb : k'.memBlock = k.memBlock)
    (hpages : k'.buddyFreePages = k.buddyFreePages - 2 ^ e.order) :
    BuddyInv lo hi k' (e.block :: A) S := by
  have hmid : (entries k ++ e :: S).Perm (e :: (entries k ++ S)) := List.perm_middle
  have hentries := entries_congr hfl hmb
  refine ⟨?_, ?_, ?_, ?_⟩
  · rw [hentries]
    exact (h.records.perm hmid (List.Perm.refl A)).take same gone
  · intro e' he'
    rw [hmb]
    exact h.suspended e' (by simp [he'])
  · rw [hpages, h.freePages, (hmid.map _).sum_eq, hentries]
    simp
  · intro o ho
    rw [hfl]
    exact h.above o ho

/-- An allocated block is put on the list of its order. -/
theorem give {b : Block} {q : Nat} (h : BuddyInv lo hi k (b :: A) S) (hq : q ≠ 0)
    (hfresh : q ∉ ptrs k S) (same : ∀ x, PageIn lo hi x → x ≠ b.1 → k'.page x = k.page x)
    (back : (k'.page b.1).order = b.2 ∧ (k'.page b.1).priv = q)
    (hfl : k'.buddyFreeList = Function.update k.buddyFreeList b.2 (q :: k.buddyFreeList b.2))
    (hmb : k'.memBlock = Function.update k.memBlock q b.1)
    (hpages : k'.buddyFreePages = k.buddyFreePages + 2 ^ b.2) : BuddyInv lo hi k' A S := by
  have hmax : b.2 ≤ BUDDY_MAX_ORDER := h.records.le_max b (by simp)
  have hentries := entries_setList (k.setStart q b.1) k' (p := q) hmax
    (List.Perm.refl _) hfl hmb
  rw [entries_setStart hfresh,
    show (k.setStart q b.1).memBlock q = b.1 from Function.update_self _ _ _] at hentries
  have hperm : (⟨q, b.1, b.2⟩ :: (entries k ++ S)).Perm (entries k' ++ S) :=
    (hentries.append_right S).symm
  refine ⟨(h.records.give hq hfresh same back).perm hperm (List.Perm.refl A), ?_, ?_, ?_⟩
  · intro e he
    rw [hmb, Function.update_of_ne]
    · exact h.suspended e he
    · rintro rfl
      exact hfresh (List.mem_map_of_mem (List.mem_append_right _ he))
  · rw [hpages, h.freePages, ← (hperm.map _).sum_eq]
    simp [Nat.add_comm]
  · intro o ho
    rw [hfl, Function.update_of_ne (by omega)]
    exact h.above o ho

end BuddyInv

end NoobKernel.Mm
