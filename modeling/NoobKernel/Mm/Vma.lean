import NoobKernel.Lib.Intervals
import NoobKernel.Lib.Links
import NoobKernel.Lib.Lts
import NoobKernel.Misc.Hashtable

set_option autoImplicit false

/-! # Virtual memory areas (`mm/vma.c`)

The list `proc->vma` on its links, over VMAs at the addresses that `kzalloc` returns. A VMA in the
list stays as it is until it is freed; other memory belongs to others, who write to it at any time.
`Kept` says that the list is an ascending one, as the loops of `vma_find` and `vma_insert` rely on,
and what they return then; it holds after any calls (`vma_list_kept`).
-/

namespace NoobKernel.Mm

structure Vma where
  start : UInt64
  length : UInt64
  perm : Int
  type : Int
  deriving DecidableEq

/-- `!(a->start + a->length <= b->start || b->start + b->length <= a->start)`. -/
def Vma.overlaps (a b : Vma) : Bool :=
  !(decide (a.start + a.length ≤ b.start) || decide (b.start + b.length ≤ a.start))

/-- `proc->vma` and the memory of the VMAs: `none` is the list head, and `some a` the member `list`
of the VMA at `a`. -/
structure VmaSpace where
  links : Links (Option Addr)
  vma : Addr → Vma

/-- What `vma_remove` does besides. -/
inductive VmaCall
  | unmapPages (start length : UInt64)
  | kfree (a : Addr)
  deriving DecidableEq

namespace VmaSpace

/-- Where a loop over the list ends: at the first VMA with the property, or at the list head. Its
bound is never reached (`Holds.loop`). -/
def loop (s : VmaSpace) (p : Vma → Bool) (fuel : Nat) : Option (Option Addr) :=
  (Links.scan s.links.next none (fun n => n.any fun a => p (s.vma a)) fuel
    (s.links.next none)).map (·.join)

def find (s : VmaSpace) (va : UInt64) (fuel : Nat) : Option (Option Addr) :=
  (s.loop (fun v => va < v.start || va < v.start + v.length) fuel).map fun pos =>
    pos.filter fun a => !(va < (s.vma a).start)

def insert (s : VmaSpace) (new : Addr) (fuel : Nat) : Option (Int × VmaSpace) :=
  let v := s.vma new
  (s.loop (fun w => v.overlaps w || w.start > v.start) fuel).map fun pos =>
    if pos.any fun a => v.overlaps (s.vma a) then (-EEXIST, s)
    else (0, { s with links := s.links.addTail (some new) pos })

/-- The first `list_del` is in `vma_remove`, the second in `vma_destroy`. -/
def remove (s : VmaSpace) (start length : UInt64) (fuel : Nat) :
    Option (Int × VmaSpace × List VmaCall) :=
  (s.find start fuel).map fun
    | none => (-ENOENT, s, [])
    | some a =>
        if (s.vma a).start ≠ start ∨ (s.vma a).length ≠ length then (-ENOENT, s, [])
        else
          (0, { s with links := (s.links.del (some a)).del (some a) },
            [.unmapPages start length, .kfree a])

/-- A write to memory. -/
def foreign (s : VmaSpace) (a : Addr) (next prev : Option Addr) (v : Vma) : VmaSpace where
  links := ⟨Function.update s.links.next (some a) next, Function.update s.links.prev (some a) prev⟩
  vma := Function.update s.vma a v

end VmaSpace

/-! ## Ranges -/

namespace Vma

/-- `start + length` does not wrap, and the range is not empty. -/
def Proper (v : Vma) : Prop := 0 < v.length.toNat ∧ v.start.toNat + v.length.toNat < 2 ^ 64

instance decidableProper (v : Vma) : Decidable v.Proper :=
  inferInstanceAs (Decidable (_ ∧ _))

def lo (v : Vma) : Nat := v.start.toNat

def hi (v : Vma) : Nat := v.start.toNat + v.length.toNat

/-- The addresses of a VMA. -/
def range (v : Vma) : Set Nat := Set.Ico v.lo v.hi

theorem Proper.lo_lt_hi {v : Vma} (h : v.Proper) : v.lo < v.hi := Nat.lt_add_of_pos_right h.1

theorem Proper.end_toNat {v : Vma} (h : v.Proper) : (v.start + v.length).toNat = v.hi := by
  rw [UInt64.toNat_add]
  exact Nat.mod_eq_of_lt h.2

/-- The test in `vma_insert` is that for an overlap. -/
theorem Proper.overlaps_iff {v w : Vma} (hv : v.Proper) (hw : w.Proper) :
    v.overlaps w = true ↔ Intervals.Overlap lo hi v w := by
  rw [overlaps, Bool.not_eq_true', ← Bool.not_eq_true, Bool.or_eq_true, decide_eq_true_iff,
    decide_eq_true_iff, UInt64.le_iff_toNat_le, UInt64.le_iff_toNat_le, hv.end_toNat, hw.end_toNat]
  rfl

theorem lt_start_iff {v : Vma} (va : UInt64) : va < v.start ↔ va.toNat < v.lo :=
  UInt64.lt_iff_toNat_lt

/-- The loop of `vma_find` ends at the first range that ends behind the address. -/
theorem Proper.stops_iff {v : Vma} (h : v.Proper) (va : UInt64) :
    (decide (va < v.start) || decide (va < v.start + v.length)) = true ↔ va.toNat < v.hi := by
  rw [Bool.or_eq_true, decide_eq_true_iff, decide_eq_true_iff, lt_start_iff, UInt64.lt_iff_toNat_lt,
    h.end_toNat]
  exact or_iff_right_of_imp fun hlt => hlt.trans h.lo_lt_hi

end Vma

namespace VmaSpace

/-- The list is `xs`, and as it should be. -/
structure Holds (s : VmaSpace) (xs : List Addr) : Prop where
  circle : s.links.Circle none (xs.map some)
  proper : ∀ a ∈ xs, (s.vma a).Proper
  ascending : Intervals.Ascending (fun a => (s.vma a).lo) (fun a => (s.vma a).hi) xs

variable {s s' : VmaSpace} {xs : List Addr} {a new : Addr} {va start length : UInt64} {fuel : Nat}

theorem Holds.empty (links : Links (Option Addr)) (vma : Addr → Vma) :
    Holds ⟨links.init none, vma⟩ [] :=
  ⟨Links.circle_init links none, fun _ h => absurd h List.not_mem_nil, .nil⟩

namespace Holds

theorem loop (h : s.Holds xs) (p : Vma → Bool) (hfuel : xs.length < fuel) :
    s.loop p fuel = some (xs.find? fun a => p (s.vma a)) := by
  have hscan := h.circle.scan_next (fun n => n.any fun a => p (s.vma a))
    (by rwa [List.length_map] : (xs.map some).length < fuel)
  have hfind : xs.find? ((fun n : Option Addr => n.any fun a => p (s.vma a)) ∘ some)
      = xs.find? fun a => p (s.vma a) := rfl
  unfold VmaSpace.loop
  rw [hscan, List.find?_map, hfind]
  cases xs.find? fun a => p (s.vma a) <;> rfl

/-! ### Lookup -/

/-- **`vma_find`** returns the VMA that contains the address, if there is one. -/
theorem find (h : s.Holds xs) (va : UInt64) (hfuel : xs.length < fuel) :
    ∃ r, s.find va fuel = some r
      ∧ ∀ a, r = some a ↔ a ∈ xs ∧ va.toNat ∈ (s.vma a).range := by
  unfold VmaSpace.find
  rw [h.loop _ hfuel]
  cases hfind : xs.find? fun a =>
      decide (va < (s.vma a).start) || decide (va < (s.vma a).start + (s.vma a).length) with
  | none =>
      refine ⟨none, rfl, fun a => iff_of_false (Option.some_ne_none a).symm ?_⟩
      rintro ⟨ha, -, hhi⟩
      exact List.find?_eq_none.mp hfind a ha (((h.proper a ha).stops_iff va).mpr hhi)
  | some b =>
      obtain ⟨hb, ys, zs, rfl, hys⟩ := List.find?_eq_some_iff_append.mp hfind
      have hbmem : b ∈ ys ++ b :: zs := List.mem_append_right _ List.mem_cons_self
      have hx := ((h.proper b hbmem).stops_iff va).mp hb
      have hbefore : ∀ c ∈ ys, (s.vma c).hi ≤ va.toNat := by
        intro c hc
        have hproper := h.proper c (List.mem_append_left _ hc)
        rw [← not_lt, ← hproper.stops_iff va]
        simpa using hys c hc
      refine ⟨_, rfl, fun a => ?_⟩
      rw [Option.filter_eq_some_iff, Option.some_inj]
      refine Iff.trans ?_ (h.ascending.covers_iff (b := a) hbefore hx).symm
      refine ⟨?_, ?_⟩
      · rintro ⟨rfl, hlo⟩
        refine ⟨rfl, ?_⟩
        rw [← not_lt, ← Vma.lt_start_iff]
        simpa using hlo
      · rintro ⟨rfl, hlo⟩
        refine ⟨rfl, ?_⟩
        rw [← not_lt, ← Vma.lt_start_iff] at hlo
        simpa using hlo

/-! ### Insertion -/

/-- What the loop of `vma_insert` has passed begins and ends before the new range. -/
theorem passed (hnew : (s.vma new).Proper) {ys : List Addr} (hproper : ∀ c ∈ ys, (s.vma c).Proper)
    (hys : ∀ c ∈ ys, ((s.vma new).overlaps (s.vma c)
      || decide ((s.vma c).start > (s.vma new).start)) ≠ true) :
    ∀ c ∈ ys, (s.vma c).lo ≤ (s.vma new).lo
      ∧ ¬Intervals.Overlap Vma.lo Vma.hi (s.vma new) (s.vma c) := by
  intro c hc
  have hneither := hys c hc
  rw [Ne, Bool.or_eq_true, not_or, decide_eq_true_iff, gt_iff_lt, UInt64.lt_iff_toNat_lt, not_lt,
    hnew.overlaps_iff (hproper c hc)] at hneither
  exact hneither.symm

theorem addTail (h : s.Holds xs) {ys zs : List Addr} (hxs : xs = ys ++ zs)
    (hnew : (s.vma new).Proper) (hmem : new ∉ xs)
    (hasc : Intervals.Ascending (fun a => (s.vma a).lo) (fun a => (s.vma a).hi) (ys ++ new :: zs)) :
    Holds { s with links := s.links.addTail (some new) zs.head? } (ys ++ new :: zs) := by
  subst hxs
  have hnode : some new ∉ none :: (ys ++ zs).map some := by
    rw [List.mem_cons, List.mem_map_of_injective (Option.some_injective _), not_or]
    exact ⟨Option.some_ne_none new, hmem⟩
  refine ⟨?_, fun a ha => ?_, hasc⟩
  · cases zs with
    | nil =>
        rw [List.append_nil] at hnode
        have hadd := (List.append_nil ys ▸ h.circle).addTail hnode
        rwa [List.map_append]
    | cons z zs =>
        have hcircle := h.circle
        rw [List.map_append] at hcircle hnode ⊢
        exact hcircle.addTail_at hnode
  · rcases List.mem_append.mp ha with ha | ha
    · exact h.proper a (List.mem_append_left _ ha)
    rcases List.mem_cons.mp ha with rfl | ha
    · exact hnew
    · exact h.proper a (List.mem_append_right _ ha)

/-- **`vma_insert`** refuses a range that overlaps another one, and puts any other in its place. -/
theorem insert (h : s.Holds xs) (hnew : (s.vma new).Proper) (hfuel : xs.length < fuel) :
    ((∃ b ∈ xs, Intervals.Overlap Vma.lo Vma.hi (s.vma new) (s.vma b))
        ∧ s.insert new fuel = some (-EEXIST, s))
      ∨ (∀ b ∈ xs, ¬Intervals.Overlap Vma.lo Vma.hi (s.vma new) (s.vma b))
        ∧ ∃ ys zs, xs = ys ++ zs
          ∧ s.insert new fuel = some (0, { s with links := s.links.addTail (some new) zs.head? })
          ∧ Holds { s with links := s.links.addTail (some new) zs.head? } (ys ++ new :: zs) := by
  have hself : ∀ {l : List Addr},
      (∀ b ∈ l, ¬Intervals.Overlap Vma.lo Vma.hi (s.vma new) (s.vma b)) → new ∉ l :=
    fun hno hmem => hno new hmem (Intervals.overlap_self hnew.lo_lt_hi)
  unfold VmaSpace.insert
  dsimp only
  rw [h.loop _ hfuel]
  cases hfind : xs.find? fun a =>
      (s.vma new).overlaps (s.vma a) || decide ((s.vma a).start > (s.vma new).start) with
  | none =>
      have hxs : xs = xs ++ [] := (List.append_nil xs).symm
      have hall := passed hnew h.proper (List.find?_eq_none.mp hfind)
      have hno := fun b hb => (hall b hb).2
      have hasc := h.ascending.insert_last (n := new) hnew.lo_lt_hi hall
      exact .inr ⟨hno, xs, [], hxs, rfl, h.addTail hxs hnew (hself hno) hasc⟩
  | some c =>
      obtain ⟨hc, ys, zs, rfl, hys⟩ := List.find?_eq_some_iff_append.mp hfind
      have hcmem : c ∈ ys ++ c :: zs := List.mem_append_right _ List.mem_cons_self
      have hcproper := h.proper c hcmem
      have hall := passed hnew (fun d hd => h.proper d (List.mem_append_left _ hd)) fun d hd => by
        simpa using hys d hd
      dsimp only [Option.map_some, Option.any_some]
      have hiff := hnew.overlaps_iff hcproper
      by_cases hover : (s.vma new).overlaps (s.vma c) = true
      · rw [if_pos hover]
        exact .inl ⟨⟨c, hcmem, hiff.mp hover⟩, rfl⟩
      · -- the loop has stopped at the first range that starts behind the new one
        rw [if_neg hover]
        have hlt : (s.vma new).lo < (s.vma c).lo := by
          rw [Bool.or_eq_true, decide_eq_true_iff] at hc
          exact UInt64.lt_iff_toNat_lt.mp (hc.resolve_left hover)
        rw [hiff] at hover
        have hno : ∀ b ∈ ys ++ c :: zs,
            ¬Intervals.Overlap Vma.lo Vma.hi (s.vma new) (s.vma b) := fun b hb hbover =>
          hover ((h.ascending.overlap_iff (n := new) (fun d hd => (hall d hd).2) hlt).mp
            ⟨b, hb, hbover⟩)
        have hasc := h.ascending.insert_before (n := new) hnew.lo_lt_hi hall hlt hover
        exact .inr ⟨hno, ys, c :: zs, rfl, rfl, h.addTail rfl hnew (hself hno) hasc⟩

/-! ### Removal -/

/-- **`vma_remove`** takes out the VMA with that start and length. -/
theorem remove (h : s.Holds xs) (ha : a ∈ xs) (hstart : (s.vma a).start = start)
    (hlength : (s.vma a).length = length) (hfuel : xs.length < fuel) :
    s.remove start length fuel = some (0,
        { s with links := (s.links.del (some a)).del (some a) },
        [.unmapPages start length, .kfree a])
      ∧ Holds { s with links := (s.links.del (some a)).del (some a) } (xs.erase a) := by
  obtain ⟨r, hfind, hr⟩ := h.find start hfuel
  have hin : start.toNat ∈ (s.vma a).range := by
    rw [← hstart]
    exact ⟨le_refl _, (h.proper a ha).lo_lt_hi⟩
  rw [(hr a).mpr ⟨ha, hin⟩] at hfind
  constructor
  · have hmatch : ¬((s.vma a).start ≠ start ∨ (s.vma a).length ≠ length) := by
      rw [hstart, hlength]
      simp
    unfold VmaSpace.remove
    rw [hfind]
    dsimp only [Option.map_some]
    rw [if_neg hmatch]
  · -- the second deletion finds the links of the first
    rw [Links.del_del]
    have hdel := h.circle.del (List.mem_map_of_mem ha)
    rw [Links.erase_map (Option.some_injective Addr)] at hdel
    exact ⟨hdel, fun b hb => h.proper b (List.mem_of_mem_erase hb),
      h.ascending.sublist List.erase_sublist⟩

/-- Or there is none, and it changes nothing. -/
theorem remove_none (h : s.Holds xs)
    (hno : ∀ a ∈ xs, ¬((s.vma a).start = start ∧ (s.vma a).length = length))
    (hfuel : xs.length < fuel) : s.remove start length fuel = some (-ENOENT, s, []) := by
  obtain ⟨r, hfind, hr⟩ := h.find start hfuel
  unfold VmaSpace.remove
  rw [hfind]
  cases r with
  | none => rfl
  | some a =>
      have hmismatch : (s.vma a).start ≠ start ∨ (s.vma a).length ≠ length :=
        not_and_or.mp (hno a ((hr a).mp rfl).1)
      dsimp only [Option.map_some]
      rw [if_pos hmismatch]

/-- Others write to memory that is not in the list. -/
theorem foreign (h : s.Holds xs) (ha : a ∉ xs) (next prev : Option Addr) (v : Vma) :
    (s.foreign a next prev v).Holds xs := by
  have hvma : ∀ b ∈ xs, (s.foreign a next prev v).vma b = s.vma b := by
    rintro b hb
    refine Function.update_of_ne ?_ _ _
    rintro rfl
    exact ha hb
  have hnode : ∀ c ∈ none :: xs.map some, c ≠ some a := by
    rintro c hc rfl
    rw [List.mem_cons, List.mem_map_of_injective (Option.some_injective _)] at hc
    exact hc.elim (Option.some_ne_none a) ha
  refine ⟨?_, fun b hb => ?_, h.ascending.congr (fun b hb => ?_) fun b hb => ?_⟩
  · exact h.circle.congr (fun c hc => Function.update_of_ne (hnode c hc) _ _)
      fun c hc => Function.update_of_ne (hnode c hc) _ _
  · rw [hvma b hb]
    exact h.proper b hb
  · rw [hvma b hb]
  · rw [hvma b hb]

end Holds

/-! ## What a list of VMAs is good for -/

structure Kept (s : VmaSpace) (xs : List Addr) : Prop where
  circle : s.links.Circle none (xs.map some)
  sorted : xs.Pairwise fun a b => (s.vma a).start < (s.vma b).start
  disjoint : xs.Pairwise fun a b => Disjoint (s.vma a).range (s.vma b).range
  find : ∀ va fuel, xs.length < fuel → ∃ r, s.find va fuel = some r
    ∧ ∀ a, r = some a ↔ a ∈ xs ∧ va.toNat ∈ (s.vma a).range
  overlap : ∀ new fuel, (s.vma new).Proper → xs.length < fuel →
    (∃ b ∈ xs, ¬Disjoint (s.vma new).range (s.vma b).range) →
    s.insert new fuel = some (-EEXIST, s)
  insert : ∀ new fuel, (s.vma new).Proper → xs.length < fuel →
    (∀ b ∈ xs, Disjoint (s.vma new).range (s.vma b).range) →
    ∃ s', s.insert new fuel = some (0, s') ∧ s'.vma = s.vma
      ∧ ∃ ys zs, xs = ys ++ zs ∧ s'.links.Circle none ((ys ++ new :: zs).map some)
  remove : ∀ fuel, xs.length < fuel → ∀ a ∈ xs,
    ∃ s', s.remove (s.vma a).start (s.vma a).length fuel
        = some (0, s', [.unmapPages (s.vma a).start (s.vma a).length, .kfree a])
      ∧ s'.vma = s.vma ∧ s'.links.Circle none ((xs.erase a).map some)
  absent : ∀ start length fuel, xs.length < fuel →
    (∀ a ∈ xs, ¬((s.vma a).start = start ∧ (s.vma a).length = length)) →
    s.remove start length fuel = some (-ENOENT, s, [])

theorem Holds.kept (h : s.Holds xs) : Kept s xs where
  circle := h.circle
  sorted := h.ascending.sorted.imp fun hab => UInt64.lt_iff_toNat_lt.mpr hab
  disjoint := h.ascending.disjoint
  find _ _ hfuel := h.find _ hfuel
  overlap new fuel hnew hfuel := by
    rintro ⟨b, hb, hover⟩
    rcases h.insert hnew hfuel with ⟨-, heq⟩ | ⟨hno, -⟩
    · exact heq
    · exact absurd ((Intervals.overlap_iff_not_disjoint hnew.lo_lt_hi
        (h.proper b hb).lo_lt_hi).mpr hover) (hno b hb)
  insert new fuel hnew hfuel hdisj := by
    rcases h.insert hnew hfuel with ⟨⟨b, hb, hover⟩, -⟩ | ⟨-, ys, zs, hxs, hrun, hnext⟩
    · exact absurd (hdisj b hb) ((Intervals.overlap_iff_not_disjoint hnew.lo_lt_hi
        (h.proper b hb).lo_lt_hi).mp hover)
    · exact ⟨_, hrun, rfl, ys, zs, hxs, hnext.circle⟩
  remove fuel hfuel a ha := by
    obtain ⟨hrun, hnext⟩ := h.remove ha rfl rfl hfuel
    exact ⟨_, hrun, rfl, hnext.circle⟩
  absent _ _ _ hfuel hno := h.remove_none hno hfuel

end VmaSpace

/-! ## A list in use -/

/-- The calls for one process, and the writes of others. -/
inductive VmaOp
  | insert (new : Addr)
  | remove (start length : UInt64)
  | find (va : UInt64)
  | foreign (a : Addr) (next prev : Option Addr) (v : Vma)

/-- The list with the VMAs that have been inserted and not removed. -/
structure VmaMachine where
  space : VmaSpace
  inserted : List Addr

/-- Nobody inserts an empty or a wrapping range, or writes to a VMA in the list. -/
def VmaOp.Ok (s : VmaMachine) : VmaOp → Prop
  | insert new => (s.space.vma new).Proper
  | foreign a _ _ _ => a ∉ s.inserted
  | remove _ _ | find _ => True

instance VmaOp.decidableOk (s : VmaMachine) (op : VmaOp) : Decidable (op.Ok s) :=
  match op with
  | insert new => Vma.decidableProper (s.space.vma new)
  | foreign a _ _ _ => inferInstanceAs (Decidable (a ∉ s.inserted))
  | remove _ _ | find _ => isTrue trivial

def VmaMachine.next (s : VmaMachine) : VmaOp → Option VmaMachine
  | .insert new => (s.space.insert new (s.inserted.length + 1)).map fun r =>
      ⟨r.2, if r.1 = 0 then new :: s.inserted else s.inserted⟩
  | .remove start length => (s.space.remove start length (s.inserted.length + 1)).map fun r =>
      ⟨r.2.1, s.inserted.filter fun a => .kfree a ∉ r.2.2⟩
  | .find va => (s.space.find va (s.inserted.length + 1)).map fun _ => s
  | .foreign a next prev v => some ⟨s.space.foreign a next prev v, s.inserted⟩

/-- The list has the VMAs inserted. -/
def VmaMachine.Inv (s : VmaMachine) : Prop := ∃ xs : List Addr, xs.Perm s.inserted ∧ s.space.Holds xs

/-- Every call keeps it. -/
theorem VmaMachine.Inv.step {s s' : VmaMachine} {op : VmaOp} (h : s.Inv) (hok : op.Ok s)
    (hnext : s.next op = some s') : s'.Inv := by
  obtain ⟨xs, hperm, hxs⟩ := h
  have hfuel : xs.length < s.inserted.length + 1 := hperm.length_eq ▸ Nat.lt_succ_self _
  cases op with
  | insert new =>
      rcases hxs.insert hok hfuel with ⟨-, hrun⟩ | ⟨-, ys, zs, rfl, hrun, hnew⟩
      · rw [VmaMachine.next, hrun] at hnext
        cases hnext
        exact ⟨xs, hperm, hxs⟩
      · rw [VmaMachine.next, hrun] at hnext
        cases hnext
        exact ⟨_, List.perm_middle.trans (hperm.cons new), hnew⟩
  | remove start length =>
      by_cases hmatch : ∃ a ∈ xs, (s.space.vma a).start = start ∧ (s.space.vma a).length = length
      · obtain ⟨a, ha, hstart, hlength⟩ := hmatch
        obtain ⟨hrun, hdel⟩ := hxs.remove ha hstart hlength hfuel
        rw [VmaMachine.next, hrun] at hnext
        cases hnext
        -- what is freed is filtered out of the log, and it is the area taken off the list
        have hfilter : s.inserted.filter (fun b => .kfree b ∉ [VmaCall.unmapPages start length,
            .kfree a]) = s.inserted.erase a := by
          rw [(hperm.nodup_iff.mp hxs.ascending.nodup).erase_eq_filter]
          refine List.filter_congr fun b _ => ?_
          by_cases hb : b = a <;> simp [hb]
        refine ⟨xs.erase a, ?_, hdel⟩
        show (xs.erase a).Perm (s.inserted.filter _)
        rw [hfilter]
        exact hperm.erase a
      · push Not at hmatch
        have hrun := hxs.remove_none (fun a ha hboth => hmatch a ha hboth.1 hboth.2) hfuel
        rw [VmaMachine.next, hrun] at hnext
        cases hnext
        refine ⟨xs, ?_, hxs⟩
        simpa using hperm
  | find va =>
      obtain ⟨r, hrun, -⟩ := hxs.find va hfuel
      rw [VmaMachine.next, hrun] at hnext
      cases hnext
      exact ⟨xs, hperm, hxs⟩
  | foreign a next prev v =>
      cases hnext
      exact ⟨xs, hperm, hxs.foreign (fun hmem => hok (hperm.mem_iff.mp hmem)) next prev v⟩

/-- What the list is, after any calls for a process. -/
theorem vma_list_holds {links : Links (Option Addr)} {vma : Addr → Vma} {ops : List VmaOp}
    {s : VmaMachine}
    (run : Lts.Run (Lts.Steps VmaMachine.next VmaOp.Ok) ⟨⟨links.init none, vma⟩, []⟩ ops s) :
    s.Inv := by
  refine run.invariant (P := VmaMachine.Inv) ⟨[], .nil, .empty links vma⟩ ?_
  rintro t e t' h ⟨op, hok, -, hnext⟩
  exact h.step hok hnext

/-- **The list of VMAs**, after any calls for a process. -/
theorem vma_list_kept {links : Links (Option Addr)} {vma : Addr → Vma} {ops : List VmaOp}
    {s : VmaMachine}
    (run : Lts.Run (Lts.Steps VmaMachine.next VmaOp.Ok) ⟨⟨links.init none, vma⟩, []⟩ ops s) :
    ∃ xs : List Addr, xs.Perm s.inserted ∧ s.space.Kept xs := by
  obtain ⟨xs, hperm, hxs⟩ := vma_list_holds run
  exact ⟨xs, hperm, hxs.kept⟩

/-- Two areas, and one before them; one that overlaps and one that touches; the first is removed
and its memory used for another. -/
def areaRun : List VmaOp :=
  [.foreign 64 none none ⟨0x5000, 0x1000, 3, 0⟩, .insert 64,
    .foreign 128 none none ⟨0x9000, 0x2000, 3, 0⟩, .insert 128,
    .foreign 192 none none ⟨0x1000, 0x1000, 3, 0⟩, .insert 192,
    .foreign 256 none none ⟨0xa000, 0x8000, 3, 0⟩, .insert 256,
    .foreign 320 none none ⟨0x6000, 0x3000, 3, 0⟩, .insert 320, .insert 320, .find 0x5fff,
    .remove 0x5000 0x800, .remove 0x5000 0x1000, .foreign 64 (some 1) (some 2) ⟨0xb000, 1, 0, 2⟩,
    .insert 64, .find 0xb000]

theorem vma_list_kept_areas :
    ∃ s, Lts.Run (Lts.Steps VmaMachine.next VmaOp.Ok)
      ⟨⟨(Links.mk id id).init none, fun _ => ⟨0, 0, 0, 0⟩⟩, []⟩ areaRun s
      ∧ ∃ xs : List Addr, xs.Perm s.inserted ∧ s.space.Kept xs := by
  have hsome : (Lts.exec VmaMachine.next VmaOp.Ok
      ⟨⟨(Links.mk id id).init none, fun _ => ⟨0, 0, 0, 0⟩⟩, []⟩ areaRun).isSome = true := by
    decide
  obtain ⟨s, hs⟩ := Option.isSome_iff_exists.mp hsome
  exact ⟨s, Lts.run_of_exec hs, vma_list_kept (Lts.run_of_exec hs)⟩

end NoobKernel.Mm
