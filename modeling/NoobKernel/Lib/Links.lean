import Mathlib.Tactic

set_option autoImplicit false

/-! # Circular doubly linked lists

The two link fields of all nodes are a pair of maps, and the operations are the pointer writes.
`Circle l head xs` says that the links lead from the head through `xs` and back. A node that is
on no list is `Alone`: it links to itself, and deleting it changes nothing. A loop over a list is
a `scan` from its head, in either direction. `Circles` is a table of list heads, such as that of a
hash table, whose lists have no node in common.
-/

structure Links (N : Type) where
  next : N → N
  prev : N → N

namespace Links

variable {N : Type} [DecidableEq N]

/-- A node linked to itself. -/
def init (l : Links N) (n : N) : Links N :=
  ⟨Function.update l.next n n, Function.update l.prev n n⟩

/-- `new` comes between two neighbours. -/
def insert (l : Links N) (new prev next : N) : Links N :=
  ⟨Function.update (Function.update l.next new next) prev new,
    Function.update (Function.update l.prev next new) new prev⟩

def add (l : Links N) (new head : N) : Links N := l.insert new head (l.next head)

def addTail (l : Links N) (new head : N) : Links N := l.insert new (l.prev head) head

/-- The neighbours of a node are linked to each other; its own links stay. -/
def del (l : Links N) (n : N) : Links N :=
  ⟨Function.update l.next (l.prev n) (l.next n), Function.update l.prev (l.next n) (l.prev n)⟩

/-- The links lead from `a` through `xs` to `b`, and back. -/
def Path (l : Links N) : N → List N → N → Prop
  | a, [], b => l.next a = b ∧ l.prev b = a
  | a, x :: xs, b => (l.next a = x ∧ l.prev x = a) ∧ Path l x xs b

def Circle (l : Links N) (head : N) (xs : List N) : Prop :=
  (head :: xs).Nodup ∧ l.Path head xs head

def Alone (l : Links N) (n : N) : Prop := l.next n = n ∧ l.prev n = n

/-- The first node with the property from `c` on, or none when `stop` comes first. The loop looks
at no more than `fuel` nodes. -/
def scan (step : N → N) (stop : N) (p : N → Bool) : Nat → N → Option (Option N)
  | 0, _ => none
  | fuel + 1, c =>
      if c = stop then some none else if p c then some (some c) else scan step stop p fuel (step c)

/-- The list heads `head 0`, …, `head (k - 1)` of disjoint lists. -/
structure Circles (l : Links N) (k : Nat) (head : Nat → N) (xs : Nat → List N) : Prop where
  circle : ∀ h < k, l.Circle (head h) (xs h)
  disjoint : ∀ h < k, ∀ h' < k, h ≠ h' → ∀ c ∈ head h :: xs h, c ∉ head h' :: xs h'

variable {l l' : Links N} {a b n head new : N} {xs ys : List N}

theorem insert_next (p q c : N) : (l.insert new p q).next c
    = if c = p then new else if c = new then q else l.next c := by
  simp only [insert, Function.update_apply]

theorem insert_prev (p q c : N) : (l.insert new p q).prev c
    = if c = new then p else if c = q then new else l.prev c := by
  simp only [insert, Function.update_apply]

theorem add_next (c : N) : (l.add new head).next c
    = if c = head then new else if c = new then l.next head else l.next c :=
  insert_next head (l.next head) c

theorem add_prev (c : N) : (l.add new head).prev c
    = if c = new then head else if c = l.next head then new else l.prev c :=
  insert_prev head (l.next head) c

theorem del_next (c : N) :
    (l.del n).next c = if c = l.prev n then l.next n else l.next c := by
  simp only [del, Function.update_apply]

theorem del_prev (c : N) :
    (l.del n).prev c = if c = l.next n then l.prev n else l.prev c := by
  simp only [del, Function.update_apply]

/-! ## Paths -/

omit [DecidableEq N] in
theorem path_append {x : N} :
    l.Path a (xs ++ x :: ys) b ↔ l.Path a xs x ∧ l.Path x ys b := by
  induction xs generalizing a with
  | nil => exact Iff.rfl
  | cons c xs ih => exact (and_congr_right fun _ => ih).trans and_assoc.symm

omit [DecidableEq N] in
/-- A path depends on the links of its own nodes. -/
theorem Path.congr (h : l.Path a xs b) (hnext : ∀ c ∈ a :: xs, l'.next c = l.next c)
    (hprev : ∀ c ∈ xs ++ [b], l'.prev c = l.prev c) : l'.Path a xs b := by
  induction xs generalizing a with
  | nil =>
      rw [Path, hnext a List.mem_cons_self, hprev b (List.mem_singleton_self b)]
      exact h
  | cons x xs ih =>
      refine ⟨?_, ih h.2 (fun c hc => hnext c (List.mem_cons_of_mem _ hc))
        fun c hc => hprev c (List.mem_cons_of_mem _ hc)⟩
      rw [hnext a List.mem_cons_self, hprev x List.mem_cons_self]
      exact h.1

omit [DecidableEq N] in
/-- The node before the end is on the path. -/
theorem Path.prev_mem (h : l.Path a xs b) : l.prev b ∈ a :: xs := by
  induction xs generalizing a with
  | nil =>
      rw [h.2]
      exact List.mem_cons_self
  | cons x xs ih => exact List.mem_cons_of_mem _ (ih h.2)

omit [DecidableEq N] in
theorem Path.next_mem (h : l.Path a xs b) : l.next a ∈ xs ++ [b] := by
  cases xs with
  | nil =>
      rw [h.1]
      exact List.mem_singleton_self b
  | cons x xs =>
      rw [h.1.1]
      exact List.mem_cons_self

/-- The end of a path moves to the node behind the one deleted. -/
theorem Path.del_end (h : l.Path a xs n) (hnodup : (a :: xs).Nodup) (hn : l.next n ∉ xs) :
    (l.del n).Path a xs (l.next n) := by
  induction xs generalizing a with
  | nil =>
      rw [Path, del_next, del_prev, h.2]
      exact ⟨if_pos rfl, if_pos rfl⟩
  | cons x xs ih =>
      have hprev : l.prev n ∈ x :: xs := h.2.prev_mem
      have ha : a ≠ l.prev n := fun heq => (List.nodup_cons.mp hnodup).1 (heq ▸ hprev)
      have hx : x ≠ l.next n := fun heq => hn (heq ▸ List.mem_cons_self)
      refine ⟨?_, ih h.2 (List.nodup_cons.mp hnodup).2 fun hmem => hn (List.mem_cons_of_mem _ hmem)⟩
      rw [del_next, del_prev, if_neg ha, if_neg hx]
      exact h.1

/-- A path gets a new end in front of the old one. -/
theorem Path.insert_end (h : l.Path a xs b) (hnodup : (a :: xs).Nodup) (hb : b ∉ xs)
    (hnew : new ∉ a :: xs) : (l.insert new (l.prev b) b).Path a xs new := by
  induction xs generalizing a with
  | nil =>
      rw [Path, insert_next, insert_prev, h.2]
      exact ⟨if_pos rfl, if_pos rfl⟩
  | cons x xs ih =>
      have hprev : l.prev b ∈ x :: xs := h.2.prev_mem
      have ha : a ≠ l.prev b := fun heq => (List.nodup_cons.mp hnodup).1 (heq ▸ hprev)
      have hanew : a ≠ new := fun heq => hnew (heq ▸ List.mem_cons_self)
      have hxnew : x ≠ new := fun heq =>
        hnew (heq ▸ List.mem_cons_of_mem _ List.mem_cons_self)
      have hx : x ≠ b := fun heq => hb (heq ▸ List.mem_cons_self)
      refine ⟨?_, ih h.2 (List.nodup_cons.mp hnodup).2
        (fun hmem => hb (List.mem_cons_of_mem _ hmem))
        fun hmem => hnew (List.mem_cons_of_mem _ hmem)⟩
      rw [insert_next, insert_prev, if_neg ha, if_neg hanew, if_neg hxnew, if_neg hx]
      exact h.1

/-! ## Circles -/

theorem circle_init (l : Links N) (head : N) : (l.init head).Circle head [] :=
  ⟨List.nodup_singleton _, Function.update_self _ _ _, Function.update_self _ _ _⟩

theorem Circle.add (h : l.Circle head xs) (hnew : new ∉ head :: xs) :
    (l.add new head).Circle head (new :: xs) := by
  obtain ⟨hnodup, hpath⟩ := h
  have hhead : new ≠ head := fun heq => hnew (heq ▸ List.mem_cons_self)
  have hxs : new ∉ xs := fun hmem => hnew (List.mem_cons_of_mem _ hmem)
  refine ⟨List.nodup_cons.mpr ⟨?_, List.nodup_cons.mpr ⟨hxs, (List.nodup_cons.mp hnodup).2⟩⟩, ?_⟩
  · rintro (_ | ⟨_, hmem⟩)
    · exact hhead rfl
    · exact (List.nodup_cons.mp hnodup).1 hmem
  · refine ⟨⟨by rw [add_next, if_pos rfl], by rw [add_prev, if_pos rfl]⟩, ?_⟩
    cases xs with
    -- the new entry is alone, and linked to the head on both sides
    | nil =>
        refine ⟨?_, ?_⟩
        · rw [add_next, if_neg hhead, if_pos rfl]
          exact hpath.1
        · rw [add_prev, if_neg hhead.symm, hpath.1, if_pos rfl]
    | cons x xs =>
        -- the links behind `x` stay as they are; only its own one back changes
        have hx : l.next head = x := hpath.1.1
        have hmem : x ∈ x :: xs := List.mem_cons_self
        have hxnew : x ≠ new := fun heq => hxs (heq ▸ hmem)
        have hxhead : x ≠ head := fun heq => (List.nodup_cons.mp hnodup).1 (heq ▸ hmem)
        refine ⟨⟨?_, ?_⟩, hpath.2.congr (fun c hc => ?_) fun c hc => ?_⟩
        · rw [add_next, if_neg hhead, if_pos rfl, hx]
        · rw [add_prev, if_neg hxnew, hx, if_pos rfl]
        · have hc1 : c ≠ head := fun heq => (List.nodup_cons.mp hnodup).1 (heq ▸ hc)
          have hc2 : c ≠ new := fun heq => hxs (heq ▸ hc)
          rw [add_next, if_neg hc1, if_neg hc2]
        · have hc1 : c ≠ new := by
            rintro rfl
            rcases List.mem_append.mp hc with hc | hc
            · exact hxs (List.mem_cons_of_mem _ hc)
            · exact hhead (List.mem_singleton.mp hc)
          have hc2 : c ≠ x := by
            rintro rfl
            rcases List.mem_append.mp hc with hc | hc
            · exact (List.nodup_cons.mp (List.nodup_cons.mp hnodup).2).1 hc
            · exact hxhead (List.mem_singleton.mp hc)
          rw [add_prev, if_neg hc1, hx, if_neg hc2]

theorem Circle.addTail (h : l.Circle head xs) (hnew : new ∉ head :: xs) :
    (l.addTail new head).Circle head (xs ++ [new]) := by
  obtain ⟨hnodup, hpath⟩ := h
  have hhead : head ≠ new := fun heq => hnew (heq ▸ List.mem_cons_self)
  refine ⟨?_, path_append.mpr ⟨hpath.insert_end hnodup (List.nodup_cons.mp hnodup).1 hnew, ?_⟩⟩
  · rw [← List.cons_append]
    exact List.nodup_append.mpr ⟨hnodup, List.nodup_singleton _,
      fun c hc d hd heq => hnew (List.mem_singleton.mp hd ▸ heq ▸ hc)⟩
  · have hprev : new ≠ l.prev head := fun heq => hnew (heq ▸ hpath.prev_mem)
    rw [Path, Links.addTail, insert_next, insert_prev, if_neg hprev, if_neg hhead]
    exact ⟨if_pos rfl, if_pos rfl⟩

theorem Circle.del (h : l.Circle head xs) (hn : n ∈ xs) : (l.del n).Circle head (xs.erase n) := by
  obtain ⟨hnodup, hpath⟩ := h
  obtain ⟨ys, zs, hys, rfl, herase⟩ := List.exists_erase_eq hn
  obtain ⟨hpath₁, hpath₂⟩ := path_append.mp hpath
  rw [herase]
  have hcons : (head :: ys ++ n :: zs).Nodup := hnodup
  have hys' : (head :: ys).Nodup := (List.nodup_append.mp hcons).1
  have hdisj := (List.nodup_append.mp hcons).2.2
  have hnzs := (List.nodup_append.mp hcons).2.1
  have hsub : (head :: (ys ++ zs)).Nodup :=
    hnodup.sublist (((List.Sublist.refl ys).append (List.sublist_cons_self n zs)).cons_cons head)
  refine ⟨hsub, ?_⟩
  have hprev := hpath₁.prev_mem
  cases zs with
  | nil =>
      -- the last entry: the one before it is linked to the head
      have hhead : l.next n = head := hpath₂.1
      rw [List.append_nil]
      have hend := hpath₁.del_end hys' (by rw [hhead]; exact (List.nodup_cons.mp hys').1)
      rwa [hhead] at hend
  | cons z zs =>
      have hz : l.next n = z := hpath₂.1.1
      have hzmem : z ∈ n :: z :: zs := List.mem_cons_of_mem _ List.mem_cons_self
      -- an entry is behind it: the path up to `n` ends at `z`, and behind `z` nothing changes
      refine path_append.mpr ⟨?_, hpath₂.2.congr (fun c hc => ?_) fun c hc => ?_⟩
      · rw [← hz]
        refine hpath₁.del_end hys' fun hmem => ?_
        exact hdisj _ (List.mem_cons_of_mem _ hmem) _ (hz ▸ hzmem) rfl
      · refine Function.update_of_ne (fun heq => ?_) _ _
        exact hdisj _ hprev _ (List.mem_cons_of_mem _ (heq ▸ hc)) rfl
      · have hcz : c ≠ l.next n := by
          rw [hz]
          rintro rfl
          rcases List.mem_append.mp hc with hc | hc
          · exact (List.nodup_cons.mp (List.nodup_cons.mp hnzs).2).1 hc
          · rw [List.mem_singleton] at hc
            exact hdisj _ List.mem_cons_self _ (hc ▸ hzmem) rfl
        exact Function.update_of_ne hcz _ _

/-- Deleting a node a second time changes nothing. -/
theorem del_del (l : Links N) (n : N) : (l.del n).del n = l.del n := by
  have hnext : (l.del n).next n = l.next n := by rw [del_next, ite_self]
  have hprev : (l.del n).prev n = l.prev n := by rw [del_prev, ite_self]
  conv_lhs => rw [Links.del, hnext, hprev]
  unfold Links.del
  rw [Function.update_idem, Function.update_idem]

omit [DecidableEq N] in
/-- The same circle from another of its nodes. -/
theorem Circle.rotate (h : l.Circle head (xs ++ n :: ys)) : l.Circle n (ys ++ head :: xs) := by
  obtain ⟨hpath₁, hpath₂⟩ := path_append.mp h.2
  refine ⟨?_, path_append.mpr ⟨hpath₂, hpath₁⟩⟩
  refine (List.Perm.nodup_iff ?_).mp h.1
  exact (@List.perm_append_comm _ (head :: xs) _).trans (List.Perm.refl _)

omit [DecidableEq N] in
/-- The links lead around. -/
theorem Circle.next_mem (h : l.Circle head xs) (hn : n ∈ head :: xs) : l.next n ∈ head :: xs := by
  rcases List.mem_cons.mp hn with rfl | hn
  · have hmem := h.2.next_mem
    simp only [List.mem_append, List.mem_singleton] at hmem
    exact List.mem_cons.mpr hmem.symm
  · obtain ⟨ys, zs, rfl⟩ := List.append_of_mem hn
    have hmem := h.rotate.2.next_mem
    simp only [List.mem_append, List.mem_cons, List.not_mem_nil, or_false] at hmem ⊢
    tauto

/-- A node comes before another one. -/
theorem Circle.addTail_at (h : l.Circle head (xs ++ n :: ys))
    (hnew : new ∉ head :: (xs ++ n :: ys)) :
    (l.addTail new n).Circle head (xs ++ new :: n :: ys) := by
  have hperm : (head :: (xs ++ n :: ys)).Perm (n :: (ys ++ head :: xs)) :=
    (@List.perm_append_comm _ (head :: xs) _).trans (List.Perm.refl _)
  have hadd := h.rotate.addTail fun hmem => hnew (hperm.mem_iff.mpr hmem)
  rw [List.append_assoc, List.cons_append] at hadd
  have hback := hadd.rotate
  rwa [List.append_assoc] at hback

/-- The node at the front goes. -/
theorem Circle.del_head (h : l.Circle head (n :: xs)) : (l.del n).Circle head xs := by
  have hdel := h.del List.mem_cons_self
  rwa [List.erase_cons_head] at hdel

theorem Circle.not_mem_erase (h : l.Circle head xs) (hn : n ∈ xs) : n ∉ head :: xs.erase n := by
  obtain ⟨hhead, hxs⟩ := List.nodup_cons.mp h.1
  intro hmem
  rcases List.mem_cons.mp hmem with rfl | hmem
  · exact hhead hn
  · exact hxs.not_mem_erase hmem

/-- Lists of nodes that are members of other objects. -/
theorem erase_map {M : Type} [DecidableEq M] {f : M → N} (hf : Function.Injective f) (m : M)
    (ms : List M) : (ms.map f).erase (f m) = (ms.erase m).map f :=
  (List.map_erase hf ms).symm

/-- A node is moved to the front, or to the end. -/
theorem Circle.move (h : l.Circle head xs) (hn : n ∈ xs) :
    ((l.del n).add n head).Circle head (n :: xs.erase n) :=
  (h.del hn).add (h.not_mem_erase hn)

theorem Circle.moveTail (h : l.Circle head xs) (hn : n ∈ xs) :
    ((l.del n).addTail n head).Circle head (xs.erase n ++ [n]) :=
  (h.del hn).addTail (h.not_mem_erase hn)

omit [DecidableEq N] in
theorem Circle.next_ne (h : l.Circle head xs) (ha : a ∈ xs) : l.next a ≠ a := by
  obtain ⟨ys, zs, rfl⟩ := List.append_of_mem ha
  have hnext := (path_append.mp h.2).2.next_mem
  have hcons : (head :: ys ++ a :: zs).Nodup := h.1
  intro heq
  rw [heq] at hnext
  rcases List.mem_append.mp hnext with hmem | hmem
  · exact (List.nodup_cons.mp (List.nodup_append.mp hcons).2.1).1 hmem
  · exact (List.nodup_append.mp hcons).2.2 _ List.mem_cons_self _ List.mem_cons_self
      (List.mem_singleton.mp hmem).symm

omit [DecidableEq N] in
/-- The links determine the list. -/
theorem Path.unique (hx : l.Path a xs b) (hy : l.Path a ys b) (hbx : b ∉ xs) (hby : b ∉ ys) :
    xs = ys := by
  induction xs generalizing a ys with
  | nil =>
      cases ys with
      | nil => rfl
      | cons y ys => exact absurd (hx.1.symm.trans hy.1.1 ▸ List.mem_cons_self) hby
  | cons x xs ih =>
      cases ys with
      | nil => exact absurd (hy.1.symm.trans hx.1.1 ▸ List.mem_cons_self) hbx
      | cons y ys =>
          obtain rfl : x = y := hx.1.1.symm.trans hy.1.1
          rw [ih hx.2 hy.2 (fun hmem => hbx (List.mem_cons_of_mem _ hmem))
            fun hmem => hby (List.mem_cons_of_mem _ hmem)]

omit [DecidableEq N] in
theorem Circle.unique (hx : l.Circle head xs) (hy : l.Circle head ys) : xs = ys :=
  hx.2.unique hy.2 (List.nodup_cons.mp hx.1).1 (List.nodup_cons.mp hy.1).1

/-! ## Loops over a list -/

/-- Where the search stops, the property holds. -/
theorem scan_some {step : N → N} {stop : N} {p : N → Bool} {fuel : Nat} {c n : N}
    (h : scan step stop p fuel c = some (some n)) : p n = true := by
  induction fuel generalizing c with
  | zero => cases h
  | succ fuel ih =>
      rw [scan] at h
      split at h
      · cases h
      · split at h
        · rename_i hp
          cases h
          exact hp
        · exact ih h

theorem Path.scan_next (h : l.Path a xs b) (hb : b ∉ xs) (p : N → Bool) {fuel : Nat}
    (hfuel : xs.length < fuel) : scan l.next b p fuel (l.next a) = some (xs.find? p) := by
  induction xs generalizing a fuel with
  | nil =>
      obtain ⟨fuel, rfl⟩ := Nat.exists_eq_add_of_lt hfuel
      rw [scan, if_pos h.1, List.find?_nil]
  | cons x xs ih =>
      obtain ⟨fuel, rfl⟩ := Nat.exists_eq_add_of_lt hfuel
      have hx : x ≠ b := fun heq => hb (heq ▸ List.mem_cons_self)
      rw [h.1.1, scan, if_neg hx, List.find?_cons]
      cases p x with
      | true => rfl
      | false => exact ih h.2 (fun hmem => hb (List.mem_cons_of_mem _ hmem)) (by simp; omega)

omit [DecidableEq N] in
/-- The same path from its end. -/
theorem Path.reverse (h : l.Path a xs b) : (Links.mk l.prev l.next).Path b xs.reverse a := by
  induction xs generalizing a with
  | nil => exact ⟨h.2, h.1⟩
  | cons x xs ih =>
      rw [List.reverse_cons, path_append]
      exact ⟨ih h.2, h.1.2, h.1.1⟩

theorem Circle.scan_next (h : l.Circle head xs) (p : N → Bool) {fuel : Nat}
    (hfuel : xs.length < fuel) : scan l.next head p fuel (l.next head) = some (xs.find? p) :=
  h.2.scan_next (List.nodup_cons.mp h.1).1 p hfuel

theorem Circle.scan_prev (h : l.Circle head xs) (p : N → Bool) {fuel : Nat}
    (hfuel : xs.length < fuel) :
    scan l.prev head p fuel (l.prev head) = some (xs.reverse.find? p) := by
  have hhead : head ∉ xs.reverse :=
    fun hmem => (List.nodup_cons.mp h.1).1 (List.mem_reverse.mp hmem)
  exact h.2.reverse.scan_next hhead p (by rwa [List.length_reverse])

/-! ## Several circles -/

omit [DecidableEq N] in
/-- A circle depends on the links of its own nodes. -/
theorem Circle.congr (h : l.Circle head xs) (hnext : ∀ c ∈ head :: xs, l'.next c = l.next c)
    (hprev : ∀ c ∈ head :: xs, l'.prev c = l.prev c) : l'.Circle head xs := by
  refine ⟨h.1, h.2.congr hnext fun c hc => hprev c ?_⟩
  rw [List.mem_append, List.mem_singleton] at hc
  rw [List.mem_cons]
  exact hc.symm

omit [DecidableEq N] in
/-- The neighbours of a node are on its circle. -/
theorem Circle.neighbours (h : l.Circle head xs) (hn : n ∈ head :: xs) :
    l.prev n ∈ head :: xs ∧ l.next n ∈ head :: xs := by
  have hend : ∀ c ∈ xs ++ [head], c ∈ head :: xs := by
    intro c hc
    rw [List.mem_append, List.mem_singleton] at hc
    rw [List.mem_cons]
    exact hc.symm
  rcases List.mem_cons.mp hn with rfl | hn
  · exact ⟨h.2.prev_mem, hend _ h.2.next_mem⟩
  · obtain ⟨ys, zs, rfl⟩ := List.append_of_mem hn
    obtain ⟨hbefore, hafter⟩ := path_append.mp h.2
    have hsub : ∀ c ∈ head :: ys, c ∈ head :: (ys ++ n :: zs) := by
      intro c hc
      rw [← List.cons_append]
      exact List.mem_append_left _ hc
    refine ⟨hsub _ hbefore.prev_mem, hend _ ?_⟩
    rw [List.append_assoc]
    exact List.mem_append_right _ (List.mem_cons_of_mem _ hafter.next_mem)

/-- Writes to nodes off the circle leave it. -/
theorem Circle.init (h : l.Circle head xs) (hn : n ∉ head :: xs) :
    (l.init n).Circle head xs := by
  have hne : ∀ c ∈ head :: xs, c ≠ n := fun c hc heq => hn (heq ▸ hc)
  exact h.congr (fun c hc => Function.update_of_ne (hne c hc) _ _)
    fun c hc => Function.update_of_ne (hne c hc) _ _

/-- Adding to one circle leaves another. -/
theorem Circle.add_of_disjoint {head' : N} (h : l.Circle head xs) (h' : l.Circle head' ys)
    (hdisj : ∀ c ∈ head :: xs, c ∉ head' :: ys) (hnew : new ∉ head :: xs) :
    (l.add new head').Circle head xs := by
  have hnext := (h'.neighbours List.mem_cons_self).2
  refine h.congr (fun c hc => ?_) fun c hc => ?_
  · have hhead : c ≠ head' := fun heq => hdisj c hc (heq ▸ List.mem_cons_self)
    have hc' : c ≠ new := fun heq => hnew (heq ▸ hc)
    rw [add_next, if_neg hhead, if_neg hc']
  · have hc' : c ≠ new := fun heq => hnew (heq ▸ hc)
    have hhead : c ≠ l.next head' := fun heq => hdisj c hc (heq ▸ hnext)
    rw [add_prev, if_neg hc', if_neg hhead]

/-- So does deleting from one. -/
theorem Circle.del_of_disjoint {head' : N} (h : l.Circle head xs) (h' : l.Circle head' ys)
    (hdisj : ∀ c ∈ head :: xs, c ∉ head' :: ys) (hn : n ∈ ys) : (l.del n).Circle head xs := by
  obtain ⟨hprev, hnext⟩ := h'.neighbours (List.mem_cons_of_mem _ hn)
  refine h.congr (fun c hc => ?_) fun c hc => ?_
  · have hne : c ≠ l.prev n := fun heq => hdisj c hc (heq ▸ hprev)
    rw [del_next, if_neg hne]
  · have hne : c ≠ l.next n := fun heq => hdisj c hc (heq ▸ hnext)
    rw [del_prev, if_neg hne]

/-! ## Nodes that are on no list -/

theorem alone_init (l : Links N) (n : N) : (l.init n).Alone n :=
  ⟨Function.update_self _ _ _, Function.update_self _ _ _⟩

theorem Alone.del (h : l.Alone n) : l.del n = l := by
  obtain ⟨hnext, hprev⟩ := h
  rw [Links.del, hprev, hnext]
  nth_rewrite 2 [← hnext]
  nth_rewrite 4 [← hprev]
  rw [Function.update_eq_self, Function.update_eq_self]

theorem Alone.init (h : l.Alone a) (n : N) : (l.init n).Alone a := by
  by_cases ha : a = n
  · subst ha
    exact alone_init l a
  · exact ⟨(Function.update_of_ne ha _ _).trans h.1, (Function.update_of_ne ha _ _).trans h.2⟩

omit [DecidableEq N] in
theorem alone_iff : l.Alone n ↔ l.Circle n [] :=
  ⟨fun h => ⟨List.nodup_singleton n, h⟩, fun h => h.2⟩

theorem Alone.add (h : l.Alone a) (hnew : a ≠ new) (hcircle : l.Circle head xs)
    (ha : a ∉ head :: xs) : (l.add new head).Alone a := by
  refine alone_iff.mpr ((alone_iff.mp h).add_of_disjoint hcircle (fun c hc => ?_) ?_)
  · rwa [List.mem_singleton.mp hc]
  · rw [List.mem_singleton]
    exact hnew.symm

theorem Alone.del_of_mem (h : l.Alone a) (hcircle : l.Circle head xs) (hn : n ∈ xs)
    (ha : a ∉ head :: xs) : (l.del n).Alone a := by
  refine alone_iff.mpr ((alone_iff.mp h).del_of_disjoint hcircle (fun c hc => ?_) hn)
  rwa [List.mem_singleton.mp hc]

/-! ## Tables of list heads -/

namespace Circles

variable {k i : Nat} {heads : Nat → N} {lists : Nat → List N}

omit [DecidableEq N] in
theorem zero (l : Links N) (heads : Nat → N) (lists : Nat → List N) :
    l.Circles 0 heads lists :=
  ⟨fun _ h => absurd h (Nat.not_lt_zero _), fun _ h => absurd h (Nat.not_lt_zero _)⟩

omit [DecidableEq N] in
/-- The lists depend on the links of their own nodes. -/
theorem congr (hl : l.Circles k heads lists)
    (hnext : ∀ h < k, ∀ c ∈ heads h :: lists h, l'.next c = l.next c)
    (hprev : ∀ h < k, ∀ c ∈ heads h :: lists h, l'.prev c = l.prev c) :
    l'.Circles k heads lists :=
  ⟨fun h hh => (hl.circle h hh).congr (hnext h hh) (hprev h hh), hl.disjoint⟩

/-- One more list head. -/
theorem init_head (hl : l.Circles k heads fun _ => []) (hne : ∀ h < k, heads h ≠ heads k) :
    (l.init (heads k)).Circles (k + 1) heads fun _ => [] := by
  refine ⟨fun h hh => ?_, fun h hh h' hh' hhh' c hc hc' => ?_⟩
  · rcases Nat.lt_succ_iff_lt_or_eq.mp hh with hh | rfl
    · exact (hl.circle h hh).init fun hmem => hne h hh (List.mem_singleton.mp hmem).symm
    · exact circle_init l (heads h)
  · have heq : heads h = heads h' :=
      (List.mem_singleton.mp hc).symm.trans (List.mem_singleton.mp hc')
    rcases Nat.lt_succ_iff_lt_or_eq.mp hh with hh | rfl
    · rcases Nat.lt_succ_iff_lt_or_eq.mp hh' with hh' | rfl
      · exact hl.disjoint h hh h' hh' hhh' c hc hc'
      · exact hne h hh heq
    · rcases Nat.lt_succ_iff_lt_or_eq.mp hh' with hh' | rfl
      · exact hne h' hh' heq.symm
      · exact hhh' rfl

/-- The loop that initializes a table. -/
theorem init_heads (l : Links N) {heads : Nat → N} (hinj : Function.Injective heads) (k : Nat) :
    ((List.range k).foldl (fun l h => l.init (heads h)) l).Circles k heads fun _ => [] := by
  induction k with
  | zero => exact zero l heads _
  | succ k ih =>
      rw [List.range_succ, List.foldl_append]
      exact ih.init_head fun h hh heq => hh.ne (hinj heq)

/-- A node that is on no list links to itself. -/
theorem init_node (hl : l.Circles k heads lists) (hn : ∀ h < k, n ∉ heads h :: lists h) :
    (l.init n).Circles k heads lists :=
  ⟨fun h hh => (hl.circle h hh).init (hn h hh), hl.disjoint⟩

/-- A node on no list goes to the front of one. -/
theorem add (hl : l.Circles k heads lists) (hi : i < k)
    (hnew : ∀ h < k, new ∉ heads h :: lists h) :
    (l.add new (heads i)).Circles k heads (Function.update lists i (new :: lists i)) := by
  have hmem : ∀ h < k, ∀ c ∈ heads h :: Function.update lists i (new :: lists i) h,
      (c = new ∧ h = i) ∨ c ∈ heads h :: lists h := by
    intro h hh c hc
    by_cases hne : h = i
    · rw [hne, Function.update_self, List.mem_cons, List.mem_cons] at hc
      rw [hne, List.mem_cons]
      tauto
    · rw [Function.update_of_ne hne] at hc
      exact .inr hc
  refine ⟨fun h hh => ?_, fun h hh h' hh' hne c hc hc' => ?_⟩
  · by_cases hne : h = i
    · rw [hne, Function.update_self]
      exact (hl.circle i hi).add (hnew i hi)
    · rw [Function.update_of_ne hne]
      exact (hl.circle h hh).add_of_disjoint (hl.circle i hi) (hl.disjoint h hh i hi hne)
        (hnew h hh)
  · rcases hmem h hh c hc with ⟨hcnew, hhi⟩ | hc
    · rcases hmem h' hh' c hc' with ⟨-, hhi'⟩ | hc'
      · exact hne (hhi.trans hhi'.symm)
      · exact hnew h' hh' (hcnew ▸ hc')
    · rcases hmem h' hh' c hc' with ⟨hcnew, -⟩ | hc'
      · exact hnew h hh (hcnew ▸ hc)
      · exact hl.disjoint h hh h' hh' hne c hc hc'

/-- A node leaves its list. -/
theorem del (hl : l.Circles k heads lists) (hi : i < k) (hn : n ∈ lists i) :
    (l.del n).Circles k heads fun h => (lists h).erase n := by
  have hsub : ∀ h, ∀ c ∈ heads h :: (lists h).erase n, c ∈ heads h :: lists h :=
    fun h c hc => List.cons_subset_cons _ List.erase_subset hc
  refine ⟨fun h hh => ?_, fun h hh h' hh' hne c hc hc' => ?_⟩
  · by_cases hne : h = i
    · rw [hne]
      exact (hl.circle i hi).del hn
    · have hdisj := hl.disjoint h hh i hi hne
      have hnot : n ∉ lists h := fun hmem =>
        hdisj n (List.mem_cons_of_mem _ hmem) (List.mem_cons_of_mem _ hn)
      show (l.del n).Circle (heads h) ((lists h).erase n)
      rw [List.erase_of_not_mem hnot]
      exact (hl.circle h hh).del_of_disjoint (hl.circle i hi) hdisj hn
  · exact hl.disjoint h hh h' hh' hne c (hsub h c hc) (hsub h' c hc')

end Circles

end Links
