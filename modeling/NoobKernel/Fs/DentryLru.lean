import NoobKernel.Fs.DentryCache

set_option autoImplicit false

/-! # The LRU list of the dentry cache

`dentry_put` links a dentry when its count falls to zero, and only `dentry_free` unlinks one. What
is on `dentry_lru` are therefore the released dentries as long as none of them is used again
(`dentry_lru_well_formed`); with the first `dentry_get` of a released dentry one in use is on the
list, and with the next `dentry_put` the list is no circle any more (`not_lru_well_formed`).
-/

namespace NoobKernel.Fs

/-- The cache, the references that callers hold, and the dentries that have been put since they
were allocated. -/
structure LruMachine where
  dc : Dcache
  held : Addr → Nat
  released : Addr → Bool

def LruMachine.boot (dentry : Addr → Dentry) (list lru : Links Addr) : LruMachine :=
  ⟨dentryInit dentry list lru, fun _ => 0, fun _ => false⟩

/-- A dentry is put by the holder of a reference. -/
def DentryOp.HeldValid (s : LruMachine) : DentryOp → Prop
  | put d => s.dc.live d = true ∧ 0 < s.held d
  | op => op.Valid s.dc

def LruMachine.next (s : LruMachine) (op : DentryOp) : LruMachine :=
  let dc := (op.exec s.dc).2
  match op with
  | .alloc memory nameMemory _ _ _ =>
      if memory = 0 ∨ nameMemory = false then ⟨dc, s.held, s.released⟩
      else ⟨dc, Function.update s.held memory 1, Function.update s.released memory false⟩
  | .get d => ⟨dc, Function.update s.held d (s.held d + 1), s.released⟩
  | .put d => ⟨dc, Function.update s.held d (s.held d - 1), Function.update s.released d true⟩
  | .fill _ _ | .insert _ _ | .free _ => ⟨dc, s.held, s.released⟩

/-- A dentry that has been put is not got, or put, while its count is zero, and its count does not
wrap. -/
def DentryOp.KeepsLru (s : LruMachine) : DentryOp → Prop
  | get d => s.released d = true →
      (s.dc.dentry d).dRefcnt ≠ 0 ∧ (s.dc.dentry d).dRefcnt + 1 ≠ 0
  | put d => s.released d = true → (s.dc.dentry d).dRefcnt ≠ 0
  | _ => True

/-- The dentry has been put and has no references. -/
def LruMachine.Unused (s : LruMachine) (d : Addr) : Prop :=
  s.dc.live d = true ∧ s.released d = true ∧ (s.dc.dentry d).dRefcnt = 0

/-- `dentry_lru` goes once through the unused dentries, and through no others. -/
def LruMachine.WellFormed (s : LruMachine) : Prop :=
  ∃ xs, s.dc.lru.Circle 0 xs ∧ ∀ d, d ∈ xs ↔ s.Unused d

structure LruInv (s : LruMachine) (xs : List Addr) : Prop where
  null : s.dc.live 0 = false
  circle : s.dc.lru.Circle 0 xs
  mem : ∀ d, d ∈ xs ↔ s.Unused d
  alone : ∀ d, s.dc.live d = true → d ∉ xs → s.dc.lru.Alone d

namespace LruInv

variable {s : LruMachine} {xs : List Addr} {d : Addr}

theorem boot (dentry : Addr → Dentry) (list lru : Links Addr) :
    LruInv (.boot dentry list lru) [] where
  null := rfl
  circle := Links.circle_init lru 0
  mem _ := iff_of_false List.not_mem_nil fun h => Bool.false_ne_true h.1
  alone _ h := absurd h Bool.false_ne_true

theorem ne_zero (h : LruInv s xs) (hd : s.dc.live d = true) : d ≠ 0 := by
  rintro rfl
  exact Bool.false_ne_true (h.null.symm.trans hd)

theorem not_mem_cons (h : LruInv s xs) (hd : s.dc.live d = true) (hmem : d ∉ xs) :
    d ∉ (0 : Addr) :: xs := by
  rw [List.mem_cons, not_or]
  exact ⟨h.ne_zero hd, hmem⟩

/-- What does not touch the links, the counts and the allocated dentries. -/
theorem congr (h : LruInv s xs) {s' : LruMachine} (hlive : s'.dc.live = s.dc.live)
    (hlru : s'.dc.lru = s.dc.lru) (hunused : ∀ d, s'.Unused d ↔ s.Unused d) : LruInv s' xs where
  null := hlive ▸ h.null
  circle := hlru ▸ h.circle
  mem d := (h.mem d).trans (hunused d).symm
  alone := by
    rw [hlive, hlru]
    exact h.alone

theorem alloc (h : LruInv s xs) {memory : Addr} (nameMemory : Bool) (parent sb : Addr)
    (name : List UInt8) (hfresh : memory = 0 ∨ s.dc.live memory = false) :
    LruInv (s.next (.alloc memory nameMemory parent sb name)) xs := by
  unfold LruMachine.next DentryOp.exec dentryAlloc
  dsimp only
  by_cases hnone : memory = 0 ∨ nameMemory = false
  · rw [if_pos hnone, if_pos hnone]
    exact h
  · rw [if_neg hnone, if_neg hnone]
    rw [not_or] at hnone
    have hdead := hfresh.resolve_left hnone.1
    have hother : ∀ {d}, s.dc.live d = true → d ≠ memory := by
      rintro d hd rfl
      exact Bool.false_ne_true (hdead.symm.trans hd)
    have hxs : memory ∉ (0 : Addr) :: xs := by
      rw [List.mem_cons, not_or]
      exact ⟨hnone.1, fun hmem => hother ((h.mem memory).mp hmem).1 rfl⟩
    refine ⟨?_, h.circle.init hxs, fun d => ?_, fun d hd hmem => ?_⟩
    · exact (Function.update_of_ne (Ne.symm hnone.1) _ _).trans h.null
    · by_cases hd : d = memory
      · -- a new dentry has not been put
        rw [hd]
        refine iff_of_false (fun hmem => hxs (List.mem_cons_of_mem _ hmem)) fun hunused => ?_
        have hreleased : Function.update s.released memory false memory = true := hunused.2.1
        rw [Function.update_self] at hreleased
        cases hreleased
      · rw [h.mem d]
        unfold LruMachine.Unused
        simp only [Function.update_of_ne hd]
    · by_cases hdm : d = memory
      · rw [hdm]
        exact Links.alone_init _ _
      · have hlive : Function.update s.dc.live memory true d = true := hd
        rw [Function.update_of_ne hdm] at hlive
        exact (h.alone d hlive hmem).init memory

theorem free (h : LruInv s xs) (hd : s.dc.live d = true) :
    LruInv (s.next (.free d)) (xs.erase d) := by
  have hnodup := (List.nodup_cons.mp h.circle.1).2
  have hcircle : (s.dc.lru.del d).Circle 0 (xs.erase d) := by
    by_cases hmem : d ∈ xs
    · exact h.circle.del hmem
    · rw [(h.alone d hd hmem).del, List.erase_of_not_mem hmem]
      exact h.circle
  have hlive : ∀ {e}, Function.update s.dc.live d false e = true ↔ e ≠ d ∧ s.dc.live e = true := by
    intro e
    rw [Function.update_apply]
    split
    · rename_i heq
      exact iff_of_false Bool.false_ne_true fun h => h.1 heq
    · rename_i hne
      exact (and_iff_right hne).symm
  unfold LruMachine.next DentryOp.exec
  dsimp only
  rw [dentryFree_eq (h.ne_zero hd)]
  refine ⟨?_, hcircle, fun e => ?_, fun e he hmem => ?_⟩
  · exact (Function.update_of_ne (h.ne_zero hd).symm _ _).trans h.null
  · rw [hnodup.mem_erase_iff, h.mem, LruMachine.Unused, LruMachine.Unused, hlive, and_assoc]
  · obtain ⟨hne, he⟩ := hlive.mp he
    have hexs : e ∉ xs := fun hmem' => hmem (hnodup.mem_erase_iff.mpr ⟨hne, hmem'⟩)
    have halone := h.alone e he hexs
    by_cases hdmem : d ∈ xs
    · exact halone.del_of_mem h.circle hdmem (h.not_mem_cons he hexs)
    · rw [(h.alone d hd hdmem).del]
      exact halone

/-! ## Getting and putting -/

theorem next_get (hd : d ≠ 0) : s.next (.get d) = ⟨s.dc.setRefcnt d ((s.dc.dentry d).dRefcnt + 1),
    Function.update s.held d (s.held d + 1), s.released⟩ := by
  have hget : dentryGet s.dc d = s.dc.setRefcnt d ((s.dc.dentry d).dRefcnt + 1) := if_neg hd
  rw [← hget]
  rfl

theorem next_put (hd : d ≠ 0) : s.next (.put d) =
    ⟨if (s.dc.dentry d).dRefcnt - 1 = 0 then
        { s.dc.setRefcnt d ((s.dc.dentry d).dRefcnt - 1) with lru := s.dc.lru.add d 0 }
      else s.dc.setRefcnt d ((s.dc.dentry d).dRefcnt - 1),
    Function.update s.held d (s.held d - 1), Function.update s.released d true⟩ := by
  have hput : dentryPut s.dc d = if (s.dc.dentry d).dRefcnt - 1 = 0 then
        { s.dc.setRefcnt d ((s.dc.dentry d).dRefcnt - 1) with lru := s.dc.lru.add d 0 }
      else s.dc.setRefcnt d ((s.dc.dentry d).dRefcnt - 1) := if_neg hd
  rw [← hput]
  rfl

/-- Another dentry does not become used or unused. -/
theorem unused_setRefcnt {e : Addr} (he : e ≠ d) (r : UInt32) (held : Addr → Nat) (x : Bool) :
    LruMachine.Unused ⟨s.dc.setRefcnt d r, held, Function.update s.released d x⟩ e
      ↔ s.Unused e := by
  unfold LruMachine.Unused Dcache.setRefcnt
  simp only [Function.update_of_ne he]

theorem unused_self {r : UInt32} (hd : s.dc.live d = true) (held : Addr → Nat) (x : Bool) :
    LruMachine.Unused ⟨s.dc.setRefcnt d r, held, Function.update s.released d x⟩ d
      ↔ x = true ∧ r = 0 := by
  unfold LruMachine.Unused Dcache.setRefcnt
  simp only [Function.update_self]
  exact and_iff_right hd

theorem get (h : LruInv s xs) (hd : s.dc.live d = true) (hkeep : (DentryOp.get d).KeepsLru s) :
    LruInv (s.next (.get d)) xs := by
  rw [next_get (h.ne_zero hd)]
  refine h.congr rfl rfl fun e => ?_
  have hself := Function.update_eq_self d s.released
  by_cases he : e = d
  · rw [he, ← hself, unused_self hd]
    refine iff_of_false (fun hnew => (hkeep hnew.1).2 hnew.2) fun hold => ?_
    exact (hkeep hold.2.1).1 hold.2.2
  · rw [← hself]
    exact unused_setRefcnt he _ _ _

theorem put (h : LruInv s xs) (hd : s.dc.live d = true) (hkeep : (DentryOp.put d).KeepsLru s) :
    ∃ ys, LruInv (s.next (.put d)) ys := by
  rw [next_put (h.ne_zero hd)]
  by_cases hzero : (s.dc.dentry d).dRefcnt - 1 = 0
  · -- the last reference: the count was one, so the dentry is not on the list
    have hone : (s.dc.dentry d).dRefcnt ≠ 0 := by
      intro heq
      rw [heq] at hzero
      exact absurd hzero (by decide)
    have hmem : d ∉ xs := fun hmem => hone ((h.mem d).mp hmem).2.2
    have hcons := h.not_mem_cons hd hmem
    rw [if_pos hzero]
    refine ⟨d :: xs, h.null, h.circle.add hcons, fun e => ?_, fun e he hnot => ?_⟩
    · rw [List.mem_cons]
      by_cases hed : e = d
      · rw [hed]
        exact iff_of_true (.inl rfl) ((unused_self hd (fun _ => 0) true).mpr ⟨rfl, hzero⟩)
      · rw [or_iff_right hed, h.mem]
        exact (unused_setRefcnt hed _ (fun _ => 0) _).symm
    · rw [List.mem_cons, not_or] at hnot
      exact (h.alone e he hnot.2).add hnot.1 h.circle (h.not_mem_cons he hnot.2)
  · rw [if_neg hzero]
    refine ⟨xs, h.congr rfl rfl fun e => ?_⟩
    by_cases he : e = d
    · rw [he, unused_self hd]
      exact iff_of_false (fun hnew => hzero hnew.2) fun hold => hkeep hold.2.1 hold.2.2
    · exact unused_setRefcnt he _ _ _

/-- **A call that keeps to it** keeps the list well formed. -/
theorem next (h : LruInv s xs) {op : DentryOp} (hvalid : op.HeldValid s) (hkeep : op.KeepsLru s) :
    ∃ ys, LruInv (s.next op) ys := by
  cases op with
  | alloc memory nameMemory parent sb name =>
      exact ⟨xs, h.alloc nameMemory parent sb name (hvalid.imp_right And.left)⟩
  | fill d inode =>
      refine ⟨xs, h.congr rfl rfl fun e => ?_⟩
      -- an inode is filled in, and no count changes
      have href : (Function.update s.dc.dentry d { s.dc.dentry d with dInode := inode } e).dRefcnt
          = (s.dc.dentry e).dRefcnt := by
        rw [Function.update_apply]
        split
        · rename_i heq
          rw [heq]
        · rfl
      unfold LruMachine.Unused LruMachine.next DentryOp.exec
      dsimp only
      rw [href]
  | get d => exact ⟨xs, h.get hvalid hkeep⟩
  | put d => exact h.put hvalid.1 hkeep
  | insert d memory =>
      refine ⟨xs, ?_⟩
      have hsame : (dentryInsert s.dc d memory).2.live = s.dc.live
          ∧ (dentryInsert s.dc d memory).2.lru = s.dc.lru
          ∧ (dentryInsert s.dc d memory).2.dentry = s.dc.dentry := by
        rcases dentryInsert_cases s.dc d memory with ⟨heq, -⟩ | ⟨-, heq⟩
        · rw [heq]
          exact ⟨rfl, rfl, rfl⟩
        · rw [heq]
          exact ⟨rfl, rfl, rfl⟩
      refine h.congr hsame.1 hsame.2.1 fun e => ?_
      unfold LruMachine.Unused LruMachine.next DentryOp.exec
      dsimp only
      rw [hsame.1, hsame.2.2]
  | free d => exact ⟨_, h.free hvalid⟩

/-- One that does not breaks it. -/
theorem wellFormed_iff (h : LruInv s xs) {op : DentryOp} (hvalid : op.HeldValid s) :
    (s.next op).WellFormed ↔ op.KeepsLru s := by
  constructor
  · -- a call that breaks the rule leaves a dentry on the wrong side of the list
    rintro ⟨ys, hcircle, hys⟩
    cases op with
    | get d =>
        intro hreleased
        have hd : s.dc.live d = true := hvalid
        rw [next_get (h.ne_zero hd)] at hcircle hys
        obtain rfl := h.circle.unique hcircle
        have hiff := (hys d).symm.trans (h.mem d)
        have hself := Function.update_eq_self d s.released
        rw [← hself, unused_self hd, LruMachine.Unused] at hiff
        simp only [hd, hreleased, true_and] at hiff
        refine ⟨fun heq => ?_, fun heq => ?_⟩
        · have := hiff.mpr heq
          rw [heq] at this
          exact absurd this (by decide)
        · have := hiff.mp heq
          rw [this] at heq
          exact absurd heq (by decide)
    | put d =>
        intro hreleased heq
        have hd : s.dc.live d = true := hvalid.1
        have hpred : (s.dc.dentry d).dRefcnt - 1 ≠ 0 := by
          rw [heq]
          decide
        rw [next_put (h.ne_zero hd), if_neg hpred] at hcircle hys
        obtain rfl := h.circle.unique hcircle
        have hmem : d ∈ xs := (h.mem d).mpr ⟨hd, hreleased, heq⟩
        exact hpred ((unused_self hd _ _).mp ((hys d).mp hmem)).2
    | alloc | fill | insert | free => trivial
  · intro hkeep
    obtain ⟨ys, hys⟩ := h.next hvalid hkeep
    exact ⟨ys, hys.circle, hys.mem⟩

end LruInv

/-! ## Every run -/

/-- Callers that put what they hold, and do what `ok` says. -/
abbrev LruRun (ok : LruMachine → DentryOp → Prop) : LruMachine → List DentryOp → LruMachine → Prop :=
  Lts.Run (Lts.Steps (fun s op => some (s.next op)) fun s op => op.HeldValid s ∧ ok s op)

/-- **The LRU list** is well formed in every state of a run whose calls leave released dentries
alone, and stays so with the next call exactly if that does. -/
theorem dentry_lru_well_formed {dentry : Addr → Dentry} {list lru : Links Addr}
    {ops : List DentryOp} {s : LruMachine}
    (run : LruRun (fun s op => op.KeepsLru s) (.boot dentry list lru) ops s) :
    s.WellFormed ∧ ∀ op : DentryOp, op.HeldValid s → ((s.next op).WellFormed ↔ op.KeepsLru s) := by
  have hinv : ∃ xs, LruInv s xs := by
    refine run.invariant (P := fun s => ∃ xs, LruInv s xs) ⟨[], .boot dentry list lru⟩ ?_
    rintro s e s' ⟨xs, h⟩ ⟨op, ⟨hvalid, hkeep⟩, -, hnext⟩
    obtain rfl := Option.some.inj hnext
    exact h.next hvalid hkeep
  obtain ⟨xs, h⟩ := hinv
  exact ⟨⟨xs, h.circle, h.mem⟩, fun op hvalid => h.wellFormed_iff hvalid⟩

instance DentryOp.decidableHeldValid (s : LruMachine) (op : DentryOp) :
    Decidable (op.HeldValid s) :=
  match op with
  | .put d => inferInstanceAs (Decidable (s.dc.live d = true ∧ 0 < s.held d))
  | .alloc memory _ _ _ _ => inferInstanceAs (Decidable (memory = 0 ∨ s.dc.live memory = false
      ∧ PM_START ≤ memory.toNat ∧ memory.toNat < PM_END))
  | .fill d _ | .get d | .insert d _ | .free d =>
      inferInstanceAs (Decidable (s.dc.live d = true))

instance DentryOp.decidableKeepsLru (s : LruMachine) (op : DentryOp) :
    Decidable (op.KeepsLru s) :=
  match op with
  | .get d => inferInstanceAs (Decidable (s.released d = true →
      (s.dc.dentry d).dRefcnt ≠ 0 ∧ (s.dc.dentry d).dRefcnt + 1 ≠ 0))
  | .put d => inferInstanceAs (Decidable (s.released d = true → (s.dc.dentry d).dRefcnt ≠ 0))
  | .alloc _ _ _ _ _ | .fill _ _ | .insert _ _ | .free _ => isTrue trivial

/-- Before any dentry is allocated. -/
def lruBoot : LruMachine :=
  .boot (fun _ => ⟨⟨[], 0, 0⟩, 0, 0, 0, 0⟩) ⟨fun _ => 0, fun _ => 0⟩ ⟨fun _ => 0, fun _ => 0⟩

/-- Two dentries; one is got and put once more before the last reference to it goes. -/
def lruCareful : List DentryOp :=
  [.alloc 0x80000000 true 0 0x1000 [47], .alloc 0x80000100 true 0x80000000 0x1000 [97],
    .get 0x80000100, .put 0x80000100, .put 0x80000100, .put 0x80000000]

theorem dentry_lru_well_formed_careful :
    ∃ s, LruRun (fun s op => op.KeepsLru s) lruBoot lruCareful s ∧ s.WellFormed
      ∧ ∀ op : DentryOp, op.HeldValid s → ((s.next op).WellFormed ↔ op.KeepsLru s) := by
  have hsome : (Lts.exec (fun (s : LruMachine) op => some (s.next op))
      (fun s op => op.HeldValid s ∧ op.KeepsLru s) lruBoot lruCareful).isSome = true := by
    decide
  obtain ⟨s, hs⟩ := Option.isSome_iff_exists.mp hsome
  exact ⟨s, Lts.run_of_exec hs, dentry_lru_well_formed (Lts.run_of_exec hs)⟩

/-- A dentry on the list is one of those it should have. -/
theorem LruMachine.WellFormed.unused_of_next {s : LruMachine} (h : s.WellFormed)
    (hne : s.dc.lru.next 0 ≠ 0) : s.Unused (s.dc.lru.next 0) := by
  obtain ⟨xs, hcircle, hxs⟩ := h
  refine (hxs _).mp ?_
  rcases List.mem_append.mp hcircle.2.next_mem with hmem | hmem
  · exact hmem
  · exact absurd (List.mem_singleton.mp hmem) hne

/-- A dentry is put, got and put again. -/
def lruReused : List DentryOp :=
  [.alloc 0x80000000 true 0 0x1000 [47], .put 0x80000000, .get 0x80000000, .put 0x80000000]

/-- The `dentry_get` leaves the dentry on the list although it is in use, and after the second
`dentry_put` its node is linked to itself, where no loop over the list ends. -/
theorem not_lru_well_formed :
    ∃ s s', LruRun (fun _ _ => True) lruBoot (lruReused.take 3) s ∧ ¬s.WellFormed
      ∧ LruRun (fun _ _ => True) lruBoot lruReused s' ∧ s'.dc.lru.next 0 = 0x80000000
      ∧ s'.dc.lru.next 0x80000000 = 0x80000000 := by
  have hget : (Lts.exec (fun (s : LruMachine) op => some (s.next op))
      (fun s op => op.HeldValid s ∧ True) lruBoot (lruReused.take 3)).map (fun s =>
        (s.dc.lru.next 0, (s.dc.dentry 0x80000000).dRefcnt)) = some (0x80000000, 1) := by
    decide
  have hput : (Lts.exec (fun (s : LruMachine) op => some (s.next op))
      (fun s op => op.HeldValid s ∧ True) lruBoot lruReused).map (fun s =>
        (s.dc.lru.next 0, s.dc.lru.next 0x80000000)) = some (0x80000000, 0x80000000) := by
    decide
  obtain ⟨s, hs, hfields⟩ := Option.map_eq_some_iff.mp hget
  obtain ⟨s', hs', hlinks⟩ := Option.map_eq_some_iff.mp hput
  obtain ⟨hnext, href⟩ := Prod.mk.inj hfields
  obtain ⟨hhead, hself⟩ := Prod.mk.inj hlinks
  refine ⟨s, s', Lts.run_of_exec hs, fun hwell => ?_, Lts.run_of_exec hs', hhead, hself⟩
  have hunused := hwell.unused_of_next (by rw [hnext]; decide)
  rw [hnext, LruMachine.Unused, href] at hunused
  exact absurd hunused.2.2 (by decide)

end NoobKernel.Fs
