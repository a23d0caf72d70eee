import NoobKernel.Mm.SlabCachesSteps

set_option autoImplicit false

/-! # Runs of the slab caches

In every run the records of a cache agree, no panic is reached, and no object is handed out twice
(`cacheRun_correct`), for objects of which a slab holds at least one (`not_cacheRun_correct`).
-/

namespace NoobKernel.Mm

open Misc Exec

variable {E R : Type}

/-! ## A whole call -/

theorem Caches.run_ok_inv {α : Type} {h h' : Caches E} {x : Mem E R α} {a : α} {l : List R}
    (hx : Caches.run x h = .ok a h' l) :
    ∃ k, x h.kernel = .ok a k l ∧ h' = { h with kernel := k } := by
  rw [Caches.run, zoom] at hx
  cases hrun : x h.kernel with
  | ok b k l₁ =>
      rw [hrun] at hx
      cases hx
      exact ⟨k, rfl, rfl⟩
  | fault f l₁ =>
      rw [hrun] at hx
      cases hx

/-- **The two halves of a call make `kmem_cache_alloc`**, with what happens in `buddy_alloc` in
between. -/
theorem kmemCacheAlloc_halves {h h₁ h₂ h₃ : Caches E} {c s : Nat} {ops : MetaOps E R}
    {l l₁ l₂ : List R}
    (hgrows : (h.kernel.caches c).grows = true)
    (hstart : (CacheCall.alloc c).exec ops h = .ok () h₁ l₁)
    (hbuddy : buddyAlloc ops SLAB_BLOB_SIZE h₁.kernel = .ok s h₂.kernel l)
    (hpending : h₂.pending = h₁.pending)
    (hend : (CacheCall.grown s).exec ops h₂ = .ok () h₃ l₂) :
    ∃ mem log, kmemCacheAlloc quiet ops (some c) h.kernel = .ok mem h₃.kernel log
      ∧ h₃.live = (h₂.give mem).live := by
  obtain ⟨k, henter, -⟩ := enterCache_spec (R := R) h.kernel c
  have hset : (setExpanding c true : Mem E R Unit) k
      = .ok () (k.updateCache c (.setExpanding true)) [] := rfl
  rw [CacheCall.exec, read_bind_apply, if_pos hgrows, Caches.run_bind henter,
    Caches.run_bind (h := { h with kernel := k }) hset, modify_apply] at hstart
  cases hstart
  rw [CacheCall.exec, read_bind_apply, hpending] at hend
  obtain ⟨mem, h', l₃, l₄, hrun, hgive⟩ := bind_ok_inv hend
  obtain ⟨k', hgrown, rfl⟩ := Caches.run_ok_inv hrun
  cases hgive
  refine ⟨mem, l ++ l₃, ?_, ?_⟩
  swap
  · unfold Caches.give
    split <;> rfl
  have hmiddle : buddyAlloc ops SLAB_BLOB_SIZE (k.updateCache c (.setExpanding true))
      = .ok s h₂.kernel l := hbuddy
  rw [kmemCacheAlloc_grows hgrows, bind_ok henter, Outcome.after_nil, bind_ok hset,
    Outcome.after_nil, bind_ok hmiddle, hgrown]
  dsimp only
  rw [Caches.give_state]
  rfl

/-- The two halves of `kmem_cache_init` with an initial slab. -/
theorem kmemCacheInitAt_halves {h h₁ h₂ h₃ : Caches E} {c s size : Nat} {ops : MetaOps E R}
    {l l₁ l₂ : List R} (hstart : (CacheCall.init c size true).exec ops h = .ok () h₁ l₁)
    (hbuddy : buddyAlloc ops SLAB_BLOB_SIZE h₁.kernel = .ok s h₂.kernel l)
    (hpending : h₂.pending = h₁.pending)
    (hend : (CacheCall.grown s).exec ops h₂ = .ok () h₃ l₂) :
    ∃ ret log, kmemCacheInitAt ops c size true h.kernel = .ok ret h₃.kernel log := by
  have hset : (modify fun k => k.updateCache c fun _ => kmemCacheInit size : Mem E R Unit) h.kernel
      = .ok () (h.kernel.updateCache c fun _ => kmemCacheInit size) [] := rfl
  rw [CacheCall.exec, modify_bind_apply,
    Caches.run_bind (h := { h with size := Function.update h.size c (some size) }) hset,
    if_neg (by decide), read_bind_apply] at hstart
  split at hstart
  · cases hstart
  · rename_i hinited
    cases hstart
    rw [CacheCall.exec, read_bind_apply, hpending] at hend
    obtain ⟨ret, h', l₃, l₄, hrun, hresume⟩ := bind_ok_inv hend
    obtain ⟨k', hgrown, rfl⟩ := Caches.run_ok_inv hrun
    cases hresume
    have hmiddle : buddyAlloc ops SLAB_BLOB_SIZE
        (h.kernel.updateCache c fun _ => kmemCacheInit size) = .ok s h₂.kernel l := hbuddy
    refine ⟨ret, l ++ l₃, ?_⟩
    rw [kmemCacheInitAt, modify_bind_apply, if_neg (by decide), read_bind_apply, if_neg hinited,
      bind_ok hmiddle]
    show (kmemCacheInitGrown c s h₂.kernel).after l = _
    rw [hgrown]
    rfl

/-! ## Runs -/

/-- **The invariant** of the caches and of the calls that wait. -/
structure Caches.Sound (h : Caches E) : Prop extends Served h, Waiting h

namespace CacheCall

/-- Caches are for objects of the sizes and are not flushed. -/
def Plain (sizes : Nat → Prop) : CacheCall → Prop
  | .init _ size _ => sizes size
  | .flush _ => False
  | .alloc _ | .grown _ | .free _ => True

instance (sizes : Nat → Prop) [DecidablePred sizes] :
    (call : CacheCall) → Decidable (call.Plain sizes)
  | .init _ size _ => inferInstanceAs (Decidable (sizes size))
  | .flush _ => inferInstanceAs (Decidable False)
  | .alloc _ | .grown _ | .free _ => inferInstanceAs (Decidable True)

end CacheCall

namespace Caches.Sound

variable {h : Caches E} {c s size x : Nat} {ops : MetaOps E R}

theorem alloc (sound : Sound h) (hallowed : (CacheCall.alloc c).Allowed h) :
    ∃ h', (CacheCall.alloc c).exec ops h = .ok () h' [] ∧ Sound h' := by
  obtain ⟨size, hsize⟩ := Option.ne_none_iff_exists'.mp hallowed
  have sv := sound.toServed
  have wt := sound.toWaiting
  rw [CacheCall.exec, read_bind_apply]
  cases hgrows : (h.kernel.caches c).grows with
  | false =>
      obtain ⟨mem, k, hrun, hlocks, hserved⟩ := sv.alloc ops hsize hgrows
      rw [if_neg Bool.false_ne_true, run_bind hrun, modify_apply]
      refine ⟨_, rfl, ⟨hserved, ?_⟩⟩
      refine wt.congr (give_pending _ _) (give_size _ _) ?_
      rw [give_state]
      exact hlocks
  | true =>
      obtain ⟨k, henter, hflags, -, hlocks⟩ := enterCache_spec (R := R) h.kernel c
      have hset : (setExpanding c true : Mem E R Unit) k
          = .ok () (k.updateCache c (.setExpanding true)) [] := rfl
      have hlocks' := sameLocks_setExpanding k c true
      rw [if_pos rfl, run_bind henter, run_bind (h := { h with kernel := k }) hset, modify_apply]
      refine ⟨_, rfl, ⟨?_, wt.wait hallowed (fun c' hc' => ?_) fun c' hc' => ?_⟩⟩
      · exact ((sv.reflag hflags).reflag (reflagged_setExpanding k c true)).congr_pending _
      · rw [Pending.lock] at hc'
        split at hc'
        · rename_i hfree
          obtain rfl := Option.some.inj hc'
          refine ⟨(Bool.not_eq_true' _).mp hfree, ?_⟩
          rw [hlocks' c, hlocks c, if_pos rfl]
        · cases hc'
      · rw [hlocks' c', hlocks c', hc', ite_self]

theorem init (sound : Sound h) {withInitialAlloc : Bool}
    (hallowed : (CacheCall.init c size withInitialAlloc).Allowed h) (us : Usable size) :
    ∃ h', (CacheCall.init c size withInitialAlloc).exec ops h = .ok () h' [] ∧ Sound h' := by
  obtain ⟨hnew, hinited⟩ := hallowed
  have hserved := sound.toServed.init us hnew
  have hwaiting := sound.toWaiting.init size hnew
  have hinit : (modify fun k => k.updateCache c fun _ => kmemCacheInit size : Mem E R Unit) h.kernel
      = .ok () (h.kernel.updateCache c fun _ => kmemCacheInit size) [] := rfl
  rw [CacheCall.exec, modify_bind_apply,
    run_bind (h := { h with size := Function.update h.size c (some size) }) hinit]
  cases withInitialAlloc with
  | false =>
      rw [if_pos rfl, pure_apply]
      exact ⟨_, rfl, ⟨hserved, hwaiting⟩⟩
  | true =>
      have hbuddy : ¬(h.kernel.updateCache c fun _ => kmemCacheInit size).buddyInited = false := by
        show ¬h.kernel.buddyInited = false
        rw [hinited rfl]
        decide
      rw [if_neg (by decide), read_bind_apply, if_neg hbuddy, modify_apply]
      refine ⟨_, rfl, ⟨hserved.congr_pending _, hwaiting.wait ?_ ?_ fun _ hc' => hc'⟩⟩
      · show Function.update h.size c (some size) c ≠ none
        rw [Function.update_self]
        exact Option.some_ne_none size
      · exact fun c' hc' => absurd hc' (by rw [Pending.lock]; exact (Option.some_ne_none c').symm)

theorem grown (sound : Sound h) (hallowed : (CacheCall.grown s).Allowed h) :
    ∃ h', (CacheCall.grown s).exec ops h = .ok () h' [] ∧ Sound h' := by
  obtain ⟨hpending, hs⟩ := hallowed
  have sv := sound.toServed
  have wt := sound.toWaiting
  obtain ⟨p, rest, hlist⟩ := List.exists_cons_of_ne_nil hpending
  have hknown := wt.known p (hlist ▸ List.mem_cons_self)
  obtain ⟨size, hsize⟩ := Option.ne_none_iff_exists'.mp hknown
  rw [CacheCall.exec, read_bind_apply, hlist]
  cases p with
  -- the call that waits for the slab goes on where it stopped
  | init c =>
      obtain ⟨ret, k, hrun, hlocks, hserved⟩ := sv.initGrown (R := R) (c := c) hsize hs
      dsimp only
      rw [run_bind hrun, modify_apply]
      refine ⟨_, rfl, ⟨hserved.congr_pending _, ?_⟩⟩
      exact wt.resume hlist (congrArg List.tail hlist) rfl fun c' _ => hlocks c'
  | alloc c taken =>
      have hheld : taken = true → (h.kernel.caches c).locked = true := by
        rintro rfl
        refine wt.held c (List.mem_filterMap.mpr ⟨.alloc c true, ?_, rfl⟩)
        rw [hlist]
        exact List.mem_cons_self
      obtain ⟨mem, k, hrun, hlocks, hserved⟩ := sv.allocGrown (R := R) (c := c) hsize hs hheld
      dsimp only
      rw [run_bind hrun, modify_apply]
      refine ⟨_, rfl, ⟨?_, ?_⟩⟩
      · exact hserved.give_congr_pending h.pending.tail
      · refine wt.resume hlist ((give_pending _ _).trans (congrArg List.tail hlist)) (give_size _ _)
          fun c' hc' => ?_
        rw [give_state]
        refine (hlocks c').trans (if_neg ?_)
        rintro ⟨rfl, rfl⟩
        exact hc' rfl

theorem free (sound : Sound h) (hallowed : (CacheCall.free x).Allowed h) :
    ∃ h', (CacheCall.free x).exec ops h = .ok () h' [] ∧ Sound h' := by
  obtain ⟨k, hrun, hlocks, hserved⟩ := sound.toServed.free (R := R) hallowed
  rw [CacheCall.exec, run_bind hrun, modify_apply]
  exact ⟨_, rfl, ⟨hserved, sound.toWaiting.congr rfl rfl hlocks⟩⟩

end Caches.Sound

/-- A size of objects of which a slab holds at least one. -/
def FitsSlab (size : Nat) : Prop := 0 < size ∧ size ≤ 65472

instance (size : Nat) : Decidable (FitsSlab size) := inferInstanceAs (Decidable (_ ∧ _))

/-- The records of a cache agree about its slabs. -/
structure Consistent (made : List Nat) (kmem : KmemCache) (slabs : Nat → Slab) : Prop where
  nodup : made.Nodup
  listed : (kmem.slabsFull ++ kmem.slabsPartial).Perm made
  bits : ∀ s ∈ made, (slabs s).bm.len = (slabs s).total ∧ (slabs s).free = (slabs s).bm.clearCount
  full : ∀ s ∈ made, s ∈ kmem.slabsFull ↔ (slabs s).free = 0
  some_free : ∀ s ∈ made, s ∈ kmem.slabsPartial ↔ (slabs s).free ≠ 0
  free : kmem.free = (made.map fun s => (slabs s).free).sum
  total : kmem.total = (made.map fun s => (slabs s).total).sum
  avail : 0 < kmem.free → kmem.slabsPartial ≠ []

/-- What holds in a state of the caches: the records agree, the users hold each object that is not
free once, and every call returns. -/
structure Caches.Correct (ops : MetaOps E R) (sizes : Nat → Prop) (h : Caches E) : Prop where
  consistent : ∀ c, h.size c ≠ none →
    Consistent (h.slabsOf c) (h.kernel.caches c) h.kernel.slabs
  live : ∀ x, x ∈ h.live ↔ h.ObjectInUse x
  nodup : h.live.Nodup
  returns : ∀ call : CacheCall, call.Allowed h → call.Plain sizes →
    ∃ h' log, call.exec ops h = .ok () h' log

theorem CacheOk.consistent {size c : Nat} {kmem : KmemCache} {slabs : Nat → Slab} {made : List Nat}
    (ok : CacheOk size c kmem slabs) (hmade : kmem.slabs.Perm made) :
    Consistent made kmem slabs where
  nodup := hmade.nodup_iff.mp ok.nodup
  listed := hmade
  bits s hs := by
    have slab := ok.slab s (hmade.mem_iff.mpr hs)
    exact ⟨slab.len.trans slab.total.symm, slab.free⟩
  full s hs := ok.mem_full_iff (hmade.mem_iff.mpr hs)
  some_free s hs := by
    refine ⟨ok.avail s, fun hfree => ?_⟩
    have hlisted := List.mem_append.mp (hmade.mem_iff.mpr hs)
    exact hlisted.resolve_left fun hfull => hfree (ok.full s hfull)
  free := by
    rw [ok.free]
    exact (hmade.map _).sum_eq
  total := by
    rw [ok.total]
    exact (hmade.map _).sum_eq
  avail hpos hnil := by
    refine hpos.ne' (ok.free.trans (List.sum_eq_zero fun n hn => ?_))
    obtain ⟨s, hs, rfl⟩ := List.mem_map.mp hn
    rw [KmemCache.slabs, hnil, List.append_nil] at hs
    exact ok.full s hs

namespace Caches.Sound

variable {h : Caches E} {ops : MetaOps E R}

/-- **One call** keeps the invariant and returns. -/
theorem step (sound : Sound h) (ops : MetaOps E R) {call : CacheCall} (hallowed : call.Allowed h)
    (hplain : call.Plain FitsSlab) : ∃ h', call.exec ops h = .ok () h' [] ∧ Sound h' := by
  cases call with
  | init c size withInitialAlloc => exact sound.init hallowed (usable_of_le hplain.1 hplain.2)
  | alloc c => exact sound.alloc hallowed
  | grown s => exact sound.grown hallowed
  | free addr => exact sound.free hallowed
  | flush c => exact hplain.elim

theorem other (sound : Sound h) {k : Kernel E} (hcaches : k.caches = h.kernel.caches)
    (hslabs : k.slabs = h.kernel.slabs) : Sound { h with kernel := k } := by
  refine ⟨sound.toServed.reflag ⟨hslabs, fun c => ⟨_, _, congrFun hcaches c⟩⟩, ?_⟩
  exact sound.toWaiting.congr rfl rfl fun c => congrArg KmemCache.locked (congrFun hcaches c)

theorem consistent (sound : Sound h) {c : Nat} (hc : h.size c ≠ none) :
    Consistent (h.slabsOf c) (h.kernel.caches c) h.kernel.slabs := by
  obtain ⟨size, hsize⟩ := Option.ne_none_iff_exists'.mp hc
  exact (sound.cache c size hsize).consistent (sound.made c size hsize)

theorem correct (sound : Sound h) : Correct ops FitsSlab h where
  consistent _ := sound.consistent
  live := sound.live
  nodup := sound.nodup
  returns call hallowed hplain := by
    obtain ⟨h', hrun, -⟩ := sound.step ops hallowed hplain
    exact ⟨h', [], hrun⟩

theorem boot (k : Kernel E) : Sound (⟨k, fun _ => none, [], [], []⟩ : Caches E) where
  usable _ _ hsize := nomatch hsize
  cache _ _ hsize := nomatch hsize
  made _ _ hsize := nomatch hsize
  owner _ hb := absurd hb List.not_mem_nil
  region _ hb := absurd hb List.not_mem_nil
  live x := by
    refine iff_of_false List.not_mem_nil ?_
    rintro ⟨c, size, hsize, -⟩
    cases hsize
  nodup := List.nodup_nil
  known _ hp := absurd hp List.not_mem_nil
  once := List.nodup_nil
  held _ hc := absurd hc List.not_mem_nil

end Caches.Sound

variable {ops : MetaOps E R} {h : Caches E}

/-- **The invariant of the caches** holds in every run. -/
theorem cacheRun_sound (run : CacheRun ops (fun _ call => call.Plain FitsSlab) h) : h.Sound := by
  induction run with
  | boot k => exact .boot k
  | step before allowed also run ih =>
      obtain ⟨h', hrun, sound⟩ := ih.step ops allowed also
      rw [hrun] at run
      cases run
      exact sound
  | other before caches slabs ih => exact ih.other caches slabs

/-- **The slab caches** in every run, with calls that wait for `buddy_alloc` and others that come in
between: for objects that fit into a slab the records of a cache agree, no panic is reached, and an
object is handed out again only after it has been freed. -/
theorem cacheRun_correct (run : CacheRun ops (fun _ call => call.Plain FitsSlab) h) :
    h.Correct ops FitsSlab := (cacheRun_sound run).correct

/-! ## Runs that are computed -/

/-- The calls one after the other, as long as they are allowed, pass `p` and return. -/
def runCacheCalls (ops : MetaOps E R) (p : Caches E → CacheCall → Bool) :
    List CacheCall → Caches E → Option (Caches E)
  | [], h => some h
  | call :: calls, h =>
      if call.Allowed h ∧ p h call then
        match call.exec ops h with
        | .ok _ h' _ => runCacheCalls ops p calls h'
        | .fault _ _ => none
      else none

theorem CacheRun.of_calls {ok : Caches E → CacheCall → Prop} {p : Caches E → CacheCall → Bool}
    {calls : List CacheCall} {h' : Caches E} (hp : ∀ h call, p h call = true → ok h call)
    (before : CacheRun ops ok h) (hrun : runCacheCalls ops p calls h = some h') :
    CacheRun ops ok h' := by
  induction calls generalizing h with
  | nil =>
      cases hrun
      exact before
  | cons call calls ih =>
      rw [runCacheCalls] at hrun
      split at hrun
      · rename_i hok
        split at hrun
        · rename_i h₁ log hcall
          exact ih (before.step hok.1 (hp h call hok.2) hcall) hrun
        · cases hrun
      · cases hrun

/-- The kernel after `buddy_init`, without a cache, and a buddy system that keeps no records. -/
def noCaches : Caches Unit := ⟨{ bss () with buddyInited := true }, fun _ => none, [], [], []⟩

def noRecords : MetaOps Unit Unit := ⟨fun _ => fault .environment, fun _ => fault .environment⟩

/-- While the second call waits for `buddy_alloc`, a third one gets an object of the same cache; the
second gets one too, although there is no memory for a slab. -/
theorem cacheRun_correct_nested : ∃ h : Caches Unit, h.live.length = 3
    ∧ h.Correct noRecords FitsSlab := by
  have hrun : (runCacheCalls noRecords (fun _ call => call.Plain FitsSlab)
      [.init 0 24 true, .grown 0x80010000, .alloc 0, .alloc 0, .alloc 0, .grown 0] noCaches).any
      (fun h => h.live.length = 3) = true := by
    decide +kernel
  obtain ⟨h, hcalls, hlive⟩ := (Option.any_eq_true _ _).mp hrun
  have run : CacheRun noRecords (fun _ call => call.Plain FitsSlab) h :=
    .of_calls (fun _ _ hplain => of_decide_eq_true hplain) (.boot _) hcalls
  exact ⟨h, of_decide_eq_true hlive, cacheRun_correct run⟩

/-- A slab for objects of 65473 bytes has no object, and `slab_init` puts it on `slabs_partial`. -/
theorem not_cacheRun_correct : ¬∀ h : Caches Unit,
    CacheRun noRecords (fun _ call => call.Plain fun _ => True) h →
      h.Correct noRecords fun _ => True := by
  intro hall
  have hrun : (runCacheCalls noRecords (fun _ call => call.Plain fun _ => True)
      [.init 0 65473 true, .grown 0x80010000] noCaches).any (fun h =>
        0x80010000 ∈ h.slabsOf 0 ∧ h.size 0 ≠ none ∧ (h.kernel.slabs 0x80010000).free = 0
          ∧ 0x80010000 ∈ (h.kernel.caches 0).slabsPartial) = true := by
    decide +kernel
  obtain ⟨h, hcalls, hcheck⟩ := (Option.any_eq_true _ _).mp hrun
  obtain ⟨hmade, hsize, hfree, hpartial⟩ := of_decide_eq_true hcheck
  have run : CacheRun noRecords (fun _ call => call.Plain fun _ => True) h :=
    .of_calls (fun _ _ hplain => of_decide_eq_true hplain) (.boot _) hcalls
  have hconsistent := (hall h run).consistent 0 hsize
  exact (hconsistent.some_free _ hmade).mp hpartial hfree

end NoobKernel.Mm
