import NoobKernel.Mm.SlabRun

set_option autoImplicit false

/-! # Flushing a cache (`kmem_cache_flush`)

`kmem_cache_flush` parks the slabs of `slabs_partial` that have no object in use on `slabs_free`,
but leaves the counters of the cache as they are; `kmem_cache_alloc_nolock` adds the objects of a
parked slab to them when it takes it back. So the counters stay right exactly when no slab is
parked (`flush_conserves`).
-/

namespace NoobKernel.Mm

open Misc Exec

variable {E R : Type}

/-- The counters of a cache are about the slabs on `slabs_full` and `slabs_partial`, and an
allocation that passes the check of `kmem->free` finds a slab. -/
structure KmemCache.Counted (kmem : KmemCache) (slabs : Nat → Slab) : Prop where
  free : kmem.free = (kmem.slabs.map fun s => (slabs s).free).sum
  total : kmem.total = (kmem.slabs.map fun s => (slabs s).total).sum
  avail : 0 < kmem.free → kmem.slabsPartial ≠ []

/-- `slab_empty`. -/
def slabEmpty (slab : Slab) : Bool := slab.total = slab.free

/-- The flush parks no slab: there are few free objects, or all slabs have an object in use. -/
def KmemCache.ParksNone (kmem : KmemCache) (slabs : Nat → Slab) : Prop :=
  kmem.free < kmem.high ∨ ∀ s ∈ kmem.slabsPartial, slabEmpty (slabs s) = false

instance (kmem : KmemCache) (slabs : Nat → Slab) : Decidable (kmem.ParksNone slabs) :=
  inferInstanceAs (Decidable (_ ∨ _))

theorem Consistent.counted {made : List Nat} {kmem : KmemCache} {slabs : Nat → Slab}
    (cons : Consistent made kmem slabs) : kmem.Counted slabs where
  free := cons.free.trans (cons.listed.map _).sum_eq.symm
  total := cons.total.trans (cons.listed.map _).sum_eq.symm
  avail := cons.avail

/-! ## The loop -/

section Loop

variable {k : Kernel E} {c : Nat}

theorem listMoveIf_false {α : Type} {s : Nat} {add : Nat → KmemCache → KmemCache}
    (f : Unit → Mem E R α) : (listMoveIf false c s add >>= f) k = f () k := by
  rw [listMoveIf, if_neg Bool.false_ne_true, pure_bind_apply]

/-- The cache with the slab `s` parked. -/
def KmemCache.park (s : Nat) (kmem : KmemCache) : KmemCache := .addFree s (kmem.unlink s)

theorem KmemCache.park_slabs {kmem : KmemCache} {s : Nat} (hnodup : kmem.slabs.Nodup)
    (hs : s ∈ kmem.slabsPartial) : ((kmem.park s).slabs ++ [s]).Perm kmem.slabs := by
  show ((kmem.slabsFull.erase s ++ kmem.slabsPartial.erase s) ++ [s]).Perm _
  rw [List.erase_of_not_mem (not_mem_full hnodup hs), List.append_assoc]
  refine List.Perm.append_left _ ?_
  exact List.perm_append_comm.trans (List.perm_cons_erase hs).symm

theorem flushSlabs_none {l : List Nat} (hnone : ∀ s ∈ l, slabEmpty (k.slabs s) = false) :
    (flushSlabs c l : Mem E R Unit) k = .ok () k [] := by
  induction l with
  | nil => rfl
  | cons s ss ih =>
      have hs : decide ((k.slabs s).total = (k.slabs s).free) = false := hnone s List.mem_cons_self
      rw [flushSlabs, read_bind_apply, hs, listMoveIf_false]
      exact ih fun s' hs' => hnone s' (List.mem_cons_of_mem _ hs')

/-- The empty slabs among `l` leave the lists that the counters are about. -/
theorem flushSlabs_apply {l : List Nat} (hsub : ∀ s ∈ l, s ∈ (k.caches c).slabsPartial)
    (hl : l.Nodup) (hnodup : (k.caches c).slabs.Nodup) :
    ∃ kmem : KmemCache,
      (flushSlabs c l : Mem E R Unit) k = .ok () (k.updateCache c fun _ => kmem) []
      ∧ kmem.free = (k.caches c).free ∧ kmem.locked = (k.caches c).locked
      ∧ (kmem.slabs ++ l.filter fun s => slabEmpty (k.slabs s)).Perm (k.caches c).slabs := by
  induction l generalizing k with
  | nil =>
      refine ⟨k.caches c, ?_, rfl, rfl, ?_⟩
      · rw [Kernel.updateCache, Function.update_eq_self]
        rfl
      · rw [List.filter_nil, List.append_nil]
  | cons s ss ih =>
      obtain ⟨hs, hss⟩ := List.nodup_cons.mp hl
      have hpartial := hsub s List.mem_cons_self
      rw [flushSlabs, read_bind_apply]
      cases hempty : slabEmpty (k.slabs s) with
      | false =>
          have hfalse : decide ((k.slabs s).total = (k.slabs s).free) = false := hempty
          rw [hfalse, listMoveIf_false, List.filter_cons_of_neg (by rw [hempty]; decide)]
          exact ih (fun s' hs' => hsub s' (List.mem_cons_of_mem _ hs')) hss hnodup
      -- an empty slab is parked; the others stay on the partial list for the rest of the loop
      | true =>
          have htrue : decide ((k.slabs s).total = (k.slabs s).free) = true := hempty
          have hmem : s ∈ (k.caches c).slabs := List.mem_append_right _ hpartial
          have hpark := KmemCache.park_slabs hnodup hpartial
          have hself : (k.updateCache c (.park s)).caches c = (k.caches c).park s :=
            updateCache_self _ _ _
          have hparked : ((k.caches c).park s).slabs.Nodup :=
            (List.nodup_append.mp (hpark.nodup_iff.mpr hnodup)).1
          have hrest : ∀ s' ∈ ss, s' ∈ ((k.updateCache c (.park s)).caches c).slabsPartial := by
            intro s' hs'
            rw [hself]
            refine (List.mem_erase_of_ne ?_).mpr (hsub s' (List.mem_cons_of_mem _ hs'))
            rintro rfl
            exact hs hs'
          obtain ⟨kmem, hrun, hfree, hlocked, hperm⟩ :=
            ih (k := k.updateCache c (.park s)) hrest hss (by rw [hself]; exact hparked)
          rw [hself] at hfree hlocked hperm
          refine ⟨kmem, ?_, hfree, hlocked, ?_⟩
          · rw [htrue, listMoveIf_bind hmem]
            refine hrun.trans ?_
            simp only [Kernel.updateCache, Function.update_idem]
          · rw [List.filter_cons_of_pos (p := fun s => slabEmpty (k.slabs s)) hempty]
            refine List.perm_middle.trans ?_
            exact (hperm.cons s).trans ((List.perm_append_singleton s _).symm.trans hpark)

end Loop

/-! ## One flush -/

section Flush

variable {k : Kernel E} {c : Nat}

theorem kmemCacheFlush_locked (hlocked : (k.caches c).locked = true) :
    (kmemCacheFlush (some c) : Mem E R Unit) k = .fault .lock [] := by
  have hlock : (lockCache c : Mem E R Unit) k = .fault .lock [] := by
    rw [lockCache, read_bind_apply, if_pos hlocked, fault_apply]
  rw [kmemCacheFlush, bind_fault hlock]

/-- The flush of a cache with enough free objects, between taking and releasing the lock. -/
theorem kmemCacheFlush_high (hfree : (k.caches c).locked = false)
    (hhigh : ¬(k.caches c).free < (k.caches c).high) :
    (kmemCacheFlush (some c) : Mem E R Unit) k
      = (flushSlabs c (k.caches c).slabsPartial >>= fun _ => unlockCache c)
          (k.updateCache c (.setLocked true)) := by
  have hself := updateCache_self k c (.setLocked true)
  have hcond : ¬((k.updateCache c (.setLocked true)).caches c).free
      < ((k.updateCache c (.setLocked true)).caches c).high := by
    rw [hself]
    exact hhigh
  rw [kmemCacheFlush, bind_ok (lockCache_apply hfree), Outcome.after_nil, read_bind_apply,
    if_neg hcond, hself]
  rfl

/-- A flush that parks no slab changes the lock at most. -/
theorem kmemCacheFlush_none (hfree : (k.caches c).locked = false)
    (hnone : (k.caches c).ParksNone k.slabs) : ∃ k', (kmemCacheFlush (some c) : Mem E R Unit) k
      = .ok () k' [] ∧ k.Reflagged k'
      ∧ ∀ c', (k.caches c').locked = true → (k'.caches c').locked = true := by
  have hlocks : ∀ c', (k.caches c').locked = true → c' ≠ c := by
    rintro c' hlocked rfl
    exact Bool.false_ne_true (hfree.symm.trans hlocked)
  by_cases hlow : (k.caches c).free < (k.caches c).high
  · refine ⟨_, kmemCacheFlush_low hfree hlow, reflagged_setLocked k c true, fun c' hlocked => ?_⟩
    rw [locked_setLocked, hlocked, ite_self]
  · have hflush : (flushSlabs c (k.caches c).slabsPartial : Mem E R Unit)
        (k.updateCache c (.setLocked true)) = .ok () (k.updateCache c (.setLocked true)) [] :=
      flushSlabs_none (hnone.resolve_left hlow)
    refine ⟨(k.updateCache c (.setLocked true)).updateCache c (.setLocked false), ?_, ?_,
      fun c' hlocked => ?_⟩
    · have hheld : ((k.updateCache c (.setLocked true)).caches c).locked = true := by
        rw [locked_setLocked, if_pos rfl]
      rw [kmemCacheFlush_high hfree hlow, bind_ok hflush, Outcome.after_nil, unlockCache,
        read_bind_apply, if_pos hheld, modify_apply]
    · rw [Kernel.updateCache, Kernel.updateCache]
      simp only [Function.update_self, Function.update_idem]
      exact reflagged_setLocked k c false
    · rw [locked_setLocked, if_neg (hlocks c' hlocked), locked_setLocked,
        if_neg (hlocks c' hlocked), hlocked]

/-- A flush that parks a slab leaves its objects in the counter. -/
theorem not_counted_of_parks {size : Nat}
    (ok : CacheOk size c (k.caches c) k.slabs) (hparks : ¬(k.caches c).ParksNone k.slabs)
    {k' : Kernel E} {log : List R}
    (hrun : (kmemCacheFlush (some c) : Mem E R Unit) k = .ok () k' log) :
    ¬(k'.caches c).Counted k'.slabs := by
  intro hcounted
  have hfree : (k.caches c).locked = false := by
    refine Bool.eq_false_iff.mpr fun hlocked => ?_
    rw [kmemCacheFlush_locked hlocked] at hrun
    cases hrun
  obtain ⟨hhigh, hempty⟩ := not_or.mp hparks
  have hself := updateCache_self k c (.setLocked true)
  obtain ⟨kmem, hflush, hsame, hlocked, hperm⟩ := flushSlabs_apply (R := R)
    (k := k.updateCache c (.setLocked true)) (c := c) (l := (k.caches c).slabsPartial)
    (fun s hs => by rw [hself]; exact hs) (List.nodup_append.mp ok.nodup).2.1
    (by rw [hself]; exact ok.nodup)
  rw [hself] at hsame hlocked hperm
  have hheld : kmem.locked = true := hlocked
  have hkmem := updateCache_self (k.updateCache c (.setLocked true)) c fun _ => kmem
  rw [kmemCacheFlush_high hfree hhigh, bind_ok hflush, Outcome.after_nil, unlockCache,
    read_bind_apply, hkmem, if_pos hheld, modify_apply] at hrun
  cases hrun
  have hcount := hcounted.free
  rw [updateCache_self, hkmem] at hcount
  have hsum : (kmem.slabs.map fun s => (k.slabs s).free).sum
      + (((k.caches c).slabsPartial.filter fun s => slabEmpty (k.slabs s)).map
          fun s => (k.slabs s).free).sum = (k.caches c).free := by
    rw [ok.free, ← List.sum_append, ← List.map_append]
    exact (hperm.map _).sum_eq
  have hcount' : (k.caches c).free = (kmem.slabs.map fun s => (k.slabs s).free).sum :=
    hsame.symm.trans hcount
  -- an empty slab has free objects, which are counted although its list is not
  simp only [not_forall, Bool.not_eq_false] at hempty
  obtain ⟨s, hs, hslab⟩ := hempty
  have hle : (k.slabs s).free ≤ (((k.caches c).slabsPartial.filter fun s =>
      slabEmpty (k.slabs s)).map fun s => (k.slabs s).free).sum :=
    List.le_sum_of_mem (List.mem_map_of_mem (f := fun s => (k.slabs s).free)
      (List.mem_filter.mpr ⟨hs, hslab⟩))
  have hpos := ok.avail s hs
  omega

end Flush

/-! ## Runs -/

namespace CacheCall

/-- Objects of the size fit into a slab. -/
def Sized : CacheCall → Prop
  | .init _ size _ => FitsSlab size
  | .flush _ | .alloc _ | .grown _ | .free _ => True

/-- Objects of the size fit into a slab, and a flush parks none. -/
def Keeps (h : Caches E) : CacheCall → Prop
  | .init _ size _ => FitsSlab size
  | .flush c => (h.kernel.caches c).ParksNone h.kernel.slabs
  | .alloc _ | .grown _ | .free _ => True

instance : (call : CacheCall) → Decidable call.Sized
  | .init _ size _ => inferInstanceAs (Decidable (FitsSlab size))
  | .flush _ | .alloc _ | .grown _ | .free _ => inferInstanceAs (Decidable True)

instance (h : Caches E) : (call : CacheCall) → Decidable (call.Keeps h)
  | .init _ size _ => inferInstanceAs (Decidable (FitsSlab size))
  | .flush c => inferInstanceAs (Decidable ((h.kernel.caches c).ParksNone h.kernel.slabs))
  | .alloc _ | .grown _ | .free _ => inferInstanceAs (Decidable True)

end CacheCall

/-- The counters of all caches are right. -/
def Caches.Counted (h : Caches E) : Prop :=
  ∀ c, h.size c ≠ none → (h.kernel.caches c).Counted h.kernel.slabs

variable {ops : MetaOps E R} {h h' : Caches E} {c : Nat} {log : List R}

theorem Caches.Sound.counted (sound : h.Sound) : h.Counted :=
  fun _ hc => (sound.consistent hc).counted

/-- A flush that parks no slab keeps the invariant. -/
theorem Caches.Sound.flush (sound : h.Sound) (hnone : (h.kernel.caches c).ParksNone h.kernel.slabs)
    (hrun : (CacheCall.flush c).exec ops h = .ok () h' log) : h'.Sound := by
  obtain ⟨k, hflush, rfl⟩ := Caches.run_ok_inv hrun
  have hfree : (h.kernel.caches c).locked = false := by
    refine Bool.eq_false_iff.mpr fun hlocked => ?_
    rw [kmemCacheFlush_locked hlocked] at hflush
    cases hflush
  obtain ⟨k', hflush', hflags, hlocks⟩ := kmemCacheFlush_none (R := R) hfree hnone
  rw [hflush] at hflush'
  cases hflush'
  exact ⟨sound.toServed.reflag hflags, sound.toWaiting.mono rfl rfl hlocks⟩

theorem keepsRun_sound (run : CacheRun ops CacheCall.Keeps h) : h.Sound := by
  induction run with
  | boot k => exact .boot k
  | @step h h' call log before allowed also run ih =>
      cases call with
      | flush c => exact ih.flush also run
      | _ =>
          obtain ⟨h₁, hrun, sound⟩ := ih.step ops allowed also
          rw [hrun] at run
          cases run
          exact sound
  | other before caches slabs ih => exact ih.other caches slabs

/-- **What `kmem_cache_flush` does to the counters.** They are right in all states of a run whose
flushes park no slab, and a flush that parks one makes them wrong. -/
theorem flush_conserves (run : CacheRun ops CacheCall.Keeps h) : h.Counted
    ∧ ∀ c h' log, (CacheCall.flush c).Allowed h → (CacheCall.flush c).exec ops h = .ok () h' log →
      (h'.Counted ↔ (h.kernel.caches c).ParksNone h.kernel.slabs) := by
  have sound := keepsRun_sound run
  refine ⟨sound.counted, fun c h' log hallowed hrun => ⟨fun hcounted => ?_, fun hnone =>
    (sound.flush hnone hrun).counted⟩⟩
  obtain ⟨size, hsize⟩ := Option.ne_none_iff_exists'.mp hallowed
  obtain ⟨k, hflush, rfl⟩ := Caches.run_ok_inv hrun
  by_contra hparks
  exact not_counted_of_parks (sound.cache c size hsize) hparks hflush (hcounted c hallowed)

/-- A cache with too few free objects is flushed. -/
theorem flush_conserves_low : ∃ h : Caches Unit, h.slabsOf 0 ≠ [] ∧ h.Counted := by
  have hrun : (runCacheCalls noRecords (fun h call => call.Keeps h)
      [.init 0 32768 false, .alloc 0, .grown 0x80010000, .flush 0] noCaches).any
      (fun h => h.slabsOf 0 ≠ []) = true := by
    decide +kernel
  obtain ⟨h, hcalls, hslabs⟩ := (Option.any_eq_true _ _).mp hrun
  have run : CacheRun noRecords CacheCall.Keeps h :=
    .of_calls (fun _ _ hkeeps => of_decide_eq_true hkeeps) (.boot _) hcalls
  exact ⟨h, of_decide_eq_true hslabs, (flush_conserves run).1⟩

/-- The flush parks both slabs of a cache; the counter still says that there are two free objects,
although `slabs_partial` is empty. -/
theorem not_flush_conserves : ¬∀ h : Caches Unit,
    CacheRun noRecords (fun _ call => call.Sized) h → h.Counted := by
  intro hclaim
  have hrun : (runCacheCalls noRecords (fun _ call => call.Sized)
      [.init 0 32768 false, .alloc 0, .grown 0x80010000, .alloc 0, .grown 0x80020000,
        .free 0x80018000, .free 0x80028000, .flush 0] noCaches).any (fun h =>
        h.size 0 ≠ none ∧ (h.kernel.caches 0).free = 2 ∧ (h.kernel.caches 0).slabsPartial = [])
      = true := by
    decide +kernel
  obtain ⟨h, hcalls, hcheck⟩ := (Option.any_eq_true _ _).mp hrun
  obtain ⟨hsize, hfree, hnil⟩ := of_decide_eq_true hcheck
  have run : CacheRun noRecords (fun _ call => call.Sized) h :=
    .of_calls (fun _ _ hsized => of_decide_eq_true hsized) (.boot _) hcalls
  have havail := (hclaim h run 0 hsize).avail
  rw [hfree] at havail
  exact havail (by decide) hnil

end NoobKernel.Mm
