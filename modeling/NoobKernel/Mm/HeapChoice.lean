import NoobKernel.Mm.BuddyChoice
import NoobKernel.Mm.HeapSpec

set_option autoImplicit false

/-! # Which object a cache hands out

`kmem_cache_alloc` takes the first free object of the first slab that has one; a cache that is short
of objects gets a slab more, but at the end of the list (`FirstObject`). As long as the cache of the
`mem_block`s is not short of objects, the buddy system does not need itself for a `mem_block`
(`kernelOps_supply`), so what `BuddyChoice` says applies to the functions of the kernel.
-/

namespace NoobKernel.Mm

open Misc Exec
open Dyadic hiding Mem

variable {E R : Type} {lay : Layout} {P : Holding} {k k' : Kernel E} {A : List Block} {M : List Nat}
  {S : List Entry} {pol : Policy R Fault} {ops : MetaOps E R} {size c s i r : Nat}

/-! ## Under the lock of a cache -/

theorem takeObject_cache : (k.takeObject c s i).caches c
    = (k.caches c).taken s (decide ((k.slabs s).free = 1)) := Function.update_self _ _ _

theorem putObject_cache : (k.putObject c s i).caches c
    = (k.caches c).putBack s (decide ((k.slabs s).free = 0)) := Function.update_self _ _ _

theorem putObject_slab : (k.putObject c s i).slabs s = (k.slabs s).put i := Function.update_self _ _ _

theorem setLocked_putBack (kmem : KmemCache) (b first : Bool) :
    (kmem.setLocked b).putBack s first = (kmem.putBack s first).setLocked b := by
  cases first <;> rfl

theorem setLocked_taken (kmem : KmemCache) (b last : Bool) :
    (kmem.setLocked b).taken s last = (kmem.taken s last).setLocked b := by
  cases last <;> rfl

theorem setLocked_self {kmem : KmemCache} (h : kmem.locked = false) :
    (kmem.setLocked true).setLocked false = kmem := by
  obtain ⟨⟩ := kmem
  cases h
  rfl

theorem putObject_relock (hunlocked : (k.caches c).locked = false) :
    ((k.updateCache c (.setLocked true)).putObject c s i).updateCache c (.setLocked false)
      = k.putObject c s i := by
  have hback : ((k.caches c).putBack s (decide ((k.slabs s).free = 0))).locked = false := by
    obtain ⟨-, -, -, -, -, hlocked, -, -⟩ :=
      KmemCache.putBack_same (k.caches c) s (decide ((k.slabs s).free = 0))
    rw [hlocked, hunlocked]
  have hcache : (((k.caches c).setLocked true).putBack s (decide ((k.slabs s).free = 0))).setLocked
      false = (k.caches c).putBack s (decide ((k.slabs s).free = 0)) := by
    rw [setLocked_putBack, setLocked_self hback]
  simp only [Kernel.updateCache, Kernel.putObject, Function.update_self, Function.update_idem]
  exact congrArg (fun kmem => ({ k with
    caches := Function.update k.caches c kmem
    slabs := Function.update k.slabs s ((k.slabs s).put i) } : Kernel E)) hcache

theorem takeObject_relock (hunlocked : (k.caches c).locked = false) :
    ((k.updateCache c (.setLocked true)).takeObject c s i).updateCache c (.setLocked false)
      = k.takeObject c s i := by
  have hback : ((k.caches c).taken s (decide ((k.slabs s).free = 1))).locked = false := by
    obtain ⟨-, -, -, -, -, hlocked, -, -⟩ :=
      KmemCache.taken_same (k.caches c) s (decide ((k.slabs s).free = 1))
    rw [hlocked, hunlocked]
  have hcache : (((k.caches c).setLocked true).taken s (decide ((k.slabs s).free = 1))).setLocked
      false = (k.caches c).taken s (decide ((k.slabs s).free = 1)) := by
    rw [setLocked_taken, setLocked_self hback]
  simp only [Kernel.updateCache, Kernel.takeObject, Function.update_self, Function.update_idem]
  exact congrArg (fun kmem => ({ k with
    caches := Function.update k.caches c kmem
    slabs := Function.update k.slabs s ((k.slabs s).take i) } : Kernel E)) hcache

/-- **`kmem_cache_free`** of an object in use, when the cache is not locked. -/
theorem kmemCacheFree_apply (us : Usable size) (ok : CacheOk size c (k.caches c) k.slabs)
    (hs : s ∈ (k.caches c).slabs) (hi : i < slabCapacity size)
    (hbit : (k.slabs s).bm.bit i = true) (hmem : objectAt size s i < 2 ^ 64)
    (hunlocked : (k.caches c).locked = false) :
    (kmemCacheFree quiet (objectAt size s i) : Mem E R Unit) k = .ok () (k.putObject c s i) [] := by
  have hkmem : (k.slabs (SLAB_ALIGN_DOWN (objectAt size s i))).kmem = c := by
    rw [us.align_down (ok.aligned s hs) hi hmem]
    exact (ok.slab s hs).kmem
  have hself := updateCache_self k c (.setLocked true)
  have hrun : (kmemCacheFreeNolock quiet c (objectAt size s i) : Mem E R Unit)
      (k.updateCache c (.setLocked true))
        = .ok () ((k.updateCache c (.setLocked true)).putObject c s i) [] := by
    refine kmemCacheFreeNolock_apply quiet us ?_ ?_ hi hbit hmem
    · rw [hself]
      exact ok.setLocked true
    · rw [hself]
      exact hs
  have hheld : (((k.updateCache c (.setLocked true)).putObject c s i).caches c).locked = true := by
    rw [putObject_cache, hself, setLocked_putBack]
    rfl
  rw [kmemCacheFree, read_bind_apply, hkmem, if_neg (Bool.eq_false_iff.mp hunlocked),
    bind_ok (lockCache_apply hunlocked), Outcome.after_nil, bind_ok hrun, Outcome.after_nil,
    unlockCache, read_bind_apply, if_pos hheld, modify_apply, putObject_relock hunlocked]

/-- **`kmem_cache_alloc`** of a cache with objects enough takes the first free object of the first
slab. -/
theorem kmemCacheAlloc_apply (ops : MetaOps E R) (us : Usable size)
    (ok : CacheOk size c (k.caches c) k.slabs) (hunlocked : (k.caches c).locked = false)
    (henough : (k.caches c).low ≤ (k.caches c).free) :
    ∃ s rest, (k.caches c).slabsPartial = s :: rest ∧ kmemCacheAlloc quiet ops (some c) k
      = .ok (objectAt size s ((k.slabs s).bm.findNextClear 0))
        (k.takeObject c s ((k.slabs s).bm.findNextClear 0)) [] := by
  have hfree : (k.caches c).free ≠ 0 := by
    have hpos : 0 < (k.caches c).low := by
      rw [ok.low]
      exact us.capacity_pos
    exact (hpos.trans_le henough).ne'
  -- `k₁` is the state with the lock of the cache taken
  obtain ⟨k₁, hk₁⟩ : ∃ k₁, k₁ = k.updateCache c (.setLocked true) := ⟨_, rfl⟩
  have hself : k₁.caches c = (k.caches c).setLocked true := by
    rw [hk₁]
    exact updateCache_self k c (.setLocked true)
  have hslabs : k₁.slabs = k.slabs := by rw [hk₁]; rfl
  have ok₁ : CacheOk size c (k₁.caches c) k₁.slabs := by
    rw [hself, hslabs]
    exact ok.setLocked true
  obtain ⟨s, rest, hlist, hrun⟩ :=
    kmemCacheTake_apply (quiet : Mem E R Unit) us ok₁ (by rw [hself]; exact hfree)
  rw [hself] at hlist
  rw [hslabs] at hrun
  have hlow : ¬((k₁.caches c).expanding = false ∧ (k₁.caches c).free < (k₁.caches c).low) := by
    rw [hself]
    exact fun h => absurd h.2 (Nat.not_lt.mpr henough)
  -- taking an object leaves the lock alone, so the unlock finds it held
  have hheld : ((k₁.takeObject c s ((k.slabs s).bm.findNextClear 0)).caches c).locked = true := by
    rw [takeObject_cache, hself, setLocked_taken]
    rfl
  have hnolock : (kmemCacheAllocNolock quiet ops c : Mem E R Nat) k₁
      = .ok (objectAt size s ((k.slabs s).bm.findNextClear 0))
        (k₁.takeObject c s ((k.slabs s).bm.findNextClear 0)) [] := by
    rw [kmemCacheAllocNolock, read_bind_apply, if_neg hlow, hrun]
  have hunlock : (unlockCache c : Mem E R Unit)
      (k₁.takeObject c s ((k.slabs s).bm.findNextClear 0))
        = .ok () (k.takeObject c s ((k.slabs s).bm.findNextClear 0)) [] := by
    rw [unlockCache, read_bind_apply, if_pos hheld, modify_apply, hk₁, takeObject_relock hunlocked]
  refine ⟨s, rest, hlist, ?_⟩
  rw [kmemCacheAlloc, read_bind_apply, if_neg (Bool.eq_false_iff.mp hunlocked),
    bind_ok (lockCache_apply hunlocked), Outcome.after_nil, ← hk₁, bind_ok hnolock,
    Outcome.after_nil, bind_ok hunlock, Outcome.after_nil, pure_apply]

/-! ## `mem_block`s at hand -/

/-- The cache of the `mem_block`s serves `n` calls before it is short of objects. -/
structure AtHand (n : Nat) (k : Kernel E) : Prop where
  inited : k.kallocInited = true
  enough : (k.caches memBlockPool).low + n ≤ (k.caches memBlockPool).free + 1

section

variable {n : Nat}

theorem watch_state {X : Option Entry} {log : List (HeapEvent E)} {u : Unit}
    (hrun : watch X k = .ok u k' log) : k' = k := by
  cases X with
  | none =>
      cases hrun
      rfl
  | some e =>
      cases hrun
      rfl

theorem logged_inv {alloc : Mem E (HeapEvent E) Nat} {log : List (HeapEvent E)}
    (hrun : logged size alloc k = .ok r k' log) : ∃ log', alloc k = .ok r k' log' := by
  obtain ⟨r', k₁, l₁, l₂, halloc, hrest⟩ := bind_ok_inv hrun
  obtain ⟨u, k₂, l₃, l₄, hlog, hrest⟩ := bind_ok_inv hrest
  cases hrest
  rw [logObject] at hlog
  split at hlog
  · cases hlog
    exact ⟨l₁, halloc⟩
  · cases hlog
    exact ⟨l₁, halloc⟩

/-- A `mem_block` is taken from the cache. -/
theorem AtHand.alloc (hc : memBlockPool < P.classes) (hP : P.locked memBlockPool = false)
    (ok : HeapOk lay P k A) (hstock : AtHand (n + 1) k) {ops : MetaOps E (HeapEvent E)}
    {log : List (HeapEvent E)} (hrun : allocMemBlock lay quiet ops k = .ok r k' log) :
    BuddySame k k' ∧ AtHand n k' := by
  obtain ⟨hinited, henough⟩ := hstock
  have hkmalloc : (kmalloc quiet ops sizeofMemBlock : Mem E (HeapEvent E) Nat)
      = kmemCacheAlloc quiet ops (some memBlockPool) := rfl
  obtain ⟨s, rest, -, halloc⟩ := kmemCacheAlloc_apply ops (ok.usable hc) (ok.cache memBlockPool hc)
    ((ok.locked memBlockPool).trans hP) (by omega)
  rw [allocMemBlock, read_bind_apply, if_pos hinited, hkmalloc, halloc] at hrun
  cases hrun
  obtain ⟨-, -, hlow, -, hfree, -, -, -⟩ :=
    KmemCache.taken_same (k.caches memBlockPool) s (decide ((k.slabs s).free = 1))
  refine ⟨⟨rfl, rfl, rfl, rfl, rfl⟩, hinited, ?_⟩
  rw [takeObject_cache, hlow, hfree]
  omega

/-- A `mem_block` goes back to the cache, if it is not from the early heap. -/
theorem AtHand.free {p : Nat} (own : HeapOwns lay P k A (p :: M))
    (hP : P.locked memBlockPool = false) (hstock : AtHand n k) {ops : MetaOps E (HeapEvent E)}
    {log : List (HeapEvent E)} {u : Unit}
    (hrun : freeMemBlock lay quiet ops p k = .ok u k' log) : AtHand n k' := by
  rw [freeMemBlock, read_bind_apply] at hrun
  split at hrun
  · cases hrun
    exact hstock
  · rename_i hlate
    split at hrun
    · cases hrun
    · obtain ⟨hc, huse⟩ := (own.clients.mem p List.mem_cons_self).resolve_left fun h =>
        hlate (decide_eq_true h)
      have ok := own.heap
      have hmem := region_lt (ok.object_region hc huse).2
      rw [ok.kfree_object hc huse] at hrun
      obtain ⟨s, hs, i, hi, rfl, hbit⟩ := huse
      rw [kmemCacheFree_apply (ok.usable hc) (ok.cache memBlockPool hc) hs hi hbit hmem
        ((ok.locked memBlockPool).trans hP)] at hrun
      cases hrun
      obtain ⟨-, -, hlow, -, hfree, -, -, -⟩ :=
        KmemCache.putBack_same (k.caches memBlockPool) s (decide ((k.slabs s).free = 0))
      refine ⟨hstock.inited, ?_⟩
      rw [putObject_cache, hlow, hfree]
      exact hstock.enough.trans (Nat.le_succ _)

/-- **The functions of the kernel** take a `mem_block` from the cache as long as it has objects
enough. -/
theorem kernelOps_supply (hc : memBlockPool < P.classes) (hP : P.locked memBlockPool = false) :
    Supply (heapContract E lay P) lay (kernelOps lay) AtHand where
  rest h hstock := by
    obtain ⟨hinited, henough⟩ := hstock
    rw [← h.caches] at henough
    exact ⟨h.kallocInited.trans hinited, henough⟩
  mono hle hstock := ⟨hstock.inited, (Nat.add_le_add_left hle _).trans hstock.enough⟩
  alloc good hstock hrun := by
    obtain ⟨u, k₁, l₁, l₂, hwatch, hrest⟩ := bind_ok_inv hrun
    obtain rfl := watch_state hwatch
    obtain ⟨log', halloc⟩ := logged_inv hrest
    exact AtHand.alloc hc hP good.owns.heap hstock halloc
  free own hstock hrun := AtHand.free own hP hstock hrun

end

/-! ## Which object -/

/-- What the cache hands out: the first free object of the first slab with free objects, or the first
of a new slab if there is none. It is `NULL` only if the cache has no object left. -/
inductive FirstObject (k : Kernel E) (c r : Nat) : Prop
  | null (none : (k.caches c).free = 0) (object : r = 0)
  | listed {s : Nat} {rest : List Nat} (list : (k.caches c).slabsPartial = s :: rest)
      (object : r = objectAt (classSize c) s ((k.slabs s).bm.findNextClear 0))
  | grown {s : Nat} (full : (k.caches c).slabsPartial = []) (blob : SLAB_BLOB_SIZE ∣ s)
      (object : r = objectAt (classSize c) s 0)

/-- The flags of caches do not matter, nor do other slabs. -/
theorem FirstObject.congr (h : FirstObject k c r)
    (hfree : (k'.caches c).free = (k.caches c).free)
    (hlist : (k'.caches c).slabsPartial = (k.caches c).slabsPartial)
    (hslabs : ∀ s ∈ (k.caches c).slabs, k'.slabs s = k.slabs s) : FirstObject k' c r := by
  cases h with
  | null none object => exact .null (hfree.trans none) object
  | listed list object =>
      rename_i s rest
      have hs : s ∈ (k.caches c).slabs := List.mem_append_right _ (by
        rw [list]
        exact List.mem_cons_self)
      exact .listed (hlist.trans list) (by rw [hslabs s hs]; exact object)
  | grown full blob object => exact .grown (hlist.trans full) blob object

/-- An empty slab hands out its first object. -/
theorem newSlab_first (us : Usable size) {kmem : KmemCache} (hobj : kmem.objSize = cacheObjSize size)
    (halloc : kmem.allocSize = cacheAllocSize size) :
    (newSlab c kmem).bm.findNextClear 0 = 0 := by
  have hnew := SlabOk.new size c hobj halloc
  have hclear : (newSlab c kmem).bm.bit 0 = false := by
    show (⟨fun _ => 0, (newSlab c kmem).total⟩ : Bitmap).bit 0 = false
    simp [Bitmap.bit]
  obtain ⟨⟨-, hleast⟩, -⟩ := Bitmap.findNextClear_zero
    ⟨0, by rw [hnew.len]; exact us.capacity_pos, hclear⟩
  refine Nat.eq_zero_of_not_pos fun hpos => ?_
  rw [hleast 0 hpos] at hclear
  cases hclear

/-- A slab more changes nothing, as it goes to the end of the list. -/
theorem FirstObject.of_addSlab (ok : HeapOk lay P k A) (hc : c < P.classes) {blob : Nat}
    {pages : Nat → Page} (hdvd : SLAB_BLOB_SIZE ∣ blob) (hnew : blob ∉ ownedBlobs k P.classes)
    (h : FirstObject (k.addSlab c blob pages) c r) : FirstObject k c r := by
  have hcache := ok.cache c hc
  cases h with
  | null none object =>
      rw [addSlab_cache_self] at none
      exact .null (Nat.eq_zero_of_add_eq_zero_right none) object
  | grown full =>
      rw [addSlab_cache_self] at full
      exact absurd full (List.append_ne_nil_of_right_ne_nil _ (List.cons_ne_nil _ _))
  | listed list object =>
      rename_i s rest
      rw [addSlab_cache_self] at list
      cases havail : (k.caches c).slabsPartial with
      | nil =>
          rw [havail] at list
          obtain ⟨rfl, -⟩ := List.cons.inj list
          have hslab : (k.addSlab c blob pages).slabs blob = newSlab c (k.caches c) :=
            Function.update_self _ _ _
          rw [hslab, newSlab_first (ok.usable hc) hcache.objSize hcache.allocSize] at object
          exact .grown havail hdvd object
      | cons s' rest' =>
          rw [havail] at list
          obtain ⟨heq, -⟩ := List.cons.inj list
          have hne : s ≠ blob := by
            rintro rfl
            refine hnew (HeapOk.mem_owned hc (List.mem_append_right _ ?_))
            rw [havail, ← heq]
            exact List.mem_cons_self
          rw [addSlab_slab_of_ne hne] at object
          rw [heq] at havail
          exact .listed havail object

/-- Nor do the changes that other caches undergo. -/
theorem FirstObject.of_frozen {k₁ : Kernel E}
    (kept : Frozen.Kept ⟨c, k.caches c, k.slabs⟩ P.classes k₁) (h : FirstObject k₁ c r) :
    FirstObject k c r := by
  have hkmem : k₁.caches c = _ := kept.kmem
  refine h.congr ?_ ?_ fun s hs => ?_
  · rw [hkmem]
  · rw [hkmem]
  · rw [kept.slabs_eq] at hs
    exact (kept.slabs s hs).symm

section

variable (hc : c < P.classes) (hthaw : P.Thawed c) (good : HeapGood lay P k A S)
include hc hthaw good

/-- **The rest of `kmem_cache_alloc_nolock`.** -/
theorem kmemCacheTake_first :
    Yields pol (kmemCacheTake quiet c k) fun r _ => FirstObject k c r := by
  refine (kmemCacheTake_spec hc hthaw good).mono_ok fun r k' log hrun _ => ?_
  by_cases hfree : (k.caches c).free = 0
  · rw [kmemCacheTake_empty hfree, quiet, pure_bind_apply] at hrun
    cases hrun
    exact .null hfree rfl
  · have ok := good.owns.heap
    obtain ⟨s, rest, hlist, htake⟩ :=
      kmemCacheTake_apply (quiet : Mem E R Unit) (ok.usable hc) (ok.cache c hc) hfree
    rw [htake] at hrun
    cases hrun
    exact .listed hlist rfl

theorem kmemCacheAllocNolock_first (hrefill : P.expanding c = false →
      (k.caches c).free < (k.caches c).low → c ≠ memBlockPool
        ∧ (∀ F, HeapOps pol lay
            { P with frozen := F, expanding := Function.update P.expanding c true } S ops)
        ∧ (k.buddyFreeList SLAB_ORDER ≠ [] ∨ Guard A S SLAB_ORDER)) :
    Yields pol (kmemCacheAllocNolock quiet ops c k) fun r _ => FirstObject k c r := by
  rw [kmemCacheAllocNolock, read_bind_apply]
  split
  · rename_i hshort
    have hexp : P.expanding c = false := by
      rw [← good.owns.heap.expanding]
      exact hshort.1
    obtain ⟨hpool, spec, hguard⟩ := hrefill hexp hshort.2
    have hself : Frozen.Kept ⟨c, k.caches c, k.slabs⟩ P.classes k :=
      ⟨hc, hpool, rfl, fun _ _ => rfl⟩
    refine Yields.bind (kmemCacheRefill_grows (F := ⟨c, k.caches c, k.slabs⟩ :: P.frozen) hc hthaw good
      hexp ?_ (List.subset_cons_self _ _) (spec _) hguard) ?_
    · intro q hq
      rcases List.mem_cons.mp hq with rfl | hq
      · exact hself
      · exact good.owns.heap.frozen q hq
    · rintro refilled k₁ ⟨⟨-, A₁, -, hgood⟩, hnone, k₀, A₀, howns, hk₁⟩
      have hback : ∀ {r : Nat}, FirstObject k₁ c r → FirstObject k c r := by
        intro r hfirst
        refine FirstObject.of_frozen (howns.heap.frozen _ List.mem_cons_self) ?_
        rcases hk₁ with rfl | ⟨blob, pages, hdvd, hnew, rfl⟩
        · exact hfirst
        · exact hfirst.of_addSlab howns.heap hc hdvd hnew
      split
      · exact (kmemCacheTake_first hc hthaw hgood).mono fun r _ => hback
      · rename_i hrefilled
        exact Yields.pure (hback (.null (hnone (Bool.eq_false_iff.mpr hrefilled)) rfl))
  · exact kmemCacheTake_first hc hthaw good

/-- **`kmem_cache_alloc`**, when the cache is not locked. The cache of the `mem_block`s must have
objects enough, since the buddy system takes some while it provides a slab. -/
theorem kmemCacheAlloc_first (hP : P.locked c = false) (hrefill : P.expanding c = false →
      (k.caches c).free < (k.caches c).low → c ≠ memBlockPool
        ∧ (∀ locked F, HeapOps pol lay { P with
            locked := locked
            frozen := F
            expanding := Function.update P.expanding c true } S ops)
        ∧ (k.buddyFreeList SLAB_ORDER ≠ [] ∨ Guard A S SLAB_ORDER)) :
    Yields pol (kmemCacheAlloc quiet ops (some c) k) fun r _ => FirstObject k c r := by
  have hunlocked : (k.caches c).locked = false := (good.owns.heap.locked c).trans hP
  have hsame : BuddySame k (k.updateCache c (.setLocked true)) := ⟨rfl, rfl, rfl, rfl, rfl⟩
  have hgood := good.of_owns hsame (good.owns.setLocked c true)
  have hshort : ((k.updateCache c (.setLocked true)).caches c).free
      < ((k.updateCache c (.setLocked true)).caches c).low → (k.caches c).free < (k.caches c).low := by
    rw [updateCache_self]
    exact id
  rw [kmemCacheAlloc, read_bind_apply, if_neg (Bool.eq_false_iff.mp hunlocked),
    bind_ok (lockCache_apply hunlocked), Outcome.after_nil]
  have hc' : c < ({ P with locked := Function.update P.locked c true } : Holding).classes := hc
  have hserved := kmemCacheAllocNolock_spec hc' hthaw hgood fun hexp hlow =>
    ⟨(hrefill hexp (hshort hlow)).2.1 _ P.frozen, (hrefill hexp (hshort hlow)).2.2⟩
  have hchosen := kmemCacheAllocNolock_first hc' hthaw hgood fun hexp hlow =>
    ⟨(hrefill hexp (hshort hlow)).1, (hrefill hexp (hshort hlow)).2.1 _,
      (hrefill hexp (hshort hlow)).2.2⟩
  refine Yields.bind (hserved.and hchosen) ?_
  rintro r k₁ ⟨⟨⟨-, A₁, -, hgood₁⟩, -⟩, hfirst⟩
  have hheld : (k₁.caches c).locked = true := by
    rw [hgood₁.owns.heap.locked]
    exact Function.update_self _ _ _
  have hunlock : (unlockCache c : Mem E R Unit) k₁
      = .ok () (k₁.updateCache c (.setLocked false)) [] := by
    rw [unlockCache, read_bind_apply, if_pos hheld, modify_apply]
  rw [bind_ok hunlock, Outcome.after_nil]
  refine Yields.pure (hfirst.congr ?_ ?_ fun _ _ => rfl)
  · rw [updateCache_self]
    rfl
  · rw [updateCache_self]
    rfl

end

/-- **`kmalloc`** of at most the largest class. -/
theorem kmalloc_first (hinited : P.inited = true) (hclasses : P.classes = KALLOC_MEM_POOL_NUM)
    (hfits : ∀ c x, InBlob c x → P.fits c x) (hP : ∀ c, P.locked c = false) {size : Nat}
    (hthaw : P.Thawed (size2index size)) (hpos : size ≠ 0) (hsize : size ≤ KALLOC_MAX_MEM_OBJ_SIZE)
    (hready : size2index size ≠ memBlockPool
      ∨ (k.caches (size2index size)).low ≤ (k.caches (size2index size)).free)
    (good : HeapGood lay P k A []) :
    Yields (heldPolicy lay) (kmalloc quiet (kernelOps lay) size k) fun r _ =>
      FirstObject k (size2index size) r := by
  rw [kmalloc, if_neg hpos, if_pos hsize]
  refine kmemCacheAlloc_first (by rw [hclasses]; exact size2index_lt size) hthaw good (hP _)
    fun _ hlow => ⟨hready.resolve_right (Nat.not_le.mpr hlow), fun locked F => ?_, Or.inr ?_⟩
  · exact kernelOps_spec (P := { P with
      locked := locked
      frozen := F
      expanding := Function.update P.expanding (size2index size) true }) hinited hclasses hfits
  · exact fun e he => by cases he

end NoobKernel.Mm
