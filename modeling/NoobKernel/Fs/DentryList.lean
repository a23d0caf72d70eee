import NoobKernel.Fs.DentryCache

set_option autoImplicit false

/-! # Freeing dentries

`dentry_free` unlinks by key and counts down whatever it is given. As long as callers free only
dentries that are linked and not shadowed in the hash table (`Careful`), the list is well formed,
the count is its length and nothing else leaves the cache. Addresses lie in physical memory, so
the 32-bit count does not wrap.
-/

namespace NoobKernel.Fs

/-- The dentry is linked, and its key finds it or nothing. -/
def FreeOk (dc : Dcache) (d : Addr) : Prop :=
  dc.list.next d ≠ d
    ∧ (hashtableLookup dc.ht (dc.key d) = 0 ∨ hashtableLookup dc.ht (dc.key d) = d)

/-- The dentry is not linked, or its key is taken. -/
def InsertOk (dc : Dcache) (d : Addr) : Prop :=
  dc.list.next d = d ∨ hashtableLookup dc.ht (dc.key d) ≠ 0

/-- The calls of callers that see to it when they free and insert. -/
def DentryOp.Careful (dc : Dcache) (op : DentryOp) : Prop :=
  op.Valid dc ∧ match op with
    | free d => FreeOk dc d
    | insert d _ => InsertOk dc d
    | _ => True

/-- The dentries on `dentry_list` are `dentry_state.count` many. -/
def Counted (dc : Dcache) : Prop := ∃ xs, dc.list.Circle 0 xs ∧ dc.count.toNat = xs.length

/-- `dentry_free(d)` takes `d` out of the cache and of the list, and nothing else. -/
def FreesOnly (dc : Dcache) (d : Addr) : Prop :=
  Counted (dentryFree dc d) ∧ (∀ e, Cached (dentryFree dc d) e ↔ Cached dc e ∧ e ≠ d)
    ∧ ∀ xs, dc.list.Circle 0 xs → (dentryFree dc d).list.Circle 0 (xs.erase d)

structure ListInv (dc : Dcache) (xs : List Addr) : Prop where
  circle : dc.list.Circle 0 xs
  count : dc.count.toNat = xs.length
  live : ∀ d ∈ xs, dc.live d = true
  memory : ∀ d, dc.live d = true → PM_START ≤ d.toNat ∧ d.toNat < PM_END
  alone : ∀ d, dc.live d = true → d ∉ xs → dc.list.Alone d
  cached : ∀ d, Cached dc d → d ∈ xs

variable {dc dc' : Dcache} {d e : Addr} {xs : List Addr}

theorem ListInv.length_lt (h : ListInv dc xs) : xs.length < 2 ^ 32 - 1 := by
  have hle := length_le_of_nodup (List.nodup_cons.mp h.circle.1).2
    fun d hd => h.memory d (h.live d hd)
  have hsize : PM_END - PM_START < 2 ^ 32 - 1 := by decide
  omega

theorem listInv_init (dentry : Addr → Dentry) (list lru : Links Addr) :
    ListInv (dentryInit dentry list lru) [] where
  circle := Links.circle_init list 0
  count := rfl
  live := fun _ h => absurd h List.not_mem_nil
  memory := fun _ h => absurd h Bool.false_ne_true
  alone := fun _ h => absurd h Bool.false_ne_true
  cached := fun _ ⟨_, _, h, _⟩ => absurd h List.not_mem_nil

theorem ListInv.congr (h : ListInv dc xs) (hht : dc'.ht = dc.ht) (hlive : dc'.live = dc.live)
    (hlist : dc'.list = dc.list) (hcount : dc'.count = dc.count) : ListInv dc' xs where
  circle := hlist ▸ h.circle
  count := hcount ▸ h.count
  live := hlive ▸ h.live
  memory := hlive ▸ h.memory
  alone := by
    rw [hlive, hlist]
    exact h.alone
  cached := by
    intro d hd
    unfold Cached at hd
    rw [hht] at hd
    exact h.cached d hd

/-- On the list and linked are the same. -/
theorem ListInv.mem_iff (h : ListInv dc xs) (hd : dc.live d = true) :
    d ∈ xs ↔ dc.list.next d ≠ d := by
  refine ⟨h.circle.next_ne, fun hne => ?_⟩
  by_contra hmem
  exact hne (h.alone d hd hmem).1

theorem ListInv.alloc (h : ListInv dc xs) {memory : Addr} (nameMemory : Bool)
    (parent sb : Addr) (name : List UInt8) (hfresh : memory = 0
      ∨ dc.live memory = false ∧ PM_START ≤ memory.toNat ∧ memory.toNat < PM_END) :
    ListInv (dentryAlloc dc memory nameMemory parent sb name).2 xs := by
  unfold dentryAlloc
  split
  · exact h
  · rename_i hsome
    push Not at hsome
    obtain ⟨hdead, hmem⟩ := hfresh.resolve_left hsome.1
    -- the memory is free, so no dentry that lives is in it
    have hother : ∀ {d}, dc.live d = true → d ≠ memory := by
      rintro d hd rfl
      exact Bool.false_ne_true (hdead.symm.trans hd)
    have hxs : memory ∉ (0 : Addr) :: xs := by
      rintro (_ | ⟨_, hmem⟩)
      · exact hsome.1 rfl
      · exact hother (h.live _ hmem) rfl
    have hcase : ∀ {d}, Function.update dc.live memory true d = true →
        d = memory ∨ dc.live d = true := by
      intro d hd
      rw [Function.update_apply] at hd
      split at hd
      · exact .inl (by assumption)
      · exact .inr hd
    refine ⟨h.circle.init hxs, h.count, fun d hd => ?_, fun d hd => ?_, fun d hd hnot => ?_, h.cached⟩
    · exact (Function.update_of_ne (hother (h.live d hd)) _ _).trans (h.live d hd)
    · rcases hcase hd with rfl | hd
      · exact hmem
      · exact h.memory d hd
    · rcases hcase hd with rfl | hd
      · exact Links.alone_init _ _
      · exact (h.alone d hd hnot).init memory

/-- An insertion adds its dentry to those cached, if at all. -/
theorem Inv.cached_insert (h : Inv dc) (hnone : hashtableLookup dc.ht (dc.key d) = 0)
    {memory : Bool} (hret : dentryInsert dc d memory = (0, dc'))
    (hht : dc'.ht = (hashtableInsert dc.ht (dc.key d) d memory).2) (he : Cached dc' e) :
    e = d ∨ Cached dc e := by
  obtain ⟨i, n, hn, rfl⟩ := he
  rw [hht, Hashtable.insert_new (h.get_none hnone)] at hn
  cases memory with
  | false => exact .inr ⟨i, n, hn, rfl⟩
  | true =>
      have hn' : n ∈ (dc.ht.setBucket _ _ _).buckets i := hn
      rw [Hashtable.setBucket_buckets] at hn'
      split at hn'
      · rcases List.mem_cons.mp hn' with rfl | hn'
        · exact .inl rfl
        · exact .inr ⟨_, n, hn', rfl⟩
      · exact .inr ⟨i, n, hn', rfl⟩

theorem ListInv.insert (h : ListInv dc xs) (hinv : Inv dc) (hd : dc.live d = true)
    (hok : InsertOk dc d) (memory : Bool) : ∃ ys, ListInv (dentryInsert dc d memory).2 ys := by
  rcases dentryInsert_cases dc d memory with ⟨heq, -⟩ | ⟨hnone, heq⟩
  · rw [heq]
    exact ⟨xs, h⟩
  · -- a duplicate is rejected above, so the dentry to insert is on no list
    have hlone : dc.list.next d = d := hok.resolve_right (not_not.mpr hnone)
    have hmem : d ∉ xs := fun hmem => (h.mem_iff hd).mp hmem hlone
    have hcons : d ∉ (0 : Addr) :: xs := by
      rintro (_ | ⟨_, hmem'⟩)
      · exact hinv.live_ne_zero hd rfl
      · exact hmem hmem'
    have hcached := fun e => hinv.cached_insert (e := e) hnone heq rfl
    rw [heq]
    refine ⟨d :: xs, h.circle.add hcons, ?_, ?_, h.memory, fun e he hnot => ?_, fun e he => ?_⟩
    · have hlt := h.length_lt
      rw [List.length_cons, ← h.count, UInt32.toNat_add]
      have := h.count
      exact Nat.mod_eq_of_lt (by rw [this]; exact Nat.lt_of_lt_of_le (Nat.succ_lt_succ hlt) (by decide))
    · intro e he
      rcases List.mem_cons.mp he with rfl | he
      · exact hd
      · exact h.live e he
    · have hne : e ≠ d := fun heq => hnot (heq ▸ List.mem_cons_self)
      have hxs : e ∉ xs := fun hmem => hnot (List.mem_cons_of_mem _ hmem)
      refine (h.alone e he hxs).add hne h.circle ?_
      rintro (_ | ⟨_, hmem'⟩)
      · exact hinv.live_ne_zero he rfl
      · exact hxs hmem'
    · rcases hcached e he with rfl | he
      · exact List.mem_cons_self
      · exact List.mem_cons_of_mem _ (h.cached e he)

/-- What a free leaves cached: the dentries with another key. -/
theorem Inv.cached_free (h : Inv dc) (hd : dc.live d = true) :
    Cached (dentryFree dc d) e ↔ Cached dc e ∧ dc.key e ≠ dc.key d := by
  rw [dentryFree_eq (h.live_ne_zero hd)]
  constructor
  · rintro ⟨i, n, hn, rfl⟩
    obtain ⟨hmem, hkey⟩ := (h.valid.mem_delete _ i n).mp hn
    rw [(h.node i n hmem).2] at hkey
    exact ⟨⟨i, n, hmem, rfl⟩, hkey⟩
  · rintro ⟨⟨i, n, hmem, rfl⟩, hkey⟩
    rw [← (h.node i n hmem).2] at hkey
    exact ⟨i, n, (h.valid.mem_delete _ i n).mpr ⟨hmem, hkey⟩, rfl⟩

/-- The table does not find another dentry under the key of `d`. -/
theorem Inv.lookup_iff (h : Inv dc) :
    (hashtableLookup dc.ht (dc.key d) = 0 ∨ hashtableLookup dc.ht (dc.key d) = d)
      ↔ ∀ e, Cached dc e → dc.key e = dc.key d → e = d := by
  rw [Hashtable.hashtableLookup_eq]
  constructor
  · intro hlookup e he hkey
    have hget : dc.ht.get (dc.key d) = some e := hkey ▸ h.cached_iff.mp he
    rw [hget] at hlookup
    exact hlookup.resolve_left (h.live_ne_zero (h.cached_live he))
  · intro hall
    cases hget : dc.ht.get (dc.key d) with
    | none => exact .inl rfl
    | some e =>
        obtain ⟨he, hkey⟩ := h.cached_of_get hget
        exact .inr (hall e he hkey)

theorem ListInv.free (h : ListInv dc xs) (hinv : Inv dc) (hd : dc.live d = true)
    (hok : FreeOk dc d) : ListInv (dentryFree dc d) (xs.erase d) := by
  have hmem : d ∈ xs := (h.mem_iff hd).mpr hok.1
  have hnodup := (List.nodup_cons.mp h.circle.1).2
  have hkeys := (hinv.lookup_iff).mp hok.2
  have hcached := fun e => hinv.cached_free (e := e) hd
  rw [dentryFree_eq (hinv.live_ne_zero hd)] at hcached ⊢
  -- the other dentries that live did so before
  have hother : ∀ {e}, Function.update dc.live d false e = true → e ≠ d ∧ dc.live e = true := by
    intro e he
    rw [Function.update_apply] at he
    split at he
    · cases he
    · exact ⟨by assumption, he⟩
  refine ⟨h.circle.del hmem, ?_, fun e he => ?_, fun e he => ?_, fun e he hnot => ?_, fun e he => ?_⟩
  · have hpos := List.length_pos_of_mem hmem
    have hle : (1 : UInt32) ≤ dc.count := by
      rw [UInt32.le_iff_toNat_le, h.count]
      exact hpos
    rw [List.length_erase_of_mem hmem, UInt32.toNat_sub_of_le _ _ hle, h.count]
    rfl
  · obtain ⟨hne, he⟩ := hnodup.mem_erase_iff.mp he
    exact (Function.update_of_ne hne _ _).trans (h.live e he)
  · exact h.memory e (hother he).2
  · obtain ⟨hne, hlive⟩ := hother he
    have hxs : e ∉ xs := fun hmem => hnot (hnodup.mem_erase_iff.mpr ⟨hne, hmem⟩)
    refine (h.alone e hlive hxs).del_of_mem h.circle hmem ?_
    rintro (_ | ⟨_, hmem'⟩)
    · exact hinv.live_ne_zero hlive rfl
    · exact hxs hmem'
  · obtain ⟨he, hkey⟩ := (hcached e).mp he
    exact hnodup.mem_erase_iff.mpr ⟨fun heq => hkey (heq ▸ rfl), h.cached e he⟩

/-- A free is exact only where it is careful. -/
theorem ListInv.freesOnly (h : ListInv dc xs) (hinv : Inv dc) (hd : dc.live d = true) :
    FreesOnly dc d ↔ FreeOk dc d := by
  constructor
  · rintro ⟨⟨ys, hcircle, hcount⟩, hcached, -⟩
    refine ⟨fun hlone => ?_, (hinv.lookup_iff).mpr fun e he hkey => ?_⟩
    · -- an unlinked dentry leaves the list as it was, but not the count
      have hmem : d ∉ xs := fun hmem => (h.mem_iff hd).mp hmem hlone
      rw [dentryFree_eq (hinv.live_ne_zero hd)] at hcircle hcount
      have hlist : (dc.list.del d).Circle 0 ys := hcircle
      rw [(h.alone d hd hmem).del] at hlist
      obtain rfl := h.circle.unique hlist
      have hnat : (dc.count - 1).toNat = dc.count.toNat := hcount.trans h.count.symm
      rw [UInt32.toNat_sub] at hnat
      have hlt := dc.count.toNat_lt
      have hone : (1 : UInt32).toNat = 1 := rfl
      omega
    · by_contra hne
      exact (hinv.cached_free hd).mp ((hcached e).mpr ⟨he, hne⟩) |>.2 hkey
  · intro hok
    have hfree := h.free hinv hd hok
    refine ⟨⟨_, hfree.circle, hfree.count⟩, fun e => ?_, fun ys hys => ?_⟩
    · rw [hinv.cached_free hd]
      refine and_congr_right fun he => not_congr ⟨fun hkey => ?_, fun heq => heq ▸ rfl⟩
      exact (hinv.lookup_iff).mp hok.2 e he hkey
    · obtain rfl := h.circle.unique hys
      exact hfree.circle

/-! ## Careful runs -/

theorem ListInv.exec (h : ListInv dc xs) (hinv : Inv dc) {op : DentryOp} (hop : op.Careful dc) :
    ∃ ys, ListInv (op.exec dc).2 ys := by
  obtain ⟨hop, hcareful⟩ := hop
  cases op with
  | alloc memory nameMemory parent sb name =>
      have halloc := h.alloc nameMemory parent sb name hop
      refine ⟨xs, ?_⟩
      rw [DentryOp.exec]
      split <;> (rename_i heq; rwa [heq] at halloc)
  | fill d inode => exact ⟨xs, h.congr rfl rfl rfl rfl⟩
  | get d =>
      obtain ⟨hht, hlive, hlist, hcount, -⟩ := sameCache_dentryGet dc d
      exact ⟨xs, h.congr hht hlive hlist hcount⟩
  | put d =>
      obtain ⟨hht, hlive, hlist, hcount, -⟩ := sameCache_dentryPut dc d
      exact ⟨xs, h.congr hht hlive hlist hcount⟩
  | insert d memory => exact h.insert hinv hop hcareful memory
  | free d => exact ⟨_, h.free hinv hop hcareful⟩

theorem DentryRun.listInv {es : List (DentryOp × Int)}
    (run : DentryRun DentryOp.Careful es dc) : Inv dc ∧ ∃ xs, ListInv dc xs := by
  obtain ⟨dentry, list, lru, run⟩ := run
  refine run.invariant (P := fun dc => Inv dc ∧ ∃ xs, ListInv dc xs)
    ⟨inv_init dentry list lru, _, listInv_init dentry list lru⟩ fun s e t hinv hstep => ?_
  obtain ⟨op, hop, -, rfl⟩ := hstep
  obtain ⟨hinv, xs, hlist⟩ := hinv
  exact ⟨hinv.exec hop.1, hlist.exec hinv hop⟩

/-- **Careful callers keep the cache exact**: after any run of theirs the count is right, and to
free a dentry takes out that dentry alone exactly if they go on being careful. -/
theorem freesOnly_iff {es : List (DentryOp × Int)} (run : DentryRun DentryOp.Careful es dc) :
    Counted dc ∧ ∀ d, dc.live d = true → (FreesOnly dc d ↔ FreeOk dc d) := by
  obtain ⟨hinv, xs, hlist⟩ := run.listInv
  exact ⟨⟨xs, hlist.circle, hlist.count⟩, fun d hd => hlist.freesOnly hinv hd⟩

instance (dc : Dcache) (d : Addr) : Decidable (FreeOk dc d) :=
  inferInstanceAs (Decidable (_ ∧ (_ ∨ _)))

instance (dc : Dcache) (d : Addr) : Decidable (InsertOk dc d) :=
  inferInstanceAs (Decidable (_ ∨ _))

instance (dc : Dcache) (op : DentryOp) : Decidable (op.Careful dc) :=
  match op with
  | .free d => inferInstanceAs (Decidable ((DentryOp.free d).Valid dc ∧ FreeOk dc d))
  | .insert d memory =>
      inferInstanceAs (Decidable ((DentryOp.insert d memory).Valid dc ∧ InsertOk dc d))
  | .alloc memory nameMemory parent sb name => inferInstanceAs
      (Decidable ((DentryOp.alloc memory nameMemory parent sb name).Valid dc ∧ True))
  | .fill d inode => inferInstanceAs (Decidable ((DentryOp.fill d inode).Valid dc ∧ True))
  | .get d => inferInstanceAs (Decidable ((DentryOp.get d).Valid dc ∧ True))
  | .put d => inferInstanceAs (Decidable ((DentryOp.put d).Valid dc ∧ True))

/-- The file `a` is freed again. -/
theorem freesOnly_iff_file : ∃ es dc, DentryRun DentryOp.Careful es dc ∧ Counted dc
    ∧ (FreesOnly dc 0x80000000 ↔ FreeOk dc 0x80000000) := by
  have hes : (record DentryOp.Careful (fileInserted ++ [.free 0x80000100])).map
      (fun s => s.2.live 0x80000000) = some true := by
    decide
  obtain ⟨⟨es, dc⟩, hrun, hlive⟩ := Option.map_eq_some_iff.mp hes
  have h := freesOnly_iff (dentryRun_record hrun)
  exact ⟨es, dc, dentryRun_record hrun, h.1, h.2 _ hlive⟩

/-- A dentry `af` that has not been inserted is freed, as on the error paths of the callers, and
the file `a`, which has the same key, leaves the cache. -/
theorem not_freesOnly : ∃ es dc, DentryRun DentryOp.Valid es dc ∧ dc.live 0x80000200 = true
    ∧ Cached dc 0x80000100 ∧ ¬Cached (dentryFree dc 0x80000200) 0x80000100
    ∧ dc.count = 2 ∧ (dentryFree dc 0x80000200).count = 1
    ∧ (dentryFree dc 0x80000200).list.Circle 0 [0x80000100, 0x80000000] := by
  have hes : (record DentryOp.Valid collidingAllocated).map (fun s => (s.2.live 0x80000200,
      s.2.ht.get (s.2.key 0x80000100),
      (dentryFree s.2 0x80000200).ht.get ((dentryFree s.2 0x80000200).key 0x80000100),
      [s.2.count, (dentryFree s.2 0x80000200).count],
      [0, 0x80000100, 0x80000000].map (dentryFree s.2 0x80000200).list.next
        ++ [0, 0x80000100, 0x80000000].map (dentryFree s.2 0x80000200).list.prev))
      = some (true, some 0x80000100, none, [2, 1], [0x80000100, 0x80000000, 0, 0x80000000, 0,
        0x80000100]) := by
    decide
  obtain ⟨⟨es, dc⟩, hrun, heq⟩ := Option.map_eq_some_iff.mp hes
  simp only [Prod.mk.injEq, List.map_cons, List.map_nil, List.cons_append, List.nil_append,
    List.cons.injEq, and_true] at heq
  obtain ⟨hlive, hget, hget', ⟨hcount, hcount'⟩, hn0, hn1, hn2, hp0, hp1, hp2⟩ := heq
  have h := (dentryRun_record hrun).inv
  refine ⟨es, dc, dentryRun_record hrun, hlive, h.cached_iff.mpr hget, fun hcached => ?_, hcount,
    hcount', by decide, ⟨hn0, hp1⟩, ⟨hn1, hp2⟩, hn2, hp0⟩
  rw [(h.free hlive).cached_iff, hget'] at hcached
  cases hcached

end NoobKernel.Fs
