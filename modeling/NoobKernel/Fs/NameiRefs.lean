import NoobKernel.Lib.Tally
import NoobKernel.Fs.DentryCache
import NoobKernel.Fs.Namei

set_option autoImplicit false

/-! # References of a lookup

In a state without dangling pointers (`Vfs.Sound`) a lookup of one name keeps what was there before
(`Vfs.Extends`), and it takes a reference to the dentry it returns exactly if this is a new one
(`LookedUp`). When it fails, all counts are as before.
-/

namespace NoobKernel.Fs

open Tally

variable {W : Type} {fs : FileSystem W} {st st' : Vfs W} {dc dc' : Dcache} {d e base : Addr}

/-- The references to a dentry; one that is not allocated has none. -/
def Dcache.refs (dc : Dcache) (d : Addr) : UInt32 :=
  if dc.live d = true then (dc.dentry d).dRefcnt else 0

/-- No pointer dangles. -/
structure Vfs.Sound (st : Vfs W) : Prop where
  null : st.dc.live 0 = false
  parent : ∀ d, st.dc.live d = true →
    (st.dc.dentry d).dParent = 0 ∨ st.dc.live (st.dc.dentry d).dParent = true
  cached : ∀ i, ∀ n ∈ st.dc.ht.buckets i, n.value = 0 ∨ st.dc.live n.value = true
  mount : ∀ mnt ∈ st.mounts, st.dc.live mnt.mntRoot = true
  mountpoint : ∀ mnt ∈ st.mounts,
    mnt.mntMountpoint = 0 ∨ st.dc.live mnt.mntMountpoint = true
  root : ∀ mnt, st.rootMount = some mnt → st.dc.live mnt.mntRoot = true

/-- A dentry but for its references. -/
def Dentry.Same (a b : Dentry) : Prop := b = { a with dRefcnt := b.dRefcnt }

theorem Dentry.Same.refl (a : Dentry) : a.Same a := rfl

theorem Dentry.Same.trans {a b c : Dentry} (h : a.Same b) (h' : b.Same c) : a.Same c := by
  rw [Dentry.Same] at h h' ⊢
  rw [h', h]

/-- Dentries stay in use, and are the same but for their references, and mounts stay. -/
structure Vfs.Grows (st st' : Vfs W) : Prop where
  live : ∀ d, st.dc.live d = true → st'.dc.live d = true
  dentry : ∀ d, st.dc.live d = true → (st.dc.dentry d).Same (st'.dc.dentry d)
  mounts : st'.mounts = st.mounts
  rootMount : st'.rootMount = st.rootMount

theorem Vfs.Grows.refl (st : Vfs W) : st.Grows st := ⟨fun _ h => h, fun _ _ => .refl _, rfl, rfl⟩

theorem Vfs.Grows.trans {st'' : Vfs W} (h : st.Grows st') (h' : st'.Grows st'') :
    st.Grows st'' :=
  ⟨fun d hd => h'.live d (h.live d hd),
    fun d hd => (h.dentry d hd).trans (h'.dentry d (h.live d hd)),
    h'.mounts.trans h.mounts, h'.rootMount.trans h.rootMount⟩

theorem Vfs.Sound.ne_zero (h : st.Sound) (hd : st.dc.live d = true) : d ≠ 0 := by
  rintro rfl
  exact Bool.false_ne_true (h.null.symm.trans hd)

/-- A state with the same dentries in use, with the same parents, and nothing else cached. -/
theorem Vfs.Sound.congr (h : st.Sound) (hlive : st'.dc.live = st.dc.live)
    (hparent : ∀ d, st.dc.live d = true → (st'.dc.dentry d).dParent = (st.dc.dentry d).dParent)
    (hht : ∀ i, ∀ n ∈ st'.dc.ht.buckets i, n ∈ st.dc.ht.buckets i)
    (hmounts : st'.mounts = st.mounts) (hroot : st'.rootMount = st.rootMount) : st'.Sound where
  null := hlive ▸ h.null
  parent := by
    intro d hd
    rw [hlive] at hd ⊢
    rw [hparent d hd]
    exact h.parent d hd
  cached := by
    intro i n hn
    rw [hlive]
    exact h.cached i n (hht i n hn)
  mount := by
    rw [hmounts, hlive]
    exact h.mount
  mountpoint := by
    rw [hmounts, hlive]
    exact h.mountpoint
  root := by
    rw [hroot, hlive]
    exact h.root

/-! ## Counts -/

theorem refs_congr (hlive : dc'.live e = dc.live e)
    (hid : dc.live e = true → (dc'.dentry e).dRefcnt = (dc.dentry e).dRefcnt) :
    dc'.refs e = dc.refs e := by
  rw [Dcache.refs, Dcache.refs, hlive]
  split
  · rename_i h
    exact hid h
  · rfl

theorem refs_setRefcnt (hd : dc.live d = true) (r : UInt32) (e : Addr) :
    (dc.setRefcnt d r).refs e = if e = d then r else dc.refs e := by
  by_cases he : e = d
  · subst he
    rw [if_pos rfl, Dcache.refs, if_pos]
    · simp [Dcache.setRefcnt]
    · exact hd
  · rw [if_neg he]
    exact refs_congr rfl fun _ => by simp [Dcache.setRefcnt, he]

theorem refs_live (hd : dc.live d = true) : dc.refs d = (dc.dentry d).dRefcnt := if_pos hd

theorem refs_dentryGet (hnull : d ≠ 0) (hd : dc.live d = true) (e : Addr) :
    (dentryGet dc d).refs e = dc.refs e + tally [d] e := by
  rw [dentryGet, if_neg hnull, refs_setRefcnt hd, tally_singleton]
  split
  · rename_i he
    rw [he, refs_live hd]
  · rw [UInt32.add_zero]

theorem refs_dentryPut (hnull : d ≠ 0) (hd : dc.live d = true) (e : Addr) :
    (dentryPut dc d).refs e + tally [d] e = dc.refs e := by
  have hrefs : (dentryPut dc d).refs e
      = (dc.setRefcnt d ((dc.dentry d).dRefcnt - 1)).refs e := by
    rw [dentryPut, if_neg hnull]
    simp only
    split <;> rfl
  rw [hrefs, refs_setRefcnt hd, tally_singleton]
  split
  · rename_i he
    rw [he, refs_live hd, UInt32.sub_add_cancel]
  · rw [UInt32.add_zero]

/-! ## What the operations keep -/

theorem Vfs.Sound.get (h : st.Sound) (d : Addr) : (st.dentryGet d).Sound := by
  obtain ⟨hht, hlive, -, -, hid⟩ := sameCache_dentryGet st.dc d
  refine h.congr hlive (fun e _ => ?_) (fun i n hn => ?_) rfl rfl
  · have hparent := congrArg Dentry.dParent (hid e)
    exact hparent
  · exact hht ▸ hn

theorem Vfs.Sound.put (h : st.Sound) (d : Addr) : (st.dentryPut d).Sound := by
  obtain ⟨hht, hlive, -, -, hid⟩ := sameCache_dentryPut st.dc d
  refine h.congr hlive (fun e _ => ?_) (fun i n hn => ?_) rfl rfl
  · have hparent := congrArg Dentry.dParent (hid e)
    exact hparent
  · exact hht ▸ hn

theorem grows_get (st : Vfs W) (d : Addr) : st.Grows (st.dentryGet d) :=
  ⟨fun _ he => (congrFun (sameCache_dentryGet st.dc d).2.1 _).trans he,
    fun e _ => (sameCache_dentryGet st.dc d).2.2.2.2 e, rfl, rfl⟩

theorem grows_put (st : Vfs W) (d : Addr) : st.Grows (st.dentryPut d) :=
  ⟨fun _ he => (congrFun (sameCache_dentryPut st.dc d).2.1 _).trans he,
    fun e _ => (sameCache_dentryPut st.dc d).2.2.2.2 e, rfl, rfl⟩

/-- The state after a successful `dentry_alloc`. -/
structure Allocated (st : Vfs W) (d parent : Addr) (st' : Vfs W) : Prop where
  null : d ≠ 0
  new : st.dc.live d = false
  live : st'.dc.live = Function.update st.dc.live d true
  parent : (st'.dc.dentry d).dParent = if parent ≠ 0 then parent else d
  refcnt : (st'.dc.dentry d).dRefcnt = 1
  other : ∀ e, e ≠ d → st'.dc.dentry e = st.dc.dentry e
  ht : st'.dc.ht = st.dc.ht
  mounts : st'.mounts = st.mounts
  rootMount : st'.rootMount = st.rootMount
  frees : st'.frees = st.frees

/-- How `dentry_alloc` goes. -/
theorem dentryAlloc_cases (dc : Dcache) (memory : Addr) (nameMemory : Bool) (parent sb : Addr)
    (name : List UInt8) : dentryAlloc dc memory nameMemory parent sb name = (.error (-ENOMEM), dc)
      ∨ memory ≠ 0 ∧ dentryAlloc dc memory nameMemory parent sb name = (.ok memory, { dc with
        dentry := Function.update dc.dentry memory
          ⟨qstrInit name, 0, sb, if parent ≠ 0 then parent else memory, 1⟩
        live := Function.update dc.live memory true
        list := dc.list.init memory
        lru := dc.lru.init memory }) := by
  unfold dentryAlloc
  split
  · exact .inl rfl
  · rename_i hok
    exact .inr ⟨(not_or.mp hok).1, rfl⟩

/-- `dentry_alloc` works on memory that is not in use. -/
theorem Vfs.dentryAlloc_eq (fs : FileSystem W) (st : Vfs W) (parent sb : Addr)
    (name : List UInt8) : ∃ memory nameMemory world, (memory = 0 ∨ st.dc.live memory = false)
      ∧ st.dentryAlloc fs parent sb name
        = ((Fs.dentryAlloc st.dc memory nameMemory parent sb name).1, { st with
          dc := (Fs.dentryAlloc st.dc memory nameMemory parent sb name).2
          world := world }) :=
  ⟨_, _, _, fs.kmemCacheAlloc_new st.world st.dc.live, rfl⟩

theorem dentryAlloc_ok {parent sb : Addr} {name : List UInt8}
    (h : st.dentryAlloc fs parent sb name = (.ok d, st')) : Allocated st d parent st' := by
  obtain ⟨memory, nameMemory, world, hnew, hrun⟩ := st.dentryAlloc_eq fs parent sb name
  rw [hrun] at h
  rcases dentryAlloc_cases st.dc memory nameMemory parent sb name with heq | ⟨hnull, heq⟩
  · rw [heq] at h
    cases h
  · rw [heq] at h
    cases h
    refine ⟨hnull, hnew.resolve_left hnull, rfl, ?_, ?_, fun e he => ?_, rfl, rfl, rfl, rfl⟩
    · simp
    · simp
    · simp [he]

/-- The name of a new dentry. -/
theorem dentryAlloc_dName {parent sb : Addr} {name : List UInt8}
    (h : st.dentryAlloc fs parent sb name = (.ok d, st')) :
    (st'.dc.dentry d).dName = qstrInit name := by
  obtain ⟨memory, nameMemory, world, -, hrun⟩ := st.dentryAlloc_eq fs parent sb name
  rw [hrun] at h
  rcases dentryAlloc_cases st.dc memory nameMemory parent sb name with heq | ⟨-, heq⟩
  · rw [heq] at h
    cases h
  · rw [heq] at h
    cases h
    simp

/-- A failed `dentry_alloc` leaves the dentries alone. -/
theorem dentryAlloc_error {parent sb : Addr} {name : List UInt8} {err : Int}
    (h : st.dentryAlloc fs parent sb name = (.error err, st')) :
    st' = { st with world := st'.world } := by
  obtain ⟨memory, nameMemory, world, -, hrun⟩ := st.dentryAlloc_eq fs parent sb name
  rw [hrun] at h
  rcases dentryAlloc_cases st.dc memory nameMemory parent sb name with heq | ⟨-, heq⟩
  · rw [heq] at h
    cases h
    rfl
  · rw [heq] at h
    cases h

theorem Allocated.grows {parent : Addr} (h : Allocated st d parent st') : st.Grows st' where
  live := by
    intro e he
    have hne : e ≠ d := by
      rintro rfl
      exact Bool.false_ne_true (h.new.symm.trans he)
    rw [h.live, Function.update_of_ne hne]
    exact he
  dentry := by
    intro e he
    have hne : e ≠ d := by
      rintro rfl
      exact Bool.false_ne_true (h.new.symm.trans he)
    rw [h.other e hne]
    exact .refl _
  mounts := h.mounts
  rootMount := h.rootMount

theorem Allocated.live_self {parent : Addr} (h : Allocated st d parent st') :
    st'.dc.live d = true := by
  rw [h.live, Function.update_self]

theorem Allocated.of_live {parent : Addr} (h : Allocated st d parent st')
    (he : st'.dc.live e = true) : e = d ∨ e ≠ d ∧ st.dc.live e = true := by
  by_cases hne : e = d
  · exact .inl hne
  · rw [h.live, Function.update_of_ne hne] at he
    exact .inr ⟨hne, he⟩

theorem Allocated.sound {parent : Addr} (h : Allocated st d parent st') (hs : st.Sound)
    (hp : st.dc.live parent = true) : st'.Sound where
  null := by
    rw [h.live, Function.update_of_ne h.null.symm]
    exact hs.null
  parent := by
    intro e he
    rcases h.of_live he with rfl | ⟨hne, he⟩
    · rw [h.parent, if_pos (hs.ne_zero hp)]
      exact .inr (h.grows.live _ hp)
    · rw [h.other e hne]
      exact (hs.parent e he).imp_right (h.grows.live _)
  cached := by
    intro i n hn
    rw [h.ht] at hn
    exact (hs.cached i n hn).imp_right (h.grows.live _)
  mount := by
    intro mnt hmnt
    rw [h.mounts] at hmnt
    exact h.grows.live _ (hs.mount mnt hmnt)
  mountpoint := by
    intro mnt hmnt
    rw [h.mounts] at hmnt
    exact (hs.mountpoint mnt hmnt).imp_right (h.grows.live _)
  root := by
    intro mnt hmnt
    rw [h.rootMount] at hmnt
    exact h.grows.live _ (hs.root mnt hmnt)

theorem Allocated.refs {parent : Addr} (h : Allocated st d parent st') (e : Addr) :
    st'.dc.refs e = st.dc.refs e + tally [d] e := by
  rw [tally_singleton]
  by_cases he : e = d
  · subst he
    have hzero : st.dc.refs e = 0 := if_neg (by rw [h.new]; exact Bool.false_ne_true)
    rw [if_pos rfl, hzero, refs_live h.live_self, h.refcnt]
    rfl
  · rw [if_neg he, UInt32.add_zero]
    refine refs_congr ?_ fun _ => ?_
    · rw [h.live, Function.update_of_ne he]
    · rw [h.other e he]

/-! ## One lookup -/

/-- A call of `dentry_free` on a dentry that came into use after a state, and that is no other
dentry's parent. -/
def FreshFree (st : Vfs W) (c : FreeCall) : Prop :=
  c.deleting = false ∧ st.dc.live c.d = false
    ∧ ∀ e, c.dc.live e = true → e ≠ c.d → (c.dc.dentry e).dParent ≠ c.d

/-- What a lookup does to the dentries that were there before: nothing but count references. -/
structure Vfs.Extends (st st' : Vfs W) : Prop where
  sound : st'.Sound
  grows : st.Grows st'
  frees : ∃ calls, st'.frees = st.frees ++ calls ∧ ∀ c ∈ calls, FreshFree st c

theorem Vfs.Extends.of_frees (hs : st'.Sound) (hg : st.Grows st')
    (hfrees : st'.frees = st.frees) : st.Extends st' :=
  ⟨hs, hg, [], hfrees.trans (List.append_nil _).symm, fun _ h => absurd h List.not_mem_nil⟩

theorem Vfs.Extends.refl (hs : st.Sound) : st.Extends st := .of_frees hs (.refl st) rfl

theorem Vfs.Extends.trans {st'' : Vfs W} (h : st.Extends st') (h' : st'.Extends st'') :
    st.Extends st'' := by
  obtain ⟨-, hg, calls, hfrees, hcalls⟩ := h
  obtain ⟨hs', hg', calls', hfrees', hcalls'⟩ := h'
  refine ⟨hs', hg.trans hg', calls ++ calls', ?_, fun c hc => ?_⟩
  · rw [hfrees', hfrees, List.append_assoc]
  · rcases List.mem_append.mp hc with hc | hc
    · exact hcalls c hc
    · obtain ⟨hdeleting, hnew, hchild⟩ := hcalls' c hc
      refine ⟨hdeleting, ?_, hchild⟩
      rw [← Bool.not_eq_true] at hnew ⊢
      exact fun hlive => hnew (hg.live _ hlive)

theorem Vfs.Extends.get (hs : st.Sound) (d : Addr) : st.Extends (st.dentryGet d) :=
  .of_frees (hs.get d) (grows_get st d) rfl

theorem Vfs.Extends.put (hs : st.Sound) (d : Addr) : st.Extends (st.dentryPut d) :=
  .of_frees (hs.put d) (grows_put st d) rfl

/-- The file system has been asked for a new dentry. -/
def Vfs.fill (st : Vfs W) (d inode : Addr) (world : W) : Vfs W :=
  { st with dc := st.dc.setInode d inode, world := world }

theorem setInode_dentry (dc : Dcache) (d inode e : Addr) : (dc.setInode d inode).dentry e
    = { dc.dentry e with dInode := ((dc.setInode d inode).dentry e).dInode } := by
  by_cases he : e = d
  · subst he
    simp [Dcache.setInode]
  · simp [Dcache.setInode, he]

theorem Vfs.Sound.fill (hs : st.Sound) (d inode : Addr) (world : W) :
    (st.fill d inode world).Sound := by
  refine hs.congr rfl (fun e _ => ?_) (fun i n hn => hn) rfl rfl
  have hparent := congrArg Dentry.dParent (setInode_dentry st.dc d inode e)
  exact hparent

theorem refs_setInode (dc : Dcache) (d inode e : Addr) : (dc.setInode d inode).refs e = dc.refs e := by
  have hrefcnt := congrArg Dentry.dRefcnt (setInode_dentry dc d inode e)
  refine refs_congr rfl fun _ => ?_
  by_cases he : e = d
  · subst he
    simp [Dcache.setInode]
  · simp [Dcache.setInode, he]

variable (fs) in
/-- The new dentry is freed. -/
theorem Allocated.live_free {parent : Addr} {st₁ : Vfs W} (h : Allocated st d parent st₁)
    (inode : Addr) (world : W) :
    ((st₁.fill d inode world).dentryFree fs false d).dc.live = st.dc.live := by
  unfold Vfs.dentryFree
  rw [if_neg h.null, dentryFree_eq h.null]
  change Function.update st₁.dc.live d false = st.dc.live
  rw [h.live, Function.update_idem, ← h.new, Function.update_eq_self]

variable (fs) in
/-- The new dentry is freed, and all is as before. -/
theorem Allocated.extends_free {parent : Addr} {st₁ : Vfs W} (h : Allocated st d parent st₁)
    (hs : st.Sound) (inode : Addr) (world : W) :
    st.Extends ((st₁.fill d inode world).dentryFree fs false d)
      ∧ ∀ e, ((st₁.fill d inode world).dentryFree fs false d).dc.refs e = st.dc.refs e := by
  have hlive := h.live_free fs inode world
  unfold Vfs.dentryFree at hlive ⊢
  rw [if_neg h.null, dentryFree_eq h.null] at hlive ⊢
  have hold : ∀ e, st.dc.live e = true →
      (st₁.fill d inode world).dc.dentry e = st.dc.dentry e := by
    intro e he
    have hne : e ≠ d := by
      rintro rfl
      exact Bool.false_ne_true (h.new.symm.trans he)
    simp only [Vfs.fill, Dcache.setInode, Function.update_of_ne hne]
    exact h.other e hne
  refine ⟨⟨?_, ⟨fun e he => ?_, fun e he => ?_, h.mounts, h.rootMount⟩, [_],
    congrArg (· ++ _) h.frees, ?_⟩, fun e => ?_⟩
  · refine hs.congr hlive (fun e he => ?_) (fun i n hn => ?_) h.mounts h.rootMount
    · exact congrArg Dentry.dParent (hold e he)
    · have hmem := Hashtable.mem_of_mem_delete hn
      rw [← h.ht]
      exact hmem
  · exact (congrFun hlive e).trans he
  · have hsame : (st₁.fill d inode world).dc.dentry e = st.dc.dentry e := hold e he
    show (st.dc.dentry e).Same ((st₁.fill d inode world).dc.dentry e)
    rw [hsame]
    exact .refl _
  · intro c hc
    obtain rfl := List.mem_singleton.mp hc
    refine ⟨rfl, h.new, fun e he hne hparent => ?_⟩
    -- the parents of the others were in use before
    have he' := ((h.of_live he).resolve_left hne).2
    have hparent' : (st.dc.dentry e).dParent = d :=
      (congrArg Dentry.dParent (hold e he').symm).trans hparent
    rcases hs.parent e he' with hzero | hlive
    · exact h.null (hparent'.symm.trans hzero)
    · rw [hparent', h.new] at hlive
      cases hlive
  · refine refs_congr (congrFun hlive e) fun he => ?_
    exact congrArg Dentry.dRefcnt (hold e he)

variable (fs) in
/-- `dentry_insert` changes the table alone. -/
theorem Vfs.Sound.insert (hs : st.Sound) (hd : st.dc.live d = true) :
    st.Extends (st.dentryInsert fs d).2
      ∧ ∀ e, (st.dentryInsert fs d).2.dc.refs e = st.dc.refs e := by
  unfold Vfs.dentryInsert
  generalize fs.kmalloc st.world = mem
  obtain ⟨memory, world⟩ := mem
  simp only
  rcases dentryInsert_cases st.dc d memory with ⟨heq, -⟩ | ⟨-, heq⟩
  · rw [heq]
    exact ⟨.of_frees (hs.congr rfl (fun _ _ => rfl) (fun _ _ h => h) rfl rfl)
      ⟨fun _ h => h, fun _ _ => .refl _, rfl, rfl⟩ rfl, fun _ => rfl⟩
  · rw [heq]
    refine ⟨.of_frees ⟨hs.null, hs.parent, fun i n hn => ?_, hs.mount, hs.mountpoint, hs.root⟩
      ⟨fun _ h => h, fun _ _ => .refl _, rfl, rfl⟩ rfl, fun _ => rfl⟩
    rcases Hashtable.value_of_mem_insert hn with hvalue | hn
    · rw [hvalue]
      exact .inr hd
    · exact hs.cached i n hn

variable (fs) in
theorem dentryInsert_same (st : Vfs W) (d : Addr) :
    (st.dentryInsert fs d).2.dc.live = st.dc.live
      ∧ (st.dentryInsert fs d).2.dc.dentry = st.dc.dentry := by
  unfold Vfs.dentryInsert
  generalize fs.kmalloc st.world = mem
  obtain ⟨memory, world⟩ := mem
  simp only
  rcases dentryInsert_cases st.dc d memory with ⟨heq, -⟩ | ⟨-, heq⟩
  · rw [heq]
    exact ⟨rfl, rfl⟩
  · rw [heq]
    exact ⟨rfl, rfl⟩

/-- What a lookup returns, with the references it has taken. -/
structure LookedUp (st : Vfs W) (r : Addr) (st' : Vfs W) : Prop where
  ext : st.Extends st'
  live : st'.dc.live r = true
  refs : ∀ e, st'.dc.refs e = st.dc.refs e + if st.dc.live r = true then 0 else tally [r] e

variable (fs) in
theorem vfsLookupNew_spec (hs : st.Sound) (hb : st.dc.live base = true) (name : List UInt8) :
    match vfsLookupNew fs st base name with
    | (.ok r, st') => LookedUp st r st'
    | (.error _, st') => st.Extends st' ∧ ∀ e, st'.dc.refs e = st.dc.refs e := by
  unfold vfsLookupNew
  generalize halloc : st.dentryAlloc fs base (st.dc.dentry base).dSb name = r
  obtain ⟨err | d, st₁⟩ := r
  · rw [dentryAlloc_error halloc]
    exact ⟨.of_frees (hs.congr rfl (fun _ _ => rfl) (fun _ _ h => h) rfl rfl)
      ⟨fun _ h => h, fun _ _ => .refl _, rfl, rfl⟩ rfl, fun _ => rfl⟩
  have halloc := dentryAlloc_ok halloc
  have hs₁ := halloc.sound hs hb
  simp only
  have hlaw := fs.lookup_live st₁.world st₁.dc.live (st₁.dc.dentry base).dInode d
    (st₁.dc.dentry d)
  generalize fs.lookup st₁.world st₁.dc.live (st₁.dc.dentry base).dInode d (st₁.dc.dentry d)
    = found at hlaw ⊢
  obtain ⟨⟨err | r, inode⟩, world⟩ := found
  · exact halloc.extends_free fs hs inode world
  have hlive := hlaw r halloc.live_self rfl
  simp only
  by_cases hr : r = d
  · -- the dentry it was given
    subst hr
    rw [if_neg (not_not.mpr rfl)]
    obtain ⟨hext, hrefs⟩ := (hs₁.fill r inode world).insert fs hlive
    have hfill : st.Extends (st₁.fill r inode world) := by
      refine .of_frees (hs₁.fill r inode world) ⟨halloc.grows.live, fun e he => ?_,
        halloc.grows.mounts, halloc.grows.rootMount⟩ halloc.frees
      have hne : e ≠ r := by
        rintro rfl
        exact Bool.false_ne_true (halloc.new.symm.trans he)
      have hsame : (st₁.fill r inode world).dc.dentry e = st₁.dc.dentry e :=
        Function.update_of_ne hne _ _
      rw [hsame]
      exact halloc.grows.dentry e he
    refine ⟨hfill.trans hext, hext.grows.live _ hlive, fun e => ?_⟩
    rw [halloc.new, if_neg Bool.false_ne_true, ← halloc.refs]
    exact (hrefs e).trans (refs_setInode _ _ _ _)
  · -- another one, and the new dentry goes back
    rw [if_pos hr]
    obtain ⟨hext, hrefs⟩ := halloc.extends_free fs hs inode world
    have hold : st.dc.live r = true := ((halloc.of_live hlive).resolve_left hr).2
    obtain ⟨hext', hrefs'⟩ := hext.sound.insert fs (hext.grows.live r hold)
    refine ⟨hext.trans hext', hext'.grows.live _ (hext.grows.live r hold), fun e => ?_⟩
    rw [if_pos hold, UInt32.add_zero]
    exact (hrefs' e).trans (hrefs e)

theorem dentryLookup_live (hs : st.Sound) {sb parent : Addr} {name : Qstr}
    (hd : dentryLookup st.dc sb parent name ≠ 0) :
    st.dc.live (dentryLookup st.dc sb parent name) = true := by
  unfold dentryLookup at hd ⊢
  simp only at hd ⊢
  split
  · rename_i n hfind
    rw [hfind] at hd
    exact (hs.cached _ n (List.mem_of_find?_eq_some hfind)).resolve_left hd
  · rename_i hfind
    rw [hfind] at hd
    exact absurd rfl hd

theorem vfsLookupMount_mem {mountpoint : Addr} {mnt : Mount}
    (h : vfsLookupMount st mountpoint = some mnt) : mnt ∈ st.mounts := by
  unfold vfsLookupMount at h
  split at h
  · cases h
  · exact List.mem_of_find?_eq_some h

theorem lookupBase_live (hs : st.Sound) (hb : st.dc.live base = true) :
    st.dc.live (lookupBase st base) = true := by
  unfold lookupBase
  split
  · rename_i mnt hmnt
    have hroot := hs.mount mnt (vfsLookupMount_mem hmnt)
    split
    · exact hroot
    · exact hb
  · exact hb

variable (fs) in
theorem vfsLookupSingle_spec (hs : st.Sound) (hb : st.dc.live base = true) (name : List UInt8)
    (len : UInt32) :
    match vfsLookupSingle fs st base name len with
    | (.ok r, st') => LookedUp st r st'
    | (.error _, st') => st.Extends st' ∧ ∀ e, st'.dc.refs e = st.dc.refs e := by
  unfold vfsLookupSingle
  by_cases hinval : base = 0 ∨ len = 0
  · rw [if_pos hinval]
    exact ⟨.refl hs, fun _ => rfl⟩
  rw [if_neg hinval]
  simp only
  by_cases hdir : isDirectory fs st (lookupBase st base) = false
  · rw [if_pos hdir]
    exact ⟨.refl hs, fun _ => rfl⟩
  rw [if_neg hdir]
  by_cases hop : fs.hasLookup st.world (st.dc.dentry (lookupBase st base)).dInode = false
  · rw [if_pos hop]
    exact ⟨.refl hs, fun _ => rfl⟩
  rw [if_neg hop]
  by_cases hfound : dentryLookup st.dc (st.dc.dentry (lookupBase st base)).dSb
      (lookupBase st base) ⟨name, len, hashString name len⟩ ≠ 0
  · rw [if_pos hfound]
    have hlive := dentryLookup_live hs hfound
    refine ⟨.refl hs, hlive, fun e => ?_⟩
    rw [if_pos hlive, UInt32.add_zero]
  · rw [if_neg hfound]
    exact vfsLookupNew_spec fs hs (lookupBase_live hs hb) name

/-! ## A file system -/

/-- All directories hold the same names. The inode 1 is that of a directory, and there is no file
of inode 0. -/
def nameFs (inode : List UInt8 → Addr) : FileSystem Nat where
  kmemCacheAlloc n live :=
    let d := 0x80000000 + 0x100 * UInt64.ofNat n
    if live d then (0, n) else (d, n + 1)
  kmalloc n := (true, n)
  iMode _ i := if i = 1 then S_IFDIR else S_IFREG
  hasLookup _ _ := true
  lookup n _ _ d dentry :=
    if inode dentry.dName.name = 0 then (⟨.error (-ENOENT), 0⟩, n)
    else (⟨.ok d, inode dentry.dName.name⟩, n)
  release n _ _ := n
  kmemCacheAlloc_new := by
    intro n live
    simp only
    split
    · exact .inl rfl
    · rename_i h
      exact .inr (Bool.eq_false_of_not_eq_true h)
  lookup_live := by
    intro n live dir d dentry r hd h
    split at h
    · cases h
    · cases h
      exact hd

/-- The root directory is mounted, and nothing has been looked up. -/
def rootOnly : Vfs Nat where
  dc := { dentryInit (fun _ => ⟨qstrInit [47], 1, 0x80002000, 0x80001000, 1⟩) ⟨id, id⟩ ⟨id, id⟩ with
    live := fun d => d == 0x80001000 }
  mounts := [⟨0x80001000, 0x80001000⟩]
  rootMount := some ⟨0x80001000, 0x80001000⟩
  world := 0
  frees := []

theorem sound_rootOnly : rootOnly.Sound where
  null := by decide
  parent := fun _ _ => .inr rfl
  cached := fun _ _ h => absurd h List.not_mem_nil
  mount := by decide
  mountpoint := by decide
  root := by
    rintro mnt (_ | _)
    rfl

end NoobKernel.Fs
