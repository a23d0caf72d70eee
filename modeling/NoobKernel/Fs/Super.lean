import NoobKernel.Lib.Lts
import NoobKernel.Fs.Inode

set_option autoImplicit false

/-! # Super blocks (`fs/super.c`)

The memory of `super_cache` is a map from addresses to super blocks, of which the `live` ones are
allocated; `super_list` is the link field `s_list` of all of them, its head being the node `0`.

`super_free` takes a super block off the list and counts it down, whether it has been registered or
not, and so does `super_unregister`. As long as callers do this only to super blocks on the list
(`Careful`), the list is well formed and the count is its length (`accounted_of_careful`).
-/

namespace NoobKernel.Fs

/-- `hasPutSuper`: there is `s_op`, and in it `put_super`. -/
structure SuperBlock where
  sDev : Int32
  hasPutSuper : Bool
  sCount : UInt32
  deriving DecidableEq

/-- `super_state` and the memory of the super blocks; `log` has those `put_super` was called for. -/
structure Supers where
  super : Addr → SuperBlock
  live : Addr → Bool
  list : Links Addr
  count : UInt32
  log : List Addr

/-- No super blocks, over any memory. -/
def superInit (super : Addr → SuperBlock) (list : Links Addr) : Supers where
  super := super
  live := fun _ => false
  list := list.init 0
  count := 0
  log := []

/-- `memory` is the address the slab allocator returns, `0` if there is none. -/
def superAlloc (s : Supers) (memory : Addr) (dev : Int32) : Except Int Addr × Supers :=
  if memory = 0 then (.error (-ENOMEM), s)
  else
    (.ok memory, { s with
      super := Function.update s.super memory ⟨dev, false, 1⟩
      live := Function.update s.live memory true
      list := s.list.init memory })

def superFree (s : Supers) (sb : Addr) : Supers :=
  if sb = 0 then s
  else
    { s with
      list := s.list.del sb
      count := s.count - 1
      live := Function.update s.live sb false }

/-- More than there are addresses. -/
def SUPER_ROUNDS : Nat := 2 ^ 64 + 1

/-- The loop over the list, which `super_lookup` and `super_register` have: the first super block of
the device, and none at all if the loop does not end. -/
def Supers.find (s : Supers) (dev : Int32) : Option (Option Addr) :=
  Links.scan s.list.next 0 (fun sb => (s.super sb).sDev = dev) SUPER_ROUNDS (s.list.next 0)

def superLookup (s : Supers) (dev : Int32) : Option Addr := (s.find dev).map (Option.getD · 0)

def Supers.setCount (s : Supers) (sb : Addr) (count : UInt32) : Supers :=
  { s with super := Function.update s.super sb { s.super sb with sCount := count } }

@[simp] theorem Supers.setCount_self (s : Supers) (sb : Addr) (count : UInt32) :
    (s.setCount sb count).super sb = { s.super sb with sCount := count } :=
  Function.update_self _ _ _

def superGet (s : Supers) (sb : Addr) : Supers :=
  if sb = 0 then s else s.setCount sb ((s.super sb).sCount + 1)

/-- `put_super` leaves the registry alone. -/
def superPut (s : Supers) (sb : Addr) : Supers :=
  if sb = 0 then s
  else
    let s := s.setCount sb ((s.super sb).sCount - 1)
    if (s.super sb).sCount = 0 then
      superFree (if (s.super sb).hasPutSuper then { s with log := s.log ++ [sb] } else s) sb
    else s

/-- None if the loop does not end. -/
def superRegister (s : Supers) (sb : Addr) : Option (Int × Supers) :=
  if sb = 0 then some (-EINVAL, s)
  else
    (s.find (s.super sb).sDev).map fun existing =>
      if existing.isSome then (-EEXIST, s)
      else (0, { s with list := s.list.add sb 0, count := s.count + 1 })

def superUnregister (s : Supers) (sb : Addr) : Supers :=
  if sb = 0 then s else { s with list := s.list.del sb, count := s.count - 1 }

/-! ## Runs -/

inductive SuperOp
  | alloc (memory : Addr) (dev : Int32)
  /-- a file system fills in `s_op` -/
  | fill (sb : Addr) (hasPutSuper : Bool)
  | get (sb : Addr)
  | put (sb : Addr)
  | register (sb : Addr)
  | unregister (sb : Addr)
  deriving DecidableEq

/-- The slab allocator returns memory that is not in use, and callers pass live super blocks. -/
def SuperOp.Valid (s : Supers) : SuperOp → Prop
  | alloc memory _ => memory = 0
      ∨ s.live memory = false ∧ PM_START ≤ memory.toNat ∧ memory.toNat < PM_END
  | fill sb _ => s.live sb = true
  | get sb | put sb | register sb | unregister sb => sb = 0 ∨ s.live sb = true

/-- The return value, `0` for a pointer or none, and the registry, if the call returns. -/
def SuperOp.exec (s : Supers) : SuperOp → Option (Int × Supers)
  | alloc memory dev =>
      match superAlloc s memory dev with
      | (.ok _, s) => some (0, s)
      | (.error e, s) => some (e, s)
  | fill sb hasPutSuper => some (0, { s with
      super := Function.update s.super sb { s.super sb with hasPutSuper := hasPutSuper } })
  | get sb => some (0, superGet s sb)
  | put sb => some (0, superPut s sb)
  | register sb => superRegister s sb
  | unregister sb => some (0, superUnregister s sb)

/-- A call that callers of a kind make, with its result. -/
def SuperStep (ok : Supers → SuperOp → Prop) (s : Supers) (e : Option (SuperOp × Int))
    (s' : Supers) : Prop :=
  ∃ op ret, ok s op ∧ e = some (op, ret) ∧ op.exec s = some (ret, s')

/-- A run of such callers from the empty registry. -/
def SuperRun (ok : Supers → SuperOp → Prop) (es : List (SuperOp × Int)) (s : Supers) : Prop :=
  ∃ super list, Lts.Run (SuperStep ok) (superInit super list) es s

/-- The super block is on `super_list`. -/
def Listed (s : Supers) (sb : Addr) : Prop := ∃ xs, s.list.Circle 0 xs ∧ sb ∈ xs

/-- The call unlinks a super block. -/
def SuperOp.Unlinks (s : Supers) : SuperOp → Addr → Prop
  | put sb, sb' => sb = sb' ∧ sb ≠ 0 ∧ (s.super sb).sCount = 1
  | unregister sb, sb' => sb = sb' ∧ sb ≠ 0
  | _, _ => False

/-- The calls of callers that unlink only what is on the list. -/
def SuperOp.Careful (s : Supers) (op : SuperOp) : Prop :=
  op.Valid s ∧ ∀ sb, op.Unlinks s sb → Listed s sb

/-- `super_state.count` is the number of super blocks on the list, which are allocated, each of
another device. -/
def Accounted (s : Supers) : Prop :=
  ∃ xs, s.list.Circle 0 xs ∧ s.count.toNat = xs.length ∧ (xs.map fun sb => (s.super sb).sDev).Nodup
    ∧ ∀ sb ∈ xs, s.live sb = true

/-! ## The invariant -/

structure SuperInv (s : Supers) (xs : List Addr) : Prop where
  circle : s.list.Circle 0 xs
  count : s.count.toNat = xs.length
  devs : (xs.map fun sb => (s.super sb).sDev).Nodup
  live : ∀ sb ∈ xs, s.live sb = true
  memory : ∀ sb, s.live sb = true → PM_START ≤ sb.toNat ∧ sb.toNat < PM_END

variable {s s' : Supers} {sb : Addr} {xs : List Addr}

theorem superInv_init (super : Addr → SuperBlock) (list : Links Addr) :
    SuperInv (superInit super list) [] where
  circle := Links.circle_init list 0
  count := rfl
  devs := List.nodup_nil
  live := fun _ h => absurd h List.not_mem_nil
  memory := fun _ h => absurd h Bool.false_ne_true

namespace SuperInv

theorem length_lt (h : SuperInv s xs) : xs.length < 2 ^ 32 - 1 := by
  have hle := length_le_of_nodup (List.nodup_cons.mp h.circle.1).2
    fun sb hsb => h.memory sb (h.live sb hsb)
  have hsize : PM_END - PM_START < 2 ^ 32 - 1 := by decide
  omega

theorem ne_zero (h : SuperInv s xs) (hsb : s.live sb = true) : sb ≠ 0 := by
  rintro rfl
  exact absurd (h.memory 0 hsb).1 (by decide)

/-- The list depends on the devices of the super blocks on it. -/
theorem congr (h : SuperInv s xs) (hdev : ∀ sb ∈ xs, (s'.super sb).sDev = (s.super sb).sDev)
    (hlive : s'.live = s.live) (hlist : s'.list = s.list) (hcount : s'.count = s.count) :
    SuperInv s' xs where
  circle := hlist ▸ h.circle
  count := hcount ▸ h.count
  devs := by
    rw [List.map_congr_left hdev]
    exact h.devs
  live := hlive ▸ h.live
  memory := hlive ▸ h.memory

theorem setCount (h : SuperInv s xs) (sb : Addr) (count : UInt32) :
    SuperInv (s.setCount sb count) xs := by
  refine h.congr (fun e _ => ?_) rfl rfl rfl
  unfold Supers.setCount
  dsimp only
  rw [Function.update_apply]
  split
  · rename_i heq
    rw [heq]
  · rfl

theorem listed_iff (h : SuperInv s xs) : Listed s sb ↔ sb ∈ xs := by
  constructor
  · rintro ⟨ys, hys, hmem⟩
    rwa [h.circle.unique hys]
  · exact fun hmem => ⟨xs, h.circle, hmem⟩

theorem find_eq (h : SuperInv s xs) (dev : Int32) :
    s.find dev = some (xs.find? fun sb => (s.super sb).sDev = dev) := by
  have hlen := h.length_lt
  exact h.circle.scan_next _ (by unfold SUPER_ROUNDS; omega)

/-- `super_lookup` finds the one super block of a device. -/
theorem superLookup_iff (h : SuperInv s xs) (dev : Int32) (hsb : sb ≠ 0) :
    superLookup s dev = some sb ↔ sb ∈ xs ∧ (s.super sb).sDev = dev := by
  unfold superLookup
  rw [h.find_eq, Option.map_some, Option.some_inj]
  constructor
  · intro hget
    cases hfind : xs.find? fun e => (s.super e).sDev = dev with
    | none =>
        rw [hfind] at hget
        exact absurd hget.symm hsb
    | some e =>
        rw [hfind] at hget
        obtain rfl : e = sb := hget
        have hdev := List.find?_some hfind
        exact ⟨List.mem_of_find?_eq_some hfind, of_decide_eq_true hdev⟩
  · rintro ⟨hmem, hdev⟩
    obtain ⟨e, hfind⟩ : ∃ e, xs.find? (fun e => (s.super e).sDev = dev) = some e :=
      Option.isSome_iff_exists.mp (List.find?_isSome.mpr ⟨sb, hmem, decide_eq_true hdev⟩)
    have hedev := List.find?_some hfind
    rw [hfind, Option.getD_some]
    exact List.inj_on_of_nodup_map h.devs (List.mem_of_find?_eq_some hfind) hmem
      ((of_decide_eq_true hedev).trans hdev.symm)

theorem alloc (h : SuperInv s xs) {memory : Addr} (dev : Int32) (hfresh : memory = 0
      ∨ s.live memory = false ∧ PM_START ≤ memory.toNat ∧ memory.toNat < PM_END) :
    SuperInv (superAlloc s memory dev).2 xs := by
  unfold superAlloc
  split
  · exact h
  · rename_i hsome
    obtain ⟨hdead, hmem⟩ := hfresh.resolve_left hsome
    have hother : ∀ e ∈ xs, e ≠ memory := by
      rintro e he rfl
      exact Bool.false_ne_true (hdead.symm.trans (h.live e he))
    refine ⟨h.circle.init ?_, h.count, ?_, fun e he => ?_, fun e he => ?_⟩
    · rintro (_ | ⟨_, hxs⟩)
      · exact hsome rfl
      · exact hother _ hxs rfl
    · have hdev : ∀ e ∈ xs, (Function.update s.super memory ⟨dev, false, 1⟩ e).sDev
          = (s.super e).sDev := fun e he => by rw [Function.update_of_ne (hother e he)]
      show (xs.map fun e => (Function.update s.super memory ⟨dev, false, 1⟩ e).sDev).Nodup
      rw [List.map_congr_left hdev]
      exact h.devs
    · exact (Function.update_of_ne (hother e he) _ _).trans (h.live e he)
    · dsimp only at he
      rw [Function.update_apply] at he
      split at he
      · rename_i heq
        exact heq ▸ hmem
      · exact h.memory e he

/-- A super block leaves the list. -/
theorem unlink (h : SuperInv s xs) (hmem : sb ∈ xs) :
    SuperInv { s with list := s.list.del sb, count := s.count - 1 } (xs.erase sb) := by
  refine ⟨h.circle.del hmem, ?_, h.devs.sublist (List.Sublist.map _ List.erase_sublist),
    fun e he => h.live e (List.mem_of_mem_erase he), h.memory⟩
  have hpos := List.length_pos_of_mem hmem
  have hle : (1 : UInt32) ≤ s.count := by
    rw [UInt32.le_iff_toNat_le, h.count]
    exact hpos
  rw [List.length_erase_of_mem hmem, UInt32.toNat_sub_of_le _ _ hle, h.count]
  rfl

theorem superFree (h : SuperInv s xs) (hmem : sb ∈ xs) :
    SuperInv (Fs.superFree s sb) (xs.erase sb) := by
  have hnodup := (List.nodup_cons.mp h.circle.1).2
  have hunlink := h.unlink hmem
  unfold Fs.superFree
  rw [if_neg (h.ne_zero (h.live sb hmem))]
  refine ⟨hunlink.circle, hunlink.count, hunlink.devs, fun e he => ?_, fun e he => h.memory e ?_⟩
  · obtain ⟨hne, he⟩ := hnodup.mem_erase_iff.mp he
    exact (Function.update_of_ne hne _ _).trans (h.live e he)
  · dsimp only at he
    rw [Function.update_apply] at he
    split at he
    · cases he
    · exact he

theorem superPut (h : SuperInv s xs) (hlast : sb ≠ 0 → (s.super sb).sCount = 1 → sb ∈ xs) :
    ∃ ys, SuperInv (Fs.superPut s sb) ys := by
  unfold Fs.superPut
  split
  · exact ⟨xs, h⟩
  · rename_i hsb
    have hput := h.setCount sb ((s.super sb).sCount - 1)
    dsimp only
    split
    · rename_i hzero
      rw [Supers.setCount_self] at hzero
      -- the last reference: `super_free` takes it off the list, so it has to be there
      have hone : (s.super sb).sCount = 1 := UInt32.sub_eq_iff_eq_add.mp hzero
      refine ⟨_, SuperInv.superFree (s := ite _ _ _) ?_ (hlast hsb hone)⟩
      split
      · exact hput.congr (fun _ _ => rfl) rfl rfl rfl
      · exact hput
    · exact ⟨xs, hput⟩

theorem superRegister (h : SuperInv s xs) (hsb : sb = 0 ∨ s.live sb = true) :
    ∃ ret s' ys, Fs.superRegister s sb = some (ret, s') ∧ SuperInv s' ys := by
  unfold Fs.superRegister
  split
  · exact ⟨_, _, xs, rfl, h⟩
  · rename_i hne
    rw [h.find_eq]
    dsimp only [Option.map_some]
    split
    · exact ⟨_, _, xs, rfl, h⟩
    · rename_i hnone
      have hnone : xs.find? (fun e => (s.super e).sDev = (s.super sb).sDev) = none := by
        simpa using hnone
      have hdev : ∀ e ∈ xs, (s.super e).sDev ≠ (s.super sb).sDev := by
        simpa using hnone
      have hmem : sb ∉ xs := fun hmem => hdev sb hmem rfl
      have hcons : sb ∉ (0 : Addr) :: xs := by
        rintro (_ | ⟨_, hxs⟩)
        · exact hne rfl
        · exact hmem hxs
      refine ⟨_, _, sb :: xs, rfl, h.circle.add hcons, ?_, ?_, fun e he => ?_, h.memory⟩
      · -- so many super blocks as would wrap the count do not fit into memory
        have hlt := h.length_lt
        have hcount := h.count
        have hone : (1 : UInt32).toNat = 1 := rfl
        rw [List.length_cons, UInt32.toNat_add]
        omega
      · rw [List.map_cons, List.nodup_cons]
        refine ⟨fun hin => ?_, h.devs⟩
        obtain ⟨e, he, heq⟩ := List.mem_map.mp hin
        exact hdev e he heq
      · rcases List.mem_cons.mp he with rfl | he
        · exact hsb.resolve_left hne
        · exact h.live e he

/-- **A careful call returns** and keeps the invariant. -/
theorem exec (h : SuperInv s xs) {op : SuperOp} (hop : op.Careful s) :
    ∃ ret s' ys, op.exec s = some (ret, s') ∧ SuperInv s' ys := by
  obtain ⟨hvalid, hcareful⟩ := hop
  cases op with
  | alloc memory dev =>
      have halloc := h.alloc dev hvalid
      rw [SuperOp.exec]
      split <;> (rename_i heq; rw [heq] at halloc; exact ⟨_, _, xs, rfl, halloc⟩)
  | fill sb hasPutSuper =>
      refine ⟨_, _, xs, rfl, h.congr (fun e _ => ?_) rfl rfl rfl⟩
      dsimp only
      rw [Function.update_apply]
      split
      · rename_i heq
        rw [heq]
      · rfl
  | get sb =>
      refine ⟨_, _, xs, rfl, ?_⟩
      unfold superGet
      split
      · exact h
      · exact h.setCount _ _
  | put sb =>
      obtain ⟨ys, hput⟩ := h.superPut fun hne hone => h.listed_iff.mp (hcareful sb ⟨rfl, hne, hone⟩)
      exact ⟨_, _, ys, rfl, hput⟩
  | register sb => exact h.superRegister hvalid
  | unregister sb =>
      rw [SuperOp.exec, superUnregister]
      split
      · exact ⟨_, _, xs, rfl, h⟩
      · rename_i hne
        exact ⟨_, _, _, rfl, h.unlink (h.listed_iff.mp (hcareful sb ⟨rfl, hne⟩))⟩

end SuperInv

theorem SuperRun.superInv {es : List (SuperOp × Int)} (run : SuperRun SuperOp.Careful es s) :
    ∃ xs, SuperInv s xs := by
  obtain ⟨super, list, run⟩ := run
  refine run.invariant (P := fun s => ∃ xs, SuperInv s xs) ⟨_, superInv_init super list⟩ ?_
  rintro s e t ⟨xs, hinv⟩ ⟨op, ret, hop, -, heq⟩
  obtain ⟨ret', t', ys, heq', hys⟩ := hinv.exec hop
  rw [heq] at heq'
  cases heq'
  exact ⟨ys, hys⟩

/-- **Careful callers keep the registry exact**: it is accounted for, what has been freed is not on
the list, and their next call returns. -/
theorem accounted_of_careful {es : List (SuperOp × Int)} (run : SuperRun SuperOp.Careful es s) :
    Accounted s ∧ (∀ sb, s.live sb = false → ¬Listed s sb)
      ∧ ∀ op : SuperOp, op.Careful s → (op.exec s).isSome := by
  obtain ⟨xs, hinv⟩ := run.superInv
  refine ⟨⟨xs, hinv.circle, hinv.count, hinv.devs, hinv.live⟩, fun sb hdead hlisted => ?_, ?_⟩
  · exact Bool.false_ne_true (hdead.symm.trans (hinv.live sb (hinv.listed_iff.mp hlisted)))
  · intro op hop
    obtain ⟨ret, s', ys, heq, -⟩ := hinv.exec hop
    rw [heq]
    rfl

/-! ## Two runs -/

theorem superRun_init (ok : Supers → SuperOp → Prop) (super : Addr → SuperBlock)
    (list : Links Addr) : SuperRun ok [] (superInit super list) := ⟨super, list, .refl⟩

theorem SuperRun.tail {ok : Supers → SuperOp → Prop} {es : List (SuperOp × Int)} {op : SuperOp}
    {ret : Int} (run : SuperRun ok es s) (hok : ok s op) (hexec : op.exec s = some (ret, s')) :
    SuperRun ok (es ++ [(op, ret)]) s' := by
  obtain ⟨super, list, run⟩ := run
  exact ⟨super, list, run.tail (e := some (op, ret)) ⟨op, ret, hok, rfl, hexec⟩⟩

/-- The registry with the super block at `0x80000000`, of device 1, before it is registered. -/
def oneSuper : Supers :=
  (superAlloc (superInit (fun _ => ⟨0, false, 0⟩) ⟨id, id⟩) 0x80000000 1).2

theorem superRun_oneSuper (ok : Supers → SuperOp → Prop)
    (hok : ∀ s, s.live 0x80000000 = false → ok s (.alloc 0x80000000 1)) :
    SuperRun ok [(.alloc 0x80000000 1, 0)] oneSuper :=
  (superRun_init ok _ _).tail (hok _ rfl) rfl

/-- The same registry after `super_register`. -/
def oneRegistered : Supers :=
  { oneSuper with list := oneSuper.list.add 0x80000000 0, count := 1 }

theorem listed_oneRegistered : Listed oneRegistered 0x80000000 :=
  ⟨[0x80000000], ⟨by decide, ⟨rfl, rfl⟩, rfl, rfl⟩, List.mem_singleton_self _⟩

/-- It is registered, and freed by its last `super_put`. -/
theorem accounted_of_registered : ∃ s, SuperRun SuperOp.Careful
    [(.alloc 0x80000000 1, 0), (.register 0x80000000, 0), (.put 0x80000000, 0)] s
    ∧ Accounted s ∧ ¬Listed s 0x80000000 := by
  have halloc := superRun_oneSuper SuperOp.Careful fun s hs =>
    ⟨.inr ⟨hs, by decide, by decide⟩, fun _ h => h.elim⟩
  have hfirst : SuperOp.Careful oneSuper (.register 0x80000000) := ⟨.inr rfl, fun _ h => h.elim⟩
  have hregister : SuperRun SuperOp.Careful [(.alloc 0x80000000 1, 0), (.register 0x80000000, 0)]
      oneRegistered := halloc.tail hfirst rfl
  have hlast : SuperOp.Careful oneRegistered (.put 0x80000000) :=
    ⟨.inr rfl, fun sb hsb => hsb.1 ▸ listed_oneRegistered⟩
  have hput := hregister.tail hlast rfl
  have haccounted := accounted_of_careful hput
  exact ⟨_, hput, haccounted.1, haccounted.2.1 _ rfl⟩

/-- It is freed without having been registered, and the count wraps. -/
theorem not_forall_accounted :
    ¬∀ es s, SuperRun SuperOp.Valid es s → Accounted s := by
  intro h
  have halloc := superRun_oneSuper SuperOp.Valid fun s hs => .inr ⟨hs, by decide, by decide⟩
  have hvalid : SuperOp.Valid oneSuper (.put 0x80000000) := .inr rfl
  have hput := halloc.tail hvalid rfl
  obtain ⟨xs, hcircle, hcount, -⟩ := h _ _ hput
  have hempty : (superPut oneSuper 0x80000000).list.Circle 0 [] :=
    ⟨List.nodup_singleton 0, by decide, by decide⟩
  obtain rfl := hempty.unique hcircle
  exact absurd hcount (by decide)

end NoobKernel.Fs
