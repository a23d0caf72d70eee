import NoobKernel.Fs.InodeTable

set_option autoImplicit false

/-! # Concurrent use of inodes

Calls of `inode_get` and `inode_put` in progress, each at the point that follows its last section,
and the references that are held. A step is one section, one `inode_alloc` or one callback of some
call (`InodeMachine.next`).

`inode_get` drops the lock between the section that looks up and the one that inserts, so that two
calls can insert an inode for one number. `inode_put` drops the lock between the last decrement and
the removal from the table, so that a call can get the inode that is going to be freed.
-/

namespace NoobKernel.Fs

inductive InodeCall
  /-- `inode_get` has not found the number -/
  | missed (sb : Addr) (ino : UInt64)
  /-- `inode_get` has a new inode -/
  | allocated (sb : Addr) (ino : UInt64) (a : Addr)
  /-- `inode_put` has put the last reference and asks `drop_inode` -/
  | dropping (a : Addr)
  /-- `inode_put` calls `inode_free` -/
  | freeing (a : Addr)
  /-- `inode_free` has taken the inode out -/
  | removed (a : Addr)
  deriving DecidableEq

structure InodeMachine where
  cache : Icache
  calls : List InodeCall
  /-- what `inode_get` has returned and `inode_put` has not been called for -/
  held : List Got

inductive InodeAction
  /-- the first section of a new call of `inode_get` -/
  | lookup (sb : Addr) (ino : UInt64)
  /-- `inode_alloc`, and the store of the number -/
  | alloc (i : Nat) (memory : Addr)
  /-- the second section of `inode_get` -/
  | insert (i : Nat) (nodeMemory : Bool)
  /-- the section of a new call of `inode_put` -/
  | put (r : Got)
  | drop (i : Nat) (answer : Int)
  /-- `destroy_inode`, or the section of `inode_free` -/
  | free (i : Nat)
  /-- `kmem_cache_free` -/
  | release (i : Nat)
  deriving DecidableEq

section

variable (ops : Addr → SuperOperations)

/-- Calls are chosen by their position. -/
def InodeMachine.next (s : InodeMachine) : InodeAction → Option InodeMachine
  | .lookup sb ino =>
      let (a, ic) := inodeGetLookup s.cache ino
      if a ≠ 0 then some { s with cache := ic, held := ⟨a, sb, ino⟩ :: s.held }
      else some { s with cache := ic, calls := .missed sb ino :: s.calls }
  | .alloc i memory =>
      match s.calls[i]? with
      | some (.missed sb ino) =>
          if AllocOk ops s.cache sb memory then
            let (a, ic) := inodeAlloc ops s.cache sb memory
            -- the answer of `inode_get` without an inode
            if isErr a then some { s with cache := ic, calls := s.calls.eraseIdx i }
            else if a = 0 then none
            else some { s with
              cache := ic.setIno a ino
              calls := .allocated sb ino a :: s.calls.eraseIdx i }
          else none
      | _ => none
  | .insert i nodeMemory =>
      match s.calls[i]? with
      | some (.allocated sb ino a) =>
          some { s with
            cache := inodeGetInsert s.cache ino a nodeMemory
            calls := s.calls.eraseIdx i
            held := ⟨a, sb, ino⟩ :: s.held }
      | _ => none
  | .put r =>
      if r ∈ s.held then
        let refcnt := (s.cache.inode r.inode).iRefcnt - 1
        let s := { s with cache := s.cache.setRefcnt r.inode refcnt, held := s.held.erase r }
        if refcnt = 0 then
          -- `drop_inode` is asked only where the file system has one
          if s.cache.drops ops r.inode then some { s with calls := .dropping r.inode :: s.calls }
          else some { s with calls := .freeing r.inode :: s.calls }
        else some s
      else none
  | .drop i answer =>
      match s.calls[i]? with
      | some (.dropping a) =>
          if answer ≠ 0 then some { s with calls := s.calls.eraseIdx i }
          else some { s with calls := .freeing a :: s.calls.eraseIdx i }
      | _ => none
  | .free i =>
      match s.calls[i]? with
      | some (.freeing a) =>
          -- `destroy_inode` leaves the inode in the table and on the list
          if s.cache.destroys ops a then
            some { s with cache := s.cache.release a, calls := s.calls.eraseIdx i }
          else some { s with cache := inodeRemove s.cache a, calls := .removed a :: s.calls.eraseIdx i }
      | _ => none
  | .release i =>
      match s.calls[i]? with
      | some (.removed a) =>
          some { s with cache := s.cache.release a, calls := s.calls.eraseIdx i }
      | _ => none

/-- A run from the empty cache, under the condition `ok` on its actions. -/
abbrev InodeMachineRun (ok : InodeMachine → InodeAction → Prop) (inode : Addr → Inode)
    (list : Links Addr) (as : List InodeAction) (s : InodeMachine) : Prop :=
  Lts.Run (Lts.Steps (InodeMachine.next ops) ok) ⟨inodeInit inode list, [], []⟩ as s

end

variable {ops : Addr → SuperOperations} {s s' : InodeMachine} {a b sb memory : Addr} {ino : UInt64}
  {i : Nat} {c : InodeCall}

/-- A call that is chosen, and the others. -/
theorem calls_perm (hc : s.calls[i]? = some c) : s.calls.Perm (c :: s.calls.eraseIdx i) := by
  obtain ⟨hi, rfl⟩ := List.getElem?_eq_some_iff.mp hc
  exact (List.getElem_cons_eraseIdx_perm hi).symm

theorem mem_calls (hc : s.calls[i]? = some c) {c' : InodeCall} :
    c' ∈ s.calls ↔ c' = c ∨ c' ∈ s.calls.eraseIdx i := by
  rw [(calls_perm hc).mem_iff, List.mem_cons]

theorem countP_calls (hc : s.calls[i]? = some c) (p : InodeCall → Bool) :
    s.calls.countP p = (s.calls.eraseIdx i).countP p + if p c then 1 else 0 := by
  rw [(calls_perm hc).countP_eq, List.countP_cons]

/-- The call is going to free the inode. -/
def InodeCall.frees (c : InodeCall) (a : Addr) : Bool := c = .freeing a ∨ c = .removed a

/-- The call has allocated the inode. -/
def InodeCall.allocates : InodeCall → Addr → Bool
  | .allocated _ _ b, a => b = a
  | _, _ => false

theorem frees_iff : c.frees a = true ↔ c = .freeing a ∨ c = .removed a := decide_eq_true_iff

/-- How `inode_alloc` goes inside `inode_get`. -/
theorem next_alloc {memory : Addr} (h : s.next ops (.alloc i memory) = some s') :
    ∃ sb ino, s.calls[i]? = some (.missed sb ino)
      ∧ (s' = { s with calls := s.calls.eraseIdx i }
        ∨ (FreshInode s.cache memory ∧ s' = { s with
            cache := (s.cache.construct sb memory).setIno memory ino
            calls := .allocated sb ino memory :: s.calls.eraseIdx i })) := by
  rw [InodeMachine.next] at h
  split at h
  · rename_i sb ino hc
    refine ⟨sb, ino, hc, ?_⟩
    split at h
    · rename_i hok
      rcases inodeAlloc_cases hok with ⟨-, e, halloc, he⟩ | ⟨hfresh, halloc⟩
      · rw [halloc] at h
        rcases he with rfl | he
        · have hnull : isErr 0 = false := by decide
          simp [hnull] at h
        · simp only [he, if_true, Option.some_inj] at h
          exact .inl h.symm
      · rw [halloc] at h
        have hzero := ne_zero_of_memory hfresh.2
        have herr := not_isErr_of_memory hfresh.2
        simp only [herr, hzero, Bool.false_eq_true, if_false, Option.some_inj] at h
        exact .inr ⟨hfresh, h.symm⟩
    · cases h
  · cases h

/-- How the first section of `inode_get` goes. -/
theorem next_lookup (h : s.next ops (.lookup sb ino) = some s') :
    (∃ a, s.cache.ht.get ino = some a ∧ s' = { s with
        cache := s.cache.setRefcnt a ((s.cache.inode a).iRefcnt + 1)
        held := ⟨a, sb, ino⟩ :: s.held })
      ∨ s' = { s with calls := .missed sb ino :: s.calls } := by
  rw [InodeMachine.next, inodeGetLookup, Hashtable.hashtableLookup_eq] at h
  cases hget : s.cache.ht.get ino with
  | none =>
      rw [hget] at h
      exact .inr (Option.some.inj h).symm
  | some a =>
      rw [hget] at h
      by_cases hzero : a = 0
      · subst hzero
        exact .inr (Option.some.inj h).symm
      · simp only [Option.getD_some, ne_eq, hzero, not_false_eq_true, if_true,
          Option.some_inj] at h
        exact .inl ⟨a, rfl, h.symm⟩

theorem next_insert {nodeMemory : Bool} (h : s.next ops (.insert i nodeMemory) = some s') :
    ∃ sb ino a, s.calls[i]? = some (.allocated sb ino a) ∧ s' = { s with
      cache := inodeGetInsert s.cache ino a nodeMemory
      calls := s.calls.eraseIdx i
      held := ⟨a, sb, ino⟩ :: s.held } := by
  rw [InodeMachine.next] at h
  split at h
  · rename_i sb ino a hc
    exact ⟨sb, ino, a, hc, (Option.some.inj h).symm⟩
  · cases h

/-- How the section of `inode_put` goes: the reference that is put is not the last, or it is. -/
theorem next_put {r : Got} (h : s.next ops (.put r) = some s') :
    r ∈ s.held
      ∧ (((s.cache.inode r.inode).iRefcnt ≠ 1 ∧ s'.calls = s.calls)
        ∨ ((s.cache.inode r.inode).iRefcnt = 1 ∧ ∃ c, s'.calls = c :: s.calls
          ∧ (c = .dropping r.inode ∨ c = .freeing r.inode)))
      ∧ s'.cache = s.cache.setRefcnt r.inode ((s.cache.inode r.inode).iRefcnt - 1)
      ∧ s'.held = s.held.erase r := by
  have hone : ∀ n : UInt32, n - 1 = 0 ↔ n = 1 := by
    intro n
    constructor
    · intro hzero
      have hsum := congrArg (· + 1) hzero
      simpa only [UInt32.sub_add_cancel, UInt32.zero_add] using hsum
    · rintro rfl
      rfl
  rw [InodeMachine.next] at h
  split at h
  · rename_i hr
    simp only [hone] at h
    split at h
    · rename_i hlast
      split at h <;> obtain rfl := Option.some.inj h
      · exact ⟨hr, .inr ⟨hlast, _, rfl, .inl rfl⟩, rfl, rfl⟩
      · exact ⟨hr, .inr ⟨hlast, _, rfl, .inr rfl⟩, rfl, rfl⟩
    · obtain rfl := Option.some.inj h
      exact ⟨hr, .inl ⟨‹_›, rfl⟩, rfl, rfl⟩
  · cases h

theorem next_drop {answer : Int} (h : s.next ops (.drop i answer) = some s') :
    ∃ a, s.calls[i]? = some (.dropping a)
      ∧ ((answer ≠ 0 ∧ s' = { s with calls := s.calls.eraseIdx i })
        ∨ (answer = 0 ∧ s' = { s with calls := .freeing a :: s.calls.eraseIdx i })) := by
  rw [InodeMachine.next] at h
  split at h
  · rename_i a hc
    refine ⟨a, hc, ?_⟩
    split at h
    · exact .inl ⟨‹_›, (Option.some.inj h).symm⟩
    · exact .inr ⟨not_not.mp ‹_›, (Option.some.inj h).symm⟩
  · cases h

theorem next_free (h : s.next ops (.free i) = some s') :
    ∃ a, s.calls[i]? = some (.freeing a)
      ∧ (s' = { s with cache := s.cache.release a, calls := s.calls.eraseIdx i }
        ∨ s' = { s with
          cache := inodeRemove s.cache a
          calls := .removed a :: s.calls.eraseIdx i }) := by
  rw [InodeMachine.next] at h
  split at h
  · rename_i a hc
    refine ⟨a, hc, ?_⟩
    split at h
    · exact .inl (Option.some.inj h).symm
    · exact .inr (Option.some.inj h).symm
  · cases h

theorem next_release (h : s.next ops (.release i) = some s') :
    ∃ a, s.calls[i]? = some (.removed a)
      ∧ s' = { s with cache := s.cache.release a, calls := s.calls.eraseIdx i } := by
  rw [InodeMachine.next] at h
  split at h
  · rename_i a hc
    exact ⟨a, hc, (Option.some.inj h).symm⟩
  · cases h

/-- The inode that `inode_get` has allocated. -/
theorem inode_allocated :
    ((s.cache.construct sb memory).setIno memory ino).inode b
      = if b = memory then { newInode sb with iIno := ino } else s.cache.inode b := by
  show Function.update (Function.update s.cache.inode memory _) memory _ b = _
  rw [Function.update_idem, Function.update_apply]
  split
  · show ({ Function.update s.cache.inode memory (newInode sb) memory with iIno := ino } : Inode) = _
    rw [Function.update_self]
  · rfl

theorem live_allocated :
    ((s.cache.construct sb memory).setIno memory ino).live b
      = if b = memory then true else s.cache.live b :=
  Function.update_apply _ _ _ _

theorem iRefcnt_setRefcnt {ic : Icache} (refcnt : UInt32) :
    ((ic.setRefcnt a refcnt).inode b).iRefcnt = if b = a then refcnt else (ic.inode b).iRefcnt := by
  show (Function.update ic.inode a _ b).iRefcnt = _
  rw [Function.update_apply]
  split <;> rfl

end NoobKernel.Fs
