import VmodWasm.StorePool
import VmodWasm.Lib.SlotClaims
import VmodWasm.Lib.Tally
import Mathlib.Data.List.Rotate

/-!
The store pool used by many threads at once. What runs between two accesses to
shared memory is one step, and the steps of the users interleave in any order.
A thread with several stores counts as several users, each of which is in one
call or holds one store. A user that is not in a call takes its next step when
its thread makes the next call.
-/
namespace VmodWasm.SharedStores

open ByteStrings StorePool Lib.LinearMemory Lib.Transition Lib.SlotClaims Lib.Tally

/-- What a scan found in a slot: the flag was up, or it was down and there is no
store. -/
inductive Seen where
  | busy (idx : ℕ)
  | dead (idx : ℕ)
  deriving DecidableEq, Repr

def Seen.slot : Seen → ℕ
  | .busy idx => idx
  | .dead idx => idx

/-- Where a user is. The loop counter of a scan is the number of slots it has
seen. -/
inductive User where
  | idle
  | scanning (start : ℕ) (seen : List Seen)
  | probing (start : ℕ) (seen : List Seen) (idx : ℕ)
  | claimed (idx : ℕ)
  | restored (idx : ℕ)
  | stamped (idx : ℕ)
  | holding (idx : ℕ)
  | released
  | exhausted (start : ℕ) (seen : List Seen)
  deriving DecidableEq, Repr

def inUse (pool : Pool) (idx : ℕ) : Bool := (pool.slots[idx]?.map (·.inUse)).getD false

def hasStore (pool : Pool) (idx : ℕ) : Bool := (pool.slots[idx]?.map (·.hasStore)).getD false

def modifySlot (pool : Pool) (idx : ℕ) (f : PooledStore → PooledStore) : Pool :=
  { pool with slots := pool.slots.modify idx f }

def setInUse (pool : Pool) (idx : ℕ) (flag : Bool) : Pool :=
  modifySlot pool idx fun ps => { ps with inUse := flag }

/-- `(start + i) % pool->capacity`, the sum in 64 bits. -/
def scanSlot (pool : Pool) (start i : ℕ) : ℕ := (start + i) % 2 ^ 64 % pool.slots.length

/-- The next step of a user: of `vwasm_store_pool_acquire` until it holds a store
or has gone away without, and then of `vwasm_store_pool_release`. -/
def act (pool : Pool) : User → Pool × User
  | .idle => ({ pool with scanHint := (pool.scanHint + 1) % 2 ^ 64 }, .scanning pool.scanHint [])
  | .scanning start seen =>
    if seen.length < pool.slots.length then
      let idx := scanSlot pool start seen.length
      if inUse pool idx then (pool, .scanning start (seen ++ [.busy idx]))
      else (setInUse pool idx true, .probing start seen idx)
    else ({ pool with fallbacks := pool.fallbacks + 1 }, .exhausted start seen)
  | .probing start seen idx =>
    if hasStore pool idx then (pool, .claimed idx)
    else (setInUse pool idx false, .scanning start (seen ++ [.dead idx]))
  | .claimed idx =>
    let reset := pool.warm.isSome && ((pool.slots[idx]?.map (·.memoryValid)).getD false)
    ({ modifySlot pool idx (restoreSlot pool.warm) with
        resets := if reset then pool.resets + 1 else pool.resets }, .restored idx)
  | .restored idx => (modifySlot pool idx fun ps => { ps with seq := ps.seq + 1 }, .stamped idx)
  | .stamped idx => ({ pool with acquires := pool.acquires + 1 }, .holding idx)
  | .holding idx => (setInUse pool idx false, .released)
  | .released => ({ pool with releases := pool.releases + 1 }, .idle)
  | .exhausted _ _ => (pool, .idle)

variable {T : Type}

structure Shared (T : Type) where
  pool : Pool
  user : T → User

/-- User `t` takes its next step. -/
def step [DecidableEq T] (s : Shared T) (t : T) : Shared T :=
  ⟨(act s.pool (s.user t)).1, Function.update s.user t (act s.pool (s.user t)).2⟩

def sharedStep [DecidableEq T] (s : Shared T) (t : T) (s' : Shared T) : Prop := s' = step s t

/-- The scan position does not wrap around while slots are scanned from it. -/
def NoWrap (s : Shared T) (_ : T) : Prop := s.pool.scanHint + s.pool.slots.length < 2 ^ 64

/-- The slot whose flag a user has raised. -/
def User.slot : User → Option ℕ
  | .probing _ _ idx | .claimed idx | .restored idx | .stamped idx | .holding idx => some idx
  | .idle | .scanning .. | .released | .exhausted .. => none

/-- What a user's scan has seen so far. -/
def User.seen : User → List Seen
  | .scanning _ seen | .probing _ seen _ | .exhausted _ seen => seen
  | .idle | .claimed _ | .restored _ | .stamped _ | .holding _ | .released => []

/-- The user has counted its acquire and not its release. -/
def User.Counted : User → Prop
  | .holding _ | .released => True
  | _ => False

/-- The user is not in a call. -/
def User.AtRest : User → Prop
  | .idle | .holding _ | .exhausted .. => True
  | _ => False

section Slots

/-- A change that keeps a property of the slot it changes keeps it everywhere. -/
theorem getD_modifySlot (pool : Pool) (idx : ℕ) (f : PooledStore → PooledStore)
    (get : PooledStore → Bool) (hf : ∀ ps, get (f ps) = get ps) (j : ℕ) :
    ((modifySlot pool idx f).slots[j]?.map get).getD false =
      (pool.slots[j]?.map get).getD false := by
  simp only [modifySlot, List.getElem?_modify]
  cases pool.slots[j]? with
  | none => rfl
  | some ps =>
    simp only [Option.map_eq_map, Option.map_some, Option.getD_some]
    split
    · exact hf ps
    · rfl

theorem inUse_modifySlot (pool : Pool) (idx : ℕ) (f : PooledStore → PooledStore)
    (hf : ∀ ps, (f ps).inUse = ps.inUse) : inUse (modifySlot pool idx f) = inUse pool :=
  funext (getD_modifySlot pool idx f (·.inUse) hf)

theorem hasStore_modifySlot (pool : Pool) (idx : ℕ) (f : PooledStore → PooledStore)
    (hf : ∀ ps, (f ps).hasStore = ps.hasStore) :
    hasStore (modifySlot pool idx f) = hasStore pool :=
  funext (getD_modifySlot pool idx f (·.hasStore) hf)

theorem inUse_setInUse (pool : Pool) (idx : ℕ) (flag : Bool)
    (h : flag = true → idx < pool.slots.length) :
    inUse (setInUse pool idx flag) = Function.update (inUse pool) idx flag := by
  funext j
  by_cases hj : j = idx
  · subst hj
    rw [Function.update_self]
    simp only [inUse, setInUse, modifySlot, List.getElem?_modify]
    cases hps : pool.slots[j]? with
    | none =>
      have hout := List.getElem?_eq_none_iff.mp hps
      cases flag with
      | false => rfl
      | true => exact absurd (h rfl) (by omega)
    | some ps => simp
  · rw [Function.update_of_ne hj]
    simp only [inUse, setInUse, modifySlot, List.getElem?_modify, if_neg (Ne.symm hj)]
    cases pool.slots[j]? <;> rfl

theorem length_modifySlot (pool : Pool) (idx : ℕ) (f : PooledStore → PooledStore) :
    (modifySlot pool idx f).slots.length = pool.slots.length := by
  simp [modifySlot]

theorem hasStore_setInUse (pool : Pool) (idx : ℕ) (flag : Bool) :
    hasStore (setInUse pool idx flag) = hasStore pool :=
  hasStore_modifySlot pool idx _ fun _ => rfl

theorem restoreSlot_inUse (warm : Option Bytes) (ps : PooledStore) :
    (restoreSlot warm ps).inUse = ps.inUse := by
  unfold restoreSlot
  split <;> rfl

end Slots

section Steps

variable (pool : Pool) (u : User)

/-- No step changes how many slots there are or which of them have a store. -/
theorem act_static : (act pool u).1.slots.length = pool.slots.length ∧
    hasStore (act pool u).1 = hasStore pool := by
  cases u with
  | idle | stamped _ | released | exhausted _ _ => exact ⟨rfl, rfl⟩
  | scanning start seen =>
    simp only [act]
    split
    · split
      · exact ⟨rfl, rfl⟩
      · exact ⟨length_modifySlot _ _ _, hasStore_setInUse _ _ _⟩
    · exact ⟨rfl, rfl⟩
  | probing start seen idx =>
    simp only [act]
    split
    · exact ⟨rfl, rfl⟩
    · exact ⟨length_modifySlot _ _ _, hasStore_setInUse _ _ _⟩
  | claimed idx =>
    exact ⟨length_modifySlot _ _ _,
      hasStore_modifySlot pool idx _ (restoreSlot_hasStore pool.warm)⟩
  | restored idx =>
    exact ⟨length_modifySlot _ _ _, hasStore_modifySlot _ _ _ fun _ => rfl⟩
  | holding idx => exact ⟨length_modifySlot _ _ _, hasStore_setInUse _ _ _⟩

/-- What a step does to the flags: nothing, or it raises one that was down, or it
lowers the one its user had raised. -/
theorem act_flags :
    ((act pool u).2.slot = u.slot ∧ inUse (act pool u).1 = inUse pool) ∨
    (∃ idx, u.slot = none ∧ (act pool u).2.slot = some idx ∧ inUse pool idx = false ∧
      inUse (act pool u).1 = Function.update (inUse pool) idx true) ∨
    (∃ idx, u.slot = some idx ∧ (act pool u).2.slot = none ∧
      inUse (act pool u).1 = Function.update (inUse pool) idx false) := by
  cases u with
  | idle | stamped _ | released | exhausted _ _ => exact Or.inl ⟨rfl, rfl⟩
  | scanning start seen =>
    simp only [act]
    split
    next hmore =>
      have hin : scanSlot pool start seen.length < pool.slots.length :=
        Nat.mod_lt _ (by omega)
      split
      · exact Or.inl ⟨rfl, rfl⟩
      next hfree =>
        have hflags := inUse_setInUse pool (scanSlot pool start seen.length) true fun _ => hin
        exact Or.inr (Or.inl ⟨_, rfl, rfl, Bool.not_eq_true _ ▸ hfree, hflags⟩)
    next => exact Or.inl ⟨rfl, rfl⟩
  | probing start seen idx =>
    simp only [act]
    split
    · exact Or.inl ⟨rfl, rfl⟩
    · exact Or.inr (Or.inr ⟨idx, rfl, rfl, inUse_setInUse pool idx false (by simp)⟩)
  | claimed idx =>
    exact Or.inl ⟨rfl, inUse_modifySlot pool idx _ (restoreSlot_inUse pool.warm)⟩
  | restored idx => exact Or.inl ⟨rfl, inUse_modifySlot _ _ _ fun _ => rfl⟩
  | holding idx =>
    exact Or.inr (Or.inr ⟨idx, rfl, rfl, inUse_setInUse pool idx false (by simp)⟩)

/-- What a step does to the counters. -/
theorem act_counters :
    ((act pool u).1.acquires = pool.acquires ∧ (act pool u).1.releases = pool.releases ∧
      ((act pool u).2.Counted ↔ u.Counted)) ∨
    ((act pool u).1.acquires = pool.acquires + 1 ∧ (act pool u).1.releases = pool.releases ∧
      ¬ u.Counted ∧ (act pool u).2.Counted) ∨
    ((act pool u).1.acquires = pool.acquires ∧ (act pool u).1.releases = pool.releases + 1 ∧
      u.Counted ∧ ¬ (act pool u).2.Counted) := by
  cases u with
  | idle | claimed _ | restored _ | exhausted _ _ | holding _ => exact Or.inl ⟨rfl, rfl, Iff.rfl⟩
  | scanning start seen =>
    simp only [act]
    split
    · split
      · exact Or.inl ⟨rfl, rfl, Iff.rfl⟩
      · exact Or.inl ⟨rfl, rfl, Iff.rfl⟩
    · exact Or.inl ⟨rfl, rfl, Iff.rfl⟩
  | probing start seen idx =>
    simp only [act]
    split
    · exact Or.inl ⟨rfl, rfl, Iff.rfl⟩
    · exact Or.inl ⟨rfl, rfl, Iff.rfl⟩
  | stamped idx => exact Or.inr (Or.inl ⟨rfl, rfl, not_false, trivial⟩)
  | released => exact Or.inr (Or.inr ⟨rfl, rfl, trivial, not_false⟩)

/-- A slot is seen in use only while it is. -/
theorem act_busy (idx : ℕ) (h : Seen.busy idx ∈ (act pool u).2.seen) :
    Seen.busy idx ∈ u.seen ∨ inUse pool idx = true := by
  cases u with
  | idle | claimed _ | restored _ | stamped _ | holding _ | released | exhausted _ _ =>
    exact absurd h List.not_mem_nil
  | scanning start seen =>
    simp only [act] at h
    split at h
    · split at h
      next hbusy =>
        rcases List.mem_append.mp h with hbefore | hnow
        · exact Or.inl hbefore
        · rw [Seen.busy.inj (List.mem_singleton.mp hnow)]
          exact Or.inr hbusy
      next => exact Or.inl h
    · exact Or.inl h
  | probing start seen found =>
    simp only [act] at h
    split at h
    · exact absurd h List.not_mem_nil
    · rcases List.mem_append.mp h with hbefore | hnow
      · exact Or.inl hbefore
      · exact absurd (List.mem_singleton.mp hnow) (by simp)

end Steps

section Scans

/-- A scan has seen the slots from its start on, one after the other, and those it
took for dead have no store. -/
structure Visits (pool : Pool) (start : ℕ) (seen : List Seen) : Prop where
  nowrap : start + pool.slots.length < 2 ^ 64
  short : seen.length ≤ pool.slots.length
  order : seen.map Seen.slot =
    (List.range seen.length).map fun i => (start + i) % pool.slots.length
  dead : ∀ idx, Seen.dead idx ∈ seen → hasStore pool idx = false

def ScanOk (pool : Pool) : User → Prop
  | .scanning start seen => Visits pool start seen
  | .probing start seen idx => Visits pool start seen ∧ seen.length < pool.slots.length ∧
      idx = (start + seen.length) % pool.slots.length
  | .exhausted start seen => Visits pool start seen ∧ seen.length = pool.slots.length
  | _ => True

variable {pool : Pool} {start : ℕ} {seen : List Seen}

theorem Visits.scanSlot_eq (h : Visits pool start seen) (hmore : seen.length < pool.slots.length) :
    scanSlot pool start seen.length = (start + seen.length) % pool.slots.length := by
  have hnowrap := h.nowrap
  have hsum : (start + seen.length) % 2 ^ 64 = start + seen.length := Nat.mod_eq_of_lt (by omega)
  rw [scanSlot, hsum]

theorem Visits.snoc (h : Visits pool start seen) (hmore : seen.length < pool.slots.length)
    (found : Seen) (hslot : found.slot = (start + seen.length) % pool.slots.length)
    (hdead : ∀ idx, found = .dead idx → hasStore pool idx = false) :
    Visits pool start (seen ++ [found]) where
  nowrap := h.nowrap
  short := by
    rw [List.length_append, List.length_singleton]
    omega
  order := by
    rw [List.map_append, h.order, List.length_append, List.length_singleton, List.range_succ,
      List.map_append, List.map_singleton, List.map_singleton, hslot]
  dead := by
    intro idx hidx
    rcases List.mem_append.mp hidx with hbefore | hnow
    · exact h.dead idx hbefore
    · exact hdead idx (List.mem_singleton.mp hnow).symm

theorem scanOk_act (u : User) (hwrap : pool.scanHint + pool.slots.length < 2 ^ 64)
    (h : ScanOk pool u) : ScanOk pool (act pool u).2 := by
  cases u with
  | idle =>
    exact ⟨hwrap, Nat.zero_le _, rfl, fun idx hidx => absurd hidx List.not_mem_nil⟩
  | claimed _ | restored _ | stamped _ | holding _ | released | exhausted _ _ => trivial
  | scanning start seen =>
    have hvisits : Visits pool start seen := h
    simp only [act]
    split
    next hmore =>
      have hslot := hvisits.scanSlot_eq hmore
      split
      · exact hvisits.snoc hmore _ hslot (by simp)
      · exact ⟨hvisits, hmore, hslot⟩
    next hall => exact ⟨hvisits, Nat.le_antisymm hvisits.short (by omega)⟩
  | probing start seen idx =>
    obtain ⟨hvisits, hmore, hslot⟩ := h
    simp only [act]
    split
    · trivial
    next hnone =>
      refine hvisits.snoc hmore _ hslot ?_
      intro j hj
      rw [← Seen.dead.inj hj]
      exact Bool.not_eq_true _ ▸ hnone

/-- A scan is judged by what no step changes. -/
theorem ScanOk.of_static {pool' : Pool} {u : User} (h : ScanOk pool u)
    (hlen : pool'.slots.length = pool.slots.length) (hstore : hasStore pool' = hasStore pool) :
    ScanOk pool' u := by
  have hvisits : ∀ start seen, Visits pool start seen → Visits pool' start seen := by
    intro start seen hv
    refine ⟨?_, ?_, ?_, ?_⟩
    · rw [hlen]
      exact hv.nowrap
    · rw [hlen]
      exact hv.short
    · rw [hlen]
      exact hv.order
    · rw [hstore]
      exact hv.dead
  cases u with
  | idle | claimed _ | restored _ | stamped _ | holding _ | released => trivial
  | scanning start seen => exact hvisits _ _ h
  | probing start seen idx =>
    refine ⟨hvisits _ _ h.1, ?_⟩
    rw [hlen]
    exact h.2
  | exhausted start seen =>
    refine ⟨hvisits _ _ h.1, ?_⟩
    rw [hlen]
    exact h.2

/-- The slots of a ring, read once around from any of them. -/
theorem range_map_mod (n start : ℕ) :
    ((List.range n).map fun i => (start + i) % n) = (List.range n).rotate start := by
  apply List.ext_getElem
  · simp
  · intro i hi hi'
    simp [List.getElem_rotate, Nat.add_comm]

theorem Visits.nodup (h : Visits pool start seen) : (seen.map Seen.slot).Nodup := by
  have hpart : seen.map Seen.slot =
      ((List.range pool.slots.length).rotate start).take seen.length := by
    rw [h.order, ← range_map_mod, ← List.map_take, List.take_range, Nat.min_eq_left h.short]
  rw [hpart]
  exact ((List.nodup_rotate.mpr List.nodup_range).sublist (List.take_sublist _ _))

theorem Visits.all (h : Visits pool start seen) (hall : seen.length = pool.slots.length) :
    (seen.map Seen.slot).Perm (List.range pool.slots.length) := by
  rw [h.order, hall, range_map_mod]
  exact List.rotate_perm _ _

/-- A scan that has been all around has found every store in use. -/
theorem Visits.busy (h : Visits pool start seen) (hall : seen.length = pool.slots.length)
    (idx : ℕ) (hstore : hasStore pool idx = true) : Seen.busy idx ∈ seen := by
  have hin : idx < pool.slots.length := by
    by_contra hout
    rw [hasStore, List.getElem?_eq_none (by omega)] at hstore
    contradiction
  have hseen : idx ∈ seen.map Seen.slot := (h.all hall).mem_iff.mpr (List.mem_range.mpr hin)
  obtain ⟨found, hfound, hslot⟩ := List.mem_map.mp hseen
  cases found with
  | busy j =>
    rw [← hslot]
    exact hfound
  | dead j =>
    have hdead := h.dead j hfound
    rw [← hslot, Seen.slot, hdead] at hstore
    contradiction

end Scans

section Runs

/-- Slots and their users as claims. -/
def claims (s : Shared T) : Claims T ℕ := ⟨fun t => (s.user t).slot, inUse s.pool⟩

structure Inv (s : Shared T) : Prop where
  exclusive : Exclusive (claims s)
  accounted : Accounted (claims s)
  scans : ∀ t, ScanOk s.pool (s.user t)
  counted : ∃ n, Counts User.Counted s.user n ∧ s.pool.acquires = s.pool.releases + n

/-- A new pool: every flag is down and nothing is counted. -/
structure Fresh (pool : Pool) : Prop where
  free : ∀ idx, inUse pool idx = false
  acquires : pool.acquires = 0
  releases : pool.releases = 0

theorem fresh_new (size : ℕ) (warm : Option Bytes) (init : ℕ → Option Bytes) :
    Fresh (vwasmStorePoolNew size warm init) where
  free := by
    intro idx
    simp only [inUse, vwasmStorePoolNew, List.getElem?_map, Option.map_map]
    cases (List.range (clampPoolSize size))[idx]? with
    | none => rfl
    | some i =>
      simp only [Option.map_some, Option.getD_some, Function.comp_apply, restoreSlot_inUse]
      cases init i <;> rfl
  acquires := rfl
  releases := rfl

/-- The pool before its first call. -/
def untouched (pool : Pool) : Shared T := ⟨pool, fun _ => .idle⟩

theorem inv_untouched (pool : Pool) (hfresh : Fresh pool) : Inv (untouched pool : Shared T) where
  exclusive := by
    constructor
    · intro t u i ht
      exact absurd ht (by simp [claims, untouched, User.slot])
    · intro t i ht
      exact absurd ht (by simp [claims, untouched, User.slot])
  accounted := by
    intro i hi
    have hfree := hfresh.free i
    simp only [claims, untouched] at hi
    rw [hfree] at hi
    contradiction
  scans := fun t => trivial
  counted := ⟨0, counts_zero fun t => not_false, by
    have hacq := hfresh.acquires
    have hrel := hfresh.releases
    simp only [untouched]
    omega⟩

theorem Inv.once {s : Shared T} (h : Inv s) (t : T) :
    ((s.user t).seen.map Seen.slot).Nodup := by
  have hscan := h.scans t
  cases hu : s.user t with
  | idle | claimed _ | restored _ | stamped _ | holding _ | released => exact List.nodup_nil
  | scanning start seen =>
    rw [hu] at hscan
    exact Visits.nodup hscan
  | probing start seen idx =>
    rw [hu] at hscan
    exact hscan.1.nodup
  | exhausted start seen =>
    rw [hu] at hscan
    exact hscan.1.nodup

/-- At rest, the users that count are those that hold a store, and they hold
different ones. -/
theorem Inv.balance {s : Shared T} (h : Inv s) (hrest : ∀ t, (s.user t).AtRest) :
    s.pool.acquires = s.pool.releases + {idx | ∃ t, s.user t = .holding idx}.ncard := by
  obtain ⟨n, hcounts, hsum⟩ := h.counted
  have hholding : ∀ t, (s.user t).Counted → ∃ idx, s.user t = .holding idx := by
    intro t hcounted
    have hat := hrest t
    cases hu : s.user t with
    | holding idx => exact ⟨idx, rfl⟩
    | released =>
      rw [hu] at hat
      exact absurd hat not_false
    | idle | scanning _ _ | probing _ _ _ | claimed _ | restored _ | stamped _ | exhausted _ _ =>
      rw [hu] at hcounted
      exact absurd hcounted not_false
  have hcard : {idx | ∃ t, s.user t = .holding idx}.ncard = n := by
    rw [← hcounts.card]
    symm
    refine Set.ncard_congr (fun t _ => ((s.user t).slot).getD 0) ?_ ?_ ?_
    · intro t ht
      obtain ⟨idx, hidx⟩ := hholding t ht
      exact ⟨t, by rw [hidx]; rfl⟩
    · intro t u ht hu hsame
      obtain ⟨i, hi⟩ := hholding t ht
      obtain ⟨j, hj⟩ := hholding u hu
      rw [hi, hj] at hsame
      have hij : i = j := hsame
      refine h.exclusive.unique t u i ?_ ?_
      · simp only [claims, hi, User.slot]
      · simp only [claims, hj, User.slot, hij]
    · intro idx hidx
      obtain ⟨t, ht⟩ := hidx
      have hcounted : (s.user t).Counted := by
        rw [ht]
        trivial
      exact ⟨t, hcounted, by rw [ht]; rfl⟩
  rw [hcard]
  exact hsum

variable [DecidableEq T]

theorem step_user_self (s : Shared T) (t : T) :
    (step s t).user t = (act s.pool (s.user t)).2 :=
  Function.update_self t _ s.user

theorem step_user_of_ne (s : Shared T) (t u : T) (h : u ≠ t) : (step s t).user u = s.user u :=
  Function.update_of_ne h _ s.user

theorem owner_step (s : Shared T) (t : T) :
    (claims (step s t)).owner =
      Function.update (claims s).owner t (act s.pool (s.user t)).2.slot := by
  funext u
  by_cases hu : u = t
  · rw [hu, Function.update_self]
    exact congrArg User.slot (step_user_self s t)
  · rw [Function.update_of_ne hu]
    exact congrArg User.slot (step_user_of_ne s t u hu)

/-- A step claims a free slot, drops its own or leaves the claims alone. -/
theorem step_exchange (s : Shared T) (t : T) : Exchange (claims s) (claims (step s t)) := by
  have howner := owner_step s t
  rcases act_flags s.pool (s.user t) with ⟨hslot, hflags⟩ | ⟨idx, hnone, hslot, hfree, hflags⟩ |
    ⟨idx, hslot, hnone, hflags⟩
  · refine Or.inl ⟨?_, hflags⟩
    rw [howner, hslot]
    exact Function.update_eq_self t _
  · rw [hslot] at howner
    exact Or.inr (Or.inl ⟨t, idx, hnone, hfree, howner, hflags⟩)
  · rw [hnone] at howner
    exact Or.inr (Or.inr ⟨t, idx, hslot, howner, hflags⟩)

theorem scans_step (s : Shared T) (t : T) (hwrap : NoWrap s t)
    (h : ∀ u, ScanOk s.pool (s.user u)) (u : T) :
    ScanOk (step s t).pool ((step s t).user u) := by
  obtain ⟨hlen, hstore⟩ := act_static s.pool (s.user t)
  refine ScanOk.of_static ?_ hlen hstore
  by_cases hu : u = t
  · rw [hu, step_user_self]
    exact scanOk_act (s.user t) hwrap (h t)
  · rw [step_user_of_ne s t u hu]
    exact h u

theorem counted_step (s : Shared T) (t : T)
    (h : ∃ n, Counts User.Counted s.user n ∧ s.pool.acquires = s.pool.releases + n) :
    ∃ n, Counts User.Counted (step s t).user n ∧
      (step s t).pool.acquires = (step s t).pool.releases + n := by
  obtain ⟨n, hcounts, hsum⟩ := h
  rcases act_counters s.pool (s.user t) with ⟨hacq, hrel, hsame⟩ | ⟨hacq, hrel, hout, hin⟩ |
    ⟨hacq, hrel, hin, hout⟩
  · refine ⟨n, hcounts.keep hsame, ?_⟩
    change (act s.pool (s.user t)).1.acquires = (act s.pool (s.user t)).1.releases + n
    omega
  · refine ⟨n + 1, hcounts.enter hout hin, ?_⟩
    change (act s.pool (s.user t)).1.acquires = (act s.pool (s.user t)).1.releases + (n + 1)
    omega
  · obtain ⟨m, hm, hleft⟩ := hcounts.leave hin hout
    refine ⟨m, hleft, ?_⟩
    change (act s.pool (s.user t)).1.acquires = (act s.pool (s.user t)).1.releases + m
    omega

theorem inv_step (s : Shared T) (t : T) (s' : Shared T)
    (hstep : Guarded NoWrap sharedStep s t s') (h : Inv s) : Inv s' := by
  obtain ⟨hwrap, rfl⟩ := hstep
  have hmove := step_exchange s t
  exact ⟨h.exclusive.move hmove.move, h.accounted.exchange hmove, scans_step s t hwrap h.scans,
    counted_step s t h.counted⟩

/-- What users of the pool can rely on. -/
structure Safe (s : Shared T) : Prop where
  alone : ∀ t u idx, (s.user t).slot = some idx → (s.user u).slot = some idx → t = u
  flag_iff : ∀ idx, inUse s.pool idx = true ↔ ∃ t, (s.user t).slot = some idx
  once : ∀ t, ((s.user t).seen.map Seen.slot).Nodup
  around : ∀ t start seen, s.user t = .exhausted start seen →
    (seen.map Seen.slot).Perm (List.range s.pool.slots.length) ∧
      ∀ idx, hasStore s.pool idx = true → Seen.busy idx ∈ seen
  observed : ∀ t idx, Seen.busy idx ∈ ((step s t).user t).seen →
    Seen.busy idx ∈ (s.user t).seen ∨ inUse s.pool idx = true
  balance : (∀ t, (s.user t).AtRest) →
    s.pool.acquires = s.pool.releases + {idx | ∃ t, s.user t = .holding idx}.ncard

theorem Inv.safe {s : Shared T} (h : Inv s) : Safe s where
  alone := h.exclusive.unique
  flag_iff := by
    intro idx
    constructor
    · exact h.accounted idx
    · intro howner
      obtain ⟨t, ht⟩ := howner
      exact h.exclusive.flagged t idx ht
  once := h.once
  around := by
    intro t start seen hu
    have hscan := h.scans t
    rw [hu] at hscan
    exact ⟨hscan.1.all hscan.2, hscan.1.busy hscan.2⟩
  observed := by
    intro t idx hbusy
    rw [step_user_self] at hbusy
    exact act_busy s.pool (s.user t) idx hbusy
  balance := h.balance

/-- The pool is safe for any number of users, in every interleaving of their
steps. -/
theorem safe_of_run (pool : Pool) (hfresh : Fresh pool) (ts : List T) (s : Shared T)
    (hrun : Run (Guarded NoWrap sharedStep) (untouched pool) ts s) : Safe s :=
  (hrun.invariant Inv (fun s t s' => inv_step s t s') (inv_untouched pool hfresh)).safe

/-- A pool of eight slots, of which only the first two have a store. -/
def twoStores : Pool :=
  vwasmStorePoolNew 8 none fun i => if i < 2 then some [] else none

/-- Two users have taken turns for six steps each. -/
def afterTurns : Shared Bool :=
  (List.replicate 6 [true, false]).flatten.foldl step (untouched twoStores)

/-- Each of them holds a store now. -/
theorem afterTurns_safe :
    afterTurns.user true = .holding 0 ∧ afterTurns.user false = .holding 1 ∧ Safe afterTurns := by
  have hrun : Run (Guarded NoWrap sharedStep) (untouched twoStores)
      (List.replicate 6 [true, false]).flatten afterTurns := by
    iterate 12 refine Run.cons ⟨by unfold NoWrap; decide, rfl⟩ ?_
    exact Run.nil _
  exact ⟨by decide, by decide, safe_of_run twoStores (fresh_new _ _ _) _ _ hrun⟩

end Runs

section Alone

/-- A user takes steps that no other user comes between. -/
def Solo : Pool × User → Pool × User → Prop :=
  Relation.ReflTransGen fun r r' => r' = act r.1 r.2

theorem Solo.next {r r' : Pool × User} (h : Solo r r') : Solo r (act r'.1 r'.2) := h.tail rfl

theorem claimable_getD (pool : Pool) (idx : ℕ) :
    (pool.slots[idx]?.map PooledStore.claimable).getD false =
      (!inUse pool idx && hasStore pool idx) := by
  unfold inUse hasStore
  cases pool.slots[idx]? <;> rfl

/-- A flag that was down and goes up and down leaves nothing behind. -/
theorem setInUse_undo (pool : Pool) (idx : ℕ) (hfree : inUse pool idx = false) :
    setInUse (setInUse pool idx true) idx false = pool := by
  have hslots : (pool.slots.modify idx fun ps => { ps with inUse := true }).modify idx
      (fun ps => { ps with inUse := false }) = pool.slots := by
    rw [List.modify_modify_eq]
    apply List.ext_getElem?
    intro j
    rw [List.getElem?_modify]
    cases hps : pool.slots[j]? with
    | none => rfl
    | some ps =>
      simp only [Option.map_eq_map, Option.map_some, Option.some.injEq]
      split
      next hj =>
        have hdown : ps.inUse = false := by
          simpa [inUse, hj, hps] using hfree
        simp only [Function.comp_apply, ← hdown]
      next => rfl
  simp only [setInUse, modifySlot, hslots]

/-- The rest of a scan, with `k` slots to go. -/
theorem scan_alone (pool : Pool) (start : ℕ) (hwrap : start + pool.slots.length < 2 ^ 64) (k : ℕ)
    (seen : List Seen) (hk : seen.length + k = pool.slots.length) :
    match ((List.range' seen.length k).map fun i => (start + i) % pool.slots.length).find?
      fun idx => (pool.slots[idx]?.map PooledStore.claimable).getD false with
    | some idx => Solo (pool, .scanning start seen) (setInUse pool idx true, .claimed idx)
    | none => ∃ seen', seen'.length = pool.slots.length ∧
        Solo (pool, .scanning start seen) (pool, .scanning start seen') := by
  induction k generalizing seen with
  | zero => exact ⟨seen, by omega, Relation.ReflTransGen.refl⟩
  | succ k ih =>
    have hmore : seen.length < pool.slots.length := by omega
    have hsum : (start + seen.length) % 2 ^ 64 = start + seen.length := Nat.mod_eq_of_lt (by omega)
    obtain ⟨idx, hidx⟩ : ∃ idx, idx = (start + seen.length) % pool.slots.length := ⟨_, rfl⟩
    have hslot : scanSlot pool start seen.length = idx := by rw [scanSlot, hsum, hidx]
    have hlive : hasStore (setInUse pool idx true) idx = hasStore pool idx :=
      congrFun (hasStore_setInUse pool idx true) idx
    have hgo (found : Seen) (hsolo : Solo (pool, .scanning start seen)
        (pool, .scanning start (seen ++ [found]))) :
        match ((List.range' (seen.length + 1) k).map fun i =>
            (start + i) % pool.slots.length).find?
          fun idx => (pool.slots[idx]?.map PooledStore.claimable).getD false with
        | some idx => Solo (pool, .scanning start seen) (setInUse pool idx true, .claimed idx)
        | none => ∃ seen', seen'.length = pool.slots.length ∧
            Solo (pool, .scanning start seen) (pool, .scanning start seen') := by
      have hrest := ih (seen ++ [found]) (by rw [List.length_append, List.length_singleton]; omega)
      rw [List.length_append, List.length_singleton] at hrest
      split
      next hfind =>
        rw [hfind] at hrest
        exact hsolo.trans hrest
      next hfind =>
        rw [hfind] at hrest
        obtain ⟨seen', hlen, hend⟩ := hrest
        exact ⟨seen', hlen, hsolo.trans hend⟩
    rw [List.range'_succ, List.map_cons, List.find?_cons, ← hidx, claimable_getD]
    have hstart : Solo (pool, .scanning start seen) (act pool (.scanning start seen)) :=
      Solo.next Relation.ReflTransGen.refl
    cases hbusy : inUse pool idx with
    | true =>
      rw [act, if_pos hmore, hslot, if_pos hbusy] at hstart
      exact hgo (.busy idx) hstart
    | false =>
      rw [act, if_pos hmore, hslot, if_neg (by simp [hbusy])] at hstart
      have hprobe := hstart.next
      cases hdead : hasStore pool idx with
      | true =>
        rw [act, if_pos (hlive.trans hdead)] at hprobe
        exact hprobe
      | false =>
        rw [act, if_neg (by simp [hlive, hdead]), setInUse_undo pool idx hbusy] at hprobe
        exact hgo (.dead idx) hprobe

/-- The three steps of a claim are the one the sequential model takes. -/
theorem claim_alone (pool : Pool) (idx : ℕ) :
    Solo (setInUse pool idx true, .claimed idx) ({ pool with
      slots := pool.slots.modify idx (claimSlot pool.warm)
      acquires := pool.acquires + 1
      resets := if pool.warm.isSome && ((pool.slots[idx]?.map (·.memoryValid)).getD false)
        then pool.resets + 1 else pool.resets }, .holding idx) := by
  have hvalid : ((setInUse pool idx true).slots[idx]?.map (·.memoryValid)).getD false =
      (pool.slots[idx]?.map (·.memoryValid)).getD false :=
    getD_modifySlot pool idx (fun ps => { ps with inUse := true }) (·.memoryValid)
      (fun _ => rfl) idx
  have hslots : (((pool.slots.modify idx fun ps => { ps with inUse := true }).modify idx
      (restoreSlot pool.warm)).modify idx fun ps => { ps with seq := ps.seq + 1 }) =
      pool.slots.modify idx (claimSlot pool.warm) := by
    rw [List.modify_modify_eq, List.modify_modify_eq]
    congr 1
    funext ps
    simp only [Function.comp_apply, claimSlot, restoreSlot]
    split
    · rfl
    · rfl
  have hsolo : Solo (setInUse pool idx true, .claimed idx) _ :=
    (Solo.next (Solo.next (Solo.next Relation.ReflTransGen.refl)))
  simp only [act, hvalid] at hsolo
  simp only [modifySlot, setInUse, hslots] at hsolo
  exact hsolo

/-- Left alone, a user does what `vwasm_store_pool_acquire` does as one step. -/
theorem acquire_alone (pool : Pool) (hwrap : pool.scanHint + pool.slots.length < 2 ^ 64) :
    match vwasmStorePoolAcquire pool with
    | (some idx, pool') => Solo (pool, .idle) (pool', .holding idx)
    | (none, pool') => ∃ seen, Solo (pool, .idle) (pool', .exhausted pool.scanHint seen) := by
  have hbegin : Solo (pool, .idle)
      ({ pool with scanHint := (pool.scanHint + 1) % 2 ^ 64 }, .scanning pool.scanHint []) :=
    Solo.next Relation.ReflTransGen.refl
  have hscan := scan_alone { pool with scanHint := (pool.scanHint + 1) % 2 ^ 64 } pool.scanHint
    hwrap pool.slots.length [] (Nat.zero_add _)
  rw [List.length_nil, ← List.range_eq_range'] at hscan
  unfold vwasmStorePoolAcquire
  change match findSlot pool.slots pool.scanHint with
    | some idx => _
    | none => _ at hscan
  dsimp only
  cases hfind : findSlot pool.slots pool.scanHint with
  | some idx =>
    rw [hfind] at hscan
    exact hbegin.trans (hscan.trans (claim_alone _ idx))
  | none =>
    rw [hfind] at hscan
    obtain ⟨seen, hlen, hsolo⟩ := hscan
    have hend := Solo.next (hbegin.trans hsolo)
    rw [act, if_neg (show ¬ seen.length < pool.slots.length from hlen.ge.not_gt)] at hend
    exact ⟨seen, hend⟩

/-- Likewise for `vwasm_store_pool_release`. -/
theorem release_alone (pool : Pool) (idx : ℕ) :
    Solo (pool, .holding idx) (vwasmStorePoolRelease pool idx, .idle) :=
  Solo.next (Solo.next Relation.ReflTransGen.refl)

end Alone

end VmodWasm.SharedStores
