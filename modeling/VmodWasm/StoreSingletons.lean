import VmodWasm.Lib.Transition
import Mathlib.Logic.Function.Basic

/-!
The getters of the stores that a process has once: `vwasm_proxy_wasm_get_shared_data`,
`vwasm_proxy_wasm_get_queue_store` and `vwasm_proxy_wasm_get_metric_store`. Each tests
its global pointer, takes the mutex if that is null, tests again and makes the store.
The first two publish a store when its lock is made; the third one publishes the memory
and makes the lock after that. Threads run in any order, one access to the global at a
time.
-/
namespace VmodWasm.StoreSingletons

open Lib.Transition

inductive Getter where
  | sharedData | queueStore | metricStore
  deriving DecidableEq

/-- The store is complete when it is published. -/
def Getter.completes : Getter → Bool
  | .sharedData | .queueStore => true
  | .metricStore => false

inductive Pc where
  | entry
  | waiting
  | test
  | allocate
  | makeLock (p : ℕ)
  | publish (p : Option ℕ)
  | unlock
  | leave
  | returned (p : Option ℕ)
  deriving DecidableEq

inductive LockState where
  | raw | ready | failed
  deriving DecidableEq

/-- The global pointer, the mutex with its owner, the number of stores allocated so far,
their locks, and where each thread is. -/
structure State where
  global : Option ℕ := none
  mutex : Option ℕ := none
  next : ℕ := 0
  lock : ℕ → LockState := fun _ => .raw
  pc : ℕ → Pc := fun _ => .entry

def State.goto (s : State) (t : ℕ) (pc : Pc) : State :=
  { s with pc := Function.update s.pc t pc }

/-- A step of thread `t`; `ok` is what an allocation or the making of a lock returns. A
store whose lock could not be made is freed by those that have not published it. -/
def next (g : Getter) (s : State) (t : ℕ) (ok : Bool) : Option State :=
  match s.pc t with
  | .entry => some (s.goto t (if s.global = none then .waiting else .leave))
  | .waiting => if s.mutex = none then some ({ s with mutex := some t }.goto t .test) else none
  | .test => some (s.goto t (if s.global = none then .allocate else .unlock))
  | .allocate =>
    if ok then
      some ({ s with next := s.next + 1 }.goto t
        (if g.completes then .makeLock s.next else .publish (some s.next)))
    else some (s.goto t (.publish none))
  | .makeLock p =>
    let made := { s with lock := Function.update s.lock p (if ok then .ready else .failed) }
    if g.completes then some (made.goto t (.publish (if ok then some p else none)))
    else some (made.goto t .unlock)
  | .publish p =>
    some ({ s with global := p }.goto t (match p with
      | some p => if g.completes then .unlock else .makeLock p
      | none => .unlock))
  | .unlock => some ({ s with mutex := none }.goto t .leave)
  | .leave => some (s.goto t (.returned s.global))
  | .returned _ => none

def step (g : Getter) (s : State) (l : ℕ × Bool) (s' : State) : Prop :=
  next g s l.1 l.2 = some s'

section Invariant

/-- The places at which a thread has the mutex. -/
def Pc.holds : Pc → Bool
  | .test | .allocate | .makeLock _ | .publish _ | .unlock => true
  | _ => false

/-- What the place of one thread says about the shared state. -/
def Pc.Fits (g : Getter) (s : State) : Pc → Prop
  | .allocate => s.global = none
  | .makeLock p => s.lock p = .raw ∧ p < s.next ∧
      s.global = if g.completes then none else some p
  | .publish none => s.global = none
  | .publish (some p) => s.global = none ∧ p < s.next ∧
      s.lock p = if g.completes then .ready else .raw
  | .returned (some p) => s.global = some p
  | _ => True

/-- The stores that were never allocated have no lock, and those that are published are
among the others. -/
structure Shared (g : Getter) (s : State) : Prop where
  fresh : ∀ p, s.next ≤ p → s.lock p = .raw
  bound : ∀ p, s.global = some p → p < s.next
  ready : g.completes = true → ∀ p, s.global = some p → s.lock p = .ready

structure Inv (g : Getter) (s : State) : Prop where
  mutex : ∀ t, (s.pc t).holds = true ↔ s.mutex = some t
  fits : ∀ t, (s.pc t).Fits g s
  shared : Shared g s

variable {g : Getter} {s s₁ : State} {t : ℕ} {pc : Pc}

theorem goto_pc_self : (s.goto t pc).pc t = pc := Function.update_self ..

theorem goto_pc_of_ne {t' : ℕ} (h : t' ≠ t) : (s.goto t pc).pc t' = s.pc t' :=
  Function.update_of_ne h ..

theorem fits_congr (h : pc.Fits g s) (hglobal : s₁.global = s.global) (hnext : s₁.next = s.next)
    (hlock : s₁.lock = s.lock) : pc.Fits g s₁ := by
  obtain ⟨global, mutex, next, lock, pcs⟩ := s
  obtain ⟨global₁, mutex₁, next₁, lock₁, pcs₁⟩ := s₁
  cases hglobal
  cases hnext
  cases hlock
  cases pc with
  | publish p => cases p <;> exact h
  | returned p => cases p <;> exact h
  | _ => exact h

theorem Shared.grow (h : Shared g s) : Shared g { s with next := s.next + 1 } :=
  ⟨fun p hp => h.fresh p (by dsimp only at hp; omega), fun p hp => Nat.lt_succ_of_lt (h.bound p hp),
    h.ready⟩

theorem Shared.setLock (h : Shared g s) {p : ℕ} (hp : p < s.next) {state : LockState}
    (hnot : g.completes = true → ∀ q, s.global ≠ some q) :
    Shared g { s with lock := Function.update s.lock p state } where
  fresh q hq := by
    dsimp only at hq ⊢
    rw [Function.update_of_ne (by omega)]
    exact h.fresh q hq
  bound := h.bound
  ready hc q hq := absurd hq (hnot hc q)

/-- The invariant, thread by thread. -/
theorem inv_goto (hown : pc.holds = true ↔ s.mutex = some t) (hfits : pc.Fits g s)
    (hothers : ∀ t', t' ≠ t →
      ((s.pc t').holds = true ↔ s.mutex = some t') ∧ (s.pc t').Fits g s)
    (hshared : Shared g s) : Inv g (s.goto t pc) where
  mutex t' := by
    by_cases hne : t' = t
    · rw [hne, goto_pc_self]
      exact hown
    · rw [goto_pc_of_ne hne]
      exact (hothers t' hne).1
  fits t' := by
    by_cases hne : t' = t
    · rw [hne, goto_pc_self]
      exact fits_congr hfits rfl rfl rfl
    · rw [goto_pc_of_ne hne]
      exact fits_congr (hothers t' hne).2 rfl rfl rfl
  shared := ⟨hshared.fresh, hshared.bound, hshared.ready⟩

/-- A step that only moves its thread. -/
theorem Inv.goto (h : Inv g s) (hholds : pc.holds = (s.pc t).holds) (hfits : pc.Fits g s) :
    Inv g (s.goto t pc) :=
  inv_goto (hholds ▸ h.mutex t) hfits (fun t' _ => ⟨h.mutex t', h.fits t'⟩) h.shared

/-- The threads that do not have the mutex are at places that only ask that a published
pointer stays. -/
theorem Inv.others (h : Inv g s) (ht : (s.pc t).holds = true)
    (hglobal : ∀ p, s.global = some p → s₁.global = some p) {t' : ℕ} (hne : t' ≠ t) :
    (s.pc t').holds = false ∧ (s.pc t').Fits g s₁ := by
  have hnot : (s.pc t').holds = false := by
    rw [Bool.eq_false_iff]
    intro ht'
    have hsame := ((h.mutex t').mp ht').symm.trans ((h.mutex t).mp ht)
    exact hne (Option.some.inj hsame)
  refine ⟨hnot, ?_⟩
  have hfits := h.fits t'
  generalize s.pc t' = pc at hnot hfits
  cases pc with
  | returned p =>
    cases p with
    | none => trivial
    | some p => exact hglobal p hfits
  | entry | waiting | leave => trivial
  | _ => contradiction

/-- A step of the thread that has the mutex, and keeps it. -/
theorem Inv.own (h : Inv g s) (ht : (s.pc t).holds = true) (hpc : s₁.pc = s.pc)
    (hmutex : s₁.mutex = s.mutex) (hglobal : ∀ p, s.global = some p → s₁.global = some p)
    (hholds : pc.holds = true) (hfits : pc.Fits g s₁) (hshared : Shared g s₁) :
    Inv g (s₁.goto t pc) := by
  refine inv_goto ?_ hfits (fun t' hne => ?_) hshared
  · rw [hholds, hmutex]
    exact ⟨fun _ => (h.mutex t).mp ht, fun _ => rfl⟩
  · rw [hpc, hmutex]
    exact ⟨h.mutex t', (h.others ht hglobal hne).2⟩

theorem Inv.lock (h : Inv g s) (hfree : s.mutex = none) :
    Inv g ({ s with mutex := some t }.goto t .test) := by
  refine inv_goto ⟨fun _ => rfl, fun _ => rfl⟩ trivial (fun t' hne => ?_)
    ⟨h.shared.fresh, h.shared.bound, h.shared.ready⟩
  have hnot := h.mutex t'
  rw [hfree] at hnot
  refine ⟨⟨fun ht' => absurd (hnot.mp ht') (Option.some_ne_none t').symm, fun hsome => ?_⟩,
    fits_congr (h.fits t') rfl rfl rfl⟩
  exact absurd (Option.some.inj hsome).symm hne

theorem Inv.unlock (h : Inv g s) (hpc : s.pc t = .unlock) :
    Inv g ({ s with mutex := none }.goto t .leave) := by
  have ht : (s.pc t).holds = true := by
    rw [hpc]
    rfl
  refine inv_goto ⟨fun hh => absurd hh Bool.false_ne_true, fun hnone => nomatch hnone⟩ trivial
    (fun t' hne => ?_) ⟨h.shared.fresh, h.shared.bound, h.shared.ready⟩
  have hnot := (h.others ht (fun _ hp => hp) hne).1
  refine ⟨?_, fits_congr (h.fits t') rfl rfl rfl⟩
  dsimp only
  rw [hnot]
  exact ⟨fun hh => absurd hh Bool.false_ne_true, fun hnone => nomatch hnone⟩

theorem Inv.step {s' : State} {l : ℕ × Bool} (h : Inv g s) (hstep : step g s l s') : Inv g s' := by
  obtain ⟨t, ok⟩ := l
  unfold StoreSingletons.step next at hstep
  dsimp only at hstep
  have hfits := h.fits t
  split at hstep
  next hpc =>
    obtain rfl := Option.some.inj hstep
    refine h.goto ?_ ?_ <;> split <;> first | trivial | (rw [hpc]; rfl)
  next hpc =>
    split at hstep
    next hfree =>
      obtain rfl := Option.some.inj hstep
      exact h.lock hfree
    next => contradiction
  next hpc =>
    obtain rfl := Option.some.inj hstep
    split
    next hnone => exact h.goto (by rw [hpc]; rfl) hnone
    next => exact h.goto (by rw [hpc]; rfl) trivial
  next hpc =>
    have ht : (s.pc t).holds = true := by rw [hpc]; rfl
    rw [hpc] at hfits
    split at hstep
    next =>
      obtain rfl := Option.some.inj hstep
      refine h.own ht rfl rfl (fun _ hp => hp) ?_ ?_ h.shared.grow
      · split <;> rfl
      · have hraw := h.shared.fresh s.next (Nat.le_refl _)
        split
        next hc => exact ⟨hraw, Nat.lt_succ_self _, by rw [if_pos hc]; exact hfits⟩
        next hc => exact ⟨hfits, Nat.lt_succ_self _, by rw [if_neg hc]; exact hraw⟩
    next =>
      obtain rfl := Option.some.inj hstep
      exact h.goto (by rw [hpc]; rfl) hfits
  next p hpc =>
    have ht : (s.pc t).holds = true := by rw [hpc]; rfl
    rw [hpc] at hfits
    obtain ⟨hraw, hlt, hglobal⟩ := hfits
    split at hstep
    next hc =>
      rw [if_pos hc] at hglobal
      obtain rfl := Option.some.inj hstep
      refine h.own ht rfl rfl (fun _ hp => hp) rfl ?_ (h.shared.setLock hlt ?_)
      · cases ok with
        | true => exact ⟨hglobal, hlt, by rw [if_pos hc]; exact Function.update_self ..⟩
        | false => exact hglobal
      · intro _ q hq
        rw [hglobal] at hq
        contradiction
    next hc =>
      obtain rfl := Option.some.inj hstep
      refine h.own ht rfl rfl (fun _ hp => hp) rfl trivial (h.shared.setLock hlt ?_)
      exact fun hc' => absurd hc' hc
  next p hpc =>
    have ht : (s.pc t).holds = true := by rw [hpc]; rfl
    rw [hpc] at hfits
    obtain rfl := Option.some.inj hstep
    cases p with
    | none =>
      refine h.own ht rfl rfl (fun _ hp => hfits ▸ hp) rfl trivial ?_
      exact ⟨h.shared.fresh, fun _ hp => (nomatch hp), fun _ _ hp => (nomatch hp)⟩
    | some p =>
      obtain ⟨hnone, hlt, hlock⟩ := hfits
      refine h.own ht rfl rfl (fun _ hp => absurd (hnone.symm.trans hp) (by simp)) ?_ ?_ ?_
      · dsimp only
        split <;> rfl
      · dsimp only
        split
        next => trivial
        next hc => exact ⟨by rw [hlock, if_neg hc], hlt, by rw [if_neg hc]⟩
      · refine ⟨h.shared.fresh, fun _ hp => ?_, fun hc _ hp => ?_⟩ <;>
          obtain rfl := Option.some.inj hp
        · exact hlt
        · dsimp only
          rw [hlock, if_pos hc]
  next hpc =>
    obtain rfl := Option.some.inj hstep
    exact h.unlock hpc
  next hpc =>
    obtain rfl := Option.some.inj hstep
    refine h.goto (by rw [hpc]; rfl) ?_
    cases hglobal : s.global with
    | none => trivial
    | some p => exact hglobal
  next => contradiction

theorem inv_initial : Inv g {} where
  mutex _ := ⟨fun h => absurd h Bool.false_ne_true, fun h => (nomatch h)⟩
  fits _ := trivial
  shared := ⟨fun _ _ => rfl, fun _ h => (nomatch h), fun _ _ h => (nomatch h)⟩

theorem inv_run {ls : List (ℕ × Bool)} (hrun : Run (StoreSingletons.step g) {} ls s) : Inv g s :=
  hrun.invariant (Inv g) (fun _ _ _ hstep h => h.step hstep) inv_initial

end Invariant

/-- Thread 0 publishes the metric store and stops before it makes the lock; thread 1
returns with the store. -/
def metricRace : List (ℕ × Bool) :=
  [(0, true), (0, true), (0, true), (0, true), (0, true), (1, true), (1, true)]

/-- Any number of threads in the getters, in any order: nobody returns with another store
than the one that is published, which is never taken back, and at most one thread is
between the mutex and its release. That a store is complete, with its lock, when
somebody returns with it holds for the getters that publish complete stores, and for
the metrics it does not. -/
theorem singleton_getters (g : Getter) :
    (∀ ls s, Run (step g) {} ls s →
      (∀ t p, s.pc t = .returned (some p) → s.global = some p) ∧
      ∀ t t', (s.pc t).holds = true → (s.pc t').holds = true → t = t') ∧
    ((∀ ls s, Run (step g) {} ls s → ∀ t p, s.pc t = .returned (some p) → s.lock p = .ready) ↔
      g ≠ .metricStore) := by
  have hglobal (ls s) (hrun : Run (step g) {} ls s) (t p) (hpc : s.pc t = .returned (some p)) :
      s.global = some p := by
    have hfits := (inv_run hrun).fits t
    rw [hpc] at hfits
    exact hfits
  refine ⟨fun ls s hrun => ⟨hglobal ls s hrun, fun t t' ht ht' => ?_⟩, fun hall hmetric => ?_,
    fun hg ls s hrun t p hpc => ?_⟩
  · have hinv := inv_run hrun
    exact Option.some.inj (((hinv.mutex t).mp ht).symm.trans ((hinv.mutex t').mp ht'))
  · subst hmetric
    have hrace : ∃ s, exec (fun s l => next .metricStore s l.1 l.2) {} metricRace = some s ∧
        s.pc 1 = .returned (some 0) ∧ s.lock 0 = .raw := ⟨_, rfl, rfl, rfl⟩
    obtain ⟨s, hexec, hpc, hraw⟩ := hrace
    have hready := hall _ s (Run.of_exec hexec) 1 0 hpc
    rw [hraw] at hready
    contradiction
  · have hc : g.completes = true := by
      cases g with
      | metricStore => exact absurd rfl hg
      | _ => rfl
    exact (inv_run hrun).shared.ready hc p (hglobal ls s hrun t p hpc)

end VmodWasm.StoreSingletons
