import VmodWasm.Lib.Transition

/-!
The tick timer of one module. `vwasm_engine_set_tick_period` stops the timer that
is registered, joins its thread, frees its record and starts another one. Request
threads call it one after the other, and the module itself calls it from the
callbacks on its own tick thread, where `pthread_join` fails without waiting.
-/
namespace VmodWasm.TickTimer

open Lib.Transition

/-- A record of a timer and its thread. -/
structure Timer where
  periodMs : ℕ
  running : Bool := true
  alive : Bool := true
  frees : ℕ := 0
  deriving DecidableEq, Repr

/-- Where the call of a request thread is: waiting in `pthread_join`, or between
`pthread_create` and the registration. -/
inductive Pending where
  | joining (t periodMs : ℕ)
  | registering (t : ℕ)
  deriving DecidableEq, Repr

structure TickState where
  timers : List Timer := []
  registered : Option ℕ := none
  pending : Option Pending := none
  deriving DecidableEq, Repr

/-- The steps. `created` says whether the allocation and `pthread_create` work
out, `noTick` that the module turns out not to export `proxy_on_tick`. -/
inductive TickLabel where
  | request (periodMs : ℕ) (created : Bool)
  | joined (created : Bool)
  | register
  | ownCall (t periodMs : ℕ) (created : Bool)
  | exit (t : ℕ) (noTick : Bool)
  deriving DecidableEq, Repr

namespace TickState

variable (s : TickState)

def timer (t : ℕ) : Option Timer := s.timers[t]?

def alive (t : ℕ) : Bool := (s.timer t).any Timer.alive

def running (t : ℕ) : Bool := (s.timer t).any Timer.running

def update (t : ℕ) (f : Timer → Timer) : TickState := { s with timers := s.timers.modify t f }

def stop (t : ℕ) : TickState := s.update t fun tt => { tt with running := false }

/-- `free` of what is registered now. -/
def freeRegistered : TickState :=
  match s.registered with
  | none => s
  | some t => { s.update t fun tt => { tt with frees := tt.frees + 1 } with registered := none }

/-- A new record and its thread. -/
def create (periodMs : ℕ) : TickState :=
  { s with timers := s.timers ++ [{ periodMs := periodMs }] }

end TickState

/-- No new thread comes of the call. -/
def startsNone (periodMs : ℕ) (created : Bool) : Bool := periodMs = 0 || !created

/-- The second half of a request thread's call. -/
def beginTimer (s : TickState) (periodMs : ℕ) (created : Bool) : TickState :=
  if startsNone periodMs created then { s with pending := none }
  else { s.create periodMs with pending := some (.registering s.timers.length) }

/-- The second half of a call on a tick thread. -/
def beginOwnTimer (s : TickState) (periodMs : ℕ) (created : Bool) : TickState :=
  if startsNone periodMs created then s
  else { s.create periodMs with registered := some s.timers.length }

/-- One step, if it can be taken. A join waits for a thread other than the
caller's own to terminate; a thread terminates when it finds its timer stopped
or nothing to call. -/
def tickNext (s : TickState) : TickLabel → Option TickState
  | .request periodMs created =>
    match s.pending, s.registered with
    | some _, _ => none
    | none, some t => some { s.stop t with pending := some (.joining t periodMs) }
    | none, none => some (beginTimer s periodMs created)
  | .joined created =>
    match s.pending with
    | some (.joining t periodMs) =>
      if s.alive t then none else some (beginTimer s.freeRegistered periodMs created)
    | _ => none
  | .register =>
    match s.pending with
    | some (.registering t) => some { s with registered := some t, pending := none }
    | _ => none
  | .ownCall t periodMs created =>
    if s.alive t then
      match s.registered with
      | none => some (beginOwnTimer s periodMs created)
      | some t' =>
        if t' ≠ t ∧ s.alive t' = true then none
        else some (beginOwnTimer (s.stop t').freeRegistered periodMs created)
    else none
  | .exit t noTick =>
    if s.alive t && (noTick || !s.running t) then
      some (s.update t fun tt => { tt with running := false, alive := false })
    else none

def tickStep (s : TickState) (l : TickLabel) (s' : TickState) : Prop := tickNext s l = some s'

/-- Records are freed once, after their threads have terminated, and at most one
thread runs. -/
structure Safe (s : TickState) : Prop where
  freedDead : ∀ t tt, s.timer t = some tt → 0 < tt.frees → tt.alive = false
  freedOnce : ∀ t tt, s.timer t = some tt → tt.frees ≤ 1
  oneThread : ∀ t t', s.alive t = true → s.alive t' = true → t = t'

/-- A call on a tick thread finds nothing registered and starts nothing. -/
def Harmless (s : TickState) : TickLabel → Prop
  | .ownCall _ periodMs created => s.registered = none ∧ startsNone periodMs created = true
  | _ => True

/-- The record that is registered or about to be. -/
def Held (s : TickState) (t : ℕ) : Prop :=
  s.registered = some t ∨ s.pending = some (.registering t)

/-- A timer is freed at most once and not while it is held, and its thread runs
only while it is. -/
structure TimerOk (held : Prop) (tt : Timer) : Prop where
  freedOnce : tt.frees ≤ 1
  aliveHeld : tt.alive = true → held
  unfreed : held → tt.frees = 0

/-- The timers while no call on a tick thread does harm. -/
structure Inv (s : TickState) : Prop where
  timers : ∀ t tt, s.timer t = some tt → TimerOk (Held s t) tt
  joining : ∀ t periodMs, s.pending = some (.joining t periodMs) → s.registered = some t
  registering : ∀ t, s.pending = some (.registering t) → s.registered = none

section Steps

variable {s : TickState}

theorem timer_update (t t' : ℕ) (f : Timer → Timer) :
    (s.update t f).timer t' = if t = t' then (s.timer t').map f else s.timer t' := by
  simp only [TickState.timer, TickState.update, List.getElem?_modify]
  split <;> simp

theorem timer_freeRegistered {t : ℕ} (hreg : s.registered = some t) (t' : ℕ) :
    s.freeRegistered.timer t' =
      if t = t' then (s.timer t').map fun tt => { tt with frees := tt.frees + 1 }
      else s.timer t' := by
  rw [TickState.freeRegistered, hreg]
  exact timer_update t t' _

theorem timer_create (periodMs t : ℕ) :
    (s.create periodMs).timer t =
      if t = s.timers.length then some { periodMs := periodMs } else s.timer t := by
  simp only [TickState.timer, TickState.create, List.getElem?_append]
  split
  next hlt => rw [if_neg (by omega)]
  next hge =>
    split
    next heq => simp [heq]
    next hne =>
      rw [List.getElem?_eq_none (by simp; omega), List.getElem?_eq_none (by omega)]

theorem alive_iff {t : ℕ} : s.alive t = true ↔ ∃ tt, s.timer t = some tt ∧ tt.alive = true := by
  simp [TickState.alive, Option.any_eq_true]

theorem Inv.held_of_alive (h : Inv s) {t : ℕ} (ht : s.alive t = true) : Held s t := by
  obtain ⟨tt, htt, halive⟩ := alive_iff.mp ht
  exact (h.timers t tt htt).aliveHeld halive

theorem Inv.held_unique (h : Inv s) {t t' : ℕ} (ht : Held s t) (ht' : Held s t') : t = t' := by
  rcases ht with hreg | hpend <;> rcases ht' with hreg' | hpend'
  · exact Option.some.inj (hreg.symm.trans hreg')
  · simp [h.registering t' hpend'] at hreg
  · simp [h.registering t hpend] at hreg'
  · simpa using hpend.symm.trans hpend'

theorem Inv.safe (h : Inv s) : Safe s where
  freedDead t tt htt hfreed := by
    cases halive : tt.alive
    · rfl
    · have hzero := (h.timers t tt htt).unfreed ((h.timers t tt htt).aliveHeld halive)
      omega
  freedOnce t tt htt := (h.timers t tt htt).freedOnce
  oneThread t t' ht ht' := h.held_unique (h.held_of_alive ht) (h.held_of_alive ht')

/-- An update that spares the counts and starts no thread. -/
theorem timers_update {held : ℕ → Prop} (h : ∀ t tt, s.timer t = some tt → TimerOk (held t) tt)
    (t : ℕ) (f : Timer → Timer) (hfrees : ∀ tt, (f tt).frees = tt.frees)
    (halive : ∀ tt, (f tt).alive = true → tt.alive = true) (t' : ℕ) (tt : Timer)
    (ht' : (s.update t f).timer t' = some tt) : TimerOk (held t') tt := by
  rw [timer_update] at ht'
  split at ht'
  next =>
    obtain ⟨tt', htt', rfl⟩ := Option.map_eq_some_iff.mp ht'
    obtain ⟨honce, hheld, hzero⟩ := h t' tt' htt'
    exact ⟨by rwa [hfrees], fun hal => hheld (halive tt' hal), fun hh => by rw [hfrees, hzero hh]⟩
  next => exact h t' tt ht'

/-- Where nothing is registered and no thread runs, a call can start a timer. -/
theorem inv_beginTimer (hnone : s.registered = none)
    (h : ∀ t tt, s.timer t = some tt → TimerOk False tt) (periodMs : ℕ) (created : Bool) :
    Inv (beginTimer s periodMs created) := by
  unfold beginTimer
  split
  next =>
    refine ⟨fun t tt htt => ?_, by simp, by simp⟩
    have hheld : ¬ Held { s with pending := none } t := by simp [Held, hnone]
    obtain ⟨honce, hheld', -⟩ := h t tt htt
    exact ⟨honce, fun hal => (hheld' hal).elim, fun hh => absurd hh hheld⟩
  next =>
    refine ⟨fun t tt htt => ?_, by simp, fun _ _ => hnone⟩
    have htt' : (s.create periodMs).timer t = some tt := htt
    rw [timer_create] at htt'
    split at htt'
    next heq =>
      obtain rfl := Option.some.inj htt'
      exact ⟨Nat.zero_le 1, fun _ => Or.inr (by rw [heq]), fun _ => rfl⟩
    next hne =>
      obtain ⟨honce, hheld', -⟩ := h t tt htt'
      refine ⟨honce, fun hal => (hheld' hal).elim, fun hh => ?_⟩
      rcases hh with hreg | hpend
      · simp [TickState.create, hnone] at hreg
      · simp only [Option.some.injEq, Pending.registering.injEq] at hpend
        exact absurd hpend.symm hne

/-- The record of a thread that has terminated is freed, and nothing is held. -/
theorem inv_freeRegistered (h : Inv s) {t : ℕ} (hreg : s.registered = some t)
    (hpend : ∀ t', s.pending ≠ some (.registering t')) (hdead : s.alive t = false) :
    s.freeRegistered.registered = none ∧
      ∀ t' tt, s.freeRegistered.timer t' = some tt → TimerOk False tt := by
  have hheld (t' : ℕ) (hh : Held s t') : t' = t := by
    rcases hh with hreg' | hpend'
    · exact Option.some.inj (hreg'.symm.trans hreg)
    · exact absurd hpend' (hpend t')
  have hnot (t' : ℕ) (tt : Timer) (htt : s.timer t' = some tt) (hal : tt.alive = true) : False := by
    have halive : s.alive t' = true := alive_iff.mpr ⟨tt, htt, hal⟩
    rw [hheld t' (h.held_of_alive halive), hdead] at halive
    simp at halive
  refine ⟨by rw [TickState.freeRegistered, hreg], fun t' tt htt => ?_⟩
  rw [timer_freeRegistered hreg] at htt
  split at htt
  next heq =>
    obtain ⟨tt', hold, rfl⟩ := Option.map_eq_some_iff.mp htt
    have hzero := (h.timers t' tt' hold).unfreed (Or.inl (heq ▸ hreg))
    exact ⟨by simp [hzero], fun hal => hnot t' tt' hold hal, False.elim⟩
  next => exact ⟨(h.timers t' tt htt).freedOnce, fun hal => hnot t' tt htt hal, False.elim⟩

theorem inv_request (h : Inv s) {periodMs : ℕ} {created : Bool} {s' : TickState}
    (hstep : tickStep s (.request periodMs created) s') : Inv s' := by
  unfold tickStep tickNext at hstep
  cases hpend : s.pending with
  | some call => simp [hpend] at hstep
  | none =>
    cases hreg : s.registered with
    | none =>
      simp only [hpend, hreg, Option.some.injEq] at hstep
      subst hstep
      refine inv_beginTimer hreg (fun t tt htt => ?_) periodMs created
      obtain ⟨honce, hheld, -⟩ := h.timers t tt htt
      exact ⟨honce, fun hal => by simpa [Held, hreg, hpend] using hheld hal, False.elim⟩
    | some t =>
      simp only [hpend, hreg, Option.some.injEq] at hstep
      subst hstep
      refine ⟨fun t' tt htt => ?_, fun t' periodMs' heq => ?_, fun t' heq => by simp at heq⟩
      · have hok := timers_update (s := s) h.timers t (fun tt => { tt with running := false })
          (fun _ => rfl) (fun _ hal => hal) t' tt htt
        simpa [Held, TickState.stop, TickState.update, hpend] using hok
      · simp only [Option.some.injEq, Pending.joining.injEq] at heq
        exact heq.1 ▸ hreg

theorem inv_joined (h : Inv s) {created : Bool} {s' : TickState}
    (hstep : tickStep s (.joined created) s') : Inv s' := by
  unfold tickStep tickNext at hstep
  cases hpend : s.pending with
  | none => simp [hpend] at hstep
  | some call =>
    cases call with
    | registering t => simp [hpend] at hstep
    | joining t periodMs =>
      cases halive : s.alive t with
      | true => simp [hpend, halive] at hstep
      | false =>
        simp only [hpend, halive, Bool.false_eq_true, if_false, Option.some.injEq] at hstep
        subst hstep
        obtain ⟨hnone, htimers⟩ := inv_freeRegistered h (h.joining t periodMs hpend)
          (by simp [hpend]) halive
        exact inv_beginTimer hnone htimers periodMs created

theorem inv_register (h : Inv s) {s' : TickState} (hstep : tickStep s .register s') : Inv s' := by
  unfold tickStep tickNext at hstep
  cases hpend : s.pending with
  | none => simp [hpend] at hstep
  | some call =>
    cases call with
    | joining t periodMs => simp [hpend] at hstep
    | registering t =>
      simp only [hpend, Option.some.injEq] at hstep
      subst hstep
      refine ⟨fun t' tt htt => ?_, by simp, by simp⟩
      simpa [Held, hpend, h.registering t hpend] using h.timers t' tt htt

theorem inv_exit (h : Inv s) {t : ℕ} {noTick : Bool} {s' : TickState}
    (hstep : tickStep s (.exit t noTick) s') : Inv s' := by
  simp only [tickStep, tickNext] at hstep
  split at hstep
  next =>
    obtain rfl := Option.some.inj hstep
    have htimers := timers_update (s := s) h.timers t
      (fun tt => { tt with running := false, alive := false }) (fun _ => rfl) (by simp)
    exact ⟨htimers, h.joining, h.registering⟩
  next => contradiction

/-- A harmless call changes nothing. -/
theorem ownCall_harmless {t periodMs : ℕ} {created : Bool} {s' : TickState}
    (hharmless : Harmless s (.ownCall t periodMs created))
    (hstep : tickStep s (.ownCall t periodMs created) s') : s' = s := by
  obtain ⟨hreg, hstarts⟩ := hharmless
  simp only [tickStep, tickNext] at hstep
  split at hstep
  next => simpa [hreg, beginOwnTimer, hstarts, eq_comm] using hstep
  next => contradiction

theorem inv_step (h : Inv s) {l : TickLabel} {s' : TickState} (hharmless : Harmless s l)
    (hstep : tickStep s l s') : Inv s' := by
  cases l with
  | request periodMs created => exact inv_request h hstep
  | joined created => exact inv_joined h hstep
  | register => exact inv_register h hstep
  | ownCall t periodMs created => exact ownCall_harmless hharmless hstep ▸ h
  | exit t noTick => exact inv_exit h hstep

theorem timer_beginOwnTimer {t : ℕ} {tt : Timer} (htt : s.timer t = some tt) (periodMs : ℕ)
    (created : Bool) : (beginOwnTimer s periodMs created).timer t = some tt := by
  unfold beginOwnTimer
  split
  next => exact htt
  next =>
    have hlt : t < s.timers.length := (List.getElem?_eq_some_iff.mp htt).1
    show (s.create periodMs).timer t = some tt
    rw [timer_create, if_neg (by omega), htt]

/-- A call that finds nothing registered and starts a timer starts a second
thread. -/
theorem not_safe_second {t periodMs : ℕ} {created : Bool} {tt : Timer}
    (htt : s.timer t = some tt) (hal : tt.alive = true)
    (hstarts : startsNone periodMs created = false) :
    ¬ Safe (beginOwnTimer s periodMs created) := by
  intro hsafe
  have hlt : t < s.timers.length := (List.getElem?_eq_some_iff.mp htt).1
  have hnew : (beginOwnTimer s periodMs created).alive s.timers.length = true := by
    refine alive_iff.mpr ⟨{ periodMs := periodMs }, ?_, rfl⟩
    rw [beginOwnTimer, hstarts]
    exact (timer_create periodMs s.timers.length).trans (if_pos rfl)
  have hown := alive_iff.mpr ⟨tt, timer_beginOwnTimer htt periodMs created, hal⟩
  have heq := hsafe.oneThread _ _ hown hnew
  omega

/-- A call that finds the caller's own timer registered frees it under the caller. -/
theorem not_safe_freed {t : ℕ} {tt : Timer} (htt : s.timer t = some tt) (hal : tt.alive = true)
    (hreg : s.registered = some t) (periodMs : ℕ) (created : Bool) :
    ¬ Safe (beginOwnTimer (s.stop t).freeRegistered periodMs created) := by
  intro hsafe
  have hstop : (s.stop t).timer t = some { tt with running := false } := by
    simp [TickState.stop, timer_update, htt]
  have hfreed : (s.stop t).freeRegistered.timer t =
      some { tt with running := false, frees := tt.frees + 1 } := by
    rw [timer_freeRegistered (s := s.stop t) hreg, if_pos rfl, hstop]
    rfl
  have hdead := hsafe.freedDead t _ (timer_beginOwnTimer hfreed periodMs created) (Nat.succ_pos _)
  simp [hal] at hdead

/-- Any other call on a tick thread frees the caller's record under it, or starts
a second thread. -/
theorem not_safe_of_harm (h : Inv s) {l : TickLabel} {s' : TickState} (hharm : ¬ Harmless s l)
    (hstep : tickStep s l s') : ¬ Safe s' := by
  cases l with
  | request periodMs created => exact absurd trivial hharm
  | joined created => exact absurd trivial hharm
  | register => exact absurd trivial hharm
  | exit t noTick => exact absurd trivial hharm
  | ownCall t periodMs created =>
    simp only [tickStep, tickNext] at hstep
    split at hstep
    next halive =>
      obtain ⟨tt, htt, hal⟩ := alive_iff.mp halive
      cases hreg : s.registered with
      | none =>
        have hstarts : startsNone periodMs created = false := by simpa [Harmless, hreg] using hharm
        simp only [hreg, Option.some.injEq] at hstep
        exact hstep ▸ not_safe_second htt hal hstarts
      | some t' =>
        obtain rfl := h.held_unique (h.held_of_alive halive) (Or.inl hreg)
        simp only [hreg, ne_eq, not_true_eq_false, false_and, if_false, Option.some.injEq] at hstep
        exact hstep ▸ not_safe_freed htt hal hreg periodMs created
    next => contradiction

/-- The runs in which records are freed once and after their threads, with at
most one thread at any time, are those in which the module only makes harmless
calls on its tick threads. -/
theorem tickRun_safe_iff (ls : List TickLabel) (s : TickState) :
    Run (Reaching Safe tickStep) {} ls s ↔ Run (Guarded Harmless tickStep) {} ls s :=
  Run.reaching_iff_guarded (I := Inv) (fun _ _ _ h hharmless hstep => inv_step h hharmless hstep)
    (fun _ h => h.safe) (fun _ _ _ h hharm hstep => not_safe_of_harm h hharm hstep)
    ⟨by simp [TickState.timer], by simp, by simp⟩

/-- A module that sets its period in `proxy_on_vm_start` does so again on its
tick thread: its record is freed while the thread goes on, and a second thread
is started. -/
theorem ownRestart_unsafe :
    ∃ s, Run tickStep {} [.request 100 true, .register, .ownCall 0 100 true] s ∧ ¬ Safe s := by
  have hrun : exec tickNext {} [.request 100 true, .register, .ownCall 0 100 true] = some _ := rfl
  refine ⟨_, Run.of_exec hrun, fun hsafe => ?_⟩
  have hdead := hsafe.freedDead 0 _ rfl (by decide)
  simp at hdead

end Steps

end VmodWasm.TickTimer
