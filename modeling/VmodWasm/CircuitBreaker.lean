import VmodWasm.HttpCall
import VmodWasm.Lib.KeyedMachines
import VmodWasm.Lib.Transition

/-!
The circuit breakers of http_pool.c. A breaker is a small machine over the
events `cb_allow`, `cb_success` and `cb_failure` of its upstream; the pool holds
at most 32 of them in a table searched by the formatted name of the upstream.
The second half runs whole callouts against the table: the breaker is asked
when a callout acquires its connection and told when the callout has ended, and
other callouts go on in between.
-/
namespace VmodWasm.CircuitBreaker

open ByteStrings HttpText ProxyContext HttpCall Lib.KeyedMachines Lib.Transition

/-- An upstream as the upstream parser lets it through. -/
structure Upstream where
  host : Bytes
  port : ℕ
  host_short : host.length ≤ 255
  host_colon : 0x3a ∉ host
  host_nul : 0 ∉ host
  port_le : port ≤ 65535
  deriving DecidableEq

/-- A callout that has passed its checks goes to such an upstream. -/
theorem prepare_upstream (hasPool : Bool) (ctx : ProxyCtx) (mem : Bytes) (args : HttpCallArgs)
    (p : Prepared) (h : prepare hasPool ctx mem args = .ok p) :
    ∃ u : Upstream, u.host = p.host ∧ u.port = p.port := by
  obtain ⟨upstream, _, hparse, _⟩ := prepare_ok hasPool ctx mem args p h
  obtain ⟨hshort, hport⟩ := pwHttpParseUpstream_bounds upstream p.host 256 p.port hparse
  obtain ⟨hcolon, hok⟩ := pwHttpParseUpstream_host upstream p.host 256 p.port hparse
  refine ⟨⟨p.host, p.port, by omega, hcolon, ?_, hport⟩, rfl, rfl⟩
  intro hnul
  simp only [pwHttpHostOk, Bool.and_eq_true, List.all_eq_true] at hok
  exact absurd (hok.2 0 hnul) (by decide)

/-- `enum vwasm_cb_state`. -/
inductive CbState where
  | closed | opened | halfOpen
  deriving DecidableEq, Repr

/-- `struct vwasm_http_circuit_breaker` as `cb_find_or_create` fills it in. -/
structure Breaker where
  upstream : Bytes
  state : CbState := .closed
  consecutiveFailures : ℕ := 0
  consecutiveSuccesses : ℕ := 0
  lastFailureTime : ℤ := 0
  lastSuccessTime : ℤ := 0
  threshold : ℕ := 5
  halfOpenTimeoutS : ℕ := 10
  deriving DecidableEq, Repr

/-- The switch of `vwasm_http_pool_cb_allow`; true is its 0. -/
def Breaker.allow (b : Breaker) (now : ℤ) : Bool × Breaker :=
  match b.state with
  | .closed => (true, b)
  | .opened =>
    if (b.halfOpenTimeoutS : ℤ) ≤ now - b.lastFailureTime then
      (true, { b with state := .halfOpen, consecutiveSuccesses := 0 })
    else (false, b)
  | .halfOpen => (true, b)

def Breaker.success (b : Breaker) (now : ℤ) : Breaker :=
  { b with
    consecutiveFailures := 0
    consecutiveSuccesses := u32 (b.consecutiveSuccesses + 1)
    lastSuccessTime := now
    state := if b.state = .halfOpen then .closed else b.state }

def Breaker.failure (b : Breaker) (now : ℤ) : Breaker :=
  let failures := u32 (b.consecutiveFailures + 1)
  { b with
    consecutiveFailures := failures
    consecutiveSuccesses := 0
    lastFailureTime := now
    state :=
      if b.state = .halfOpen then .opened
      else if b.state = .closed ∧ b.threshold ≤ failures then .opened
      else b.state }

inductive CbEvent where
  | allow (now : ℤ)
  | success (now : ℤ)
  | failure (now : ℤ)
  deriving DecidableEq, Repr

def CbEvent.time : CbEvent → ℤ
  | .allow now | .success now | .failure now => now

def CbEvent.isSuccess : CbEvent → Bool
  | .success _ => true
  | _ => false

def CbEvent.isFailure : CbEvent → Bool
  | .failure _ => true
  | _ => false

def Breaker.step (b : Breaker) : CbEvent → Breaker
  | .allow now => (b.allow now).2
  | .success now => b.success now
  | .failure now => b.failure now

theorem Breaker.allow_eq (b : Breaker) (now : ℤ) :
    b.allow now = (false, b) ∧ b.state = .opened ∧ now - b.lastFailureTime < b.halfOpenTimeoutS ∨
    b.allow now = (true, b) ∧ b.state ≠ .opened ∨
    b.allow now = (true, { b with state := .halfOpen, consecutiveSuccesses := 0 }) ∧
      b.state = .opened ∧ (b.halfOpenTimeoutS : ℤ) ≤ now - b.lastFailureTime := by
  unfold Breaker.allow
  cases hs : b.state with
  | closed => exact Or.inr (Or.inl ⟨rfl, by simp⟩)
  | halfOpen => exact Or.inr (Or.inl ⟨rfl, by simp⟩)
  | opened =>
    by_cases hdue : (b.halfOpenTimeoutS : ℤ) ≤ now - b.lastFailureTime
    · exact Or.inr (Or.inr ⟨by simp [hdue], rfl, hdue⟩)
    · exact Or.inl ⟨by simp [hdue], rfl, by omega⟩

/-- No event touches the name or the configuration of a breaker. -/
theorem Breaker.step_fixed (b : Breaker) (e : CbEvent) :
    (b.step e).upstream = b.upstream ∧ (b.step e).threshold = b.threshold ∧
      (b.step e).halfOpenTimeoutS = b.halfOpenTimeoutS := by
  cases e with
  | allow now =>
    rcases b.allow_eq now with ⟨h, _⟩ | ⟨h, _⟩ | ⟨h, _⟩ <;> simp [Breaker.step, h]
  | success now => exact ⟨rfl, rfl, rfl⟩
  | failure now => exact ⟨rfl, rfl, rfl⟩

def breakerKind : Kind Bytes Breaker CbEvent where
  key := Breaker.upstream
  fresh := fun key => { upstream := key }
  step := Breaker.step
  key_fresh _ := rfl
  key_step b e := (b.step_fixed e).1

/-- `snprintf(key, 280, "%s:%u", host, port)`. -/
def cbKey (host : Bytes) (port : ℕ) : Bytes := (host ++ 0x3a :: decimal port).take 279

def maxBreakers : ℕ := 32

def cbFindOrCreate (t : List Breaker) (host : Bytes) (port : ℕ) : Option ℕ × List Breaker :=
  findOrCreate breakerKind maxBreakers t (cbKey host port)

/-- Without a breaker the request is allowed. -/
def vwasmHttpPoolCbAllow (t : List Breaker) (host : Bytes) (port : ℕ) (now : ℤ) :
    Bool × List Breaker :=
  match cbFindOrCreate t host port with
  | (none, t) => (true, t)
  | (some i, t) =>
    ((t[i]?.map fun b => (b.allow now).1).getD true, t.modify i fun b => (b.allow now).2)

def vwasmHttpPoolCbSuccess (t : List Breaker) (host : Bytes) (port : ℕ) (now : ℤ) :
    List Breaker :=
  match cbFindOrCreate t host port with
  | (none, t) => t
  | (some i, t) => t.modify i fun b => b.success now

def vwasmHttpPoolCbFailure (t : List Breaker) (host : Bytes) (port : ℕ) (now : ℤ) :
    List Breaker :=
  match cbFindOrCreate t host port with
  | (none, t) => t
  | (some i, t) => t.modify i fun b => b.failure now

def cbStep (t : List Breaker) (ev : Upstream × CbEvent) : List Breaker :=
  match ev.2 with
  | .allow now => (vwasmHttpPoolCbAllow t ev.1.host ev.1.port now).2
  | .success now => vwasmHttpPoolCbSuccess t ev.1.host ev.1.port now
  | .failure now => vwasmHttpPoolCbFailure t ev.1.host ev.1.port now

def runBreakers (history : List (Upstream × CbEvent)) : List Breaker := history.foldl cbStep []

def Upstream.key (u : Upstream) : Bytes := cbKey u.host u.port

theorem Upstream.key_eq (u : Upstream) : u.key = u.host ++ 0x3a :: decimal u.port := by
  have hhost := u.host_short
  have hport := length_decimal_port u.port u.port_le
  apply List.take_of_length_le
  simp only [List.length_append, List.length_cons]
  omega

/-- No two upstreams share a breaker: the colon ends the host. -/
theorem Upstream.key_injective : Function.Injective Upstream.key := by
  intro u v h
  rw [u.key_eq, v.key_eq] at h
  obtain ⟨hhost, hport⟩ := HttpText.hostPort_inj _ _ _ _ u.host_colon v.host_colon h
  cases u
  cases v
  simp_all

theorem cbStep_eq_dispatch (t : List Breaker) (ev : Upstream × CbEvent) :
    cbStep t ev = dispatch breakerKind maxBreakers t (ev.1.key, ev.2) := by
  obtain ⟨u, e⟩ := ev
  unfold dispatch Upstream.key
  cases e <;>
    simp only [cbStep, vwasmHttpPoolCbAllow, vwasmHttpPoolCbSuccess, vwasmHttpPoolCbFailure,
      cbFindOrCreate] <;>
    rcases findOrCreate breakerKind maxBreakers t (cbKey u.host u.port) with ⟨_ | i, t'⟩ <;> rfl

theorem runBreakers_eq (history : List (Upstream × CbEvent)) :
    runBreakers history =
      runTable breakerKind maxBreakers (history.map fun ev => (ev.1.key, ev.2)) := by
  rw [runBreakers, runTable, List.foldl_map]
  congr 1
  funext t ev
  exact cbStep_eq_dispatch t ev

/-- The breakers under an upstream's name. -/
def breakersOf (t : List Breaker) (u : Upstream) : List Breaker :=
  t.filter fun b => b.upstream = u.key

/-- The first 32 upstreams of a history. -/
def tracked (history : List (Upstream × CbEvent)) : List Upstream :=
  (firstKeys history).take maxBreakers

/-- A breaker for one upstream alone. -/
def ownBreaker (u : Upstream) (history : List (Upstream × CbEvent)) : Breaker :=
  (ownEvents u history).foldl Breaker.step { upstream := u.key }

theorem breakersOf_runBreakers (history : List (Upstream × CbEvent)) (u : Upstream) :
    breakersOf (runBreakers history) u =
      if u ∈ tracked history then [ownBreaker u history] else [] := by
  have h := machinesOf_runTable breakerKind maxBreakers
    (history.map fun ev => (ev.1.key, ev.2)) u.key
  rw [firstKeys_map Upstream.key Upstream.key_injective, ← List.map_take, ownMachine,
    ownEvents_map Upstream.key Upstream.key_injective] at h
  have hmem := List.mem_map_of_injective (l := (firstKeys history).take maxBreakers) (a := u)
    Upstream.key_injective
  rw [runBreakers_eq]
  by_cases hu : u ∈ tracked history
  · rw [if_pos hu]
    rw [if_pos (hmem.mpr hu)] at h
    exact h
  · rw [if_neg hu]
    rw [if_neg fun hk => hu (hmem.mp hk)] at h
    exact h

theorem ownEvents_snoc (u : Upstream) (history : List (Upstream × CbEvent)) (e : CbEvent) :
    ownEvents u (history ++ [(u, e)]) = ownEvents u history ++ [e] := by
  simp [ownEvents]

theorem ownBreaker_snoc (u : Upstream) (history : List (Upstream × CbEvent)) (e : CbEvent) :
    ownBreaker u (history ++ [(u, e)]) = (ownBreaker u history).step e := by
  rw [ownBreaker, ownEvents_snoc, List.foldl_append]
  rfl

/-- Failures since the last success, or since the breaker was made. -/
def failuresSinceSuccess (es : List CbEvent) : ℕ :=
  (es.reverse.takeWhile fun e => !e.isSuccess).countP CbEvent.isFailure

theorem failuresSinceSuccess_snoc (es : List CbEvent) (e : CbEvent) :
    failuresSinceSuccess (es ++ [e]) =
      if e.isSuccess then 0
      else failuresSinceSuccess es + if e.isFailure then 1 else 0 := by
  have hcons : (es ++ [e]).reverse = e :: es.reverse := by simp
  rw [failuresSinceSuccess, hcons, List.takeWhile_cons]
  cases e with
  | allow now => rfl
  | success now => rfl
  | failure now => exact List.countP_cons_of_pos rfl

/-- A closed breaker counts the failures since the last success. -/
def ClosedCounts (b : Breaker) (failures : ℕ) : Prop :=
  b.state = .closed →
    b.consecutiveFailures < b.threshold ∧ b.consecutiveFailures = failures

theorem foldl_step_threshold (es : List CbEvent) (b : Breaker) :
    (es.foldl Breaker.step b).threshold = b.threshold ∧
      (es.foldl Breaker.step b).halfOpenTimeoutS = b.halfOpenTimeoutS := by
  induction es generalizing b with
  | nil => exact ⟨rfl, rfl⟩
  | cons e es ih =>
    obtain ⟨_, hthreshold, htimeout⟩ := b.step_fixed e
    rw [List.foldl_cons, (ih _).1, (ih _).2]
    exact ⟨hthreshold, htimeout⟩

theorem closedCounts_step (b : Breaker) (es : List CbEvent) (e : CbEvent)
    (hthreshold : b.threshold = 5) (h : ClosedCounts b (failuresSinceSuccess es)) :
    ClosedCounts (b.step e) (failuresSinceSuccess (es ++ [e])) := by
  intro hclosed
  rw [failuresSinceSuccess_snoc]
  cases e with
  | allow now =>
    rcases b.allow_eq now with ⟨ha, _⟩ | ⟨ha, _⟩ | ⟨ha, _⟩
    · rw [Breaker.step, ha] at hclosed ⊢
      exact h hclosed
    · rw [Breaker.step, ha] at hclosed ⊢
      exact h hclosed
    · rw [Breaker.step, ha] at hclosed
      contradiction
  | success now =>
    refine ⟨?_, rfl⟩
    show 0 < b.threshold
    omega
  | failure now =>
    simp only [Breaker.step, Breaker.failure] at hclosed ⊢
    by_cases hhalf : b.state = .halfOpen
    · rw [if_pos hhalf] at hclosed
      contradiction
    · rw [if_neg hhalf] at hclosed
      by_cases hopen : b.state = .closed ∧ b.threshold ≤ u32 (b.consecutiveFailures + 1)
      · rw [if_pos hopen] at hclosed
        contradiction
      · rw [if_neg hopen] at hclosed
        obtain ⟨hlt, hcount⟩ := h hclosed
        have hu32 : u32 (b.consecutiveFailures + 1) = b.consecutiveFailures + 1 :=
          u32_of_lt (by omega)
        rw [hu32] at hopen ⊢
        have hnot : ¬ b.threshold ≤ b.consecutiveFailures + 1 := fun hle => hopen ⟨hclosed, hle⟩
        refine ⟨by omega, ?_⟩
        rw [hcount]
        rfl

theorem closedCounts_foldl (key : Bytes) (es : List CbEvent) :
    ClosedCounts (es.foldl Breaker.step { upstream := key }) (failuresSinceSuccess es) := by
  induction es using List.reverseRecOn with
  | nil => exact fun _ => ⟨show 0 < 5 by omega, rfl⟩
  | append_singleton es e ih =>
    rw [List.foldl_append]
    exact closedCounts_step _ es e (foldl_step_threshold es _).1 ih

/-- The moves of a breaker that has seen `failures` failures since its last
success: what event takes it from which state to which. -/
structure CbMoves (failures : ℕ) (b : Breaker) (e : CbEvent) (b' : Breaker) : Prop where
  opens : b.state = .closed →
    (b'.state = .opened ↔ e.isFailure = true ∧ failures + 1 = b.threshold)
  stays_closed : b.state = .closed → b'.state ≠ .halfOpen
  half_opens : b.state = .opened → b'.state ≠ .opened →
    b'.state = .halfOpen ∧
      ∃ now, e = .allow now ∧ (b.halfOpenTimeoutS : ℤ) ≤ now - b.lastFailureTime
  probe_success : b.state = .halfOpen → ∀ now, e = .success now → b'.state = .closed
  probe_failure : b.state = .halfOpen → ∀ now, e = .failure now → b'.state = .opened
  probe_again : b.state = .halfOpen → ∀ now, e = .allow now → b'.state = .halfOpen

theorem cbMoves_step (failures : ℕ) (b : Breaker) (e : CbEvent) (hthreshold : b.threshold = 5)
    (h : ClosedCounts b failures) : CbMoves failures b e (b.step e) := by
  cases e with
  | allow now =>
    rcases b.allow_eq now with ⟨ha, hs, _⟩ | ⟨ha, hs⟩ | ⟨ha, hs, hdue⟩
    all_goals constructor
    all_goals simp_all [Breaker.step, CbEvent.isFailure]
  | success now =>
    constructor
    all_goals simp_all [Breaker.step, Breaker.success, CbEvent.isFailure]
  | failure now =>
    constructor
    case opens =>
      intro hclosed
      obtain ⟨hlt, hcount⟩ := h hclosed
      have hu32 : u32 (b.consecutiveFailures + 1) = b.consecutiveFailures + 1 :=
        u32_of_lt (by omega)
      have hstate : (b.step (.failure now)).state =
          if b.threshold ≤ b.consecutiveFailures + 1 then .opened else .closed := by
        simp [Breaker.step, Breaker.failure, hclosed, hu32]
      rw [hstate]
      split
      next hle => exact ⟨fun _ => ⟨rfl, by omega⟩, fun _ => rfl⟩
      next hle => exact ⟨fun hfalse => by contradiction, fun ⟨_, heq⟩ => by omega⟩
    case stays_closed =>
      intro hclosed
      simp only [Breaker.step, Breaker.failure, hclosed, reduceCtorEq, if_false]
      split <;> simp
    all_goals simp_all [Breaker.step, Breaker.failure]

/-- What `cb_allow` answers is decided by the breaker of the upstream alone. -/
theorem cbAllow_eq (history : List (Upstream × CbEvent)) (u : Upstream) (now : ℤ) :
    (vwasmHttpPoolCbAllow (runBreakers history) u.host u.port now).1 =
      if u ∈ tracked history then ((ownBreaker u history).allow now).1 else true := by
  have hof : machinesOf breakerKind (runBreakers history) (cbKey u.host u.port) =
      if u ∈ tracked history then [ownBreaker u history] else [] :=
    breakersOf_runBreakers history u
  unfold vwasmHttpPoolCbAllow cbFindOrCreate
  rcases findOrCreate_cases breakerKind maxBreakers (runBreakers history) (cbKey u.host u.port)
    with ⟨i, b, hb, hfind, hi⟩ | ⟨hfind, hnone⟩ | ⟨hfind, hnone⟩
  · rw [hof] at hb
    split at hb
    next hu =>
      rw [List.mem_singleton.mp hb] at hi
      simp [hfind, hi, if_pos hu]
    next => simp at hb
  · rw [hnone] at hof
    simp only [hfind]
    split at hof
    next => simp at hof
    next hu => rw [if_neg hu]
  · rw [hnone] at hof
    split at hof
    next => simp at hof
    next hu =>
      simp only [hfind, if_neg hu, List.getElem?_concat_length]
      rfl

/-- Every breaker is the state machine of its own upstream: the first 32
upstreams have one breaker each, which only their own events move; a closed
breaker counts failures up to its threshold, an open one half-opens when its
timeout is over, and only an open one rejects. -/
theorem runBreakers_stateMachine (history : List (Upstream × CbEvent)) (u : Upstream) :
    (breakersOf (runBreakers history) u =
      if u ∈ (firstKeys history).take 32 then [ownBreaker u history] else []) ∧
    ClosedCounts (ownBreaker u history) (failuresSinceSuccess (ownEvents u history)) ∧
    (∀ e, CbMoves (failuresSinceSuccess (ownEvents u history)) (ownBreaker u history) e
      (ownBreaker u (history ++ [(u, e)]))) ∧
    ∀ now, (vwasmHttpPoolCbAllow (runBreakers history) u.host u.port now).1 = false →
      u ∈ (firstKeys history).take 32 ∧ (ownBreaker u history).state = .opened := by
  have hcounts := closedCounts_foldl u.key (ownEvents u history)
  refine ⟨breakersOf_runBreakers history u, hcounts, ?_, ?_⟩
  · intro e
    rw [ownBreaker_snoc]
    exact cbMoves_step _ _ e (foldl_step_threshold _ _).1 hcounts
  · intro now hrejected
    rw [cbAllow_eq] at hrejected
    split at hrejected
    next hu =>
      refine ⟨hu, ?_⟩
      rcases (ownBreaker u history).allow_eq now with ⟨_, hopen, _⟩ | ⟨ha, _⟩ | ⟨ha, _⟩
      · exact hopen
      · rw [ha] at hrejected
        contradiction
      · rw [ha] at hrejected
        contradiction
    next => contradiction

/-- A callout between its acquire and its report to the breaker. -/
structure PendingCall where
  upstream : Upstream
  call : Prepared
  admitted : Bool

/-- A rejected acquire has returned -1: the callout is one that did not connect. -/
def PendingCall.env (c : PendingCall) (env : CallEnv) : CallEnv :=
  if c.admitted then env else { env with connected := false }

/-- A call of the breaker functions, made for a callout that `cb_allow` had
admitted or rejected. -/
structure CbRecord where
  upstream : Upstream
  event : CbEvent
  admitted : Bool

structure BreakerPool where
  breakers : List Breaker := []
  clock : ℤ := 0
  pending : ℕ → Option PendingCall := fun _ => none
  log : List CbRecord := []

inductive CalloutStep where
  | acquire (u : Upstream) (call : Prepared) (now : ℤ)
  | report (env : CallEnv) (now : ℤ)

/-- The pool after a call that thread `t` made, now with the callout `c`. -/
def BreakerPool.record (s : BreakerPool) (t : ℕ) (breakers : List Breaker) (r : CbRecord)
    (c : Option PendingCall) : BreakerPool where
  breakers := breakers
  clock := r.event.time
  pending := Function.update s.pending t c
  log := s.log ++ [r]

/-- One step of the callout in thread `t`, at a clock that does not go back. -/
def calloutStep (s : BreakerPool) : ℕ × CalloutStep → Option BreakerPool
  | (t, .acquire u call now) =>
    if (s.pending t).isNone ∧ s.clock ≤ now ∧ call.host = u.host ∧ call.port = u.port then
      let r := vwasmHttpPoolCbAllow s.breakers call.host call.port now
      some (s.record t r.2 ⟨u, .allow now, r.1⟩ (some ⟨u, call, r.1⟩))
    else none
  | (t, .report env now) =>
    match s.pending t with
    | none => none
    | some c =>
      if s.clock ≤ now then
        if Event.cbSuccess c.call.host c.call.port ∈ (exchange true (c.env env) c.call).1 then
          some (s.record t (vwasmHttpPoolCbSuccess s.breakers c.call.host c.call.port now)
            ⟨c.upstream, .success now, c.admitted⟩ none)
        else
          some (s.record t (vwasmHttpPoolCbFailure s.breakers c.call.host c.call.port now)
            ⟨c.upstream, .failure now, c.admitted⟩ none)
      else none

theorem exchange_rejected (env : CallEnv) (p : Prepared) (h : env.connected = false) :
    Event.cbSuccess p.host p.port ∉ (exchange true env p).1 := by
  simp [exchange, h]

/-- The calls of the breaker functions, in order. -/
def BreakerPool.history (s : BreakerPool) : List (Upstream × CbEvent) :=
  s.log.map fun r => (r.upstream, r.event)

/-- What holds in every run: the table is the one that the recorded calls
make, their times do not go back, and a rejected callout reports no success. -/
structure Consistent (s : BreakerPool) : Prop where
  breakers_eq : s.breakers = runBreakers s.history
  sorted : (s.log.map fun r => r.event.time).Pairwise (· ≤ ·)
  past : ∀ r ∈ s.log, r.event.time ≤ s.clock
  rejected : ∀ r ∈ s.log, r.admitted = false → r.event.isSuccess = false
  pending : ∀ t c, s.pending t = some c →
    c.call.host = c.upstream.host ∧ c.call.port = c.upstream.port

/-- Every step makes one call of the breaker functions and records it. -/
theorem calloutStep_cases (s s' : BreakerPool) (t : ℕ) (a : CalloutStep)
    (hpending : ∀ t c, s.pending t = some c →
      c.call.host = c.upstream.host ∧ c.call.port = c.upstream.port)
    (h : calloutStep s (t, a) = some s') :
    ∃ r c, s' = s.record t (cbStep s.breakers (r.upstream, r.event)) r c ∧
      s.clock ≤ r.event.time ∧ (r.admitted = false → r.event.isSuccess = false) ∧
      ∀ c' ∈ c, c'.call.host = c'.upstream.host ∧ c'.call.port = c'.upstream.port := by
  cases a with
  | acquire u call now =>
    simp only [calloutStep] at h
    split at h
    next hguard =>
      obtain ⟨_, hclock, hhost, hport⟩ := hguard
      injection h with h
      refine ⟨⟨u, .allow now, (vwasmHttpPoolCbAllow s.breakers call.host call.port now).1⟩,
        some ⟨u, call, (vwasmHttpPoolCbAllow s.breakers call.host call.port now).1⟩, ?_, hclock,
        fun _ => rfl, ?_⟩
      · rw [← h, hhost, hport]
        rfl
      · simpa using ⟨hhost, hport⟩
    next => contradiction
  | report env now =>
    simp only [calloutStep] at h
    split at h
    next => contradiction
    next c hc =>
      obtain ⟨hhost, hport⟩ := hpending t c hc
      split at h
      next hclock =>
        split at h
        next hok =>
          injection h with h
          refine ⟨⟨c.upstream, .success now, c.admitted⟩, none, ?_, hclock, ?_, by simp⟩
          · rw [← h, hhost, hport]
            rfl
          · intro hrejected
            exact absurd hok (exchange_rejected _ c.call (by simp_all [PendingCall.env]))
        next =>
          injection h with h
          refine ⟨⟨c.upstream, .failure now, c.admitted⟩, none, ?_, hclock, fun _ => rfl, by simp⟩
          rw [← h, hhost, hport]
          rfl
      next => contradiction

theorem consistent_step (s s' : BreakerPool) (l : ℕ × CalloutStep)
    (h : calloutStep s l = some s') (hs : Consistent s) : Consistent s' := by
  obtain ⟨t, a⟩ := l
  obtain ⟨r, c, rfl, hclock, hrejected, hc⟩ := calloutStep_cases s s' t a hs.pending h
  have hold (r' : CbRecord) (hr' : r' ∈ s.log) : r'.event.time ≤ r.event.time :=
    (hs.past r' hr').trans hclock
  constructor
  · simp only [BreakerPool.record, BreakerPool.history, List.map_append, List.map_singleton,
      runBreakers, List.foldl_append]
    rw [hs.breakers_eq]
    rfl
  · simp only [BreakerPool.record, List.map_append, List.map_singleton]
    apply List.pairwise_append.mpr
    refine ⟨hs.sorted, List.pairwise_singleton _ _, ?_⟩
    intro x hx y hy
    obtain ⟨r', hr', rfl⟩ := List.mem_map.mp hx
    rw [List.mem_singleton.mp hy]
    exact hold r' hr'
  · intro r' hr'
    rcases List.mem_append.mp hr' with hr' | hr'
    · exact hold r' hr'
    · rw [List.mem_singleton.mp hr']
      exact Int.le_refl _
  · intro r' hr'
    rcases List.mem_append.mp hr' with hr' | hr'
    · exact hs.rejected r' hr'
    · rw [List.mem_singleton.mp hr']
      exact hrejected
  · intro t' c' hc'
    simp only [BreakerPool.record, Function.update_apply] at hc'
    split at hc'
    next => exact hc c' hc'
    next => exact hs.pending t' c' hc'

theorem consistent_of_run {start : ℤ} {s : BreakerPool} {ls : List (ℕ × CalloutStep)}
    (hrun : Run (fun s l s' => calloutStep s l = some s') { clock := start } ls s) :
    Consistent s := by
  apply hrun.invariant Consistent fun s l s' => consistent_step s s' l
  constructor <;> simp [BreakerPool.history, runBreakers]

/-- A breaker that is not closed remembers a failure. -/
theorem lastFailure_mem (key : Bytes) (es : List CbEvent)
    (h : (es.foldl Breaker.step { upstream := key }).state ≠ .closed) :
    CbEvent.failure (es.foldl Breaker.step { upstream := key }).lastFailureTime ∈ es := by
  induction es using List.reverseRecOn with
  | nil => exact absurd rfl h
  | append_singleton es e ih =>
    rw [List.foldl_append] at h ⊢
    generalize es.foldl Breaker.step { upstream := key } = b at h ih ⊢
    cases e with
    | allow now =>
      apply List.mem_append_left
      rcases b.allow_eq now with ⟨ha, hs, _⟩ | ⟨ha, hs⟩ | ⟨ha, hs, _⟩ <;>
        simp_all [Breaker.step]
    | success now =>
      apply List.mem_append_left
      apply ih
      intro hclosed
      simp [Breaker.step, Breaker.success, hclosed] at h
    | failure now => exact List.mem_append_right _ (List.mem_singleton.mpr rfl)

/-- The last failure is the latest one. -/
theorem le_lastFailure (key : Bytes) (es : List CbEvent)
    (hsorted : (es.map CbEvent.time).Pairwise (· ≤ ·)) (now : ℤ) (h : CbEvent.failure now ∈ es) :
    now ≤ (es.foldl Breaker.step { upstream := key }).lastFailureTime := by
  induction es using List.reverseRecOn with
  | nil => simp at h
  | append_singleton es e ih =>
    rw [List.map_append] at hsorted
    obtain ⟨hes, _, hlast⟩ := List.pairwise_append.mp hsorted
    rw [List.foldl_append]
    rcases List.mem_append.mp h with hmem | h
    · have hle := ih hes hmem
      generalize es.foldl Breaker.step { upstream := key } = b at hle ⊢
      cases e with
      | allow time =>
        rcases b.allow_eq time with ⟨ha, _⟩ | ⟨ha, _⟩ | ⟨ha, _⟩ <;> simpa [Breaker.step, ha]
      | success time => exact hle
      | failure time =>
        exact hlast now (List.mem_map_of_mem (f := CbEvent.time) hmem) time (by simp [CbEvent.time])
    · rw [← List.mem_singleton.mp h]
      exact le_refl _

theorem mem_ownEvents_history (s : BreakerPool) (u : Upstream) (e : CbEvent) :
    e ∈ ownEvents u s.history ↔ ∃ r ∈ s.log, r.upstream = u ∧ r.event = e := by
  simp only [ownEvents, BreakerPool.history, List.mem_map, List.mem_filter, decide_eq_true_eq]
  constructor
  · rintro ⟨_, ⟨⟨r, hr, rfl⟩, hu⟩, rfl⟩
    exact ⟨r, hr, hu, rfl⟩
  · rintro ⟨r, hr, hu, rfl⟩
    exact ⟨_, ⟨⟨r, hr, rfl⟩, hu⟩, rfl⟩

/-- Failed callouts to an upstream, admitted or rejected as `admitted` says, all
ended at or before a time. -/
def FailuresUntil (s : BreakerPool) (u : Upstream) (admitted : Bool) (time : ℤ) : Prop :=
  ∀ r ∈ s.log, r.upstream = u → r.admitted = admitted → r.event.isFailure = true →
    r.event.time ≤ time

/-- When the timeout has passed since the last failure of an admitted callout,
an open breaker lets the next callout through exactly if it has also passed
since the last callout that the breaker itself had rejected. -/
theorem openBreaker_recovers_iff {start : ℤ} {s : BreakerPool} {ls : List (ℕ × CalloutStep)}
    (hrun : Run (fun s l s' => calloutStep s l = some s') { clock := start } ls s)
    (u : Upstream) (b : Breaker) (hb : b ∈ breakersOf s.breakers u) (hopen : b.state = .opened)
    (now : ℤ) (hdue : FailuresUntil s u true (now - b.halfOpenTimeoutS)) :
    (vwasmHttpPoolCbAllow s.breakers u.host u.port now).1 = true ↔
      FailuresUntil s u false (now - b.halfOpenTimeoutS) := by
  have hs := consistent_of_run hrun
  have htracked : u ∈ tracked s.history ∧ b = ownBreaker u s.history := by
    rw [hs.breakers_eq, breakersOf_runBreakers] at hb
    split at hb
    next hu => exact ⟨hu, List.mem_singleton.mp hb⟩
    next => simp at hb
  obtain ⟨hu, rfl⟩ := htracked
  have hsorted : ((ownEvents u s.history).map CbEvent.time).Pairwise (· ≤ ·) := by
    refine hs.sorted.sublist ?_
    rw [ownEvents, List.map_map]
    have hsub : ((s.history.filter fun ev => ev.1 = u).map fun ev => ev.2.time).Sublist
        (s.history.map fun ev => ev.2.time) := List.filter_sublist.map _
    simpa [BreakerPool.history, Function.comp_def] using hsub
  have hlast := lastFailure_mem u.key (ownEvents u s.history) (by
    rw [← ownBreaker, hopen]
    simp)
  rw [← ownBreaker] at hlast
  rw [hs.breakers_eq, cbAllow_eq, if_pos hu]
  rcases (ownBreaker u s.history).allow_eq now with ⟨ha, _, hearly⟩ | ⟨_, hs'⟩ | ⟨ha, _, hpassed⟩
  · -- the last failure is too recent, so by `hdue` it is one of a rejected callout
    rw [ha]
    simp only [Bool.false_eq_true, false_iff]
    intro hrejected
    obtain ⟨r, hr, hru, hre⟩ := (mem_ownEvents_history s u _).mp hlast
    have hfailure : r.event.isFailure = true := by rw [hre]; rfl
    have htime : r.event.time = (ownBreaker u s.history).lastFailureTime := by rw [hre]; rfl
    have hle : r.event.time ≤ now - (ownBreaker u s.history).halfOpenTimeoutS := by
      cases hadm : r.admitted with
      | true => exact hdue r hr hru hadm hfailure
      | false => exact hrejected r hr hru hadm hfailure
    omega
  · exact absurd hopen hs'
  · rw [ha]
    simp only [true_iff]
    intro r hr hru _ hfailure
    have hmem : CbEvent.failure r.event.time ∈ ownEvents u s.history := by
      rw [mem_ownEvents_history]
      refine ⟨r, hr, hru, ?_⟩
      cases he : r.event with
      | failure time => rfl
      | allow time => simp [he, CbEvent.isFailure] at hfailure
      | success time => simp [he, CbEvent.isFailure] at hfailure
    have hle := le_lastFailure u.key (ownEvents u s.history) hsorted r.event.time hmem
    rw [← ownBreaker] at hle
    omega

def exampleUpstream : Upstream where
  host := ascii "a"
  port := 80
  host_short := by decide
  host_colon := by decide
  host_nul := by decide
  port_le := by decide

def exampleCall : Prepared where
  host := ascii "a"
  port := 80
  timeoutMs := 5000
  exempt := true
  request := []
  body := []

/-- A callout that finds nobody to connect to. -/
def failingCallout (now : ℤ) : List (ℕ × CalloutStep) :=
  [(0, .acquire exampleUpstream exampleCall now), (0, .report { connected := false } now)]

/-- Five failed callouts at time 0 open the breaker. -/
def outage : List (ℕ × CalloutStep) := (List.replicate 5 (failingCallout 0)).flatten

def runFrom (ls : List (ℕ × CalloutStep)) : BreakerPool :=
  (exec calloutStep { clock := 0 } ls).getD {}

theorem run_runFrom (ls : List (ℕ × CalloutStep))
    (h : (exec calloutStep { clock := 0 } ls).isSome = true) :
    Run (fun s l s' => calloutStep s l = some s') { clock := 0 } ls (runFrom ls) := by
  obtain ⟨s, hs⟩ := Option.isSome_iff_exists.mp h
  rw [runFrom, hs]
  exact Run.of_exec hs

/-- The breaker as five failures at time 0 leave it, and one more at `time`. -/
def outageBreaker (failures : ℕ) (time : ℤ) : Breaker where
  upstream := ascii "a:80"
  state := .opened
  consecutiveFailures := failures
  lastFailureTime := time

/-- Ten seconds after the outage, with no callout in between, the breaker lets
a probe through. -/
theorem outage_recovers :
    outageBreaker 5 0 ∈ breakersOf (runFrom outage).breakers exampleUpstream ∧
    ((vwasmHttpPoolCbAllow (runFrom outage).breakers exampleUpstream.host exampleUpstream.port
        10).1 = true ↔
      FailuresUntil (runFrom outage) exampleUpstream false
        (10 - (outageBreaker 5 0).halfOpenTimeoutS)) := by
  have hb : outageBreaker 5 0 ∈ breakersOf (runFrom outage).breakers exampleUpstream := by
    decide +kernel
  refine ⟨hb, openBreaker_recovers_iff (run_runFrom outage (by decide +kernel)) exampleUpstream
    (outageBreaker 5 0) hb rfl 10 ?_⟩
  unfold FailuresUntil
  decide +kernel

/-- A callout rejected five seconds after the outage keeps the breaker from
admitting the one at ten seconds. -/
theorem rejected_callout_postpones :
    Run (fun s l s' => calloutStep s l = some s') { clock := 0 } (outage ++ failingCallout 5)
      (runFrom (outage ++ failingCallout 5)) ∧
    (∃ b ∈ breakersOf (runFrom (outage ++ failingCallout 5)).breakers exampleUpstream,
      b.state = .opened ∧
      FailuresUntil (runFrom (outage ++ failingCallout 5)) exampleUpstream true
        (10 - b.halfOpenTimeoutS)) ∧
    (vwasmHttpPoolCbAllow (runFrom (outage ++ failingCallout 5)).breakers exampleUpstream.host
      exampleUpstream.port 10).1 = false := by
  refine ⟨run_runFrom _ (by decide +kernel), ⟨outageBreaker 6 5, by decide +kernel, rfl, ?_⟩,
    by decide +kernel⟩
  unfold FailuresUntil
  decide +kernel

end VmodWasm.CircuitBreaker
