import VmodWasm.HttpPool

/-!
The DNS cache under concurrent calls of `vwasm_http_pool_resolve`. A call reads
the clock, looks into the cache, asks `getaddrinfo` and writes the answer into
the cache; lookup and write are critical sections, and other calls may run
between any two of these steps. What a call returns is compared with the log of
all answers that `getaddrinfo` has given so far.
-/
namespace VmodWasm.DnsCache

open ByteStrings HttpPool ConnectionPool
open Lib.Transition

/-- What a call is asked for: a host that fits into an entry, and a port. -/
structure Request where
  host : Bytes
  port : ℕ
  host_le : host.length ≤ 255
  port_le : port ≤ 65535

/-- A call, with the time it started at; the number tells calls apart. -/
structure Call where
  id : ℕ
  request : Request
  started : ℤ

/-- `snprintf` into `port_str`. -/
def portStr (port : ℕ) : Bytes := (decimal port).take 7

def IsInternet : IpAddr → Prop
  | .other _ => False
  | _ => True

instance (ip : IpAddr) : Decidable (IsInternet ip) := by
  cases ip <;> unfold IsInternet <;> infer_instance

/-- The contract of `getaddrinfo` for a numeric service: an internet address
carries its port. The address itself may be any. -/
def Answers (service : Bytes) (addr : SockAddr) : Prop :=
  IsInternet addr.ip → decimal addr.port = service

instance (service : Bytes) (addr : SockAddr) : Decidable (Answers service addr) := by
  unfold Answers
  infer_instance

/-- Where a thread is in `vwasm_http_pool_resolve`. -/
inductive Phase where
  | idle
  | called (c : Call)
  | missed (c : Call)
  | answered (c : Call) (addr : SockAddr)

/-- The cache and the threads. `answers` and `returns` are ghost data: what
`getaddrinfo` has answered to which call, and what the calls have returned. -/
structure Resolver where
  cache : List DnsEntry := []
  clock : ℤ := 0
  calls : ℕ := 0
  threads : ℕ → Phase := fun _ => .idle
  answers : List (Call × SockAddr) := []
  returns : List (Call × Option SockAddr) := []

inductive Action where
  | call (request : Request) (now : ℤ)
  | lookup
  | answer (addr : Option SockAddr)
  | store

def Resolver.goto (r : Resolver) (t : ℕ) (phase : Phase) : Resolver :=
  { r with threads := Function.update r.threads t phase }

def Resolver.finish (r : Resolver) (t : ℕ) (c : Call) (addr : Option SockAddr) : Resolver :=
  { r.goto t .idle with returns := r.returns ++ [(c, addr)] }

/-- A step of a thread; the clock does not run backwards. -/
def resolveStep (ttl : ℤ) (r : Resolver) (l : ℕ × Action) : Option Resolver :=
  match r.threads l.1, l.2 with
  | .idle, .call request now =>
    if r.clock ≤ now then
      some { r.goto l.1 (.called ⟨r.calls, request, now⟩) with clock := now, calls := r.calls + 1 }
    else none
  | .called c, .lookup =>
    match dnsLookup r.cache ttl c.started c.request.host with
    | some addr => some (r.finish l.1 c (some (addr.setPort c.request.port)))
    | none => some (r.goto l.1 (.missed c))
  | .missed c, .answer none => some (r.finish l.1 c none)
  | .missed c, .answer (some addr) =>
    if Answers (portStr c.request.port) addr then
      some { r.goto l.1 (.answered c addr) with answers := r.answers ++ [(c, addr)] }
    else none
  | .answered c addr, .store =>
    some ({ r with cache := dnsStore r.cache c.started c.request.host addr }.finish l.1 c (some addr))
  | _, _ => none

/-- Runs of any number of threads on a new cache. -/
def ResolveRun (ttl : ℤ) : List (ℕ × Action) → Resolver → Prop :=
  Run (fun r l r' => resolveStep ttl r l = some r') {}

/-- The address is an answer for the host of the call, to the call itself or to
one that started less than `ttl` before it, with the port of the call. -/
structure Served (ttl : ℤ) (answers : List (Call × SockAddr)) (c : Call) (addr : SockAddr) :
    Prop where
  answered : ∃ a ∈ answers, a.1.request.host = c.request.host ∧ a.2.ip = addr.ip ∧
    (a.1 = c ∨ c.started - a.1.started < ttl)
  port : IsInternet addr.ip → addr.port = c.request.port

section Store

/-- The slot of the host, a new slot, or the first one. -/
theorem dnsStore_cases (cache : List DnsEntry) (now : ℤ) (host : Bytes) (addr : SockAddr)
    (hhost : host.length ≤ 255) (hlen : cache.length ≤ dnsCacheCapacity) :
    (∃ i, (cache.map DnsEntry.host)[i]? = some host ∧
      dnsStore cache now host addr = cache.set i ⟨host, addr, now, true⟩) ∨
    host ∉ cache.map DnsEntry.host ∧ (cache.length < dnsCacheCapacity ∧
      dnsStore cache now host addr = cache ++ [⟨host, addr, now, true⟩] ∨
      dnsStore cache now host addr = cache.set 0 ⟨host, addr, now, true⟩) := by
  rw [dnsStore, List.take_of_length_le hhost]
  rcases hidx : cache.findIdx? fun e => e.host == host with _ | i
  · right
    have hnew : host ∉ cache.map DnsEntry.host := by
      intro hmem
      obtain ⟨e, he, heq⟩ := List.mem_map.mp hmem
      exact absurd heq (by simpa using List.findIdx?_eq_none_iff.mp hidx e he)
    refine ⟨hnew, ?_⟩
    rw [hidx, Option.getD_none]
    rcases Nat.lt_or_ge cache.length dnsCacheCapacity with hroom | hfull
    · left
      rw [if_neg (Nat.not_le.mpr hroom), if_pos rfl]
      exact ⟨hroom, rfl⟩
    · right
      have hne : ¬ 0 = cache.length := by
        rw [dnsCacheCapacity] at hfull
        omega
      rw [if_pos hfull, if_neg hne]
  · left
    obtain ⟨hi, heq, _⟩ := List.findIdx?_eq_some_iff_getElem.mp hidx
    refine ⟨i, ?_, ?_⟩
    · rw [List.getElem?_map, List.getElem?_eq_getElem hi, Option.map_some, eq_of_beq heq]
    · have hslot : ¬ dnsCacheCapacity ≤ i := by omega
      rw [hidx, Option.getD_some, if_neg hslot, if_neg (Nat.ne_of_lt hi)]

theorem dnsStore_length (cache : List DnsEntry) (now : ℤ) (host : Bytes) (addr : SockAddr)
    (hhost : host.length ≤ 255) (hlen : cache.length ≤ dnsCacheCapacity) :
    (dnsStore cache now host addr).length ≤ dnsCacheCapacity := by
  rcases dnsStore_cases cache now host addr hhost hlen with
    ⟨i, _, hstore⟩ | ⟨_, ⟨hroom, hstore⟩ | hstore⟩
  · rwa [hstore, List.length_set]
  · rw [hstore, List.length_append, List.length_singleton]
    omega
  · rwa [hstore, List.length_set]

theorem dnsStore_distinct (cache : List DnsEntry) (now : ℤ) (host : Bytes) (addr : SockAddr)
    (hhost : host.length ≤ 255) (hlen : cache.length ≤ dnsCacheCapacity)
    (h : (cache.map DnsEntry.host).Nodup) :
    ((dnsStore cache now host addr).map DnsEntry.host).Nodup := by
  rcases dnsStore_cases cache now host addr hhost hlen with
    ⟨i, hi, hstore⟩ | ⟨hnew, ⟨_, hstore⟩ | hstore⟩
  · obtain ⟨hlt, hget⟩ := List.getElem?_eq_some_iff.mp hi
    rw [hstore, List.map_set, ← hget, List.set_getElem_self]
    exact h
  · rw [hstore, List.map_append]
    exact List.nodup_append.mpr ⟨h, List.nodup_singleton _, by simpa using hnew⟩
  · rw [hstore, List.map_set]
    exact h.set hnew

theorem mem_dnsStore (cache : List DnsEntry) (now : ℤ) (host : Bytes) (addr : SockAddr)
    (hhost : host.length ≤ 255) (hlen : cache.length ≤ dnsCacheCapacity) (e : DnsEntry)
    (he : e ∈ dnsStore cache now host addr) : e ∈ cache ∨ e = ⟨host, addr, now, true⟩ := by
  rcases dnsStore_cases cache now host addr hhost hlen with
    ⟨i, _, hstore⟩ | ⟨_, ⟨_, hstore⟩ | hstore⟩
  · exact List.mem_or_eq_of_mem_set (hstore ▸ he)
  · rw [hstore, List.mem_append, List.mem_singleton] at he
    exact he
  · exact List.mem_or_eq_of_mem_set (hstore ▸ he)

end Store

section Alone

/-- A call that no other one interrupts is `vwasm_http_pool_resolve` taken as one
operation. -/
theorem exec_alone (ttl now : ℤ) (r : Resolver) (t : ℕ) (request : Request)
    (answer : Option SockAddr) (hidle : r.threads t = .idle) (hclock : r.clock ≤ now)
    (hanswer : ∀ addr, answer = some addr → Answers (portStr request.port) addr) :
    let resolved := vwasmHttpPoolResolve r.cache ttl now request.host request.port answer
    ∃ actions, (exec (resolveStep ttl) r ((.call request now :: actions).map (t, ·))).map
        (fun r' => (r'.cache, r'.returns)) =
      some (resolved.2, r.returns ++ [(⟨r.calls, request, now⟩, resolved.1)]) := by
  rcases hlookup : dnsLookup r.cache ttl now request.host with _ | addr
  · rcases answer with _ | addr
    · refine ⟨[.lookup, .answer none], ?_⟩
      simp [exec, resolveStep, hidle, hclock, hlookup, Resolver.goto, Resolver.finish,
        vwasmHttpPoolResolve]
    · refine ⟨[.lookup, .answer (some addr), .store], ?_⟩
      simp [exec, resolveStep, hidle, hclock, hlookup, hanswer addr rfl, Resolver.goto,
        Resolver.finish, vwasmHttpPoolResolve]
  · refine ⟨[.lookup], ?_⟩
    simp [exec, resolveStep, hidle, hclock, hlookup, Resolver.goto, Resolver.finish,
      vwasmHttpPoolResolve]

end Alone

section Runs

variable {ttl : ℤ}

/-- Entries, pending writes and returned addresses come from answers. -/
structure Traced (ttl : ℤ) (r : Resolver) : Prop where
  distinct : (r.cache.map DnsEntry.host).Nodup
  bounded : r.cache.length ≤ dnsCacheCapacity
  entries : ∀ e ∈ r.cache, ∃ a ∈ r.answers,
    a.1.request.host = e.host ∧ a.1.started = e.resolvedAt ∧ a.2 = e.addr
  pending : ∀ t c addr, r.threads t = .answered c addr →
    (c, addr) ∈ r.answers ∧ Answers (portStr c.request.port) addr
  served : ∀ c addr, (c, some addr) ∈ r.returns → Served ttl r.answers c addr

theorem Served.mono {answers answers' : List (Call × SockAddr)} {c : Call} {addr : SockAddr}
    (h : Served ttl answers c addr) (hsub : answers ⊆ answers') : Served ttl answers' c addr := by
  obtain ⟨a, ha, hrest⟩ := h.answered
  exact ⟨⟨a, hsub ha, hrest⟩, h.port⟩

/-- The port string determines the port. -/
theorem Answers.port_eq {request : Request} {addr : SockAddr}
    (h : Answers (portStr request.port) addr) (hip : IsInternet addr.ip) :
    addr.port = request.port := by
  have hdigits := length_decimal_port request.port request.port_le
  have hport := h hip
  rw [portStr, List.take_of_length_le (by omega)] at hport
  exact decimal_injective hport

theorem setPort_ip (addr : SockAddr) (port : ℕ) : (addr.setPort port).ip = addr.ip := by
  rw [SockAddr.setPort]
  split <;> rfl

theorem setPort_port (addr : SockAddr) (port : ℕ) (h : IsInternet addr.ip) :
    (addr.setPort port).port = port := by
  rw [SockAddr.setPort]
  split
  next hip =>
    rw [hip] at h
    exact h.elim
  next => rfl

/-- A hit serves the call. -/
theorem Traced.hit {r : Resolver} (h : Traced ttl r) (c : Call) (addr : SockAddr)
    (hit : dnsLookup r.cache ttl c.started c.request.host = some addr) :
    Served ttl r.answers c (addr.setPort c.request.port) := by
  obtain ⟨e, hfind, rfl⟩ := Option.map_eq_some_iff.mp hit
  obtain ⟨a, ha, hhost, hstarted, haddr⟩ := h.entries e (List.mem_of_find?_eq_some hfind)
  have hfresh := List.find?_some hfind
  simp only [Bool.and_eq_true, beq_iff_eq, decide_eq_true_eq] at hfresh
  refine ⟨⟨a, ha, hhost.trans hfresh.1.2, ?_, Or.inr ?_⟩, ?_⟩
  · rw [haddr, setPort_ip]
  · rw [hstarted]
    exact hfresh.2
  · rw [setPort_ip]
    exact setPort_port e.addr c.request.port

theorem goto_phase (r : Resolver) (t t' : ℕ) (phase phase' : Phase)
    (h : (r.goto t phase).threads t' = phase') : phase = phase' ∨ r.threads t' = phase' := by
  by_cases hsame : t' = t
  · rw [hsame] at h
    exact Or.inl ((Function.update_self ..).symm.trans h)
  · exact Or.inr ((Function.update_of_ne hsame ..).symm.trans h)

/-- A thread that moves on without an answer of its own. -/
theorem Traced.goto {r : Resolver} (h : Traced ttl r) (t : ℕ) (phase : Phase)
    (hphase : ∀ c addr, phase ≠ .answered c addr) : Traced ttl (r.goto t phase) where
  distinct := h.distinct
  bounded := h.bounded
  entries := h.entries
  pending t' c addr ht' := by
    rcases goto_phase r t t' phase _ ht' with hnew | hold
    · exact absurd hnew (hphase c addr)
    · exact h.pending t' c addr hold
  served := h.served

theorem Traced.finish {r : Resolver} (h : Traced ttl r) (t : ℕ) (c : Call)
    (result : Option SockAddr) (hserved : ∀ addr, result = some addr → Served ttl r.answers c addr) :
    Traced ttl (r.finish t c result) where
  distinct := h.distinct
  bounded := h.bounded
  entries := h.entries
  pending := (h.goto t .idle (by simp)).pending
  served d addr hmem := by
    rcases List.mem_append.mp hmem with hold | hnew
    · exact h.served d addr hold
    · obtain ⟨rfl, rfl⟩ := Prod.mk.inj (List.mem_singleton.mp hnew)
      exact hserved addr rfl

theorem Traced.answer {r : Resolver} (h : Traced ttl r) (t : ℕ) (c : Call) (addr : SockAddr)
    (hanswers : Answers (portStr c.request.port) addr) :
    Traced ttl { r.goto t (.answered c addr) with answers := r.answers ++ [(c, addr)] } where
  distinct := h.distinct
  bounded := h.bounded
  entries e he := by
    obtain ⟨a, ha, hrest⟩ := h.entries e he
    exact ⟨a, List.mem_append_left _ ha, hrest⟩
  pending t' d addr' ht' := by
    rcases goto_phase r t t' _ _ ht' with hnew | hold
    · obtain ⟨rfl, rfl⟩ := Phase.answered.inj hnew
      exact ⟨List.mem_append_right _ (List.mem_singleton_self _), hanswers⟩
    · obtain ⟨hmem, hport⟩ := h.pending t' d addr' hold
      exact ⟨List.mem_append_left _ hmem, hport⟩
  served d addr' hmem := (h.served d addr' hmem).mono (List.subset_append_left ..)

theorem Traced.store {r : Resolver} (h : Traced ttl r) (t : ℕ) (c : Call) (addr : SockAddr)
    (hphase : r.threads t = .answered c addr) :
    Traced ttl { r with cache := dnsStore r.cache c.started c.request.host addr } where
  distinct := dnsStore_distinct _ _ _ _ c.request.host_le h.bounded h.distinct
  bounded := dnsStore_length _ _ _ _ c.request.host_le h.bounded
  entries e he := by
    rcases mem_dnsStore _ _ _ _ c.request.host_le h.bounded e he with hold | rfl
    · exact h.entries e hold
    · exact ⟨(c, addr), (h.pending t c addr hphase).1, rfl, rfl, rfl⟩
  pending := h.pending
  served := h.served

theorem resolveStep_traced (r r' : Resolver) (l : ℕ × Action)
    (hstep : resolveStep ttl r l = some r') (h : Traced ttl r) : Traced ttl r' := by
  rw [resolveStep] at hstep
  split at hstep
  next request now hphase _ =>
    split at hstep
    · injection hstep with hstep
      rw [← hstep]
      have hgoto := h.goto l.1 (.called ⟨r.calls, request, now⟩) (by simp)
      exact ⟨hgoto.distinct, hgoto.bounded, hgoto.entries, hgoto.pending, hgoto.served⟩
    · contradiction
  next c hphase _ =>
    split at hstep
    next addr hit =>
      injection hstep with hstep
      rw [← hstep]
      refine h.finish l.1 c _ fun addr' haddr' => ?_
      rw [← Option.some.inj haddr']
      exact h.hit c addr hit
    next =>
      injection hstep with hstep
      rw [← hstep]
      exact h.goto l.1 _ (by simp)
  next c hphase _ =>
    injection hstep with hstep
    rw [← hstep]
    exact h.finish l.1 c none (by simp)
  next c addr hphase _ =>
    split at hstep
    next hanswers =>
      injection hstep with hstep
      rw [← hstep]
      exact h.answer l.1 c addr hanswers
    next => contradiction
  next c addr hphase _ =>
    injection hstep with hstep
    rw [← hstep]
    obtain ⟨hmem, hport⟩ := h.pending l.1 c addr hphase
    refine (h.store l.1 c addr hphase).finish l.1 c (some addr) fun addr' haddr' => ?_
    rw [← Option.some.inj haddr']
    exact ⟨⟨(c, addr), hmem, rfl, rfl, Or.inl rfl⟩, hport.port_eq⟩
  next => contradiction

/-- Over every run the cache holds at most 64 hosts, each once, and every call
that returns an address returns an answer for its own host that is its own or
fresh, with its own port. -/
theorem resolveRun_served (ttl : ℤ) (ls : List (ℕ × Action)) (r : Resolver)
    (hrun : ResolveRun ttl ls r) :
    (r.cache.map DnsEntry.host).Nodup ∧ r.cache.length ≤ 64 ∧
      ∀ c addr, (c, some addr) ∈ r.returns → Served ttl r.answers c addr := by
  have htraced : Traced ttl r := hrun.invariant (Traced ttl) (fun r l r' => resolveStep_traced r r' l)
    ⟨List.nodup_nil, Nat.zero_le _, by simp, by simp, by simp⟩
  exact ⟨htraced.distinct, htraced.bounded, htraced.served⟩

def upRequest (port : UInt16) : Request :=
  ⟨ascii "up", port.toNat, by decide, Nat.le_of_lt_succ port.toNat_lt⟩

/-- Two threads miss the same host; the second one's answer replaces the first
one's, and serves a third call on another port. -/
def racingCalls : List (ℕ × Action) :=
  [(0, .call (upRequest 80) 5), (1, .call (upRequest 80) 6), (0, .lookup), (1, .lookup),
    (0, .answer (some ⟨.v4 0x08080808, 80⟩)), (1, .answer (some ⟨.v4 0x08080404, 80⟩)), (0, .store),
    (2, .call (upRequest 443) 7), (1, .store), (2, .lookup)]

theorem racingCalls_served :
    ∃ r, ResolveRun 60 racingCalls r ∧ r.cache.length = 1 ∧
      r.returns.getLast?.map Prod.snd = some (some ⟨.v4 0x08080404, 443⟩) ∧
      ∀ c addr, (c, some addr) ∈ r.returns → Served 60 r.answers c addr := by
  obtain ⟨r, hr⟩ := Option.isSome_iff_exists.mp
    (show (exec (resolveStep 60) {} racingCalls).isSome by decide +kernel)
  have hstate : (exec (resolveStep 60) {} racingCalls).map
      (fun r => (r.cache.length, r.returns.getLast?.map Prod.snd)) =
      some (1, some (some ⟨.v4 0x08080404, 443⟩)) := by decide +kernel
  rw [hr, Option.map_some, Option.some.injEq, Prod.mk.injEq] at hstate
  exact ⟨r, Run.of_exec hr, hstate.1, hstate.2,
    (resolveRun_served 60 racingCalls r (Run.of_exec hr)).2.2⟩

end Runs

end VmodWasm.DnsCache
