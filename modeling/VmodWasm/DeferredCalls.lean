import VmodWasm.CallBudget
import VmodWasm.Verdict
import Mathlib.Data.List.DropRight

/-!
Deferred delivery of callout responses. Responses stored by the headers
callback are handed to `proxy_on_http_call_response` in a safe loop over the
response tree, whose callbacks may store further responses. The tree is
compared with the successful callouts of the log, and the loop with the tree.
-/
namespace VmodWasm.DeferredCalls

open ByteStrings ProxyContext HttpCall HostCalls Execute Verdict CallBudget Lib.KeyedList
  Lib.Interaction

variable {σ : Type}

def okToken : Event → Option ℕ
  | .httpCall .ok (some t) => some t
  | _ => none

/-- The tokens of the callouts that returned `PROXY_OK`, in order. -/
def okTokens (log : List Event) : List ℕ := log.filterMap okToken

def response : Event → Option (List ℤ × Option ℕ)
  | .entered .httpCallResponse args active => some (args, active)
  | _ => none

/-- The response callbacks of a log: arguments and active call of each. -/
def responses (log : List Event) : List (List ℤ × Option ℕ) := log.filterMap response

/-- What follows the last response callback's entry; all, if there is none. -/
def afterLastResponse (log : List Event) : List Event :=
  log.rtakeWhile fun e => (response e).isNone

@[simp] theorem okTokens_append (log log' : List Event) :
    okTokens (log ++ log') = okTokens log ++ okTokens log' :=
  List.filterMap_append

@[simp] theorem responses_append (log log' : List Event) :
    responses (log ++ log') = responses log ++ responses log' :=
  List.filterMap_append

theorem afterLastResponse_self (log : List Event) (h : responses log = []) :
    afterLastResponse log = log := by
  apply List.rtakeWhile_eq_self_iff.mpr
  intro e he
  rw [List.filterMap_eq_nil_iff.mp h e he]
  rfl

theorem afterLastResponse_split (log log' : List Event) (e : Event) (he : (response e).isSome)
    (h : responses log' = []) : afterLastResponse (log ++ e :: log') = log' := by
  have hall : ∀ a ∈ log'.reverse, (response a).isNone = true := by
    intro a ha
    rw [List.filterMap_eq_nil_iff.mp h a (List.mem_reverse.mp ha)]
    rfl
  rw [afterLastResponse, List.rtakeWhile, List.reverse_append, List.reverse_cons,
    List.append_assoc, List.takeWhile_append_of_pos hall]
  simp [Option.isSome_iff_ne_none.mp he]

section Call

variable (hasPool : Bool) (env : CallEnv) (ctx : ProxyCtx) (mem : Bytes) (args : HttpCallArgs)

theorem okTokens_exchange (p : Prepared) : okTokens (exchange hasPool env p).1 = [] := by
  obtain ⟨rest, hrest, haft⟩ := exchange_events hasPool env p
  rw [hrest]
  apply List.filterMap_eq_nil_iff.mpr
  intro e he
  rcases List.mem_cons.mp he with rfl | he
  · rfl
  · have h := haft e he
    cases e <;> simp_all [isAftermath, okToken]

/-- With room for a token, the response is stored last in the tree, or the tree
is as before. -/
theorem storeResponse_tree (raw : Bytes) (tokenPtr : UInt32)
    (hbound : ∀ e ∈ ctx.httpCalls, e.tokenId ≤ ctx.httpCallNextToken)
    (hroom : ctx.httpCallNextToken + 1 < 2 ^ 32) (r : HttpCallResult)
    (hr : storeResponse env ctx mem tokenPtr raw = r) :
    r.ctx.httpCallNextToken = ctx.httpCallNextToken + 1 ∧
      ((r.status = .ok ∧ ∃ entry, r.ctx.httpCalls = ctx.httpCalls ++ [entry] ∧
          entry.tokenId = ctx.httpCallNextToken + 1) ∨
        (r.status ≠ .ok ∧ r.ctx.httpCalls = ctx.httpCalls)) := by
  subst hr
  have htoken : u32 (ctx.httpCallNextToken + 1) = ctx.httpCallNextToken + 1 := u32_of_lt hroom
  have hentry (t : ℕ) : (parseResponse t raw).tokenId = t := by
    unfold parseResponse
    split <;> rfl
  have hlast : ∀ e ∈ ctx.httpCalls,
      e.tokenId < (parseResponse (ctx.httpCallNextToken + 1) raw).tokenId := by
    intro e he
    rw [hentry]
    exact Nat.lt_succ_of_le (hbound e he)
  unfold storeResponse
  simp only [htoken]
  split
  · exact ⟨rfl, Or.inr ⟨by simp, rfl⟩⟩
  · rw [insertKeyed_last _ _ _ hlast]
    split
    · refine ⟨rfl, Or.inr ⟨by simp, ?_⟩⟩
      have hremove := removeKeyed_last HttpCallEntry.tokenId _ _ hlast
      rw [hentry] at hremove
      exact hremove
    · exact ⟨rfl, Or.inl ⟨rfl, _, rfl, hentry _⟩⟩

/-- A callout that succeeds adds its token and its response, one that does not
adds neither. -/
structure Records (ctx : ProxyCtx) (r : HttpCallResult) : Prop where
  mono : ctx.httpCallNextToken ≤ r.ctx.httpCallNextToken
  next : r.ctx.httpCallNextToken ≤ ctx.httpCallNextToken + attemptCount r.events
  tree : (∃ entry, r.ctx.httpCalls = ctx.httpCalls ++ [entry] ∧
      ctx.httpCallNextToken < entry.tokenId ∧ entry.tokenId = r.ctx.httpCallNextToken ∧
      okTokens r.events = [entry.tokenId]) ∨
    (r.ctx.httpCalls = ctx.httpCalls ∧ okTokens r.events = [])

theorem attemptCount_exchange (p : Prepared) : 0 < attemptCount (exchange hasPool env p).1 := by
  obtain ⟨rest, hrest, _⟩ := exchange_events hasPool env p
  rw [hrest]
  exact attemptCount_pos _ _ _ _ _ (List.mem_cons_self ..)

theorem pwProxyHttpCall_records
    (hbound : ∀ e ∈ ctx.httpCalls, e.tokenId ≤ ctx.httpCallNextToken) (r : HttpCallResult)
    (hr : pwProxyHttpCall hasPool env ctx mem args = r)
    (hroom : ctx.httpCallNextToken + attemptCount r.events < 2 ^ 32) : Records ctx r := by
  rcases pwProxyHttpCall_cases hasPool env ctx mem args r hr with
    ⟨_, _, rfl⟩ | ⟨_, ⟨_, _, rfl⟩ | ⟨p, _, ⟨events, status, hx, rfl⟩ |
      ⟨events, raw, stored, hx, hs, rfl⟩⟩⟩
  · exact ⟨Nat.le_refl _, Nat.le_add_right _ _, Or.inr ⟨rfl, by simp [okTokens, okToken]⟩⟩
  · exact ⟨Nat.le_refl _, Nat.le_add_right _ _, Or.inr ⟨rfl, by simp [okTokens, okToken]⟩⟩
  · have hquiet := okTokens_exchange hasPool env p
    rw [hx] at hquiet
    refine ⟨Nat.le_refl _, Nat.le_add_right _ _, Or.inr ⟨rfl, ?_⟩⟩
    rw [okTokens_append, hquiet]
    simp [okTokens, okToken]
  · have hquiet := okTokens_exchange hasPool env p
    have hpos := attemptCount_exchange hasPool env p
    rw [hx] at hquiet hpos
    dsimp only at hpos
    simp only [attemptCount_append] at hroom
    have hfits : ctx.httpCallNextToken + 1 < 2 ^ 32 := by omega
    obtain ⟨hnext, htree⟩ :=
      storeResponse_tree env (countCall ctx) mem raw args.tokenPtr hbound hfits stored hs
    have hnext : stored.ctx.httpCallNextToken = ctx.httpCallNextToken + 1 := hnext
    rcases htree with ⟨hok, entry, hcalls, htoken⟩ | ⟨hbad, hcalls⟩
    · have htoken : entry.tokenId = ctx.httpCallNextToken + 1 := htoken
      refine ⟨by dsimp only; omega, by simp only [attemptCount_append]; omega,
        Or.inl ⟨entry, hcalls, by omega, by dsimp only; omega, ?_⟩⟩
      rw [okTokens_append, hquiet, hok]
      simp [okTokens, okToken, hnext, htoken]
    · refine ⟨by dsimp only; omega, by simp only [attemptCount_append]; omega,
        Or.inr ⟨hcalls, ?_⟩⟩
      rw [okTokens_append, hquiet]
      simp only [if_neg hbad]
      simp [okTokens, okToken]

end Call

theorem responses_call (hasPool : Bool) (env : CallEnv) (ctx : ProxyCtx) (mem : Bytes)
    (args : HttpCallArgs) : responses (pwProxyHttpCall hasPool env ctx mem args).events = [] := by
  obtain ⟨status, token, hev | ⟨p, rest, _, _, _, hev, haft⟩⟩ :=
    pwProxyHttpCall_events hasPool env ctx mem args
  · rw [hev]
    rfl
  · have hrest : responses rest = [] := by
      apply List.filterMap_eq_nil_iff.mpr
      intro e he
      have h := haft e he
      cases e <;> simp_all [isAftermath, response]
    rw [hev, responses_append]
    simpa [responses, response] using hrest

/-- Connection attempts so far, which bound the tokens handed out. -/
def attempts (h : HostState) : ℕ := attemptCount h.log

theorem attempts_mono (h h' : HostState) (hlog : h.log <+: h'.log) : attempts h ≤ attempts h' := by
  obtain ⟨new, hnew⟩ := hlog
  rw [attempts, attempts, ← hnew, attemptCount_append]
  exact Nat.le_add_right _ _

/-- The tree holds the responses of the successful callouts, in order. -/
structure Booked (h : HostState) : Prop where
  ascending : Ascending HttpCallEntry.tokenId h.ctx.httpCalls
  bounded : ∀ e ∈ h.ctx.httpCalls, e.tokenId ≤ h.ctx.httpCallNextToken
  counted : h.ctx.httpCallNextToken ≤ attempts h
  tokens : h.ctx.httpCalls.map HttpCallEntry.tokenId = okTokens h.log

/-- What happens between two entries of response callbacks, as long as there
are not more attempts than a token can number. -/
structure Advances (h h' : HostState) : Prop where
  events : ∃ new, h'.log = h.log ++ new ∧ responses new = []
  booked : attempts h' < 2 ^ 32 → Booked h →
    Booked h' ∧ ∃ new, h'.ctx.httpCalls = h.ctx.httpCalls ++ new

theorem Advances.attempts_le {h h' : HostState} (ha : Advances h h') :
    attempts h ≤ attempts h' := by
  obtain ⟨new, hnew, _⟩ := ha.events
  exact attempts_mono h h' ⟨new, hnew.symm⟩

theorem Advances.refl (h : HostState) : Advances h h where
  events := ⟨[], by simp, rfl⟩
  booked _ hb := ⟨hb, [], by simp⟩

theorem Advances.trans {a b c : HostState} (hab : Advances a b) (hbc : Advances b c) :
    Advances a c where
  events := by
    obtain ⟨new, hnew, hquiet⟩ := hab.events
    obtain ⟨new', hnew', hquiet'⟩ := hbc.events
    exact ⟨new ++ new', by rw [hnew', hnew, List.append_assoc], by simp [hquiet, hquiet']⟩
  booked hroom ha := by
    obtain ⟨hb, new, hnew⟩ := hab.booked (Nat.lt_of_le_of_lt hbc.attempts_le hroom) ha
    obtain ⟨hc, new', hnew'⟩ := hbc.booked hroom hb
    exact ⟨hc, new ++ new', by rw [hnew', hnew, List.append_assoc]⟩

/-- Steps that leave the tree and the tokens alone. -/
theorem advances_quiet (h h' : HostState) (new : List Event)
    (htree : h'.ctx.httpCalls = h.ctx.httpCalls)
    (hnext : h'.ctx.httpCallNextToken = h.ctx.httpCallNextToken)
    (hlog : h'.log = h.log ++ new) (hok : okTokens new = []) (hquiet : responses new = []) :
    Advances h h' where
  events := ⟨new, hlog, hquiet⟩
  booked _ hb := by
    refine ⟨⟨?_, ?_, ?_, ?_⟩, [], by rw [htree, List.append_nil]⟩
    · rw [htree]
      exact hb.ascending
    · rw [htree, hnext]
      exact hb.bounded
    · rw [hnext]
      exact hb.counted.trans (attempts_mono h h' ⟨new, hlog.symm⟩)
    · rw [htree, hlog, okTokens_append, hok, List.append_nil]
      exact hb.tokens

theorem advances_setCtx (h : HostState) (f : ProxyCtx → ProxyCtx)
    (htree : ∀ ctx, (f ctx).httpCalls = ctx.httpCalls)
    (hnext : ∀ ctx, (f ctx).httpCallNextToken = ctx.httpCallNextToken) : Advances h (h.setCtx f) :=
  advances_quiet h _ [] (htree _) (hnext _) (List.append_nil _).symm rfl rfl

/-- What the log shows besides callouts does not matter. -/
theorem Booked.observe {h : HostState} (hb : Booked h) (e : Event) (hok : okToken e = none) :
    Booked (h.observe e) where
  ascending := hb.ascending
  bounded := hb.bounded
  counted := hb.counted.trans (attempts_mono h _ ⟨[e], rfl⟩)
  tokens := by
    have hlog : okTokens (h.log ++ [e]) = okTokens h.log := by
      simp [okTokens, hok]
    exact hb.tokens.trans hlog.symm

theorem advances_observe (h : HostState) (e : Event) (hok : okToken e = none)
    (hquiet : response e = none) : Advances h (h.observe e) :=
  advances_quiet h _ [e] rfl rfl rfl (by simp [okTokens, hok])
    (by simp [responses, hquiet])

/-- The tree grows with the tokens of a callout. -/
theorem Booked.call {h : HostState} (hb : Booked h) (r : HttpCallResult) (hr : Records h.ctx r) :
    Booked ⟨r.ctx, h.log ++ r.events, h.calls + 1⟩ ∧
      ∃ new, r.ctx.httpCalls = h.ctx.httpCalls ++ new := by
  have hcounted : r.ctx.httpCallNextToken ≤ attemptCount (h.log ++ r.events) := by
    rw [attemptCount_append]
    exact hr.next.trans (Nat.add_le_add_right hb.counted _)
  rcases hr.tree with ⟨entry, hcalls, hlt, htoken, hok⟩ | ⟨hcalls, hok⟩
  · have hbelow : ∀ e ∈ h.ctx.httpCalls, e.tokenId < entry.tokenId := fun e he =>
      Nat.lt_of_le_of_lt (hb.bounded e he) hlt
    refine ⟨⟨?_, ?_, ?_, ?_⟩, [entry], hcalls⟩
    · rw [hcalls]
      exact ascending_append_last _ entry _ hb.ascending hbelow
    · intro e he
      rw [hcalls, List.mem_append, List.mem_singleton] at he
      rcases he with he | rfl
      · exact (hb.bounded e he).trans hr.mono
      · exact htoken.le
    · exact hcounted
    · rw [hcalls, okTokens_append, hok, List.map_append, hb.tokens]
      rfl
  · refine ⟨⟨?_, ?_, ?_, ?_⟩, [], by rw [hcalls, List.append_nil]⟩
    · rw [hcalls]
      exact hb.ascending
    · intro e he
      rw [hcalls] at he
      exact (hb.bounded e he).trans hr.mono
    · exact hcounted
    · rw [hcalls, okTokens_append, hok, List.append_nil]
      exact hb.tokens

theorem handle_advances (env : HostEnv) (r : Request) (h : HostState) :
    Advances h (handle env r h).2 := by
  rcases handle_cases env r h _ rfl with
    ⟨args, res, hres, hs⟩ | ⟨_, _, _, hs⟩ | ⟨_, hs⟩ | ⟨_, _, hs⟩ | ⟨_, _, hs⟩
  · rw [hs]
    refine ⟨⟨res.events, rfl, ?_⟩, ?_⟩
    · rw [← hres]
      exact responses_call ..
    · intro hroom hb
      rw [attempts, attemptCount_append] at hroom
      exact hb.call res (pwProxyHttpCall_records env.hasPool (env.call h.calls) h.ctx r.mem args
        hb.bounded res hres (Nat.lt_of_le_of_lt (Nat.add_le_add_right hb.counted _) hroom))
  · rw [hs]
    exact advances_quiet h _ _ rfl rfl rfl rfl rfl
  · rw [hs]
    exact advances_quiet h _ _ rfl rfl rfl rfl rfl
  · rw [hs]
    exact advances_quiet h _ _ rfl rfl rfl rfl rfl
  · rw [hs]
    exact advances_quiet h _ [] rfl rfl (List.append_nil _).symm rfl rfl

theorem runGuest_advances (env : HostEnv) (p : GuestProg σ) (m : Machine σ) :
    Advances m.host (runGuest env p m).2.host :=
  interp_rel (handle env) Advances Advances.refl (fun _ _ _ => Advances.trans)
    (handle_advances env) p m.host

theorem enterGuest_advances (env : HostEnv) (g : Guest σ) (cb : Callback) (args : List ℤ)
    (m : Machine σ) (hcb : cb ≠ .httpCallResponse) :
    Advances m.host (enterGuest env g cb args m).2.host := by
  have hentry : response (.entered cb args m.host.ctx.activeHttpCall) = none := by
    cases cb <;> first | rfl | contradiction
  let started := m.observe (.entered cb args m.host.ctx.activeHttpCall)
  have hrun := runGuest_advances env (g.enter cb args started.world) started
  exact ((advances_observe m.host _ rfl hentry).trans hrun).trans (advances_observe _ _ rfl rfl)

theorem callWasm_advances (env : HostEnv) (g : Guest σ) (cb : Callback) (args : List ℤ)
    (m : Machine σ) (hcb : cb ≠ .httpCallResponse) :
    Advances m.host (callWasm env g cb args m).2.host := by
  have henter := enterGuest_advances env g cb args m hcb
  unfold callWasm
  split
  · split <;> simp_all
  · exact Advances.refl _

/-- The entry of a response callback as the log shows it. -/
def responseRecord (ent : HttpCallEntry) : List ℤ × Option ℕ :=
  ([2, ent.tokenId, ent.numHeaders, ent.body.length, 0], some ent.tokenId)

/-- One turn of the loop: the entry of the callback, and then what a guest can
do without a further entry. -/
theorem deliverResponse_cases (env : HostEnv) (g : Guest σ) (ent : HttpCallEntry) (m : Machine σ) :
    ∃ entered, response entered = some (responseRecord ent) ∧ okToken entered = none ∧
      ∃ new, (deliverResponse env g ent m).host.log = m.host.log ++ entered :: new ∧
        responses new = [] ∧
        (attempts (deliverResponse env g ent m).host < 2 ^ 32 → Booked m.host →
          Booked (deliverResponse env g ent m).host ∧
            ∃ calls, (deliverResponse env g ent m).host.ctx.httpCalls =
              m.host.ctx.httpCalls ++ calls) := by
  let active := m.setCtx fun ctx => { ctx with activeHttpCall := some ent.tokenId }
  let entered := Event.entered .httpCallResponse
    [2, ent.tokenId, ent.numHeaders, ent.body.length, 0] (some ent.tokenId)
  let started := active.observe entered
  have hactive (hb : Booked m.host) : Booked active.host :=
    ⟨hb.ascending, hb.bounded, hb.counted, hb.tokens⟩
  have hrest : Advances started.host (deliverResponse env g ent m).host := by
    let ran := runGuest env (g.enter .httpCallResponse
      [2, ent.tokenId, ent.numHeaders, ent.body.length, 0] started.world) started
    have hrun : Advances started.host ran.2.host := runGuest_advances env _ started
    have hleft := advances_observe ran.2.host (.left .httpCallResponse ran.1) rfl rfl
    exact (hrun.trans hleft).trans (advances_setCtx _
      (fun ctx => { ctx with activeHttpCall := none }) (fun _ => rfl) fun _ => rfl)
  obtain ⟨new, hnew, hquiet⟩ := hrest.events
  refine ⟨entered, rfl, rfl, new, ?_, hquiet, ?_⟩
  · rw [hnew, List.append_cons]
    rfl
  · intro hroom hb
    exact hrest.booked hroom ((hactive hb).observe entered rfl)

/-- The machine on which the headers callback is called. -/
def beforeHeaders (henv : HostEnv) (env : ExecEnv) (g : Guest σ) (m : Machine σ) :
    Option (Machine σ) :=
  match instantiate henv g env.pooled.isSome m with
  | (false, _) => none
  | (true, m) =>
    let m := initCallbacks henv g env.pooled.isSome (resolveMemory g m)
    some (callIgnored henv g .contextCreate [2, 1] m)

theorem reachVerdict_headers (henv : HostEnv) (env : ExecEnv) (g : Guest σ) (phase : Phase)
    (m before : Machine σ) (h : beforeHeaders henv env g m = some before) :
    reachVerdict henv env g phase m = headersPhase henv g phase env.numHeaders before := by
  rcases hinst : instantiate henv g env.pooled.isSome m with ⟨ok, started⟩
  cases ok with
  | false => simp only [beforeHeaders, hinst, reduceCtorEq] at h
  | true =>
    simp only [beforeHeaders, hinst, Option.some.injEq] at h
    simp only [reachVerdict, hinst, h]

/-- Booked, or past the attempts that a token can number. -/
def BookedOrPast (h : HostState) : Prop := 2 ^ 32 ≤ attempts h ∨ Booked h

theorem Advances.bookedOrPast {h h' : HostState} (ha : Advances h h') (hb : BookedOrPast h) :
    BookedOrPast h' := by
  rcases Nat.lt_or_ge (attempts h') (2 ^ 32) with hlt | hge
  · rcases hb with hpast | hb
    · exact Or.inl (hpast.trans ha.attempts_le)
    · exact Or.inr (ha.booked hlt hb).1
  · exact Or.inl hge

theorem bookedOrPast_setCtx (h : HostState) (f : ProxyCtx → ProxyCtx)
    (htree : ∀ ctx, (f ctx).httpCalls = ctx.httpCalls)
    (hnext : ∀ ctx, (f ctx).httpCallNextToken = ctx.httpCallNextToken) (hb : BookedOrPast h) :
    BookedOrPast (h.setCtx f) :=
  (advances_setCtx h f htree hnext).bookedOrPast hb

theorem execInvariant_bookedOrPast (env : HostEnv) : ExecInvariant env BookedOrPast where
  handle r h hb := (handle_advances env r h).bookedOrPast hb
  entered cb args h hb := by
    rcases hb with hpast | hb
    · exact Or.inl (hpast.trans (attempts_mono h _ ⟨[_], rfl⟩))
    · exact Or.inr (hb.observe _ rfl)
  left cb outcome h hb := (advances_observe h _ rfl rfl).bookedOrPast hb
  active a h hb := bookedOrPast_setCtx h _ (fun _ => rfl) (fun _ => rfl) hb
  memory v h hb := bookedOrPast_setCtx h _ (fun _ => rfl) (fun _ => rfl) hb
  body b h hb := bookedOrPast_setCtx h _ (fun _ => rfl) (fun _ => rfl) hb
  paused h hb := bookedOrPast_setCtx h _ (fun _ => rfl) (fun _ => rfl) hb

/-- Calls before the headers phase are booked as well. -/
theorem beforeHeaders_booked (henv : HostEnv) (env : ExecEnv) (g : Guest σ) (m before : Machine σ)
    (hm : BookedOrPast m.host) (h : beforeHeaders henv env g m = some before) :
    BookedOrPast before.host := by
  have hI := execInvariant_bookedOrPast henv
  have hinst := instantiate_invariant henv _ hI.toHostInvariant g env.pooled.isSome m hm
  unfold beforeHeaders at h
  split at h
  · contradiction
  next hr =>
    rw [hr] at hinst
    injection h with h
    subst h
    exact callIgnored_invariant henv _ hI.toHostInvariant g _ _ _
      (initCallbacks_invariant henv _ hI g _ _ (hI.memory _ _ hinst))

/-- The response callback at the position of `t` is called for `t`. -/
def RespondsTo (t : ℕ) (r : List ℤ × Option ℕ) : Prop := r.1[1]? = some (t : ℤ) ∧ r.2 = some t

/-- The events of a headers phase. -/
def phaseLog (before after : HostState) : List Event := after.log.drop before.log.length

/-- Response callbacks come for successful callouts only, in ascending order,
each with its own call active; and unless a local response is in force, every
callout that succeeded in the phase got one. -/
def Answered (before after : HostState) : Prop :=
  ∃ tokens : List ℕ,
    List.Forall₂ RespondsTo tokens (responses (phaseLog before after)) ∧
    tokens.Pairwise (· < ·) ∧ (∀ t ∈ tokens, t ∈ okTokens after.log) ∧
    (after.ctx.localResponseSet = true ∨ ∀ t ∈ okTokens (phaseLog before after), t ∈ tokens)

/-- No callout succeeds after the last response callback has begun; without
one, in the whole phase. -/
def QuietEnd (before after : HostState) : Prop :=
  okTokens (afterLastResponse (phaseLog before after)) = []

theorem forall₂_respondsTo (entries : List HttpCallEntry) :
    List.Forall₂ RespondsTo (entries.map HttpCallEntry.tokenId) (entries.map responseRecord) := by
  induction entries with
  | nil => exact List.Forall₂.nil
  | cons e entries ih => exact List.Forall₂.cons ⟨rfl, rfl⟩ ih

/-- The records of the callbacks determine the tokens. -/
theorem tokens_of_respondsTo (tokens : List ℕ) (entries : List HttpCallEntry)
    (h : List.Forall₂ RespondsTo tokens (entries.map responseRecord)) :
    tokens = entries.map HttpCallEntry.tokenId := by
  induction entries generalizing tokens with
  | nil =>
    cases h
    rfl
  | cons e entries ih =>
    cases h with
    | cons ht hrest =>
      have hhead := Option.some.inj ht.2
      rw [ih _ hrest, List.map_cons, hhead]

theorem Booked.okTokens_ascending {h : HostState} (hb : Booked h) :
    (okTokens h.log).Pairwise (· < ·) := by
  rw [← hb.tokens]
  exact List.pairwise_map.mpr hb.ascending

/-- A phase without response callbacks answers nothing. -/
theorem answered_iff_of_no_responses (before after : HostState) (new : List Event)
    (hlog : after.log = before.log ++ new) (hquiet : responses new = []) :
    Answered before after ↔ after.ctx.localResponseSet = true ∨ QuietEnd before after := by
  have hphase : phaseLog before after = new := by
    rw [phaseLog, hlog, List.drop_left]
  rw [Answered, QuietEnd, hphase, hquiet, afterLastResponse_self new hquiet]
  constructor
  · rintro ⟨tokens, htokens, _, _, hlocal | hall⟩
    · exact Or.inl hlocal
    · right
      cases htokens
      exact List.eq_nil_iff_forall_not_mem.mpr fun t ht => List.not_mem_nil (hall t ht)
  · intro h
    refine ⟨[], List.Forall₂.nil, List.Pairwise.nil, by simp, ?_⟩
    rcases h with hlocal | hnone
    · exact Or.inl hlocal
    · exact Or.inr (by simp [hnone])

theorem deliverResponse_attempts (env : HostEnv) (g : Guest σ) (ent : HttpCallEntry)
    (m : Machine σ) : attempts m.host ≤ attempts (deliverResponse env g ent m).host := by
  obtain ⟨_, _, _, _, hlog, _⟩ := deliverResponse_cases env g ent m
  exact attempts_mono _ _ ⟨_, hlog.symm⟩

theorem deliverResponses_attempts (env : HostEnv) (g : Guest σ) (m : Machine σ) :
    attempts m.host ≤ attempts (deliverResponses env g m).2.host :=
  foreachSafe_invariant HttpCallEntry.tokenId _ _ _ (fun s => attempts m.host ≤ attempts s.host)
    (fun x s h => h.trans (deliverResponse_attempts env g x s)) (2 ^ 32) _ m (Nat.le_refl _)

/-- What the loop leaves behind: the callbacks of the visited entries, and,
unless it was stopped, a tree of the visited entries and of those the last
callback stored. -/
theorem deliverResponses_cases (env : HostEnv) (g : Guest σ) (m : Machine σ)
    (hb : Booked m.host) (hroom : attempts (deliverResponses env g m).2.host < 2 ^ 32)
    (hne : m.host.ctx.httpCalls ≠ []) :
    ∃ visited, Booked (deliverResponses env g m).2.host ∧
      responses (deliverResponses env g m).2.host.log =
        responses m.host.log ++ visited.map responseRecord ∧
      m.host.log <+: (deliverResponses env g m).2.host.log ∧
      (∃ rest, (deliverResponses env g m).2.host.ctx.httpCalls = visited ++ rest) ∧
      ((deliverResponses env g m).2.host.ctx.localResponseSet = true ∨
        ∃ z u, Booked (Machine.host u) ∧ m.host.log <+: u.host.log ∧
          u.host.ctx.httpCalls = visited ∧
          (deliverResponses env g m).2 = deliverResponse env g z u) := by
  have hresponses (ent : HttpCallEntry) (m : Machine σ) :
      responses (deliverResponse env g ent m).host.log =
        responses m.host.log ++ [responseRecord ent] := by
    obtain ⟨entered, hentered, _, new, hlog, hquiet, _⟩ := deliverResponse_cases env g ent m
    have hcons : responses (entered :: new) = responseRecord ent :: responses new := by
      simp [responses, hentered]
    rw [hlog, responses_append, hcons, hquiet]
  have htrace := foreachSafe_trace HttpCallEntry.tokenId (fun m : Machine σ => m.host.ctx.httpCalls)
    (deliverResponse env g) (fun m => m.host.ctx.localResponseSet) (fun m => responses m.host.log)
    responseRecord hresponses (2 ^ 32) m.host.ctx.httpCalls.head? m
  have hstart : attempts m.host < 2 ^ 32 :=
    Nat.lt_of_le_of_lt (deliverResponses_attempts env g m) hroom
  obtain ⟨x, post, hsplit⟩ := List.exists_cons_of_ne_nil hne
  obtain ⟨visited, t, hrun, hend⟩ := foreachSafe_visits HttpCallEntry.tokenId
    (fun m : Machine σ => m.host.ctx.httpCalls) (deliverResponse env g)
    (fun m => m.host.ctx.localResponseSet)
    (fun s => Booked s.host ∧ attempts s.host < 2 ^ 32 ∧ m.host.log <+: s.host.log)
    (fun s => 2 ^ 32 ≤ attempts s.host) (2 ^ 32)
    (fun s hs => hs.1.ascending)
    (fun s hs x hx => Nat.lt_of_le_of_lt ((hs.1.bounded x hx).trans hs.1.counted) hs.2.1)
    (fun x s hs => hs.trans (deliverResponse_attempts env g x s))
    (fun x s hs _ => by
      obtain ⟨_, _, _, _, hlog, _, hbooked⟩ := deliverResponse_cases env g x s
      rcases Nat.lt_or_ge (attempts (deliverResponse env g x s).host) (2 ^ 32) with hlt | hge
      · obtain ⟨hb, hgrows⟩ := hbooked hlt hs.1
        exact Or.inr ⟨⟨hb, hlt, hs.2.2.trans ⟨_, hlog.symm⟩⟩, hgrows⟩
      · exact Or.inl hge)
    (2 ^ 32) [] post x m ⟨hb, hstart, List.prefix_refl _⟩ hsplit (Nat.le_add_right _ _)
  have hloop : deliverResponses env g m = (visited, t) := by
    rw [deliverResponses, hsplit, List.head?_cons]
    exact hrun
  rw [hsplit, List.head?_cons, hrun] at htrace
  rw [hloop] at hroom ⊢
  rcases hend with hpast | ⟨⟨hbt, _, hlogt⟩, ⟨rest, hrest⟩, hstop⟩
  · exact absurd hroom (Nat.not_lt.mpr hpast)
  · refine ⟨visited, hbt, htrace, hlogt, ⟨rest, hrest⟩, ?_⟩
    rcases hstop with hstop | ⟨_, z, u, _, ⟨hbu, _, hlogu⟩, hcontents, ht⟩
    · exact Or.inl hstop
    · exact Or.inr ⟨z, u, hbu, hlogu, hcontents, ht⟩

/-- The responses of a phase, from those of the two logs. -/
theorem responses_phaseLog (before after : HostState) (entries : List HttpCallEntry)
    (hextends : before.log <+: after.log)
    (h : responses after.log = responses before.log ++ entries.map responseRecord) :
    responses (phaseLog before after) = entries.map responseRecord := by
  obtain ⟨new, hnew⟩ := hextends
  rw [← hnew, responses_append] at h
  rw [phaseLog, ← hnew, List.drop_left]
  exact List.append_cancel_left h

/-- Callbacks for the first entries of a booked tree are in turn. -/
theorem visited_inTurn (after : HostState) (visited rest : List HttpCallEntry) (hb : Booked after)
    (hcalls : after.ctx.httpCalls = visited ++ rest) :
    (visited.map HttpCallEntry.tokenId).Pairwise (· < ·) ∧
      ∀ t ∈ visited.map HttpCallEntry.tokenId, t ∈ okTokens after.log := by
  have hok : okTokens after.log =
      visited.map HttpCallEntry.tokenId ++ rest.map HttpCallEntry.tokenId := by
    rw [← hb.tokens, hcalls, List.map_append]
  have hasc := hb.okTokens_ascending
  rw [hok] at hasc ⊢
  exact ⟨(List.pairwise_append.mp hasc).1, fun t ht => List.mem_append_left _ ht⟩

/-- The phase with its delivery loop. -/
theorem deliverResponses_answered_iff (env : HostEnv) (g : Guest σ) (before m : Machine σ)
    (hadv : Advances before.host m.host) (hb : Booked m.host)
    (hroom : attempts (deliverResponses env g m).2.host < 2 ^ 32)
    (hne : m.host.ctx.httpCalls ≠ []) :
    Answered before.host (deliverResponses env g m).2.host ↔
      (deliverResponses env g m).2.host.ctx.localResponseSet = true ∨
        QuietEnd before.host (deliverResponses env g m).2.host := by
  obtain ⟨visited, hafter, hresponses, hlog, ⟨rest, hrest⟩, hend⟩ :=
    deliverResponses_cases env g m hb hroom hne
  obtain ⟨new, hnew, hquiet⟩ := hadv.events
  have hbefore : before.host.log <+: m.host.log := ⟨new, hnew.symm⟩
  have hphase : responses (phaseLog before.host (deliverResponses env g m).2.host) =
      visited.map responseRecord := by
    apply responses_phaseLog _ _ _ (hbefore.trans hlog)
    rw [hresponses, hnew, responses_append, hquiet, List.append_nil]
  obtain ⟨hasc, hmem⟩ := visited_inTurn _ visited rest hafter hrest
  have hvisited : List.Forall₂ RespondsTo (visited.map HttpCallEntry.tokenId)
      (responses (phaseLog before.host (deliverResponses env g m).2.host)) := by
    rw [hphase]
    exact forall₂_respondsTo visited
  rcases hend with hlocal | ⟨z, u, hbu, hlogu, hcontents, hlast⟩
  · exact ⟨fun _ => Or.inl hlocal, fun _ => ⟨_, hvisited, hasc, hmem, Or.inl hlocal⟩⟩
  · -- what the last callback stored is what follows its entry in the log
    obtain ⟨entered, hentered, hnotOk, tail, htail, htailQuiet, _⟩ :=
      deliverResponse_cases env g z u
    rw [← hlast] at htail
    obtain ⟨mid, hmid⟩ := hbefore.trans hlogu
    have hlogPhase : phaseLog before.host (deliverResponses env g m).2.host =
        mid ++ entered :: tail := by
      rw [phaseLog, htail, ← hmid, List.append_assoc, List.drop_left]
    have hend : QuietEnd before.host (deliverResponses env g m).2.host ↔ okTokens tail = [] := by
      rw [QuietEnd, hlogPhase, afterLastResponse_split mid tail entered (by simp [hentered])
        htailQuiet]
    have hok : okTokens (deliverResponses env g m).2.host.log =
        visited.map HttpCallEntry.tokenId ++ okTokens tail := by
      rw [htail, okTokens_append, ← hbu.tokens, hcontents]
      simp [okTokens, hnotOk]
    rw [hend]
    constructor
    · rintro ⟨tokens, htokens, _, _, hlocal | hall⟩
      · exact Or.inl hlocal
      · right
        rw [hphase] at htokens
        rw [tokens_of_respondsTo tokens visited htokens] at hall
        apply List.eq_nil_iff_forall_not_mem.mpr
        intro t ht
        have hearlier : t ∈ visited.map HttpCallEntry.tokenId := by
          apply hall
          rw [hlogPhase]
          simp only [okTokens, List.filterMap_append, List.mem_append, List.filterMap_cons, hnotOk]
          exact Or.inr ht
        have hstrict := hafter.okTokens_ascending
        rw [hok] at hstrict
        exact Nat.lt_irrefl t ((List.pairwise_append.mp hstrict).2.2 t hearlier t ht)
    · rintro (hlocal | hnone)
      · exact ⟨_, hvisited, hasc, hmem, Or.inl hlocal⟩
      · refine ⟨_, hvisited, hasc, hmem, Or.inr ?_⟩
        intro t ht
        rw [hnone, List.append_nil] at hok
        rw [← hok]
        exact List.mem_filterMap.mpr ((List.mem_filterMap.mp ht).imp fun e he =>
          ⟨List.mem_of_mem_drop he.1, he.2⟩)

theorem headersPhase_answered_iff (env : HostEnv) (g : Guest σ) (phase : Phase) (n : ℤ)
    (before : Machine σ) (hb : BookedOrPast before.host)
    (hroom : attempts (headersPhase env g phase n before).2.host < 2 ^ 32) :
    Answered before.host (headersPhase env g phase n before).2.host ↔
      (headersPhase env g phase n before).2.host.ctx.localResponseSet = true ∨
        QuietEnd before.host (headersPhase env g phase n before).2.host := by
  have hcb : phase.headersFn ≠ .httpCallResponse := by cases phase <;> decide
  have hadv := callWasm_advances env g phase.headersFn [2, n, 1] before hcb
  unfold headersPhase at hroom ⊢
  split at hroom
  next m hr =>
    -- the headers callback failed and nothing is delivered
    rw [hr] at hadv
    obtain ⟨new, hlog, hquiet⟩ := hadv.events
    exact answered_iff_of_no_responses _ _ new hlog hquiet
  next returned m hr =>
    rw [hr] at hadv
    split at hroom
    next hloop =>
      rw [if_pos hloop]
      have hm : Booked m.host := by
        rcases hadv.bookedOrPast hb with hpast | hbm
        · have hlt := Nat.lt_of_le_of_lt (deliverResponses_attempts env g m) hroom
          exact absurd hlt (Nat.not_lt.mpr hpast)
        · exact hbm
      exact deliverResponses_answered_iff env g before m hadv hm hroom hloop.1
    next hloop =>
      rw [if_neg hloop]
      obtain ⟨new, hlog, hquiet⟩ := hadv.events
      exact answered_iff_of_no_responses _ _ new hlog hquiet

/-- The limit on callouts keeps the tokens from wrapping around. -/
theorem attempts_lt_of_limit (engine : Engine σ) (env : ExecEnv) (g : Guest σ) (phase : Phase)
    (name vmConfig pluginConfig : Bytes) (w : σ) (hpos : 0 < engine.httpCallMax)
    (hmax : engine.httpCallMax < 2 ^ 32) :
    attempts (reachVerdict (hostEnv engine env) env g phase
      (startMachine engine name vmConfig pluginConfig w)).2.host < 2 ^ 32 := by
  have hwithin : WithinBudget engine.httpCallMax (reachVerdict (hostEnv engine env) env g phase
      (startMachine engine name vmConfig pluginConfig w)).2.host :=
    reachVerdict_invariant _ _ (execInvariant_withinBudget (hostEnv engine env) _ hpos hmax) g env
      phase _ ⟨rfl, Nat.le_refl 0, Nat.zero_le _⟩
  exact Nat.lt_of_le_of_lt (hwithin.counted.trans hwithin.bounded) hmax

/-- When the headers phase is concluded, its callouts are answered exactly if a
local response is in force or none of them succeeded after the last response
callback had begun. Without a limit on callouts, tokens must not have run out. -/
theorem concludedHeaders_answered_iff (engine : Engine σ) (env : ExecEnv) (g : Guest σ)
    (phase : Phase) (name vmConfig pluginConfig : Bytes) (w : σ) (before after : Machine σ)
    (d : HeadersDone)
    (hbefore : beforeHeaders (hostEnv engine env) env g
      (startMachine engine name vmConfig pluginConfig w) = some before)
    (hafter : reachVerdict (hostEnv engine env) env g phase
      (startMachine engine name vmConfig pluginConfig w) = (some d, after))
    (htokens : 0 < engine.httpCallMax ∧ engine.httpCallMax < 2 ^ 32 ∨
      attempts after.host < 2 ^ 32) :
    Answered before.host after.host ↔
      after.host.ctx.localResponseSet = true ∨ QuietEnd before.host after.host := by
  have hstart : BookedOrPast (startMachine engine name vmConfig pluginConfig w).host :=
    Or.inr ⟨List.Pairwise.nil, by simp [startMachine, setupCtx], Nat.le_refl 0, rfl⟩
  have hb := beforeHeaders_booked _ env g _ before hstart hbefore
  have hroom : attempts after.host < 2 ^ 32 := by
    rcases htokens with ⟨hpos, hmax⟩ | hfew
    · have hlt := attempts_lt_of_limit engine env g phase name vmConfig pluginConfig w hpos hmax
      rwa [hafter] at hlt
    · exact hfew
  rw [reachVerdict_headers _ env g phase _ before hbefore] at hafter
  have hiff := headersPhase_answered_iff (hostEnv engine env) g phase env.numHeaders before hb
  rw [hafter] at hiff
  exact hiff hroom

/-- A program that makes `n` callouts to the upstream in its memory and pauses. -/
def callouts : ℕ → GuestProg Unit
  | 0 => .done (.returned 1, ())
  | n + 1 => .call ⟨ascii "auth:80" ++ List.replicate 9 0, .httpCall ⟨0, 7, 0, 0, 0, 0, 0, 8⟩⟩
      fun _ => callouts n

/-- A filter that makes callouts in its headers callback and in the callbacks
for their responses. -/
def relayGuest (inHeaders inResponse : ℕ) : Guest Unit :=
  scriptedGuest [.requestHeaders, .httpCallResponse] fun cb =>
    callouts (if cb = .httpCallResponse then inResponse else inHeaders)

def relayStart (g : Guest Unit) : Machine Unit := startMachine (singleEngine g) (ascii "m") [] [] ()

def relayBefore (g : Guest Unit) : Option (Machine Unit) :=
  beforeHeaders (hostEnv (singleEngine g) answeringEnv) answeringEnv g (relayStart g)

/-- The run up to the end of its headers phase, with an upstream that answers. -/
def relayRun (g : Guest Unit) : Option HeadersDone × Machine Unit :=
  reachVerdict (hostEnv (singleEngine g) answeringEnv) answeringEnv g .request (relayStart g)

theorem relayGuest_headers_answered :
    ∃ before, relayBefore (relayGuest 2 0) = some before ∧
      okTokens (relayRun (relayGuest 2 0)).2.host.log = [1, 2] ∧
      (Answered before.host (relayRun (relayGuest 2 0)).2.host ↔
        (relayRun (relayGuest 2 0)).2.host.ctx.localResponseSet = true ∨
          QuietEnd before.host (relayRun (relayGuest 2 0)).2.host) := by
  obtain ⟨before, hbefore⟩ := Option.isSome_iff_exists.mp
    (show (relayBefore (relayGuest 2 0)).isSome by decide +kernel)
  obtain ⟨d, hd⟩ := Option.isSome_iff_exists.mp
    (show (relayRun (relayGuest 2 0)).1.isSome by decide +kernel)
  have hafter : relayRun (relayGuest 2 0) = (some d, (relayRun (relayGuest 2 0)).2) :=
    Prod.ext hd rfl
  exact ⟨before, hbefore, by decide +kernel,
    concludedHeaders_answered_iff _ _ _ _ _ _ _ _ before _ d hbefore hafter (Or.inl (by decide))⟩

/-- The callback for the only pending response makes a callout, which succeeds
under token 2 and is never answered. -/
theorem relayGuest_nested_unanswered :
    ∃ before, relayBefore (relayGuest 1 1) = some before ∧
      ((relayGuest 1 1).exports .httpCallResponse = true ∧
        (relayRun (relayGuest 1 1)).1.isSome) ∧
      (relayRun (relayGuest 1 1)).2.host.ctx.localResponseSet = false ∧
      2 ∈ okTokens (phaseLog before.host (relayRun (relayGuest 1 1)).2.host) ∧
      ¬ Answered before.host (relayRun (relayGuest 1 1)).2.host := by
  obtain ⟨before, hbefore⟩ := Option.isSome_iff_exists.mp
    (show (relayBefore (relayGuest 1 1)).isSome by decide +kernel)
  have hlog : (relayBefore (relayGuest 1 1)).map (fun m => m.host.log) = some [] := by
    decide +kernel
  rw [hbefore] at hlog
  have hphase : phaseLog before.host (relayRun (relayGuest 1 1)).2.host =
      (relayRun (relayGuest 1 1)).2.host.log := by
    rw [phaseLog, show before.host.log = [] from Option.some.inj hlog]
    rfl
  have hlocal : (relayRun (relayGuest 1 1)).2.host.ctx.localResponseSet = false := by decide +kernel
  have htwo : 2 ∈ okTokens (relayRun (relayGuest 1 1)).2.host.log := by decide +kernel
  have hone : responses (relayRun (relayGuest 1 1)).2.host.log = [([2, 1, 1, 0, 0], some 1)] := by
    decide +kernel
  refine ⟨before, hbefore, ⟨by decide, by decide +kernel⟩, hlocal, by rw [hphase]; exact htwo, ?_⟩
  rintro ⟨tokens, htokens, _, _, hset | hall⟩
  · rw [hlocal] at hset
    exact Bool.false_ne_true hset
  · rw [hphase, hone] at htokens
    rw [hphase] at hall
    have hmem := hall 2 htwo
    cases htokens with
    | cons hhead htail =>
      cases htail
      have htoken : 1 = 2 := by
        rw [List.mem_singleton] at hmem
        rw [← hmem] at hhead
        exact Option.some.inj hhead.2
      exact absurd htoken (by decide)

end VmodWasm.DeferredCalls
