import VmodWasm.Execute

/-!
What the result of a filter call says about its guest. The two result channels
of `proxy_wasm_execute` are read off its exit; here the exits are tied to what
the guest did, and the VMOD's number is compared with it.
-/
namespace VmodWasm.Verdict

open ByteStrings ProxyContext HttpCall HostCalls Execute

variable {σ : Type}

def SentLocal (log : List Event) : Prop := ∃ code, Event.localResponse code ∈ log

/-- The context flag records exactly the local responses of the run. -/
def LocalCoherent (h : HostState) : Prop :=
  h.ctx.localResponseSet = true ↔ SentLocal h.log

theorem sentLocal_append (log more : List Event) (h : ∀ e ∈ more, ∀ code, e ≠ .localResponse code) :
    SentLocal (log ++ more) ↔ SentLocal log := by
  constructor
  · rintro ⟨code, hcode⟩
    rcases List.mem_append.mp hcode with hlog | hmore
    · exact ⟨code, hlog⟩
    · exact absurd rfl (h _ hmore code)
  · rintro ⟨code, hcode⟩
    exact ⟨code, List.mem_append_left _ hcode⟩

theorem pwProxyHttpCall_no_local (hasPool : Bool) (env : CallEnv) (ctx : ProxyCtx) (mem : Bytes)
    (args : HttpCallArgs) :
    ∀ e ∈ (pwProxyHttpCall hasPool env ctx mem args).events, ∀ code, e ≠ .localResponse code := by
  intro e he code hcode
  subst hcode
  obtain ⟨status, token, hev | ⟨p, rest, _, _, _, hev, haft⟩⟩ :=
    pwProxyHttpCall_events hasPool env ctx mem args
  · rw [hev] at he
    simp at he
  · rw [hev] at he
    have hrest : Event.localResponse code ∈ rest := by simpa using he
    exact absurd (haft _ hrest) (by simp [isAftermath])

theorem handle_localCoherent (env : HostEnv) (r : Request) (h : HostState)
    (hc : LocalCoherent h) : LocalCoherent (handle env r h).2 := by
  rcases handle_cases env r h _ rfl with
    ⟨args, res, hres, hs⟩ | ⟨code, _, _, hs⟩ | ⟨_, hs⟩ | ⟨_, _, hs⟩ | ⟨_, _, hs⟩
  · obtain ⟨_, _, _, hctx⟩ := pwProxyHttpCall_ctx env.hasPool (env.call h.calls) h.ctx r.mem args
    have hno := pwProxyHttpCall_no_local env.hasPool (env.call h.calls) h.ctx r.mem args
    rw [hres] at hctx hno
    rw [hs, LocalCoherent, hctx, sentLocal_append _ _ hno]
    exact hc
  · rw [hs]
    exact iff_of_true rfl ⟨code, by simp⟩
  · rw [hs, LocalCoherent, sentLocal_append _ _ (by simp)]
    exact hc
  · rw [hs, LocalCoherent, sentLocal_append _ _ (by simp)]
    exact hc
  · rw [hs]
    exact hc

theorem execInvariant_localCoherent (env : HostEnv) : ExecInvariant env LocalCoherent where
  handle := handle_localCoherent env
  entered cb args h hc := by
    simpa only [LocalCoherent, HostState.observe, sentLocal_append _ [Event.entered cb args _]
      (by simp)] using hc
  left cb outcome h hc := by
    simpa only [LocalCoherent, HostState.observe, sentLocal_append _ [Event.left cb outcome]
      (by simp)] using hc
  active _ _ hc := hc
  memory _ _ hc := hc
  body _ _ hc := hc
  paused _ hc := hc

theorem startMachine_localCoherent (engine : Engine σ) (name vmConfig pluginConfig : Bytes)
    (w : σ) : LocalCoherent (startMachine engine name vmConfig pluginConfig w).host := by
  simp [LocalCoherent, startMachine, setupCtx, SentLocal]

theorem vmodVerdict_eq_zero (mode : FailMode) (exit : Exit) :
    vmodVerdict mode exit = 0 ↔
      exit.ret < 0 ∧ mode = .opened ∨ exit.ret = 0 ∧ exit.statusCode ≤ 0 := by
  unfold vmodVerdict vmodWasmErrorResult
  split
  next hneg => cases mode <;> simp <;> omega
  next hneg =>
    split
    · omega
    · omega

/-- The headers callback let the stream pass: it said CONTINUE, or it said
PAUSE and every stored callout response was then delivered. -/
def Passed (d : HeadersDone) : Prop :=
  d.returned = 0 ∨ d.returned = 1 ∧ d.delivered ≠ [] ∧ ∀ e ∈ d.stored, e ∈ d.delivered

/-- Zero means that the guest let the stream pass and sent no local response. -/
def SoundResult (result : ℤ) (ran : Option (ExecResult σ)) : Prop :=
  result = 0 → ∃ r d, ran = some r ∧ r.headers = some d ∧ Passed d ∧
    ¬ SentLocal r.machine.host.log

/-- When the delivery loop ran and rewrote the action, the action was CONTINUE
or PAUSE and no response stayed in the tree undelivered. -/
def LoopSound (d : HeadersDone) : Prop :=
  d.delivered ≠ [] → d.returned = 0 ∨ d.returned = 1 ∧ ∀ e ∈ d.stored, e ∈ d.delivered

theorem passed_iff (d : HeadersDone) (h : d.action ≠ 1) :
    Passed d ↔ d.action = 0 ∧ LoopSound d := by
  unfold Passed LoopSound HeadersDone.action at *
  split at h <;> simp_all

/-- The state at the verdict leaves no room for a wrong zero: a local response
has a positive code, the stream is not paused, and whatever is left to go wrong
after the verdict goes wrong in closed mode. -/
def GuestHeard (mode : FailMode) (henv : HostEnv) (env : ExecEnv) (g : Guest σ) (phase : Phase)
    (d : HeadersDone) (m : Machine σ) : Prop :=
  if m.host.ctx.localResponseSet = true then 0 < m.host.ctx.localResponseCode
  else
    d.action ≠ 1 ∧
    if defersBody g phase = true then
      if env.taskAlloc = true ∧ env.privTask = true then
        (d.action < 0 → mode = .closed) ∧ LoopSound d
      else mode = .closed ∨ d.action = 0 ∧ LoopSound d
    else
      (d.action < 0 → mode = .closed) ∧
      match localAnswer (runRest henv env g phase m).host.ctx with
      | none => LoopSound d
      | some code => d.action = 0 → 0 < code

/-- `GuestHeard` for a filter call from its start; a filter that never takes a
verdict needs closed mode. -/
def FilterHeard (engine : Engine σ) (env : ExecEnv) (phase : Phase) (name : Bytes) (w : σ) : Prop :=
  match admitted engine env name with
  | none => engine.failMode = .closed
  | some (g, _) =>
    match reachVerdict (hostEnv engine env) env g phase (startMachine engine name [] [] w) with
    | (none, _) => engine.failMode = .closed
    | (some d, m) => GuestHeard engine.failMode (hostEnv engine env) env g phase d m

theorem opened_iff (mode : FailMode) : mode = .opened ↔ mode ≠ .closed := by
  cases mode <;> simp

theorem not_passed_of_paused (d : HeadersDone) (h : d.action = 1) : ¬ Passed d := by
  unfold Passed HeadersDone.action at *
  split at h <;> simp_all

section Exits

variable (mode : FailMode) (r : ExecResult σ) (d : HeadersDone)

theorem soundResult_failed (hexit : r.exit = .failed) (hheaders : r.headers = none) :
    SoundResult (vmodVerdict mode r.exit) (some r) ↔ mode = .closed := by
  unfold SoundResult
  rw [vmodVerdict_eq_zero, hexit]
  cases mode <;> simp [Exit.ret, hheaders]

variable (hheaders : r.headers = some d)
include hheaders

theorem soundResult_some :
    SoundResult (vmodVerdict mode r.exit) (some r) ↔
      (r.exit.ret < 0 ∧ mode = .opened ∨ r.exit.ret = 0 ∧ r.exit.statusCode ≤ 0 →
        Passed d ∧ ¬ SentLocal r.machine.host.log) := by
  unfold SoundResult
  rw [vmodVerdict_eq_zero]
  simp [hheaders]

/-- After a local response the result must not be zero. -/
theorem soundResult_local (hlocal : SentLocal r.machine.host.log) :
    SoundResult (vmodVerdict mode r.exit) (some r) ↔
      (r.exit.ret < 0 → mode = .closed) ∧ (r.exit.ret = 0 → 0 < r.exit.statusCode) := by
  rw [soundResult_some mode r d hheaders, opened_iff]
  simp only [hlocal, not_true, and_false, imp_false, not_or, not_and, not_not, Int.not_le]

theorem soundResult_notDeferred (hexit : r.exit = .notDeferred) (haction : d.action ≠ 1)
    (hlocal : ¬ SentLocal r.machine.host.log) :
    SoundResult (vmodVerdict mode r.exit) (some r) ↔
      mode = .closed ∨ d.action = 0 ∧ LoopSound d := by
  rw [soundResult_some mode r d hheaders, passed_iff d haction, hexit]
  cases mode <;> simp [Exit.ret, hlocal]

/-- When the action itself is returned, only an error result or an unsound
delivery loop can make a wrong zero of it. -/
theorem soundResult_action (hret : r.exit.ret = d.action) (hstatus : r.exit.statusCode = 0)
    (haction : d.action ≠ 1) (hlocal : ¬ SentLocal r.machine.host.log) :
    SoundResult (vmodVerdict mode r.exit) (some r) ↔
      (d.action < 0 → mode = .closed) ∧ LoopSound d := by
  rw [soundResult_some mode r d hheaders, passed_iff d haction, hret, hstatus, opened_iff]
  have hvacuous : d.action ≠ 0 → LoopSound d := by
    unfold LoopSound HeadersDone.action
    intro h
    split at h <;> simp_all
  constructor
  · intro h
    refine ⟨?_, ?_⟩
    · intro hneg
      by_contra hmode
      have := (h (Or.inl ⟨hneg, hmode⟩)).1.1
      omega
    · by_cases hzero : d.action = 0
      · exact (h (Or.inr ⟨hzero, Int.le_refl 0⟩)).1.2
      · exact hvacuous hzero
  · rintro ⟨hneg, hloop⟩ (⟨hlt, hmode⟩ | ⟨hzero, _⟩)
    · exact absurd (hneg hlt) hmode
    · exact ⟨⟨hzero, hloop⟩, hlocal⟩

end Exits

/-- The exits of the verdict, and what the guest had sent by then. -/
theorem takeVerdict_cases (henv : HostEnv) (env : ExecEnv) (g : Guest σ)
    (phase : Phase) (store : StoreRef) (d : HeadersDone) (m : Machine σ)
    (hm : LocalCoherent m.host) (r : ExecResult σ)
    (hr : takeVerdict henv env g phase store d m = r) :
    r.headers = some d ∧
    ((m.host.ctx.localResponseSet = true ∧ r.exit = .answered m.host.ctx.localResponseCode ∧
        SentLocal r.machine.host.log) ∨
      (m.host.ctx.localResponseSet = false ∧ d.action = 1 ∧ r.exit = .paused ∧
        ¬ SentLocal r.machine.host.log) ∨
      (m.host.ctx.localResponseSet = false ∧ d.action ≠ 1 ∧ defersBody g phase = true ∧
        ¬ SentLocal r.machine.host.log ∧
        (env.taskAlloc = true ∧ env.privTask = true ∧ r.exit = .deferred d.action ∨
          ¬ (env.taskAlloc = true ∧ env.privTask = true) ∧ r.exit = .notDeferred)) ∨
      (m.host.ctx.localResponseSet = false ∧ d.action ≠ 1 ∧ defersBody g phase = false ∧
        r.exit = .finished d.action (localAnswer (runRest henv env g phase m).host.ctx) ∧
        (SentLocal r.machine.host.log ↔
          localAnswer (runRest henv env g phase m).host.ctx ≠ none))) := by
  subst hr
  unfold takeVerdict
  cases hset : m.host.ctx.localResponseSet with
  | true => exact ⟨rfl, Or.inl ⟨rfl, rfl, hm.mp hset⟩⟩
  | false =>
    have hlocal : ¬ SentLocal m.host.log := by
      intro h
      simp [hm.mpr h] at hset
    simp only [Bool.false_eq_true, if_false, false_and, true_and, false_or]
    by_cases hpaused : d.action = 1
    · rw [if_pos hpaused]
      exact ⟨rfl, Or.inl ⟨hpaused, rfl, hlocal⟩⟩
    rw [if_neg hpaused, finishStream]
    cases hdefer : defersBody g phase with
    | true =>
      obtain ⟨hmachine, hheaders, hexit⟩ := handOver_cases env store d m _ rfl
      refine ⟨hheaders, Or.inr (Or.inl ⟨hpaused, rfl, ?_, hexit⟩)⟩
      rwa [if_pos rfl, hmachine]
    | false =>
      have hrest : LocalCoherent (runRest henv env g phase m).host :=
        runRest_invariant henv _ (execInvariant_localCoherent henv) g env phase m hm
      refine ⟨rfl, Or.inr (Or.inr ⟨hpaused, rfl, rfl, ?_⟩)⟩
      refine hrest.symm.trans ?_
      simp [localAnswer]

/-- At the verdict: the result is sound exactly when the guest is heard. -/
theorem takeVerdict_sound_iff (mode : FailMode) (henv : HostEnv) (env : ExecEnv) (g : Guest σ)
    (phase : Phase) (store : StoreRef) (d : HeadersDone) (m : Machine σ)
    (hm : LocalCoherent m.host) (r : ExecResult σ)
    (hr : takeVerdict henv env g phase store d m = r) :
    SoundResult (vmodVerdict mode r.exit) (some r) ↔ GuestHeard mode henv env g phase d m := by
  obtain ⟨hheaders, hcases⟩ := takeVerdict_cases henv env g phase store d m hm r hr
  unfold GuestHeard
  rcases hcases with ⟨hset, hexit, hlocal⟩ | ⟨hset, hpaused, hexit, _⟩ |
    ⟨hset, haction, hdefer, hlocal, ⟨htask, hpriv, hexit⟩ | ⟨hnot, hexit⟩⟩ |
    ⟨hset, haction, hdefer, hexit, hlocal⟩
  · rw [if_pos hset, soundResult_local mode r d hheaders hlocal, hexit]
    simp [Exit.ret, Exit.statusCode]
  · rw [soundResult_some mode r d hheaders, hexit]
    simp [Exit.ret, Exit.statusCode, not_passed_of_paused d hpaused, hset, hpaused]
  · rw [soundResult_action mode r d hheaders (by rw [hexit]; rfl) (by rw [hexit]; rfl) haction
      hlocal]
    simp [hset, haction, hdefer, htask, hpriv]
  · rw [soundResult_notDeferred mode r d hheaders hexit haction hlocal]
    simp only [hset, hdefer, if_true, if_neg hnot, Bool.false_eq_true, if_false]
    simp [haction]
  · simp only [hset, hdefer, Bool.false_eq_true, if_false, ne_eq, haction, not_false_eq_true,
      true_and]
    cases hanswer : localAnswer (runRest henv env g phase m).host.ctx with
    | none =>
      rw [hanswer] at hexit hlocal
      exact soundResult_action mode r d hheaders (by rw [hexit]; rfl) (by rw [hexit]; rfl) haction
        (by simp [hlocal])
    | some code =>
      rw [hanswer] at hexit hlocal
      rw [soundResult_local mode r d hheaders (hlocal.mpr (by simp)), hexit]
      rfl

/-- The result of a filter call is zero only for a guest that let the stream
pass, exactly when the guest is heard at the verdict. -/
theorem vmodProxyWasm_sound_iff (engine : Engine σ) (env : ExecEnv) (phase : Phase) (name : Bytes)
    (w : σ) :
    SoundResult (vmodProxyWasm engine env phase name w).1 (vmodProxyWasm engine env phase name w).2 ↔
      (name ≠ [] → FilterHeard engine env phase name w) := by
  unfold vmodProxyWasm
  by_cases hname : name = []
  · simp [hname, SoundResult]
  rw [if_neg hname]
  simp only [ne_eq, hname, not_false_eq_true, true_implies]
  unfold FilterHeard
  rcases proxyWasmExecute_cases engine env name phase [] [] w _ rfl with
    ⟨hadmitted, hr⟩ | ⟨g, store, hadmitted, hrun⟩
  · rw [hr, hadmitted]
    exact soundResult_failed engine.failMode { exit := .failed, machine := _ } rfl rfl
  have hm := reachVerdict_invariant (hostEnv engine env) _
    (execInvariant_localCoherent (hostEnv engine env)) g env phase _
    (startMachine_localCoherent engine name [] [] w)
  rcases hrun with ⟨m, hreach, hr⟩ | ⟨d, m, hreach, hr⟩
  · rw [hr, hadmitted]
    dsimp only
    rw [hreach]
    exact soundResult_failed engine.failMode (cleanup store none .failed m) rfl rfl
  · rw [hreach] at hm
    rw [hr, hadmitted]
    dsimp only
    rw [hreach]
    exact takeVerdict_sound_iff engine.failMode _ env g phase store d m hm _ rfl

def TrapFree (log : List Event) : Prop := ∀ cb, Event.left cb .trapped ∉ log

/-- A filter that asks for a pause and for nothing else. -/
def pausingGuest : Guest Unit :=
  scriptedGuest [.requestHeaders] fun _ => .done (.returned 1, ())

/-- Nothing resumes the stream of this filter, and yet its result is zero. -/
theorem pausingGuest_unsound :
    (∀ r, (vmodProxyWasm (singleEngine pausingGuest) {} .request (ascii "m") ()).2 = some r →
      TrapFree r.machine.host.log) ∧
    ¬ SoundResult (vmodProxyWasm (singleEngine pausingGuest) {} .request (ascii "m") ()).1
      (vmodProxyWasm (singleEngine pausingGuest) {} .request (ascii "m") ()).2 := by
  have hlog : (vmodProxyWasm (singleEngine pausingGuest) {} .request (ascii "m") ()).2.map
      (fun r => r.machine.host.log) =
      some [.entered .requestHeaders [2, 0, 1] none, .left .requestHeaders (.returned 1)] := by
    decide
  have hheaders : (vmodProxyWasm (singleEngine pausingGuest) {} .request (ascii "m") ()).2.map
      (fun r => r.headers) = some (some ⟨1, [], []⟩) := by
    decide
  constructor
  · intro r hr cb hcb
    rw [hr] at hlog
    simp only [Option.map_some, Option.some.injEq] at hlog
    simp [hlog] at hcb
  · intro h
    obtain ⟨r, d, hr, hd, hpassed, _⟩ := h (by decide)
    rw [hr] at hheaders
    simp only [Option.map_some, Option.some.injEq] at hheaders
    rw [hd, Option.some.injEq] at hheaders
    simp [hheaders, Passed] at hpassed

/-- The callbacks of a request phase whose failure an operator expects to block. -/
def guardedCallbacks : List Callback :=
  [.vmStart, .configure, .contextCreate, .requestHeaders, .httpCallResponse, .requestBody]

def CallbackTrapped (log : List Event) : Prop :=
  ∃ cb ∈ guardedCallbacks, Event.left cb .trapped ∈ log

instance (log : List Event) : Decidable (CallbackTrapped log) :=
  inferInstanceAs (Decidable (∃ cb ∈ guardedCallbacks, Event.left cb .trapped ∈ log))

/-- The state at the verdict blocks the request whatever trapped on the way: a
local response with a positive code then or by the end, or an action that is
neither CONTINUE nor PAUSE. -/
def GuestBlocks (henv : HostEnv) (env : ExecEnv) (g : Guest σ) (d : HeadersDone)
    (m : Machine σ) : Prop :=
  if m.host.ctx.localResponseSet = true then 0 < m.host.ctx.localResponseCode
  else
    d.action ≠ 1 ∧ (d.action = 0 →
      ∃ code, localAnswer (runRest henv env g .request m).host.ctx = some code ∧ 0 < code)

/-- The request is blocked: no verdict is reached, because the module or its
store is missing or the headers callback failed, or the guest blocks. -/
def RequestBlocked (engine : Engine σ) (env : ExecEnv) (name : Bytes) (w : σ) : Prop :=
  ∀ g store, admitted engine env name = some (g, store) → ∀ d m,
    reachVerdict (hostEnv engine env) env g .request (startMachine engine name [] [] w) =
      (some d, m) →
    GuestBlocks (hostEnv engine env) env g d m

theorem takeVerdict_blocks_iff (henv : HostEnv) (env : ExecEnv) (g : Guest σ) (store : StoreRef)
    (d : HeadersDone) (m : Machine σ) :
    vmodVerdict .closed (takeVerdict henv env g .request store d m).exit ≠ 0 ↔
      GuestBlocks henv env g d m := by
  rw [ne_eq, vmodVerdict_eq_zero]
  unfold takeVerdict GuestBlocks
  by_cases hset : m.host.ctx.localResponseSet = true
  · rw [if_pos hset, if_pos hset]
    simp [cleanup, Exit.ret, Exit.statusCode]
  rw [if_neg hset, if_neg hset]
  by_cases hpaused : d.action = 1
  · rw [if_pos hpaused]
    simp [cleanup, Exit.ret, Exit.statusCode, hpaused]
  rw [if_neg hpaused, finishStream, if_neg (by simp [defersBody])]
  dsimp only
  cases localAnswer (runRest henv env g .request m).host.ctx <;>
    simp [cleanup, Exit.ret, Exit.statusCode, hpaused]

/-- A filter whose headers callback traps. -/
def trappingGuest : Guest Unit := scriptedGuest [.requestHeaders] fun _ => .done (.trapped, ())

/-- An authorisation filter: its headers callback asks the upstream that stands
in its memory and pauses, and the callback for the answer traps. -/
def trappingAuthGuest : Guest Unit :=
  scriptedGuest [.requestHeaders, .httpCallResponse] fun cb =>
    match cb with
    | .requestHeaders =>
      .call ⟨ascii "auth:80" ++ List.replicate 9 0, .httpCall ⟨0, 7, 0, 0, 0, 0, 0, 8⟩⟩
        fun _ => .done (.returned 1, ())
    | _ => .done (.trapped, ())

/-- The upstream answers the first callout with an empty 200. -/
def answeringEnv : ExecEnv where
  call _ := {
    stream := ascii "HTTP/1.1 200 OK\r\nContent-Length: 0\r\n\r\n"
    sizes := [4096]
  }

end VmodWasm.Verdict
