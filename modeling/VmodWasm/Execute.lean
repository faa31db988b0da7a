import VmodWasm.HostCalls

/-!
`proxy_wasm_execute`, the lifecycle every filter call runs. The function is cut
into its stages, and it leaves through one of a few exits; return value and
`*status_code` are read off the exit. The engine fields are those the function
copies into the context, and `ExecEnv` holds what the outside decides: which
store the pool hands out, which allocations succeed, what Varnish shows.
-/
namespace VmodWasm.Execute

open ByteStrings ProxyContext HostCalls Lib.KeyedList

variable {σ : Type}

inductive FailMode where
  | closed | opened
  deriving DecidableEq, Repr

inductive Phase where
  | request | response
  deriving DecidableEq, Repr

def Phase.headersFn : Phase → Callback
  | .request => .requestHeaders
  | .response => .responseHeaders

def Phase.bodyFn : Phase → Callback
  | .request => .requestBody
  | .response => .responseBody

structure Engine (σ : Type) where
  modules : List (Bytes × Guest σ)
  failMode : FailMode := .closed
  allowedUpstreams : List Bytes := []
  httpCallMax : ℕ := 5
  httpTimeoutMs : ℕ := 5000
  hasHttpPool : Bool := false

def findModule (engine : Engine σ) (name : Bytes) : Option (Guest σ) :=
  (engine.modules.find? fun entry => entry.1 = name).map Prod.snd

/-- The store of an execution: a slot of the module's pool or a new store. -/
inductive StoreRef where
  | pooled (slot : ℕ)
  | fresh
  deriving DecidableEq, Repr

structure ExecEnv where
  pooled : Option ℕ := none
  storeNew : Bool := true
  numHeaders : ℤ := 0
  requestBody : Option Bytes := none
  taskAlloc : Bool := true
  privTask : Bool := true
  call : ℕ → HttpCall.CallEnv := fun _ => {}

def hostEnv (engine : Engine σ) (env : ExecEnv) : HostEnv := ⟨engine.hasHttpPool, env.call⟩

/-- The context as the function sets it up on its stack. -/
def setupCtx (engine : Engine σ) (name vmConfig pluginConfig : Bytes) : ProxyCtx where
  rootContextId := 1
  streamContextId := 2
  moduleName := name
  vmConfig := vmConfig
  pluginConfig := pluginConfig
  httpCallMax := engine.httpCallMax
  httpTimeoutMs := engine.httpTimeoutMs
  allowedUpstreams := engine.allowedUpstreams

/-- Callbacks whose result the function does not look at. -/
def callIgnored (env : HostEnv) (g : Guest σ) (cb : Callback) (args : List ℤ)
    (m : Machine σ) : Machine σ :=
  (callWasm env g cb args m).2

/-- A fresh store is instantiated, which runs the module's start function. -/
def instantiate (env : HostEnv) (g : Guest σ) (pooled : Bool) (m : Machine σ) :
    Bool × Machine σ :=
  if pooled then (true, m)
  else
    match runGuest env (g.start m.world) m with
    | (.returned _, m') => (true, m')
    | (.trapped, m') => (false, m')

def resolveMemory (g : Guest σ) (m : Machine σ) : Machine σ :=
  m.setCtx fun ctx => { ctx with memoryValid := g.exportsMemory }

/-- `vm_start` and `configure` with the lengths of the two configurations. -/
def callVmStart (env : HostEnv) (g : Guest σ) (m : Machine σ) : Machine σ :=
  callIgnored env g .vmStart [1, m.host.ctx.vmConfig.length] m

def callConfigure (env : HostEnv) (g : Guest σ) (m : Machine σ) : Machine σ :=
  callIgnored env g .configure [1, m.host.ctx.pluginConfig.length] m

/-- The root callbacks. A pooled store has run them when it was warmed, and
only applies a configuration that is not empty. -/
def initCallbacks (env : HostEnv) (g : Guest σ) (pooled : Bool) (m : Machine σ) : Machine σ :=
  if pooled then
    let m := if m.host.ctx.vmConfig ≠ [] then callVmStart env g m else m
    if m.host.ctx.pluginConfig ≠ [] then callConfigure env g m else m
  else
    let m := callIgnored env g .initializeModule [] m
    let m := callIgnored env g .contextCreate [1, 0] m
    callConfigure env g (callVmStart env g m)

/-- The body of the delivery loop; errors and traps of the callback are
dropped. -/
def deliverResponse (env : HostEnv) (g : Guest σ) (ent : HttpCallEntry) (m : Machine σ) :
    Machine σ :=
  let m := m.setCtx fun ctx => { ctx with activeHttpCall := some ent.tokenId }
  let m := (enterGuest env g .httpCallResponse
    [2, ent.tokenId, ent.numHeaders, ent.body.length, 0] m).2
  m.setCtx fun ctx => { ctx with activeHttpCall := none }

/-- The delivery loop. Tokens are 32-bit and ascend, so 2^32 visits suffice. -/
def deliverResponses (env : HostEnv) (g : Guest σ) (m : Machine σ) :
    List HttpCallEntry × Machine σ :=
  foreachSafe HttpCallEntry.tokenId (fun m => m.host.ctx.httpCalls) (deliverResponse env g)
    (fun m => m.host.ctx.localResponseSet) (2 ^ 32) m.host.ctx.httpCalls.head? m

/-- A headers phase whose callback came back: what it returned, what the loop
delivered, and the responses the tree holds at the end. -/
structure HeadersDone where
  returned : ℤ
  delivered : List HttpCallEntry
  stored : List HttpCallEntry
  deriving DecidableEq

/-- The variable `action` when the verdict is taken. -/
def HeadersDone.action (d : HeadersDone) : ℤ :=
  if d.delivered = [] then d.returned else 0

def headersPhase (env : HostEnv) (g : Guest σ) (phase : Phase) (numHeaders : ℤ)
    (m : Machine σ) : Option HeadersDone × Machine σ :=
  match callWasm env g phase.headersFn [2, numHeaders, 1] m with
  | (none, m) => (none, m)
  | (some returned, m) =>
    if m.host.ctx.httpCalls ≠ [] ∧ g.exports .httpCallResponse = true then
      let (delivered, m) := deliverResponses env g m
      (some ⟨returned, delivered, m.host.ctx.httpCalls⟩, m)
    else (some ⟨returned, [], m.host.ctx.httpCalls⟩, m)

/-- How the function is left. -/
inductive Exit where
  /-- no module, no store, a failed instantiation or headers callback -/
  | failed
  /-- a local response was in force when the verdict was taken -/
  | answered (code : ℤ)
  | paused
  /-- the response body goes to the delivery processor -/
  | deferred (action : ℤ)
  /-- the hand-over to the delivery processor failed -/
  | notDeferred
  /-- the whole lifecycle ran; `answer` is a local response set by then -/
  | finished (action : ℤ) (answer : Option ℤ)
  deriving DecidableEq, Repr

def Exit.ret : Exit → ℤ
  | .failed => -1
  | .answered _ => 0
  | .paused => 0
  | .deferred action => action
  | .notDeferred => -1
  | .finished action _ => action

def Exit.statusCode : Exit → ℤ
  | .answered code => code
  | .finished _ (some code) => code
  | _ => 0

/-- `struct vdp_wasm_task`: the store with its host state, until released. -/
structure VdpTask where
  store : StoreRef
  live : Bool := true
  host : HostState

structure ExecResult (σ : Type) where
  exit : Exit
  machine : Machine σ
  headers : Option HeadersDone := none
  store : Option StoreRef := none
  /-- releases and deletions of the store, in order -/
  drops : List StoreRef := []
  task : Option VdpTask := none

/-- The `cleanup` label: the store goes back to its pool or is deleted. -/
def cleanup (store : StoreRef) (headers : Option HeadersDone) (exit : Exit) (m : Machine σ) :
    ExecResult σ where
  exit := exit
  machine := m
  headers := headers
  store := some store
  drops := [store]

/-- The response body is deferred: a task takes over store and context. When
Varnish has no room for the task, the store is dropped on the spot and the
`cleanup` label drops it again. -/
def handOver (env : ExecEnv) (store : StoreRef) (d : HeadersDone) (m : Machine σ) :
    ExecResult σ :=
  if !env.taskAlloc then cleanup store (some d) .notDeferred m
  else if !env.privTask then
    { cleanup store (some d) .notDeferred m with drops := [store, store] }
  else
    { exit := .deferred d.action
      machine := m
      headers := some d
      store := some store
      task := some { store := store, host := m.host } }

def callRequestBody (env : HostEnv) (g : Guest σ) (body : Option Bytes) (m : Machine σ) :
    Machine σ :=
  let m := m.setCtx fun ctx => { ctx with requestBody := body }
  callIgnored env g .requestBody [2, (body.getD []).length, 1] m

def closeStream (env : HostEnv) (g : Guest σ) (m : Machine σ) : Machine σ :=
  let m := callIgnored env g .log [2] m
  let m := callIgnored env g .done [2] m
  callIgnored env g .delete [2] m

/-- The local response that is in force. -/
def localAnswer (ctx : ProxyCtx) : Option ℤ :=
  if ctx.localResponseSet then some ctx.localResponseCode else none

def defersBody (g : Guest σ) (phase : Phase) : Bool :=
  phase = .response && g.exports .responseBody

/-- The callbacks after the verdict: the request body, then log, done, delete. -/
def runRest (henv : HostEnv) (env : ExecEnv) (g : Guest σ) (phase : Phase) (m : Machine σ) :
    Machine σ :=
  if phase = .request ∧ g.exports .requestBody = true then
    closeStream henv g (callRequestBody henv g env.requestBody m)
  else closeStream henv g m

/-- Everything after the verdict. -/
def finishStream (henv : HostEnv) (env : ExecEnv) (g : Guest σ) (phase : Phase)
    (store : StoreRef) (d : HeadersDone) (m : Machine σ) : ExecResult σ :=
  if defersBody g phase then handOver env store d m
  else
    let m := runRest henv env g phase m
    cleanup store (some d) (.finished d.action (localAnswer m.host.ctx)) m

/-- The verdict after the headers phase. -/
def takeVerdict (henv : HostEnv) (env : ExecEnv) (g : Guest σ) (phase : Phase)
    (store : StoreRef) (d : HeadersDone) (m : Machine σ) : ExecResult σ :=
  if m.host.ctx.localResponseSet then
    cleanup store (some d) (.answered m.host.ctx.localResponseCode) m
  else if d.action = 1 then
    cleanup store (some d) .paused (m.setCtx fun ctx => { ctx with paused := true })
  else finishStream henv env g phase store d m

/-- A module in its store up to the end of the headers phase. -/
def reachVerdict (henv : HostEnv) (env : ExecEnv) (g : Guest σ) (phase : Phase)
    (m : Machine σ) : Option HeadersDone × Machine σ :=
  match instantiate henv g env.pooled.isSome m with
  | (false, m) => (none, m)
  | (true, m) =>
    let m := initCallbacks henv g env.pooled.isSome (resolveMemory g m)
    let m := callIgnored henv g .contextCreate [2, 1] m
    headersPhase henv g phase env.numHeaders m

def runModule (henv : HostEnv) (env : ExecEnv) (g : Guest σ) (phase : Phase)
    (store : StoreRef) (m : Machine σ) : ExecResult σ :=
  match reachVerdict henv env g phase m with
  | (none, m) => cleanup store none .failed m
  | (some d, m) => takeVerdict henv env g phase store d m

/-- The module's code and a store for it: from the pool, else a new one. -/
def admitted (engine : Engine σ) (env : ExecEnv) (name : Bytes) : Option (Guest σ × StoreRef) :=
  match findModule engine name with
  | none => none
  | some g =>
    match env.pooled with
    | some slot => some (g, .pooled slot)
    | none => if env.storeNew then some (g, .fresh) else none

def startMachine (engine : Engine σ) (name vmConfig pluginConfig : Bytes) (w : σ) : Machine σ :=
  ⟨w, { ctx := setupCtx engine name vmConfig pluginConfig }⟩

def proxyWasmExecute (engine : Engine σ) (env : ExecEnv) (name : Bytes) (phase : Phase)
    (vmConfig pluginConfig : Bytes) (w : σ) : ExecResult σ :=
  let m := startMachine engine name vmConfig pluginConfig w
  match admitted engine env name with
  | none => { exit := .failed, machine := m }
  | some (g, store) => runModule (hostEnv engine env) env g phase store m

/-- `vmod_wasm_error_result`. -/
def vmodWasmErrorResult (mode : FailMode) : ℤ :=
  match mode with
  | .opened => 0
  | .closed => -1

/-- What the filter functions of the VMOD make of the two result channels. -/
def vmodVerdict (mode : FailMode) (exit : Exit) : ℤ :=
  if exit.ret < 0 then vmodWasmErrorResult mode
  else if 0 < exit.statusCode then exit.statusCode
  else exit.ret

/-- `vmod_proxy_wasm_on_request`, and `vmod_proxy_wasm_on_response` for the
other phase. An empty name is refused before anything runs. -/
def vmodProxyWasm (engine : Engine σ) (env : ExecEnv) (phase : Phase) (name : Bytes) (w : σ) :
    ℤ × Option (ExecResult σ) :=
  if name = [] then (-1, none)
  else
    let r := proxyWasmExecute engine env name phase [] [] w
    (vmodVerdict engine.failMode r.exit, some r)

/-- A module given by its exports and one program for each callback. -/
def scriptedGuest (exports : List Callback) (script : Callback → GuestProg Unit) : Guest Unit where
  exportsMemory := true
  exports cb := exports.contains cb
  start w := .done (.returned 0, w)
  enter cb _ _ := script cb

/-- An engine with one module, called `m`. -/
def singleEngine (g : Guest σ) : Engine σ where
  modules := [(ascii "m", g)]

/-- An execution is refused, or fails on the way to its verdict, or takes it. -/
theorem proxyWasmExecute_cases (engine : Engine σ) (env : ExecEnv) (name : Bytes) (phase : Phase)
    (vmConfig pluginConfig : Bytes) (w : σ) (r : ExecResult σ)
    (hr : proxyWasmExecute engine env name phase vmConfig pluginConfig w = r) :
    (admitted engine env name = none ∧
      r = { exit := .failed, machine := startMachine engine name vmConfig pluginConfig w }) ∨
    ∃ g store, admitted engine env name = some (g, store) ∧
      ((∃ m, reachVerdict (hostEnv engine env) env g phase
            (startMachine engine name vmConfig pluginConfig w) = (none, m) ∧
          r = cleanup store none .failed m) ∨
        ∃ d m, reachVerdict (hostEnv engine env) env g phase
            (startMachine engine name vmConfig pluginConfig w) = (some d, m) ∧
          r = takeVerdict (hostEnv engine env) env g phase store d m) := by
  subst hr
  unfold proxyWasmExecute
  dsimp only
  split
  next hadmitted => exact Or.inl ⟨hadmitted, rfl⟩
  next g store hadmitted =>
    refine Or.inr ⟨g, store, hadmitted, ?_⟩
    unfold runModule
    split
    next m hreach => exact Or.inl ⟨m, hreach, rfl⟩
    next d m hreach => exact Or.inr ⟨d, m, hreach, rfl⟩

/-- The hand-over leaves machine and headers as they are; it succeeds exactly
when the task and its place in Varnish could be had. -/
theorem handOver_cases (env : ExecEnv) (store : StoreRef) (d : HeadersDone) (m : Machine σ)
    (r : ExecResult σ) (hr : handOver env store d m = r) :
    r.machine = m ∧ r.headers = some d ∧
      (env.taskAlloc = true ∧ env.privTask = true ∧ r.exit = .deferred d.action ∨
        ¬ (env.taskAlloc = true ∧ env.privTask = true) ∧ r.exit = .notDeferred) := by
  subst hr
  unfold handOver
  cases env.taskAlloc <;> cases env.privTask <;> simp [cleanup]

theorem callIgnored_invariant (henv : HostEnv) (I : HostState → Prop) (hI : HostInvariant henv I)
    (g : Guest σ) (cb : Callback) (args : List ℤ) (m : Machine σ) (h : I m.host) :
    I (callIgnored henv g cb args m).host :=
  callWasm_invariant henv I hI g cb args m h

theorem instantiate_invariant (henv : HostEnv) (I : HostState → Prop) (hI : HostInvariant henv I)
    (g : Guest σ) (pooled : Bool) (m : Machine σ) (h : I m.host) :
    I (instantiate henv g pooled m).2.host := by
  have hrun := runGuest_invariant henv I hI (g.start m.world) m h
  unfold instantiate
  split
  · exact h
  · split <;> simp_all

theorem closeStream_invariant (henv : HostEnv) (I : HostState → Prop) (hI : HostInvariant henv I)
    (g : Guest σ) (m : Machine σ) (h : I m.host) : I (closeStream henv g m).host := by
  have hcall := callIgnored_invariant henv I hI g
  exact hcall _ _ _ (hcall _ _ _ (hcall _ _ _ h))

/-- A deferred task owns the host state the execution ended with. -/
theorem proxyWasmExecute_task (engine : Engine σ) (env : ExecEnv) (name : Bytes) (phase : Phase)
    (vmConfig pluginConfig : Bytes) (w : σ) (task : VdpTask)
    (h : (proxyWasmExecute engine env name phase vmConfig pluginConfig w).task = some task) :
    task.host = (proxyWasmExecute engine env name phase vmConfig pluginConfig w).machine.host := by
  rcases proxyWasmExecute_cases engine env name phase vmConfig pluginConfig w _ rfl with
    ⟨_, hr⟩ | ⟨g, store, _, ⟨m, _, hr⟩ | ⟨d, m, _, hr⟩⟩
  · simp [hr] at h
  · simp [hr, cleanup] at h
  · rw [hr] at h ⊢
    unfold takeVerdict finishStream handOver at h ⊢
    repeat' split at h
    all_goals simp_all [cleanup]
    rw [← h]

/-- What keeps `I` through a whole execution: host calls, observations, and
the context fields the function itself sets. -/
structure ExecInvariant (env : HostEnv) (I : HostState → Prop) : Prop
    extends HostInvariant env I where
  active : ∀ a h, I h → I (h.setCtx fun ctx => { ctx with activeHttpCall := a })
  memory : ∀ v h, I h → I (h.setCtx fun ctx => { ctx with memoryValid := v })
  body : ∀ b h, I h → I (h.setCtx fun ctx => { ctx with requestBody := b })
  paused : ∀ h, I h → I (h.setCtx fun ctx => { ctx with paused := true })

section Invariant

variable (henv : HostEnv) (I : HostState → Prop) (hI : ExecInvariant henv I) (g : Guest σ)
include hI

theorem initCallbacks_invariant (pooled : Bool) (m : Machine σ) (h : I m.host) :
    I (initCallbacks henv g pooled m).host := by
  have hcall := callIgnored_invariant henv I hI.toHostInvariant g
  unfold initCallbacks callVmStart callConfigure
  split
  · dsimp only
    split
    · split
      · exact hcall _ _ _ (hcall _ _ _ h)
      · exact hcall _ _ _ h
    · split
      · exact hcall _ _ _ h
      · exact h
  · exact hcall _ _ _ (hcall _ _ _ (hcall _ _ _ (hcall _ _ _ h)))

theorem deliverResponse_invariant (ent : HttpCallEntry) (m : Machine σ) (h : I m.host) :
    I (deliverResponse henv g ent m).host :=
  hI.active _ _ (enterGuest_invariant henv I hI.toHostInvariant g _ _ _ (hI.active _ _ h))

theorem deliverResponses_invariant (m : Machine σ) (h : I m.host) :
    I (deliverResponses henv g m).2.host :=
  foreachSafe_invariant HttpCallEntry.tokenId _ _ _ (fun m => I m.host)
    (deliverResponse_invariant henv I hI g) _ _ m h

theorem headersPhase_invariant (phase : Phase) (n : ℤ) (m : Machine σ) (h : I m.host) :
    I (headersPhase henv g phase n m).2.host := by
  have hcall := callWasm_invariant henv I hI.toHostInvariant g phase.headersFn [2, n, 1] m h
  unfold headersPhase
  split
  next hr => rwa [hr] at hcall
  next hr =>
    rw [hr] at hcall
    split
    · exact deliverResponses_invariant henv I hI g _ hcall
    · exact hcall

theorem reachVerdict_invariant (env : ExecEnv) (phase : Phase) (m : Machine σ) (h : I m.host) :
    I (reachVerdict henv env g phase m).2.host := by
  have hinst := instantiate_invariant henv I hI.toHostInvariant g env.pooled.isSome m h
  unfold reachVerdict
  split
  next hr => rwa [hr] at hinst
  next hr =>
    rw [hr] at hinst
    apply headersPhase_invariant henv I hI g phase
    apply callIgnored_invariant henv I hI.toHostInvariant g
    exact initCallbacks_invariant henv I hI g _ _ (hI.memory _ _ hinst)

theorem callRequestBody_invariant (body : Option Bytes) (m : Machine σ) (h : I m.host) :
    I (callRequestBody henv g body m).host :=
  callIgnored_invariant henv I hI.toHostInvariant g _ _ _ (hI.body _ _ h)

theorem runRest_invariant (env : ExecEnv) (phase : Phase) (m : Machine σ) (h : I m.host) :
    I (runRest henv env g phase m).host := by
  unfold runRest
  split
  · exact closeStream_invariant henv I hI.toHostInvariant g _
      (callRequestBody_invariant henv I hI g _ _ h)
  · exact closeStream_invariant henv I hI.toHostInvariant g _ h

theorem finishStream_invariant (env : ExecEnv) (phase : Phase) (store : StoreRef)
    (d : HeadersDone) (m : Machine σ) (h : I m.host) :
    I (finishStream henv env g phase store d m).machine.host := by
  unfold finishStream
  split
  · unfold handOver
    split
    · exact h
    · split <;> exact h
  · exact runRest_invariant henv I hI g env phase m h

theorem takeVerdict_invariant (env : ExecEnv) (phase : Phase) (store : StoreRef)
    (d : HeadersDone) (m : Machine σ) (h : I m.host) :
    I (takeVerdict henv env g phase store d m).machine.host := by
  unfold takeVerdict
  split
  · exact h
  · split
    · exact hI.paused _ h
    · exact finishStream_invariant henv I hI g env phase store d m h

end Invariant

/-- An execution keeps every execution invariant. -/
theorem proxyWasmExecute_invariant (engine : Engine σ) (env : ExecEnv) (I : HostState → Prop)
    (hI : ExecInvariant (hostEnv engine env) I) (name : Bytes) (phase : Phase)
    (vmConfig pluginConfig : Bytes) (w : σ)
    (h : I { ctx := setupCtx engine name vmConfig pluginConfig }) :
    I (proxyWasmExecute engine env name phase vmConfig pluginConfig w).machine.host := by
  rcases proxyWasmExecute_cases engine env name phase vmConfig pluginConfig w _ rfl with
    ⟨_, hr⟩ | ⟨g, store, _, hrun⟩
  · rw [hr]
    exact h
  · have hreach := reachVerdict_invariant (hostEnv engine env) I hI g env phase
      (startMachine engine name vmConfig pluginConfig w) h
    rcases hrun with ⟨m, hm, hr⟩ | ⟨d, m, hm, hr⟩
    · rw [hm] at hreach
      rw [hr]
      exact hreach
    · rw [hm] at hreach
      rw [hr]
      exact takeVerdict_invariant (hostEnv engine env) I hI g env phase store d m hreach

end VmodWasm.Execute
