import VmodWasm.Execute
import VmodWasm.HostImports
import VmodWasm.Lib.Obligations

/-!
What the paths that run guest code do with their Wasmtime stores: the record
they install as store data, the limiter, the epoch deadline, and the guest
functions they enter, in the order of the source. Each path is a script of
store operations. The replies are what Wasmtime and the guest make of them:
whether an operation succeeds, what a guest function returns, which host
functions it calls while it runs and how much time passes.
-/
namespace VmodWasm.StorePaths

open ByteStrings ProxyContext Execute HostImports Lib.Interaction Lib.Obligations

inductive StoreOp where
  | newStore (data : Option CtxKind)
  | setData (data : Option CtxKind)
  | setEpochDeadline (ticks : ℕ)
  | storeLimiter (bytes : ℕ)
  | instantiate
  | funcCall (name : Bytes)
  deriving DecidableEq, Repr

/-- What happens while an operation runs. A host function that hands bytes back
enters the guest's allocator. The epoch thread counts a tick each millisecond. -/
inductive RunEvent where
  | hostCall (f : HostImport)
  | allocator
  | elapse (ticks : ℕ)
  deriving DecidableEq, Repr

/-- `localResponse` is the flag of the context after the operation, `responses`
the number of callout responses the delivery loop is going to visit. -/
structure Reply where
  ok : Bool := true
  value : ℤ := 0
  visit : List RunEvent := []
  localResponse : Bool := false
  responses : ℕ := 0
  deriving DecidableEq, Repr

abbrev Script := Prog StoreOp Reply

/-- The limits of the engine. -/
structure Limits where
  memoryLimit : ℕ := 16 * 1024 * 1024
  epochDeadlineMs : ℕ := 5000
  deriving DecidableEq, Repr

def defaultEpochDeadlineMs : ℕ := 5000

section Scripts

variable (e : Limits) (m : WasmModule)

/-- `call_wasm_func` and `call_wasm_void`: `none` for a missing export, an
error or a trap. -/
def callWasm (cb : Callback) : Script (Option Reply) := do
  if m.exports cb then
    let r ← perform (.funcCall (exportName cb))
    return if r.ok then some r else none
  else return none

def resetDeadline : Script Reply := perform (.setEpochDeadline e.epochDeadlineMs)

def vwasmEngineCall (func : Bytes) : Script Unit := do
  let created ← perform (.newStore (some .hostCtx))
  if created.ok then
    let _ ← resetDeadline e
    let _ ← perform (.storeLimiter e.memoryLimit)
    let inst ← perform .instantiate
    if inst.ok && m.exportsFn func then
      let _ ← perform (.funcCall func)

def initCallbacks (pooled : Bool) (vmConfig pluginConfig : Bytes) : Script Unit := do
  if pooled then
    if vmConfig ≠ [] then
      let _ ← resetDeadline e
      let _ ← callWasm m .vmStart
    if pluginConfig ≠ [] then
      let _ ← resetDeadline e
      let _ ← callWasm m .configure
  else
    let _ ← callWasm m .initializeModule
    let _ ← resetDeadline e
    let _ ← callWasm m .contextCreate
    let _ ← resetDeadline e
    let _ ← callWasm m .vmStart
    let _ ← resetDeadline e
    let _ ← callWasm m .configure

/-- The delivery loop, which sets the default deadline; whether a callback has
sent a local response. -/
def deliverResponses : ℕ → Script Bool
  | 0 => return false
  | n + 1 => do
    let _ ← perform (.setEpochDeadline defaultEpochDeadlineMs)
    let r ← perform (.funcCall (exportName .httpCallResponse))
    if r.localResponse then return true else deliverResponses n

/-- The action and whether there is a local response, unless the callback
fails. -/
def headersPhase (phase : Phase) : Script (Option (ℤ × Bool)) := do
  let _ ← resetDeadline e
  match ← callWasm m phase.headersFn with
  | none => return none
  | some r =>
    if r.responses ≠ 0 ∧ m.exports .httpCallResponse = true then
      let answered ← deliverResponses r.responses
      return some (0, answered)
    else return some (r.value, r.localResponse)

/-- Everything after the verdict; whether the response body is deferred. The
deadline is not set again. -/
def finishStream (phase : Phase) (taskAlloc privTask : Bool) : Script Bool := do
  if phase = .response ∧ m.exports .responseBody = true then
    if taskAlloc then
      let _ ← perform (.setData (some .proxyCtx))
      return privTask
    else return false
  else
    if phase = .request then
      let _ ← callWasm m .requestBody
    let _ ← callWasm m .log
    let _ ← callWasm m .done
    let _ ← callWasm m .delete
    return false

/-- The lifecycle in a store that has an instance. -/
def runModule (pooled : Bool) (phase : Phase) (vmConfig pluginConfig : Bytes)
    (taskAlloc privTask : Bool) : Script Bool := do
  initCallbacks e m pooled vmConfig pluginConfig
  let _ ← resetDeadline e
  let _ ← callWasm m .contextCreate
  match ← headersPhase e m phase with
  | none => return false
  | some (action, answered) =>
    if answered then return false
    else if action = 1 then return false
    else finishStream m phase taskAlloc privTask

/-- A slot of the pool: the deadline is set by the acquire and again by the
execution. -/
def usePooled : Script Unit := do
  let _ ← resetDeadline e
  let _ ← perform (.setData (some .proxyCtx))
  let _ ← resetDeadline e

/-- A new store; whether the module could be instantiated in it. -/
def useFresh : Script Bool := do
  let created ← perform (.newStore (some .proxyCtx))
  if created.ok then
    let _ ← resetDeadline e
    let _ ← perform (.storeLimiter e.memoryLimit)
    let inst ← perform .instantiate
    return inst.ok
  else return false

/-- The body callback and the closing callbacks of the delivery processor, for
a body of `chunks` calls. -/
def vdpStream : ℕ → Script Unit
  | 0 => do
    let _ ← resetDeadline e
    let _ ← callWasm m .log
    let _ ← callWasm m .done
    let _ ← callWasm m .delete
  | chunks + 1 => do
    let _ ← resetDeadline e
    let _ ← callWasm m .responseBody
    vdpStream chunks

/-- What the outside decides about an execution. `chunks` is the length of a
deferred body, if the delivery processor runs. -/
structure ExecInput where
  phase : Phase := .request
  vmConfig : Bytes := []
  pluginConfig : Bytes := []
  taskAlloc : Bool := true
  privTask : Bool := true
  chunks : Option ℕ := none

/-- The lifecycle and, where the body is deferred, what the delivery processor
does. -/
def lifecycle (pooled : Bool) (x : ExecInput) : Script Unit := do
  let deferred ← runModule e m pooled x.phase x.vmConfig x.pluginConfig x.taskAlloc x.privTask
  match deferred, x.chunks with
  | true, some chunks => vdpStream e m chunks
  | _, _ => return ()

/-- `proxy_wasm_execute` to the end of its store's use. A slot goes back to its
pool without data. -/
def proxyWasmExecute (pooled : Bool) (x : ExecInput) : Script Unit := do
  if pooled then
    usePooled e
    lifecycle e m true x
    let _ ← perform (.setData none)
  else if ← useFresh e then lifecycle e m false x

/-- Exported callbacks until one fails. -/
def runUntilFailure : List Callback → Script Unit
  | [] => pure ()
  | cb :: rest => do
    if m.exports cb then
      let r ← perform (.funcCall (exportName cb))
      if r.ok then runUntilFailure rest
    else runUntilFailure rest

def vwasmWarmInstanceCreate : Script Unit := do
  let created ← perform (.newStore none)
  if created.ok then
    let _ ← perform (.setData (some .proxyCtx))
    let _ ← resetDeadline e
    let _ ← perform (.storeLimiter e.memoryLimit)
    let inst ← perform .instantiate
    if inst.ok then
      runUntilFailure m [.initializeModule, .contextCreate, .vmStart, .configure]

def poolInitSlot : Script Unit := do
  let created ← perform (.newStore none)
  if created.ok then
    let _ ← resetDeadline e
    let _ ← perform (.storeLimiter e.memoryLimit)
    let _ ← perform .instantiate

/-- One turn of `tick_timer_thread`. -/
def tickTurn : Script Unit := do
  let created ← perform (.newStore none)
  if created.ok then
    let _ ← perform (.setEpochDeadline (if 0 < e.epochDeadlineMs then e.epochDeadlineMs else 5000))
    let inst ← perform .instantiate
    if inst.ok then
      let _ ← perform (.setData (some .proxyCtx))
      let _ ← callWasm m .initializeModule
      let _ ← callWasm m .contextCreate
      let _ ← callWasm m .vmStart
      let _ ← callWasm m .tick

end Scripts

/-- The paths on which guest code runs. A pooled execution has the limit its
slot was created with. -/
inductive ExecPath where
  | engineCall (func : Bytes)
  | execute (pooled : Option ℕ) (x : ExecInput)
  | warmInstance
  | poolSlot
  | tick

def ExecPath.script (e : Limits) (m : WasmModule) : ExecPath → Script Unit
  | .engineCall func => vwasmEngineCall e m func
  | .execute pooled x => proxyWasmExecute e m pooled.isSome x
  | .warmInstance => vwasmWarmInstanceCreate e m
  | .poolSlot => poolInitSlot e
  | .tick => tickTurn e m

structure StoreState where
  data : Option CtxKind := none
  limiter : Option ℕ := none
  budget : ℕ := 0
  deriving DecidableEq, Repr

/-- Where a path starts: a slot waits in its pool with its limiter and without
data; the other paths make their stores. -/
def ExecPath.start : ExecPath → StoreState
  | .execute pooled _ => { limiter := pooled }
  | _ => {}

def RunEvent.ticks : RunEvent → ℕ
  | .elapse ticks => ticks
  | _ => 0

def elapsed (visit : List RunEvent) : ℕ := (visit.map RunEvent.ticks).sum

/-- What an operation does to the store. -/
def StoreOp.effect (s : StoreState) (r : Reply) : StoreOp → StoreState
  | .newStore data => if r.ok then { data := data } else s
  | .setData data => { s with data := data }
  | .setEpochDeadline ticks => { s with budget := ticks }
  | .storeLimiter bytes => { s with limiter := some bytes }
  | .instantiate => s
  | .funcCall _ => s

/-- The store after an operation and the time it took. -/
def storeNext (s : StoreState) (op : StoreOp) (r : Reply) : StoreState :=
  let s' := op.effect s r
  { s' with budget := s'.budget - elapsed r.visit }

/-- Does the operation run guest code? -/
def runsGuest (m : WasmModule) : StoreOp → Bool
  | .instantiate => m.hasStart
  | .funcCall _ => true
  | _ => false

/-- What a module can do while an operation runs: call what it imports. -/
structure Possible (m : WasmModule) (op : StoreOp) (r : Reply) : Prop where
  hostCall : ∀ f, .hostCall f ∈ r.visit → runsGuest m op = true ∧ f ∈ m.imports
  allocator : .allocator ∈ r.visit → runsGuest m op = true ∧ m.exportsAllocator = true
  responses : r.responses ≠ 0 → runsGuest m op = true ∧ .proxy .httpCall ∈ m.imports

theorem possible_quiet (m : WasmModule) (op : StoreOp) (ok : Bool) :
    Possible m op { ok := ok } where
  hostCall f hf := by simp at hf
  allocator hf := by simp at hf
  responses hne := absurd rfl hne

/-- Scripts against any module, judged by `ok`. -/
def storeRules (m : WasmModule) (ok : StoreState → StoreOp → Reply → Prop) :
    Rules StoreOp Reply StoreState where
  possible := Possible m
  ok := ok
  next := storeNext

section Keeps

variable (e : Limits) (m : WasmModule) (ok : StoreState → StoreOp → Reply → Prop)
  (I : StoreState → Prop)

/-- The operation is in order wherever `I` holds, and keeps it. -/
def Step (op : StoreOp) : Prop :=
  ∀ s r, I s → Possible m op r → ok s op r ∧ I (storeNext s op r)

/-- Callbacks are in order and keep `I`. -/
def Calls : Prop :=
  ∀ cb, m.exports cb = true → Step m ok I (.funcCall (exportName cb))

/-- So are all operations of a lifecycle for this phase. -/
structure Keeps (phase : Phase) : Prop where
  calls : Calls m ok I
  reset : Step m ok I (.setEpochDeadline e.epochDeadlineMs)
  data : Step m ok I (.setData (some .proxyCtx))
  deliver : m.exports phase.headersFn = true → m.exports .httpCallResponse = true →
    .proxy .httpCall ∈ m.imports → Step m ok I (.setEpochDeadline defaultEpochDeadlineMs)

variable {e m ok I}

theorem Step.throughout {op : StoreOp} (h : Step m ok I op) {s : StoreState} (hs : I s) :
    Throughout (storeRules m ok) (fun r s' => Possible m op r ∧ I s') (perform op) s :=
  fun r hr => ⟨(h s r hs hr).1, hr, (h s r hs hr).2⟩

namespace Calls

variable (h : Calls m ok I) {s : StoreState} (hs : I s)

include h hs

/-- A callback that comes back with responses belongs to a module with callouts. -/
theorem callWasm (cb : Callback) :
    Throughout (storeRules m ok)
      (fun x s' => I s' ∧ ∀ r, x = some r →
        m.exports cb = true ∧ (r.responses ≠ 0 → .proxy .httpCall ∈ m.imports))
      (callWasm m cb) s := by
  unfold StorePaths.callWasm
  by_cases hexports : m.exports cb = true
  · rw [if_pos hexports, throughout_bind]
    refine ((h cb hexports).throughout hs).mono _ ?_
    rintro r s' ⟨hr, hs'⟩
    refine ⟨hs', fun r' heq => ⟨hexports, fun hne => ?_⟩⟩
    cases hok : r.ok
    · simp [hok] at heq
    · simp only [hok, if_true, Option.some.injEq] at heq
      exact (hr.responses (heq ▸ hne)).2
  · rw [if_neg hexports]
    exact ⟨hs, fun r heq => by simp at heq⟩

/-- A callback whose result is not looked at, and what comes after it. -/
theorem callThen {A : Type} {Q : A → StoreState → Prop} (cb : Callback)
    (k : Option Reply → Script A) (hk : ∀ x s', I s' → Throughout (storeRules m ok) Q (k x) s') :
    Throughout (storeRules m ok) Q (StorePaths.callWasm m cb >>= k) s := by
  rw [throughout_bind]
  exact (h.callWasm hs cb).mono _ fun x s' hx => hk x s' hx.1

theorem runUntilFailure (callbacks : List Callback) :
    Throughout (storeRules m ok) (fun _ s' => I s') (runUntilFailure m callbacks) s := by
  induction callbacks generalizing s with
  | nil => exact hs
  | cons cb rest ih =>
    unfold StorePaths.runUntilFailure
    split
    next hexports =>
      rw [throughout_bind]
      refine ((h cb hexports).throughout hs).mono _ fun r _ hs => ?_
      cases r.ok
      · exact hs.2
      · exact ih hs.2
    next => exact ih hs

end Calls

namespace Keeps

variable {phase : Phase} (h : Keeps e m ok I phase) {s : StoreState} (hs : I s)

include h hs

theorem callThen {A : Type} {Q : A → StoreState → Prop} (cb : Callback)
    (k : Option Reply → Script A) (hk : ∀ x s', I s' → Throughout (storeRules m ok) Q (k x) s') :
    Throughout (storeRules m ok) Q (callWasm m cb >>= k) s :=
  h.calls.callThen hs cb k hk

theorem resetThen {A : Type} {Q : A → StoreState → Prop} (k : Reply → Script A)
    (hk : ∀ x s', I s' → Throughout (storeRules m ok) Q (k x) s') :
    Throughout (storeRules m ok) Q (resetDeadline e >>= k) s := by
  rw [throughout_bind]
  exact (h.reset.throughout hs).mono _ fun r s' hr => hk r s' hr.2

theorem initCallbacks (pooled : Bool) (vmConfig pluginConfig : Bytes) :
    Throughout (storeRules m ok) (fun _ s' => I s')
      (initCallbacks e m pooled vmConfig pluginConfig) s := by
  have hconfigure {s : StoreState} (hs : I s) : Throughout (storeRules m ok) (fun _ s' => I s')
      (do let _ ← resetDeadline e; let _ ← callWasm m .configure) s :=
    h.resetThen hs _ fun _ _ hs => h.callThen hs _ _ fun _ _ hs => hs
  unfold StorePaths.initCallbacks
  cases pooled with
  | false =>
    refine h.callThen hs _ _ fun _ _ hs => h.resetThen hs _ fun _ _ hs => ?_
    refine h.callThen hs _ _ fun _ _ hs => h.resetThen hs _ fun _ _ hs => ?_
    exact h.callThen hs _ _ fun _ _ hs => hconfigure hs
  | true =>
    simp only [if_true]
    by_cases hvm : vmConfig ≠ []
    · rw [if_pos hvm]
      refine h.resetThen hs _ fun _ _ hs => h.callThen hs _ _ fun _ _ hs => ?_
      by_cases hplugin : pluginConfig ≠ []
      · simpa only [throughout_pure, if_pos hplugin] using hconfigure hs
      · simpa only [throughout_pure, if_neg hplugin] using hs
    · rw [if_neg hvm]
      by_cases hplugin : pluginConfig ≠ []
      · simpa only [throughout_pure, if_pos hplugin] using hconfigure hs
      · simpa only [throughout_pure, if_neg hplugin] using hs

theorem deliverResponses (hheaders : m.exports phase.headersFn = true)
    (hexports : m.exports .httpCallResponse = true) (himports : .proxy .httpCall ∈ m.imports)
    (n : ℕ) :
    Throughout (storeRules m ok) (fun _ s' => I s') (deliverResponses n) s := by
  induction n generalizing s with
  | zero => exact hs
  | succ n ih =>
    rw [StorePaths.deliverResponses, throughout_bind]
    refine ((h.deliver hheaders hexports himports).throughout hs).mono _ fun _ s₁ hs₁ => ?_
    rw [throughout_bind]
    refine ((h.calls _ hexports).throughout hs₁.2).mono _ fun r s₂ hs₂ => ?_
    cases r.localResponse
    · exact ih hs₂.2
    · exact hs₂.2

theorem headersPhase :
    Throughout (storeRules m ok) (fun _ s' => I s') (headersPhase e m phase) s := by
  refine h.resetThen hs _ fun _ s₁ hs₁ => ?_
  rw [throughout_bind]
  refine (h.calls.callWasm hs₁ _).mono _ fun x s₂ hs₂ => ?_
  cases x with
  | none => exact hs₂.1
  | some r =>
    dsimp only
    split
    next hdeliver =>
      rw [throughout_bind]
      obtain ⟨hheaders, himports⟩ := hs₂.2 r rfl
      exact h.deliverResponses hs₂.1 hheaders hdeliver.2 (himports hdeliver.1) r.responses
    next => exact hs₂.1

theorem closeStream :
    Throughout (storeRules m ok) (fun _ s' => I s')
      (do let _ ← callWasm m .log
          let _ ← callWasm m .done
          let _ ← callWasm m .delete) s :=
  h.callThen hs _ _ fun _ _ hs => h.callThen hs _ _ fun _ _ hs => h.callThen hs _ _ fun _ _ hs => hs

theorem finishStream (taskAlloc privTask : Bool) :
    Throughout (storeRules m ok) (fun _ s' => I s')
      (finishStream m phase taskAlloc privTask) s := by
  have hclose {s : StoreState} (hs : I s) : Throughout (storeRules m ok) (fun _ s' => I s')
      (do let _ ← callWasm m .log
          let _ ← callWasm m .done
          let _ ← callWasm m .delete
          return false) s :=
    h.callThen hs _ _ fun _ _ hs => h.callThen hs _ _ fun _ _ hs =>
      h.callThen hs _ _ fun _ _ hs => hs
  unfold StorePaths.finishStream
  split
  · cases taskAlloc
    · exact hs
    · exact (h.data.throughout hs).mono _ fun _ _ hs => hs.2
  · split
    · exact h.callThen hs _ _ fun _ _ hs => hclose hs
    · exact hclose hs

theorem runModule (pooled : Bool) (vmConfig pluginConfig : Bytes) (taskAlloc privTask : Bool) :
    Throughout (storeRules m ok) (fun _ s' => I s')
      (runModule e m pooled phase vmConfig pluginConfig taskAlloc privTask) s := by
  unfold StorePaths.runModule
  rw [throughout_bind]
  refine (h.initCallbacks hs _ _ _).mono _ fun _ _ hs => ?_
  refine h.resetThen hs _ fun _ _ hs => h.callThen hs _ _ fun _ _ hs => ?_
  rw [throughout_bind]
  refine (h.headersPhase hs).mono _ fun x _ hs => ?_
  cases x with
  | none => exact hs
  | some verdict =>
    dsimp only
    split
    · exact hs
    · split
      · exact hs
      · exact h.finishStream hs _ _

theorem vdpStream (chunks : ℕ) :
    Throughout (storeRules m ok) (fun _ s' => I s') (vdpStream e m chunks) s := by
  induction chunks generalizing s with
  | zero => exact h.resetThen hs _ fun _ _ hs => h.closeStream hs
  | succ chunks ih =>
    exact h.resetThen hs _ fun _ _ hs => h.callThen hs _ _ fun _ _ hs => ih hs

theorem lifecycle (pooled : Bool) (x : ExecInput) (hphase : x.phase = phase) :
    Throughout (storeRules m ok) (fun _ s' => I s') (lifecycle e m pooled x) s := by
  subst hphase
  unfold StorePaths.lifecycle
  rw [throughout_bind]
  refine (h.runModule hs _ _ _ _ _).mono _ fun deferred _ hs => ?_
  split
  · exact h.vdpStream hs _
  · exact hs

end Keeps

end Keeps

end VmodWasm.StorePaths
