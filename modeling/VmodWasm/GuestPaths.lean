import VmodWasm.VdpStream

/-!
The paths on which guest code runs with the callout import: filter executions,
the delivery of a response body, warm-up and ticks. Each of them builds a
context of its own. One rule for each path says which invariants of the host
state it keeps.
-/
namespace VmodWasm.GuestPaths

open ByteStrings ProxyContext HostCalls Execute VdpStream

variable {σ : Type}

/-- The context of a warm-up: no limit, no timeout and no allowlist. -/
def warmCtx (name vmConfig pluginConfig : Bytes) : ProxyCtx where
  rootContextId := 1
  streamContextId := 2
  moduleName := name
  vmConfig := vmConfig
  pluginConfig := pluginConfig

/-- Callbacks of a warm-up: those exported run in order until one fails. -/
def runUntilFailure (env : HostEnv) (g : Guest σ) :
    List (Callback × List ℤ) → Machine σ → Bool × Machine σ
  | [], m => (true, m)
  | (cb, args) :: rest, m =>
    if g.exports cb then
      match enterGuest env g cb args m with
      | (.returned _, m') => runUntilFailure env g rest m'
      | (.trapped, m') => (false, m')
    else runUntilFailure env g rest m

/-- The guest side of `vwasm_warm_instance_create`. -/
def warmInstanceRun (env : HostEnv) (g : Guest σ) (name vmConfig pluginConfig : Bytes) (w : σ) :
    Bool × Machine σ :=
  match instantiate env g false ⟨w, { ctx := warmCtx name vmConfig pluginConfig }⟩ with
  | (false, m) => (false, m)
  | (true, m) =>
    runUntilFailure env g
      [(.initializeModule, []), (.contextCreate, [1, 0]), (.vmStart, [1, vmConfig.length]),
        (.configure, [1, pluginConfig.length])]
      (resolveMemory g m)

def tickCtx (name : Bytes) : ProxyCtx where
  rootContextId := 1
  moduleName := name

/-- One turn of `tick_timer_thread` after its instantiation, during which the
store has no context for host calls. The memory export is never resolved. -/
def tickRun (env : HostEnv) (g : Guest σ) (name : Bytes) (w : σ) : Machine σ :=
  let m : Machine σ := ⟨w, { ctx := tickCtx name }⟩
  let m := callIgnored env g .initializeModule [] m
  let m := callIgnored env g .contextCreate [1, 0] m
  let m := callIgnored env g .vmStart [1, 0] m
  callIgnored env g .tick [1] m

/-- The paths on which guest code runs with the callout import. -/
inductive Path where
  | filter | body | warmUp | tick
  deriving DecidableEq, Repr

structure PathInput (σ : Type) where
  env : ExecEnv := {}
  name : Bytes
  phase : Phase := .request
  vmConfig : Bytes := []
  pluginConfig : Bytes := []
  calls : List VdpCall := []
  world : σ
  bodyWorld : σ

/-- The host state a path ends with; the body path is a response call with its
deferred part. Without the module nothing runs. -/
def pathHost (engine : Engine σ) (x : PathInput σ) : Path → HostState
  | .filter =>
    (proxyWasmExecute engine x.env x.name x.phase x.vmConfig x.pluginConfig x.world).machine.host
  | .body =>
    let r := proxyWasmExecute engine x.env x.name .response x.vmConfig x.pluginConfig x.world
    match findModule engine x.name, r.task with
    | some g, some task =>
      let m := (runStream (hostEnv engine x.env) g 0 x.calls ⟨x.bodyWorld, task.host⟩).2
      (vdpWasmFini (hostEnv engine x.env) g m).host
    | _, _ => r.machine.host
  | .warmUp =>
    match findModule engine x.name with
    | some g =>
      (warmInstanceRun (hostEnv engine x.env) g x.name x.vmConfig x.pluginConfig x.world).2.host
    | none => { ctx := warmCtx x.name x.vmConfig x.pluginConfig }
  | .tick =>
    match findModule engine x.name with
    | some g => (tickRun (hostEnv engine x.env) g x.name x.world).host
    | none => { ctx := tickCtx x.name }

section Invariant

variable (engine : Engine σ) (x : PathInput σ) (I : HostState → Prop)

theorem filterHost_invariant (hI : ExecInvariant (hostEnv engine x.env) I)
    (h : I { ctx := setupCtx engine x.name x.vmConfig x.pluginConfig }) :
    I (pathHost engine x .filter) :=
  proxyWasmExecute_invariant engine x.env I hI x.name x.phase x.vmConfig x.pluginConfig x.world h

theorem bodyHost_invariant (hI : ExecInvariant (hostEnv engine x.env) I)
    (hS : StreamInvariant (hostEnv engine x.env) I)
    (h : I { ctx := setupCtx engine x.name x.vmConfig x.pluginConfig }) :
    I (pathHost engine x .body) := by
  have hfilter := proxyWasmExecute_invariant engine x.env I hI x.name .response x.vmConfig
    x.pluginConfig x.world h
  simp only [pathHost]
  split
  next g task _ htask =>
    rw [← proxyWasmExecute_task _ _ _ _ _ _ _ _ htask] at hfilter
    exact closeStream_invariant _ I hI.toHostInvariant g _
      (runStream_invariant _ I hS g 0 x.calls ⟨x.bodyWorld, task.host⟩ hfilter)
  next => exact hfilter

theorem runUntilFailure_invariant (env : HostEnv) (hI : HostInvariant env I) (g : Guest σ)
    (callbacks : List (Callback × List ℤ)) (m : Machine σ) (h : I m.host) :
    I (runUntilFailure env g callbacks m).2.host := by
  induction callbacks generalizing m with
  | nil => exact h
  | cons c callbacks ih =>
    obtain ⟨cb, args⟩ := c
    have henter := enterGuest_invariant env I hI g cb args m h
    rw [runUntilFailure]
    split
    · split
      next hr =>
        rw [hr] at henter
        exact ih _ henter
      next hr => rwa [hr] at henter
    · exact ih _ h

theorem warmHost_invariant (hI : ExecInvariant (hostEnv engine x.env) I)
    (h : I { ctx := warmCtx x.name x.vmConfig x.pluginConfig }) :
    I (pathHost engine x .warmUp) := by
  simp only [pathHost]
  split
  next g _ =>
    have hinst := instantiate_invariant (hostEnv engine x.env) I hI.toHostInvariant g false
      ⟨x.world, _⟩ h
    unfold warmInstanceRun
    split
    next hr => rwa [hr] at hinst
    next hr =>
      rw [hr] at hinst
      exact runUntilFailure_invariant I _ hI.toHostInvariant g _ _ (hI.memory _ _ hinst)
  next => exact h

theorem tickHost_invariant (hI : HostInvariant (hostEnv engine x.env) I)
    (h : I { ctx := tickCtx x.name }) : I (pathHost engine x .tick) := by
  have hcall := callIgnored_invariant (σ := σ) (hostEnv engine x.env) I hI
  simp only [pathHost]
  split
  next g _ => exact hcall g _ _ _ (hcall g _ _ _ (hcall g _ _ _ (hcall g _ _ _ h)))
  next => exact h

end Invariant

end VmodWasm.GuestPaths
