import VmodWasm.GuestStores
import VmodWasm.Lib.Mealy

/-!
The limits of the engine on every path that runs guest code. `vcl_init` sets the
limits, loads modules and builds their pools in any order; a slot of a pool keeps
the limiter it was created with.
-/
namespace VmodWasm.ResourceLimits

open ByteStrings ProxyContext HostImports StorePaths PathEntries GuestStores Lib.Interaction
  Lib.Obligations Lib

/-- A loaded module, with the memory limit of the slots in its pool. -/
structure Loaded where
  name : Bytes
  wasm : WasmModule
  pool : Option ℕ := none

structure EngineConfig where
  limits : Limits := {}
  modules : List Loaded := []

def maxModules : ℕ := 64

/-- The calls of `vcl_init`. Compiling and linking a module, creating its warm
instance and allocating its pool can fail. -/
inductive ConfigCall where
  | setMemoryLimit (limit : ℤ)
  | setEpochDeadline (ms : ℤ)
  | load (name : Bytes) (linked : Option WasmModule)
  | setStorePoolSize (name : Bytes) (size : ℤ) (warmed allocated : Bool)

/-- The rest of `vwasm_engine_init_pool`. Modules with `_initialize` get no pool;
an allocation that fails leaves no pool behind. -/
def initPool (c : EngineConfig) (idx : ℕ) (l : Loaded) (warmed allocated : Bool) :
    Bool × EngineConfig :=
  if !warmed then (false, c)
  else if l.wasm.exports .initializeModule then (true, c)
  else
    let pool := if allocated then some c.limits.memoryLimit else none
    (allocated, { c with modules := c.modules.set idx { l with pool := pool } })

/-- A call of `vcl_init`, and whether it is accepted. -/
def configStep (c : EngineConfig) : ConfigCall → Bool × EngineConfig
  | .setMemoryLimit limit =>
    if limit ≤ 0 then (false, c)
    else (true, { c with limits := { c.limits with memoryLimit := limit.toNat } })
  | .setEpochDeadline ms =>
    if ms ≤ 0 then (false, c)
    else (true, { c with limits := { c.limits with epochDeadlineMs := ms.toNat } })
  | .load name linked =>
    if name = [] then (false, c)
    else if c.modules.any (fun l => l.name = name) then (false, c)
    else
      match linked with
      | none => (false, c)
      | some wasm =>
        if maxModules ≤ c.modules.length then (false, c)
        else (true, { c with modules := c.modules ++ [{ name := name, wasm := wasm }] })
  | .setStorePoolSize name size warmed allocated =>
    if name = [] then (false, c)
    else if size < 1 ∨ 256 < size then (false, c)
    else
      let idx := c.modules.findIdx fun l => l.name = name
      match c.modules[idx]? with
      | none => (false, c)
      | some l => initPool c idx l warmed allocated

/-- The engine after the calls of `vcl_init`, from the defaults on. -/
def configure (calls : List ConfigCall) : EngineConfig := Mealy.after configStep {} calls

/-- The ways to run a loaded module. An execution takes a slot if it can acquire
one. -/
inductive Route where
  | engineCall (func : Bytes)
  | execute (acquired : Bool) (x : ExecInput)
  | warmInstance
  | poolSlot
  | tick

def Route.path (l : Loaded) : Route → ExecPath
  | .engineCall func => .engineCall func
  | .execute acquired x => .execute (if acquired then l.pool else none) x
  | .warmInstance => .warmInstance
  | .poolSlot => .poolSlot
  | .tick => .tick

/-- A guest function can be entered after `spent` ticks in this store. -/
def EntryOk (e : Limits) (s : StoreState) (spent : ℕ) : Prop :=
  s.limiter = some e.memoryLimit ∧ s.budget - spent ≤ e.epochDeadlineMs

/-- The guest functions an operation enters, and the allocator that host
functions enter meanwhile. -/
def limitsOk (e : Limits) (m : WasmModule) (s : StoreState) (op : StoreOp) (r : Reply) : Prop :=
  (runsGuest m op = true → EntryOk e s 0) ∧
    ∀ pre post, r.visit = pre ++ .allocator :: post → EntryOk e s (elapsed pre)

/-- The limits of the engine hold on one path, whatever the module and Wasmtime
do. -/
def LimitsHold (e : Limits) (m : WasmModule) (path : ExecPath) : Prop :=
  Throughout (storeRules m (limitsOk e m)) (fun _ _ => True) (path.script e m) path.start

theorem limitsOk_of_entryOk {e : Limits} {m : WasmModule} {s : StoreState} {op : StoreOp}
    {r : Reply} (h : EntryOk e s 0) : limitsOk e m s op r :=
  ⟨fun _ => h, fun _ _ _ => ⟨h.1, (Nat.sub_le _ _).trans h.2⟩⟩

theorem limitsOk_quiet (e : Limits) (m : WasmModule) (s : StoreState) (op : StoreOp) (r : Reply)
    (hop : runsGuest m op = false) (hr : Possible m op r) : limitsOk e m s op r := by
  refine ⟨fun hruns => by simp [hop] at hruns, fun pre post hvisit => ?_⟩
  have hruns := (hr.allocator (by simp [hvisit])).1
  simp [hop] at hruns

/-- Guest code that the path can come to is within the limits. -/
theorem entryOk_of_possibly {e : Limits} {m : WasmModule} {path : ExecPath}
    {V : StoreState → StoreOp → Prop} (h : LimitsHold e m path)
    (hcomes : Possibly (storeRules m (limitsOk e m)) V (fun _ _ => False) (path.script e m)
      path.start)
    (hV : ∀ s op, V s op → runsGuest m op = true) : ∃ s op, V s op ∧ EntryOk e s 0 := by
  by_contra hnot
  refine h.not_possibly _ (hcomes.mono _ ?_ fun _ _ h => h.elim)
  intro s op hsop
  refine ⟨{}, possible_quiet m op true, fun hok => hnot ⟨s, op, hsop, hok.1 (hV s op hsop)⟩⟩

/-- The limits hold on a path exactly if its limiter has the configured limit
wherever guest code runs, and no delivery comes with a longer deadline. -/
theorem limitsHold_iff_path (e : Limits) (m : WasmModule) (path : ExecPath) :
    LimitsHold e m path ↔
      (Enters m path ∨ StartsBare m path → limiterOf e path = some e.memoryLimit) ∧
        (delivers m path = true → defaultEpochDeadlineMs ≤ e.epochDeadlineMs) := by
  constructor
  · intro h
    refine ⟨?_, fun hdelivers => ?_⟩
    · rintro (henters | hbare)
      · obtain ⟨s, op, hrun, hok⟩ :=
          entryOk_of_possibly h (possibly_enters e _ path henters) fun _ _ hrun => hrun.1
        exact hrun.2.2 ▸ hok.1
      · obtain ⟨s, op, hrun, hok⟩ :=
          entryOk_of_possibly h (possibly_bare e _ path hbare) fun _ _ hrun => hrun.1
        exact hrun.2.2 ▸ hok.1
    · obtain ⟨s, op, hrun, hok⟩ :=
        entryOk_of_possibly h (possibly_delivers e _ path hdelivers) fun _ _ hrun => hrun.1
      exact hrun.2 ▸ hok.2
  · rintro ⟨hlimiter, hdelivers⟩
    have hbudget (hruns : Enters m path ∨ StartsBare m path) :
        budgetOf e m path ≤ e.epochDeadlineMs := by
      unfold budgetOf
      split
      next =>
        -- the tick thread sets no limiter
        have htick := hlimiter hruns
        simp [limiterOf] at htick
      next =>
        split
        next hd => exact Nat.max_le.mpr ⟨Nat.le_refl _, hdelivers hd⟩
        next => exact Nat.le_refl _
    refine Accepts.throughout ⟨limitsOk_quiet e m, ?_, ?_⟩
    · intro henters s op r hs _
      have hle := hs.budget.trans (hbudget (Or.inl henters))
      exact limitsOk_of_entryOk ⟨hs.limiter.trans (hlimiter (Or.inl henters)), hle⟩
    · intro hbare s r _ hs hle _
      have hle := hle.trans (hbudget (Or.inr hbare))
      exact limitsOk_of_entryOk ⟨hs.trans (hlimiter (Or.inr hbare)), hle⟩

/-- What keeps a route of a loaded module within the limits. The tick thread
enters no guest code; a slot that is used was created under the memory limit of
now; responses are delivered only if the deadline is at least the default one. -/
structure Covered (c : EngineConfig) (l : Loaded) (route : Route) : Prop where
  tick : route = .tick → ¬ Enters l.wasm .tick ∧ l.wasm.hasStart = false
  slot : ∀ x limit, route = .execute true x → l.pool = some limit →
    Enters l.wasm (.execute (some limit) x) → limit = c.limits.memoryLimit
  delivery : delivers l.wasm (route.path l) = true →
    defaultEpochDeadlineMs ≤ c.limits.epochDeadlineMs

theorem limiter_iff (c : EngineConfig) (l : Loaded) (route : Route) :
    (Enters l.wasm (route.path l) ∨ StartsBare l.wasm (route.path l) →
      limiterOf c.limits (route.path l) = some c.limits.memoryLimit) ↔
    (route = .tick → ¬ Enters l.wasm .tick ∧ l.wasm.hasStart = false) ∧
      (∀ x limit, route = .execute true x → l.pool = some limit →
        Enters l.wasm (.execute (some limit) x) → limit = c.limits.memoryLimit) := by
  cases route with
  | execute acquired x =>
    cases acquired with
    | false => simp [Route.path, limiterOf]
    | true =>
      cases hpool : l.pool with
      | none => simp [Route.path, limiterOf, hpool]
      | some limit =>
        simp only [Route.path, hpool, if_true, limiterOf, StartsBare, or_false,
          Option.some.injEq, reduceCtorEq, false_implies, true_and, Route.execute.injEq]
        refine ⟨?_, fun h henters => h x limit rfl rfl henters⟩
        rintro h x limit rfl rfl henters
        exact h henters
  | engineCall func => simp [Route.path, limiterOf]
  | warmInstance => simp [Route.path, limiterOf]
  | poolSlot => simp [Route.path, limiterOf]
  | tick => simp [Route.path, limiterOf, StartsBare]

/-- After any calls of `vcl_init`, the limits of the engine hold on a route of a
loaded module exactly if the route is covered. -/
theorem limitsHold_iff (calls : List ConfigCall) (i : Fin (configure calls).modules.length)
    (route : Route) :
    LimitsHold (configure calls).limits ((configure calls).modules.get i).wasm
        (route.path ((configure calls).modules.get i)) ↔
      Covered (configure calls) ((configure calls).modules.get i) route := by
  rw [limitsHold_iff_path, limiter_iff]
  constructor
  · rintro ⟨⟨htick, hslot⟩, hdelivery⟩
    exact ⟨htick, hslot, hdelivery⟩
  · intro h
    exact ⟨⟨h.tick, h.slot⟩, h.delivery⟩

/-- A filter with a callout and a timer. -/
def calloutFilter : WasmModule where
  importNames := [HostImport.name (.proxy .httpCall)]
  resolves name hname := by
    rw [List.mem_singleton.mp hname, resolve_name]
    rfl
  exportsFn name := name = ascii "proxy_on_request_headers" ||
    name = ascii "proxy_on_http_call_response" || name = ascii "proxy_on_tick"
  hasStart := false

/-- The pool is built before the limits are set. -/
def poolFirst : List ConfigCall :=
  [.load (ascii "filter") (some calloutFilter), .setStorePoolSize (ascii "filter") 4 true true,
    .setMemoryLimit 1048576, .setEpochDeadline 50]

def pooledFilter : Loaded :=
  { name := ascii "filter", wasm := calloutFilter, pool := some (16 * 1024 * 1024) }

/-- Its timer runs without a limiter, its slots keep the default memory limit,
and the response of its callout is handled with 5000 ms instead of 50. -/
theorem poolFirst_exceeds :
    (configure poolFirst).modules = [pooledFilter] ∧
      (configure poolFirst).limits = { memoryLimit := 1048576, epochDeadlineMs := 50 } ∧
      ¬ LimitsHold (configure poolFirst).limits calloutFilter (Route.tick.path pooledFilter) ∧
      ¬ LimitsHold (configure poolFirst).limits calloutFilter
        ((Route.execute true {}).path pooledFilter) ∧
      ¬ LimitsHold (configure poolFirst).limits calloutFilter
        ((Route.execute false {}).path pooledFilter) := by
  have htick : calloutFilter.exports .tick = true := by decide +kernel
  have hheaders : calloutFilter.exports .requestHeaders = true := by decide +kernel
  have hdelivers : delivers calloutFilter (.execute none {}) = true := by
    have himports : .proxy .httpCall ∈ calloutFilter.imports := by
      simp [WasmModule.imports, calloutFilter, resolve_name]
    have hresponse : calloutFilter.exports .httpCallResponse = true := by decide +kernel
    simp [delivers, himports, hresponse, hheaders, Execute.Phase.headersFn]
  have hlimits : (configure poolFirst).limits = { memoryLimit := 1048576, epochDeadlineMs := 50 } :=
    rfl
  rw [hlimits, limitsHold_iff_path, limitsHold_iff_path, limitsHold_iff_path]
  refine ⟨rfl, rfl, fun h => ?_, fun h => ?_, fun h => ?_⟩
  · have hlimiter := h.1 (Or.inl (Or.inl ⟨.tick, by simp [entries, Route.path], htick⟩))
    simp [limiterOf, Route.path] at hlimiter
  · have hlimiter := h.1 (Or.inl (Or.inl ⟨.requestHeaders, by
      simp [entries, Route.path, pooledFilter, Execute.Phase.headersFn], hheaders⟩))
    simp [limiterOf, Route.path, pooledFilter] at hlimiter
  · have hle := h.2 hdelivers
    simp [defaultEpochDeadlineMs] at hle

section Order

/-- Every slot has the memory limit that is configured. -/
def PoolsCurrent (c : EngineConfig) : Prop :=
  ∀ l ∈ c.modules, ∀ limit, l.pool = some limit → limit = c.limits.memoryLimit

theorem mem_initPool {c : EngineConfig} {idx : ℕ} {target l : Loaded} {warmed allocated : Bool}
    (hl : l ∈ (initPool c idx target warmed allocated).2.modules) :
    l ∈ c.modules ∨ l.pool = none ∨ l.pool = some c.limits.memoryLimit := by
  unfold initPool at hl
  split at hl
  next => exact Or.inl hl
  next =>
    split at hl
    next => exact Or.inl hl
    next =>
      rcases List.mem_or_eq_of_mem_set hl with hl | rfl
      · exact Or.inl hl
      · cases allocated with
        | false => exact Or.inr (Or.inl rfl)
        | true => exact Or.inr (Or.inr rfl)

/-- A call adds modules without a pool, and slots under the present limit. -/
theorem mem_configStep {c : EngineConfig} {call : ConfigCall} {l : Loaded}
    (hl : l ∈ (configStep c call).2.modules) :
    l ∈ c.modules ∨ l.pool = none ∨
      ((∃ name size warmed allocated, call = .setStorePoolSize name size warmed allocated) ∧
        l.pool = some c.limits.memoryLimit) := by
  cases call with
  | setMemoryLimit limit =>
    simp only [configStep] at hl
    split at hl <;> exact Or.inl hl
  | setEpochDeadline ms =>
    simp only [configStep] at hl
    split at hl <;> exact Or.inl hl
  | load name linked =>
    simp only [configStep] at hl
    split at hl
    next => exact Or.inl hl
    split at hl
    next => exact Or.inl hl
    split at hl
    next => exact Or.inl hl
    split at hl
    next => exact Or.inl hl
    rcases List.mem_append.mp hl with hl | hl
    · exact Or.inl hl
    · rw [List.mem_singleton.mp hl]
      exact Or.inr (Or.inl rfl)
  | setStorePoolSize name size warmed allocated =>
    simp only [configStep] at hl
    split at hl
    next => exact Or.inl hl
    split at hl
    next => exact Or.inl hl
    split at hl
    next => exact Or.inl hl
    rcases mem_initPool hl with hl | hnone | hpool
    · exact Or.inl hl
    · exact Or.inr (Or.inl hnone)
    · exact Or.inr (Or.inr ⟨⟨_, _, _, _, rfl⟩, hpool⟩)

theorem memoryLimit_configStep {c : EngineConfig} {call : ConfigCall}
    (hcall : ∀ limit, call ≠ .setMemoryLimit limit) :
    (configStep c call).2.limits.memoryLimit = c.limits.memoryLimit := by
  cases call with
  | setMemoryLimit limit => exact absurd rfl (hcall limit)
  | setEpochDeadline ms =>
    simp only [configStep]
    split <;> rfl
  | load name linked =>
    simp only [configStep]
    repeat' split
    all_goals rfl
  | setStorePoolSize name size warmed allocated =>
    simp only [configStep, initPool]
    repeat' split
    all_goals rfl

/-- A configuration that sets the memory limit first and builds pools then has
only slots under that limit. -/
theorem poolsCurrent_of_order (first later : List ConfigCall)
    (hfirst : ∀ name size warmed allocated,
      .setStorePoolSize name size warmed allocated ∉ first)
    (hlater : ∀ limit, .setMemoryLimit limit ∉ later) :
    PoolsCurrent (configure (first ++ later)) := by
  have hnone : ∀ l ∈ (configure first).modules, l.pool = none := by
    refine Mealy.after_keeps configStep (fun c => ∀ l ∈ c.modules, l.pool = none) {}
      (by simp) first fun c call hcall h l hl => ?_
    rcases mem_configStep hl with hl | hl | ⟨⟨name, size, warmed, allocated, rfl⟩, -⟩
    · exact h l hl
    · exact hl
    · exact absurd hcall (hfirst name size warmed allocated)
  rw [configure, Mealy.after_append]
  refine Mealy.after_keeps configStep PoolsCurrent _ ?_ later
    fun c call hcall h l hl limit hpool => ?_
  · intro l hl limit hpool
    simp [hnone l hl] at hpool
  · rw [memoryLimit_configStep fun limit' heq => hlater limit' (heq ▸ hcall)]
    rcases mem_configStep hl with hl | hl | ⟨-, hl⟩
    · exact h l hl limit hpool
    · simp [hl] at hpool
    · exact Option.some.inj (hpool.symm.trans hl)

end Order

end VmodWasm.ResourceLimits
