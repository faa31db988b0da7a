import VmodWasm.AllowlistText
import VmodWasm.StorePool
import VmodWasm.Lib.Blocks

/-!
What an engine has allocated, from `vwasm_engine_new` to `vwasm_engine_destroy`:
modules, warm snapshots, store pools, the HTTP pool, tick timers and the list of
upstreams. Every function can fail at each of its allocations. Threads read the
engine and its modules until they are joined, and deleting a store reads the
engine, so the order of the teardown matters.
-/
namespace VmodWasm.EngineResources

open ByteStrings StorePool AllowlistText Lib.Blocks

inductive Resource where
  | engine | wasmEngine | linker | epochThread | fileBytes | wasmModule | instancePre | text
  | snapshot | store | poolPart | httpPool | tickTimer | upstreams
  deriving DecidableEq, Repr

/-- `struct store_pool_internal` with its three arrays and the stores of the slots
that could be set up. -/
structure PoolBlocks where
  self : ℕ
  slotStates : ℕ
  slots : ℕ
  storeObjects : ℕ
  stores : List ℕ

/-- Module `i` and the entries `i` of the arrays beside the module table. -/
structure ModuleBlocks where
  name : Bytes
  nameCopy : ℕ
  instancePre : ℕ
  wasmModule : ℕ
  snapshot : Option ℕ := none
  pool : Option PoolBlocks := none
  tickTimer : Option ℕ := none

structure EngineBlocks where
  self : ℕ
  wasmEngine : ℕ
  linker : ℕ
  epochThread : ℕ
  modules : List ModuleBlocks := []
  httpPool : Option ℕ := none
  allowedUpstreams : Option (ℕ × List ℕ) := none

def maxModules : ℕ := 64

section Model

structure NewEnv where
  alloc : Bool := true
  config : Bool := true
  wasmEngine : Bool := true
  linker : Bool := true
  imports : Bool := true
  thread : Bool := true

/-- The configuration is taken over by the Wasmtime engine. -/
def vwasmEngineNew (env : NewEnv) : Mem Resource (Option EngineBlocks) :=
  if env.alloc then do
    let self ← malloc .engine
    if env.config && env.wasmEngine then
      let wasmEngine ← malloc .wasmEngine
      if env.linker then
        let linker ← malloc .linker
        if env.imports && env.thread then
          let epochThread ← malloc .epochThread
          pure (some ⟨self, wasmEngine, linker, epochThread, [], none, none⟩)
        else
          free linker
          free wasmEngine
          free self
          pure none
      else
        free wasmEngine
        free self
        pure none
    else
      free self
      pure none
  else pure none

/-- How far a module gets: its file, the buffer for it, its compilation, its imports
and the copy of its name. -/
structure LoadEnv where
  sized : Bool := true
  bufAlloc : Bool := true
  read : Bool := true
  compiled : Bool := true
  linked : Bool := true
  nameAlloc : Bool := true

def findModule (e : EngineBlocks) (name : Bytes) : Option ℕ :=
  e.modules.findIdx? fun entry => entry.name == name

/-- The part of `vwasm_engine_load_module` behind the compilation. -/
def storeModule (env : LoadEnv) (e : EngineBlocks) (name : Bytes) (wasmModule : ℕ) :
    Mem Resource (Bool × EngineBlocks) :=
  if e.modules.length < maxModules then
    if env.linked then do
      let instancePre ← malloc .instancePre
      if env.nameAlloc then
        let nameCopy ← malloc .text
        let entry : ModuleBlocks :=
          { name := name, nameCopy := nameCopy, instancePre := instancePre, wasmModule := wasmModule }
        pure (true, { e with modules := e.modules ++ [entry] })
      else
        free instancePre
        free wasmModule
        pure (false, e)
    else do
      free wasmModule
      pure (false, e)
  else do
    free wasmModule
    pure (false, e)

def vwasmEngineLoadModule (env : LoadEnv) (e : EngineBlocks) (name : Bytes) :
    Mem Resource (Bool × EngineBlocks) :=
  if (findModule e name).isSome then pure (false, e)
  else if env.sized && env.bufAlloc then do
    let bytes ← malloc .fileBytes
    if env.read && env.compiled then
      let wasmModule ← malloc .wasmModule
      free bytes
      storeModule env e name wasmModule
    else
      free bytes
      pure (false, e)
  else pure (false, e)

/-- `store` and `completed`: the store for the warm-up and its end without an error. -/
structure WarmEnv where
  store : Bool := true
  completed : Bool := true
  snapshotAlloc : Bool := true
  hasInitialize : Bool := false

/-- What `vwasm_warm_instance_create` keeps is the snapshot. -/
def vwasmWarmInstanceCreate (env : WarmEnv) (wasmEngine : ℕ) (entry : ModuleBlocks) :
    Mem Resource (Option ℕ) := do
  let _ ← load wasmEngine
  if env.store then
    let store ← malloc .store
    let _ ← load entry.instancePre
    if env.completed && env.snapshotAlloc then
      let snapshot ← malloc .snapshot
      free store
      pure (some snapshot)
    else
      free store
      pure none
  else pure none

inductive SlotInit where
  | noStore | failed | ready
  deriving DecidableEq, Repr

/-- The loop over the slots with `pool_init_slot`. -/
def initSlots (wasmEngine : ℕ) (entry : ModuleBlocks) : List SlotInit → Mem Resource (List ℕ)
  | [] => pure []
  | .noStore :: inits => do
    let _ ← load wasmEngine
    initSlots wasmEngine entry inits
  | .failed :: inits => do
    let _ ← load wasmEngine
    let store ← malloc .store
    let _ ← load entry.instancePre
    free store
    initSlots wasmEngine entry inits
  | .ready :: inits => do
    let _ ← load wasmEngine
    let store ← malloc .store
    let _ ← load entry.instancePre
    let stores ← initSlots wasmEngine entry inits
    pure (store :: stores)

structure PoolEnv where
  alloc : Bool := true
  states : Bool := true
  slots : Bool := true
  objects : Bool := true
  init : ℕ → SlotInit := fun _ => .ready

def vwasmStorePoolNew (env : PoolEnv) (size wasmEngine : ℕ) (entry : ModuleBlocks) :
    Mem Resource (Option PoolBlocks) :=
  if env.alloc then do
    let self ← malloc .poolPart
    if env.states then
      let slotStates ← malloc .poolPart
      if env.slots then
        let slots ← malloc .poolPart
        if env.objects then
          let storeObjects ← malloc .poolPart
          let stores ← initSlots wasmEngine entry
            ((List.range (clampPoolSize size)).map env.init)
          pure (some ⟨self, slotStates, slots, storeObjects, stores⟩)
        else
          free slots
          free slotStates
          free self
          pure none
      else
        free slotStates
        free self
        pure none
    else
      free self
      pure none
  else pure none

/-- `vwasm_engine_init_pool` for the entry of the module. The warm instance is
cleared before it is set up, without a look at what it had. -/
def initPoolEntry (warm : WarmEnv) (pool : PoolEnv) (size wasmEngine : ℕ) (entry : ModuleBlocks) :
    Mem Resource (Bool × ModuleBlocks) := do
  let snapshot ← vwasmWarmInstanceCreate warm wasmEngine entry
  match snapshot with
  | none => pure (false, { entry with snapshot := none })
  | some snapshot =>
    if warm.hasInitialize then
      free snapshot
      pure (true, { entry with snapshot := none })
    else
      let made ← vwasmStorePoolNew pool size wasmEngine entry
      match made with
      | none =>
        free snapshot
        pure (false, { entry with snapshot := none, pool := none })
      | some made => pure (true, { entry with snapshot := some snapshot, pool := some made })

def defaultStorePoolSize : ℕ := 8

def vwasmEngineInitPool (warm : WarmEnv) (pool : PoolEnv) (e : EngineBlocks) (name : Bytes)
    (size : ℕ) : Mem Resource (Bool × EngineBlocks) :=
  match (findModule e name).bind fun i => (e.modules[i]?).map fun entry => (i, entry) with
  | none => pure (false, e)
  | some (i, entry) => do
    let size := if size = 0 then defaultStorePoolSize else size
    let (ok, entry) ← initPoolEntry warm pool size e.wasmEngine entry
    pure (ok, { e with modules := e.modules.set i entry })

def vwasmEngineInitHttpPool (alloc : Bool) (e : EngineBlocks) :
    Mem Resource (Bool × EngineBlocks) := do
  freeOpt e.httpPool
  if alloc then
    let httpPool ← malloc .httpPool
    pure (true, { e with httpPool := some httpPool })
  else pure (false, { e with httpPool := none })

/-- A tick thread reads its engine and its module until it is joined. -/
def stopTimer (wasmEngine : ℕ) (entry : ModuleBlocks) : Mem Resource Unit :=
  match entry.tickTimer with
  | none => pure ()
  | some timer => do
    let _ ← load wasmEngine
    let _ ← load entry.wasmModule
    let _ ← load entry.instancePre
    free timer

/-- `vwasm_engine_set_tick_period`, called by a thread that is none of the timers. -/
def vwasmEngineSetTickPeriod (alloc thread : Bool) (e : EngineBlocks) (name : Bytes)
    (periodMs : ℕ) : Mem Resource (Bool × EngineBlocks) :=
  match (findModule e name).bind fun i => (e.modules[i]?).map fun entry => (i, entry) with
  | none => pure (false, e)
  | some (i, entry) => do
    stopTimer e.wasmEngine entry
    let stopped := { e with modules := e.modules.set i { entry with tickTimer := none } }
    if periodMs = 0 then pure (true, stopped)
    else if alloc then
      let timer ← malloc .tickTimer
      if thread then
        pure (true, { e with modules := e.modules.set i { entry with tickTimer := some timer } })
      else
        free timer
        pure (false, stopped)
    else pure (false, stopped)

/-- The loop that copies the entries of the list. -/
def copyEntries (entry : ℕ → Bool) : List Bytes → List ℕ → Mem Resource (Option (List ℕ))
  | [], copies => pure (some copies)
  | _ :: toks, copies =>
    if entry copies.length then do
      let copy ← malloc .text
      copyEntries entry toks (copies ++ [copy])
    else do
      forEach free copies
      pure none

def freeUpstreams : Option (ℕ × List ℕ) → Mem Resource Unit
  | none => pure ()
  | some (list, copies) => do
    forEach free copies
    free list

/-- The new list of `vwasm_engine_set_allowed_upstreams`. -/
def newUpstreams (env : ListEnv) (s : Bytes) : Mem Resource (Option (ℕ × List ℕ)) :=
  if env.countCopy then do
    let dup ← malloc .text
    free dup
    if countEntries s = 0 then pure none
    else if env.list then
      let list ← malloc .upstreams
      if env.fillCopy then
        let dup ← malloc .text
        let toks := (fillEntries s (countEntries s) fun _ => true).getD []
        let copies ← copyEntries env.entry toks []
        match copies with
        | none =>
          free list
          free dup
          pure none
        | some copies =>
          free dup
          pure (some (list, copies))
      else
        free list
        pure none
    else pure none
  else pure none

def vwasmEngineSetAllowedUpstreams (env : ListEnv) (e : EngineBlocks) (list : Option Bytes) :
    Mem Resource EngineBlocks := do
  freeUpstreams e.allowedUpstreams
  match list with
  | none | some [] => pure { e with allowedUpstreams := none }
  | some s =>
    let upstreams ← newUpstreams env s
    pure { e with allowedUpstreams := upstreams }

def vwasmStorePoolDestroy (wasmEngine : ℕ) (p : PoolBlocks) : Mem Resource Unit := do
  forEach (fun store => do
    let _ ← load wasmEngine
    free store) p.stores
  free p.storeObjects
  free p.slots
  free p.slotStates
  free p.self

/-- One turn of `vwasm_engine_destroy_pools`. -/
def destroyPool (wasmEngine : ℕ) (entry : ModuleBlocks) : Mem Resource Unit :=
  match entry.pool with
  | none => freeOpt entry.snapshot
  | some p => do
    vwasmStorePoolDestroy wasmEngine p
    freeOpt entry.snapshot

def freeModule (entry : ModuleBlocks) : Mem Resource Unit := do
  free entry.nameCopy
  free entry.instancePre
  free entry.wasmModule

/-- The epoch thread reads the engine until it is joined. -/
def vwasmEngineDestroy (e : EngineBlocks) : Mem Resource Unit := do
  forEach (stopTimer e.wasmEngine) e.modules
  forEach (destroyPool e.wasmEngine) e.modules
  freeOpt e.httpPool
  let _ ← load e.wasmEngine
  free e.epochThread
  forEach freeModule e.modules
  free e.linker
  free e.wasmEngine
  freeUpstreams e.allowedUpstreams
  free e.self

end Model

section Owned

def allOf (r : Resource) (l : List ℕ) : Multiset (ℕ × Resource) := (l.map fun i => {(i, r)}).sum

def PoolBlocks.owned (p : PoolBlocks) : Multiset (ℕ × Resource) :=
  allOf .store p.stores + ({(p.storeObjects, .poolPart)} + ({(p.slots, .poolPart)} +
    ({(p.slotStates, .poolPart)} + {(p.self, .poolPart)})))

def poolOwned : Option PoolBlocks → Multiset (ℕ × Resource)
  | none => 0
  | some p => p.owned

/-- What a module has as long as it is loaded. -/
def ModuleBlocks.fixed (entry : ModuleBlocks) : Multiset (ℕ × Resource) :=
  {(entry.nameCopy, .text)} + ({(entry.instancePre, .instancePre)} +
    {(entry.wasmModule, .wasmModule)})

def ModuleBlocks.owned (entry : ModuleBlocks) : Multiset (ℕ × Resource) :=
  opt .tickTimer entry.tickTimer + (poolOwned entry.pool + (opt .snapshot entry.snapshot +
    entry.fixed))

def upstreamsOwned : Option (ℕ × List ℕ) → Multiset (ℕ × Resource)
  | none => 0
  | some (list, copies) => allOf .text copies + {(list, .upstreams)}

/-- All that the fields of an engine point to. -/
def EngineBlocks.owned (e : EngineBlocks) : Multiset (ℕ × Resource) :=
  (e.modules.map ModuleBlocks.owned).sum + ({(e.wasmEngine, .wasmEngine)} +
    (opt .httpPool e.httpPool + ({(e.epochThread, .epochThread)} + ({(e.linker, .linker)} +
      (upstreamsOwned e.allowedUpstreams + {(e.self, .engine)})))))

end Owned

end VmodWasm.EngineResources
