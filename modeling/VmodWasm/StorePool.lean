import VmodWasm.ByteStrings
import VmodWasm.Lib.LinearMemory

/-!
The store pool of a module: warm-up and snapshot, the slots, acquire with its
snapshot restore, and release. A history is any sequence of acquires, guest
computations on slots in use, and releases. Isolation is the statement that an
acquired slot shows the snapshot and zeros, whatever its history.
-/
namespace VmodWasm.StorePool

open ByteStrings Lib.LinearMemory

/-- `struct vwasm_pooled_store` with its state; a slot whose initialisation
failed has no store. -/
structure PooledStore where
  hasStore : Bool
  memoryValid : Bool
  memory : Bytes
  inUse : Bool := false
  seq : ℕ := 0

/-- `struct vwasm_store_pool`; `warm` is the snapshot of a valid warm instance. -/
structure Pool where
  slots : List PooledStore
  warm : Option Bytes
  scanHint : ℕ := 0
  acquires : ℕ := 0
  releases : ℕ := 0
  fallbacks : ℕ := 0
  resets : ℕ := 0

/-- `vwasm_warm_instance_restore`: the new memory, or `none` for -1. -/
def vwasmWarmInstanceRestore (warm : Option Bytes) (memory : Bytes) : Option Bytes :=
  match warm with
  | none => none
  | some snapshot =>
    if memory.length < snapshot.length then none else some (overlay snapshot memory)

/-- Both callers ignore whether the restore succeeded. -/
def restoreSlot (warm : Option Bytes) (ps : PooledStore) : PooledStore :=
  if warm.isSome && ps.memoryValid then
    { ps with memory := (vwasmWarmInstanceRestore warm ps.memory).getD ps.memory }
  else ps

/-- `pool_init_slot`: the instantiated memory, if instantiation succeeds. -/
def poolInitSlot (instantiated : Option Bytes) : PooledStore :=
  match instantiated with
  | none => { hasStore := false, memoryValid := false, memory := [] }
  | some memory => { hasStore := true, memoryValid := true, memory := memory }

def clampPoolSize (size : ℕ) : ℕ := min (max size 8) 1024

/-- `vwasm_store_pool_new` for a module that exports a memory; `init i` is how
the instantiation of slot `i` went. -/
def vwasmStorePoolNew (size : ℕ) (warm : Option Bytes) (init : ℕ → Option Bytes) : Pool where
  slots := (List.range (clampPoolSize size)).map fun i => restoreSlot warm (poolInitSlot (init i))
  warm := warm

/-- The warm-up runs on an instance of its own; its memory becomes the snapshot. -/
def vwasmWarmInstanceCreate (limit : ℕ) (instantiated : Bytes) (warmUp : List Op) : Option Bytes :=
  let memory := runOps limit instantiated warmUp
  if memory = [] then none else some memory

/-- `vwasm_engine_init_pool`: a module with `_initialize` gets no pool. -/
def vwasmEngineInitPool (limit size : ℕ) (hasInitialize : Bool) (instantiated : Bytes)
    (warmUp : List Op) (init : ℕ → Option Bytes) : Option Pool :=
  match vwasmWarmInstanceCreate limit instantiated warmUp with
  | none => none
  | some snapshot =>
    if hasInitialize then none else some (vwasmStorePoolNew size (some snapshot) init)

/-- Can this slot be claimed and used? -/
def PooledStore.claimable (ps : PooledStore) : Bool := !ps.inUse && ps.hasStore

/-- The scan of the slots from `start` on, once around. -/
def findSlot (slots : List PooledStore) (start : ℕ) : Option ℕ :=
  ((List.range slots.length).map fun i => (start + i) % slots.length).find? fun idx =>
    (slots[idx]?.map PooledStore.claimable).getD false

/-- What a claim does to its slot. -/
def claimSlot (warm : Option Bytes) (ps : PooledStore) : PooledStore :=
  let ps := restoreSlot warm ps
  { ps with inUse := true, seq := ps.seq + 1 }

def vwasmStorePoolAcquire (pool : Pool) : Option ℕ × Pool :=
  let start := pool.scanHint
  let pool := { pool with scanHint := (start + 1) % 2 ^ 64 }
  match findSlot pool.slots start with
  | some idx =>
    let reset := pool.warm.isSome && ((pool.slots[idx]?.map (·.memoryValid)).getD false)
    (some idx, { pool with
      slots := pool.slots.modify idx (claimSlot pool.warm)
      acquires := pool.acquires + 1
      resets := if reset then pool.resets + 1 else pool.resets })
  | none => (none, { pool with fallbacks := pool.fallbacks + 1 })

def vwasmStorePoolRelease (pool : Pool) (idx : ℕ) : Pool :=
  { pool with
    slots := pool.slots.modify idx fun ps => { ps with inUse := false }
    releases := pool.releases + 1 }

/-- The guest computation of a request on a slot that is in use. -/
def runOnSlot (limit : ℕ) (ops : List Op) (ps : PooledStore) : PooledStore :=
  if ps.inUse then { ps with memory := runOps limit ps.memory ops } else ps

inductive PoolEvent where
  | acquire
  | guest (idx : ℕ) (ops : List Op)
  | release (idx : ℕ)

def poolStep (limit : ℕ) (pool : Pool) : PoolEvent → Pool
  | .acquire => (vwasmStorePoolAcquire pool).2
  | .guest idx ops => { pool with slots := pool.slots.modify idx (runOnSlot limit ops) }
  | .release idx => vwasmStorePoolRelease pool idx

def runHistory (limit : ℕ) (pool : Pool) (history : List PoolEvent) : Pool :=
  history.foldl (poolStep limit) pool

/-- The pool of a module with its snapshot; every slot with a store has a memory. -/
structure PoolOf (snapshot : Bytes) (pool : Pool) : Prop where
  warm : pool.warm = some snapshot
  memory : ∀ ps ∈ pool.slots, ps.hasStore = true → ps.memoryValid = true

@[simp]
theorem restoreSlot_hasStore (warm : Option Bytes) (ps : PooledStore) :
    (restoreSlot warm ps).hasStore = ps.hasStore := by
  unfold restoreSlot
  split <;> rfl

@[simp]
theorem restoreSlot_memoryValid (warm : Option Bytes) (ps : PooledStore) :
    (restoreSlot warm ps).memoryValid = ps.memoryValid := by
  unfold restoreSlot
  split <;> rfl

/-- What every slot has and a change of one slot keeps, every slot has after it. -/
theorem forall_mem_modify (P : PooledStore → Prop) (slots : List PooledStore) (idx : ℕ)
    (f : PooledStore → PooledStore) (hf : ∀ ps, P ps → P (f ps)) (h : ∀ ps ∈ slots, P ps) :
    ∀ ps ∈ slots.modify idx f, P ps := by
  intro ps hps
  obtain ⟨j, hj⟩ := List.mem_iff_getElem?.mp hps
  rw [List.getElem?_modify] at hj
  cases hold : slots[j]? with
  | none => simp [hold] at hj
  | some old =>
    have hP := h old (List.mem_of_getElem? hold)
    simp only [hold, Option.map_eq_map, Option.map_some, Option.some.injEq] at hj
    split at hj
    · exact hj ▸ hf old hP
    · exact hj ▸ hP

theorem poolInitSlot_memoryValid (instantiated : Option Bytes)
    (h : (poolInitSlot instantiated).hasStore = true) :
    (poolInitSlot instantiated).memoryValid = true := by
  cases instantiated with
  | none => simp [poolInitSlot] at h
  | some memory => rfl

theorem poolOf_new (size : ℕ) (snapshot : Bytes) (init : ℕ → Option Bytes) :
    PoolOf snapshot (vwasmStorePoolNew size (some snapshot) init) where
  warm := rfl
  memory := by
    intro ps hps hstore
    obtain ⟨i, _, rfl⟩ := List.mem_map.mp hps
    rw [restoreSlot_hasStore] at hstore
    rw [restoreSlot_memoryValid]
    exact poolInitSlot_memoryValid _ hstore

theorem poolOf_step (limit : ℕ) (snapshot : Bytes) (pool : Pool) (e : PoolEvent)
    (h : PoolOf snapshot pool) : PoolOf snapshot (poolStep limit pool e) := by
  have hmodify := forall_mem_modify (fun ps => ps.hasStore = true → ps.memoryValid = true)
  cases e with
  | acquire =>
    simp only [poolStep, vwasmStorePoolAcquire]
    split
    · exact ⟨h.warm, hmodify _ _ _ (by simp [claimSlot]) h.memory⟩
    · exact ⟨h.warm, h.memory⟩
  | guest idx ops =>
    refine ⟨h.warm, hmodify _ idx _ ?_ h.memory⟩
    intro ps hps
    unfold runOnSlot
    split <;> exact hps
  | release idx => exact ⟨h.warm, hmodify _ idx _ (fun _ hps => hps) h.memory⟩

theorem poolOf_history (limit : ℕ) (snapshot : Bytes) (pool : Pool) (history : List PoolEvent)
    (h : PoolOf snapshot pool) : PoolOf snapshot (runHistory limit pool history) := by
  induction history generalizing pool with
  | nil => exact h
  | cons e history ih => exact ih _ (poolOf_step limit snapshot pool e h)

/-- The linear memory of a slot. -/
def slotMemory (pool : Pool) (idx : ℕ) : Bytes := (pool.slots[idx]?.map (·.memory)).getD []

/-- An acquired slot had a store and was free, and is now claimed. -/
theorem acquire_slot (pool pool' : Pool) (idx : ℕ)
    (h : vwasmStorePoolAcquire pool = (some idx, pool')) :
    ∃ ps, pool.slots[idx]? = some ps ∧ ps.claimable = true ∧
      pool'.slots[idx]? = some (claimSlot pool.warm ps) := by
  unfold vwasmStorePoolAcquire at h
  dsimp only at h
  split at h
  next found hfound =>
    simp only [Prod.mk.injEq, Option.some.injEq] at h
    obtain ⟨rfl, rfl⟩ := h
    have hclaim := List.find?_some hfound
    cases hps : pool.slots[found]? with
    | none => simp [hps] at hclaim
    | some ps =>
      refine ⟨ps, rfl, by simpa [hps] using hclaim, ?_⟩
      simp [hps]
  next => simp at h

/-- The memory an acquire leaves in its slot. -/
theorem acquire_memory (snapshot : Bytes) (pool pool' : Pool) (idx : ℕ)
    (hpool : PoolOf snapshot pool) (h : vwasmStorePoolAcquire pool = (some idx, pool')) :
    slotMemory pool' idx =
      if (slotMemory pool idx).length < snapshot.length then slotMemory pool idx
      else overlay snapshot (slotMemory pool idx) := by
  obtain ⟨ps, hps, hclaim, hps'⟩ := acquire_slot pool pool' idx h
  have hvalid : ps.memoryValid = true := by
    simp only [PooledStore.claimable, Bool.and_eq_true] at hclaim
    exact hpool.memory ps (List.mem_of_getElem? hps) hclaim.2
  simp only [slotMemory, hps, hps', claimSlot, restoreSlot, hpool.warm, hvalid,
    vwasmWarmInstanceRestore, Option.map_some, Option.getD_some, Option.isSome_some, Bool.and_self,
    if_true]
  split <;> rfl

/-- What a slot must look like for the restore to clean it. -/
def Restorable (snapshot memory : Bytes) : Prop :=
  snapshot.length ≤ memory.length ∧ ZeroFrom snapshot.length memory

theorem padded_iff_restorable (snapshot memory : Bytes) :
    (if memory.length < snapshot.length then memory else overlay snapshot memory) =
        padded snapshot (if memory.length < snapshot.length then memory
          else overlay snapshot memory).length ↔
      Restorable snapshot memory := by
  unfold Restorable
  split
  next hlt =>
    refine iff_of_false ?_ (by omega)
    intro h
    have := congrArg List.length h
    simp only [padded, List.length_append, List.length_replicate] at this
    omega
  next hge =>
    rw [length_overlay _ _ (by omega), overlay_eq_padded_iff]
    exact ⟨fun h => ⟨by omega, h⟩, And.right⟩

theorem initPool_cases (limit size : ℕ) (hasInitialize : Bool) (instantiated : Bytes)
    (warmUp : List Op) (init : ℕ → Option Bytes) (start : Pool)
    (h : vwasmEngineInitPool limit size hasInitialize instantiated warmUp init = some start) :
    start = vwasmStorePoolNew size (some (runOps limit instantiated warmUp)) init := by
  unfold vwasmEngineInitPool vwasmWarmInstanceCreate at h
  dsimp only at h
  split at h
  · simp at h
  next snapshot hsnapshot =>
    split at hsnapshot
    · simp at hsnapshot
    · simp only [Option.some.injEq] at hsnapshot
      subst hsnapshot
      split at h
      · simp at h
      · exact (Option.some.inj h).symm

theorem acquire_padded_iff (snapshot : Bytes) (pool pool' : Pool) (idx : ℕ)
    (hpool : PoolOf snapshot pool) (h : vwasmStorePoolAcquire pool = (some idx, pool')) :
    slotMemory pool' idx = padded snapshot (slotMemory pool' idx).length ↔
      Restorable snapshot (slotMemory pool idx) := by
  rw [acquire_memory snapshot pool pool' idx hpool h]
  exact padded_iff_restorable _ _

/-- After any history, an acquired slot shows the snapshot and zeros exactly
when its memory was large enough and zero behind the snapshot. -/
theorem acquire_clean_iff (limit size : ℕ) (hasInitialize : Bool) (instantiated : Bytes)
    (warmUp : List Op) (init : ℕ → Option Bytes) (start : Pool)
    (hstart : vwasmEngineInitPool limit size hasInitialize instantiated warmUp init = some start)
    (history : List PoolEvent) (idx : ℕ) (pool' : Pool)
    (hacquire : vwasmStorePoolAcquire (runHistory limit start history) = (some idx, pool')) :
    slotMemory pool' idx = padded (runOps limit instantiated warmUp) (slotMemory pool' idx).length ↔
      Restorable (runOps limit instantiated warmUp)
        (slotMemory (runHistory limit start history) idx) := by
  have hpool : PoolOf (runOps limit instantiated warmUp) start := by
    rw [initPool_cases _ _ _ _ _ _ _ hstart]
    exact poolOf_new size _ init
  exact acquire_padded_iff _ _ _ _ (poolOf_history limit _ start history hpool) hacquire

/-- Requests given restorable slots see the same bytes, whatever the two
histories were. -/
theorem acquire_histories_agree (snapshot : Bytes) (pool₁ pool₂ pool₁' pool₂' : Pool) (i j : ℕ)
    (hpool₁ : PoolOf snapshot pool₁) (hpool₂ : PoolOf snapshot pool₂)
    (h₁ : vwasmStorePoolAcquire pool₁ = (some i, pool₁'))
    (h₂ : vwasmStorePoolAcquire pool₂ = (some j, pool₂'))
    (hr₁ : Restorable snapshot (slotMemory pool₁ i))
    (hr₂ : Restorable snapshot (slotMemory pool₂ j)) (k : ℕ) :
    (slotMemory pool₁' i).getD k 0 = (slotMemory pool₂' j).getD k 0 := by
  rw [(acquire_padded_iff snapshot pool₁ pool₁' i hpool₁ h₁).mpr hr₁,
    (acquire_padded_iff snapshot pool₂ pool₂' j hpool₂ h₂).mpr hr₂, padded_getD, padded_getD]

/-- Requests that write no non-zero byte behind the snapshot. -/
def ConfinedHistory (n : ℕ) (history : List PoolEvent) : Prop :=
  ∀ idx ops, PoolEvent.guest idx ops ∈ history → ∀ op ∈ ops, op.Confined n

def AllRestorable (snapshot : Bytes) (pool : Pool) : Prop :=
  ∀ ps ∈ pool.slots, ps.hasStore = true → Restorable snapshot ps.memory

theorem restorable_restoreSlot (snapshot : Bytes) (ps : PooledStore)
    (h : Restorable snapshot ps.memory) :
    Restorable snapshot (restoreSlot (some snapshot) ps).memory := by
  have hdrop : (overlay snapshot ps.memory).drop snapshot.length =
      ps.memory.drop snapshot.length := by
    simp [overlay]
  unfold restoreSlot vwasmWarmInstanceRestore
  dsimp only
  split
  · split
    · exact h
    · refine ⟨?_, ?_⟩
      · simp [overlay]
      · intro b hb
        exact h.2 b (hdrop ▸ hb)
  · exact h

theorem allRestorable_step (limit : ℕ) (snapshot : Bytes) (pool : Pool) (e : PoolEvent)
    (hpool : PoolOf snapshot pool) (hconfined : ConfinedHistory snapshot.length [e])
    (h : AllRestorable snapshot pool) : AllRestorable snapshot (poolStep limit pool e) := by
  have hmodify := forall_mem_modify (fun ps => ps.hasStore = true → Restorable snapshot ps.memory)
  cases e with
  | acquire =>
    simp only [poolStep, vwasmStorePoolAcquire]
    split
    · apply hmodify _ _ _ _ h
      intro ps hps hstore
      rw [hpool.warm]
      exact restorable_restoreSlot snapshot ps (hps (by simpa [claimSlot] using hstore))
    · exact h
  | guest idx ops =>
    apply hmodify _ idx _ _ h
    intro ps hps
    unfold runOnSlot
    split
    · intro hstore
      obtain ⟨hlen, hzero⟩ := hps hstore
      refine ⟨Nat.le_trans hlen (length_le_runOps limit _ ops), ?_⟩
      exact zeroFrom_runOps limit _ _ ops (hconfined idx ops (List.mem_singleton.mpr rfl)) hzero
    · exact hps
  | release idx => exact hmodify _ idx _ (fun _ hps => hps) h

theorem allRestorable_history (limit : ℕ) (snapshot : Bytes) (pool : Pool)
    (history : List PoolEvent) (hpool : PoolOf snapshot pool)
    (hconfined : ConfinedHistory snapshot.length history) (h : AllRestorable snapshot pool) :
    AllRestorable snapshot (runHistory limit pool history) := by
  induction history generalizing pool with
  | nil => exact h
  | cons e history ih =>
    have hhead : ConfinedHistory snapshot.length [e] := fun idx ops he =>
      hconfined idx ops (by rw [List.mem_singleton.mp he]; exact List.mem_cons_self ..)
    exact ih _ (poolOf_step limit snapshot pool e hpool)
      (fun idx ops he => hconfined idx ops (List.mem_cons_of_mem _ he))
      (allRestorable_step limit snapshot pool e hpool hhead h)

/-- When instances start as large as the snapshot and zero behind it, and no
request writes there, every acquire of every history is clean. -/
theorem confined_history_clean (limit size : ℕ) (snapshot : Bytes) (init : ℕ → Option Bytes)
    (hinit : ∀ i memory, init i = some memory → Restorable snapshot memory)
    (history : List PoolEvent) (hconfined : ConfinedHistory snapshot.length history)
    (idx : ℕ) (pool' : Pool)
    (hacquire : vwasmStorePoolAcquire
      (runHistory limit (vwasmStorePoolNew size (some snapshot) init) history) = (some idx, pool')) :
    slotMemory pool' idx = padded snapshot (slotMemory pool' idx).length := by
  have hpool := poolOf_new size snapshot init
  have hnew : AllRestorable snapshot (vwasmStorePoolNew size (some snapshot) init) := by
    intro ps hps hstore
    obtain ⟨i, _, rfl⟩ := List.mem_map.mp hps
    rw [restoreSlot_hasStore] at hstore
    cases hi : init i with
    | none => simp [hi, poolInitSlot] at hstore
    | some memory => exact restorable_restoreSlot snapshot _ (hinit i memory hi)
  have hall := allRestorable_history limit snapshot _ history hpool hconfined hnew
  have hkept := poolOf_history limit snapshot _ history hpool
  rw [acquire_padded_iff snapshot _ pool' idx hkept hacquire]
  obtain ⟨ps, hps, hclaim, _⟩ := acquire_slot _ _ _ hacquire
  simp only [PooledStore.claimable, Bool.and_eq_true] at hclaim
  simpa [slotMemory, hps] using hall ps (List.mem_of_getElem? hps) hclaim.2

/-- One page of zeros, as memory of a module and as its snapshot. -/
def zeroPage : Bytes := List.replicate pageSize 0

def zeroPool : Pool := vwasmStorePoolNew 8 (some zeroPage) fun _ => some zeroPage

theorem length_zeroPage : zeroPage.length = pageSize := List.length_replicate

theorem zeroPool_init (limit : ℕ) :
    vwasmEngineInitPool limit 8 false zeroPage [] (fun _ => some zeroPage) = some zeroPool := by
  have hne : runOps limit zeroPage [] ≠ [] := by
    apply List.ne_nil_of_length_pos
    rw [runOps, List.foldl_nil, length_zeroPage]
    decide
  unfold vwasmEngineInitPool vwasmWarmInstanceCreate
  rw [if_neg hne]
  rfl

/-- The first request of this pool starts clean. -/
theorem zeroPool_clean :
    slotMemory (vwasmStorePoolAcquire zeroPool).2 0 =
        padded (runOps (2 * pageSize) zeroPage [])
          (slotMemory (vwasmStorePoolAcquire zeroPool).2 0).length ↔
      Restorable (runOps (2 * pageSize) zeroPage []) (slotMemory zeroPool 0) :=
  acquire_clean_iff (2 * pageSize) 8 false zeroPage [] (fun _ => some zeroPage) zeroPool
    (zeroPool_init _) [] 0 _ (Prod.ext (by decide +kernel) rfl)

/-- A restore keeps the size of the memory, whether it is refused or not. -/
theorem length_restoreSlot (warm : Option Bytes) (ps : PooledStore) :
    (restoreSlot warm ps).memory.length = ps.memory.length := by
  cases warm with
  | none => rfl
  | some snapshot =>
    unfold restoreSlot vwasmWarmInstanceRestore
    dsimp only
    split
    · split
      · rfl
      next hle => exact length_overlay snapshot ps.memory (by omega)
    · rfl

theorem length_acquire (pool : Pool) (idx : ℕ) :
    (slotMemory (vwasmStorePoolAcquire pool).2 idx).length = (slotMemory pool idx).length := by
  unfold vwasmStorePoolAcquire slotMemory
  dsimp only
  split
  next found _ =>
    simp only [List.getElem?_modify]
    cases pool.slots[idx]? with
    | none => rfl
    | some ps =>
      simp only [Option.map_eq_map, Option.map_some, Option.getD_some]
      split
      · exact length_restoreSlot pool.warm ps
      · rfl
  · rfl

/-- Every slot is claimed once; the guest in slot 0 grows its memory by a page
and writes its first byte; slot 0 is released. -/
def leakHistory : List PoolEvent :=
  List.replicate 8 .acquire ++ [.guest 0 [.grow 1, .write pageSize 1], .release 0]

theorem length_acquires (limit n : ℕ) (pool : Pool) (idx : ℕ) :
    (slotMemory (runHistory limit pool (List.replicate n .acquire)) idx).length =
      (slotMemory pool idx).length := by
  induction n generalizing pool with
  | zero => rfl
  | succ n ih =>
    rw [List.replicate_succ, runHistory, List.foldl_cons]
    exact (ih _).trans (length_acquire pool idx)

/-- Growing a one-page memory and writing behind its old end leaves the byte. -/
theorem runOps_leak (memory : Bytes) (h : memory.length = pageSize) :
    (runOps (2 * pageSize) memory [.grow 1, .write pageSize 1])[pageSize]? = some 1 := by
  have hfits : memory.length + 1 * pageSize ≤ 2 * pageSize := by omega
  have hgrown : pageSize < (memory ++ List.replicate (1 * pageSize) (0 : UInt8)).length := by
    rw [List.length_append, List.length_replicate, h]
    decide
  simp only [runOps, List.foldl_cons, List.foldl_nil, Op.run, if_pos hfits]
  rw [List.getElem?_set_self hgrown]

theorem slotMemory_new (size : ℕ) (warm : Option Bytes) (init : ℕ → Option Bytes) (idx : ℕ)
    (h : idx < clampPoolSize size) :
    slotMemory (vwasmStorePoolNew size warm init) idx =
      (restoreSlot warm (poolInitSlot (init idx))).memory := by
  simp [slotMemory, vwasmStorePoolNew, List.getElem?_range h]

/-- A request on a slot in use, and its release. -/
theorem slotMemory_request (limit : ℕ) (pool : Pool) (idx : ℕ) (ops : List Op)
    (h : pool.slots[idx]?.map (·.inUse) = some true) :
    slotMemory (runHistory limit pool [.guest idx ops, .release idx]) idx =
      runOps limit (slotMemory pool idx) ops := by
  obtain ⟨ps, hps, huse⟩ := Option.map_eq_some_iff.mp h
  simp [runHistory, poolStep, vwasmStorePoolRelease, slotMemory, hps, runOnSlot, huse]

theorem leakHistory_byte :
    (slotMemory (runHistory (2 * pageSize) zeroPool leakHistory) 0)[pageSize]? = some 1 := by
  have hinUse : (runHistory (2 * pageSize) zeroPool (List.replicate 8 .acquire)).slots[0]?.map
      (·.inUse) = some true := by
    decide +kernel
  have hlength : (slotMemory (runHistory (2 * pageSize) zeroPool (List.replicate 8 .acquire))
      0).length = pageSize := by
    rw [length_acquires, zeroPool, slotMemory_new 8 _ _ 0 (by decide), length_restoreSlot]
    exact length_zeroPage
  rw [leakHistory, runHistory, List.foldl_append, ← runHistory, ← runHistory,
    slotMemory_request _ _ _ _ hinUse]
  exact runOps_leak _ hlength

/-- The next request that is given slot 0 sees a byte of the earlier one. -/
theorem leakHistory_unclean :
    vwasmEngineInitPool (2 * pageSize) 8 false zeroPage [] (fun _ => some zeroPage) = some zeroPool ∧
    ∃ pool', vwasmStorePoolAcquire (runHistory (2 * pageSize) zeroPool leakHistory) =
        (some 0, pool') ∧
      slotMemory pool' 0 ≠ padded zeroPage (slotMemory pool' 0).length := by
  have hacquire : vwasmStorePoolAcquire (runHistory (2 * pageSize) zeroPool leakHistory) =
      (some 0, (vwasmStorePoolAcquire (runHistory (2 * pageSize) zeroPool leakHistory)).2) :=
    Prod.ext (by decide +kernel) rfl
  have hpool : PoolOf zeroPage (runHistory (2 * pageSize) zeroPool leakHistory) :=
    poolOf_history _ _ _ _ (poolOf_new 8 zeroPage _)
  refine ⟨zeroPool_init _, _, hacquire, ?_⟩
  rw [acquire_memory _ _ _ _ hpool hacquire, ne_eq, padded_iff_restorable]
  rintro ⟨_, hzero⟩
  rw [length_zeroPage] at hzero
  have hmem : (1 : UInt8) ∈ (slotMemory (runHistory (2 * pageSize) zeroPool leakHistory) 0).drop
      pageSize := by
    apply List.mem_of_getElem? (i := 0)
    rw [List.getElem?_drop, Nat.add_zero]
    exact leakHistory_byte
  exact absurd (hzero 1 hmem) (by decide)

end VmodWasm.StorePool
