import VmodWasm.EngineResources

/-!
What each function of the engine does to the blocks that the engine points to. The
set-up of a pool is the one that can lose some: it clears the warm instance of the
module without a look at it.
-/
namespace VmodWasm.EngineSpecs

open ByteStrings AllowlistText EngineResources Lib.Blocks

section Specs

theorem vwasmEngineNew_spec (env : NewEnv) :
    Triple 0 (vwasmEngineNew env) fun r P' =>
      match r with
      | none => P' = 0
      | some e => P' = e.owned ∧ e.modules = [] := by
  unfold vwasmEngineNew
  split
  · refine Triple.malloc_bind fun self => ?_
    split
    · refine Triple.malloc_bind fun wasmEngine => ?_
      split
      · refine Triple.malloc_bind fun linker => ?_
        split
        · refine Triple.malloc_bind fun epochThread => Triple.pure ⟨?_, rfl⟩
          simp only [EngineBlocks.owned, opt, upstreamsOwned, List.map_nil, List.sum_nil]
          abel
        · exact Triple.free_bind (Triple.free_bind (Triple.free_bind (Triple.pure rfl)))
      · exact Triple.free_bind (Triple.free_bind (Triple.pure rfl))
    · exact Triple.free_bind (Triple.pure rfl)
  · exact Triple.pure rfl

/-- What loading a module can do: nothing, or a new entry at the end of the table. -/
def LoadedBy (name : Bytes) (e e' : EngineBlocks) : Prop :=
  e' = e ∨ ∃ nameCopy instancePre wasmModule,
    e' = { e with
      modules := e.modules ++ [⟨name, nameCopy, instancePre, wasmModule, none, none, none⟩] } ∧
    e.modules.length < maxModules ∧ findModule e name = none

theorem storeModule_spec (env : LoadEnv) (e : EngineBlocks) (name : Bytes) (wasmModule : ℕ)
    (hnew : findModule e name = none) :
    Triple ({(wasmModule, .wasmModule)} + e.owned) (storeModule env e name wasmModule) fun r P' =>
      P' = r.2.owned ∧ LoadedBy name e r.2 := by
  unfold storeModule
  split
  next hroom =>
    split
    · refine Triple.malloc_bind fun instancePre => ?_
      split
      · refine Triple.malloc_bind fun nameCopy => Triple.pure ⟨?_, ?_⟩
        · simp only [EngineBlocks.owned, ModuleBlocks.owned, ModuleBlocks.fixed, opt, poolOwned,
            List.map_append, List.sum_append, List.map_cons, List.map_nil, List.sum_cons,
            List.sum_nil]
          abel
        · exact Or.inr ⟨nameCopy, instancePre, wasmModule, rfl, hroom, hnew⟩
      · exact Triple.free_bind (Triple.free_bind (Triple.pure ⟨rfl, Or.inl rfl⟩))
    · exact Triple.free_bind (Triple.pure ⟨rfl, Or.inl rfl⟩)
  next => exact Triple.free_bind (Triple.pure ⟨rfl, Or.inl rfl⟩)

theorem vwasmEngineLoadModule_spec (env : LoadEnv) (e : EngineBlocks) (name : Bytes) :
    Triple e.owned (vwasmEngineLoadModule env e name) fun r P' =>
      P' = r.2.owned ∧ LoadedBy name e r.2 := by
  unfold vwasmEngineLoadModule
  split
  next => exact Triple.pure ⟨rfl, Or.inl rfl⟩
  next hnew =>
    have hnone : findModule e name = none := by simpa using hnew
    split
    · refine Triple.malloc_bind fun bytes => ?_
      split
      · refine Triple.malloc_bind fun wasmModule => ?_
        rw [add_left_comm]
        exact Triple.free_bind (storeModule_spec env e name wasmModule hnone)
      · exact Triple.free_bind (Triple.pure ⟨rfl, Or.inl rfl⟩)
    · exact Triple.pure ⟨rfl, Or.inl rfl⟩

/-- What the set-up of stores reads: the engine and the linked module. -/
def readBlocks (wasmEngine : ℕ) (entry : ModuleBlocks) : Multiset (ℕ × Resource) :=
  {(wasmEngine, .wasmEngine)} + {(entry.instancePre, .instancePre)}

section Pool

variable (wasmEngine : ℕ) (entry : ModuleBlocks)

theorem vwasmWarmInstanceCreate_spec (env : WarmEnv) :
    Triple (0 + readBlocks wasmEngine entry) (vwasmWarmInstanceCreate env wasmEngine entry)
      fun r P' => P' = opt .snapshot r + readBlocks wasmEngine entry := by
  unfold vwasmWarmInstanceCreate
  refine Triple.load_mem (v := .wasmEngine) (by simp [readBlocks]) ?_
  split
  · refine Triple.malloc_bind fun store => ?_
    rw [zero_add]
    refine Triple.load_mem (v := .instancePre) (by simp [readBlocks]) ?_
    split
    · refine Triple.malloc_bind fun snapshot => ?_
      rw [add_left_comm]
      exact Triple.free_bind (Triple.pure rfl)
    · exact Triple.free_bind (Triple.pure (zero_add _).symm)
  · exact Triple.pure rfl

theorem initSlots_spec (inits : List SlotInit) :
    Triple (0 + readBlocks wasmEngine entry) (initSlots wasmEngine entry inits)
      fun r P' => P' = allOf .store r + readBlocks wasmEngine entry := by
  induction inits with
  | nil => exact Triple.pure rfl
  | cons init inits ih =>
    cases init with
    | noStore => exact Triple.load_mem (v := .wasmEngine) (by simp [readBlocks]) ih
    | failed =>
      refine Triple.load_mem (v := .wasmEngine) (by simp [readBlocks]) ?_
      refine Triple.malloc_bind fun store => ?_
      rw [zero_add]
      refine Triple.load_mem (v := .instancePre) (by simp [readBlocks]) (Triple.free_bind ?_)
      rwa [← zero_add (readBlocks wasmEngine entry)]
    | ready =>
      refine Triple.load_mem (v := .wasmEngine) (by simp [readBlocks]) ?_
      refine Triple.malloc_bind fun store => ?_
      rw [zero_add]
      refine Triple.load_mem (v := .instancePre) (by simp [readBlocks]) ?_
      rw [add_comm, ← zero_add (readBlocks wasmEngine entry)]
      refine Triple.bind ih ?_
      rintro stores _ rfl
      refine Triple.pure ?_
      simp only [allOf, List.map_cons, List.sum_cons]
      abel

theorem vwasmStorePoolNew_spec (env : PoolEnv) (size : ℕ) :
    Triple (0 + readBlocks wasmEngine entry) (vwasmStorePoolNew env size wasmEngine entry)
      fun r P' => P' = poolOwned r + readBlocks wasmEngine entry := by
  unfold vwasmStorePoolNew
  split
  · refine Triple.malloc_bind fun self => ?_
    split
    · refine Triple.malloc_bind fun slotStates => ?_
      split
      · refine Triple.malloc_bind fun slots => ?_
        split
        · refine Triple.malloc_bind fun storeObjects => ?_
          rw [show {(storeObjects, Resource.poolPart)} + ({(slots, Resource.poolPart)} +
              ({(slotStates, Resource.poolPart)} + ({(self, Resource.poolPart)} +
                (0 + readBlocks wasmEngine entry)))) =
            0 + readBlocks wasmEngine entry + ({(storeObjects, .poolPart)} + ({(slots, .poolPart)} +
              ({(slotStates, .poolPart)} + {(self, .poolPart)}))) by abel]
          refine Triple.bind (initSlots_spec wasmEngine entry _) ?_
          rintro stores _ rfl
          refine Triple.pure ?_
          simp only [poolOwned, PoolBlocks.owned]
          abel
        · exact Triple.free_bind (Triple.free_bind (Triple.free_bind (Triple.pure rfl)))
      · exact Triple.free_bind (Triple.free_bind (Triple.pure rfl))
    · exact Triple.free_bind (Triple.pure rfl)
  · exact Triple.pure rfl

/-- The set-up of a pool loses the snapshot that was there, and the pool if it is
replaced. -/
theorem initPoolEntry_spec (warm : WarmEnv) (pool : PoolEnv) (size : ℕ) :
    Triple ({(wasmEngine, .wasmEngine)} + entry.owned)
      (initPoolEntry warm pool size wasmEngine entry) fun r P' => ∃ keep,
        r.2 = { entry with snapshot := r.2.snapshot, pool := r.2.pool } ∧
        P' = {(wasmEngine, .wasmEngine)} + (r.2.owned + (opt .snapshot entry.snapshot +
          if keep then 0 else poolOwned entry.pool)) ∧
        (keep = true → r.2.pool = entry.pool) ∧
        (r.2.pool.isSome = true → r.2.snapshot.isSome = true ∨ entry.pool.isSome = true) := by
  rw [show {(wasmEngine, Resource.wasmEngine)} + entry.owned = 0 + readBlocks wasmEngine entry +
      (opt .tickTimer entry.tickTimer + poolOwned entry.pool + opt .snapshot entry.snapshot +
        ({(entry.nameCopy, .text)} + {(entry.wasmModule, .wasmModule)})) by
    simp only [ModuleBlocks.owned, ModuleBlocks.fixed, readBlocks]
    abel]
  refine Triple.bind (vwasmWarmInstanceCreate_spec wasmEngine entry warm) ?_
  rintro snapshot _ rfl
  cases snapshot with
  | none =>
    refine Triple.pure ⟨true, rfl, ?_, fun _ => rfl, fun h => Or.inr h⟩
    simp only [ModuleBlocks.owned, ModuleBlocks.fixed, readBlocks, opt, if_true]
    abel
  | some snapshot =>
    dsimp only
    split
    · rw [opt, add_assoc]
      refine Triple.free_bind (Triple.pure ⟨true, rfl, ?_, fun _ => rfl, fun h => Or.inr h⟩)
      simp only [ModuleBlocks.owned, ModuleBlocks.fixed, readBlocks, opt, if_true]
      abel
    · rw [show opt .snapshot (some snapshot) + readBlocks wasmEngine entry +
          (opt .tickTimer entry.tickTimer + poolOwned entry.pool + opt .snapshot entry.snapshot +
            ({(entry.nameCopy, .text)} + {(entry.wasmModule, .wasmModule)})) =
        0 + readBlocks wasmEngine entry + ({(snapshot, .snapshot)} +
          (opt .tickTimer entry.tickTimer + poolOwned entry.pool + opt .snapshot entry.snapshot +
            ({(entry.nameCopy, .text)} + {(entry.wasmModule, .wasmModule)}))) by
        rw [opt]
        abel]
      refine Triple.bind (vwasmStorePoolNew_spec wasmEngine entry pool size) ?_
      rintro made _ rfl
      cases made with
      | none =>
        rw [add_left_comm]
        refine Triple.free_bind (Triple.pure ⟨false, rfl, ?_, fun h => ?_, fun h => ?_⟩)
        · simp only [ModuleBlocks.owned, ModuleBlocks.fixed, readBlocks, opt, poolOwned,
            Bool.false_eq_true, if_false]
          abel
        · contradiction
        · contradiction
      | some made =>
        refine Triple.pure ⟨false, rfl, ?_, fun h => ?_, fun _ => Or.inl rfl⟩
        · simp only [ModuleBlocks.owned, ModuleBlocks.fixed, readBlocks, opt, poolOwned,
            Bool.false_eq_true, if_false]
          abel
        · contradiction

end Pool

theorem owned_set (e : EngineBlocks) {i : ℕ} {entry : ModuleBlocks}
    (hi : e.modules[i]? = some entry) :
    ∃ R, e.owned = {(e.wasmEngine, .wasmEngine)} + entry.owned + R ∧
      ∀ entry', EngineBlocks.owned { e with modules := e.modules.set i entry' } =
        {(e.wasmEngine, .wasmEngine)} + entry'.owned + R := by
  obtain ⟨R, hR, hset⟩ := sum_map_set ModuleBlocks.owned hi
  refine ⟨R + (opt .httpPool e.httpPool + ({(e.epochThread, .epochThread)} +
    ({(e.linker, .linker)} + (upstreamsOwned e.allowedUpstreams + {(e.self, .engine)})))), ?_, ?_⟩
  · rw [EngineBlocks.owned, hR]
    abel
  · intro entry'
    rw [EngineBlocks.owned, hset]
    abel

/-- The pool of a module is set up a second time. -/
def reinitialises (e : EngineBlocks) (name : Bytes) : Bool :=
  ((findModule e name).bind fun i => e.modules[i]?).any fun entry => entry.snapshot.isSome

/-- No pool is left from an earlier set-up, but with its snapshot. -/
def Paired (e : EngineBlocks) : Prop :=
  ∀ entry ∈ e.modules, entry.pool.isSome = true → entry.snapshot.isSome = true

/-- The names and the fixed parts of the modules. -/
def table (e : EngineBlocks) : List (Bytes × Multiset (ℕ × Resource)) :=
  e.modules.map fun entry => (entry.name, entry.fixed)

theorem table_set (e : EngineBlocks) {i : ℕ} {entry entry' : ModuleBlocks}
    (hi : e.modules[i]? = some entry) (hname : entry'.name = entry.name)
    (hfixed : entry'.fixed = entry.fixed) :
    table { e with modules := e.modules.set i entry' } = table e := by
  obtain ⟨hlt, hget⟩ := List.getElem?_eq_some_iff.mp hi
  unfold table
  rw [List.map_set, hname, hfixed]
  refine List.ext_getElem (by simp) fun j hj _ => ?_
  by_cases hij : i = j
  · subst hij
    simp [hget]
  · simp [List.getElem_set_ne hij]

theorem opt_ne_zero (r : Resource) {i : Option ℕ} (hi : i.isSome = true)
    (P : Multiset (ℕ × Resource)) :
    opt r i + P ≠ 0 := by
  obtain ⟨j, rfl⟩ := Option.isSome_iff_exists.mp hi
  exact fun hzero => Multiset.singleton_ne_zero _
    (Multiset.le_zero.mp (hzero ▸ Multiset.le_add_right {(j, r)} P))

/-- What the set-up of a pool leaves: the engine, and what a second set-up has lost. -/
def PoolSetUp (e : EngineBlocks) (name : Bytes) (r : Bool × EngineBlocks)
    (P : Multiset (ℕ × Resource)) : Prop :=
  ∃ lost, P = r.2.owned + lost ∧ table r.2 = table e ∧
    (reinitialises e name = true → lost ≠ 0) ∧
    (reinitialises e name = false → Paired e → lost = 0 ∧ Paired r.2)

theorem vwasmEngineInitPool_spec (warm : WarmEnv) (pool : PoolEnv) (e : EngineBlocks) (name : Bytes)
    (size : ℕ) :
    Triple e.owned (vwasmEngineInitPool warm pool e name size) (PoolSetUp e name) := by
  have hnothing (hno : reinitialises e name = false) :
      Triple e.owned (pure (false, e)) (PoolSetUp e name) := by
    refine Triple.pure ⟨0, (add_zero _).symm, rfl, fun h => ?_, fun _ hp => ⟨rfl, hp⟩⟩
    rw [hno] at h
    contradiction
  unfold vwasmEngineInitPool
  cases hfind : findModule e name with
  | none => exact hnothing (by rw [reinitialises, hfind]; rfl)
  | some i =>
    cases hget : e.modules[i]? with
    | none =>
      simp only [Option.bind_some, hget, Option.map_none]
      exact hnothing (by simp only [reinitialises, hfind, Option.bind_some, hget, Option.any_none])
    | some entry =>
      have hre : reinitialises e name = entry.snapshot.isSome := by
        simp only [reinitialises, hfind, Option.bind_some, hget, Option.any_some]
      obtain ⟨R, hR, hset⟩ := owned_set e hget
      simp only [Option.bind_some, hget, Option.map_some]
      rw [hR]
      refine Triple.bind (initPoolEntry_spec e.wasmEngine entry warm pool _) ?_
      rintro ⟨ok, entry'⟩ _ ⟨keep, hsame, rfl, hkeep, hpair⟩
      dsimp only at hsame hkeep hpair
      refine Triple.pure ⟨opt .snapshot entry.snapshot +
        if keep then 0 else poolOwned entry.pool, ?_,
        table_set e hget (by rw [hsame]) (by rw [hsame]; rfl),
        fun hsnap => opt_ne_zero .snapshot (hre ▸ hsnap) _, fun hsnap hp => ?_⟩
      · rw [hset]
        abel
      · rw [hre] at hsnap
        have hentry : entry.snapshot = none := Option.not_isSome_iff_eq_none.mp (by simp [hsnap])
        have hpool : entry.pool = none := by
          have himp := hp entry (List.mem_of_getElem? hget)
          rw [hsnap] at himp
          exact Option.not_isSome_iff_eq_none.mp fun h => Bool.false_ne_true (himp h)
        refine ⟨by simp [hentry, hpool, opt, poolOwned], fun x hx hsome => ?_⟩
        rcases List.mem_or_eq_of_mem_set hx with hx | rfl
        · exact hp x hx hsome
        · rcases hpair hsome with h | h
          · exact h
          · rw [hpool] at h
            contradiction

theorem vwasmEngineInitHttpPool_spec (alloc : Bool) (e : EngineBlocks) :
    Triple e.owned (vwasmEngineInitHttpPool alloc e) fun r P' =>
      P' = r.2.owned ∧ r.2.modules = e.modules := by
  rw [EngineBlocks.owned, ← add_assoc, ← add_assoc, add_comm (_ + _) (opt _ _), add_assoc]
  refine Triple.freeOpt_bind ?_
  split
  · refine Triple.malloc_bind fun httpPool => Triple.pure ⟨?_, rfl⟩
    simp only [EngineBlocks.owned, opt]
    abel
  · refine Triple.pure ⟨?_, rfl⟩
    simp only [EngineBlocks.owned, opt]
    abel

/-- A stopped timer is gone, the rest of the module is as it was. -/
theorem stopTimer_spec (wasmEngine : ℕ) (entry : ModuleBlocks) :
    Triple (entry.owned + {(wasmEngine, .wasmEngine)}) (stopTimer wasmEngine entry) fun _ P' =>
      P' = ModuleBlocks.owned { entry with tickTimer := none } + {(wasmEngine, .wasmEngine)} := by
  unfold stopTimer ModuleBlocks.owned
  cases entry.tickTimer with
  | none => exact Triple.pure rfl
  | some timer =>
    refine Triple.load_mem (v := .wasmEngine) (by simp) ?_
    refine Triple.load_mem (v := .wasmModule) (by simp [ModuleBlocks.fixed]) ?_
    refine Triple.load_mem (v := .instancePre) (by simp [ModuleBlocks.fixed]) ?_
    rw [opt, opt, zero_add, add_assoc]
    exact (Triple.free timer Resource.tickTimer).frees

/-- Changes to the timer of a module do not touch what else there is. -/
theorem setTimer_same (e : EngineBlocks) {i : ℕ} {entry : ModuleBlocks}
    (hi : e.modules[i]? = some entry) (timer : Option ℕ) :
    let e' := { e with modules := e.modules.set i { entry with tickTimer := timer } }
    table e' = table e ∧ (Paired e → Paired e') := by
  refine ⟨table_set e hi rfl rfl, fun hp x hx => ?_⟩
  rcases List.mem_or_eq_of_mem_set hx with hx | rfl
  · exact hp x hx
  · exact hp entry (List.mem_of_getElem? hi)

/-- What a change of a timer leaves. -/
def TimerSet (e : EngineBlocks) (r : Bool × EngineBlocks) (P : Multiset (ℕ × Resource)) : Prop :=
  P = r.2.owned ∧ table r.2 = table e ∧ (Paired e → Paired r.2)

theorem vwasmEngineSetTickPeriod_spec (alloc thread : Bool) (e : EngineBlocks) (name : Bytes)
    (periodMs : ℕ) :
    Triple e.owned (vwasmEngineSetTickPeriod alloc thread e name periodMs) (TimerSet e) := by
  have hnothing : Triple e.owned (pure (false, e)) (TimerSet e) := Triple.pure ⟨rfl, rfl, id⟩
  unfold vwasmEngineSetTickPeriod
  cases findModule e name with
  | none => exact hnothing
  | some i =>
    cases hget : e.modules[i]? with
    | none =>
      simp only [Option.bind_some, hget, Option.map_none]
      exact hnothing
    | some entry =>
      obtain ⟨R, hR, hset⟩ := owned_set e hget
      have hstopped : Triple ({(e.wasmEngine, .wasmEngine)} +
          ModuleBlocks.owned { entry with tickTimer := none } + R)
          (pure (false, { e with modules := e.modules.set i { entry with tickTimer := none } }))
          (TimerSet e) :=
        Triple.pure ⟨(hset _).symm, setTimer_same e hget none⟩
      simp only [Option.bind_some, hget, Option.map_some]
      rw [hR, add_comm {_} entry.owned]
      refine Triple.bind (stopTimer_spec e.wasmEngine entry) ?_
      rintro _ _ rfl
      rw [add_comm _ {_}]
      split
      · exact Triple.pure ⟨(hset _).symm, setTimer_same e hget none⟩
      · split
        · refine Triple.malloc_bind fun timer => ?_
          split
          · refine Triple.pure ⟨?_, setTimer_same e hget (some timer)⟩
            rw [hset]
            simp only [ModuleBlocks.owned, ModuleBlocks.fixed, opt]
            abel
          · exact Triple.free_bind hstopped
        · exact hstopped

theorem freeTexts_spec (copies : List ℕ) :
    Triple (allOf .text copies) (forEach free copies) fun _ P' => P' = 0 := by
  rw [← add_zero (allOf .text copies)]
  refine Triple.forEach_free (fun i => ?_) copies
  rw [add_zero]
  exact Triple.free i Resource.text

theorem copyEntries_spec (entry : ℕ → Bool) (toks : List Bytes) (copies : List ℕ) :
    Triple (allOf .text copies) (copyEntries entry toks copies) fun r P' =>
      match r with
      | none => P' = 0
      | some copies => P' = allOf .text copies := by
  induction toks generalizing copies with
  | nil => exact Triple.pure rfl
  | cons _ toks ih =>
    unfold copyEntries
    split
    · refine Triple.malloc_bind fun copy => ?_
      rw [show {(copy, Resource.text)} + allOf .text copies = allOf .text (copies ++ [copy]) by
        simp only [allOf, List.map_append, List.sum_append, List.map_cons, List.map_nil,
          List.sum_cons, List.sum_nil]
        abel]
      exact ih (copies ++ [copy])
    · exact Triple.seq (freeTexts_spec copies) fun _ P' hP' => Triple.pure hP'

theorem freeUpstreams_spec (upstreams : Option (ℕ × List ℕ)) :
    Triple (upstreamsOwned upstreams) (freeUpstreams upstreams) fun _ P' => P' = 0 := by
  cases upstreams with
  | none => exact Triple.pure rfl
  | some p =>
    obtain ⟨list, copies⟩ := p
    exact Triple.frees_bind (freeTexts_spec copies) fun _ => Triple.free list Resource.upstreams

theorem newUpstreams_spec (env : ListEnv) (s : Bytes) :
    Triple 0 (newUpstreams env s) fun r P' => P' = upstreamsOwned r := by
  unfold newUpstreams
  split
  · refine Triple.malloc_bind fun dup => Triple.free_bind ?_
    split
    · exact Triple.pure rfl
    · split
      · refine Triple.malloc_bind fun list => ?_
        split
        · refine Triple.malloc_bind fun dup' => ?_
          rw [show {(dup', Resource.text)} + ({(list, Resource.upstreams)} + 0) =
            allOf .text [] + ({(list, .upstreams)} + {(dup', .text)}) by
              simp only [allOf, List.map_nil, List.sum_nil]
              abel]
          refine Triple.bind (copyEntries_spec env.entry _ []) ?_
          intro copies P' hcopies
          cases copies with
          | none =>
            obtain rfl : P' = 0 := hcopies
            rw [zero_add, ← add_zero {(dup', Resource.text)}]
            exact Triple.free_bind (Triple.free_bind (Triple.pure rfl))
          | some copies =>
            obtain rfl : P' = allOf .text copies := hcopies
            rw [← add_assoc, add_comm _ {(dup', Resource.text)}]
            exact Triple.free_bind (Triple.pure rfl)
        · exact Triple.free_bind (Triple.pure rfl)
      · exact Triple.pure rfl
  · exact Triple.pure rfl

theorem vwasmEngineSetAllowedUpstreams_spec (env : ListEnv) (e : EngineBlocks)
    (list : Option Bytes) :
    Triple e.owned (vwasmEngineSetAllowedUpstreams env e list) fun e' P' =>
      P' = e'.owned ∧ e'.modules = e.modules := by
  have hsplit (upstreams : Option (ℕ × List ℕ)) :
      EngineBlocks.owned { e with allowedUpstreams := upstreams } = upstreamsOwned upstreams +
        ((e.modules.map ModuleBlocks.owned).sum + ({(e.wasmEngine, .wasmEngine)} +
          (opt .httpPool e.httpPool + ({(e.epochThread, .epochThread)} + ({(e.linker, .linker)} +
            {(e.self, .engine)}))))) := by
    rw [EngineBlocks.owned]
    abel
  rw [show e.owned = _ from hsplit e.allowedUpstreams]
  refine Triple.bind (freeUpstreams_spec e.allowedUpstreams) ?_
  rintro _ _ rfl
  split
  · exact Triple.pure ⟨(hsplit none).symm, rfl⟩
  · exact Triple.pure ⟨(hsplit none).symm, rfl⟩
  · refine Triple.bind (newUpstreams_spec env _) ?_
    rintro upstreams _ rfl
    exact Triple.pure ⟨(hsplit upstreams).symm, rfl⟩

theorem vwasmStorePoolDestroy_spec (wasmEngine : ℕ) (p : PoolBlocks) :
    Triple (p.owned + {(wasmEngine, .wasmEngine)}) (vwasmStorePoolDestroy wasmEngine p) fun _ P' =>
      P' = {(wasmEngine, .wasmEngine)} := by
  have hstores := Triple.forEach_free (C := {(wasmEngine, Resource.wasmEngine)})
    (g := fun i => {(i, Resource.store)}) (f := fun store => do
      let _ ← load wasmEngine
      free store) (fun store => Triple.load_mem (v := .wasmEngine) (by simp)
        (Triple.free store Resource.store).frees) p.stores
  rw [PoolBlocks.owned, add_right_comm]
  refine Triple.bind hstores ?_
  rintro _ _ rfl
  rw [add_comm, add_assoc, add_assoc, add_assoc]
  refine Triple.free_bind (Triple.free_bind (Triple.free_bind ?_))
  exact (Triple.free p.self Resource.poolPart).frees

theorem owned_stopped (entry : ModuleBlocks) :
    ModuleBlocks.owned { entry with tickTimer := none } =
      poolOwned entry.pool + (opt .snapshot entry.snapshot + entry.fixed) :=
  zero_add _

theorem destroyPool_spec (wasmEngine : ℕ) (entry : ModuleBlocks) :
    Triple (ModuleBlocks.owned { entry with tickTimer := none } + {(wasmEngine, .wasmEngine)})
      (destroyPool wasmEngine entry) fun _ P' =>
      P' = entry.fixed + {(wasmEngine, .wasmEngine)} := by
  have hsnapshot :
    Triple (opt .snapshot entry.snapshot + (entry.fixed + {(wasmEngine, .wasmEngine)}))
      (freeOpt entry.snapshot) fun _ P' => P' = entry.fixed + {(wasmEngine, .wasmEngine)} :=
    (Triple.freeOpt (opt_cell Resource.snapshot entry.snapshot)).frees
  rw [owned_stopped]
  unfold destroyPool
  cases entry.pool with
  | none =>
    rw [poolOwned, zero_add, add_assoc]
    exact hsnapshot
  | some p =>
    rw [poolOwned, add_right_comm]
    refine Triple.bind (vwasmStorePoolDestroy_spec wasmEngine p) ?_
    rintro _ _ rfl
    rw [add_comm, add_assoc]
    exact hsnapshot

theorem freeModule_spec (entry : ModuleBlocks) :
    Triple (entry.fixed + 0) (freeModule entry) fun _ P' => P' = 0 := by
  rw [add_zero]
  exact Triple.free_bind (Triple.free_bind (Triple.free entry.wasmModule Resource.wasmModule))

/-- The teardown frees all that the engine points to, and reads nothing that is gone. -/
theorem vwasmEngineDestroy_spec (e : EngineBlocks) :
    Triple e.owned (vwasmEngineDestroy e) fun _ P' => P' = 0 := by
  rw [EngineBlocks.owned, ← add_assoc]
  refine Triple.bind (Triple.forEach_sum (stopTimer_spec e.wasmEngine) e.modules) ?_
  rintro _ _ rfl
  refine Triple.bind (Triple.forEach_sum (destroyPool_spec e.wasmEngine) e.modules) ?_
  rintro _ _ rfl
  rw [add_left_comm]
  refine Triple.freeOpt_bind ?_
  refine Triple.load_mem (v := .wasmEngine) (by simp) ?_
  rw [add_left_comm]
  refine Triple.free_bind ?_
  rw [add_assoc, ← add_zero (e.modules.map ModuleBlocks.fixed).sum]
  refine Triple.frees_bind (Triple.forEach_free freeModule_spec e.modules) fun _ => ?_
  rw [add_left_comm]
  refine Triple.free_bind (Triple.free_bind ?_)
  exact Triple.frees_bind (freeUpstreams_spec e.allowedUpstreams)
    fun _ => Triple.free e.self Resource.engine

end Specs

end VmodWasm.EngineSpecs
