import VmodWasm.EngineSpecs
import VmodWasm.Lib.Transition

/-!
An engine over its whole life: any calls of its functions, one after the other, and
then its teardown. Nothing is read or freed that is gone, everything is freed but what
a second set-up of a pool has lost, and the index of a module never changes.
-/
namespace VmodWasm.EngineLife

open ByteStrings AllowlistText EngineResources EngineSpecs Lib.Blocks Lib.Transition

inductive EngineEvent where
  | loadModule (env : LoadEnv) (name : Bytes)
  | initPool (warm : WarmEnv) (pool : PoolEnv) (name : Bytes) (size : ℕ)
  | initHttpPool (alloc : Bool)
  | setTickPeriod (alloc thread : Bool) (name : Bytes) (periodMs : ℕ)
  | setAllowedUpstreams (env : ListEnv) (list : Option Bytes)

def engineStep (e : EngineBlocks) : EngineEvent → Mem Resource EngineBlocks
  | .loadModule env name => do
    let r ← vwasmEngineLoadModule env e name
    pure r.2
  | .initPool warm pool name size => do
    let r ← vwasmEngineInitPool warm pool e name size
    pure r.2
  | .initHttpPool alloc => do
    let r ← vwasmEngineInitHttpPool alloc e
    pure r.2
  | .setTickPeriod alloc thread name periodMs => do
    let r ← vwasmEngineSetTickPeriod alloc thread e name periodMs
    pure r.2
  | .setAllowedUpstreams env list => vwasmEngineSetAllowedUpstreams env e list

/-- An engine in use. `reinit` records that the pool of some module was set up while
the module had a snapshot. -/
structure EngineState where
  engine : EngineBlocks
  heap : Heap Resource
  reinit : Bool := false

def reinitBy (e : EngineBlocks) : EngineEvent → Bool
  | .initPool _ _ name _ => reinitialises e name
  | _ => false

def next (s : EngineState) (ev : EngineEvent) : Option EngineState :=
  (engineStep s.engine ev s.heap).map fun r => ⟨r.1, r.2, s.reinit || reinitBy s.engine ev⟩

def step (s : EngineState) (ev : EngineEvent) (s' : EngineState) : Prop := next s ev = some s'

section Runs

/-- The names in the module table are different, and there is room for them. -/
structure TableOk (e : EngineBlocks) : Prop where
  nodup : (e.modules.map ModuleBlocks.name).Nodup
  length_le : e.modules.length ≤ maxModules

theorem tableOk_congr {e e' : EngineBlocks} (h : table e' = table e) (hok : TableOk e) :
    TableOk e' := by
  have hnames (e : EngineBlocks) : e.modules.map ModuleBlocks.name = (table e).map Prod.fst := by
    unfold table
    rw [List.map_map]
    rfl
  have hlength (e : EngineBlocks) : e.modules.length = (table e).length := by
    rw [table, List.length_map]
  constructor
  · rw [hnames, h, ← hnames]
    exact hok.nodup
  · rw [hlength, h, ← hlength]
    exact hok.length_le

theorem tableOk_loaded {name : Bytes} {e e' : EngineBlocks} (h : LoadedBy name e e')
    (hok : TableOk e) : TableOk e' := by
  obtain rfl | ⟨nameCopy, instancePre, wasmModule, rfl, hroom, hnew⟩ := h
  · exact hok
  · constructor
    · rw [List.map_append, List.nodup_append]
      refine ⟨hok.nodup, List.nodup_singleton _, fun a ha b hb => ?_⟩
      obtain ⟨entry, hentry, rfl⟩ := List.mem_map.mp ha
      rw [List.mem_singleton.mp hb]
      have hne := List.findIdx?_eq_none_iff.mp hnew entry hentry
      simpa using hne
    · rw [List.length_append]
      exact hroom

/-- How an event changes the table: not at all, or by a new module at its end. -/
def Extends (e e' : EngineBlocks) : Prop := ∃ more, table e' = table e ++ more

theorem extends_loaded {name : Bytes} {e e' : EngineBlocks} (h : LoadedBy name e e') :
    Extends e e' := by
  obtain rfl | ⟨nameCopy, instancePre, wasmModule, rfl, -, -⟩ := h
  · exact ⟨[], (List.append_nil _).symm⟩
  · exact ⟨_, List.map_append⟩

/-- What one event does to the engine, with what gets lost by it. -/
theorem engineStep_spec (e : EngineBlocks) (ev : EngineEvent) :
    Triple e.owned (engineStep e ev) fun e' P' => ∃ lost,
      P' = e'.owned + lost ∧ Extends e e' ∧ (TableOk e → TableOk e') ∧
      (reinitBy e ev = true → lost ≠ 0) ∧
      (reinitBy e ev = false → Paired e → lost = 0 ∧ Paired e') := by
  have hsame {e' : EngineBlocks} (h : table e' = table e) :
      Extends e e' ∧ (TableOk e → TableOk e') :=
    ⟨⟨[], by rw [h, List.append_nil]⟩, tableOk_congr h⟩
  cases ev with
  | loadModule env name =>
    refine Triple.seq (vwasmEngineLoadModule_spec env e name) ?_
    rintro ⟨ok, e'⟩ _ ⟨rfl, hload⟩
    refine Triple.pure ⟨0, (add_zero _).symm, extends_loaded hload, tableOk_loaded hload,
      fun h => absurd h Bool.false_ne_true, fun _ hp => ⟨rfl, ?_⟩⟩
    obtain rfl | ⟨nameCopy, instancePre, wasmModule, rfl, -, -⟩ := hload
    · exact hp
    · intro entry hentry hpool
      rcases List.mem_append.mp hentry with hentry | hentry
      · exact hp entry hentry hpool
      · rw [List.mem_singleton.mp hentry] at hpool
        contradiction
  | initPool warm pool name size =>
    refine Triple.seq (vwasmEngineInitPool_spec warm pool e name size) ?_
    rintro ⟨ok, e'⟩ P' ⟨lost, hP', htable, hlost, hkept⟩
    obtain ⟨hext, hok⟩ := hsame htable
    exact Triple.pure ⟨lost, hP', hext, hok, hlost, hkept⟩
  | initHttpPool alloc =>
    refine Triple.seq (vwasmEngineInitHttpPool_spec alloc e) ?_
    rintro ⟨ok, e'⟩ _ ⟨rfl, hmodules⟩
    obtain ⟨hext, hok⟩ := hsame (congrArg (List.map _) hmodules)
    refine Triple.pure ⟨0, (add_zero _).symm, hext, hok, fun h => absurd h Bool.false_ne_true,
      fun _ hp => ⟨rfl, fun entry hentry => hp entry ?_⟩⟩
    rwa [← hmodules]
  | setTickPeriod alloc thread name periodMs =>
    refine Triple.seq (vwasmEngineSetTickPeriod_spec alloc thread e name periodMs) ?_
    rintro ⟨ok, e'⟩ _ ⟨rfl, htable, hpaired⟩
    obtain ⟨hext, hok⟩ := hsame htable
    exact Triple.pure ⟨0, (add_zero _).symm, hext, hok, fun h => absurd h Bool.false_ne_true,
      fun _ hp => ⟨rfl, hpaired hp⟩⟩
  | setAllowedUpstreams env list =>
    refine (vwasmEngineSetAllowedUpstreams_spec env e list).mono ?_
    rintro e' _ ⟨rfl, hmodules⟩
    obtain ⟨hext, hok⟩ := hsame (congrArg (List.map _) hmodules)
    refine ⟨0, (add_zero _).symm, hext, hok, fun h => absurd h Bool.false_ne_true,
      fun _ hp => ⟨rfl, fun entry hentry => hp entry ?_⟩⟩
    rwa [← hmodules]

/-- The engine's blocks and those that got lost are all there are. -/
structure Inv (base : ℕ → Option Resource) (s : EngineState) : Prop where
  tableOk : TableOk s.engine
  owns : ∃ lost, Owns base s.heap (s.engine.owned + lost) ∧ (s.reinit = true ↔ lost ≠ 0) ∧
    (s.reinit = false → Paired s.engine)

variable {base : ℕ → Option Resource} {s s' : EngineState}

theorem engineStep_total (hi : Inv base s) (ev : EngineEvent) :
    ∃ e' h', engineStep s.engine ev s.heap = some (e', h') ∧ Extends s.engine e' ∧
      Inv base ⟨e', h', s.reinit || reinitBy s.engine ev⟩ := by
  obtain ⟨htable, lost, ho, hiff, hpaired⟩ := hi
  obtain ⟨e', h', _, hrun, ho', lost', rfl, hext, hok, hloses, hkept⟩ :=
    engineStep_spec s.engine ev base s.heap lost ho
  have hmore (hne : lost' ≠ 0 ∨ lost ≠ 0) : lost' + lost ≠ 0 := by
    intro hsum
    rcases hne with hne | hne
    · exact hne (Multiset.le_zero.mp (hsum ▸ Multiset.le_add_right lost' lost))
    · exact hne (Multiset.le_zero.mp (hsum ▸ Multiset.le_add_left lost lost'))
  refine ⟨e', h', hrun, hext, hok htable, lost' + lost, by rwa [← add_assoc], ?_⟩
  cases hre : reinitBy s.engine ev with
  | true =>
    rw [Bool.or_true]
    exact ⟨⟨fun _ => hmore (Or.inl (hloses hre)), fun _ => rfl⟩, fun h => (nomatch h)⟩
  | false =>
    rw [Bool.or_false]
    cases hr : s.reinit with
    | true => exact ⟨⟨fun _ => hmore (Or.inr (hiff.mp hr)), fun _ => rfl⟩, fun h => (nomatch h)⟩
    | false =>
      obtain ⟨hlost', hp'⟩ := hkept hre (hpaired hr)
      have hlost : lost = 0 := by
        by_contra hne
        rw [hiff.mpr hne] at hr
        contradiction
      refine ⟨⟨fun h => (nomatch h), fun hne => absurd ?_ hne⟩, fun _ => hp'⟩
      rw [hlost', hlost, add_zero]

theorem step_inv {ev : EngineEvent} (hstep : step s ev s') (hi : Inv base s) :
    Inv base s' ∧ Extends s.engine s'.engine := by
  obtain ⟨e', h', hrun, hext, hinv⟩ := engineStep_total hi ev
  obtain ⟨r, hrun', rfl⟩ := Option.map_eq_some_iff.mp hstep
  obtain rfl := Option.some.inj (hrun.symm.trans hrun')
  exact ⟨hinv, hext⟩

theorem new_inv {env : NewEnv} {h₀ h : Heap Resource} {e : EngineBlocks}
    (hfresh : ∀ i, h₀.next ≤ i → h₀.block i = none)
    (hnew : vwasmEngineNew env h₀ = some (some e, h)) : Inv h₀.block ⟨e, h, false⟩ := by
  obtain ⟨P, ho, rfl, hnil⟩ := (vwasmEngineNew_spec env).result hfresh hnew
  rw [← add_zero e.owned] at ho
  refine ⟨⟨by rw [hnil]; exact List.nodup_nil, by rw [hnil]; exact Nat.zero_le _⟩, 0, ho, ?_, ?_⟩
  · exact ⟨fun h => absurd h Bool.false_ne_true, fun hne => absurd rfl hne⟩
  · intro _ entry hentry
    rw [hnil] at hentry
    contradiction

theorem run_inv {ls : List EngineEvent} (hrun : Run step s ls s') (hi : Inv base s) : Inv base s' :=
  Run.invariant (Inv base) (fun _ _ _ hstep hi => (step_inv hstep hi).1) hrun hi

/-- A new engine. -/
def smallEngine : EngineBlocks := ⟨0, 1, 2, 3, [], none, none⟩

def newHeap : Heap Resource :=
  ((((Heap.empty.put .engine).put .wasmEngine).put .linker).put .epochThread)

def setUpPool : EngineEvent := .initPool {} { init := fun _ => .noStore } (ascii "auth") 0

/-- A module whose pool is set up once, and one more time. -/
def setUp (again : List EngineEvent) : Option EngineState :=
  exec next ⟨smallEngine, newHeap, false⟩ ([.loadModule {} (ascii "auth"), setUpPool] ++ again)

theorem new_smallEngine : vwasmEngineNew {} Heap.empty = some (some smallEngine, newHeap) := rfl

theorem extends_findModule {e e' : EngineBlocks} (h : Extends e e') {name : Bytes} {i : ℕ}
    (hi : findModule e name = some i) : findModule e' name = some i := by
  obtain ⟨more, hmore⟩ := h
  have hfind (e : EngineBlocks) :
      findModule e name = (table e).findIdx? fun row => row.1 == name := by
    rw [table, List.findIdx?_map]
    rfl
  rw [hfind] at hi ⊢
  rw [hmore, List.findIdx?_append, hi]
  rfl

theorem run_extends {ls : List EngineEvent} (hrun : Run step s ls s') (hi : Inv base s) :
    Extends s.engine s'.engine := by
  induction hrun with
  | nil => exact ⟨[], (List.append_nil _).symm⟩
  | cons hstep _ ih =>
    obtain ⟨hi', more, hmore⟩ := step_inv hstep hi
    obtain ⟨more', hmore'⟩ := ih hi'
    exact ⟨more ++ more', by rw [hmore', hmore, List.append_assoc]⟩

/-- A module keeps its index, its compiled code and its linked form from its loading
to the end of the engine, so that indices can be kept in tasks and in timers. -/
theorem module_index_stable (env : NewEnv) (h₀ h₁ : Heap Resource) (e₀ : EngineBlocks)
    (hfresh : ∀ i, h₀.next ≤ i → h₀.block i = none)
    (hnew : vwasmEngineNew env h₀ = some (some e₀, h₁)) (before after : List EngineEvent)
    (s s' : EngineState) (hbefore : Run step ⟨e₀, h₁, false⟩ before s)
    (hafter : Run step s after s') (name : Bytes) (i : ℕ) (hi : findModule s.engine name = some i) :
    i < maxModules ∧ findModule s'.engine name = some i ∧
      (table s'.engine)[i]? = (table s.engine)[i]? ∧
      (s'.engine.modules.map ModuleBlocks.name).Nodup := by
  have hinv := run_inv hbefore (new_inv hfresh hnew)
  have hinv' := run_inv hafter hinv
  have hext := run_extends hafter hinv
  have hlt : i < s.engine.modules.length := (List.findIdx?_eq_some_iff_getElem.mp hi).1
  refine ⟨lt_of_lt_of_le hlt hinv.tableOk.length_le, extends_findModule hext hi, ?_,
    hinv'.tableOk.nodup⟩
  obtain ⟨more, hmore⟩ := hext
  rw [hmore, List.getElem?_append_left]
  rwa [table, List.length_map]

theorem module_index_stable_auth :
    ∃ s, setUp [] = some s ∧ findModule s.engine (ascii "auth") = some 0 := by
  have hload : ∃ s, exec next ⟨smallEngine, newHeap, false⟩ [.loadModule {} (ascii "auth")] =
      some s ∧ findModule s.engine (ascii "auth") = some 0 ∧ (setUp []) = exec next s [setUpPool] :=
    ⟨_, rfl, rfl, rfl⟩
  obtain ⟨s, hs, hfind, hsame⟩ := hload
  have hall : (setUp []).isSome = true := rfl
  obtain ⟨s', hs'⟩ := Option.isSome_iff_exists.mp hall
  exact ⟨s', hs', (module_index_stable {} Heap.empty newHeap _ (fun _ _ => rfl) new_smallEngine _ _
    s s' (Run.of_exec hs) (Run.of_exec (hsame.symm.trans hs')) (ascii "auth") 0 hfind).2.1⟩

end Runs

end VmodWasm.EngineLife
