import VmodWasm.Lib.Tally
import VmodWasm.StoreOwnership

/-!
The execution statistics of an engine. An execution that ends at the cleanup
label counts itself and its outcome. One that leaves its response body to the
delivery processor counts itself only; the outcome is counted by the processor
when it is closed. The end of a task that no processor has worked on counts
nothing, and two processors on one task count twice.
-/
namespace VmodWasm.CallStatistics

open HostCalls Execute VdpStream StoreOwnership Lib.Transition Lib.Tally

variable {σ : Type}

/-- The counters of `struct vwasm_stats` that balance. -/
structure Stats where
  callsTotal : UInt64 := 0
  callsOk : UInt64 := 0
  callsError : UInt64 := 0
  deriving DecidableEq

/-- What an execution counts. It counts nothing if it has no store to run in. -/
def countExecution (st : Stats) (r : ExecResult σ) : Stats :=
  match r.store, r.task with
  | none, _ => st
  | some _, some _ => { st with callsTotal := st.callsTotal + 1 }
  | some _, none =>
    if 0 ≤ r.exit.ret then
      { st with callsTotal := st.callsTotal + 1, callsOk := st.callsOk + 1 }
    else { st with callsTotal := st.callsTotal + 1, callsError := st.callsError + 1 }

/-- What a step of a client task counts; `vdp_wasm_fini` returns at once if its
`*priv` is NULL, and `vdp_wasm_task_fini` counts nothing. -/
def countEvent (st : Stats) (c : ClientTask σ) : TaskEvent σ → Stats
  | .execute engine env name phase vmConfig pluginConfig w =>
    countExecution st (proxyWasmExecute engine env name phase vmConfig pluginConfig w)
  | .vdpFini v =>
    match c.vdps[v]? with
    | some (some _) => { st with callsOk := st.callsOk + 1 }
    | _ => st
  | _ => st

/-- An engine with the client tasks it has served or is serving. -/
structure Service (σ : Type) where
  stats : Stats := {}
  clients : List (ClientTask σ) := []

inductive ServiceEvent (σ : Type) where
  | arrive
  | step (i : ℕ) (e : TaskEvent σ)

def serviceStep (s : Service σ) : ServiceEvent σ → Option (Service σ)
  | .arrive => some { s with clients := s.clients ++ [{}] }
  | .step i e =>
    s.clients[i]?.bind fun c =>
      (taskStep c e).map fun c' => ⟨countEvent s.stats c e, s.clients.set i c'⟩

/-- No request is in progress. -/
def Idle (s : Service σ) : Prop := ∀ c ∈ s.clients, c.ended = true

def Balanced (st : Stats) : Prop := st.callsTotal = st.callsOk + st.callsError

instance (st : Stats) : Decidable (Balanced st) :=
  inferInstanceAs (Decidable (st.callsTotal = st.callsOk + st.callsError))

/-- The executions that have left their response body to a task. -/
def deferred (s : Service σ) : ℕ := (s.clients.map fun c => c.tasks.length).sum

/-- The delivery processors that have been pushed onto a task. -/
def activated (s : Service σ) : ℕ := (s.clients.map fun c => c.vdps.length).sum

def closedVdps (c : ClientTask σ) : ℕ := c.vdps.countP Option.isNone

section Step

/-- The counters after some more calls. -/
def Stats.add (st : Stats) (total ok error : ℕ) : Stats :=
  ⟨st.callsTotal + UInt64.ofNat total, st.callsOk + UInt64.ofNat ok,
    st.callsError + UInt64.ofNat error⟩

theorem Stats.add_zero (st : Stats) : st.add 0 0 0 = st := by
  simp [Stats.add]

theorem Stats.add_one_ok (st : Stats) : st.add 0 1 0 = { st with callsOk := st.callsOk + 1 } := by
  simp [Stats.add]

/-- An execution that is left to a task counts one call more than outcomes. -/
theorem recordExecution_count (c : ClientTask σ) (g : Option (Guest σ)) (env : HostEnv)
    (r : ExecResult σ) (hg : r.store ≠ none → g ≠ none) (st : Stats) :
    ∃ total ok error, countExecution st r = st.add total ok error ∧
      total + closedVdps (recordExecution c g env r) + c.tasks.length =
        ok + error + (recordExecution c g env r).tasks.length + closedVdps c := by
  unfold recordExecution countExecution
  rcases hstore : r.store with _ | store
  · exact ⟨0, 0, 0, st.add_zero.symm, by dsimp only; omega⟩
  · obtain ⟨g, rfl⟩ := Option.ne_none_iff_exists'.mp (hg (by simp [hstore]))
    rcases r.task with _ | task
    · dsimp only
      split
      · exact ⟨1, 1, 0, by simp [Stats.add], by simp only [closedVdps]; omega⟩
      · exact ⟨1, 0, 1, by simp [Stats.add], by simp only [closedVdps]; omega⟩
    · refine ⟨1, 0, 0, by simp [Stats.add], ?_⟩
      simp only [closedVdps, List.length_append, List.length_singleton]
      omega

theorem closedVdps_set {c : ClientTask σ} {v i : ℕ} (h : c.vdps[v]? = some (some i)) :
    (c.vdps.set v none).countP Option.isNone = closedVdps c + 1 := by
  obtain ⟨hlt, hget⟩ := List.getElem?_eq_some_iff.mp h
  rw [List.countP_set hlt, hget]
  rfl

theorem finiStored_tasks (c : ClientTask σ) :
    (finiStored c).tasks = c.tasks ∧ (finiStored c).vdps = c.vdps := by
  unfold finiStored
  repeat' split
  all_goals exact ⟨rfl, rfl⟩

/-- A step counts as many calls as outcomes, but for executions that are left to a
task and processors that are closed. -/
theorem taskStep_count {c c' : ClientTask σ} {e : TaskEvent σ} (h : taskStep c e = some c')
    (st : Stats) :
    ∃ total ok error, countEvent st c e = st.add total ok error ∧
      total + closedVdps c' + c.tasks.length = ok + error + c'.tasks.length + closedVdps c := by
  obtain ⟨-, hchange⟩ := taskStep_cases h
  cases hchange with
  | execute engine env name phase vmConfig pluginConfig w =>
    refine recordExecution_count c _ _ _ ?_ st
    intro hstore
    rcases proxyWasmExecute_store engine env name phase vmConfig pluginConfig w _ rfl with
      hnone | ⟨g, _, hfind, -⟩
    · exact absurd hnone hstore
    · rw [hfind]
      exact Option.some_ne_none g
  | pushed hpriv =>
    refine ⟨0, 0, 0, st.add_zero.symm, ?_⟩
    simp only [closedVdps, List.countP_append, List.countP_singleton, hpriv, Bool.false_eq_true,
      if_false]
    omega
  | notPushed => exact ⟨0, 0, 0, st.add_zero.symm, by omega⟩
  | bytes v i k call cell hv hcell =>
    refine ⟨0, 0, 0, st.add_zero.symm, ?_⟩
    simp only [closedVdps, ClientTask.setTask, List.length_set]
    omega
  | closed v i cell hv hcell =>
    have hclosed : closedVdps (finishVdp c v i cell) = closedVdps c + 1 := closedVdps_set hv
    have htasks : (finishVdp c v i cell).tasks.length = c.tasks.length := List.length_set
    refine ⟨0, 1, 0, ?_, by omega⟩
    rw [countEvent, hv, st.add_one_ok]
  | closedBefore v hv =>
    refine ⟨0, 0, 0, ?_, by omega⟩
    rw [countEvent, hv, st.add_zero]
  | ended hclosed =>
    refine ⟨0, 0, 0, st.add_zero.symm, ?_⟩
    obtain ⟨htasks, hvdps⟩ := finiStored_tasks c
    simp only [closedVdps, htasks, hvdps]
    omega

/-- A task that ends has no open processor. -/
theorem taskStep_closed {c c' : ClientTask σ} {e : TaskEvent σ} (h : taskStep c e = some c')
    (hend : c'.ended = true) : closedVdps c' = c'.vdps.length := by
  obtain ⟨hopen, hchange⟩ := taskStep_cases h
  have hnot : c.ended ≠ true := Bool.eq_false_iff.mp hopen
  cases hchange with
  | execute engine env name phase vmConfig pluginConfig w =>
    unfold recordExecution at hend
    repeat' split at hend
    all_goals exact absurd hend hnot
  | pushed => exact absurd hend hnot
  | notPushed => exact absurd hend hnot
  | bytes => exact absurd hend hnot
  | closed => exact absurd hend hnot
  | closedBefore => exact absurd hend hnot
  | ended hclosed =>
    rw [closedVdps, (finiStored_tasks c).2]
    exact List.countP_eq_length.mpr fun v hv => List.all_eq_true.mp hclosed v hv

end Step

section Run

/-- The processors that have been closed. -/
def finished (s : Service σ) : ℕ := (s.clients.map closedVdps).sum

/-- The books of the engine: it has counted one outcome for each call, except
that the calls left to tasks are counted when processors are closed. -/
structure Books (s : Service σ) : Prop where
  counted : ∃ total ok error, s.stats = ({} : Stats).add total ok error ∧
    total + finished s = ok + error + deferred s
  closed : ∀ c ∈ s.clients, c.ended = true → closedVdps c = c.vdps.length

theorem Stats.add_add (st : Stats) (t o e t' o' e' : ℕ) :
    (st.add t o e).add t' o' e' = st.add (t + t') (o + o') (e + e') := by
  simp only [Stats.add, UInt64.ofNat_add, UInt64.add_assoc]

theorem Books.init : Books ({} : Service σ) :=
  ⟨⟨0, 0, 0, rfl, rfl⟩, fun _ hc => absurd hc List.not_mem_nil⟩

theorem Books.step {s s' : Service σ} {e : ServiceEvent σ} (h : serviceStep s e = some s')
    (hbooks : Books s) : Books s' := by
  obtain ⟨total, ok, error, hstats, hsum⟩ := hbooks.counted
  cases e with
  | arrive =>
    obtain rfl := Option.some.inj h
    refine ⟨⟨total, ok, error, hstats, ?_⟩, fun c hc hend => ?_⟩
    · simpa [finished, deferred, closedVdps] using hsum
    · rcases List.mem_append.mp hc with hc | hc
      · exact hbooks.closed c hc hend
      · obtain rfl := List.mem_singleton.mp hc
        exact absurd hend Bool.false_ne_true
  | step i e =>
    obtain ⟨c, hc, h⟩ := Option.bind_eq_some_iff.mp h
    obtain ⟨c', hstep, rfl⟩ := Option.map_eq_some_iff.mp h
    obtain ⟨t, o, r, hcount, hmoved⟩ := taskStep_count hstep s.stats
    constructor
    · refine ⟨total + t, ok + o, error + r, ?_, ?_⟩
      · dsimp only
        rw [hcount, hstats, Stats.add_add]
      · have hfinished := sum_map_set closedVdps hc c'
        have hdeferred := sum_map_set (fun c => c.tasks.length) hc c'
        dsimp only [finished, deferred] at hsum ⊢
        omega
    · intro d hd hend
      rcases List.mem_or_eq_of_mem_set hd with hd | rfl
      · exact hbooks.closed d hd hend
      · exact taskStep_closed hstep hend

theorem balanced_add (total ok error : ℕ) :
    Balanced (({} : Stats).add total ok error) ↔ total % 2 ^ 64 = (ok + error) % 2 ^ 64 := by
  simp only [Balanced, Stats.add, UInt64.zero_add, ← UInt64.ofNat_add]
  rw [← UInt64.toNat_inj, UInt64.toNat_ofNat', UInt64.toNat_ofNat']

/-- Once no request is in progress the statistics balance exactly if as many
delivery processors have been activated as executions were left to them, up to the
width of the counters. -/
theorem balanced_iff (events : List (ServiceEvent σ)) (s : Service σ)
    (hrun : Run (fun s e s' => serviceStep s e = some s') {} events s) (hidle : Idle s) :
    Balanced s.stats ↔ deferred s % 2 ^ 64 = activated s % 2 ^ 64 := by
  have hbooks : Books s := hrun.invariant Books (fun _ _ _ h => Books.step h) Books.init
  obtain ⟨total, ok, error, hstats, hsum⟩ := hbooks.counted
  have hfinished : finished s = activated s := by
    unfold finished activated
    rw [List.map_congr_left fun c hc => hbooks.closed c hc (hidle c hc)]
  rw [hfinished] at hsum
  rw [hstats, balanced_add]
  omega

/-- A run that executes to an idle engine with the given counters. -/
theorem idle_of_exec {events : List (ServiceEvent σ)} {st : Stats}
    (h : (exec serviceStep {} events).map (fun s => (s.stats, s.clients.all (·.ended))) =
      some (st, true)) :
    ∃ s, exec serviceStep {} events = some s ∧ Idle s ∧ s.stats = st := by
  obtain ⟨s, hs, hend⟩ := Option.map_eq_some_iff.mp h
  obtain ⟨hstats, hall⟩ := Prod.mk.inj hend
  exact ⟨s, hs, List.all_eq_true.mp hall, hstats⟩

/-- A request that fails and a response whose body is delivered. -/
def oneDelivery : List (ServiceEvent Unit) := .arrive :: deliveredTask.map (.step 0)

theorem oneDelivery_balanced :
    ∃ s, exec serviceStep {} oneDelivery = some s ∧ Idle s ∧ s.stats = ⟨2, 1, 1⟩ ∧
      (Balanced s.stats ↔ deferred s % 2 ^ 64 = activated s % 2 ^ 64) := by
  obtain ⟨s, hs, hidle, hstats⟩ := idle_of_exec
    (show (exec serviceStep {} oneDelivery).map (fun s => (s.stats, s.clients.all (·.ended))) =
      some (⟨2, 1, 1⟩, true) by decide +kernel)
  exact ⟨s, hs, hidle, hstats, balanced_iff oneDelivery s (Run.of_exec hs) hidle⟩

/-- A response whose body is left to the delivery processor, in a VCL that does
not name the processor in `resp.filters`. -/
def undelivered : List (ServiceEvent Unit) :=
  [.arrive, .step 0 (respond { pooled := some 0 }), .step 0 .taskFini]

theorem undelivered_unbalanced :
    ∃ s, exec serviceStep {} undelivered = some s ∧ Idle s ∧ s.stats = ⟨1, 0, 0⟩ ∧
      ¬ Balanced s.stats := by
  obtain ⟨s, hs, hidle, hstats⟩ := idle_of_exec
    (show (exec serviceStep {} undelivered).map (fun s => (s.stats, s.clients.all (·.ended))) =
      some (⟨1, 0, 0⟩, true) by decide +kernel)
  refine ⟨s, hs, hidle, hstats, ?_⟩
  rw [hstats]
  decide

end Run

end VmodWasm.CallStatistics
