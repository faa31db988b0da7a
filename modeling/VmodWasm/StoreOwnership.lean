import VmodWasm.VdpStream
import VmodWasm.Lib.ResourceLedger
import VmodWasm.Lib.Transition

/-!
Who releases the store of an execution. Within one client task Varnish may run
any number of executions, push the delivery processor any number of times and
end the task, which finalizes the one task context stored under the module's
PRIV_TASK key. Acquired stores and their releases are kept in a ledger, under
the number of their execution.
-/
namespace VmodWasm.StoreOwnership

open ByteStrings HostCalls Execute VdpStream Lib.Transition Lib.ResourceLedger

variable {σ : Type}

/-- A heap-allocated task context with the module that runs in its store; `id`
is the number under which the store was acquired. -/
structure TaskCell (σ : Type) where
  id : ℕ
  task : VdpTask
  guest : Guest σ
  env : HostEnv
  world : σ

def TaskCell.machine (cell : TaskCell σ) : Machine σ := ⟨cell.world, cell.task.host⟩

def TaskCell.setMachine (cell : TaskCell σ) (m : Machine σ) : TaskCell σ :=
  { cell with world := m.world, task := { cell.task with host := m.host } }

/-- `task->store = NULL`. -/
def TaskCell.clearStore (cell : TaskCell σ) : TaskCell σ :=
  { cell with task := { cell.task with live := false } }

/-- A client task: the task contexts allocated so far, the one PRIV_TASK points
to, and the `*priv` of each pushed delivery processor. -/
structure ClientTask (σ : Type) where
  ledger : Ledger StoreRef := {}
  tasks : List (TaskCell σ) := []
  priv : Option ℕ := none
  vdps : List (Option ℕ) := []
  ended : Bool := false

def ClientTask.setTask (s : ClientTask σ) (k : ℕ) (cell : TaskCell σ) : ClientTask σ :=
  { s with tasks := s.tasks.set k cell }

def ClientTask.storedTask (s : ClientTask σ) : Option (TaskCell σ) :=
  s.priv.bind fun k => s.tasks[k]?

/-- PRIV_TASK points to a task context that still has its store. -/
def ClientTask.holdsStore (s : ClientTask σ) : Bool := s.storedTask.any fun cell => cell.task.live

inductive TaskEvent (σ : Type) where
  | execute (engine : Engine σ) (env : ExecEnv) (name : Bytes) (phase : Phase)
      (vmConfig pluginConfig : Bytes) (w : σ)
  | vdpInit
  | vdpBytes (v k : ℕ) (c : VdpCall)
  | vdpFini (v : ℕ)
  | taskFini

/-- The stores an execution took and dropped, and the task context it left. -/
def recordExecution (s : ClientTask σ) (g : Option (Guest σ)) (env : HostEnv)
    (r : ExecResult σ) : ClientTask σ :=
  match r.store with
  | none => s
  | some store =>
    let id := s.ledger.taken.length
    let ledger := r.drops.foldl (fun l d => l.drop id d) (s.ledger.take store)
    match r.task, g with
    | some task, some g =>
      { s with
        ledger := ledger
        tasks := s.tasks ++ [⟨id, task, g, env, r.machine.world⟩]
        priv := some s.tasks.length }
    | _, _ => { s with ledger := ledger }

/-- `vdp_wasm_fini` on the task context `k`: the last callbacks run and the
store is released, whether or not it still is in the task. -/
def finishVdp (s : ClientTask σ) (v k : ℕ) (cell : TaskCell σ) : ClientTask σ :=
  let s := s.setTask k (cell.setMachine (vdpWasmFini cell.env cell.guest cell.machine)).clearStore
  { s with ledger := s.ledger.drop cell.id cell.task.store, vdps := s.vdps.set v none }

/-- `vdp_wasm_task_fini` on the stored task context. -/
def finiStored (s : ClientTask σ) : ClientTask σ :=
  match s.storedTask with
  | some cell =>
    if cell.task.live then { s with ledger := s.ledger.drop cell.id cell.task.store } else s
  | none => s

/-- One step of a client task. Varnish closes all delivery processors before it
ends the task, and does nothing afterwards. -/
def taskStep (s : ClientTask σ) (e : TaskEvent σ) : Option (ClientTask σ) :=
  if s.ended then none
  else
    match e with
    | .execute engine env name phase vmConfig pluginConfig w =>
      some (recordExecution s (findModule engine name) (hostEnv engine env)
        (proxyWasmExecute engine env name phase vmConfig pluginConfig w))
    | .vdpInit =>
      match s.storedTask with
      | some _ => some { s with vdps := s.vdps ++ [s.priv] }
      | none => some s
    | .vdpBytes v k c =>
      match s.vdps[v]? with
      | some (some i) =>
        (s.tasks[i]?).map fun cell =>
          s.setTask i (cell.setMachine (vdpWasmBytes cell.env cell.guest k c cell.machine).2)
      | _ => none
    | .vdpFini v =>
      match s.vdps[v]? with
      | some (some i) => (s.tasks[i]?).map fun cell => finishVdp s v i cell
      | some none => some s
      | none => none
    | .taskFini =>
      if s.vdps.all Option.isNone then some { finiStored s with ended := true, priv := none }
      else none

/-- What a step of a client task does. -/
inductive TaskChange (s : ClientTask σ) : TaskEvent σ → ClientTask σ → Prop where
  | execute (engine : Engine σ) (env : ExecEnv) (name : Bytes) (phase : Phase)
      (vmConfig pluginConfig : Bytes) (w : σ) :
      TaskChange s (.execute engine env name phase vmConfig pluginConfig w)
        (recordExecution s (findModule engine name) (hostEnv engine env)
          (proxyWasmExecute engine env name phase vmConfig pluginConfig w))
  | pushed (hpriv : s.priv.isNone = false) :
      TaskChange s .vdpInit { s with vdps := s.vdps ++ [s.priv] }
  | notPushed : TaskChange s .vdpInit s
  | bytes (v i k : ℕ) (c : VdpCall) (cell : TaskCell σ) (hv : s.vdps[v]? = some (some i))
      (hcell : s.tasks[i]? = some cell) :
      TaskChange s (.vdpBytes v k c)
        (s.setTask i (cell.setMachine (vdpWasmBytes cell.env cell.guest k c cell.machine).2))
  | closed (v i : ℕ) (cell : TaskCell σ) (hv : s.vdps[v]? = some (some i))
      (hcell : s.tasks[i]? = some cell) : TaskChange s (.vdpFini v) (finishVdp s v i cell)
  | closedBefore (v : ℕ) (hv : s.vdps[v]? = some none) : TaskChange s (.vdpFini v) s
  | ended (hclosed : s.vdps.all Option.isNone = true) :
      TaskChange s .taskFini { finiStored s with ended := true, priv := none }

theorem taskStep_cases {s s' : ClientTask σ} {e : TaskEvent σ} (hstep : taskStep s e = some s') :
    s.ended = false ∧ TaskChange s e s' := by
  unfold taskStep at hstep
  split at hstep
  · contradiction
  next hopen =>
    refine ⟨Bool.eq_false_iff.mpr hopen, ?_⟩
    cases e with
    | execute engine env name phase vmConfig pluginConfig w =>
      obtain rfl := Option.some.inj hstep
      exact .execute engine env name phase vmConfig pluginConfig w
    | vdpInit =>
      dsimp only at hstep
      split at hstep
      next cell hcell =>
        obtain rfl := Option.some.inj hstep
        apply TaskChange.pushed
        cases hpriv : s.priv with
        | none => simp [ClientTask.storedTask, hpriv] at hcell
        | some k => rfl
      next =>
        obtain rfl := Option.some.inj hstep
        exact .notPushed
    | vdpBytes v k c =>
      dsimp only at hstep
      split at hstep
      next i hv =>
        obtain ⟨cell, hcell, rfl⟩ := Option.map_eq_some_iff.mp hstep
        exact .bytes v i k c cell hv hcell
      next => contradiction
    | vdpFini v =>
      dsimp only at hstep
      split at hstep
      next i hv =>
        obtain ⟨cell, hcell, rfl⟩ := Option.map_eq_some_iff.mp hstep
        exact .closed v i cell hv hcell
      next hv =>
        obtain rfl := Option.some.inj hstep
        exact .closedBefore v hv
      next => contradiction
    | taskFini =>
      dsimp only at hstep
      split at hstep
      next hclosed =>
        obtain rfl := Option.some.inj hstep
        exact .ended hclosed
      next => contradiction

/-- An execution hands its store over only if Varnish has room for the task and
no other store is still waiting there; a processor is pushed only onto a task
that has its store and no processor yet. -/
def handsOverAlone (s : ClientTask σ) : TaskEvent σ → Bool
  | .execute engine env name phase _ _ _ =>
    match findModule engine name with
    | some g => !(defersBody g phase && env.taskAlloc) || (env.privTask && !s.holdsStore)
    | none => true
  | .vdpInit => s.priv.isNone || (s.holdsStore && !s.vdps.contains s.priv)
  | _ => true

/-- What an execution does with its store: it has none, drops it, leaves it to
a task, or drops it twice because Varnish had no room for the task. -/
theorem proxyWasmExecute_store (engine : Engine σ) (env : ExecEnv) (name : Bytes) (phase : Phase)
    (vmConfig pluginConfig : Bytes) (w : σ) (r : ExecResult σ)
    (hr : proxyWasmExecute engine env name phase vmConfig pluginConfig w = r) :
    r.store = none ∨
    ∃ g store, findModule engine name = some g ∧ r.store = some store ∧
      ((r.drops = [store] ∧ r.task = none) ∨
        (defersBody g phase = true ∧ env.taskAlloc = true ∧
          ((env.privTask = false ∧ r.drops = [store, store] ∧ r.task = none) ∨
            (env.privTask = true ∧ r.drops = [] ∧
              ∃ task, r.task = some task ∧ task.store = store ∧ task.live = true)))) := by
  rcases proxyWasmExecute_cases engine env name phase vmConfig pluginConfig w r hr with
    ⟨_, rfl⟩ | ⟨g, store, hadmitted, hrun⟩
  · exact Or.inl rfl
  · have hfind : findModule engine name = some g := by
      unfold admitted at hadmitted
      repeat' split at hadmitted
      all_goals simp_all
    refine Or.inr ⟨g, store, hfind, ?_⟩
    rcases hrun with ⟨m, _, rfl⟩ | ⟨d, m, _, rfl⟩
    · exact ⟨rfl, Or.inl ⟨rfl, rfl⟩⟩
    · unfold takeVerdict finishStream
      split
      · exact ⟨rfl, Or.inl ⟨rfl, rfl⟩⟩
      · split
        · exact ⟨rfl, Or.inl ⟨rfl, rfl⟩⟩
        · split
          next hdefers =>
            unfold handOver
            cases halloc : env.taskAlloc <;> cases hpriv : env.privTask <;>
              simp [cleanup, hdefers]
          next => exact ⟨rfl, Or.inl ⟨rfl, rfl⟩⟩

/-- The store that waits in the stored task context is the only one not yet
dropped, and at most one delivery processor works on it. -/
structure Sound (s : ClientTask σ) : Prop where
  balanced : s.ledger.Balanced fun i =>
    ∃ cell, s.storedTask = some cell ∧ cell.task.live = true ∧ cell.id = i
  matching : ∀ cell, s.storedTask = some cell → cell.task.live = true →
    s.ledger.taken[cell.id]? = some cell.task.store
  opened : ∀ v i : ℕ, s.vdps[v]? = some (some i) → s.priv = some i ∧ s.holdsStore = true
  single : ∀ v v' i i' : ℕ, s.vdps[v]? = some (some i) → s.vdps[v']? = some (some i') → v = v'
  closed : s.ended = true → s.priv = none

theorem holdsStore_iff (s : ClientTask σ) :
    s.holdsStore = true ↔ ∃ cell, s.storedTask = some cell ∧ cell.task.live = true := by
  rw [ClientTask.holdsStore, Option.any_eq_true]

theorem sound_empty : Sound ({} : ClientTask σ) where
  balanced := Ledger.balanced_empty.congr fun i => by simp [ClientTask.storedTask]
  matching cell h := by simp [ClientTask.storedTask] at h
  opened v i h := by simp at h
  single v v' i i' h := by simp at h
  closed h := by simp at h

/-- No processor is open while no store waits. -/
theorem Sound.none_open {s : ClientTask σ} (h : Sound s) (hfree : s.holdsStore = false) (v i : ℕ) :
    s.vdps[v]? ≠ some (some i) := by
  intro hv
  rw [(h.opened v i hv).2] at hfree
  contradiction

/-- An execution that cleans up behind itself. -/
theorem Sound.takeDrop {s : ClientTask σ} (h : Sound s) (store : StoreRef) :
    Sound { s with ledger := (s.ledger.take store).drop s.ledger.taken.length store } where
  balanced := by
    have hlast : (s.ledger.take store).taken[s.ledger.taken.length]? = some store := by
      simp [Ledger.take]
    refine ((h.balanced.take store).drop _ store (Or.inr rfl) hlast).congr ?_
    intro i
    constructor
    · rintro ⟨hheld | hlast, hne⟩
      · exact hheld
      · exact absurd hlast hne
    · intro hheld
      have hlt := (h.balanced.held i hheld).1
      exact ⟨Or.inl hheld, by omega⟩
  matching cell hcell hlive := by
    have htaken := h.matching cell hcell hlive
    have hlt := (List.getElem?_eq_some_iff.mp htaken).1
    simp only [Ledger.drop, Ledger.take]
    rw [List.getElem?_append_left hlt]
    exact htaken
  opened := h.opened
  single := h.single
  closed := h.closed

/-- An execution that leaves its store to a task, with no other store waiting. -/
theorem Sound.handOver {s : ClientTask σ} (h : Sound s) (hfree : s.holdsStore = false)
    (hended : s.ended = false) (cell : TaskCell σ) (hid : cell.id = s.ledger.taken.length)
    (hlive : cell.task.live = true) :
    Sound { s with
      ledger := s.ledger.take cell.task.store
      tasks := s.tasks ++ [cell]
      priv := some s.tasks.length } where
  balanced := by
    refine (h.balanced.take cell.task.store).congr ?_
    intro i
    have hnone : ¬ ∃ cell, s.storedTask = some cell ∧ cell.task.live = true ∧ cell.id = i := by
      rintro ⟨cell', hcell', hlive', _⟩
      rw [(holdsStore_iff s).mpr ⟨cell', hcell', hlive'⟩] at hfree
      contradiction
    rw [or_iff_right hnone]
    simp only [ClientTask.storedTask, Option.bind_some, List.getElem?_concat_length,
      Option.some.injEq]
    constructor
    · intro hi
      exact ⟨cell, rfl, hlive, hid.trans hi.symm⟩
    · rintro ⟨_, rfl, _, hi⟩
      exact hi.symm.trans hid
  matching cell' hcell' _ := by
    simp only [ClientTask.storedTask, Option.bind_some, List.getElem?_concat_length,
      Option.some.injEq] at hcell'
    subst hcell'
    simp [Ledger.take, hid]
  opened v i hv := absurd hv (h.none_open hfree v i)
  single v _ i _ hv := absurd hv (h.none_open hfree v i)
  closed hend := by
    rw [hended] at hend
    contradiction

theorem recordExecution_sound (s : ClientTask σ) (engine : Engine σ) (env : ExecEnv) (name : Bytes)
    (phase : Phase) (vmConfig pluginConfig : Bytes) (w : σ) (h : Sound s) (hended : s.ended = false)
    (hguard : handsOverAlone s (.execute engine env name phase vmConfig pluginConfig w) = true) :
    Sound (recordExecution s (findModule engine name) (hostEnv engine env)
      (proxyWasmExecute engine env name phase vmConfig pluginConfig w)) := by
  rcases proxyWasmExecute_store engine env name phase vmConfig pluginConfig w _ rfl with
    hnone | ⟨g, store, hfind, hstore, ⟨hdrops, htask⟩ | ⟨hdefers, halloc, hpriv⟩⟩
  · rw [recordExecution, hnone]
    exact h
  · rw [recordExecution, hstore, hdrops, htask]
    exact h.takeDrop store
  · simp only [handsOverAlone, hfind, hdefers, halloc, Bool.and_self, Bool.not_true,
      Bool.false_or, Bool.and_eq_true, Bool.not_eq_true'] at hguard
    rcases hpriv with ⟨hno, _, _⟩ | ⟨_, hdrops, task, htask, rfl, hlive⟩
    · rw [hno] at hguard
      exact absurd hguard.1 (by decide)
    · rw [recordExecution, hstore, hdrops, htask, hfind]
      exact h.handOver hguard.2 hended ⟨_, task, g, _, _⟩ rfl hlive

/-- The stored task context after a store to the one at `k`. -/
theorem storedTask_setTask (s : ClientTask σ) (k : ℕ) (cell cell' : TaskCell σ)
    (hpriv : s.priv = some k) (hcell : s.tasks[k]? = some cell) :
    (s.setTask k cell').storedTask = some cell' := by
  have hlt := (List.getElem?_eq_some_iff.mp hcell).1
  simp [ClientTask.storedTask, ClientTask.setTask, hpriv, hlt]

theorem storedTask_eq (s : ClientTask σ) (k : ℕ) (hpriv : s.priv = some k) :
    s.storedTask = s.tasks[k]? := by
  rw [ClientTask.storedTask, hpriv, Option.bind_some]

/-- Guest code that runs in the stored task context leaves the store where it is. -/
theorem Sound.setMachine {s : ClientTask σ} (h : Sound s) (k : ℕ) (cell : TaskCell σ)
    (m : Machine σ) (hpriv : s.priv = some k) (hcell : s.tasks[k]? = some cell) :
    Sound (s.setTask k (cell.setMachine m)) := by
  have hold : s.storedTask = some cell := (storedTask_eq s k hpriv).trans hcell
  have hnew := storedTask_setTask s k cell (cell.setMachine m) hpriv hcell
  have hholds : (s.setTask k (cell.setMachine m)).holdsStore = s.holdsStore := by
    rw [ClientTask.holdsStore, ClientTask.holdsStore, hnew, hold]
    rfl
  constructor
  · refine h.balanced.congr fun i => ?_
    rw [hold, hnew]
    simp [TaskCell.setMachine]
  · intro cell' hcell' hlive
    rw [hnew] at hcell'
    injection hcell' with hcell'
    subst hcell'
    exact h.matching cell hold hlive
  · intro v i hv
    rw [hholds]
    exact h.opened v i hv
  · exact h.single
  · exact h.closed

/-- Once the waiting store is dropped, nothing is held. -/
theorem Sound.dropStored {s : ClientTask σ} (h : Sound s) (cell : TaskCell σ)
    (hcell : s.storedTask = some cell) (hlive : cell.task.live = true) :
    (s.ledger.drop cell.id cell.task.store).Balanced fun _ => False := by
  refine (h.balanced.drop cell.id cell.task.store ⟨cell, hcell, hlive, rfl⟩
    (h.matching cell hcell hlive)).congr fun i => ?_
  rw [hcell, iff_false]
  rintro ⟨⟨_, heq, _, hi⟩, hne⟩
  injection heq with heq
  exact hne (heq ▸ hi.symm)

/-- The processor of the stored task context releases its store. -/
theorem finishVdp_sound (s : ClientTask σ) (h : Sound s) (hended : s.ended = false) (v k : ℕ)
    (cell : TaskCell σ) (hv : s.vdps[v]? = some (some k)) (hcell : s.tasks[k]? = some cell) :
    Sound (finishVdp s v k cell) := by
  obtain ⟨hpriv, hholds⟩ := h.opened v k hv
  have hold : s.storedTask = some cell := (storedTask_eq s k hpriv).trans hcell
  have hlive : cell.task.live = true := by
    obtain ⟨cell', hcell', hlive⟩ := (holdsStore_iff s).mp hholds
    rw [hold] at hcell'
    injection hcell' with hcell'
    exact hcell' ▸ hlive
  have hnew : (finishVdp s v k cell).storedTask =
      some (cell.setMachine (vdpWasmFini cell.env cell.guest cell.machine)).clearStore :=
    storedTask_setTask s k cell _ hpriv hcell
  have hclosed (v' i : ℕ) : (finishVdp s v k cell).vdps[v']? ≠ some (some i) := by
    intro hv'
    by_cases hvv : v' = v
    · subst hvv
      simp [finishVdp, ClientTask.setTask, List.getElem?_set] at hv'
    · have hother : s.vdps[v']? = some (some i) := by
        simpa [finishVdp, ClientTask.setTask,
          List.getElem?_set_ne (Ne.symm hvv)] using hv'
      exact hvv (h.single v' v i k hother hv)
  constructor
  · refine (h.dropStored cell hold hlive).congr fun i => ?_
    rw [hnew]
    simp [TaskCell.clearStore]
  · intro cell' hcell' hlive'
    rw [hnew] at hcell'
    injection hcell' with hcell'
    subst hcell'
    simp [TaskCell.clearStore] at hlive'
  · intro v' i hv'
    exact absurd hv' (hclosed v' i)
  · intro v' _ i _ hv'
    exact absurd hv' (hclosed v' i)
  · intro hend
    exact absurd (hended.symm.trans hend) (by decide)

/-- A processor is pushed onto a task that has its store and no processor. -/
theorem Sound.pushVdp {s : ClientTask σ} (h : Sound s) (hholds : s.holdsStore = true)
    (hnew : s.priv ∉ s.vdps) : Sound { s with vdps := s.vdps ++ [s.priv] } := by
  have hnone (v i : ℕ) : s.vdps[v]? ≠ some (some i) := by
    intro hv
    rw [(h.opened v i hv).1] at hnew
    exact hnew (List.mem_of_getElem? hv)
  have hlast (v i : ℕ) (hv : (s.vdps ++ [s.priv])[v]? = some (some i)) :
      v = s.vdps.length ∧ s.priv = some i := by
    rcases Nat.lt_or_ge v s.vdps.length with hlt | hge
    · rw [List.getElem?_append_left hlt] at hv
      exact absurd hv (hnone v i)
    · rw [List.getElem?_append_right hge] at hv
      obtain ⟨hzero, hpriv⟩ : v - s.vdps.length = 0 ∧ s.priv = some i := by
        simpa [List.getElem?_singleton] using hv
      exact ⟨by omega, hpriv⟩
  constructor
  · exact h.balanced
  · exact h.matching
  · intro v i hv
    exact ⟨(hlast v i hv).2, hholds⟩
  · intro v v' i i' hv hv'
    rw [(hlast v i hv).1, (hlast v' i' hv').1]
  · exact h.closed

/-- The end of the task releases the store that still waits. -/
theorem finiStored_sound (s : ClientTask σ) (h : Sound s)
    (hclosed : s.vdps.all Option.isNone = true) :
    Sound { finiStored s with ended := true, priv := none } := by
  have hvdps : (finiStored s).vdps = s.vdps := by
    unfold finiStored
    repeat' split
    all_goals rfl
  have hnone (v i : ℕ) : (finiStored s).vdps[v]? ≠ some (some i) := by
    rw [hvdps]
    intro hv
    have hi := List.all_eq_true.mp hclosed _ (List.mem_of_getElem? hv)
    contradiction
  constructor
  · have hledger : (finiStored s).ledger.Balanced fun _ => False := by
      unfold finiStored
      split
      next cell hcell =>
        split
        next hlive => exact h.dropStored cell hcell hlive
        next hdead =>
          refine h.balanced.congr fun i => ?_
          rw [hcell]
          simp [hdead]
      next hstored =>
        refine h.balanced.congr fun i => ?_
        rw [hstored]
        simp
    exact hledger.congr fun i => by simp [ClientTask.storedTask]
  · intro cell hcell
    simp [ClientTask.storedTask] at hcell
  · intro v i hv
    exact absurd hv (hnone v i)
  · intro v _ i _ hv
    exact absurd hv (hnone v i)
  · intro _
    rfl

/-- Under the condition every step of a client task keeps the invariant. -/
theorem taskStep_sound (s s' : ClientTask σ) (e : TaskEvent σ) (hguard : handsOverAlone s e = true)
    (hstep : taskStep s e = some s') (h : Sound s) : Sound s' := by
  obtain ⟨hended, hchange⟩ := taskStep_cases hstep
  cases hchange with
  | execute engine env name phase vmConfig pluginConfig w =>
    exact recordExecution_sound s engine env name phase vmConfig pluginConfig w h hended hguard
  | pushed hpriv =>
    simp only [handsOverAlone, hpriv, Bool.false_or, Bool.and_eq_true, Bool.not_eq_true',
      List.contains_eq_mem, decide_eq_false_iff_not] at hguard
    exact h.pushVdp hguard.1 hguard.2
  | notPushed => exact h
  | bytes v i k c cell hv hcell => exact h.setMachine i cell _ (h.opened v i hv).1 hcell
  | closed v i cell hv hcell => exact finishVdp_sound s h hended v i cell hv hcell
  | closedBefore v hv => exact h
  | ended hclosed => exact finiStored_sound s h hclosed

/-- No store was dropped twice, and at the end of the task every store was
dropped once, as what it is. -/
def StoresSettled (s : ClientTask σ) : Prop :=
  (∀ id, (s.ledger.dropsOf id).length ≤ 1) ∧
    (s.ended = true → ∀ id store, s.ledger.taken[id]? = some store →
      s.ledger.dropsOf id = [store])

/-- Stores are settled in every client task whose executions hand over one
store at a time, to a place Varnish has, and to one processor. -/
theorem taskRun_storesSettled (events : List (TaskEvent σ)) (s : ClientTask σ)
    (hrun : Run (Guarded (fun s e => handsOverAlone s e = true)
      fun s e s' => taskStep s e = some s') {} events s) : StoresSettled s := by
  have hsound : Sound s := hrun.invariant Sound
    (fun s e s' hstep h => taskStep_sound s s' e hstep.1 hstep.2 h) sound_empty
  refine ⟨hsound.balanced.length_dropsOf_le, ?_⟩
  intro hended id store hstore
  apply hsound.balanced.once id store hstore
  rintro ⟨cell, hcell, _⟩
  rw [ClientTask.storedTask, hsound.closed hended] at hcell
  contradiction

/-- A module that reads response bodies. -/
def bodyEngine : Engine Unit :=
  singleEngine (scriptedGuest [.responseHeaders, .responseBody] fun _ => .done (.returned 0, ()))

def respond (env : ExecEnv) : TaskEvent Unit :=
  .execute bodyEngine env (ascii "m") .response [] [] ()

/-- A request call, which fails, and a response call whose body is delivered. -/
def deliveredTask : List (TaskEvent Unit) :=
  [.execute bodyEngine {} (ascii "m") .request [] [] (), respond { pooled := some 0 }, .vdpInit,
    .vdpBytes 0 0 ⟨.vdpNull, ascii "x"⟩, .vdpBytes 0 1 ⟨.vdpEnd, []⟩, .vdpFini 0, .taskFini]

theorem deliveredTask_settled :
    ∃ s, exec (checked handsOverAlone taskStep) {} deliveredTask = some s ∧
      (s.ended = true ∧ s.ledger.taken = [.fresh, .pooled 0]) ∧ StoresSettled s := by
  obtain ⟨s, hs⟩ := Option.isSome_iff_exists.mp
    (show (exec (checked handsOverAlone taskStep) {} deliveredTask).isSome by decide +kernel)
  have hend : (exec (checked handsOverAlone taskStep) {} deliveredTask).map
      (fun s => (s.ended, s.ledger.taken)) = some (true, [.fresh, .pooled 0]) := by
    decide +kernel
  rw [hs] at hend
  exact ⟨s, hs, by simpa using hend, taskRun_storesSettled deliveredTask s (Run.of_checked hs)⟩

/-- A complete run of a client task that leaves its stores unsettled. -/
def Unsettled (events : List (TaskEvent σ)) : Prop :=
  ∃ s, Run (fun s e s' => taskStep s e = some s') {} events s ∧ s.ended = true ∧ ¬ StoresSettled s

theorem unsettled_of_exec (events : List (TaskEvent σ)) (id : ℕ) (store : StoreRef)
    (h : (exec taskStep {} events).any (fun s => s.ended && s.ledger.taken[id]? == some store &&
      s.ledger.dropsOf id != [store]) = true) : Unsettled events := by
  obtain ⟨s, hs, hbad⟩ := (Option.any_eq_true _ _).mp h
  simp only [Bool.and_eq_true, beq_iff_eq, bne_iff_ne, ne_eq] at hbad
  obtain ⟨⟨hended, htaken⟩, hdrops⟩ := hbad
  exact ⟨s, Run.of_exec hs, hended, fun h => hdrops (h.2 hended id store htaken)⟩

/-- Two body-handling modules of one chain: the second task takes the place of
the first, whose store is lost. -/
def overwrittenTask : List (TaskEvent Unit) :=
  [respond { pooled := some 0 }, respond { pooled := some 1 }, .vdpInit, .vdpFini 0, .taskFini]

/-- Varnish has no room for the task: the store is released twice. -/
def refusedTask : List (TaskEvent Unit) :=
  [respond { pooled := some 0, privTask := false }, .taskFini]

/-- The processor stands twice in the filter list: both release the store. -/
def doubledFilter : List (TaskEvent Unit) :=
  [respond { pooled := some 0 }, .vdpInit, .vdpInit, .vdpFini 1, .vdpFini 0, .taskFini]

theorem stores_unsettled :
    Unsettled overwrittenTask ∧ Unsettled refusedTask ∧ Unsettled doubledFilter :=
  ⟨unsettled_of_exec overwrittenTask 0 (.pooled 0) (by decide +kernel),
    unsettled_of_exec refusedTask 0 (.pooled 0) (by decide +kernel),
    unsettled_of_exec doubledFilter 0 (.pooled 0) (by decide +kernel)⟩

end VmodWasm.StoreOwnership
