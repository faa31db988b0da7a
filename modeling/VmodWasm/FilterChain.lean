import VmodWasm.Verdict
import Mathlib.Data.List.TakeWhile

/-!
Filter chains: the parser of a chain specification, the loop over its modules
and the VMOD functions on top. The property of interest is the one the
documentation states, that a module which pauses or answers ends the chain.
-/
namespace VmodWasm.FilterChain

open ByteStrings ProxyContext HostCalls Execute Verdict

variable {σ : Type}

def isChainSep (c : UInt8) : Bool := c = 0x7c || c = 0x20 || c = 0x09

/-- The parser loop, with room for `n` more names. -/
def chainLoop : ℕ → Bytes → List Bytes
  | 0, _ => []
  | n + 1, p =>
    let start := p.dropWhile isChainSep
    if start = [] then []
    else
      start.takeWhile (fun c => !isChainSep c) ::
        chainLoop n ((start.dropWhile (fun c => !isChainSep c)).drop 1)

def chainModules (spec : Bytes) : List Bytes := chainLoop 64 spec

/-- The names a specification lists. -/
def chainNames (spec : Bytes) : List Bytes :=
  (spec.splitOnP isChainSep).filter (fun name => name ≠ [])

theorem chainNames_cons_sep (c : UInt8) (p : Bytes) (hc : isChainSep c = true) :
    chainNames (c :: p) = chainNames p := by
  simp [chainNames, List.splitOnP_cons_eq_if_modifyHead, hc]

theorem chainNames_dropWhile (p : Bytes) :
    chainNames (p.dropWhile isChainSep) = chainNames p := by
  induction p with
  | nil => rfl
  | cons c p ih =>
    rw [List.dropWhile_cons]
    split
    next hc => rw [ih, chainNames_cons_sep c p hc]
    next => rfl

/-- A specification that starts with a name lists it first. -/
theorem chainNames_start (start : Bytes) (hne : start ≠ [])
    (hhead : ∀ c, start.head? = some c → isChainSep c = false) :
    chainNames start = start.takeWhile (fun c => !isChainSep c) ::
      chainNames ((start.dropWhile (fun c => !isChainSep c)).drop 1) := by
  have hname : start.takeWhile (fun c => !isChainSep c) ≠ [] := by
    cases start with
    | nil => exact absurd rfl hne
    | cons c p => simp [hhead c rfl]
  have hplain : ∀ c ∈ start.takeWhile (fun c => !isChainSep c), isChainSep c = false := by
    intro c hc
    simpa using List.mem_takeWhile_imp hc
  have hsplit := List.takeWhile_append_dropWhile (p := fun c => !isChainSep c) (l := start)
  cases hrest : start.dropWhile (fun c => !isChainSep c) with
  | nil =>
    rw [hrest, List.append_nil] at hsplit
    rw [hsplit] at hplain ⊢
    simp [chainNames, List.splitOnP_eq_singleton hplain, hne]
  | cons c rest =>
    have hc : isChainSep c = true := by
      have := List.head?_dropWhile_not (fun c => !isChainSep c) start
      simpa [hrest] using this
    rw [hrest] at hsplit
    have hnames : chainNames start =
        start.takeWhile (fun c => !isChainSep c) :: chainNames rest := by
      unfold chainNames
      nth_rewrite 1 [← hsplit]
      rw [List.splitOnP_append_cons_of_forall_mem hplain c hc]
      simp [hname]
    simpa using hnames

/-- The parser takes the first names of the specification, as many as fit. -/
theorem chainLoop_eq_take (n : ℕ) (p : Bytes) : chainLoop n p = (chainNames p).take n := by
  induction n generalizing p with
  | zero => simp [chainLoop]
  | succ n ih =>
    rw [chainLoop, ← chainNames_dropWhile p]
    have hhead : ∀ c, (p.dropWhile isChainSep).head? = some c → isChainSep c = false := by
      intro c hc
      have := List.head?_dropWhile_not isChainSep p
      simpa [hc] using this
    split
    next hnil => simp [hnil, chainNames]
    next hne => rw [chainNames_start _ hne hhead, ih, List.take_succ_cons]

/-- The loop of `vwasm_filter_chain_request` and `vwasm_filter_chain_response`:
the executions it made, and its return value. -/
def runChain (engine : Engine σ) (phase : Phase) (envs : ℕ → ExecEnv) :
    ℕ → List Bytes → σ → List (Bytes × ExecResult σ) × ℤ
  | _, [], _ => ([], 0)
  | i, name :: names, w =>
    let r := proxyWasmExecute engine (envs i) name phase [] [] w
    if r.exit.ret ≠ 0 then ([(name, r)], r.exit.ret)
    else
      let rest := runChain engine phase envs (i + 1) names r.machine.world
      ((name, r) :: rest.1, rest.2)

def vwasmFilterChain (engine : Engine σ) (phase : Phase) (envs : ℕ → ExecEnv)
    (modules : List Bytes) (w : σ) : List (Bytes × ExecResult σ) × ℤ :=
  if modules = [] then ([], -1) else runChain engine phase envs 0 modules w

/-- What the VMOD makes of the return value of a chain. -/
def chainResult (mode : FailMode) (ret : ℤ) : ℤ :=
  if ret < 0 then vmodWasmErrorResult mode else ret

/-- `vmod_filter_chain` and `vmod_filter_chain_response`; `copied` tells whether
the working copy of the specification could be allocated. -/
def vmodFilterChain (engine : Engine σ) (phase : Phase) (envs : ℕ → ExecEnv) (copied : Bool)
    (spec : Bytes) (w : σ) : ℤ × List (Bytes × ExecResult σ) × ℤ :=
  if spec = [] ∨ copied = false then (-1, [], -1)
  else
    let chain := vwasmFilterChain engine phase envs (chainModules spec) w
    (chainResult engine.failMode chain.2, chain)

/-- The module left its headers phase with CONTINUE and sent no local response. -/
def Continued (r : ExecResult σ) : Prop :=
  (∃ d, r.headers = some d ∧ d.action = 0) ∧ ¬ SentLocal r.machine.host.log

/-- The module paused the stream or sent a local response. -/
def Blocking (r : ExecResult σ) : Prop :=
  (∃ d, r.headers = some d ∧ d.action = 1) ∨ SentLocal r.machine.host.log

/-- The contract of a chain over `names`: it returns zero only after all of them
continued, and a blocking module is the last one run and gives a non-zero result. -/
def ChainSound (names : List Bytes) (result : ℤ) (chain : List (Bytes × ExecResult σ) × ℤ) : Prop :=
  (chain.2 = 0 → chain.1.map Prod.fst = names ∧ ∀ x ∈ chain.1, Continued x.2) ∧
  ∀ before x after, chain.1 = before ++ x :: after → Blocking x.2 → after = [] ∧ result ≠ 0

/-- At its verdict the module neither answers nor pauses; an answer of its later
callbacks comes with an action that ends the chain, and one given before a
failure needs closed mode. -/
def ModuleHeard (engine : Engine σ) (env : ExecEnv) (phase : Phase) (name : Bytes) (w : σ) :
    Prop :=
  match admitted engine env name with
  | none => True
  | some (g, _) =>
    match reachVerdict (hostEnv engine env) env g phase (startMachine engine name [] [] w) with
    | (none, m) => m.host.ctx.localResponseSet = true → engine.failMode = .closed
    | (some d, m) =>
      m.host.ctx.localResponseSet = false ∧ d.action ≠ 1 ∧
      (defersBody g phase = false →
        localAnswer (runRest (hostEnv engine env) env g phase m).host.ctx ≠ none →
          d.action ≠ 0 ∧ (d.action < 0 → engine.failMode = .closed))

/-- `ModuleHeard` at every module the chain reaches; when it runs to its end,
no name of the specification was cut off. -/
def ChainHeard (engine : Engine σ) (phase : Phase) (envs : ℕ → ExecEnv) (cut : List Bytes) :
    ℕ → List Bytes → σ → Prop
  | _, [], _ => cut = []
  | i, name :: names, w =>
    ModuleHeard engine (envs i) phase name w ∧
    ((proxyWasmExecute engine (envs i) name phase [] [] w).exit.ret = 0 →
      ChainHeard engine phase envs cut (i + 1) names
        (proxyWasmExecute engine (envs i) name phase [] [] w).machine.world)

theorem takeVerdict_heard_iff (mode : FailMode) (henv : HostEnv) (env : ExecEnv) (g : Guest σ)
    (phase : Phase) (store : StoreRef) (d : HeadersDone) (m : Machine σ)
    (hm : LocalCoherent m.host) (r : ExecResult σ)
    (hr : takeVerdict henv env g phase store d m = r) :
    (Blocking r → r.exit.ret ≠ 0 ∧ (r.exit.ret < 0 → mode = .closed)) ↔
      m.host.ctx.localResponseSet = false ∧ d.action ≠ 1 ∧
      (defersBody g phase = false →
        localAnswer (runRest henv env g phase m).host.ctx ≠ none →
          d.action ≠ 0 ∧ (d.action < 0 → mode = .closed)) := by
  obtain ⟨hheaders, hcases⟩ := takeVerdict_cases henv env g phase store d m hm r hr
  have hblocking : Blocking r ↔ d.action = 1 ∨ SentLocal r.machine.host.log := by
    simp [Blocking, hheaders]
  rw [hblocking]
  rcases hcases with ⟨hset, hexit, hlocal⟩ | ⟨hset, hpaused, hexit, _⟩ |
    ⟨hset, haction, hdefer, hlocal, _⟩ | ⟨hset, haction, hdefer, hexit, hlocal⟩
  · simp [hset, hexit, hlocal, Exit.ret]
  · simp [hset, hexit, hpaused, Exit.ret]
  · simp [hset, haction, hdefer, hlocal]
  · simp [hset, haction, hdefer, hexit, hlocal, Exit.ret]

/-- A module that returned zero without blocking continued. -/
theorem takeVerdict_continued (henv : HostEnv) (env : ExecEnv) (g : Guest σ)
    (phase : Phase) (store : StoreRef) (d : HeadersDone) (m : Machine σ)
    (hm : LocalCoherent m.host) (r : ExecResult σ)
    (hr : takeVerdict henv env g phase store d m = r) (hret : r.exit.ret = 0)
    (hblock : ¬ Blocking r) : Continued r := by
  obtain ⟨hheaders, hcases⟩ := takeVerdict_cases henv env g phase store d m hm r hr
  have hlocal : ¬ SentLocal r.machine.host.log := fun h => hblock (Or.inr h)
  refine ⟨⟨d, hheaders, ?_⟩, hlocal⟩
  rcases hcases with ⟨_, _, h⟩ | ⟨_, hpaused, _, _⟩ | ⟨_, _, _, _, ⟨_, _, hexit⟩ | ⟨_, hexit⟩⟩ |
    ⟨_, _, _, hexit, _⟩
  · exact absurd h hlocal
  · exact absurd (Or.inl ⟨d, hheaders, hpaused⟩) hblock
  · simpa [hexit, Exit.ret] using hret
  · simp [hexit, Exit.ret] at hret
  · simpa [hexit, Exit.ret] using hret

section Module

variable (engine : Engine σ) (env : ExecEnv) (phase : Phase) (name : Bytes) (w : σ)

theorem moduleHeard_iff (r : ExecResult σ)
    (hr : proxyWasmExecute engine env name phase [] [] w = r) :
    ModuleHeard engine env phase name w ↔
      (Blocking r → r.exit.ret ≠ 0 ∧ (r.exit.ret < 0 → engine.failMode = .closed)) := by
  unfold ModuleHeard
  have hstart := startMachine_localCoherent engine name [] [] w
  rcases proxyWasmExecute_cases engine env name phase [] [] w r hr with
    ⟨hadmitted, hr⟩ | ⟨g, store, hadmitted, hrun⟩
  · rw [hadmitted, hr]
    have hno : ¬ SentLocal (startMachine engine name [] [] w).host.log := by
      simp [startMachine, SentLocal]
    simp [Blocking, hno]
  have hm := reachVerdict_invariant (hostEnv engine env) _
    (execInvariant_localCoherent (hostEnv engine env)) g env phase _ hstart
  rw [hadmitted]
  dsimp only
  rcases hrun with ⟨m, hreach, hr⟩ | ⟨d, m, hreach, hr⟩
  · rw [hreach] at hm ⊢
    dsimp only at hm ⊢
    have hlocal : m.host.ctx.localResponseSet = true ↔ SentLocal m.host.log := hm
    rw [hr, hlocal]
    simp [Blocking, cleanup, Exit.ret]
  · rw [hreach] at hm ⊢
    exact (takeVerdict_heard_iff engine.failMode _ env g phase store d m hm r hr.symm).symm

theorem execute_continued (r : ExecResult σ)
    (hr : proxyWasmExecute engine env name phase [] [] w = r) (hret : r.exit.ret = 0)
    (hblock : ¬ Blocking r) : Continued r := by
  rcases proxyWasmExecute_cases engine env name phase [] [] w r hr with
    ⟨_, hr⟩ | ⟨g, store, _, ⟨m, _, hr⟩ | ⟨d, m, hreach, hr⟩⟩
  · simp [hr, Exit.ret] at hret
  · simp [hr, cleanup, Exit.ret] at hret
  · have hm := reachVerdict_invariant (hostEnv engine env) _
      (execInvariant_localCoherent (hostEnv engine env)) g env phase _
      (startMachine_localCoherent engine name [] [] w)
    rw [hreach] at hm
    exact takeVerdict_continued _ env g phase store d m hm r hr.symm hret hblock

end Module

theorem chainResult_ne_zero (mode : FailMode) (ret : ℤ) :
    chainResult mode ret ≠ 0 ↔ ret ≠ 0 ∧ (ret < 0 → mode = .closed) := by
  unfold chainResult vmodWasmErrorResult
  split
  next hneg => cases mode <;> simp <;> omega
  next hneg => simp [hneg]

section Chain

variable (engine : Engine σ) (phase : Phase) (envs : ℕ → ExecEnv)

/-- A chain over a non-empty list runs at least its first module. -/
theorem runChain_ne_nil (i : ℕ) (names : List Bytes) (w : σ) (h : names ≠ []) :
    (runChain engine phase envs i names w).1 ≠ [] := by
  cases names with
  | nil => exact absurd rfl h
  | cons name names =>
    rw [runChain]
    dsimp only
    split <;> simp

/-- The contract over a longer list: the first module and the rest. -/
theorem chainSound_cons (result : ℤ) (name : Bytes) (names : List Bytes) (r : ExecResult σ)
    (rest : List (Bytes × ExecResult σ)) (ret : ℤ) (hresult : rest = [] → result = 0)
    (hcontinued : ¬ Blocking r → Continued r) :
    ChainSound (name :: names) result ((name, r) :: rest, ret) ↔
      ¬ Blocking r ∧ ChainSound names result (rest, ret) := by
  unfold ChainSound
  constructor
  · rintro ⟨hzero, hlast⟩
    refine ⟨?_, ?_, ?_⟩
    · intro hblock
      obtain ⟨hnil, hne⟩ := hlast [] (name, r) rest rfl hblock
      exact hne (hresult hnil)
    · intro hret
      obtain ⟨hnames, hall⟩ := hzero hret
      simp only [List.map_cons, List.cons.injEq, true_and] at hnames
      exact ⟨hnames, fun x hx => hall x (List.mem_cons_of_mem _ hx)⟩
    · intro before x after hsplit hblock
      have hsplit' : rest = before ++ x :: after := hsplit
      exact hlast ((name, r) :: before) x after (by rw [hsplit', List.cons_append]) hblock
  · rintro ⟨hblock, hzero, hlast⟩
    refine ⟨?_, ?_⟩
    · intro hret
      obtain ⟨hnames, hall⟩ := hzero hret
      refine ⟨by simpa using hnames, ?_⟩
      intro x hx
      rcases List.mem_cons.mp hx with rfl | hx
      · exact hcontinued hblock
      · exact hall x hx
    · intro before x after hsplit hx
      cases before with
      | nil =>
        obtain ⟨rfl, -⟩ := List.cons.inj hsplit
        exact absurd hx hblock
      | cons y before => exact hlast before x after (List.cons.inj hsplit).2 hx

theorem chainSound_stopped (names : List Bytes) (result : ℤ) (name : Bytes) (r : ExecResult σ)
    (ret : ℤ) (hret : ret ≠ 0) :
    ChainSound names result ([(name, r)], ret) ↔ (Blocking r → result ≠ 0) := by
  unfold ChainSound
  constructor
  · rintro ⟨_, hlast⟩ hblock
    exact (hlast [] (name, r) [] rfl hblock).2
  · intro hlast
    refine ⟨fun hzero => absurd hzero hret, ?_⟩
    intro before x after hsplit hblock
    rcases List.cons_eq_append_iff.mp hsplit with ⟨_, hx⟩ | ⟨_, _, hx⟩
    · obtain ⟨rfl, rfl⟩ := List.cons.inj hx
      exact ⟨rfl, hlast hblock⟩
    · simp at hx

/-- The loop keeps the contract exactly when every module it reaches is heard
and nothing was cut off. -/
theorem runChain_sound_iff (cut : List Bytes) (i : ℕ) (names : List Bytes) (w : σ) :
    ChainSound (names ++ cut)
        (chainResult engine.failMode (runChain engine phase envs i names w).2)
        (runChain engine phase envs i names w) ↔
      ChainHeard engine phase envs cut i names w := by
  induction names generalizing i w with
  | nil => simp [runChain, ChainSound, ChainHeard, eq_comm]
  | cons name names ih =>
    have hheard := moduleHeard_iff engine (envs i) phase name w _ rfl
    have hcontinued := execute_continued engine (envs i) phase name w _ rfl
    rw [ChainHeard, runChain, hheard, ← ih]
    generalize proxyWasmExecute engine (envs i) name phase [] [] w = r at *
    dsimp only
    by_cases hret : r.exit.ret = 0
    · have hresult : (runChain engine phase envs (i + 1) names r.machine.world).1 = [] →
          chainResult engine.failMode (runChain engine phase envs (i + 1) names r.machine.world).2 =
            0 := by
        intro hnil
        by_cases hnames : names = []
        · simp [hnames, runChain, chainResult]
        · exact absurd hnil (runChain_ne_nil engine phase envs _ _ _ hnames)
      rw [if_neg (by simp [hret]), List.cons_append,
        chainSound_cons _ _ _ _ _ _ hresult (hcontinued hret)]
      simp [hret]
    · rw [if_pos hret, chainSound_stopped _ _ _ _ _ hret, chainResult_ne_zero]
      simp [hret]

/-- A chain of the VMOD keeps its contract exactly when its modules are heard. -/
theorem vmodFilterChain_sound_iff (copied : Bool) (spec : Bytes) (w : σ) :
    ChainSound (chainNames spec) (vmodFilterChain engine phase envs copied spec w).1
        (vmodFilterChain engine phase envs copied spec w).2 ↔
      (copied = true →
        ChainHeard engine phase envs ((chainNames spec).drop 64) 0 (chainModules spec) w) := by
  have hmodules : chainModules spec = (chainNames spec).take 64 := chainLoop_eq_take 64 spec
  unfold vmodFilterChain
  cases copied with
  | false => simp [ChainSound]
  | true =>
    by_cases hspec : spec = []
    · simp [hspec, ChainSound, chainModules, chainLoop, chainNames, ChainHeard]
    rw [if_neg (by simp [hspec]), vwasmFilterChain]
    by_cases hnil : chainModules spec = []
    · have hnames : chainNames spec = [] := by
        rw [hmodules, List.take_eq_nil_iff] at hnil
        simpa using hnil
      rw [if_pos hnil, hnil, hnames]
      simp [ChainSound, ChainHeard]
    · rw [if_neg hnil]
      have happend : chainModules spec ++ (chainNames spec).drop 64 = chainNames spec := by
        rw [hmodules, List.take_append_drop]
      have h := runChain_sound_iff engine phase envs ((chainNames spec).drop 64) 0
        (chainModules spec) w
      rw [happend] at h
      simpa using h

end Chain

/-- Two modules of one pausing filter. -/
def pausingChain : Engine Unit where
  modules := [(ascii "a", pausingGuest), (ascii "b", pausingGuest)]

/-- The first module pauses, the second one is run all the same, and the chain
as a whole passes. -/
theorem pausingChain_unsound :
    ¬ ChainSound (chainNames (ascii "a|b"))
      (vmodFilterChain pausingChain .request (fun _ => {}) true (ascii "a|b") ()).1
      (vmodFilterChain pausingChain .request (fun _ => {}) true (ascii "a|b") ()).2 := by
  intro h
  have hzero : (vmodFilterChain pausingChain .request (fun _ => {}) true (ascii "a|b") ()).2.2 = 0 := by
    decide
  have hheaders : (vmodFilterChain pausingChain .request (fun _ => {}) true (ascii "a|b") ()).2.1.map
      (fun x => x.2.headers) = [some ⟨1, [], []⟩, some ⟨1, [], []⟩] := by
    decide
  obtain ⟨x, hx, hd⟩ := List.mem_map.mp (hheaders ▸ List.mem_cons_self :
    some (⟨1, [], []⟩ : HeadersDone) ∈ _)
  obtain ⟨⟨d, hd', haction⟩, _⟩ := (h.1 hzero).2 x hx
  rw [hd, Option.some.injEq] at hd'
  subst hd'
  exact absurd haction (by decide)

end VmodWasm.FilterChain
