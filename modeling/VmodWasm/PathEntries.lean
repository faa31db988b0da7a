import VmodWasm.StorePaths

/-!
Which guest functions a path comes to. Whatever a module does, a path comes to
the callbacks in its list of entries, unless they are not exported; everything
behind them needs the headers callback. A path without such entries runs no
guest code at all.
-/
namespace VmodWasm.PathEntries

open ByteStrings ProxyContext HostImports StorePaths Lib.Interaction Lib.Obligations

/-- The callbacks a path comes to whatever happens before them. -/
def entries : ExecPath → List Callback
  | .engineCall _ => []
  | .execute none x => [.initializeModule, .contextCreate, .vmStart, .configure, x.phase.headersFn]
  | .execute (some _) x =>
    (if x.vmConfig ≠ [] then [.vmStart] else []) ++
      (if x.pluginConfig ≠ [] then [.configure] else []) ++ [.contextCreate, x.phase.headersFn]
  | .warmInstance => [.initializeModule, .contextCreate, .vmStart, .configure]
  | .poolSlot => []
  | .tick => [.initializeModule, .contextCreate, .vmStart, .tick]

/-- Some guest function runs on the path with store data installed. -/
def Enters (m : WasmModule) (path : ExecPath) : Prop :=
  (∃ cb ∈ entries path, m.exports cb = true) ∨
    match path with
    | .engineCall func => m.hasStart = true ∨ m.exportsFn func = true
    | .execute none _ | .warmInstance => m.hasStart = true
    | _ => False

/-- The start function runs on the path before store data is installed. -/
def StartsBare (m : WasmModule) : ExecPath → Prop
  | .poolSlot | .tick => m.hasStart = true
  | _ => False

/-- The record a path installs. -/
def kind : ExecPath → CtxKind
  | .engineCall _ => .hostCtx
  | _ => .proxyCtx

/-- The limiter of the store that a path uses. -/
def limiterOf (e : Limits) : ExecPath → Option ℕ
  | .execute (some limit) _ => some limit
  | .tick => none
  | _ => some e.memoryLimit

/-- Responses of callouts can be delivered on the path. -/
def delivers (m : WasmModule) : ExecPath → Bool
  | .execute _ x => m.exports x.phase.headersFn && m.exports .httpCallResponse &&
      decide (.proxy .httpCall ∈ m.imports)
  | _ => false

/-- What a guest function can have left until its deadline. -/
def budgetOf (e : Limits) (m : WasmModule) (path : ExecPath) : ℕ :=
  match path with
  | .tick => if 0 < e.epochDeadlineMs then e.epochDeadlineMs else 5000
  | _ => if delivers m path then max e.epochDeadlineMs defaultEpochDeadlineMs else e.epochDeadlineMs

section Comes

variable (e : Limits) (m : WasmModule) (ok : StoreState → StoreOp → Reply → Prop)

/-- Guest code runs in a store with this data and this limiter. -/
def RunsAt (data : Option CtxKind) (limiter : Option ℕ) (s : StoreState) (op : StoreOp) : Prop :=
  runsGuest m op = true ∧ s.data = data ∧ s.limiter = limiter

variable {m} {data : Option CtxKind} {limiter : Option ℕ} {A : Type} {Q : A → StoreState → Prop}
  {s : StoreState}

theorem possibly_quiet {V : StoreState → StoreOp → Prop} (op : StoreOp) (k : Reply → Script A)
    (h : Possibly (storeRules m ok) V Q (k {}) (op.effect s {})) :
    Possibly (storeRules m ok) V Q (perform op >>= k) s := by
  rw [possibly_bind, possibly_perform]
  exact Or.inr ⟨{}, possible_quiet m op true, h⟩

theorem possibly_atRun (op : StoreOp) (k : Reply → Script A) (hop : runsGuest m op = true)
    (hdata : s.data = data) (hlimiter : s.limiter = limiter) :
    Possibly (storeRules m ok) (RunsAt m data limiter) Q (perform op >>= k) s := by
  rw [possibly_bind, possibly_perform]
  exact Or.inl ⟨hop, hdata, hlimiter⟩

theorem possibly_afterCall {V : StoreState → StoreOp → Prop} (cb : Callback)
    (k : Option Reply → Script A) (h : ∀ x, Possibly (storeRules m ok) V Q (k x) s) :
    Possibly (storeRules m ok) V Q (callWasm m cb >>= k) s := by
  unfold callWasm
  split
  · rw [possibly_bind, possibly_bind, possibly_perform]
    exact Or.inr ⟨{}, possible_quiet m _ true, h _⟩
  · exact h none

theorem possibly_atCall (cb : Callback) (k : Option Reply → Script A)
    (hexports : m.exports cb = true) (hdata : s.data = data) (hlimiter : s.limiter = limiter) :
    Possibly (storeRules m ok) (RunsAt m data limiter) Q (callWasm m cb >>= k) s := by
  unfold callWasm
  rw [if_pos hexports, possibly_bind, possibly_bind, possibly_perform]
  exact Or.inl ⟨rfl, hdata, hlimiter⟩

theorem possibly_afterReset {V : StoreState → StoreOp → Prop} (k : Reply → Script A)
    (h : Possibly (storeRules m ok) V Q (k {}) { s with budget := e.epochDeadlineMs }) :
    Possibly (storeRules m ok) V Q (resetDeadline e >>= k) s :=
  possibly_quiet ok _ k h

/-- The root callbacks can be passed; they leave data and limiter alone. -/
theorem possibly_pastInit {V : StoreState → StoreOp → Prop} {Q : Unit → StoreState → Prop}
    (pooled : Bool) (vmConfig pluginConfig : Bytes)
    (h : ∀ budget, Q () { s with budget := budget }) :
    Possibly (storeRules m ok) V Q (initCallbacks e m pooled vmConfig pluginConfig) s := by
  have hconfigure (s' : StoreState) (h' : ∀ budget, Q () { s' with budget := budget }) :
      Possibly (storeRules m ok) V Q
        (do let _ ← resetDeadline e; let _ ← callWasm m .configure) s' :=
    possibly_afterReset e ok _ (possibly_afterCall ok _ _ fun _ => h' _)
  unfold initCallbacks
  cases pooled with
  | false =>
    refine possibly_afterCall ok _ _ fun _ => possibly_afterReset e ok _ ?_
    refine possibly_afterCall ok _ _ fun _ => possibly_afterReset e ok _ ?_
    exact possibly_afterCall ok _ _ fun _ => hconfigure _ h
  | true =>
    have hplugin (s' : StoreState) (h' : ∀ budget, Q () { s' with budget := budget }) :
        Possibly (storeRules m ok) V Q
          (if pluginConfig ≠ [] then do
            let _ ← resetDeadline e
            let _ ← callWasm m .configure
          else pure ()) s' := by
      split
      · exact hconfigure s' h'
      · exact h' s'.budget
    simp only [if_true]
    split
    · refine possibly_afterReset e ok _ (possibly_afterCall ok _ _ fun _ => ?_)
      exact hplugin _ h
    · exact hplugin _ h

/-- The callbacks of a fresh store's initialisation are come to. -/
theorem possibly_atInit {Q : Unit → StoreState → Prop} (vmConfig pluginConfig : Bytes)
    (cb : Callback) (hcb : cb ∈ [.initializeModule, .contextCreate, .vmStart, .configure])
    (hexports : m.exports cb = true) (hdata : s.data = data) (hlimiter : s.limiter = limiter) :
    Possibly (storeRules m ok) (RunsAt m data limiter) Q
      (initCallbacks e m false vmConfig pluginConfig) s := by
  have hat {A : Type} {Q : A → StoreState → Prop} (k : Option Reply → Script A) (budget : ℕ) :
      Possibly (storeRules m ok) (RunsAt m data limiter) Q (callWasm m cb >>= k)
        { s with budget := budget } :=
    possibly_atCall ok cb k hexports hdata hlimiter
  unfold initCallbacks
  simp only [List.mem_cons, List.not_mem_nil, or_false] at hcb
  rcases hcb with rfl | rfl | rfl | rfl
  · exact hat _ s.budget
  · exact possibly_afterCall ok _ _ fun _ => possibly_afterReset e ok _ (hat _ _)
  · refine possibly_afterCall ok _ _ fun _ => possibly_afterReset e ok _ ?_
    exact possibly_afterCall ok _ _ fun _ => possibly_afterReset e ok _ (hat _ _)
  · refine possibly_afterCall ok _ _ fun _ => possibly_afterReset e ok _ ?_
    refine possibly_afterCall ok _ _ fun _ => possibly_afterReset e ok _ ?_
    exact possibly_afterCall ok _ _ fun _ => possibly_afterReset e ok _ (hat _ _)

theorem possibly_atConfig {Q : Unit → StoreState → Prop} (vmConfig pluginConfig : Bytes)
    (cb : Callback)
    (hcb : (vmConfig ≠ [] ∧ cb = .vmStart) ∨ (pluginConfig ≠ [] ∧ cb = .configure))
    (hexports : m.exports cb = true) (hdata : s.data = data) (hlimiter : s.limiter = limiter) :
    Possibly (storeRules m ok) (RunsAt m data limiter) Q
      (initCallbacks e m true vmConfig pluginConfig) s := by
  have hat {A : Type} {Q : A → StoreState → Prop} (k : Option Reply → Script A) (budget : ℕ) :
      Possibly (storeRules m ok) (RunsAt m data limiter) Q (callWasm m cb >>= k)
        { s with budget := budget } :=
    possibly_atCall ok cb k hexports hdata hlimiter
  unfold initCallbacks
  simp only [if_true]
  rcases hcb with ⟨hvm, rfl⟩ | ⟨hplugin, rfl⟩
  · rw [if_pos hvm]
    exact possibly_afterReset e ok _ (hat _ _)
  · rw [if_pos hplugin]
    split
    · refine possibly_afterReset e ok _ (possibly_afterCall ok _ _ fun _ => ?_)
      exact possibly_afterReset e ok _ (hat _ _)
    · exact possibly_afterReset e ok _ (hat _ _)

/-- So is the headers callback, and the creation of the stream context. -/
theorem possibly_atStream {Q : Unit → StoreState → Prop} (pooled : Bool) (x : ExecInput)
    (cb : Callback) (hcb : cb = .contextCreate ∨ cb = x.phase.headersFn)
    (hexports : m.exports cb = true) (hdata : s.data = data) (hlimiter : s.limiter = limiter) :
    Possibly (storeRules m ok) (RunsAt m data limiter) Q (lifecycle e m pooled x) s := by
  unfold lifecycle runModule
  rw [possibly_bind, possibly_bind]
  refine possibly_pastInit e ok pooled _ _ fun budget => possibly_afterReset e ok _ ?_
  rcases hcb with rfl | rfl
  · exact possibly_atCall ok _ _ hexports hdata hlimiter
  · refine possibly_afterCall ok _ _ fun _ => ?_
    unfold headersPhase
    rw [possibly_bind]
    exact possibly_afterReset e ok _ (possibly_atCall ok _ _ hexports hdata hlimiter)

theorem possibly_ofInit {V : StoreState → StoreOp → Prop} {Q : Unit → StoreState → Prop}
    (pooled : Bool) (x : ExecInput)
    (h : ∀ Q, Possibly (storeRules m ok) V Q
      (initCallbacks e m pooled x.vmConfig x.pluginConfig) s) :
    Possibly (storeRules m ok) V Q (lifecycle e m pooled x) s := by
  unfold lifecycle runModule
  rw [possibly_bind, possibly_bind]
  exact h _

theorem possibly_atEntries {Q : Unit → StoreState → Prop} (pooled : Option ℕ) (x : ExecInput)
    (cb : Callback) (hcb : cb ∈ entries (.execute pooled x))
    (hexports : m.exports cb = true) (hdata : s.data = data) (hlimiter : s.limiter = limiter) :
    Possibly (storeRules m ok) (RunsAt m data limiter) Q (lifecycle e m pooled.isSome x) s := by
  cases pooled with
  | none =>
    by_cases hheaders : cb = x.phase.headersFn
    · exact possibly_atStream e ok _ x cb (Or.inr hheaders) hexports hdata hlimiter
    · refine possibly_ofInit e ok _ x fun _ => ?_
      refine possibly_atInit e ok _ _ cb ?_ hexports hdata hlimiter
      simp only [entries, List.mem_cons, hheaders, false_or] at hcb ⊢
      exact hcb
  | some limit =>
    simp only [entries, List.mem_append, List.mem_cons, List.not_mem_nil, or_false] at hcb
    rcases hcb with (hvm | hplugin) | hlast
    · refine possibly_ofInit e ok _ x fun _ => ?_
      refine possibly_atConfig e ok _ _ cb (Or.inl ?_) hexports hdata hlimiter
      by_cases hne : x.vmConfig ≠ []
      · simpa [hne] using hvm
      · simp [hne] at hvm
    · refine possibly_ofInit e ok _ x fun _ => ?_
      refine possibly_atConfig e ok _ _ cb (Or.inr ?_) hexports hdata hlimiter
      by_cases hne : x.pluginConfig ≠ []
      · simpa [hne] using hplugin
      · simp [hne] at hplugin
    · exact possibly_atStream e ok _ x cb hlast hexports hdata hlimiter

theorem possibly_atFailure {Q : Unit → StoreState → Prop} (callbacks : List Callback)
    (cb : Callback) (hcb : cb ∈ callbacks) (hexports : m.exports cb = true)
    (hdata : s.data = data) (hlimiter : s.limiter = limiter) :
    Possibly (storeRules m ok) (RunsAt m data limiter) Q (runUntilFailure m callbacks) s := by
  induction callbacks with
  | nil => simp at hcb
  | cons c rest ih =>
    unfold runUntilFailure
    rcases List.mem_cons.mp hcb with rfl | hrest
    · rw [if_pos hexports]
      exact possibly_atRun ok _ _ rfl hdata hlimiter
    · split
      · exact possibly_quiet ok _ _ (ih hrest)
      · exact ih hrest

/-- An execution comes to its lifecycle. -/
theorem possibly_lifecycle {V : StoreState → StoreOp → Prop} (pooled : Option ℕ) (x : ExecInput)
    (h : ∀ s, s.data = some .proxyCtx → s.limiter = limiterOf e (.execute pooled x) →
      Possibly (storeRules m ok) V (fun _ _ => False) (lifecycle e m pooled.isSome x) s) :
    Possibly (storeRules m ok) V (fun _ _ => False) ((ExecPath.execute pooled x).script e m)
      (ExecPath.execute pooled x).start := by
  cases pooled with
  | none =>
    refine (possibly_bind _ _ _ (useFresh e) _ _).mpr ?_
    refine possibly_quiet ok _ _ (possibly_afterReset e ok _ (possibly_quiet ok _ _ ?_))
    exact possibly_quiet ok _ _ (h _ rfl rfl)
  | some limit =>
    refine (possibly_bind _ _ _ (usePooled e) _ _).mpr ?_
    refine possibly_afterReset e ok _ (possibly_quiet ok _ _ (possibly_afterReset e ok _ ?_))
    refine (possibly_bind _ _ _ (lifecycle e m true x) _ _).mpr ?_
    exact (h _ rfl rfl).mono _ (fun _ _ hop => hop) fun _ _ hfalse => hfalse.elim

/-- A path that enters guest code can come to it, with its record and its
limiter in place. -/
theorem possibly_enters (path : ExecPath) (h : Enters m path) :
    Possibly (storeRules m ok) (RunsAt m (some (kind path)) (limiterOf e path)) (fun _ _ => False)
      (path.script e m) path.start := by
  cases path with
  | engineCall func =>
    rcases h with ⟨cb, hcb, -⟩ | h
    · simp [entries] at hcb
    · refine possibly_quiet ok _ _ (possibly_afterReset e ok _ (possibly_quiet ok _ _ ?_))
      rcases h with hstart | hfunc
      · exact possibly_atRun ok _ _ hstart rfl rfl
      · refine possibly_quiet ok _ _ ?_
        simp only [hfunc, Bool.and_true]
        exact possibly_atRun ok _ _ rfl rfl rfl
  | execute pooled x =>
    rcases h with ⟨cb, hcb, hexports⟩ | h
    · refine possibly_lifecycle e ok pooled x fun s hdata hlimiter => ?_
      exact possibly_atEntries e ok pooled x cb hcb hexports hdata hlimiter
    · cases pooled with
      | none =>
        refine (possibly_bind _ _ _ (useFresh e) _ _).mpr ?_
        refine possibly_quiet ok _ _ (possibly_afterReset e ok _ (possibly_quiet ok _ _ ?_))
        exact possibly_atRun ok _ _ h rfl rfl
      | some limit => exact h.elim
  | warmInstance =>
    refine possibly_quiet ok _ _ (possibly_quiet ok _ _ (possibly_afterReset e ok _ ?_))
    refine possibly_quiet ok _ _ ?_
    rcases h with ⟨cb, hcb, hexports⟩ | hstart
    · exact possibly_quiet ok _ _ (possibly_atFailure ok _ cb hcb hexports rfl rfl)
    · exact possibly_atRun ok _ _ hstart rfl rfl
  | poolSlot =>
    rcases h with ⟨cb, hcb, -⟩ | h
    · simp [entries] at hcb
    · exact h.elim
  | tick =>
    rcases h with ⟨cb, hcb, hexports⟩ | h
    · refine possibly_quiet ok _ _ (possibly_quiet ok _ _ (possibly_quiet ok _ _ ?_))
      refine possibly_quiet ok _ _ ?_
      have hat {A : Type} {Q : A → StoreState → Prop} (k : Option Reply → Script A)
          (s : StoreState) (hdata : s.data = some .proxyCtx) (hlimiter : s.limiter = none) :
          Possibly (storeRules m ok) (RunsAt m (some .proxyCtx) none) Q (callWasm m cb >>= k) s :=
        possibly_atCall ok cb k hexports hdata hlimiter
      simp only [entries, List.mem_cons, List.not_mem_nil, or_false] at hcb
      rcases hcb with rfl | rfl | rfl | rfl
      · exact hat _ _ rfl rfl
      · exact possibly_afterCall ok _ _ fun _ => hat _ _ rfl rfl
      · exact possibly_afterCall ok _ _ fun _ => possibly_afterCall ok _ _ fun _ => hat _ _ rfl rfl
      · refine possibly_afterCall ok _ _ fun _ => possibly_afterCall ok _ _ fun _ => ?_
        exact possibly_afterCall ok _ _ fun _ => hat _ _ rfl rfl
    · exact h.elim

/-- A headers callback that starts a callout has its response delivered, with
the default deadline. -/
theorem possibly_atDelivery {Q : Option (ℤ × Bool) → StoreState → Prop} (phase : Execute.Phase)
    (hheaders : m.exports phase.headersFn = true) (hresponse : m.exports .httpCallResponse = true)
    (himports : .proxy .httpCall ∈ m.imports) :
    Possibly (storeRules m ok)
      (fun s op => runsGuest m op = true ∧ s.budget = defaultEpochDeadlineMs) Q
      (headersPhase e m phase) s := by
  have hreply : Possible m (.funcCall (exportName phase.headersFn)) { responses := 1 } :=
    ⟨by simp, by simp, fun _ => ⟨rfl, himports⟩⟩
  unfold headersPhase callWasm
  refine possibly_afterReset e ok _ ?_
  rw [if_pos hheaders, possibly_bind, possibly_bind, possibly_perform]
  refine Or.inr ⟨_, hreply, ?_⟩
  simp only [possibly_pure, if_true, ne_eq, one_ne_zero, not_false_eq_true, hresponse, and_self]
  rw [possibly_bind]
  refine possibly_quiet ok _ _ ?_
  rw [possibly_bind, possibly_perform]
  exact Or.inl ⟨rfl, rfl⟩

theorem possibly_delivers (path : ExecPath) (h : delivers m path = true) :
    Possibly (storeRules m ok)
      (fun s op => runsGuest m op = true ∧ s.budget = defaultEpochDeadlineMs)
      (fun _ _ => False) (path.script e m) path.start := by
  cases path with
  | execute pooled x =>
    simp only [delivers, Bool.and_eq_true, decide_eq_true_eq] at h
    obtain ⟨⟨hheaders, hresponse⟩, himports⟩ := h
    refine possibly_lifecycle e ok pooled x fun s _ _ => ?_
    unfold lifecycle runModule
    rw [possibly_bind, possibly_bind]
    refine possibly_pastInit e ok _ _ _ fun budget => possibly_afterReset e ok _ ?_
    refine possibly_afterCall ok .contextCreate _ fun _ => ?_
    rw [possibly_bind]
    exact possibly_atDelivery e ok _ hheaders hresponse himports
  | engineCall func => simp [delivers] at h
  | warmInstance => simp [delivers] at h
  | poolSlot => simp [delivers] at h
  | tick => simp [delivers] at h

/-- A start function that runs before the record is installed runs without. -/
theorem possibly_bare (path : ExecPath) (h : StartsBare m path) :
    Possibly (storeRules m ok) (RunsAt m none (limiterOf e path)) (fun _ _ => False)
      (path.script e m) path.start := by
  cases path with
  | poolSlot =>
    refine possibly_quiet ok _ _ (possibly_afterReset e ok _ (possibly_quiet ok _ _ ?_))
    exact possibly_atRun ok _ _ h rfl rfl
  | tick =>
    refine possibly_quiet ok _ _ (possibly_quiet ok _ _ ?_)
    exact possibly_atRun ok _ _ h rfl rfl
  | engineCall func => exact h.elim
  | execute pooled x => exact h.elim
  | warmInstance => exact h.elim

end Comes

theorem then_of_step {m : WasmModule} {ok : StoreState → StoreOp → Reply → Prop} {A : Type}
    {Q : A → StoreState → Prop} {op : StoreOp} {k : Reply → Script A} {s : StoreState}
    (h : ∀ r, Possible m op r →
      ok s op r ∧ Throughout (storeRules m ok) Q (k r) (storeNext s op r)) :
    Throughout (storeRules m ok) Q (perform op >>= k) s :=
  (throughout_bind _ Q _ k s).mpr h

section Quiet

variable (e : Limits) {m : WasmModule} {ok : StoreState → StoreOp → Reply → Prop}
  (hquiet : ∀ s op r, runsGuest m op = false → Possible m op r → ok s op r)

include hquiet

theorem quiet_then {A : Type} {Q : A → StoreState → Prop} (op : StoreOp)
    (hop : runsGuest m op = false) (k : Reply → Script A) (s : StoreState)
    (hk : ∀ r, Throughout (storeRules m ok) Q (k r) (storeNext s op r)) :
    Throughout (storeRules m ok) Q (perform op >>= k) s :=
  then_of_step fun r hr => ⟨hquiet s op r hop hr, hk r⟩

omit hquiet in
theorem callWasm_missing (cb : Callback) (h : m.exports cb = false) :
    callWasm m cb = pure none := by
  simp [callWasm, h]

theorem quiet_reset {A : Type} {Q : A → StoreState → Prop} (k : Reply → Script A)
    (hk : ∀ r s, Throughout (storeRules m ok) Q (k r) s) (s : StoreState) :
    Throughout (storeRules m ok) Q (resetDeadline e >>= k) s :=
  quiet_then hquiet _ rfl k s fun r => hk r _

/-- Without its entries the initialisation runs no guest code. -/
theorem quiet_initCallbacks (pooled : Option ℕ) (x : ExecInput)
    (hno : ∀ cb ∈ entries (.execute pooled x), m.exports cb = false) (s : StoreState) :
    Throughout (storeRules m ok) (fun _ _ => True)
      (initCallbacks e m pooled.isSome x.vmConfig x.pluginConfig) s := by
  unfold initCallbacks
  cases pooled with
  | none =>
    simp only [entries, List.forall_mem_cons] at hno
    obtain ⟨hinit, hcreate, hstart, hconfigure, -⟩ := hno
    simp only [callWasm_missing _ hinit, callWasm_missing _ hcreate,
      callWasm_missing _ hstart, callWasm_missing _ hconfigure]
    refine quiet_reset e hquiet _ (fun _ => quiet_reset e hquiet _ fun _ => ?_) s
    refine quiet_reset e hquiet _ fun _ _ => ?_
    trivial
  | some limit =>
    simp only [Option.isSome_some, if_true]
    have hplugin (s : StoreState) : Throughout (storeRules m ok) (fun _ _ => True)
        (if x.pluginConfig ≠ [] then do
          let _ ← resetDeadline e
          let _ ← callWasm m .configure
        else pure ()) s := by
      split
      next hne =>
        have hconfigure := hno .configure (by simp [entries, hne])
        rw [callWasm_missing _ hconfigure]
        refine quiet_reset e hquiet _ (fun _ _ => ?_) s
        trivial
      next => trivial
    split
    next hne =>
      have hstart := hno .vmStart (by simp [entries, hne])
      rw [callWasm_missing _ hstart]
      exact quiet_reset e hquiet _ (fun _ => hplugin) s
    next => exact hplugin s

/-- Without its entries a lifecycle runs no guest code. -/
theorem quiet_lifecycle (pooled : Option ℕ) (x : ExecInput)
    (hno : ∀ cb ∈ entries (.execute pooled x), m.exports cb = false) (s : StoreState) :
    Throughout (storeRules m ok) (fun _ _ => True) (lifecycle e m pooled.isSome x) s := by
  have hcreate : m.exports .contextCreate = false := hno _ (by cases pooled <;> simp [entries])
  have hheaders : m.exports x.phase.headersFn = false := hno _ (by cases pooled <;> simp [entries])
  unfold lifecycle runModule headersPhase
  rw [throughout_bind, throughout_bind, callWasm_missing _ hcreate, callWasm_missing _ hheaders]
  refine (quiet_initCallbacks e hquiet pooled x hno s).mono _ fun _ s' _ => ?_
  refine quiet_reset e hquiet _ (fun _ s' => ?_) s'
  rw [throughout_bind]
  refine quiet_reset e hquiet _ (fun _ _ => ?_) s'
  trivial

end Quiet

theorem quiet_untilFailure {m : WasmModule} {ok : StoreState → StoreOp → Reply → Prop}
    (callbacks : List Callback) (hno : ∀ cb ∈ callbacks, m.exports cb = false) (s : StoreState) :
    Throughout (storeRules m ok) (fun _ _ => True) (runUntilFailure m callbacks) s := by
  induction callbacks with
  | nil => trivial
  | cons cb rest ih =>
    rw [runUntilFailure, hno cb List.mem_cons_self]
    exact ih fun c hc => hno c (List.mem_cons_of_mem _ hc)

end VmodWasm.PathEntries
