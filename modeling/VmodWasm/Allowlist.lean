import VmodWasm.GuestPaths

/-!
The upstream allowlist on every path that runs guest code. The check of
`pw_proxy_http_call` is only as good as the list its context carries, and the
paths differ in what they copy into their contexts.
-/
namespace VmodWasm.Allowlist

open ByteStrings GuestMemory HttpText ProxyContext HttpCall HostCalls Execute VdpStream
  GuestPaths

variable {σ : Type}

/-- An upstream as an allowlist writes it. -/
def upstreamName (host : Bytes) (port : ℕ) : Bytes := host ++ 0x3a :: decimal port

/-- The buffer of the check is large enough for every upstream that parses. -/
theorem upstreamCheck_eq_name (upstream host : Bytes) (port : ℕ)
    (h : pwHttpParseUpstream upstream 256 = some (host, port)) :
    upstreamCheck host port = upstreamName host port := by
  obtain ⟨hhost, hport⟩ := pwHttpParseUpstream_bounds upstream host 256 port h
  have hdigits := length_decimal_port port hport
  apply List.take_of_length_le
  simp only [List.length_append, List.length_cons]
  omega

/-- Every connection attempt of a run goes to an upstream of the list. -/
def AttemptsListed (list : List Bytes) (log : List Event) : Prop :=
  ∀ host port timeoutMs exempt, Event.attempt host port timeoutMs exempt ∈ log →
    upstreamName host port ∈ list

/-- A new attempt of a host call comes from a call that passed its checks. -/
theorem handle_attempt (env : HostEnv) (r : Request) (h : HostState) (host : Bytes)
    (port timeoutMs : ℕ) (exempt : Bool)
    (hmem : Event.attempt host port timeoutMs exempt ∈ (handle env r h).2.log) :
    Event.attempt host port timeoutMs exempt ∈ h.log ∨
      ∃ args p, prepare env.hasPool (countCall h.ctx) r.mem args = .ok p ∧
        p.host = host ∧ p.port = port := by
  rcases handle_cases env r h _ rfl with
    ⟨args, res, hres, hs⟩ | ⟨_, _, _, hs⟩ | ⟨_, hs⟩ | ⟨_, _, hs⟩ | ⟨_, _, hs⟩
  · rw [hs] at hmem
    rcases List.mem_append.mp hmem with hold | hnew
    · exact Or.inl hold
    · obtain ⟨status, token, hev | ⟨p, rest, _, _, hp, hev, haft⟩⟩ :=
        pwProxyHttpCall_events env.hasPool (env.call h.calls) h.ctx r.mem args
      · rw [← hres, hev] at hnew
        simp at hnew
      · rw [← hres, hev] at hnew
        simp only [List.cons_append, List.mem_cons, List.mem_append, Event.attempt.injEq,
          List.not_mem_nil, or_false, reduceCtorEq] at hnew
        rcases hnew with ⟨rfl, rfl, _, _⟩ | hrest
        · exact Or.inr ⟨args, p, hp, rfl, rfl⟩
        · exact absurd (haft _ hrest) (by simp [isAftermath])
  all_goals
    rw [hs] at hmem
    left
    simpa using hmem

theorem attemptsListed_append (list : List Bytes) (log : List Event) (e : Event)
    (he : ∀ host port timeoutMs exempt, e ≠ .attempt host port timeoutMs exempt)
    (h : AttemptsListed list log) : AttemptsListed list (log ++ [e]) := by
  intro host port timeoutMs exempt hmem
  rcases List.mem_append.mp hmem with hold | hnew
  · exact h host port timeoutMs exempt hold
  · exact absurd (List.mem_singleton.mp hnew).symm (he host port timeoutMs exempt)

/-- A host call leaves alone what the allowlist check reads. -/
theorem handle_policy (env : HostEnv) (r : Request) (h : HostState) :
    (handle env r h).2.ctx.memoryValid = h.ctx.memoryValid ∧
      (handle env r h).2.ctx.allowedUpstreams = h.ctx.allowedUpstreams := by
  rcases handle_cases env r h _ rfl with
    ⟨args, res, hres, hs⟩ | ⟨_, _, _, hs⟩ | ⟨_, hs⟩ | ⟨_, _, hs⟩ | ⟨_, _, hs⟩
  · obtain ⟨_, _, _, hctx⟩ := pwProxyHttpCall_ctx env.hasPool (env.call h.calls) h.ctx r.mem args
    rw [hs, ← hres, hctx]
    exact ⟨rfl, rfl⟩
  all_goals
    rw [hs]
    exact ⟨rfl, rfl⟩

/-- The context keeps the policy `P` of its path, and only listed upstreams
have been tried. -/
def Policed (P : Bool → List Bytes → Prop) (list : List Bytes) (h : HostState) : Prop :=
  P h.ctx.memoryValid h.ctx.allowedUpstreams ∧ AttemptsListed list h.log

/-- Under the policy, a call that passes its checks goes to a listed upstream. -/
def Enforces (P : Bool → List Bytes → Prop) (list : List Bytes) : Prop :=
  ∀ hasPool ctx mem args p, P ctx.memoryValid ctx.allowedUpstreams →
    prepare hasPool ctx mem args = .ok p → upstreamName p.host p.port ∈ list

section Policed

variable (P : Bool → List Bytes → Prop) (list : List Bytes) (hP : Enforces P list)
include hP

theorem hostInvariant_policed (env : HostEnv) : HostInvariant env (Policed P list) where
  handle r h hh := by
    obtain ⟨hvalid, hlist⟩ := handle_policy env r h
    refine ⟨by rw [hvalid, hlist]; exact hh.1, ?_⟩
    intro host port timeoutMs exempt hmem
    rcases handle_attempt env r h host port timeoutMs exempt hmem with
      hold | ⟨args, p, hp, rfl, rfl⟩
    · exact hh.2 host port timeoutMs exempt hold
    · exact hP env.hasPool (countCall h.ctx) r.mem args p hh.1 hp
  entered _ _ _ hh := ⟨hh.1, attemptsListed_append _ _ _ (by simp) hh.2⟩
  left _ _ _ hh := ⟨hh.1, attemptsListed_append _ _ _ (by simp) hh.2⟩

/-- A policy that does not look at the memory holds through executions. -/
theorem execInvariant_policed (env : HostEnv) (hmemory : ∀ v v' l, P v l → P v' l) :
    ExecInvariant env (Policed P list) where
  toHostInvariant := hostInvariant_policed P list hP env
  active _ _ hh := hh
  memory _ _ hh := ⟨hmemory _ _ _ hh.1, hh.2⟩
  body _ _ hh := hh
  paused _ hh := hh

theorem streamInvariant_policed (env : HostEnv) : StreamInvariant env (Policed P list) where
  toHostInvariant := hostInvariant_policed P list hP env
  chunk _ _ hh := hh
  rewrite _ _ _ hh := hh

end Policed

/-- The list in the context is the policy of filters and bodies. -/
theorem enforces_listed (list : List Bytes) (hne : list ≠ []) :
    Enforces (fun _ l => l = list) list := by
  intro hasPool ctx mem args p hctx hp
  obtain ⟨upstream, _, hparse, hallow, _⟩ := prepare_ok hasPool ctx mem args p hp
  unfold checkAllowlist at hallow
  rw [if_neg (by rw [hctx]; exact hne)] at hallow
  split at hallow
  next hmem =>
    rw [upstreamCheck_eq_name upstream p.host p.port hparse, hctx] at hmem
    exact hmem
  next => simp at hallow

/-- Without a memory no upstream can be read: ticks need no list. -/
theorem enforces_noMemory (list : List Bytes) : Enforces (fun v _ => v = false) list := by
  intro hasPool ctx mem args p hctx hp
  obtain ⟨upstream, hread, hparse, _, _⟩ := prepare_ok hasPool ctx mem args p hp
  rw [hctx] at hread
  rw [pwReadString_invalid _ _ _ _ _ hread] at hparse
  simp [pwHttpParseUpstream] at hparse

/-- Every upstream that a guest can name and the parser accepts is listed. -/
def Covers (list : List Bytes) : Prop :=
  ∀ upstream host port, pwHttpParseUpstream upstream 256 = some (host, port) →
    upstreamName host port ∈ list

theorem enforces_covers (list : List Bytes) (h : Covers list) :
    Enforces (fun _ _ => True) list := by
  intro hasPool ctx mem args p _ hp
  obtain ⟨upstream, _, hparse, _, _⟩ := prepare_ok hasPool ctx mem args p hp
  exact h upstream p.host p.port hparse

/-- What the paths keep, and what a warm-up keeps under a list that covers all. -/
theorem pathHost_listed (engine : Engine σ) (x : PathInput σ) (path : Path)
    (hne : engine.allowedUpstreams ≠ [])
    (hpath : path ≠ .warmUp ∨ Covers engine.allowedUpstreams) :
    AttemptsListed engine.allowedUpstreams (pathHost engine x path).log := by
  have hempty : AttemptsListed engine.allowedUpstreams [] := by simp [AttemptsListed]
  have hlisted := enforces_listed engine.allowedUpstreams hne
  have hexec := execInvariant_policed _ _ hlisted (hostEnv engine x.env) (fun _ _ _ h => h)
  cases path with
  | filter => exact (filterHost_invariant engine x _ hexec ⟨rfl, hempty⟩).2
  | body =>
    have hstream := streamInvariant_policed _ _ hlisted (hostEnv engine x.env)
    exact (bodyHost_invariant engine x _ hexec hstream ⟨rfl, hempty⟩).2
  | warmUp =>
    have hcovers := enforces_covers engine.allowedUpstreams (by simpa using hpath)
    have hexec := execInvariant_policed _ _ hcovers (hostEnv engine x.env) (fun _ _ _ h => h)
    exact (warmHost_invariant engine x _ hexec ⟨trivial, hempty⟩).2
  | tick =>
    have hhost := hostInvariant_policed _ _ (enforces_noMemory engine.allowedUpstreams)
      (hostEnv engine x.env)
    exact (tickHost_invariant engine x _ hhost ⟨rfl, hempty⟩).2

/-- A module whose `vm_start` asks for an upstream that stands in its memory. -/
def callingGuest (upstream : Bytes) : Guest σ where
  exportsMemory := true
  exports cb := cb = .vmStart
  start w := .done (.returned 0, w)
  enter _ _ w := .call ⟨upstream, .httpCall (plainArgs upstream 0)⟩ fun _ => .done (.returned 0, w)

/-- Without a list and without a limit, a named upstream is tried. -/
theorem plainCall_attempt (hasPool : Bool) (env : CallEnv) (ctx : ProxyCtx) (upstream host : Bytes)
    (port : ℕ) (hvalid : ctx.memoryValid = true) (hlist : ctx.allowedUpstreams = [])
    (hmax : ctx.httpCallMax = 0) (hparse : pwHttpParseUpstream upstream 256 = some (host, port)) :
    ∃ timeoutMs exempt, Event.attempt host port timeoutMs exempt ∈
      (pwProxyHttpCall hasPool env ctx upstream (plainArgs upstream 0)).events := by
  have hallow : checkAllowlist (countCall ctx) host port = some false := by
    simp [checkAllowlist, countCall, hlist]
  have hprepare := prepare_plain hasPool (countCall ctx) upstream [] host port 0 false hvalid hparse
    hallow
  rw [List.append_nil] at hprepare
  exact ⟨_, _, pwProxyHttpCall_attempt hasPool env ctx upstream _ _ (by omega) hprepare⟩

/-- A warm-up asks whatever upstream its module names. -/
theorem warmUp_attempt (env : HostEnv) (name upstream host : Bytes) (port : ℕ) (w : σ)
    (hparse : pwHttpParseUpstream upstream 256 = some (host, port)) :
    ∃ timeoutMs exempt, Event.attempt host port timeoutMs exempt ∈
      (warmInstanceRun env (callingGuest upstream) name [] [] w).2.host.log := by
  let m : Machine σ := ⟨w, { ctx := { warmCtx name [] [] with memoryValid := true } }⟩
  have hlog : (warmInstanceRun env (callingGuest upstream) name [] [] w).2.host.log =
      [.entered .vmStart [1, 0] none] ++
        (pwProxyHttpCall env.hasPool (env.call 0) m.host.ctx upstream
          (plainArgs upstream 0)).events ++
        [.left .vmStart (.returned 0)] := rfl
  obtain ⟨timeoutMs, exempt, hattempt⟩ := plainCall_attempt env.hasPool (env.call 0) m.host.ctx
    upstream host port rfl rfl rfl hparse
  refine ⟨timeoutMs, exempt, ?_⟩
  rw [hlog]
  exact List.mem_append_left _ (List.mem_append_right _ hattempt)

/-- On every path but the warm-up, every module's attempts stay within the
allowlist; the warm-up keeps to it only if the list covers every upstream. -/
theorem pathHost_listed_iff [Inhabited σ] (engine : Engine σ) (path : Path)
    (hne : engine.allowedUpstreams ≠ []) :
    (∀ (modules : List (Bytes × Guest σ)) (x : PathInput σ), AttemptsListed engine.allowedUpstreams
        (pathHost { engine with modules := modules } x path).log) ↔
      path ≠ .warmUp ∨ Covers engine.allowedUpstreams := by
  constructor
  · intro h
    by_cases hpath : path = .warmUp
    · right
      intro upstream host port hparse
      subst hpath
      have hlisted := h [(ascii "m", callingGuest upstream)]
        { name := ascii "m", world := default, bodyWorld := default }
      obtain ⟨timeoutMs, exempt, hattempt⟩ := warmUp_attempt
        (hostEnv { engine with modules := [(ascii "m", callingGuest upstream)] } {})
        (ascii "m") upstream host port (default : σ) hparse
      exact hlisted host port timeoutMs exempt (by simpa [pathHost, findModule] using hattempt)
    · exact Or.inl hpath
  · intro h modules x
    exact pathHost_listed { engine with modules := modules } x path hne h

/-- An engine that allows one upstream, with a module that asks for another. -/
def listingEngine : Engine Unit where
  modules := [(ascii "m", callingGuest (ascii "evil:80"))]
  allowedUpstreams := [ascii "ok:80"]

theorem listingEngine_filter :
    (∀ (modules : List (Bytes × Guest Unit)) (x : PathInput Unit), AttemptsListed [ascii "ok:80"]
        (pathHost { listingEngine with modules := modules } x .filter).log) ↔
      Path.filter ≠ .warmUp ∨ Covers [ascii "ok:80"] :=
  pathHost_listed_iff listingEngine .filter (by decide)

/-- Its warm-up connects to the upstream that is not on the list. -/
theorem listingEngine_warmUp :
    listingEngine.allowedUpstreams ≠ [] ∧
    ¬ AttemptsListed listingEngine.allowedUpstreams
      (pathHost listingEngine { name := ascii "m", world := (), bodyWorld := () } .warmUp).log := by
  refine ⟨by decide, ?_⟩
  intro h
  have hlisted := h (ascii "evil") 80 5000 false (by decide +kernel)
  exact absurd hlisted (by decide)

end VmodWasm.Allowlist
