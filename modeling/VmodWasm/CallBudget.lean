import VmodWasm.Allowlist

/-!
The callout budget. The limit that VCL sets travels through a cast to 32 bits
into the contexts of filter executions, and `pw_proxy_http_call` compares its
counter with it; a limit of zero switches the comparison off.
-/
namespace VmodWasm.CallBudget

open ByteStrings HttpText ProxyContext HttpCall HostCalls Execute VdpStream GuestPaths
  Allowlist Lib.Interaction

variable {σ : Type}

/-- `vmod_set_http_call_limit` with the setter it calls; a negative limit fails. -/
def vmodSetHttpCallLimit (engine : Engine σ) (limit : ℤ) : Option (Engine σ) :=
  if limit < 0 then none else some { engine with httpCallMax := u32 limit.toNat }

theorem vmodSetHttpCallLimit_nat (engine : Engine σ) (limit : ℕ) :
    vmodSetHttpCallLimit engine limit = some { engine with httpCallMax := u32 limit } := by
  rw [vmodSetHttpCallLimit, if_neg (by omega), Int.toNat_natCast]

def isAttempt : Event → Bool
  | .attempt .. => true
  | _ => false

/-- How many calls of a run reached a connection attempt. -/
def attemptCount (log : List Event) : ℕ := log.countP isAttempt

@[simp] theorem attemptCount_append (log log' : List Event) :
    attemptCount (log ++ log') = attemptCount log + attemptCount log' :=
  List.countP_append

theorem attemptCount_quiet (log : List Event) (h : ∀ e ∈ log, isAttempt e = false) :
    attemptCount log = 0 := by
  apply List.countP_eq_zero.mpr
  intro e he
  simp [h e he]

theorem attemptCount_pos (log : List Event) (host : Bytes) (port timeoutMs : ℕ) (exempt : Bool)
    (h : Event.attempt host port timeoutMs exempt ∈ log) : 0 < attemptCount log :=
  List.countP_pos_iff.mpr ⟨_, h, rfl⟩

theorem isAttempt_aftermath (e : Event) (h : isAftermath e = true) : isAttempt e = false := by
  cases e <;> simp_all [isAftermath, isAttempt]

section Call

variable (hasPool : Bool) (env : CallEnv) (ctx : ProxyCtx) (mem : Bytes) (args : HttpCallArgs)

theorem pwProxyHttpCall_attemptCount :
    attemptCount (pwProxyHttpCall hasPool env ctx mem args).events ≤ 1 := by
  obtain ⟨status, token, hev | ⟨p, rest, _, _, _, hev, haft⟩⟩ :=
    pwProxyHttpCall_events hasPool env ctx mem args
  · rw [hev]
    exact List.countP_le_length
  · have hrest : attemptCount rest = 0 :=
      attemptCount_quiet rest fun e he => isAttempt_aftermath e (haft e he)
    rw [hev, attemptCount_append]
    simp only [attemptCount, List.countP_cons, isAttempt, List.countP_nil] at hrest ⊢
    simp [hrest]

/-- Past the limit nothing is counted or attempted; below it every call is
counted, whatever becomes of it. -/
theorem pwProxyHttpCall_counted :
    (pwProxyHttpCall hasPool env ctx mem args).ctx.httpCallCount = ctx.httpCallCount ∧
        attemptCount (pwProxyHttpCall hasPool env ctx mem args).events = 0 ∨
      ¬ (0 < ctx.httpCallMax ∧ ctx.httpCallMax ≤ ctx.httpCallCount) ∧
        (pwProxyHttpCall hasPool env ctx mem args).ctx.httpCallCount =
          u32 (ctx.httpCallCount + 1) := by
  rcases pwProxyHttpCall_cases hasPool env ctx mem args _ rfl with
    ⟨_, _, hr⟩ | ⟨hlimit, ⟨_, _, hr⟩ | ⟨p, _, ⟨_, _, _, hr⟩ | ⟨_, raw, stored, _, hs, hr⟩⟩⟩
  · exact Or.inl ⟨by rw [hr], by rw [hr]; rfl⟩
  · exact Or.inr ⟨hlimit, by rw [hr]; rfl⟩
  · exact Or.inr ⟨hlimit, by rw [hr]; rfl⟩
  · obtain ⟨calls, hcalls⟩ := storeResponse_ctx env (countCall ctx) mem args.tokenPtr raw
    rw [hs] at hcalls
    exact Or.inr ⟨hlimit, by rw [hr, hcalls]; rfl⟩

end Call

/-- The counter stays within the limit and counts at least the attempts. -/
structure WithinBudget (max : ℕ) (h : HostState) : Prop where
  limit : h.ctx.httpCallMax = max
  counted : attemptCount h.log ≤ h.ctx.httpCallCount
  bounded : h.ctx.httpCallCount ≤ max

theorem handle_withinBudget (env : HostEnv) (max : ℕ) (hpos : 0 < max) (hmax : max < 2 ^ 32)
    (r : Request) (h : HostState) (hh : WithinBudget max h) :
    WithinBudget max (handle env r h).2 := by
  obtain ⟨hlimit, hcounted, hbounded⟩ := hh
  rcases handle_cases env r h _ rfl with
    ⟨args, res, hres, hs⟩ | ⟨_, _, _, hs⟩ | ⟨_, hs⟩ | ⟨_, _, hs⟩ | ⟨_, _, hs⟩
  · have hone := pwProxyHttpCall_attemptCount env.hasPool (env.call h.calls) h.ctx r.mem args
    have hcount := pwProxyHttpCall_counted env.hasPool (env.call h.calls) h.ctx r.mem args
    obtain ⟨calls, token, count, hctx⟩ :=
      pwProxyHttpCall_ctx env.hasPool (env.call h.calls) h.ctx r.mem args
    rw [hres] at hone hcount hctx
    rw [hs]
    refine ⟨by rw [hctx]; exact hlimit, ?_, ?_⟩
    · dsimp only
      rw [attemptCount_append]
      rcases hcount with ⟨hsame, hnone⟩ | ⟨hbelow, hnext⟩
      · omega
      · rw [hnext, u32_of_lt (by omega)]
        omega
    · dsimp only
      rcases hcount with ⟨hsame, _⟩ | ⟨hbelow, hnext⟩
      · omega
      · -- the counter was below the limit, so it does not wrap
        rw [hnext, u32_of_lt (by omega)]
        omega
  all_goals
    rw [hs]
    exact ⟨hlimit, by simpa [attemptCount, isAttempt] using hcounted, hbounded⟩

section Budget

variable (env : HostEnv) (max : ℕ) (hpos : 0 < max) (hmax : max < 2 ^ 32)
include hpos hmax

theorem hostInvariant_withinBudget : HostInvariant env (WithinBudget max) where
  handle := handle_withinBudget env max hpos hmax
  entered _ _ _ hh :=
    ⟨hh.limit, by simpa [HostState.observe, attemptCount, isAttempt] using hh.counted, hh.bounded⟩
  left _ _ _ hh :=
    ⟨hh.limit, by simpa [HostState.observe, attemptCount, isAttempt] using hh.counted, hh.bounded⟩

theorem execInvariant_withinBudget : ExecInvariant env (WithinBudget max) where
  toHostInvariant := hostInvariant_withinBudget env max hpos hmax
  active _ _ hh := ⟨hh.limit, hh.counted, hh.bounded⟩
  memory _ _ hh := ⟨hh.limit, hh.counted, hh.bounded⟩
  body _ _ hh := ⟨hh.limit, hh.counted, hh.bounded⟩
  paused _ hh := ⟨hh.limit, hh.counted, hh.bounded⟩

theorem streamInvariant_withinBudget : StreamInvariant env (WithinBudget max) where
  toHostInvariant := hostInvariant_withinBudget env max hpos hmax
  chunk _ _ hh := ⟨hh.limit, hh.counted, hh.bounded⟩
  rewrite _ _ _ hh := ⟨hh.limit, hh.counted, hh.bounded⟩

end Budget

/-- Without a memory no call passes its checks, so ticks attempt nothing. -/
theorem hostInvariant_noAttempts (env : HostEnv) :
    HostInvariant env fun h => h.ctx.memoryValid = false ∧ AttemptsListed [] h.log :=
  hostInvariant_policed (fun v _ => v = false) [] (enforces_noMemory []) env

theorem attemptCount_eq_zero (log : List Event) (h : AttemptsListed [] log) :
    attemptCount log = 0 := by
  apply attemptCount_quiet
  intro e he
  cases e with
  | attempt host port timeoutMs exempt =>
    exact absurd (h host port timeoutMs exempt he) List.not_mem_nil
  | _ => rfl

/-- A guest that makes the same callout `n` times. -/
def repeatCall (upstream : Bytes) (w : σ) : ℕ → GuestProg σ
  | 0 => .done (.returned 0, w)
  | n + 1 => .call ⟨upstream, .httpCall (plainArgs upstream 0)⟩ fun _ => repeatCall upstream w n

/-- A context that neither limits nor lists. -/
structure Unrestricted (ctx : ProxyCtx) : Prop where
  valid : ctx.memoryValid = true
  list : ctx.allowedUpstreams = []
  limit : ctx.httpCallMax = 0

theorem repeatCall_attempts (env : HostEnv) (upstream host : Bytes) (port : ℕ) (w : σ)
    (hparse : pwHttpParseUpstream upstream 256 = some (host, port)) (n : ℕ) (h : HostState)
    (hctx : Unrestricted h.ctx) :
    attemptCount h.log + n ≤
      attemptCount (interp (handle env) (repeatCall upstream w n) h).2.log := by
  induction n generalizing h with
  | zero => exact le_rfl
  | succ n ih =>
    obtain ⟨timeoutMs, exempt, hattempt⟩ := plainCall_attempt env.hasPool (env.call h.calls) h.ctx
      upstream host port hctx.valid hctx.list hctx.limit hparse
    have hone := attemptCount_pos _ _ _ _ _ hattempt
    obtain ⟨calls, token, count, hnext⟩ := pwProxyHttpCall_ctx env.hasPool (env.call h.calls) h.ctx
      upstream (plainArgs upstream 0)
    have hrest := ih (handle env ⟨upstream, .httpCall (plainArgs upstream 0)⟩ h).2
      (by simp only [handle, hnext]; exact ⟨hctx.valid, hctx.list, hctx.limit⟩)
    simp only [handle, attemptCount_append] at hrest
    rw [repeatCall, interp_call]
    simp only [handle]
    omega

/-- A module whose only callback, `vm_start`, makes `n` callouts. -/
def drainingGuest (upstream : Bytes) (n : ℕ) : Guest σ where
  exportsMemory := true
  exports cb := cb = .vmStart
  start w := .done (.returned 0, w)
  enter _ _ w := repeatCall upstream w n

theorem drainingGuest_missing (env : HostEnv) (upstream : Bytes) (n : ℕ) (cb : Callback)
    (args : List ℤ) (m : Machine σ) (h : cb ≠ .vmStart) :
    callWasm env (drainingGuest upstream n) cb args m = (none, m) := by
  simp [callWasm, drainingGuest, h]

theorem drainingGuest_vmStart (env : HostEnv) (upstream host : Bytes) (port : ℕ)
    (hparse : pwHttpParseUpstream upstream 256 = some (host, port)) (n : ℕ) (args : List ℤ)
    (m : Machine σ) (hctx : Unrestricted m.host.ctx) :
    n ≤ attemptCount (enterGuest env (drainingGuest upstream n) .vmStart args m).2.host.log := by
  have hrun := repeatCall_attempts env upstream host port m.world hparse n
    (m.host.observe (.entered .vmStart args m.host.ctx.activeHttpCall)) hctx
  simp only [enterGuest, Machine.observe, HostState.observe, runGuest, drainingGuest,
    attemptCount_append] at hrun ⊢
  omega

theorem drainingGuest_callVmStart (env : HostEnv) (upstream : Bytes) (n : ℕ) (args : List ℤ)
    (m : Machine σ) :
    (callWasm env (drainingGuest upstream n) .vmStart args m).2 =
      (enterGuest env (drainingGuest upstream n) .vmStart args m).2 := by
  unfold callWasm
  split
  · split <;> simp_all
  next hexports => simp [drainingGuest] at hexports

/-- An execution of the module is its `vm_start` and fails for want of a
headers callback. -/
theorem drainingGuest_execute (engine : Engine σ) (upstream : Bytes) (n : ℕ) (phase : Phase)
    (w : σ) (hmodules : engine.modules = [(ascii "m", drainingGuest upstream n)]) :
    let m : Machine σ := ⟨w, { ctx := { setupCtx engine (ascii "m") [] [] with
      memoryValid := true } }⟩
    let g : Guest σ := drainingGuest upstream n
    proxyWasmExecute engine {} (ascii "m") phase [] [] w =
      cleanup .fresh none .failed (enterGuest (hostEnv engine {}) g .vmStart [1, 0] m).2 := by
  have hheaders : phase.headersFn ≠ .vmStart := by cases phase <;> decide
  have hfind : findModule engine (ascii "m") = some (drainingGuest upstream n) := by
    simp [findModule, hmodules]
  unfold proxyWasmExecute admitted runModule reachVerdict
  simp only [hfind, Option.isSome_none, if_true, instantiate, Bool.false_eq_true, if_false]
  simp [initCallbacks, callConfigure, callVmStart, callIgnored, headersPhase,
    drainingGuest_missing, drainingGuest_callVmStart, hheaders]
  rfl

/-- The same for a warm-up, whose context never limits. -/
theorem drainingGuest_warmUp (env : HostEnv) (name upstream : Bytes) (n : ℕ) (w : σ) :
    let m : Machine σ := ⟨w, { ctx := { warmCtx name [] [] with memoryValid := true } }⟩
    let g : Guest σ := drainingGuest upstream n
    (warmInstanceRun env g name [] [] w).2 = (enterGuest env g .vmStart [1, 0] m).2 := by
  dsimp only
  unfold warmInstanceRun
  simp only [instantiate, Bool.false_eq_true, if_false]
  simp only [runUntilFailure, drainingGuest, runGuest, interp_done, reduceCtorEq, decide_false,
    Bool.false_eq_true, if_false, decide_true, if_true]
  split <;> next hr => exact congrArg Prod.snd hr.symm

/-- With no limit in force, a module can attempt as many calls as it likes on
every path that resolves its memory. -/
theorem pathHost_drained (engine : Engine σ) (upstream host : Bytes) (port n : ℕ) (path : Path)
    (w : σ) (hparse : pwHttpParseUpstream upstream 256 = some (host, port))
    (hmodules : engine.modules = [(ascii "m", drainingGuest upstream n)])
    (hlist : engine.allowedUpstreams = []) (htick : path ≠ .tick)
    (hlimit : path ≠ .warmUp → engine.httpCallMax = 0) :
    n ≤ attemptCount
      (pathHost engine { name := ascii "m", world := w, bodyWorld := w } path).log := by
  have hfind : findModule engine (ascii "m") = some (drainingGuest upstream n) := by
    simp [findModule, hmodules]
  have hvm := drainingGuest_vmStart (σ := σ) (hostEnv engine {}) upstream host port hparse n [1, 0]
  have hexec (phase : Phase) (hmax : engine.httpCallMax = 0) : n ≤ attemptCount
      (proxyWasmExecute engine {} (ascii "m") phase [] [] w).machine.host.log := by
    rw [drainingGuest_execute engine upstream n phase w hmodules]
    exact hvm _ ⟨rfl, hlist, hmax⟩
  cases path with
  | filter => exact hexec .request (hlimit (by decide))
  | body =>
    have hbody := hexec .response (hlimit (by decide))
    simp only [pathHost, hfind]
    rw [drainingGuest_execute engine upstream n .response w hmodules] at hbody ⊢
    exact hbody
  | warmUp =>
    simp only [pathHost, hfind, drainingGuest_warmUp]
    exact hvm _ ⟨rfl, rfl, rfl⟩
  | tick => contradiction

theorem tickHost_attemptCount (engine : Engine σ) (x : PathInput σ) :
    attemptCount (pathHost engine x .tick).log = 0 :=
  attemptCount_eq_zero _ (tickHost_invariant engine x _ (hostInvariant_noAttempts _)
    ⟨rfl, by simp [AttemptsListed]⟩).2

/-- A limit that is in force bounds the attempts of filters and bodies. -/
theorem pathHost_withinBudget (engine : Engine σ) (x : PathInput σ) (path : Path)
    (hpos : 0 < engine.httpCallMax) (hmax : engine.httpCallMax < 2 ^ 32)
    (hwarm : path ≠ .warmUp) :
    attemptCount (pathHost engine x path).log ≤ engine.httpCallMax := by
  have hexec := execInvariant_withinBudget (hostEnv engine x.env) _ hpos hmax
  have hstart : WithinBudget engine.httpCallMax
      { ctx := setupCtx engine x.name x.vmConfig x.pluginConfig } :=
    ⟨rfl, Nat.le_refl 0, Nat.zero_le _⟩
  cases path with
  | filter =>
    have hwithin := filterHost_invariant engine x _ hexec hstart
    exact hwithin.counted.trans hwithin.bounded
  | body =>
    have hstream := streamInvariant_withinBudget (hostEnv engine x.env) _ hpos hmax
    have hwithin := bodyHost_invariant engine x _ hexec hstream hstart
    exact hwithin.counted.trans hwithin.bounded
  | warmUp => contradiction
  | tick =>
    rw [tickHost_attemptCount]
    exact Nat.zero_le _

/-- Filters and response bodies keep within every limit whose low 32 bits are
not all zero; ticks keep within any, warm-ups within none. -/
theorem attemptCount_le_limit_iff [Inhabited σ] (limit : ℕ) (path : Path) :
    (∀ (engine engine' : Engine σ) (x : PathInput σ),
        vmodSetHttpCallLimit engine limit = some engine' →
        attemptCount (pathHost engine' x path).log ≤ limit) ↔
      path = .tick ∨ path ≠ .warmUp ∧ u32 limit ≠ 0 := by
  constructor
  · intro h
    by_contra hnot
    push Not at hnot
    obtain ⟨htick, hlimit⟩ := hnot
    let engine : Engine σ := { modules := [(ascii "m", drainingGuest (ascii "a:1") (limit + 1))] }
    have hmany := pathHost_drained { engine with httpCallMax := u32 limit } (ascii "a:1")
      (ascii "a") 1 (limit + 1) path default (by decide) rfl rfl htick hlimit
    have hfew := h engine _ { name := ascii "m", world := default, bodyWorld := default }
      (vmodSetHttpCallLimit_nat engine limit)
    omega
  · intro hpath engine engine' x hset
    rw [vmodSetHttpCallLimit_nat] at hset
    injection hset with hset
    subst hset
    rcases hpath with rfl | ⟨hwarm, hne⟩
    · rw [tickHost_attemptCount]
      exact Nat.zero_le _
    · have hbudget := pathHost_withinBudget { engine with httpCallMax := u32 limit } x path
        (Nat.pos_of_ne_zero hne) (u32_lt limit) hwarm
      exact hbudget.trans (Nat.mod_le _ _)

/-- The limit that is documented to disable callouts lets one through. -/
theorem drainingGuest_zero_limit :
    ∃ engine, vmodSetHttpCallLimit (singleEngine (drainingGuest (ascii "a:1") 1)) 0 = some engine ∧
      ¬ attemptCount
        (pathHost engine { name := ascii "m", world := (), bodyWorld := () } .filter).log ≤ 0 :=
  ⟨_, rfl, by decide +kernel⟩

end VmodWasm.CallBudget
