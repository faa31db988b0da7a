import VmodWasm.PoolSockets
import VmodWasm.SsrfGuard

/-!
The send and receive timeouts of the sockets behind callouts. They are set when
a socket is connected, for the call that connects it, and never again: a call
that is given an idle connection runs under the timeout of the call that opened
it.
-/
namespace VmodWasm.CalloutTimeouts

open ByteStrings ProxyContext HttpCall CircuitBreaker ConnectionPool HttpPool PoolTable PoolSockets
open SsrfGuard
open Lib.Handles Relation Lib.Transition

/-- An invocation of `proxy_http_call` that has passed its checks, with the call
it makes of the pool. -/
structure Callout where
  ctx : ProxyCtx
  mem : Bytes
  args : HttpCallArgs
  prepared : Prepared
  checked : prepare true (countCall ctx) mem args = .ok prepared

/-- The timeout a call is to have: the module's, else the engine's, else 5 s, and
never more than 30 s. -/
def Callout.timeout (c : Callout) : ℕ :=
  min (if c.args.timeoutMs ≠ 0 then c.args.timeoutMs.toNat
    else if c.ctx.httpTimeoutMs ≠ 0 then c.ctx.httpTimeoutMs else 5000) 30000

/-- A call got the socket of this number. -/
structure Use where
  call : Callout
  socket : ℕ

/-- The pool, with the record of which calls got which sockets. -/
structure Callouts where
  world : PoolWorld
  uses : List Use := []

inductive CalloutAction where
  | start (c : Callout) (env : AcquireEnv)
  | finish (env : CallEnv) (now : ℤ)
  | report (host : Bytes) (port : ℕ) (success : Bool) (now : ℤ)

/-- The socket of the call that thread `t` makes. -/
def socketOf (w : PoolWorld) (t : ℕ) : Option (Handle SocketInfo) :=
  (w.held t).bind fun call => w.socket call.2

/-- The operation of the pool in an action. -/
def CalloutAction.call : CalloutAction → PoolCall
  | .start c env => .acquire c.prepared env
  | .finish env now => .release env now
  | .report host port success now => .report host port success now

/-- What is recorded when an action of thread `t` has come to `w`. -/
def CalloutAction.uses (t : ℕ) (w : PoolWorld) : CalloutAction → List Use
  | .start c _ => ((socketOf w t).map fun h => ⟨c, h.id⟩).toList
  | _ => []

def calloutStep (s : Callouts) (l : ℕ × CalloutAction) : Option Callouts :=
  (poolCall s.world (l.1, l.2.call)).map fun w => ⟨w, s.uses ++ l.2.uses l.1 w⟩

def CalloutStep (s : Callouts) (l : ℕ × CalloutAction) (s' : Callouts) : Prop :=
  calloutStep s l = some s'

/-- Every call that has a connection has it under its own timeout. -/
def InForce (s : Callouts) : Prop :=
  ∀ t c ref, s.world.held t = some (c.prepared, ref) →
    ∃ h, s.world.socket ref = some h ∧ h.info.timeoutMs = (c : Callout).timeout

/-- No socket was used by calls with different timeouts. -/
def SameTimeouts (uses : List Use) : Prop :=
  ∀ u ∈ uses, ∀ u' ∈ uses, u.socket = u'.socket → u.call.timeout = u'.call.timeout

theorem Callout.prepared_timeout (c : Callout) : c.prepared.timeoutMs = c.timeout := by
  obtain ⟨_, _, _, _, htimeout⟩ := prepare_ok true _ c.mem c.args c.prepared c.checked
  rw [htimeout, timeout, effectiveTimeout, countCall, defaultHttpTimeoutMs]
  by_cases hmodule : c.args.timeoutMs = 0
  · simp only [hmodule, if_true, ne_eq, not_true_eq_false, if_false]
    by_cases hengine : c.ctx.httpTimeoutMs = 0
    · simp [hengine]
    · simp only [hengine, if_false, not_false_eq_true, if_true]
      split <;> omega
  · have hpos : c.args.timeoutMs.toNat ≠ 0 := by
      intro h
      exact hmodule (UInt32.toNat_inj.mp h)
    simp only [hmodule, if_false, hpos, ne_eq, not_false_eq_true, if_true]
    split <;> omega

theorem Callout.timeout_pos (c : Callout) : c.timeout ≠ 0 := by
  have hpos (hmodule : c.args.timeoutMs ≠ 0) : c.args.timeoutMs.toNat ≠ 0 := by
    intro h
    exact hmodule (UInt32.toNat_inj.mp h)
  rw [timeout]
  split
  next hmodule =>
    have h := hpos hmodule
    omega
  next => split <;> omega

section Kernel

/-- The socket a connect opens has the timeout it was given. -/
theorem createConn_kernel (w : PoolWorld) (req : ConnRequest) (timeoutMs : ℕ) (env : AcquireEnv)
    (htimeout : timeoutMs ≠ 0) (fd : ℕ) (h : Handle SocketInfo)
    (hh : (createConn w req timeoutMs env).2.kernel fd = some h) :
    w.kernel fd = some h ∨ h.info.timeoutMs = timeoutMs := by
  unfold createConn at hh
  dsimp only at hh
  split at hh
  · exact Or.inl hh
  next addr _ =>
    split at hh
    · exact Or.inl hh
    · split at hh
      · exact Or.inl hh
      next fd' _ =>
        have hconnected (w₀ w' : PoolWorld) (gone : List ℕ) (hkernel : w₀.kernel = w.kernel)
            (hw' : Connected w₀ fd' ⟨addr, if timeoutMs = 0 then 1000 else timeoutMs⟩ gone w')
            (hh : w'.kernel fd = some h) : w.kernel fd = some h ∨ h.info.timeoutMs = timeoutMs := by
          rcases (connected_socket hw' fd h hh).2 with ⟨-, rfl⟩ | ⟨-, hold⟩
          · exact Or.inr (if_neg htimeout)
          · exact Or.inl (hkernel ▸ hold)
        set resolved := vwasmHttpPoolResolve w.dns w.dnsTtlS env.dnsNow req.host req.port env.answer
        rcases placeConn_cases { w with dns := resolved.2 } req fd' addr timeoutMs env.alloc with
          ⟨ref, w', heq, hplaced⟩ | ⟨w', heq, hw', -⟩
        · obtain ⟨gone, hw', -⟩ := hplaced.connected
          rw [heq] at hh
          exact hconnected { w with dns := resolved.2 } w' gone rfl hw' hh
        · rw [heq] at hh
          exact hconnected { w with dns := resolved.2 } w' [fd'] rfl hw' hh

/-- After an acquire with a timeout the open sockets are old ones or have it. -/
theorem acquire_kernel (w : PoolWorld) (p : Prepared) (env : AcquireEnv)
    (htimeout : p.timeoutMs ≠ 0) (fd : ℕ) (h : Handle SocketInfo)
    (hh : (vwasmHttpPoolAcquire w p env).2.kernel fd = some h) :
    w.kernel fd = some h ∨ h.info.timeoutMs = p.timeoutMs := by
  unfold vwasmHttpPoolAcquire at hh
  dsimp only at hh
  rw [if_neg htimeout] at hh
  split at hh
  · exact Or.inl hh
  · split at hh
    · exact Or.inl (closeFds_kernel hh).1
    · rcases createConn_kernel _ _ _ env htimeout fd h hh with hold | hnew
      · exact Or.inl (closeFds_kernel hold).1
      · exact Or.inr hnew

end Kernel

/-- What every run keeps: the sockets in the pool are recorded with the call that
opened them, and calls hold sockets they are recorded with. -/
structure Recorded (s : Callouts) : Prop where
  inv : Inv Admitted (tableOf s.world)
  opening : ∀ ref c h, Entry s.world ref c h →
    ∃ u ∈ s.uses, u.socket = h.id ∧ h.info.timeoutMs = u.call.timeout
  holding : ∀ t p ref, s.world.held t = some (p, ref) →
    ∃ c h, Entry s.world ref c h ∧ ∃ u ∈ s.uses, u.socket = h.id ∧ u.call.prepared = p
  used_lt : ∀ u ∈ s.uses, u.socket < s.world.opened

/-- A holder's connection has an open socket. -/
theorem held_entry {w : PoolWorld} (hs : Base (tableOf w)) {t : ℕ} {p : Prepared} {ref : ConnRef}
    (hheld : w.held t = some (p, ref)) : ∃ c h, Entry w ref c h ∧ w.socket ref = some h := by
  obtain ⟨fd, hplace⟩ := hs.held_busy t p.exempt ref (by simp [tableOf, hheld])
  obtain ⟨h, hh⟩ := Option.ne_none_iff_exists'.mp (hs.place_open ref fd true hplace)
  obtain ⟨c, he, -⟩ := entry_of_place hplace hh
  exact ⟨c, h, he, (socket_of_place w ref fd true hplace).trans hh⟩

/-- What a step can do: nothing new, or hand a socket to a call. -/
inductive Change (s s' : Callouts) : Prop
  | quiet (uses : s'.uses = s.uses)
      (entry : ∀ ref c h, Entry s'.world ref c h → ∃ c₀, Entry s.world ref c₀ h)
      (held : ∀ t p ref, s'.world.held t = some (p, ref) → s.world.held t = some (p, ref))
  | granted (t : ℕ) (call : Callout) (ref : ConnRef) (c : Conn) (h : Handle SocketInfo)
      (uses : s'.uses = s.uses ++ [⟨call, h.id⟩])
      (held : s'.world.held = Function.update s.world.held t (some (call.prepared, ref)))
      (given : Entry s'.world ref c h)
      (source : (∃ c₀, Entry s.world ref c₀ h) ∨
        (h.id = s.world.opened ∧ h.info.timeoutMs = call.timeout))
      (others : ∀ ref' c' h', Entry s'.world ref' c' h' → ref' ≠ ref → Entry s.world ref' c' h')

theorem start_change (s s' : Callouts) (t : ℕ) (call : Callout) (env : AcquireEnv)
    (hinv : Inv Admitted (tableOf s.world)) (hinv' : Inv Admitted (tableOf s'.world))
    (hstep : CalloutStep s (t, .start call env) s') :
    Change s s' ∧ s.world.opened ≤ s'.world.opened := by
  obtain ⟨w, hw, rfl⟩ := Option.map_eq_some_iff.mp hstep
  obtain ⟨hfree, hfd, hresult⟩ := poolCall_acquire hw
  have heffect := acquire_effect s.world call.prepared env hinv.toBase hfd
  have hkernel := acquire_kernel s.world call.prepared env
    (call.prepared_timeout ▸ call.timeout_pos)
  have hheld := (acquire_frame s.world call.prepared env).1
  have hbase := hinv'.toBase
  generalize vwasmHttpPoolAcquire s.world call.prepared env = r at *
  subst hresult
  obtain ⟨_ | ref, w'⟩ := r
  · have hidle : w'.held t = none := (congrFun hheld t).trans hfree
    refine ⟨.quiet ?_ ?_ ?_, heffect.opened⟩
    · simp [CalloutAction.uses, socketOf, handResult, hidle]
    · intro ref c h he
      rcases heffect.entry ref c h he with ⟨he, -⟩ | ⟨hnone, -⟩
      · exact ⟨c, he⟩
      · contradiction
    · intro t' p ref hp
      exact (congrFun hheld t').symm.trans hp
  · have hnow : (w'.hand t call.prepared s.world.opened ref).held t =
        some (call.prepared, ref) := Function.update_self ..
    obtain ⟨c, h, he, hsocket⟩ := held_entry hbase hnow
    refine ⟨.granted t call ref c h ?_ ?_ he ?_ ?_, heffect.opened⟩
    · have hof : socketOf (w'.hand t call.prepared s.world.opened ref) t = some h := by
        rw [socketOf, hnow]
        exact hsocket
      change s.uses ++
        ((socketOf (w'.hand t call.prepared s.world.opened ref) t).map _).toList = _
      rw [hof]
      rfl
    · exact congrArg (Function.update · t (some (call.prepared, ref))) hheld
    · rcases heffect.entry ref c h he with ⟨-, hne⟩ | ⟨-, ⟨c₀, -, hold, -⟩ | ⟨hid, -⟩⟩
      · exact absurd rfl hne
      · exact Or.inl ⟨c₀, hold⟩
      · obtain ⟨-, fd, -, hh⟩ := he
        rcases hkernel fd h hh with hold | hnew
        · exact absurd hid (hinv.id_lt fd h hold).ne
        · exact Or.inr ⟨hid, hnew.trans call.prepared_timeout⟩
    · intro ref' c' h' he' hne
      rcases heffect.entry ref' c' h' he' with ⟨hold, -⟩ | ⟨href, -⟩
      · exact hold
      · exact absurd (Option.some.inj href).symm hne

/-- Releases and reports hand out nothing. -/
theorem finish_change (s s' : Callouts) (t : ℕ) (env : CallEnv) (now : ℤ)
    (hinv : Inv Admitted (tableOf s.world)) (hstep : CalloutStep s (t, .finish env now) s') :
    Change s s' ∧ s'.world.opened = s.world.opened := by
  obtain ⟨w, hw, rfl⟩ := Option.map_eq_some_iff.mp hstep
  obtain ⟨p, ref, hheld, rfl⟩ := poolCall_release hw
  obtain ⟨c, h, ⟨hc, fd, hfd, hh⟩, -⟩ := held_entry hinv.toBase hheld
  have hreturned := release_returned { s.world with held := Function.update s.world.held t none }
    ref c fd (releaseFlag env p) now hc hfd (by simp [hh])
  refine ⟨.quiet (List.append_nil _) ?_ ?_, hreturned.opened⟩
  · intro ref' c' h' he
    obtain ⟨c₀, he₀, -⟩ := hreturned.entry ref' c' h' he
    exact ⟨c₀, he₀⟩
  · intro t' p' ref' hp
    rw [(release_frame _ ref _ now).1] at hp
    dsimp only at hp
    by_cases ht : t' = t
    · rw [ht, Function.update_self] at hp
      contradiction
    · rwa [Function.update_of_ne ht] at hp

theorem calloutStep_inv (s s' : Callouts) (l : ℕ × CalloutAction)
    (hinv : Inv Admitted (tableOf s.world)) (hstep : CalloutStep s l s') :
    Inv Admitted (tableOf s'.world) := by
  obtain ⟨w, hw, rfl⟩ := Option.map_eq_some_iff.mp hstep
  exact hinv.moves (poolCall_moves s.world w _ hinv hw)

theorem calloutStep_change (s s' : Callouts) (l : ℕ × CalloutAction)
    (hinv : Inv Admitted (tableOf s.world)) (hstep : CalloutStep s l s') :
    Change s s' ∧ s.world.opened ≤ s'.world.opened := by
  have hinv' := calloutStep_inv s s' l hinv hstep
  obtain ⟨t, action⟩ := l
  cases action with
  | start call env =>
    exact start_change s s' t call env hinv hinv' hstep
  | finish env now =>
    obtain ⟨hchange, hopened⟩ := finish_change s s' t env now hinv hstep
    exact ⟨hchange, hopened.ge⟩
  | report host port success now =>
    obtain ⟨w, hw, rfl⟩ := Option.map_eq_some_iff.mp hstep
    rw [← Option.some.inj hw]
    exact ⟨.quiet (List.append_nil _) (fun ref c h he => ⟨c, he⟩) fun t p ref hp => hp, le_rfl⟩

theorem recorded_step (s s' : Callouts) (l : ℕ × CalloutAction) (hstep : CalloutStep s l s')
    (hs : Recorded s) : Recorded s' := by
  have hinv' := calloutStep_inv s s' l hs.inv hstep
  obtain ⟨hchange, hopened⟩ := calloutStep_change s s' l hs.inv hstep
  cases hchange with
  | quiet huses hentry hheld =>
    refine ⟨hinv', ?_, ?_, ?_⟩
    · intro ref c h he
      obtain ⟨c₀, he₀⟩ := hentry ref c h he
      rw [huses]
      exact hs.opening ref c₀ h he₀
    · intro t p ref hp
      obtain ⟨c, h, he, -⟩ := held_entry hinv'.toBase hp
      obtain ⟨c₀, he₀⟩ := hentry ref c h he
      obtain ⟨c₁, h₁, he₁, hu⟩ := hs.holding t p ref (hheld t p ref hp)
      obtain ⟨-, rfl⟩ := he₀.unique he₁
      rw [huses]
      exact ⟨c, h, he, hu⟩
    · intro u hu
      rw [huses] at hu
      exact (hs.used_lt u hu).trans_le hopened
  | granted t call ref c h huses hheld hgiven hsource hothers =>
    have hnew : (⟨call, h.id⟩ : Use) ∈ s'.uses := by
      rw [huses]
      exact List.mem_append_right _ (List.mem_singleton_self _)
    have hsub : s.uses ⊆ s'.uses := by
      rw [huses]
      exact List.subset_append_left ..
    refine ⟨hinv', ?_, ?_, ?_⟩
    · intro ref' c' h' he
      by_cases href : ref' = ref
      · subst href
        obtain ⟨-, rfl⟩ := hgiven.unique he
        rcases hsource with ⟨c₀, he₀⟩ | ⟨-, htimeout⟩
        · obtain ⟨u, hu, hrest⟩ := hs.opening ref' c₀ h he₀
          exact ⟨u, hsub hu, hrest⟩
        · exact ⟨_, hnew, rfl, htimeout⟩
      · obtain ⟨u, hu, hrest⟩ := hs.opening ref' c' h' (hothers ref' c' h' he href)
        exact ⟨u, hsub hu, hrest⟩
    · intro t' p ref' hp
      by_cases ht : t' = t
      · rw [hheld, ht, Function.update_self] at hp
        obtain ⟨rfl, rfl⟩ := Prod.mk.inj (Option.some.inj hp)
        exact ⟨c, h, hgiven, _, hnew, rfl, rfl⟩
      · -- another call keeps the socket it had
        obtain ⟨c', h', he, -⟩ := held_entry hinv'.toBase hp
        have href : ref' ≠ ref := by
          rintro rfl
          exact ht (hinv'.held_inj t' t p.exempt call.prepared.exempt ref' (by simp [tableOf, hp])
            (by simp [tableOf, hheld]))
        rw [hheld, Function.update_of_ne ht] at hp
        obtain ⟨c₁, h₁, he₁, u, hu, hrest⟩ := hs.holding t' p ref' hp
        obtain ⟨-, rfl⟩ := (hothers ref' c' h' he href).unique he₁
        exact ⟨c', h', he, u, hsub hu, hrest⟩
    · intro u hu
      rw [huses] at hu
      rcases List.mem_append.mp hu with hold | hnew
      · exact (hs.used_lt u hold).trans_le hopened
      · rw [List.mem_singleton.mp hnew]
        obtain ⟨-, fd, -, hh⟩ := hgiven
        exact hinv'.id_lt fd h hh

theorem recorded_new (maxConns defaultTimeoutMs : ℕ) (dnsTtlS : ℤ) (dns : List DnsEntry)
    (breakers : List Breaker) :
    Recorded ⟨newWorld maxConns defaultTimeoutMs dnsTtlS dns breakers, []⟩ where
  inv := newWorld_inv maxConns defaultTimeoutMs dnsTtlS dns breakers
  opening ref c h he := by
    obtain ⟨-, fd, -, hh⟩ := he
    contradiction
  holding t p ref hp := by contradiction
  used_lt u hu := absurd hu List.not_mem_nil

/-- Calls with the same call of the pool have the same timeout. -/
theorem Callout.timeout_congr {c c' : Callout} (h : c.prepared = c'.prepared) :
    c.timeout = c'.timeout := by
  rw [← c.prepared_timeout, ← c'.prepared_timeout, h]

/-- A call shares its socket with the call that opened it. -/
theorem Recorded.inForce {s : Callouts} (hs : Recorded s) (hsame : SameTimeouts s.uses) :
    InForce s := by
  intro t call ref hheld
  obtain ⟨c, h, he, u, hu, hsocket, hcall⟩ := hs.holding t call.prepared ref hheld
  obtain ⟨u₀, hu₀, hsocket₀, htimeout⟩ := hs.opening ref c h he
  obtain ⟨c', h', he', hh⟩ := held_entry hs.inv.toBase hheld
  obtain ⟨-, rfl⟩ := he.unique he'
  refine ⟨h, hh, ?_⟩
  rw [htimeout, hsame u₀ hu₀ u hu (hsocket₀.trans hsocket.symm), Callout.timeout_congr hcall]

/-- While the timeouts are in force, the sockets in the pool have the timeouts of
all the calls that used them. -/
structure Uniform (s : Callouts) : Prop where
  recorded : Recorded s
  sockets : ∀ u ∈ s.uses, ∀ ref c h, Entry s.world ref c h → u.socket = h.id →
    h.info.timeoutMs = u.call.timeout
  same : SameTimeouts s.uses

theorem uniform_step (s s' : Callouts) (l : ℕ × CalloutAction) (hstep : CalloutStep s l s')
    (hforce : InForce s') (hs : Uniform s) : Uniform s' := by
  have hrecorded := recorded_step s s' l hstep hs.recorded
  obtain ⟨hchange, -⟩ := calloutStep_change s s' l hs.recorded.inv hstep
  cases hchange with
  | quiet huses hentry hheld =>
    refine ⟨hrecorded, ?_, huses ▸ hs.same⟩
    intro u hu ref c h he hsocket
    obtain ⟨c₀, he₀⟩ := hentry ref c h he
    exact hs.sockets u (huses ▸ hu) ref c₀ h he₀ hsocket
  | granted t call ref c h huses hheld hgiven hsource hothers =>
    have hnow : s'.world.held t = some (call.prepared, ref) := by rw [hheld, Function.update_self]
    have htimeout : h.info.timeoutMs = call.timeout := by
      obtain ⟨c', h', he', hsocket⟩ := held_entry hrecorded.inv.toBase hnow
      obtain ⟨-, rfl⟩ := hgiven.unique he'
      obtain ⟨h', hsocket', htimeout⟩ := hforce t call ref hnow
      rw [Option.some.inj (hsocket.symm.trans hsocket'), htimeout]
    -- an earlier use of a socket that is in the pool now
    have hearlier (u : Use) (hu : u ∈ s.uses) (ref' : ConnRef) (c' : Conn) (h' : Handle SocketInfo)
        (he' : Entry s'.world ref' c' h') (hsocket : u.socket = h'.id) :
        h'.info.timeoutMs = u.call.timeout := by
      by_cases href : ref' = ref
      · subst href
        obtain ⟨-, rfl⟩ := hgiven.unique he'
        rcases hsource with ⟨c₀, he₀⟩ | ⟨hid, -⟩
        · exact hs.sockets u hu ref' c₀ h he₀ hsocket
        · exact absurd (hsocket.trans hid) (hs.recorded.used_lt u hu).ne
      · exact hs.sockets u hu ref' c' h' (hothers ref' c' h' he' href) hsocket
    refine ⟨hrecorded, ?_, ?_⟩
    · intro u hu ref' c' h' he' hsocket
      rw [huses] at hu
      rcases List.mem_append.mp hu with hold | hnew
      · exact hearlier u hold ref' c' h' he' hsocket
      · obtain rfl := List.mem_singleton.mp hnew
        obtain rfl := hgiven.ref_eq hrecorded.inv.toBase he' hsocket
        obtain ⟨-, rfl⟩ := hgiven.unique he'
        exact htimeout
    · intro u hu u' hu' hsocket
      rw [huses] at hu hu'
      rcases List.mem_append.mp hu with hold | hnew
      · rcases List.mem_append.mp hu' with hold' | hnew'
        · exact hs.same u hold u' hold' hsocket
        · obtain rfl := List.mem_singleton.mp hnew'
          rw [← hearlier u hold ref c h hgiven hsocket, htimeout]
      · obtain rfl := List.mem_singleton.mp hnew
        rcases List.mem_append.mp hu' with hold' | hnew'
        · rw [← hearlier u' hold' ref c h hgiven hsocket.symm, htimeout]
        · obtain rfl := List.mem_singleton.mp hnew'
          rfl

theorem calloutRun_uses {s s' : Callouts} {ls : List (ℕ × CalloutAction)}
    (hrun : Run CalloutStep s ls s') : s.uses ⊆ s'.uses := by
  refine hrun.invariant (fun s' => s.uses ⊆ s'.uses) ?_ (List.Subset.refl _)
  intro u l u' hstep hsub
  obtain ⟨w, -, rfl⟩ := Option.map_eq_some_iff.mp hstep
  exact List.subset_append_of_subset_left _ hsub

theorem SameTimeouts.mono {uses uses' : List Use} (h : SameTimeouts uses') (hsub : uses ⊆ uses') :
    SameTimeouts uses :=
  fun u hu u' hu' => h u (hsub hu) u' (hsub hu')

/-- In a run every call has its own timeout exactly if no two calls with different
timeouts are given the same socket. -/
theorem inForce_iff (maxConns defaultTimeoutMs : ℕ) (dnsTtlS : ℤ) (dns : List DnsEntry)
    (breakers : List Breaker) (ls : List (ℕ × CalloutAction)) (s : Callouts) :
    Run (Reaching InForce CalloutStep)
        ⟨newWorld maxConns defaultTimeoutMs dnsTtlS dns breakers, []⟩ ls s ↔
      Run CalloutStep ⟨newWorld maxConns defaultTimeoutMs dnsTtlS dns breakers, []⟩ ls s ∧
        SameTimeouts s.uses := by
  have hnew := recorded_new maxConns defaultTimeoutMs dnsTtlS dns breakers
  constructor
  · intro hrun
    refine ⟨hrun.mono fun s l s' h => h.1, ?_⟩
    have huniform : Uniform s := hrun.invariant Uniform
      (fun s l s' h hs => uniform_step s s' l h.1 h.2 hs)
      ⟨hnew, fun u hu => absurd hu List.not_mem_nil, fun u hu => absurd hu List.not_mem_nil⟩
    exact huniform.same
  · rintro ⟨hrun, hsame⟩
    generalize (⟨newWorld maxConns defaultTimeoutMs dnsTtlS dns breakers, []⟩ : Callouts) = s₀ at *
    induction hrun with
    | nil s => exact Run.nil s
    | cons hstep hrest ih =>
      have hrecorded := recorded_step _ _ _ hstep hnew
      exact Run.cons ⟨hstep, hrecorded.inForce (hsame.mono (calloutRun_uses hrest))⟩
        (ih hsame hrecorded)

/-- A callout to `a`, which is listed, with a timeout of the module. -/
def listedCallout (timeoutMs : UInt32) : Callout where
  ctx := SafeReuse.exemptCtx
  mem := ascii "a" ++ [0, 0, 0]
  args := { plainArgs (ascii "a") 0 with timeoutMs := timeoutMs }
  prepared := ⟨ascii "a", 80, effectiveTimeout (countCall SafeReuse.exemptCtx) timeoutMs, true,
    buildRequest {} (ascii "a") 0 true, []⟩
  checked := by rfl

/-- The connection of a quick call is kept, and serves a call that may take 30 s. -/
def quickThenSlow : List (ℕ × CalloutAction) :=
  [(0, .start (listedCallout 1000) { answer := some (ipv4 8 8 8 8 80), fd := some 5 }),
    (0, .finish { stream := ReceiveBuffer.exampleHead ++ crlf ++ crlf ++ ascii "hi"
                  sizes := [38, 2] } 1),
    (1, .start (listedCallout 30000) {})]

theorem quickThenSlow_short :
    ∃ s, Run CalloutStep ⟨newWorld 2 1000 60 [] [], []⟩ quickThenSlow s ∧
      s.world.held 1 = some ((listedCallout 30000).prepared, .slot 0) ∧
      (s.world.socket (.slot 0)).map (fun h => h.info.timeoutMs) = some 1000 ∧
      (listedCallout 30000).timeout = 30000 ∧ ¬ InForce s := by
  obtain ⟨s, hs⟩ := Option.isSome_iff_exists.mp
    (show (exec calloutStep ⟨newWorld 2 1000 60 [] [], []⟩ quickThenSlow).isSome by decide +kernel)
  have hfacts : (exec calloutStep ⟨newWorld 2 1000 60 [] [], []⟩ quickThenSlow).map (fun s =>
      (s.world.held 1, (s.world.socket (.slot 0)).map (fun h => h.info.timeoutMs))) =
      some (some ((listedCallout 30000).prepared, .slot 0), some 1000) := by
    rfl
  simp only [hs, Option.map_some, Option.some.injEq, Prod.mk.injEq] at hfacts
  obtain ⟨hheld, hshort⟩ := hfacts
  refine ⟨s, Run.of_exec hs, hheld, hshort, rfl, ?_⟩
  intro hforce
  obtain ⟨h, hh, htimeout⟩ := hforce 1 (listedCallout 30000) (.slot 0) hheld
  rw [hh, Option.map_some, htimeout] at hshort
  exact absurd hshort (by decide)

end VmodWasm.CalloutTimeouts
