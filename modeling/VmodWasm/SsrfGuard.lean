import VmodWasm.PoolTable

/-!
What an upstream that is not on the allowlist gets from the pool. The pool
moves handles between places: every operation is a few moves of the handle
table, in which a call that is not exempt takes only a socket opened for it,
to an address the filter passed, and gives it back closed. So no such socket
is ever in the hands of two calls.
-/
namespace VmodWasm.SsrfGuard

open ByteStrings ProxyContext HttpCall CircuitBreaker ConnectionPool HttpPool PoolTable
open Lib.Handles Relation Lib.Transition

/-- A connection is kept only for exempt calls. -/
theorem releaseFlag_exempt (env : CallEnv) (p : Prepared) (h : releaseFlag env p = true) :
    p.exempt = true :=
  (SafeReuse.readResponse_reusable _ _
    (SafeReuse.connReleased_exchange _ true p (of_decide_eq_true h))).1

/-- Every operation of a call is a few moves of the handle table. -/
theorem poolCall_moves (w w' : PoolWorld) (l : ℕ × PoolCall) (hs : Inv Admitted (tableOf w))
    (h : poolCall w l = some w') :
    ReflTransGen (Move Admitted (· = true)) (tableOf w) (tableOf w') := by
  obtain ⟨t, call⟩ := l
  cases call with
  | acquire p env =>
    obtain ⟨hfree, hfd, rfl⟩ := poolCall_acquire h
    exact acquire_moves w t p hfree hs.toBase env hfd
  | release env now =>
    obtain ⟨p, ref, hheld, rfl⟩ := poolCall_release h
    exact ReflTransGen.single (release_moves w t p ref _ now hs.toBase hheld
      (releaseFlag_exempt env p))
  | report host port success now =>
    rw [← Option.some.inj h]
    exact ReflTransGen.refl

theorem newWorld_inv (maxConns defaultTimeoutMs : ℕ) (dnsTtlS : ℤ) (dns : List DnsEntry)
    (breakers : List Breaker) :
    Inv Admitted (tableOf (newWorld maxConns defaultTimeoutMs dnsTtlS dns breakers)) where
  toBase := newWorld_base maxConns defaultTimeoutMs dnsTtlS dns breakers
  confined h hh := by simp [tableOf, newWorld] at hh
  own before after h hsplit := by simp [tableOf, newWorld] at hsplit

/-- The runs of the pool's operations. -/
abbrev PoolRun (w : PoolWorld) (calls : List (ℕ × PoolCall)) (w' : PoolWorld) : Prop :=
  Run (fun w l w' => poolCall w l = some w') w calls w'

theorem poolRun_inv (w w' : PoolWorld) (calls : List (ℕ × PoolCall)) (hrun : PoolRun w calls w')
    (hs : Inv Admitted (tableOf w)) : Inv Admitted (tableOf w') :=
  hrun.invariant (fun w => Inv Admitted (tableOf w))
    (fun w l w' hcall hs => hs.moves (poolCall_moves w w' l hs hcall)) hs

/-- Call `t` acquires a connection, whose socket is `socket`. -/
structure Acquires (w : PoolWorld) (t : ℕ) (p : Prepared) (env : AcquireEnv)
    (socket : Handle SocketInfo) (w' : PoolWorld) : Prop where
  call : poolCall w (t, .acquire p env) = some w'
  conn : ∃ ref, (vwasmHttpPoolAcquire w p env).1 = some ref ∧ w'.socket ref = some socket

section Log

theorem handResult_log (t : ℕ) (p : Prepared) (since : ℕ) (r : Option ConnRef × PoolWorld) :
    r.2.log <+: (handResult t p since r).log := by
  obtain ⟨_ | ref, w⟩ := r
  · exact List.prefix_rfl
  · exact List.prefix_append _ _

theorem poolRun_log (w w' : PoolWorld) (calls : List (ℕ × PoolCall)) (hrun : PoolRun w calls w') :
    w.log <+: w'.log := by
  refine hrun.invariant (fun w' => w.log <+: w'.log) ?_ List.prefix_rfl
  rintro u ⟨t, call⟩ u' hcall hlog
  refine hlog.trans ?_
  cases call with
  | acquire p env =>
    obtain ⟨-, -, rfl⟩ := poolCall_acquire hcall
    rw [← (acquire_frame u p env).2]
    exact handResult_log t p u.opened _
  | release env now =>
    obtain ⟨p, ref, -, rfl⟩ := poolCall_release hcall
    rw [(release_frame _ ref _ now).2]
  | report host port success now =>
    rw [← Option.some.inj hcall]

/-- A successful acquire hands over an open socket, and the log says so. -/
theorem acquire_logged (w w' : PoolWorld) (t : ℕ) (p : Prepared) (env : AcquireEnv) (ref : ConnRef)
    (hs : Inv Admitted (tableOf w)) (hcall : poolCall w (t, .acquire p env) = some w')
    (hsuccess : (vwasmHttpPoolAcquire w p env).1 = some ref) :
    ∃ socket, w'.socket ref = some socket ∧
      w'.log = w.log ++ [⟨socket, w.opened, p.exempt⟩] := by
  have hs' := hs.moves (poolCall_moves w w' _ hs hcall)
  obtain ⟨-, -, hresult⟩ := poolCall_acquire hcall
  have hw' : w' = (vwasmHttpPoolAcquire w p env).2.hand t p w.opened ref := by
    rw [hresult, ← Prod.eta (vwasmHttpPoolAcquire w p env), hsuccess]
    rfl
  obtain ⟨fd, hbusy⟩ := hs'.held_busy t p.exempt ref (by simp [tableOf, hw', PoolWorld.hand])
  obtain ⟨socket, hopen⟩ := Option.ne_none_iff_exists'.mp (hs'.place_open ref fd true hbusy)
  have hsocket : w'.socket ref = some socket :=
    (socket_of_place w' ref fd true hbusy).trans hopen
  refine ⟨socket, hsocket, ?_⟩
  have hsame : (vwasmHttpPoolAcquire w p env).2.socket ref = w'.socket ref := by
    rw [hw']
    rfl
  conv_lhs => rw [hw']
  simp only [PoolWorld.hand, (acquire_frame w p env).2, hsame, hsocket, Option.map_some,
    Option.toList_some]

end Log

/-- Whatever the pool did before, whatever the DNS cache holds and the resolver
answers: a call that is not exempt and gets a connection gets a socket connected
by this acquire, to an address the filter passed; and no acquire of any call
hands that socket over ever after. -/
theorem acquire_ownSocket (maxConns defaultTimeoutMs : ℕ) (dnsTtlS : ℤ) (dns : List DnsEntry)
    (breakers : List Breaker) (calls : List (ℕ × PoolCall)) (w w' : PoolWorld) (t : ℕ)
    (p : Prepared) (env : AcquireEnv)
    (hrun : PoolRun (newWorld maxConns defaultTimeoutMs dnsTtlS dns breakers) calls w)
    (hexempt : p.exempt = false) (hcall : poolCall w (t, .acquire p env) = some w')
    (hsuccess : (vwasmHttpPoolAcquire w p env).1 ≠ none) :
    ∃ socket, Acquires w t p env socket w' ∧
      vwasmHttpAddrIsPrivate socket.info.peer = false ∧
      socket.id = w.opened ∧ (∀ fd old, w.kernel fd = some old → old.id < w.opened) ∧
      ∀ later w₁ w₂ t' p' env' socket', PoolRun w' later w₁ →
        Acquires w₁ t' p' env' socket' w₂ → socket'.id ≠ socket.id := by
  have hs := poolRun_inv _ _ _ hrun (newWorld_inv _ _ _ _ _)
  have hs' := hs.moves (poolCall_moves w w' _ hs hcall)
  obtain ⟨ref, href⟩ := Option.ne_none_iff_exists'.mp hsuccess
  obtain ⟨socket, hsocket, hlog⟩ := acquire_logged w w' t p env ref hs hcall href
  obtain ⟨hadmitted, hid, _⟩ := hs'.own w.log [] ⟨socket, w.opened, p.exempt⟩ hlog hexempt
  refine ⟨socket, ⟨hcall, ref, href, hsocket⟩, hadmitted, hid, hs.id_lt, ?_⟩
  rintro later w₁ w₂ t' p' env' socket' hlater ⟨hcall', ref', href', hsocket'⟩
  have hs₁ := poolRun_inv _ _ _ hlater hs'
  obtain ⟨socket'', hsocket'', hlog'⟩ := acquire_logged w₁ w₂ t' p' env' ref' hs₁ hcall' href'
  obtain rfl : socket'' = socket' := Option.some.inj (hsocket''.symm.trans hsocket')
  -- the two hand-overs stand in the log of the last state, with others between them
  obtain ⟨between, hbetween⟩ := poolRun_log w' w₁ later hlater
  have hsplit : w₂.log = w.log ++ ⟨socket, w.opened, p.exempt⟩ ::
      (between ++ [⟨socket'', w₁.opened, p'.exempt⟩]) := by
    rw [hlog', ← hbetween, hlog]
    simp
  have hs₂ := hs₁.moves (poolCall_moves w₁ w₂ _ hs₁ hcall')
  exact (hs₂.own _ _ _ hsplit hexempt).2.2 ⟨socket'', w₁.opened, p'.exempt⟩ (by simp)

/-- An exempt call to an internal address, whose connection is kept. -/
def keptCall : List (ℕ × PoolCall) :=
  [(0, .acquire (callTo (ascii "a") true) { answer := some (ipv4 10 0 0 1 80), fd := some 5 }),
    (0, .release { stream := ReceiveBuffer.exampleHead ++ crlf ++ crlf ++ ascii "hi"
                   sizes := [38, 2] } 1)]

/-- The cache has forgotten the host, which now resolves to a public address. -/
def rebound : AcquireEnv :=
  { now := 2, dnsNow := 100, answer := some (ipv4 8 8 8 8 80), fd := some 6 }

theorem keptCall_ownSocket :
    ∃ w w' socket, exec poolCall (newWorld 2 1000 60 [] []) keptCall = some w ∧
      w.pool.conns.map (fun c => (c.fd, c.inUse)) = [(some 5, false), (none, false)] ∧
      Acquires w 1 (callTo (ascii "a") false) rebound socket w' ∧
      vwasmHttpAddrIsPrivate socket.info.peer = false ∧ socket.id = w.opened := by
  obtain ⟨w, hw⟩ := Option.isSome_iff_exists.mp
    (show (exec poolCall (newWorld 2 1000 60 [] []) keptCall).isSome by decide +kernel)
  have hfacts : (exec poolCall (newWorld 2 1000 60 [] []) keptCall).map (fun w =>
      (w.pool.conns.map (fun c => (c.fd, c.inUse)),
        (poolCall w (1, .acquire (callTo (ascii "a") false) rebound)).isSome,
        (vwasmHttpPoolAcquire w (callTo (ascii "a") false) rebound).1.isSome)) =
      some ([(some 5, false), (none, false)], true, true) := by
    decide +kernel
  simp only [hw, Option.map_some, Option.some.injEq, Prod.mk.injEq] at hfacts
  obtain ⟨hconns, hready, hsuccess⟩ := hfacts
  obtain ⟨w', hw'⟩ := Option.isSome_iff_exists.mp hready
  have hsuccess := Option.isSome_iff_ne_none.mp hsuccess
  obtain ⟨socket, hacquires, hpublic, hid, _⟩ := acquire_ownSocket 2 1000 60 [] [] keptCall w w' 1
    (callTo (ascii "a") false) rebound (Run.of_exec hw) rfl hw' hsuccess
  exact ⟨w, w', socket, hw, hconns, hacquires, hpublic, hid⟩

end VmodWasm.SsrfGuard
