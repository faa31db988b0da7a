import VmodWasm.Lib.Tally
import VmodWasm.PoolSockets

/-!
The books of the connection pool. Every connection handed out is recorded with
the number of its socket. In every run of acquires and releases, made one after
another, each socket opened is idle in one slot, held by one caller or closed,
once; and the record agrees with the counters and with the limits on reuse.
-/
namespace VmodWasm.PoolBooks

open ByteStrings HttpCall CircuitBreaker ConnectionPool HttpPool PoolTable PoolSockets
open Lib.Handles Lib.Closings Lib.Tally Relation
open Lib.Transition

/-- A connection handed out: the number of its socket, whether that was open
before, and the upstream asked for, when. -/
structure Grant where
  id : ℕ
  reused : Bool
  host : Bytes
  port : ℕ
  time : ℤ

/-- The pool, with the record of all connections handed out. -/
structure Books where
  world : PoolWorld
  grants : List Grant := []

/-- A release may ask for the connection to be kept or not; calls also report to
the circuit breakers. -/
inductive BookCall where
  | acquire (p : Prepared) (env : AcquireEnv)
  | release (keepAlive : Bool) (now : ℤ)
  | report (host : Bytes) (port : ℕ) (success : Bool) (now : ℤ)

/-- What is recorded when an acquire for `req` has come to `r`. -/
def grantOf (w : PoolWorld) (req : ConnRequest) (r : Option ConnRef × PoolWorld) : Option Grant :=
  (r.1.bind r.2.socket).map fun h => ⟨h.id, decide (h.id < w.opened), req.host, req.port, req.now⟩

/-- One operation of caller `t`, who has one connection at a time and gives it back
once. A connect gets a descriptor that is not in use. -/
def bookCall (b : Books) : ℕ × BookCall → Option Books
  | (t, .acquire p env) =>
    if (b.world.held t).isSome || fdTaken b.world p env then none
    else
      let r := vwasmHttpPoolAcquire b.world p env
      some {
        world := handResult t p b.world.opened r
        grants := b.grants ++ (grantOf b.world ⟨p.host, p.port, p.exempt, env.now⟩ r).toList }
  | (t, .release keepAlive now) =>
    match b.world.held t with
    | none => none
    | some (_, ref) =>
      let w := { b.world with held := Function.update b.world.held t none }
      some { b with world := vwasmHttpPoolRelease w ref keepAlive now }
  | (_, .report host port success now) =>
    some { b with world := { b.world with
      breakers :=
        if success then vwasmHttpPoolCbSuccess b.world.breakers host port now
        else vwasmHttpPoolCbFailure b.world.breakers host port now } }

section Record

/-- The first grant of a socket, for which it was opened. -/
def openingOf (grants : List Grant) (id : ℕ) : Option Grant := grants.find? fun g => g.id == id

/-- The requests a socket was handed out for. -/
def servedBy (grants : List Grant) (id : ℕ) : ℕ := grants.countP fun g => g.id == id

variable {grants : List Grant} {g : Grant} {id : ℕ}

theorem openingOf_append {g₀ : Grant} (h : openingOf grants id = some g₀) :
    openingOf (grants ++ [g]) id = some g₀ := by
  rw [openingOf, List.find?_append]
  rw [openingOf] at h
  rw [h]
  rfl

theorem openingOf_new (h : ∀ g' ∈ grants, g'.id ≠ g.id) :
    openingOf (grants ++ [g]) g.id = some g := by
  have hnone : grants.find? (fun g' => g'.id == g.id) = none := by
    refine List.find?_eq_none.mpr fun g' hg' => ?_
    simpa using h g' hg'
  simp [openingOf, List.find?_append, hnone]

theorem servedBy_append :
    servedBy (grants ++ [g]) id = servedBy grants id + if g.id = id then 1 else 0 := by
  by_cases hid : g.id = id <;> simp [servedBy, hid]

theorem servedBy_new (h : ∀ g' ∈ grants, g'.id ≠ g.id) : servedBy (grants ++ [g]) g.id = 1 := by
  have hzero : servedBy grants g.id = 0 := by
    refine List.countP_eq_zero.mpr fun g' hg' => ?_
    simpa using h g' hg'
  simp [servedBy_append, hzero]

/-- The data of a connection agree with the record of its socket. The name of the
upstream is kept in 256 bytes. -/
structure Recorded (grants : List Grant) (c : Conn) (id : ℕ) : Prop where
  opening : ∃ g₀, openingOf grants id = some g₀ ∧ g₀.reused = false ∧
    c.host = g₀.host.take 255 ∧ c.port = g₀.port ∧ c.createdAt = g₀.time
  served : c.requestsServed = servedBy grants id

/-- A socket handed out again: to the upstream it was opened for, young enough, and
for no more requests than are allowed. -/
structure Fair (pool : ConnectionPool.HttpPool) (grants : List Grant) (g : Grant) : Prop where
  opening : ∃ g₀, openingOf grants g.id = some g₀ ∧ g₀.reused = false ∧
    g.host = g₀.host.take 255 ∧ g.port = g₀.port ∧ g.time - g₀.time ≤ pool.maxConnAgeS
  served : (servedBy grants g.id : ℤ) ≤ pool.maxRequestsPerConn

variable {c : Conn} {req : ConnRequest} {pool pool' : ConnectionPool.HttpPool}

theorem Recorded.other (h : Recorded grants c id) (hid : g.id ≠ id) :
    Recorded (grants ++ [g]) c id := by
  obtain ⟨g₀, hopening, hrest⟩ := h.opening
  refine ⟨⟨g₀, openingOf_append hopening, hrest⟩, ?_⟩
  rw [servedBy_append, if_neg hid]
  exact h.served

theorem Recorded.again (h : Recorded grants c g.id) :
    Recorded (grants ++ [g]) (reusedConn req c) g.id := by
  obtain ⟨g₀, hopening, hrest⟩ := h.opening
  refine ⟨⟨g₀, openingOf_append hopening, hrest⟩, ?_⟩
  rw [servedBy_append, if_pos rfl, reusedConn, h.served]
  rfl

theorem recorded_new (fd : ℕ) (keepAlive : Bool) (h : ∀ g' ∈ grants, g'.id ≠ g.id)
    (hreused : g.reused = false) (hhost : g.host = req.host) (hport : g.port = req.port)
    (htime : g.time = req.now) : Recorded (grants ++ [g]) (newConn req fd keepAlive) g.id := by
  refine ⟨⟨g, openingOf_new h, hreused, ?_, hport.symm, htime.symm⟩, ?_⟩
  · rw [hhost]
    rfl
  · rw [servedBy_new h]
    rfl

theorem Fair.append (h : Fair pool grants g) (g' : Grant)
    (hserved : (servedBy (grants ++ [g']) g.id : ℤ) ≤ pool.maxRequestsPerConn) :
    Fair pool (grants ++ [g']) g := by
  obtain ⟨g₀, hopening, hrest⟩ := h.opening
  exact ⟨⟨g₀, openingOf_append hopening, hrest⟩, hserved⟩

theorem Fair.limits (h : Fair pool grants g) (hage : pool'.maxConnAgeS = pool.maxConnAgeS)
    (hrequests : pool'.maxRequestsPerConn = pool.maxRequestsPerConn) : Fair pool' grants g := by
  obtain ⟨hopening, hserved⟩ := h
  rw [← hage] at hopening
  exact ⟨hopening, hrequests ▸ hserved⟩

/-- The request that is now served is one of those allowed. -/
theorem Recorded.served_le (h : Recorded grants c g.id) (hfit : Fit pool req c) :
    (servedBy (grants ++ [g]) g.id : ℤ) ≤ pool.maxRequestsPerConn := by
  have hserved := h.served
  have hspare := hfit.spare
  rw [servedBy_append, if_pos rfl]
  push_cast
  omega

theorem Recorded.fair (h : Recorded grants c g.id) (hfit : Fit pool req c)
    (hhost : g.host = req.host) (hport : g.port = req.port) (htime : g.time = req.now) :
    Fair pool (grants ++ [g]) g := by
  refine ⟨?_, h.served_le hfit⟩
  obtain ⟨g₀, hopening, hreused, hhost₀, hport₀, htime₀⟩ := h.opening
  refine ⟨g₀, openingOf_append hopening, hreused, ?_, ?_, ?_⟩
  · rw [hhost, ← hfit.host, hhost₀]
  · rw [hport, ← hfit.port, hport₀]
  · rw [htime, ← htime₀]
    exact hfit.young

end Record

/-- What acquires and releases keep. -/
structure Kept (b : Books) : Prop where
  base : Base (tableOf b.world)
  settled : Settled (tableOf b.world)
  tidy : Tidy b.world
  overflow : ∀ k c h, Entry b.world (.heap k) c h → c.inUse = true
  granted_lt : ∀ g ∈ b.grants, g.id < b.world.opened
  recorded : ∀ ref c h, Entry b.world ref c h → Recorded b.grants c h.id
  fair : ∀ g ∈ b.grants, g.reused = true → Fair b.world.pool b.grants g
  logged : b.world.stats.acquires = b.grants.length
  counted : b.world.stats.acquires = b.world.stats.creates + b.world.stats.reuses
  tally : ∃ n, Counts (fun call => call.isSome = true) b.world.held n ∧
    b.world.stats.acquires = b.world.stats.releases + n

section Acquire

variable {b : Books} {req : ConnRequest} {w' : PoolWorld}

/-- An acquire that gave no connection. -/
theorem Kept.refused (hb : Kept b) (heffect : Effect b.world req (none, w'))
    (hbase : Base (tableOf w')) (hsettled : Settled (tableOf w')) (hheld : w'.held = b.world.held) :
    Kept ⟨w', b.grants⟩ := by
  have hback (ref : ConnRef) (c : Conn) (h : Handle SocketInfo) (he : Entry w' ref c h) :
      Entry b.world ref c h := by
    rcases heffect.entry ref c h he with ⟨he, -⟩ | ⟨hnone, -⟩
    · exact he
    · contradiction
  obtain ⟨hreleases, hacquires, hsum⟩ := heffect.counted
  obtain ⟨n, hn, hbalance⟩ := hb.tally
  simp only [Option.toList_none, List.length_nil, Nat.add_zero] at hreleases hacquires hsum
  constructor
  · exact hbase
  · exact hsettled
  · exact heffect.tidy hb.tidy
  · intro k c h he
    exact hb.overflow k c h (hback _ c h he)
  · intro g hg
    exact (hb.granted_lt g hg).trans_le heffect.opened
  · intro ref c h he
    exact hb.recorded ref c h (hback ref c h he)
  · intro g hg hreused
    exact (hb.fair g hg hreused).limits heffect.limits.1 heffect.limits.2
  · exact hacquires.trans hb.logged
  · have hcounted := hb.counted
    dsimp only
    omega
  · refine ⟨n, hheld ▸ hn, ?_⟩
    dsimp only
    omega

variable {ref : ConnRef} {c : Conn} {h : Handle SocketInfo}

/-- What the new grant `g` does to the record, when the acquire has given the
connection `c` at `ref`, whose socket is `h`. -/
structure Granted (b : Books) (req : ConnRequest) (w' : PoolWorld) (ref : ConnRef) (c : Conn)
    (h : Handle SocketInfo) (g : Grant) : Prop where
  effect : Effect b.world req (some ref, w')
  entry : Entry w' ref c h
  id : g.id = h.id
  reused : g.reused = decide (h.id < b.world.opened)
  host : g.host = req.host
  port : g.port = req.port
  time : g.time = req.now

variable {g : Grant}

/-- The socket is new, or was idle and fit. -/
theorem Granted.cases (hb : Kept b) (hg : Granted b req w' ref c h g) :
    (g.reused = true ∧ ∃ c₀, Fit b.world.pool req c₀ ∧ Recorded b.grants c₀ g.id ∧
      c = reusedConn req c₀) ∨
    (g.reused = false ∧ g.id = b.world.opened ∧ (∀ g' ∈ b.grants, g'.id ≠ g.id) ∧
      ∃ fd keepAlive, c = newConn req fd keepAlive) := by
  rcases hg.effect.entry ref c h hg.entry with
    ⟨-, hne⟩ | ⟨-, ⟨c₀, hfit, he, hc⟩ | ⟨hid, hc⟩⟩
  · exact absurd rfl hne
  · obtain ⟨fd, -, hh⟩ := he.place
    refine Or.inl ⟨?_, c₀, hfit, ?_, hc⟩
    · rw [hg.reused, decide_eq_true_eq]
      exact hb.base.id_lt fd h hh
    · rw [hg.id]
      exact hb.recorded ref c₀ h he
  · refine Or.inr ⟨?_, hg.id.trans hid, ?_, hc⟩
    · rw [hg.reused, hid]
      simp
    · intro g' hg' hsame
      have hlt := hb.granted_lt g' hg'
      have hgid := hg.id
      omega

theorem Granted.recorded (hb : Kept b) (hg : Granted b req w' ref c h g)
    (hone : ∀ ref' c' h', Entry w' ref' c' h' → h.id = h'.id → ref = ref') (ref' : ConnRef)
    (c' : Conn) (h' : Handle SocketInfo) (he : Entry w' ref' c' h') :
    Recorded (b.grants ++ [g]) c' h'.id := by
  rcases hg.effect.entry ref' c' h' he with ⟨hold, hne⟩ | ⟨href, -⟩
  · -- another connection, so another socket
    refine (hb.recorded ref' c' h' hold).other ?_
    intro hid
    exact hne (congrArg some (hone ref' c' h' he (hg.id.symm.trans hid)))
  · obtain rfl : ref = ref' := Option.some.inj href
    obtain ⟨rfl, rfl⟩ := hg.entry.unique he
    rw [← hg.id]
    rcases hg.cases hb with ⟨-, c₀, -, hrecorded, rfl⟩ | ⟨hreused, -, hnew, fd, keepAlive, rfl⟩
    · exact hrecorded.again
    · exact recorded_new fd keepAlive hnew hreused hg.host hg.port hg.time

theorem Granted.fair (hb : Kept b) (hg : Granted b req w' ref c h g) (g' : Grant)
    (hmem : g' ∈ b.grants ++ [g]) (hreused : g'.reused = true) :
    Fair w'.pool (b.grants ++ [g]) g' := by
  refine Fair.limits ?_ hg.effect.limits.1 hg.effect.limits.2
  rcases List.mem_append.mp hmem with hold | hnew
  · have hfair := hb.fair g' hold hreused
    refine hfair.append g ?_
    by_cases hid : g.id = g'.id
    · rcases hg.cases hb with ⟨-, c₀, hfit, hrecorded, -⟩ | ⟨-, -, hnew, -⟩
      · rw [← hid]
        exact hrecorded.served_le hfit
      · exact absurd hid.symm (hnew g' hold)
    · rw [servedBy_append, if_neg hid]
      exact hfair.served
  · obtain rfl := List.mem_singleton.mp hnew
    rcases hg.cases hb with ⟨-, c₀, hfit, hrecorded, -⟩ | ⟨hfresh, -⟩
    · exact hrecorded.fair hfit hg.host hg.port hg.time
    · rw [hfresh] at hreused
      contradiction

theorem Granted.overflow (hb : Kept b) (hg : Granted b req w' ref c h g) (k : ℕ) (c' : Conn)
    (h' : Handle SocketInfo) (he : Entry w' (.heap k) c' h') : c'.inUse = true := by
  rcases hg.effect.entry _ c' h' he with
    ⟨hold, -⟩ | ⟨-, ⟨c₀, -, -, rfl⟩ | ⟨-, fd, keepAlive, rfl⟩⟩
  · exact hb.overflow k c' h' hold
  · rfl
  · rfl

/-- An acquire that gave a connection to caller `t`. -/
theorem Kept.granted (hb : Kept b) (hg : Granted b req w' ref c h g) (t since : ℕ) (p : Prepared)
    (hheld : w'.held = b.world.held) (hfree : b.world.held t = none)
    (hbase : Base (tableOf (w'.hand t p since ref)))
    (hsettled : Settled (tableOf (w'.hand t p since ref))) :
    Kept ⟨w'.hand t p since ref, b.grants ++ [g]⟩ := by
  have hone (ref' : ConnRef) (c' : Conn) (h' : Handle SocketInfo) (he : Entry w' ref' c' h')
      (hid : h.id = h'.id) : ref = ref' := Entry.ref_eq hbase hg.entry he hid
  obtain ⟨hreleases, hacquires, hsum⟩ := hg.effect.counted
  obtain ⟨n, hn, hbalance⟩ := hb.tally
  simp only [Option.toList_some, List.length_singleton] at hreleases hacquires hsum
  constructor
  · exact hbase
  · exact hsettled
  · exact hg.effect.tidy hb.tidy
  · intro k c' h' he
    exact hg.overflow hb k c' h' he
  · intro g' hg'
    rcases List.mem_append.mp hg' with hold | hnew
    · exact (hb.granted_lt g' hold).trans_le hg.effect.opened
    · obtain ⟨fd, -, hh⟩ := hg.entry.place
      rw [List.mem_singleton.mp hnew, hg.id]
      exact hbase.id_lt fd h hh
  · intro ref' c' h' he
    exact hg.recorded hb hone ref' c' h' he
  · intro g' hg' hreused
    exact hg.fair hb g' hg' hreused
  · have hlogged := hb.logged
    simp only [PoolWorld.hand, List.length_append, List.length_singleton]
    omega
  · have hcounted := hb.counted
    simp only [PoolWorld.hand]
    omega
  · refine ⟨n + 1, ?_, ?_⟩
    · simp only [PoolWorld.hand, hheld]
      exact hn.enter (by simp [hfree]) rfl
    · simp only [PoolWorld.hand]
      omega

end Acquire

theorem acquire_kept (b : Books) (t : ℕ) (p : Prepared) (env : AcquireEnv) (hb : Kept b)
    (hfree : b.world.held t = none) (hfd : fdTaken b.world p env = false) :
    Kept ⟨handResult t p b.world.opened (vwasmHttpPoolAcquire b.world p env),
      b.grants ++ (grantOf b.world ⟨p.host, p.port, p.exempt, env.now⟩
        (vwasmHttpPoolAcquire b.world p env)).toList⟩ := by
  have hmoves := @acquire_moves (fun _ => True) b.world t p hfree hb.base env hfd
  have hbase := hb.base.moves hmoves
  have hsettled := hb.settled.moves hmoves
  have heffect := acquire_effect b.world p env hb.base hfd
  have hheld := (acquire_frame b.world p env).1
  generalize vwasmHttpPoolAcquire b.world p env = r at *
  obtain ⟨_ | ref, w'⟩ := r
  · simp only [grantOf, Option.bind_none, Option.map_none, Option.toList_none, List.append_nil]
    exact hb.refused heffect hbase hsettled hheld
  · -- the caller's connection has a socket, which the grant names
    have hcall : (tableOf (w'.hand t p b.world.opened ref)).held t = some (p.exempt, ref) := by
      simp [tableOf, PoolWorld.hand]
    obtain ⟨fd, hplace⟩ := hbase.held_busy t p.exempt ref hcall
    obtain ⟨h, hh⟩ := Option.ne_none_iff_exists'.mp (hbase.place_open ref fd true hplace)
    obtain ⟨c, he, -⟩ := entry_of_place hplace hh
    have hsocket : w'.socket ref = some h := (socket_of_place w' ref fd true hplace).trans hh
    simp only [grantOf, Option.bind_some, hsocket, Option.map_some, Option.toList_some]
    exact hb.granted ⟨heffect, he, rfl, rfl, rfl, rfl, rfl⟩ t _ p hheld hfree hbase hsettled

theorem release_kept (b : Books) (t : ℕ) (p : Prepared) (ref : ConnRef) (keepAlive : Bool) (now : ℤ)
    (hb : Kept b) (hheld : b.world.held t = some (p, ref)) :
    Kept ⟨vwasmHttpPoolRelease { b.world with held := Function.update b.world.held t none } ref
      keepAlive now, b.grants⟩ := by
  have hmove := @release_moves (fun _ => True) b.world t p ref keepAlive now hb.base hheld
    (fun _ => trivial)
  obtain ⟨fd, hplace⟩ := hb.base.held_busy t p.exempt ref (by simp [tableOf, hheld])
  obtain ⟨h, hh⟩ := Option.ne_none_iff_exists'.mp (hb.base.place_open ref fd true hplace)
  obtain ⟨c, ⟨hc, fd', hfd', hh'⟩, -⟩ := entry_of_place hplace hh
  have hreturned : Returned { b.world with held := Function.update b.world.held t none } _ :=
    release_returned _ ref c fd' keepAlive now hc hfd' (by simp [hh'])
  have hframe := (release_frame { b.world with held := Function.update b.world.held t none } ref
    keepAlive now).1
  obtain ⟨n, hn, hbalance⟩ := hb.tally
  obtain ⟨m, rfl, hm⟩ := hn.leave (t := t) (v := none) (by simp [hheld]) (by simp)
  have hstats := hreturned.counted
  constructor
  · exact hb.base.move hmove
  · exact hb.settled.moves (ReflTransGen.single hmove)
  · exact hreturned.tidy hb.tidy
  · intro k c' h' he
    obtain ⟨c₀, he₀, -, -, -, -, hflag | ⟨i, hslot⟩⟩ := hreturned.entry _ c' h' he
    · rw [hflag]
      exact hb.overflow k c₀ h' he₀
    · contradiction
  · intro g hg
    dsimp only
    rw [hreturned.opened]
    exact hb.granted_lt g hg
  · intro ref' c' h' he
    obtain ⟨c₀, he₀, hhost, hport, htime, hserved, -⟩ := hreturned.entry ref' c' h' he
    obtain ⟨hopening, hcount⟩ := hb.recorded ref' c₀ h' he₀
    rw [← hhost, ← hport, ← htime] at hopening
    exact ⟨hopening, hserved.trans hcount⟩
  · intro g hg hreused
    exact (hb.fair g hg hreused).limits hreturned.limits.1 hreturned.limits.2
  · dsimp only
    rw [hstats]
    exact hb.logged
  · dsimp only
    rw [hstats]
    exact hb.counted
  · refine ⟨m, ?_, ?_⟩
    · dsimp only
      rw [hframe]
      exact hm
    · dsimp only
      rw [hstats]
      dsimp only
      omega

/-- One operation keeps the books. -/
theorem bookCall_kept (b b' : Books) (l : ℕ × BookCall) (h : bookCall b l = some b')
    (hb : Kept b) : Kept b' := by
  obtain ⟨t, call⟩ := l
  cases call with
  | acquire p env =>
    rw [bookCall] at h
    split at h
    · contradiction
    next hready =>
      obtain ⟨hfree, hfd⟩ := acquire_ready hready
      rw [← Option.some.inj h]
      exact acquire_kept b t p env hb hfree hfd
  | release keepAlive now =>
    rcases hheld : b.world.held t with _ | ⟨p, ref⟩
    · simp [bookCall, hheld] at h
    · simp only [bookCall, hheld] at h
      rw [← Option.some.inj h]
      exact release_kept b t p ref keepAlive now hb hheld
  | report host port success now =>
    rw [← Option.some.inj h]
    exact ⟨hb.base, hb.settled, hb.tidy, hb.overflow, hb.granted_lt, hb.recorded, hb.fair,
      hb.logged, hb.counted, hb.tally⟩

theorem newBooks_kept (maxConns defaultTimeoutMs : ℕ) (dnsTtlS : ℤ) (dns : List DnsEntry)
    (breakers : List Breaker) :
    Kept ⟨newWorld maxConns defaultTimeoutMs dnsTtlS dns breakers, []⟩ := by
  have hnone (ref : ConnRef) (c : Conn) (h : Handle SocketInfo)
      (he : Entry (newWorld maxConns defaultTimeoutMs dnsTtlS dns breakers) ref c h) : False := by
    obtain ⟨-, fd, -, hh⟩ := he
    contradiction
  constructor
  · exact newWorld_base maxConns defaultTimeoutMs dnsTtlS dns breakers
  · refine ⟨fun fd h hh => by contradiction, fun r fd hr => ?_⟩
    rw [newWorld_place] at hr
    contradiction
  · exact closedOnce_empty
  · intro k c h he
    exact (hnone _ c h he).elim
  · intro g hg
    exact absurd hg List.not_mem_nil
  · intro ref c h he
    exact (hnone ref c h he).elim
  · intro g hg
    exact absurd hg List.not_mem_nil
  · rfl
  · rfl
  · exact ⟨0, counts_zero (fun t => by simp [newWorld]), rfl⟩

section Places

/-- Caller `t` holds the socket numbered `id`, in a slot or as an overflow connection. -/
def HeldBy (w : PoolWorld) (id t : ℕ) : Prop :=
  ∃ p ref c h, w.held t = some (p, ref) ∧ Entry w ref c h ∧ h.id = id

/-- Idle in one slot, held by one caller, or closed: exactly one of the three. -/
def OnePlace (w : PoolWorld) (id : ℕ) : Prop :=
  ((∃! i, IdleIn w id i) ∧ (∀ t, ¬ HeldBy w id t) ∧ id ∉ closedIds w.closes) ∨
  ((∀ i, ¬ IdleIn w id i) ∧ (∃! t, HeldBy w id t) ∧ id ∉ closedIds w.closes) ∨
  ((∀ i, ¬ IdleIn w id i) ∧ (∀ t, ¬ HeldBy w id t) ∧ id ∈ closedIds w.closes)

variable {b : Books} {ref : ConnRef} {c : Conn} {h : Handle SocketInfo}

theorem Kept.not_closed (hb : Kept b) (he : Entry b.world ref c h) :
    h.id ∉ closedIds b.world.closes := by
  obtain ⟨fd, -, hh⟩ := he.place
  intro hclosed
  exact (hb.tidy.closed_iff h.id (hb.base.id_lt fd h hh)).mp hclosed fd h hh rfl

/-- A connection that a caller holds is in use. -/
theorem Kept.held_inUse (hb : Kept b) (t : ℕ) (p : Prepared)
    (hheld : b.world.held t = some (p, ref)) (he : Entry b.world ref c h) : c.inUse = true := by
  obtain ⟨fd, hbusy⟩ := hb.base.held_busy t p.exempt ref (by simp [tableOf, hheld])
  obtain ⟨fd', hplace, -⟩ := he.place
  rw [hbusy] at hplace
  exact (Prod.mk.inj (Option.some.inj hplace)).2.symm

theorem Kept.idle_unique (hb : Kept b) (id i j : ℕ) (hi : IdleIn b.world id i)
    (hj : IdleIn b.world id j) : j = i := by
  obtain ⟨c, h, he, -, hid⟩ := hi
  obtain ⟨c', h', he', -, hid'⟩ := hj
  exact ConnRef.slot.inj (he'.ref_eq hb.base he (hid'.trans hid.symm))

theorem Kept.held_unique (hb : Kept b) (id t t' : ℕ) (ht : HeldBy b.world id t)
    (ht' : HeldBy b.world id t') : t' = t := by
  obtain ⟨p, ref, c, h, hheld, he, hid⟩ := ht
  obtain ⟨p', ref', c', h', hheld', he', hid'⟩ := ht'
  obtain rfl := he'.ref_eq hb.base he (hid'.trans hid.symm)
  exact hb.base.held_inj t' t p'.exempt p.exempt ref' (by simp [tableOf, hheld'])
    (by simp [tableOf, hheld])

theorem Kept.idle_not_held (hb : Kept b) (id i t : ℕ) (hi : IdleIn b.world id i)
    (ht : HeldBy b.world id t) : False := by
  obtain ⟨c, h, he, hidle, hid⟩ := hi
  obtain ⟨p, ref, c', h', hheld, he', hid'⟩ := ht
  obtain rfl := he'.ref_eq hb.base he (hid'.trans hid.symm)
  obtain ⟨rfl, -⟩ := he'.unique he
  rw [hb.held_inUse t p hheld he'] at hidle
  contradiction

/-- An open socket is idle in a slot or held by a caller. -/
theorem Kept.idle_or_held (hb : Kept b) (fd : ℕ) (hh : b.world.kernel fd = some h) :
    (∃ i, IdleIn b.world h.id i) ∨ ∃ t, HeldBy b.world h.id t := by
  obtain ⟨ref, busy, hplace⟩ := hb.settled.placed fd h hh
  obtain ⟨c, he, hbusy⟩ := entry_of_place hplace hh
  cases busy with
  | false =>
    cases ref with
    | slot i => exact Or.inl ⟨i, c, h, he, hbusy, rfl⟩
    | heap k =>
      rw [hb.overflow k c h he] at hbusy
      contradiction
  | true =>
    obtain ⟨t, shares, hheld⟩ := hb.settled.owned ref fd hplace
    obtain ⟨⟨p, ref'⟩, hcall, heq⟩ := Option.map_eq_some_iff.mp hheld
    obtain rfl : ref' = ref := (Prod.mk.inj heq).2
    exact Or.inr ⟨t, p, ref', c, h, hcall, he, rfl⟩

theorem Kept.onePlace (hb : Kept b) (id : ℕ) (hid : id < b.world.opened) : OnePlace b.world id := by
  by_cases hclosed : id ∈ closedIds b.world.closes
  · refine Or.inr (Or.inr ⟨?_, ?_, hclosed⟩)
    · rintro i ⟨c, h, he, -, rfl⟩
      exact hb.not_closed he hclosed
    · rintro t ⟨p, ref, c, h, -, he, rfl⟩
      exact hb.not_closed he hclosed
  · have hopen := hclosed
    rw [hb.tidy.closed_iff id hid] at hopen
    push Not at hopen
    obtain ⟨fd, h, hh, rfl⟩ := hopen
    rcases hb.idle_or_held fd hh with ⟨i, hi⟩ | ⟨t, ht⟩
    · exact Or.inl ⟨⟨i, hi, fun j hj => hb.idle_unique h.id i j hi hj⟩,
        fun t ht => hb.idle_not_held h.id i t hi ht, hclosed⟩
    · exact Or.inr (Or.inl ⟨fun i hi => hb.idle_not_held h.id i t hi ht,
        ⟨t, ht, fun t' ht' => hb.held_unique h.id t t' ht ht'⟩, hclosed⟩)

end Places

/-- An acquire closes only what is idle in a slot, or the socket it has just
opened and has no memory for. -/
theorem acquire_closes (b b' : Books) (t : ℕ) (p : Prepared) (env : AcquireEnv) (hb : Kept b)
    (hcall : bookCall b (t, .acquire p env) = some b') (id : ℕ)
    (hid : id ∈ closedIds b'.world.closes) (hbefore : id ∉ closedIds b.world.closes) :
    (∃ i, IdleIn b.world id i) ∨ (b'.world.held t = none ∧ id = b.world.opened) := by
  rw [bookCall] at hcall
  split at hcall
  · contradiction
  next hready =>
    obtain ⟨hfree, hfd⟩ := acquire_ready hready
    obtain rfl := Option.some.inj hcall
    obtain ⟨new, hcloses, hnew⟩ := (acquire_effect b.world p env hb.base hfd).closed
    have hheld := (acquire_frame b.world p env).1
    generalize vwasmHttpPoolAcquire b.world p env = r at *
    have hsame : (handResult t p b.world.opened r).closes = r.2.closes := by
      obtain ⟨_ | ref, w'⟩ := r <;> rfl
    dsimp only at hid
    rw [hsame, hcloses, closedIds, List.filterMap_append] at hid
    obtain ⟨x, hx, hxid⟩ := List.mem_filterMap.mp ((List.mem_append.mp hid).resolve_left hbefore)
    obtain ⟨h, rfl, rfl⟩ := Option.map_eq_some_iff.mp hxid
    rcases hnew h hx with hidle | ⟨hnone, hlast, -⟩
    · exact Or.inl hidle
    · obtain ⟨o, w'⟩ := r
      dsimp only at hnone
      subst hnone
      exact Or.inr ⟨(congrFun hheld t).trans hfree, hlast⟩

/-- The host names that reach the pool: the caller's buffer has 256 bytes. -/
theorem prepare_host_lt (hasPool : Bool) (ctx : ProxyContext.ProxyCtx) (mem : Bytes)
    (args : HttpCallArgs) (p : Prepared) (hp : prepare hasPool ctx mem args = .ok p) :
    p.host.length < 256 := by
  obtain ⟨upstream, -, hparse, -, -⟩ := prepare_ok hasPool ctx mem args p hp
  exact (HttpText.pwHttpParseUpstream_bounds upstream p.host 256 p.port hparse).1

/-- What the books show at any moment. A host name of 256 bytes or more, which no
caller passes, would be kept cut. -/
structure Booked (b : Books) : Prop where
  onePlace : ∀ id < b.world.opened, OnePlace b.world id
  closedOnce : (∀ met ∈ b.world.closes, met ≠ none) ∧ (closedIds b.world.closes).Nodup
  reuse : ∀ g ∈ b.grants, g.reused = true →
    ∃ g₀, openingOf b.grants g.id = some g₀ ∧ g₀.reused = false ∧
      (g₀.host.length < 256 → g.host = g₀.host) ∧ g.port = g₀.port ∧
      g.time - g₀.time ≤ b.world.pool.maxConnAgeS ∧
      servedBy b.grants g.id ≤ b.world.pool.maxRequestsPerConn
  evicted : ∀ t p env b', bookCall b (t, .acquire p env) = some b' →
    ∀ id ∈ closedIds b'.world.closes, id ∉ closedIds b.world.closes →
      (∃ i, IdleIn b.world id i) ∨ (b'.world.held t = none ∧ id = b.world.opened)
  acquires : b.world.stats.acquires = b.grants.length ∧
    b.world.stats.acquires = b.world.stats.creates + b.world.stats.reuses
  held : {t | (b.world.held t).isSome}.Finite ∧
    b.world.stats.acquires = b.world.stats.releases + {t | (b.world.held t).isSome}.ncard

theorem Kept.booked {b : Books} (hb : Kept b) : Booked b where
  onePlace := hb.onePlace
  closedOnce := ⟨hb.tidy.met, hb.tidy.once⟩
  reuse g hg hreused := by
    obtain ⟨⟨g₀, hopening, hfresh, hhost, hrest⟩, hserved⟩ := hb.fair g hg hreused
    refine ⟨g₀, hopening, hfresh, ?_, hrest.1, hrest.2, hserved⟩
    intro hfits
    rw [hhost, List.take_of_length_le (by omega)]
  evicted t p env b' hcall := acquire_closes b b' t p env hb hcall
  acquires := ⟨hb.logged, hb.counted⟩
  held := by
    obtain ⟨n, hn, hbalance⟩ := hb.tally
    exact ⟨hn.finite, hbalance.trans (by rw [hn.card])⟩

/-- However callers acquire and release connections one after another, whatever the
clock, the resolver, the connects and the liveness of sockets: at each moment every
socket opened is idle in one slot, held by one caller or closed, closed once;
sockets are reused and evicted as they should be, and the counters agree. -/
theorem booked_of_run (maxConns defaultTimeoutMs : ℕ) (dnsTtlS : ℤ) (dns : List DnsEntry)
    (breakers : List Breaker) (calls : List (ℕ × BookCall)) (b : Books)
    (hrun : Run (fun b l b' => bookCall b l = some b')
      ⟨newWorld maxConns defaultTimeoutMs dnsTtlS dns breakers, []⟩ calls b) : Booked b := by
  have hkept : Kept b := hrun.invariant Kept (fun b l b' hcall hb => bookCall_kept b b' l hcall hb)
    (newBooks_kept maxConns defaultTimeoutMs dnsTtlS dns breakers)
  exact hkept.booked

/-- A pool of one slot: the connection to `a` is kept and reused; meanwhile `b` gets
an overflow connection, and later the slot of the idle one. -/
def mixedCalls : List (ℕ × BookCall) :=
  [(0, .acquire (callTo (ascii "a") true) { answer := some (ipv4 8 8 8 8 80), fd := some 5 }),
    (0, .release true 1),
    (1, .acquire (callTo (ascii "a") true) { now := 2 }),
    (2, .acquire (callTo (ascii "b") true)
      { now := 3, answer := some (ipv4 8 8 4 4 80), fd := some 6 }),
    (1, .release true 4),
    (2, .release true 5),
    (3, .acquire (callTo (ascii "b") true) { now := 6, fd := some 6 })]

theorem mixedCalls_booked :
    ∃ b, exec bookCall ⟨newWorld 1 1000 60 [] [], []⟩ mixedCalls = some b ∧
      b.grants.map (fun g => (g.id, g.reused)) = [(0, false), (0, true), (1, false), (2, false)] ∧
      closedIds b.world.closes = [1, 0] ∧ b.world.stats = ⟨4, 3, 3, 1, 1⟩ ∧ Booked b := by
  obtain ⟨b, hb⟩ := Option.isSome_iff_exists.mp
    (show (exec bookCall ⟨newWorld 1 1000 60 [] [], []⟩ mixedCalls).isSome by decide +kernel)
  have hfacts : (exec bookCall ⟨newWorld 1 1000 60 [] [], []⟩ mixedCalls).map (fun b =>
      (b.grants.map (fun g => (g.id, g.reused)), closedIds b.world.closes, b.world.stats)) =
      some ([(0, false), (0, true), (1, false), (2, false)], [1, 0], ⟨4, 3, 3, 1, 1⟩) := by
    decide +kernel
  simp only [hb, Option.map_some, Option.some.injEq, Prod.mk.injEq] at hfacts
  exact ⟨b, hb, hfacts.1, hfacts.2.1, hfacts.2.2,
    booked_of_run 1 1000 60 [] [] mixedCalls b (Run.of_exec hb)⟩

end VmodWasm.PoolBooks
