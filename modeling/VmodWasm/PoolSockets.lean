import VmodWasm.Lib.Closings
import VmodWasm.PoolTable

/-!
What an acquire and a release do to the sockets behind the connections: which
connection each open socket belongs to afterwards, which sockets were closed on
the way, and what was counted. An acquire scans for an idle connection and, if
it finds none, connects and finds a place; each part has its effect, and the
effects compose.
-/
namespace VmodWasm.PoolSockets

open ByteStrings HttpCall CircuitBreaker ConnectionPool HttpPool PoolTable
open Lib.Handles Lib.Closings

/-- Connection `c`, to which `ref` points, has the open socket `h`. -/
def Entry (w : PoolWorld) (ref : ConnRef) (c : Conn) (h : Handle SocketInfo) : Prop :=
  w.pool.conn ref = some c ∧ ∃ fd, c.fd = some fd ∧ w.kernel fd = some h

/-- The socket numbered `id` is idle in slot `i`. -/
def IdleIn (w : PoolWorld) (id i : ℕ) : Prop :=
  ∃ c h, Entry w (.slot i) c h ∧ c.inUse = false ∧ h.id = id

/-- No socket was closed twice, and no descriptor that was not open. -/
abbrev Tidy (w : PoolWorld) : Prop := ClosedOnce w.kernel w.opened w.closes

section Entries

variable {w w' : PoolWorld} {ref ref' : ConnRef} {c c' : Conn} {h h' : Handle SocketInfo}

theorem Entry.place (he : Entry w ref c h) :
    ∃ fd, (tableOf w).place ref = some (fd, c.inUse) ∧ w.kernel fd = some h := by
  obtain ⟨hc, fd, hfd, hh⟩ := he
  exact ⟨fd, by simp [tableOf, hc, placeOf, hfd], hh⟩

theorem entry_of_place {fd : ℕ} {busy : Bool} (hplace : (tableOf w).place ref = some (fd, busy))
    (hh : w.kernel fd = some h) : ∃ c, Entry w ref c h ∧ c.inUse = busy := by
  obtain ⟨c, hc, hplace⟩ := Option.bind_eq_some_iff.mp hplace
  obtain ⟨fd', hfd, heq⟩ := Option.map_eq_some_iff.mp hplace
  obtain ⟨rfl, hbusy⟩ := Prod.mk.inj heq
  exact ⟨c, ⟨hc, fd', hfd, hh⟩, hbusy⟩

theorem idleIn_of_place {fd i : ℕ} (hplace : (tableOf w).place (.slot i) = some (fd, false))
    (hh : w.kernel fd = some h) : IdleIn w h.id i := by
  obtain ⟨c, he, hidle⟩ := entry_of_place hplace hh
  exact ⟨c, h, he, hidle, rfl⟩

/-- A socket belongs to one connection. -/
theorem Entry.ref_eq (hs : Base (tableOf w)) (he : Entry w ref c h) (he' : Entry w ref' c' h')
    (hid : h.id = h'.id) : ref = ref' := by
  obtain ⟨fd, hplace, hh⟩ := he.place
  obtain ⟨fd', hplace', hh'⟩ := he'.place
  obtain rfl := hs.id_inj fd fd' h h' hh hh' hid
  exact hs.place_inj ref ref' fd _ _ hplace hplace'

theorem Entry.unique (he : Entry w ref c h) (he' : Entry w ref c' h') : c = c' ∧ h = h' := by
  obtain ⟨hc, fd, hfd, hh⟩ := he
  obtain ⟨hc', fd', hfd', hh'⟩ := he'
  obtain rfl : c = c' := Option.some.inj (hc.symm.trans hc')
  obtain rfl : fd = fd' := Option.some.inj (hfd.symm.trans hfd')
  exact ⟨rfl, Option.some.inj (hh.symm.trans hh')⟩

/-- A store to one connection, with no new socket. -/
theorem entry_update (o : Option Conn) (hconn : w'.pool.conn = Function.update w.pool.conn ref o)
    (hkernel : ∀ fd h, w'.kernel fd = some h → w.kernel fd = some h) (he : Entry w' ref' c h) :
    (ref' ≠ ref ∧ Entry w ref' c h) ∨
      (ref' = ref ∧ o = some c ∧ ∃ fd, c.fd = some fd ∧ w.kernel fd = some h) := by
  obtain ⟨hc, fd, hfd, hh⟩ := he
  rw [hconn] at hc
  rcases update_some _ _ _ _ _ hc with ⟨href, heq⟩ | ⟨hne, hc⟩
  · exact Or.inr ⟨href, heq, fd, hfd, hkernel fd h hh⟩
  · exact Or.inl ⟨hne, hc, fd, hfd, hkernel fd h hh⟩

theorem closeFds_kernel {fds : List ℕ} {fd : ℕ} (hh : (w.closeFds fds).kernel fd = some h) :
    w.kernel fd = some h ∧ fd ∉ fds := by
  change (if fd ∈ fds then none else w.kernel fd) = some h at hh
  split at hh
  · contradiction
  next hout => exact ⟨hh, hout⟩

end Entries

/-- What an acquire for `req`, or a part of it, has done when it gives back a
connection or none. -/
structure Effect (w : PoolWorld) (req : ConnRequest) (r : Option ConnRef × PoolWorld) : Prop where
  entry : ∀ ref c h, Entry r.2 ref c h → (Entry w ref c h ∧ r.1 ≠ some ref) ∨
    (r.1 = some ref ∧ ((∃ c₀, Fit w.pool req c₀ ∧ Entry w ref c₀ h ∧ c = reusedConn req c₀) ∨
      (h.id = w.opened ∧ ∃ fd keepAlive, c = newConn req fd keepAlive)))
  tidy : Tidy w → Tidy r.2
  closed : ∃ new, r.2.closes = w.closes ++ new ∧
    ∀ h, some h ∈ new → (∃ i, IdleIn w h.id i) ∨
      (r.1 = none ∧ h.id = w.opened ∧ w.opened < r.2.opened)
  opened : w.opened ≤ r.2.opened
  limits : r.2.pool.maxConnAgeS = w.pool.maxConnAgeS ∧
    r.2.pool.maxRequestsPerConn = w.pool.maxRequestsPerConn
  counted : r.2.stats.releases = w.stats.releases ∧
    r.2.stats.acquires = w.stats.acquires + r.1.toList.length ∧
    r.2.stats.creates + r.2.stats.reuses =
      w.stats.creates + w.stats.reuses + r.1.toList.length

section Effects

variable (w w' : PoolWorld) (req : ConnRequest)

/-- Breakers and the DNS cache are no matter. -/
theorem Effect.still (hpool : w'.pool = w.pool) (hkernel : w'.kernel = w.kernel)
    (hopened : w'.opened = w.opened) (hcloses : w'.closes = w.closes)
    (hstats : w'.stats = w.stats) : Effect w req (none, w') := by
  constructor
  · intro ref c h he
    rw [Entry, hpool, hkernel] at he
    exact Or.inl ⟨he, by simp⟩
  · intro htidy
    rwa [Tidy, hkernel, hopened, hcloses]
  · exact ⟨[], by simp [hcloses], by simp⟩
  · exact hopened.ge
  · exact ⟨by rw [hpool], by rw [hpool]⟩
  · simp [hstats]

variable {w w' req}

/-- A part that gives no connection and opens no socket, and then another. -/
theorem Effect.trans {r : Option ConnRef × PoolWorld} (h₁ : Effect w req (none, w'))
    (hopened : w'.opened = w.opened) (h₂ : Effect w' req r) : Effect w req r := by
  have hback (ref : ConnRef) (c : Conn) (h : Handle SocketInfo) (he : Entry w' ref c h) :
      Entry w ref c h := by
    rcases h₁.entry ref c h he with ⟨he, -⟩ | ⟨hnone, -⟩
    · exact he
    · contradiction
  constructor
  · intro ref c h he
    rcases h₂.entry ref c h he with ⟨he, hne⟩ | ⟨href, ⟨c₀, hfit, he, hc⟩ | ⟨hid, hnew⟩⟩
    · exact Or.inl ⟨hback ref c h he, hne⟩
    · refine Or.inr ⟨href, Or.inl ⟨c₀, ⟨hfit.exempt, hfit.idle, hfit.connected, hfit.host,
        hfit.port, ?_, ?_⟩, hback ref c₀ h he, hc⟩⟩
      · rw [← h₁.limits.1]
        exact hfit.young
      · rw [← h₁.limits.2]
        exact hfit.spare
    · exact Or.inr ⟨href, Or.inr ⟨hid.trans hopened, hnew⟩⟩
  · exact fun htidy => h₂.tidy (h₁.tidy htidy)
  · obtain ⟨new₁, hcloses₁, hnew₁⟩ := h₁.closed
    obtain ⟨new₂, hcloses₂, hnew₂⟩ := h₂.closed
    refine ⟨new₁ ++ new₂, by rw [hcloses₂, hcloses₁, List.append_assoc], ?_⟩
    intro h hmem
    rcases List.mem_append.mp hmem with hmem | hmem
    · rcases hnew₁ h hmem with hidle | ⟨-, -, hlt⟩
      · exact Or.inl hidle
      · exact absurd hopened hlt.ne'
    · rcases hnew₂ h hmem with ⟨i, c, g, he, hidle, hid⟩ | ⟨hnone, hid, hlt⟩
      · exact Or.inl ⟨i, c, g, hback _ c g he, hidle, hid⟩
      · exact Or.inr ⟨hnone, hid.trans hopened, hopened ▸ hlt⟩
  · exact h₁.opened.trans h₂.opened
  · exact ⟨h₂.limits.1.trans h₁.limits.1, h₂.limits.2.trans h₁.limits.2⟩
  · obtain ⟨hrel₁, hacq₁, hsum₁⟩ := h₁.counted
    obtain ⟨hrel₂, hacq₂, hsum₂⟩ := h₂.counted
    refine ⟨hrel₂.trans hrel₁, ?_, ?_⟩
    · rw [hacq₂, hacq₁]
      rfl
    · rw [hsum₂, hsum₁]
      rfl

end Effects

section Scan

variable (w : PoolWorld) (req : ConnRequest) (alive : ℕ → Bool)

/-- What the scan leaves to a socket's connection. -/
theorem scanned_entry (ref : ConnRef) (c : Conn) (h : Handle SocketInfo)
    (he : Entry (scanned w req alive) ref c h) :
    (Entry w ref c h ∧ (reuseScan w.pool req alive w.pool.conns).1.map ConnRef.slot ≠ some ref) ∨
      ((reuseScan w.pool req alive w.pool.conns).1.map ConnRef.slot = some ref ∧
        ∃ c₀, Fit w.pool req c₀ ∧ Entry w ref c₀ h ∧ c = reusedConn req c₀) := by
  obtain ⟨hc, fd, hfd, hh⟩ := he
  have hh := (closeFds_kernel hh).1
  cases ref with
  | heap k => exact Or.inl ⟨⟨hc, fd, hfd, hh⟩, by simp⟩
  | slot j =>
    obtain ⟨hlen, hat⟩ := reuseScan_at w.pool req alive w.pool.conns
    obtain ⟨hj, -⟩ := List.getElem?_eq_some_iff.mp hc
    have hj : j < w.pool.conns.length := hlen ▸ hj
    obtain ⟨c', hc', hcases⟩ := hat j w.pool.conns[j] (List.getElem?_eq_getElem hj)
    obtain rfl : c' = c := Option.some.inj (hc'.symm.trans hc)
    rcases hcases with ⟨hne, hsame | ⟨hclosed, -⟩⟩ | ⟨htaken, hfit, hreused⟩
    · refine Or.inl ⟨⟨?_, fd, hfd, hh⟩, by simpa using hne⟩
      rw [hsame]
      exact List.getElem?_eq_getElem hj
    · rw [hclosed] at hfd
      contradiction
    · refine Or.inr ⟨by simp [htaken], _, hfit, ⟨List.getElem?_eq_getElem hj, fd, ?_, hh⟩, hreused⟩
      rw [hreused] at hfd
      exact hfd

variable (hs : Base (tableOf w))

include hs

/-- No two slots have one descriptor. -/
theorem closedBy_nodup (after : List Conn) : (closedBy w.pool.conns after).Nodup := by
  rw [closedBy, List.Nodup, List.pairwise_filterMap, List.pairwise_iff_getElem]
  intro i j hi hj hij fd hfd fd' hfd' heq
  subst heq
  simp only [List.length_zip, Nat.lt_min] at hi hj
  have hplace (k : ℕ) (hk : k < w.pool.conns.length) (hk' : k < after.length)
      (hfd : (if after[k].fd.isNone then w.pool.conns[k].fd else none) = some fd) :
      (tableOf w).place (.slot k) = some (fd, w.pool.conns[k].inUse) := by
    split at hfd
    · simp [place_slot, List.getElem?_eq_getElem hk, placeOf, hfd]
    · contradiction
  simp only [List.getElem_zip] at hfd hfd'
  have hsame := hs.place_inj (.slot i) (.slot j) fd _ _ (hplace i hi.1 hi.2 hfd)
    (hplace j hj.1 hj.2 hfd')
  exact hij.ne (ConnRef.slot.inj hsame)

theorem scanned_tidy (htidy : Tidy w) : Tidy (scanned w req alive) := by
  refine htidy.close _ (closedBy_nodup w hs _) ?_
  intro fd hfd
  obtain ⟨j, hplace, -⟩ := closedBy_idle w req alive fd hfd
  exact hs.place_open _ fd false hplace

/-- The scan, which may have found a connection. -/
theorem scanned_effect (stats : PoolStats) (hreleases : stats.releases = w.stats.releases)
    (hacquires : stats.acquires = w.stats.acquires +
      (reuseScan w.pool req alive w.pool.conns).1.toList.length)
    (hsum : stats.creates + stats.reuses = w.stats.creates + w.stats.reuses +
      (reuseScan w.pool req alive w.pool.conns).1.toList.length) :
    Effect w req ((reuseScan w.pool req alive w.pool.conns).1.map ConnRef.slot,
      { scanned w req alive with stats := stats }) := by
  have hlength : ((reuseScan w.pool req alive w.pool.conns).1.map ConnRef.slot).toList.length =
      (reuseScan w.pool req alive w.pool.conns).1.toList.length := by
    cases (reuseScan w.pool req alive w.pool.conns).1 <;> rfl
  constructor
  · intro ref c h he
    rcases scanned_entry w req alive ref c h he with hold | ⟨href, hreused⟩
    · exact Or.inl hold
    · exact Or.inr ⟨href, Or.inl hreused⟩
  · exact scanned_tidy w req alive hs
  · refine ⟨_, rfl, ?_⟩
    intro h hmem
    obtain ⟨fd, hfd, hh⟩ := List.mem_map.mp hmem
    obtain ⟨j, hplace, -⟩ := closedBy_idle w req alive fd hfd
    exact Or.inl ⟨j, idleIn_of_place hplace hh⟩
  · exact le_rfl
  · exact ⟨rfl, rfl⟩
  · rw [hlength]
    exact ⟨hreleases, hacquires, hsum⟩

end Scan

section Create

variable {w w' : PoolWorld} {req : ConnRequest} {fd : ℕ} {info : SocketInfo}

variable {gone : List ℕ}

/-- A socket that is still open is the new one, or was there before. -/
theorem connected_socket (hw : Connected w fd info gone w') (fd' : ℕ) (h : Handle SocketInfo)
    (hh : w'.kernel fd' = some h) :
    fd' ∉ gone ∧ ((fd' = fd ∧ h = ⟨w.opened, info⟩) ∨ (fd' ≠ fd ∧ w.kernel fd' = some h)) := by
  rw [hw.kernel] at hh
  dsimp only at hh
  split at hh
  · contradiction
  next hout =>
    refine ⟨hout, ?_⟩
    rcases update_some _ _ _ _ _ hh with ⟨hfd, heq⟩ | hold
    · exact Or.inl ⟨hfd, (Option.some.inj heq).symm⟩
    · exact Or.inr hold

theorem connected_tidy (hw : Connected w fd info gone w') (hfd : w.kernel fd = none)
    (hnodup : gone.Nodup) (hopen : ∀ old ∈ gone, old = fd ∨ w.kernel old ≠ none) (htidy : Tidy w) :
    Tidy w' := by
  rw [Tidy, hw.kernel, hw.opened, hw.closes]
  refine (htidy.openHandle fd info hfd).close gone hnodup ?_
  intro old hold
  by_cases hnew : old = fd
  · subst hnew
    simp
  · rw [Function.update_of_ne hnew]
    exact (hopen old hold).resolve_left hnew

/-- A connection's socket, from before the connect. -/
theorem connected_entry (hw : Connected w fd info gone w') (hs : Base (tableOf w))
    (hfd : w.kernel fd = none) {ref : ConnRef} {c : Conn} {h : Handle SocketInfo}
    (hconn : w'.pool.conn ref = w.pool.conn ref) (he : Entry w' ref c h) : Entry w ref c h := by
  obtain ⟨hc, fd', hfd', hh⟩ := he
  rw [hconn] at hc
  rcases (connected_socket hw fd' h hh).2 with ⟨rfl, -⟩ | ⟨-, hh⟩
  · have hplace : (tableOf w).place ref = some (fd', c.inUse) := by
      simp [tableOf, hc, placeOf, hfd']
    exact absurd hfd (hs.place_open ref fd' c.inUse hplace)
  · exact ⟨hc, fd', hfd', hh⟩

/-- No memory for an overflow connection: the socket is closed again. -/
theorem abandoned_effect (hw : Connected w fd info [fd] w') (hs : Base (tableOf w))
    (hfd : w.kernel fd = none) (hpool : w'.pool = w.pool) (hstats : w'.stats = w.stats) :
    Effect w req (none, w') := by
  constructor
  · intro ref c h he
    exact Or.inl ⟨connected_entry hw hs hfd (by rw [hpool]) he, by simp⟩
  · exact connected_tidy hw hfd (List.nodup_singleton fd) (by simp)
  · refine ⟨_, hw.closes, ?_⟩
    intro h hmem
    obtain rfl : h = ⟨w.opened, info⟩ := by simpa using hmem
    refine Or.inr ⟨rfl, rfl, ?_⟩
    rw [hw.opened]
    exact Nat.lt_succ_self _
  · rw [hw.opened]
    exact Nat.le_succ _
  · exact ⟨by rw [hpool], by rw [hpool]⟩
  · simp [hstats]

/-- The new connection has a place, for which an idle one may have been closed. -/
theorem placed_effect {ref : ConnRef} (hw : Placed w req fd info ref w') (hs : Base (tableOf w))
    (hfd : w.kernel fd = none) : Effect w req (some ref, w') := by
  obtain ⟨keepAlive, hconn⟩ := hw.conn
  obtain ⟨gone, hconnected, hvacated⟩ := hw.connected
  have hopen (old : ℕ) (hmem : old ∈ gone) : w.kernel old ≠ none :=
    hs.place_open ref old false (hvacated.idle old hmem).1
  constructor
  · intro ref' c h he
    by_cases href : ref' = ref
    · subst href
      obtain ⟨hc, fd', hfd', hh⟩ := he
      rw [hconn, Function.update_self] at hc
      obtain rfl := Option.some.inj hc
      obtain rfl : fd = fd' := Option.some.inj hfd'
      refine Or.inr ⟨rfl, Or.inr ⟨?_, fd, keepAlive, rfl⟩⟩
      rcases (connected_socket hconnected fd h hh).2 with ⟨-, rfl⟩ | ⟨hne, -⟩
      · rfl
      · exact absurd rfl hne
    · have hsame : w'.pool.conn ref' = w.pool.conn ref' := by
        rw [hconn, Function.update_of_ne href]
      exact Or.inl ⟨connected_entry hconnected hs hfd hsame he, by simpa using Ne.symm href⟩
  · exact connected_tidy hconnected hfd hvacated.nodup fun old hmem => Or.inr (hopen old hmem)
  · refine ⟨_, hconnected.closes, ?_⟩
    intro h hmem
    obtain ⟨old, hevicted, hh⟩ := List.mem_map.mp hmem
    obtain ⟨hplace, i, rfl⟩ := hvacated.idle old hevicted
    have hne : old ≠ fd := by
      intro hsame
      exact hopen old hevicted (hsame ▸ hfd)
    rw [Function.update_of_ne hne] at hh
    exact Or.inl ⟨i, idleIn_of_place hplace hh⟩
  · rw [hconnected.opened]
    exact Nat.le_succ _
  · exact hw.limits
  · exact hw.counted

variable (w req)

theorem createConn_effect (hs : Base (tableOf w)) (timeoutMs : ℕ) (env : AcquireEnv)
    (hfd : env.fd.bind w.kernel = none) : Effect w req (createConn w req timeoutMs env) := by
  have hdns (dns : List DnsEntry) : Effect w req (none, { w with dns := dns }) :=
    Effect.still w _ req rfl rfl rfl rfl rfl
  unfold createConn
  dsimp only
  set resolved := vwasmHttpPoolResolve w.dns w.dnsTtlS env.dnsNow req.host req.port env.answer
  split
  · exact hdns resolved.2
  next addr _ =>
    split
    · exact hdns resolved.2
    · rcases hconnect : env.fd with _ | fd
      · exact hdns resolved.2
      · rw [hconnect] at hfd
        refine (hdns resolved.2).trans rfl ?_
        dsimp only
        rcases placeConn_cases { w with dns := resolved.2 } req fd addr timeoutMs env.alloc with
          ⟨ref, w', heq, hplaced⟩ | ⟨w', heq, hconnected, hpool, hstats⟩
        · rw [heq]
          exact placed_effect hplaced hs hfd
        · rw [heq]
          exact abandoned_effect hconnected hs hfd hpool hstats

end Create

/-- What an acquire does, with any descriptor that is free when it connects. -/
theorem acquire_effect (w : PoolWorld) (p : Prepared) (env : AcquireEnv) (hs : Base (tableOf w))
    (hfd : fdTaken w p env = false) :
    Effect w ⟨p.host, p.port, p.exempt, env.now⟩ (vwasmHttpPoolAcquire w p env) := by
  unfold vwasmHttpPoolAcquire
  dsimp only
  set allowed := vwasmHttpPoolCbAllow w.breakers p.host p.port env.cbNow
  have hallowed : Effect w ⟨p.host, p.port, p.exempt, env.now⟩
      (none, { w with breakers := allowed.2 }) := Effect.still w _ _ rfl rfl rfl rfl rfl
  by_cases hallow : (!allowed.1) = true
  · rw [if_pos hallow]
    exact hallowed
  · rw [if_neg hallow]
    refine hallowed.trans rfl ?_
    have hscanned := scanned_effect { w with breakers := allowed.2 }
      ⟨p.host, p.port, p.exempt, env.now⟩ env.alive hs
    rcases hscan : (reuseScan w.pool ⟨p.host, p.port, p.exempt, env.now⟩ env.alive
      w.pool.conns).1 with _ | i
    · rw [hscan] at hscanned
      have hbase : Base (tableOf (scanned { w with breakers := allowed.2 }
          ⟨p.host, p.port, p.exempt, env.now⟩ env.alive)) :=
        hs.move (@scanned_close (fun _ => True) { w with breakers := allowed.2 } _ env.alive
          hs hscan)
      refine (hscanned w.stats rfl rfl rfl).trans rfl ?_
      exact createConn_effect (scanned { w with breakers := allowed.2 } _ env.alive) _ hbase _ env
        (Option.isNone_iff_eq_none.mp (Option.isSome_eq_false_iff.mp hfd))
    · rw [hscan] at hscanned
      exact hscanned _ rfl rfl rfl

/-- What a release has done: the connection is idle or gone, and the others are as
they were. -/
structure Returned (w w' : PoolWorld) : Prop where
  entry : ∀ ref c h, Entry w' ref c h → ∃ c₀, Entry w ref c₀ h ∧
    c.host = c₀.host ∧ c.port = c₀.port ∧ c.createdAt = c₀.createdAt ∧
    c.requestsServed = c₀.requestsServed ∧ (c.inUse = c₀.inUse ∨ ∃ i, ref = .slot i)
  tidy : Tidy w → Tidy w'
  opened : w'.opened = w.opened
  limits : w'.pool.maxConnAgeS = w.pool.maxConnAgeS ∧
    w'.pool.maxRequestsPerConn = w.pool.maxRequestsPerConn
  counted : w'.stats = { w.stats with releases := w.stats.releases + 1 }

/-- Whatever the flag it is given, a release of a connection with a socket. -/
theorem release_returned (w : PoolWorld) (ref : ConnRef) (c : Conn) (fd : ℕ) (keepAlive : Bool)
    (now : ℤ) (hc : w.pool.conn ref = some c) (hfd : c.fd = some fd) (hopen : w.kernel fd ≠ none) :
    Returned w (vwasmHttpPoolRelease w ref keepAlive now) := by
  have hreleased := release_released w ref c fd keepAlive now hc hfd
  refine ⟨?_, ?_, hreleased.opened, hreleased.limits, hreleased.counted⟩
  · intro ref' c' h he
    rcases hreleased.conn with ⟨o, ho, hconn, hkernel, -⟩ | ⟨-, ⟨i, rfl⟩, hconn, hkernel, -⟩
    · have hsub (fd' : ℕ) (g : Handle SocketInfo)
          (hg : (vwasmHttpPoolRelease w ref keepAlive now).kernel fd' = some g) :
          w.kernel fd' = some g := (closeFds_kernel (hkernel ▸ hg)).1
      rcases entry_update o hconn hsub he with ⟨-, he⟩ | ⟨-, heq, fd', hfd', -⟩
      · exact ⟨c', he, rfl, rfl, rfl, rfl, Or.inl rfl⟩
      · rw [ho c' heq] at hfd'
        contradiction
    · have hsub (fd' : ℕ) (g : Handle SocketInfo)
          (hg : (vwasmHttpPoolRelease w (.slot i) keepAlive now).kernel fd' = some g) :
          w.kernel fd' = some g := hkernel ▸ hg
      rcases entry_update _ hconn hsub he with ⟨-, he⟩ | ⟨rfl, heq, fd', hfd', hh⟩
      · exact ⟨c', he, rfl, rfl, rfl, rfl, Or.inl rfl⟩
      · obtain rfl := Option.some.inj heq
        exact ⟨c, ⟨hc, fd', hfd', hh⟩, rfl, rfl, rfl, rfl, Or.inr ⟨i, rfl⟩⟩
  · intro htidy
    rcases hreleased.conn with ⟨-, -, -, hkernel, hcloses⟩ | ⟨-, -, -, hkernel, hcloses⟩
    · rw [Tidy, hkernel, hcloses, hreleased.opened]
      exact htidy.close [fd] (List.nodup_singleton fd)
        fun fd' hmem => List.mem_singleton.mp hmem ▸ hopen
    · rwa [Tidy, hkernel, hcloses, hreleased.opened]

end VmodWasm.PoolSockets
