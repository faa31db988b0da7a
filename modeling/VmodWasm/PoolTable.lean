import VmodWasm.HttpPool

/-!
The pool as a table of handles. Slots and overflow connections are places, a
descriptor stands for the socket the kernel has under it, and every operation
of the pool is a few moves of the table.
-/
namespace VmodWasm.PoolTable

open ByteStrings ProxyContext HttpCall CircuitBreaker ConnectionPool HttpPool Lib.Handles
open Relation Lib.Transition

/-- The address of a socket passed the filter. -/
def Admitted (info : SocketInfo) : Prop := vwasmHttpAddrIsPrivate info.peer = false

def placeOf (c : Conn) : Option (ℕ × Bool) := c.fd.map fun fd => (fd, c.inUse)

/-- The pool as a table of handles: slots and overflow connections are places,
exempt calls share. -/
def tableOf (w : PoolWorld) : Table ConnRef ℕ SocketInfo where
  place ref := (w.pool.conn ref).bind placeOf
  system := w.kernel
  opened := w.opened
  held t := (w.held t).map fun call => (call.1.exempt, call.2)
  log := w.log

variable {Keeps : Bool → Prop}

section Hand

theorem socket_of_place (w : PoolWorld) (ref : ConnRef) (fd : ℕ) (busy : Bool)
    (h : (tableOf w).place ref = some (fd, busy)) : w.socket ref = w.kernel fd := by
  rw [PoolWorld.socket]
  change (w.pool.conn ref).bind placeOf = some (fd, busy) at h
  rcases hc : w.pool.conn ref with _ | c
  · simp [hc] at h
  · rcases hfd : c.fd with _ | fd'
    · simp [hc, placeOf, hfd] at h
    · obtain ⟨rfl, _⟩ : fd' = fd ∧ c.inUse = busy := by simpa [hc, placeOf, hfd] using h
      simp [hfd]

theorem tableOf_hand (w : PoolWorld) (t : ℕ) (p : Prepared) (since : ℕ) (ref : ConnRef)
    (socket : Handle SocketInfo) (h : w.socket ref = some socket) :
    tableOf (w.hand t p since ref) =
      { tableOf w with
        held := Function.update (tableOf w).held t (some (p.exempt, ref))
        log := w.log ++ [⟨socket, since, p.exempt⟩] } := by
  ext1
  · rfl
  · rfl
  · rfl
  · funext t'
    by_cases ht : t' = t
    · subst ht
      simp [tableOf, PoolWorld.hand]
    · simp [tableOf, PoolWorld.hand, Function.update_of_ne ht]
  · simp [tableOf, PoolWorld.hand, h]

/-- A connection made and put into an empty place. -/
theorem move_openAt (s : Table ConnRef ℕ SocketInfo) (w : PoolWorld) (t : ℕ) (p : Prepared)
    (ref : ConnRef) (fd : ℕ) (info : SocketInfo) (hfree : s.held t = none)
    (hempty : s.place ref = none) (hfd : s.system fd = none)
    (hinfo : p.exempt = false → Admitted info)
    (hplace : (tableOf w).place = Function.update s.place ref (some (fd, true)))
    (hkernel : w.kernel = Function.update s.system fd (some ⟨s.opened, info⟩))
    (hopened : w.opened = s.opened + 1) (hheld : (tableOf w).held = s.held)
    (hlog : w.log = s.log) :
    Move Admitted Keeps s (tableOf (w.hand t p s.opened ref)) := by
  have hsocket : w.socket ref = some ⟨s.opened, info⟩ := by
    rw [socket_of_place w ref fd true (by rw [hplace, Function.update_self]), hkernel,
      Function.update_self]
  have heq : tableOf (w.hand t p s.opened ref) = s.openAt t ref fd info p.exempt := by
    rw [tableOf_hand w t p s.opened ref _ hsocket]
    ext1
    · exact hplace
    · exact hkernel
    · exact hopened
    · simp only [Table.openAt, hheld]
    · simp only [Table.openAt, hlog]
  rw [heq]
  exact Move.openAt s t ref fd info p.exempt hfree hempty hfd hinfo

end Hand

section Scan

/-- An idle connection that the scan hands out. -/
structure Fit (p : ConnectionPool.HttpPool) (req : ConnRequest) (c : Conn) : Prop where
  exempt : req.ssrfExempt = true
  idle : c.inUse = false
  connected : c.fd.isSome = true
  host : c.host = req.host
  port : c.port = req.port
  young : req.now - c.createdAt ≤ p.maxConnAgeS
  spare : c.requestsServed < p.maxRequestsPerConn

/-- The connection as it is handed out. -/
def reusedConn (req : ConnRequest) (c : Conn) : Conn :=
  { c with inUse := true, lastUsed := req.now, requestsServed := c.requestsServed + 1 }

/-- What the scan for an idle connection does to slot `j`. -/
theorem reuseScan_at (p : ConnectionPool.HttpPool) (req : ConnRequest) (alive : ℕ → Bool)
    (conns : List Conn) :
    (reuseScan p req alive conns).2.length = conns.length ∧
    ∀ j c, conns[j]? = some c → ∃ c', (reuseScan p req alive conns).2[j]? = some c' ∧
      (((reuseScan p req alive conns).1 ≠ some j ∧
          (c' = c ∨ c' = { c with fd := none } ∧ c.inUse = false)) ∨
        ((reuseScan p req alive conns).1 = some j ∧ Fit p req c ∧ c' = reusedConn req c)) := by
  induction conns generalizing alive with
  | nil => exact ⟨rfl, fun j c hc => by simp at hc⟩
  | cons c cs ih =>
    obtain ⟨hlen, hat⟩ := ih (fun n => alive (n + 1))
    -- a slot that is passed over leaves the result to the rest of the scan
    have hskip (c₀ : Conn) (hc₀ : c₀ = c ∨ c₀ = { c with fd := none } ∧ c.inUse = false)
        (r : Option ℕ × List Conn)
        (hr : r = ((reuseScan p req (fun n => alive (n + 1)) cs).1.map (· + 1),
          c₀ :: (reuseScan p req (fun n => alive (n + 1)) cs).2)) :
        r.2.length = (c :: cs).length ∧
        ∀ j d, (c :: cs)[j]? = some d → ∃ c', r.2[j]? = some c' ∧
          ((r.1 ≠ some j ∧ (c' = d ∨ c' = { d with fd := none } ∧ d.inUse = false)) ∨
            (r.1 = some j ∧ Fit p req d ∧ c' = reusedConn req d)) := by
      subst hr
      refine ⟨by simp [hlen], fun j d hd => ?_⟩
      cases j with
      | zero =>
        obtain rfl : c = d := by simpa using hd
        exact ⟨c₀, rfl, Or.inl ⟨by simp, hc₀⟩⟩
      | succ j =>
        obtain ⟨c', hc', hcases⟩ := hat j d (by simpa using hd)
        refine ⟨c', hc', ?_⟩
        rcases hcases with ⟨hne, hsame⟩ | ⟨hj, hrest⟩
        · exact Or.inl ⟨by simpa using hne, hsame⟩
        · exact Or.inr ⟨by simp [hj], hrest⟩
    rw [reuseScan]
    by_cases hbusy : (!req.ssrfExempt || c.fd.isNone || c.inUse || c.host != req.host ||
        c.port != req.port) = true
    · rw [if_pos hbusy]
      exact hskip c (Or.inl rfl) _ rfl
    · rw [if_neg hbusy]
      simp only [Bool.or_eq_true, not_or, Bool.not_eq_true', Bool.not_eq_true, Bool.not_eq_false,
        Option.isNone_eq_false_iff, bne_eq_false_iff_eq] at hbusy
      obtain ⟨⟨⟨⟨hexempt, hsome⟩, hidle⟩, hhost⟩, hport⟩ := hbusy
      by_cases hexpired : p.expired req.now (alive 0) c = true
      · rw [if_pos hexpired]
        exact hskip _ (Or.inr ⟨rfl, hidle⟩) _ rfl
      · rw [if_neg hexpired]
        simp only [HttpPool.expired, Bool.or_eq_true, decide_eq_true_eq, not_or, not_lt,
          not_le] at hexpired
        refine ⟨by simp, fun j d hd => ?_⟩
        cases j with
        | zero =>
          obtain rfl : c = d := by simpa using hd
          have hfit : Fit p req c :=
            ⟨hexempt, hidle, hsome, hhost, hport, hexpired.1.1, hexpired.1.2⟩
          exact ⟨_, rfl, Or.inr ⟨rfl, hfit, rfl⟩⟩
        | succ j => exact ⟨d, by simpa using hd, Or.inl ⟨by simp, Or.inl rfl⟩⟩

theorem reuseScan_lt (p : ConnectionPool.HttpPool) (req : ConnRequest) (alive : ℕ → Bool)
    (conns : List Conn) (i : ℕ) (h : (reuseScan p req alive conns).1 = some i) :
    i < conns.length := by
  rcases reuseScan_cases p req alive conns _ rfl with ⟨hnone, _⟩ | ⟨j, hj, _, htaken⟩
  · rw [hnone] at h
    contradiction
  · obtain rfl : j = i := Option.some.inj (hj.symm.trans h)
    rw [← (reuseScan_at p req alive conns).1]
    have hflag := congrFun htaken j
    by_contra hout
    rw [Function.update_self, inUseAt, List.getElem?_eq_none (by omega)] at hflag
    contradiction

theorem mem_closedBy (before after : List Conn) (fd : ℕ) :
    fd ∈ closedBy before after ↔ ∃ j : ℕ, ∃ b a : Conn, before[j]? = some b ∧ after[j]? = some a ∧
      a.fd = none ∧ b.fd = some fd := by
  rw [closedBy, List.mem_filterMap]
  constructor
  · rintro ⟨⟨b, a⟩, hmem, hfd⟩
    obtain ⟨j, hj⟩ := List.mem_iff_getElem?.mp hmem
    obtain ⟨hb, ha⟩ := List.getElem?_zip_eq_some.mp hj
    by_cases hnone : a.fd = none
    · exact ⟨j, b, a, hb, ha, hnone, by simpa [hnone] using hfd⟩
    · simp [hnone] at hfd
  · rintro ⟨j, b, a, hb, ha, hnone, hfd⟩
    refine ⟨(b, a), List.mem_iff_getElem?.mpr ⟨j, ?_⟩, by simpa [hnone] using hfd⟩
    exact List.getElem?_zip_eq_some.mpr ⟨hb, ha⟩

variable (w : PoolWorld) (req : ConnRequest) (alive : ℕ → Bool)

/-- The scan closes idle connections only. -/
theorem closedBy_idle (fd : ℕ)
    (hfd : fd ∈ closedBy w.pool.conns (reuseScan w.pool req alive w.pool.conns).2) :
    ∃ j, (tableOf w).place (.slot j) = some (fd, false) ∧
      (tableOf (scanned w req alive)).place (.slot j) = none := by
  obtain ⟨j, b, a, hb, ha, hnone, hsome⟩ := (mem_closedBy _ _ _).mp hfd
  obtain ⟨a', ha', hcases⟩ := (reuseScan_at w.pool req alive w.pool.conns).2 j b hb
  obtain rfl : a = a' := by
    rw [ha] at ha'
    exact Option.some.inj ha'
  refine ⟨j, ?_, ?_⟩
  · have hidle : b.inUse = false := by
      rcases hcases with ⟨_, rfl | ⟨_, hidle⟩⟩ | ⟨_, hfit, _⟩
      · rw [hnone] at hsome
        contradiction
      · exact hidle
      · exact hfit.idle
    simp [tableOf, HttpPool.conn, hb, placeOf, hsome, hidle]
  · simp [tableOf, scanned, PoolWorld.setConns, HttpPool.conn, ha, placeOf, hnone]

theorem place_slot (j : ℕ) : (tableOf w).place (.slot j) = w.pool.conns[j]?.bind placeOf := rfl

theorem place_scanned_heap (k : ℕ) :
    (tableOf (scanned w req alive)).place (.heap k) = (tableOf w).place (.heap k) := rfl

variable (hs : Base (tableOf w))

include hs

/-- A descriptor the scan closed is that of a slot which is now empty. -/
theorem not_closedBy (ref : ConnRef) (fd : ℕ) (busy : Bool)
    (hplace : (tableOf w).place ref = some (fd, busy))
    (hscanned : (tableOf (scanned w req alive)).place ref ≠ none) :
    fd ∉ closedBy w.pool.conns (reuseScan w.pool req alive w.pool.conns).2 := by
  intro hfd
  obtain ⟨j, hj, hnone⟩ := closedBy_idle w req alive fd hfd
  rw [hs.place_inj ref (.slot j) fd busy false hplace hj] at hscanned
  exact hscanned hnone

/-- Places that the scan does not hand out are as they were, or closed. -/
theorem place_scanned (ref : ConnRef)
    (hne : (reuseScan w.pool req alive w.pool.conns).1.map ConnRef.slot ≠ some ref) :
    (tableOf (scanned w req alive)).place ref =
      ((tableOf w).close (closedBy w.pool.conns
        (reuseScan w.pool req alive w.pool.conns).2)).place ref := by
  apply Option.ext
  rintro ⟨fd, busy⟩
  rw [close_place]
  cases ref with
  | heap k =>
    rw [place_scanned_heap]
    refine ⟨fun h => ⟨h, not_closedBy w req alive hs _ fd busy h ?_⟩, And.left⟩
    rw [place_scanned_heap, h]
    simp
  | slot j =>
    have hlen := (reuseScan_at w.pool req alive w.pool.conns).1
    rcases hc : w.pool.conns[j]? with _ | c
    · have hc' : (reuseScan w.pool req alive w.pool.conns).2[j]? = none := by
        rw [List.getElem?_eq_none_iff] at hc ⊢
        omega
      simp [place_slot, scanned, PoolWorld.setConns, hc, hc']
    · obtain ⟨c', hc', hcases⟩ := (reuseScan_at w.pool req alive w.pool.conns).2 j c hc
      have hnew : (tableOf (scanned w req alive)).place (.slot j) = placeOf c' := by
        simp [place_slot, scanned, PoolWorld.setConns, hc']
      have hold : (tableOf w).place (.slot j) = placeOf c := by
        simp [place_slot, hc]
      rcases hcases with ⟨_, rfl | ⟨rfl, _⟩⟩ | ⟨hj, _⟩
      · rw [hnew, hold]
        refine ⟨fun h => ⟨h, not_closedBy w req alive hs _ fd busy (by rw [hold, h]) ?_⟩, And.left⟩
        rw [hnew, h]
        simp
      · rw [hnew, hold]
        refine ⟨fun h => by simp [placeOf] at h, fun h => absurd ?_ h.2⟩
        refine (mem_closedBy _ _ _).mpr ⟨j, c, _, hc, hc', rfl, ?_⟩
        rcases hfd : c.fd with _ | fd'
        · simp [placeOf, hfd] at h
        · simpa [placeOf, hfd] using congrArg (Option.map Prod.fst) h.1
      · rw [hj] at hne
        simp at hne

theorem closed_moves :
    Move Admitted Keeps (tableOf w) ((tableOf w).close
      (closedBy w.pool.conns (reuseScan w.pool req alive w.pool.conns).2)) := by
  refine hs.closeIdle _ fun fd hfd => ?_
  obtain ⟨j, hj, _⟩ := closedBy_idle w req alive fd hfd
  exact ⟨.slot j, hj⟩

theorem scanned_close (hnone : (reuseScan w.pool req alive w.pool.conns).1 = none) :
    Move Admitted Keeps (tableOf w) (tableOf (scanned w req alive)) := by
  have heq : tableOf (scanned w req alive) = (tableOf w).close
      (closedBy w.pool.conns (reuseScan w.pool req alive w.pool.conns).2) := by
    ext1
    · funext ref
      exact place_scanned w req alive hs ref (by simp [hnone])
    all_goals rfl
  rw [heq]
  exact closed_moves w req alive hs

/-- An idle connection is handed to an exempt call. -/
theorem scanned_claim (i t : ℕ) (p : Prepared) (hexempt : req.ssrfExempt = p.exempt)
    (hfree : w.held t = none)
    (hsome : (reuseScan w.pool req alive w.pool.conns).1 = some i) :
    ReflTransGen (Move Admitted Keeps) (tableOf w)
      (tableOf ((scanned w req alive).hand t p w.opened (.slot i))) := by
  set fds := closedBy w.pool.conns (reuseScan w.pool req alive w.pool.conns).2 with hfds
  have hi := reuseScan_lt w.pool req alive w.pool.conns i hsome
  obtain ⟨c', hc', hcases⟩ :=
    (reuseScan_at w.pool req alive w.pool.conns).2 i w.pool.conns[i] (List.getElem?_eq_getElem hi)
  rcases hcases with ⟨hne, _⟩ | ⟨_, hfit, rfl⟩
  · exact absurd hsome hne
  obtain ⟨fd, hfd⟩ := Option.isSome_iff_exists.mp hfit.connected
  have hold : (tableOf w).place (.slot i) = some (fd, false) := by
    simp [place_slot, List.getElem?_eq_getElem hi, placeOf, hfd, hfit.idle]
  have hnew : (tableOf (scanned w req alive)).place (.slot i) = some (fd, true) := by
    simp [place_slot, scanned, PoolWorld.setConns, hc', placeOf, reusedConn, hfd]
  have hkeep : fd ∉ fds := not_closedBy w req alive hs _ fd false hold (by simp [hnew])
  obtain ⟨socket, hsocket⟩ := Option.ne_none_iff_exists'.mp (hs.place_open _ fd false hold)
  have hkernel : (scanned w req alive).socket (.slot i) = some socket := by
    rw [socket_of_place _ _ fd true hnew]
    exact close_system.mpr ⟨hsocket, hkeep⟩
  have heq : tableOf ((scanned w req alive).hand t p w.opened (.slot i)) =
      ((tableOf w).close fds).claim t (.slot i) fd socket := by
    rw [tableOf_hand _ t p w.opened (.slot i) socket hkernel, ← hexempt, hfit.exempt]
    ext1
    · funext ref
      by_cases hr : ref = .slot i
      · subst hr
        simp [Table.claim, hnew]
      · have hne : (reuseScan w.pool req alive w.pool.conns).1.map ConnRef.slot ≠ some ref := by
          rw [hsome]
          simpa using Ne.symm hr
        simp [Table.claim, Function.update_of_ne hr, place_scanned w req alive hs ref hne, hfds]
    all_goals rfl
  rw [heq]
  refine (ReflTransGen.single (closed_moves w req alive hs)).tail (Move.claim _ _ _ _ _ ?_ ?_ ?_)
  · simp [Table.close, tableOf, hfree]
  · exact close_place.mpr ⟨hold, hkeep⟩
  · exact close_system.mpr ⟨hsocket, hkeep⟩

end Scan

section Acquire

theorem conn_set (pool : ConnectionPool.HttpPool) (i : ℕ) (c : Conn) (hi : i < pool.conns.length) :
    { pool with conns := pool.conns.set i c }.conn =
      Function.update pool.conn (.slot i) (some c) := by
  funext ref
  by_cases hr : ref = .slot i
  · subst hr
    simp [HttpPool.conn, hi]
  · rw [Function.update_of_ne hr]
    cases ref with
    | heap k => rfl
    | slot j =>
      have hij : i ≠ j := fun h => hr (by rw [h])
      simp [HttpPool.conn, List.getElem?_set_ne hij]

theorem conn_overflow (pool : ConnectionPool.HttpPool) (c : Conn) :
    { pool with heap := pool.heap ++ [some c] }.conn =
      Function.update pool.conn (.heap pool.heap.length) (some c) := by
  funext ref
  by_cases hr : ref = .heap pool.heap.length
  · subst hr
    simp [HttpPool.conn]
  · rw [Function.update_of_ne hr]
    cases ref with
    | slot j => rfl
    | heap k =>
      have hk : k ≠ pool.heap.length := fun h => hr (by rw [h])
      by_cases hlt : k < pool.heap.length
      · simp [HttpPool.conn, List.getElem?_append_left hlt]
      · have hout : (pool.heap ++ [some c]).length ≤ k := by
          simp only [List.length_append, List.length_singleton]
          omega
        simp [HttpPool.conn, List.getElem?_eq_none hout, List.getElem?_eq_none (Nat.not_lt.mp hlt)]

/-- Storing a connection, or freeing it, stores its place. -/
theorem place_update (w w' : PoolWorld) (ref : ConnRef) (o : Option Conn)
    (h : w'.pool.conn = Function.update w.pool.conn ref o) :
    (tableOf w').place = Function.update (tableOf w).place ref (o.bind placeOf) := by
  funext r
  change (w'.pool.conn r).bind placeOf = _
  by_cases hr : r = ref
  · subst hr
    simp [h]
  · rw [h, Function.update_of_ne hr, Function.update_of_ne hr]
    rfl

theorem freeSlot_empty (conns : List Conn) (i : ℕ) (h : freeSlot conns = some i) :
    conns[i]?.bind placeOf = none := by
  obtain ⟨hi, hempty, _⟩ := List.findIdx?_eq_some_iff_getElem.mp h
  rw [List.getElem?_eq_getElem hi, Option.bind_some, placeOf, Option.isNone_iff_eq_none.mp hempty]
  rfl

/-- The idle connection that gives way, when no slot is free. -/
theorem oldestIdle_place (w : PoolWorld) (now : ℤ) (i : ℕ) (hfull : freeSlot w.pool.conns = none)
    (h : oldestIdle 0 w.pool.conns now none = some i) :
    i < w.pool.conns.length ∧ ∃ old, w.pool.conns[i]?.bind Conn.fd = some old ∧
      (tableOf w).place (.slot i) = some (old, false) := by
  rcases oldestIdle_idle w.pool.conns 0 now none i h with hnone | ⟨k, hk, hlt, hidle⟩
  · contradiction
  · obtain rfl : i = k := by omega
    have hsome := List.findIdx?_eq_none_iff.mp hfull _ (List.getElem_mem hlt)
    rw [Option.isNone_eq_false_iff, Option.isSome_iff_exists] at hsome
    obtain ⟨old, hold⟩ := hsome
    rw [inUseAt, List.getElem?_eq_getElem hlt] at hidle
    refine ⟨hlt, old, by simp [List.getElem?_eq_getElem hlt, hold], ?_⟩
    simpa [place_slot, List.getElem?_eq_getElem hlt, placeOf, hold] using hidle

/-- `w'` is `w` with a socket connected as `fd`, after some descriptors were closed. -/
structure Connected (w : PoolWorld) (fd : ℕ) (info : SocketInfo) (gone : List ℕ)
    (w' : PoolWorld) : Prop where
  kernel : w'.kernel = fun fd' =>
    if fd' ∈ gone then none else Function.update w.kernel fd (some ⟨w.opened, info⟩) fd'
  opened : w'.opened = w.opened + 1
  closes : w'.closes = w.closes ++ gone.map (Function.update w.kernel fd (some ⟨w.opened, info⟩))
  held : w'.held = w.held
  log : w'.log = w.log

/-- A place for a new connection: an empty one, or a slot whose idle connection is
closed. -/
def Vacated (w : PoolWorld) (ref : ConnRef) (gone : List ℕ) : Prop :=
  ((tableOf w).place ref = none ∧ gone = []) ∨
    ∃ i old, ref = .slot i ∧ (tableOf w).place ref = some (old, false) ∧ gone = [old]

/-- The new connection has its place. -/
structure Placed (w : PoolWorld) (req : ConnRequest) (fd : ℕ) (info : SocketInfo) (ref : ConnRef)
    (w' : PoolWorld) : Prop where
  conn : ∃ keepAlive,
    w'.pool.conn = Function.update w.pool.conn ref (some (newConn req fd keepAlive))
  connected : ∃ gone, Connected w fd info gone w' ∧ Vacated w ref gone
  limits : w'.pool.maxConnAgeS = w.pool.maxConnAgeS ∧
    w'.pool.maxRequestsPerConn = w.pool.maxRequestsPerConn
  counted : w'.stats.releases = w.stats.releases ∧ w'.stats.acquires = w.stats.acquires + 1 ∧
    w'.stats.creates + w'.stats.reuses = w.stats.creates + w.stats.reuses + 1

/-- What comes of a connect: a connection in its place or, without memory for an
overflow connection, a socket that is closed again. -/
theorem placeConn_cases (w : PoolWorld) (req : ConnRequest) (fd : ℕ) (addr : SockAddr)
    (timeoutMs : ℕ) (alloc : Bool) :
    (∃ ref w', placeConn (connectSocket w fd addr timeoutMs) req fd alloc = (some ref, w') ∧
      Placed w req fd ⟨addr, if timeoutMs = 0 then 1000 else timeoutMs⟩ ref w') ∨
    ∃ w', placeConn (connectSocket w fd addr timeoutMs) req fd alloc = (none, w') ∧
      Connected w fd ⟨addr, if timeoutMs = 0 then 1000 else timeoutMs⟩ [fd] w' ∧
      w'.pool = w.pool ∧ w'.stats = w.stats := by
  have hpool : (connectSocket w fd addr timeoutMs).pool = w.pool := rfl
  have hconnected (w' : PoolWorld)
      (hkernel : w'.kernel = (connectSocket w fd addr timeoutMs).kernel)
      (hopened : w'.opened = w.opened + 1) (hcloses : w'.closes = w.closes)
      (hheld : w'.held = w.held) (hlog : w'.log = w.log) :
      Connected w fd ⟨addr, if timeoutMs = 0 then 1000 else timeoutMs⟩ [] w' := by
    refine ⟨?_, hopened, by simp [hcloses], hheld, hlog⟩
    rw [hkernel]
    funext fd'
    simp [connectSocket]
  have hcreated : w.stats.creates + 1 + w.stats.reuses =
      w.stats.creates + w.stats.reuses + 1 := by omega
  unfold placeConn
  dsimp only
  rw [hpool]
  rcases hslot : freeSlot w.pool.conns with _ | i
  · dsimp only
    rcases hidle : oldestIdle 0 w.pool.conns req.now none with _ | i
    · dsimp only
      cases alloc with
      | false => exact Or.inr ⟨_, rfl, ⟨rfl, rfl, rfl, rfl, rfl⟩, rfl, rfl⟩
      | true =>
        refine Or.inl ⟨_, _, rfl, ⟨false, conn_overflow w.pool _⟩,
          ⟨[], hconnected _ rfl rfl rfl rfl rfl, Or.inl ⟨?_, rfl⟩⟩, ⟨rfl, rfl⟩, rfl, rfl, hcreated⟩
        simp [tableOf, HttpPool.conn]
    · dsimp only
      obtain ⟨hi, old, hold, hplace⟩ := oldestIdle_place w req.now i hslot hidle
      rw [hold]
      exact Or.inl ⟨_, _, rfl, ⟨true, conn_set w.pool i _ hi⟩,
        ⟨[old], ⟨rfl, rfl, rfl, rfl, rfl⟩, Or.inr ⟨i, old, rfl, hplace, rfl⟩⟩, ⟨rfl, rfl⟩, rfl, rfl,
        hcreated⟩
  · have hi := freeSlot_lt _ i hslot
    exact Or.inl ⟨_, _, rfl, ⟨true, conn_set w.pool i _ hi⟩,
      ⟨[], hconnected _ rfl rfl rfl rfl rfl, Or.inl ⟨freeSlot_empty _ i hslot, rfl⟩⟩, ⟨rfl, rfl⟩,
      rfl, rfl, hcreated⟩

variable {w w' : PoolWorld} {ref : ConnRef} {gone : List ℕ} {req : ConnRequest} {fd : ℕ}
  {info : SocketInfo}

/-- What was closed for a place was the idle connection there. -/
theorem Vacated.idle (h : Vacated w ref gone) (old : ℕ) (hold : old ∈ gone) :
    (tableOf w).place ref = some (old, false) ∧ ∃ i, ref = .slot i := by
  rcases h with ⟨-, rfl⟩ | ⟨i, old', hslot, hplace, rfl⟩
  · contradiction
  · rw [List.mem_singleton.mp hold]
    exact ⟨hplace, i, hslot⟩

theorem Vacated.nodup (h : Vacated w ref gone) : gone.Nodup := by
  rcases h with ⟨-, rfl⟩ | ⟨-, old, -, -, rfl⟩
  · exact List.nodup_nil
  · exact List.nodup_singleton old

theorem Vacated.empty (h : Vacated w ref gone) : ((tableOf w).close gone).place ref = none := by
  rcases h with ⟨hnone, -⟩ | ⟨-, old, -, hplace, rfl⟩
  · simp [Table.close, hnone]
  · simp [Table.close, hplace]

theorem Vacated.others (hs : Base (tableOf w)) (h : Vacated w ref gone) (ref' : ConnRef)
    (hne : ref' ≠ ref) : ((tableOf w).close gone).place ref' = (tableOf w).place ref' := by
  apply Option.ext
  rintro ⟨fd, busy⟩
  rw [close_place]
  refine ⟨And.left, fun hplace => ⟨hplace, fun hmem => hne ?_⟩⟩
  exact hs.place_inj ref' ref fd busy false hplace (h.idle fd hmem).1

/-- The place is vacated, and the socket opened there. -/
theorem Placed.moves (h : Placed w req fd info ref w') (t : ℕ) (p : Prepared)
    (hfree : w.held t = none) (hs : Base (tableOf w)) (hfd : w.kernel fd = none)
    (hinfo : p.exempt = false → Admitted info) :
    ReflTransGen (Move Admitted Keeps) (tableOf w) (tableOf (w'.hand t p w.opened ref)) := by
  obtain ⟨keepAlive, hconn⟩ := h.conn
  obtain ⟨gone, hconnected, hvacated⟩ := h.connected
  have hout : fd ∉ gone := fun hmem => hs.place_open ref fd false (hvacated.idle fd hmem).1 hfd
  have hclose : Move Admitted Keeps (tableOf w) ((tableOf w).close gone) :=
    hs.closeIdle gone fun old hmem => ⟨ref, (hvacated.idle old hmem).1⟩
  refine (ReflTransGen.single hclose).tail ?_
  refine move_openAt ((tableOf w).close gone) w' t p ref fd info ?_ hvacated.empty ?_ hinfo ?_ ?_
    hconnected.opened ?_ hconnected.log
  · simp [Table.close, tableOf, hfree]
  · simp [Table.close, tableOf, hfd]
  · funext ref'
    by_cases hr : ref' = ref
    · subst hr
      rw [place_update w w' ref' _ hconn, Function.update_self, Function.update_self]
      rfl
    · rw [place_update w w' ref _ hconn, Function.update_of_ne hr, Function.update_of_ne hr,
        hvacated.others hs ref' hr]
  · rw [hconnected.kernel]
    funext fd'
    by_cases hfd' : fd' = fd
    · subst hfd'
      simp [hout, tableOf, Table.close]
    · simp [Function.update_of_ne hfd', tableOf, Table.close]
  · simp [Table.close, tableOf, hconnected.held]

/-- A socket that is closed again: the table only counts it. -/
theorem Connected.abandon (h : Connected w fd info [fd] w') (hfd : w.kernel fd = none)
    (hpool : w'.pool = w.pool) : tableOf w' = (tableOf w).abandon := by
  ext1
  · simp [tableOf, hpool, Table.abandon]
  · change w'.kernel = w.kernel
    rw [h.kernel]
    funext fd'
    by_cases hfd' : fd' = fd
    · simp [hfd', hfd]
    · simp [hfd']
  · exact h.opened
  · simp [tableOf, h.held, Table.abandon]
  · exact h.log

theorem createConn_moves (w : PoolWorld) (t : ℕ) (p : Prepared) (hfree : w.held t = none)
    (hs : Base (tableOf w)) (req : ConnRequest) (timeoutMs : ℕ) (env : AcquireEnv)
    (hexempt : req.ssrfExempt = p.exempt) (hfd : env.fd.bind w.kernel = none) :
    ReflTransGen (Move Admitted Keeps) (tableOf w)
      (tableOf (handResult t p w.opened (createConn w req timeoutMs env))) := by
  unfold createConn
  dsimp only
  set resolved := vwasmHttpPoolResolve w.dns w.dnsTtlS env.dnsNow req.host req.port env.answer
  rcases hresolved : resolved.1 with _ | addr
  · exact ReflTransGen.refl
  · dsimp only
    by_cases hprivate : (!req.ssrfExempt && vwasmHttpAddrIsPrivate addr) = true
    · rw [if_pos hprivate]
      exact ReflTransGen.refl
    · rw [if_neg hprivate]
      rcases hconnect : env.fd with _ | fd
      · exact ReflTransGen.refl
      · rw [hconnect] at hfd
        dsimp only
        have hinfo (hshares : p.exempt = false) :
            Admitted ⟨addr, if timeoutMs = 0 then 1000 else timeoutMs⟩ := by
          rw [hexempt, hshares] at hprivate
          simpa [Admitted] using hprivate
        rcases placeConn_cases { w with dns := resolved.2 } req fd addr timeoutMs env.alloc with
          ⟨ref, w', heq, hplaced⟩ | ⟨w', heq, hconnected, hpool, -⟩
        · rw [heq]
          exact hplaced.moves t p hfree hs hfd hinfo
        · rw [heq]
          exact ReflTransGen.single (hconnected.abandon hfd hpool ▸ Move.abandon _)

theorem acquire_moves (w : PoolWorld) (t : ℕ) (p : Prepared) (hfree : w.held t = none)
    (hs : Base (tableOf w)) (env : AcquireEnv) (hfd : fdTaken w p env = false) :
    ReflTransGen (Move Admitted Keeps) (tableOf w)
      (tableOf (handResult t p w.opened (vwasmHttpPoolAcquire w p env))) := by
  unfold vwasmHttpPoolAcquire
  dsimp only
  set allowed := vwasmHttpPoolCbAllow w.breakers p.host p.port env.cbNow
  by_cases hallow : (!allowed.1) = true
  · rw [if_pos hallow]
    exact ReflTransGen.refl
  · rw [if_neg hallow]
    rcases hscan : (reuseScan w.pool ⟨p.host, p.port, p.exempt, env.now⟩ env.alive
      w.pool.conns).1 with _ | i
    · dsimp only
      have hclose : Move Admitted Keeps (tableOf w) (tableOf (scanned
          { w with breakers := allowed.2 } ⟨p.host, p.port, p.exempt, env.now⟩ env.alive)) :=
        scanned_close { w with breakers := allowed.2 } _ env.alive hs hscan
      refine (ReflTransGen.single hclose).trans ?_
      exact createConn_moves (scanned { w with breakers := allowed.2 } _ env.alive) t p
        hfree (hs.move hclose) _ _ env rfl
        (Option.isNone_iff_eq_none.mp (Option.isSome_eq_false_iff.mp hfd))
    · exact scanned_claim { w with breakers := allowed.2 } _ env.alive hs i t p rfl hfree hscan

end Acquire

section Frame

/-- The pool knows nothing of its callers. -/
theorem createConn_frame (w : PoolWorld) (req : ConnRequest) (timeoutMs : ℕ) (env : AcquireEnv) :
    (createConn w req timeoutMs env).2.held = w.held ∧
      (createConn w req timeoutMs env).2.log = w.log := by
  unfold createConn placeConn
  dsimp only
  split
  · exact ⟨rfl, rfl⟩
  · split
    · exact ⟨rfl, rfl⟩
    · split
      · exact ⟨rfl, rfl⟩
      · split
        · exact ⟨rfl, rfl⟩
        · split
          · exact ⟨rfl, rfl⟩
          · split <;> exact ⟨rfl, rfl⟩

theorem acquire_frame (w : PoolWorld) (p : Prepared) (env : AcquireEnv) :
    (vwasmHttpPoolAcquire w p env).2.held = w.held ∧
      (vwasmHttpPoolAcquire w p env).2.log = w.log := by
  unfold vwasmHttpPoolAcquire
  dsimp only
  split
  · exact ⟨rfl, rfl⟩
  · split
    · exact ⟨rfl, rfl⟩
    · exact createConn_frame _ _ _ env

theorem release_frame (w : PoolWorld) (ref : ConnRef) (keepAlive : Bool) (now : ℤ) :
    (vwasmHttpPoolRelease w ref keepAlive now).held = w.held ∧
      (vwasmHttpPoolRelease w ref keepAlive now).log = w.log := by
  unfold vwasmHttpPoolRelease
  split
  · exact ⟨rfl, rfl⟩
  · dsimp only
    split
    · cases ref <;> exact ⟨rfl, rfl⟩
    · cases ref <;> exact ⟨rfl, rfl⟩

end Frame

section Release

theorem conn_modifyConn (pool : ConnectionPool.HttpPool) (f : Conn → Conn) (ref : ConnRef) :
    (pool.modifyConn f ref).conn = Function.update pool.conn ref ((pool.conn ref).map f) := by
  funext r
  by_cases hr : r = ref
  · subst hr
    rw [Function.update_self]
    cases r with
    | slot i => simp [HttpPool.modifyConn, HttpPool.conn]
    | heap k => rcases hk : pool.heap[k]? with _ | _ | c <;>
        simp [HttpPool.modifyConn, HttpPool.conn, hk]
  · rw [Function.update_of_ne hr]
    cases ref with
    | slot i =>
      cases r with
      | heap k => rfl
      | slot j =>
        have hij : i ≠ j := fun h => hr (by rw [h])
        simp [HttpPool.modifyConn, HttpPool.conn, hij]
    | heap i =>
      cases r with
      | slot k => rfl
      | heap j =>
        have hij : i ≠ j := fun h => hr (by rw [h])
        simp [HttpPool.modifyConn, HttpPool.conn, hij]

theorem conn_freeOverflow (w : PoolWorld) (k : ℕ) :
    (w.freeOverflow (.heap k)).pool.conn = Function.update w.pool.conn (.heap k) none := by
  funext r
  by_cases hr : r = .heap k
  · subst hr
    rw [Function.update_self]
    change ((w.pool.heap.set k none)[k]?).join = none
    rw [List.getElem?_set_self']
    rcases w.pool.heap[k]? with _ | _ <;> rfl
  · rw [Function.update_of_ne hr]
    cases r with
    | slot j => rfl
    | heap j =>
      have hkj : k ≠ j := fun h => hr (by rw [h])
      simp [PoolWorld.freeOverflow, HttpPool.conn, List.getElem?_set_ne hkj]

/-- What a release does with connection `c`, whose descriptor is `fd`: that is closed,
or the connection stays idle in its slot. -/
structure Released (w : PoolWorld) (ref : ConnRef) (c : Conn) (fd : ℕ) (keepAlive : Bool) (now : ℤ)
    (w' : PoolWorld) : Prop where
  conn : (∃ o, (∀ c', o = some c' → c'.fd = none) ∧
      w'.pool.conn = Function.update w.pool.conn ref o ∧
      w'.kernel = (w.closeFds [fd]).kernel ∧ w'.closes = (w.closeFds [fd]).closes) ∨
    (keepAlive = true ∧ (∃ i, ref = .slot i) ∧
      w'.pool.conn =
        Function.update w.pool.conn ref (some { c with inUse := false, lastUsed := now }) ∧
      w'.kernel = w.kernel ∧ w'.closes = w.closes)
  opened : w'.opened = w.opened
  limits : w'.pool.maxConnAgeS = w.pool.maxConnAgeS ∧
    w'.pool.maxRequestsPerConn = w.pool.maxRequestsPerConn
  counted : w'.stats = { w.stats with releases := w.stats.releases + 1 }

/-- Whatever the flag it is given; only a slot keeps its connection. -/
theorem release_released (w : PoolWorld) (ref : ConnRef) (c : Conn) (fd : ℕ) (keepAlive : Bool)
    (now : ℤ) (hc : w.pool.conn ref = some c) (hfd : c.fd = some fd) :
    Released w ref c fd keepAlive now (vwasmHttpPoolRelease w ref keepAlive now) := by
  unfold vwasmHttpPoolRelease
  rw [hc]
  dsimp only
  rw [hfd]
  cases ref with
  | slot i =>
    by_cases hclose : (!keepAlive || !c.keepAlive || (some fd).isNone) = true
    · rw [if_pos hclose]
      refine ⟨Or.inl ⟨_, ?_, conn_modifyConn w.pool _ (.slot i), rfl, rfl⟩, rfl, ⟨rfl, rfl⟩, rfl⟩
      intro c' hc'
      rw [hc] at hc'
      rw [← Option.some.inj hc']
    · rw [if_neg hclose]
      simp only [Bool.or_eq_true, not_or, Bool.not_eq_true', Bool.not_eq_false] at hclose
      refine ⟨Or.inr ⟨hclose.1.1, ⟨i, rfl⟩, ?_, rfl, rfl⟩, rfl, ⟨rfl, rfl⟩, rfl⟩
      refine (conn_modifyConn w.pool _ (.slot i)).trans ?_
      rw [hc]
      rfl
  | heap k =>
    have hfreed (f : Conn → Conn) (v : PoolWorld) (hv : v.pool = w.pool.modifyConn f (.heap k)) :
        (v.freeOverflow (.heap k)).pool.conn = Function.update w.pool.conn (.heap k) none := by
      rw [conn_freeOverflow, hv, conn_modifyConn, Function.update_idem]
    by_cases hclose : (!keepAlive || !c.keepAlive || (some fd).isNone) = true
    · rw [if_pos hclose]
      exact ⟨Or.inl ⟨none, by simp, hfreed _ _ rfl, rfl, rfl⟩, rfl, ⟨rfl, rfl⟩, rfl⟩
    · rw [if_neg hclose]
      exact ⟨Or.inl ⟨none, by simp, hfreed _ _ rfl, rfl, rfl⟩, rfl, ⟨rfl, rfl⟩, rfl⟩

theorem held_clear (w w' : PoolWorld) (t : ℕ) (h : w'.held = Function.update w.held t none) :
    (tableOf w').held = Function.update (tableOf w).held t none := by
  funext t'
  by_cases ht : t' = t
  · subst ht
    simp [tableOf, h]
  · simp [tableOf, h, Function.update_of_ne ht]

/-- The connection is closed and its place emptied. -/
theorem table_drop (w w' : PoolWorld) (t : ℕ) (ref : ConnRef) (fd : ℕ)
    (hplace : (tableOf w').place = Function.update (tableOf w).place ref none)
    (hkernel : w'.kernel = fun fd' => if fd' ∈ [fd] then none else w.kernel fd')
    (hopened : w'.opened = w.opened) (hclear : w'.held = Function.update w.held t none)
    (hlog : w'.log = w.log) : tableOf w' = (tableOf w).drop t ref fd := by
  ext1
  · exact hplace
  · funext fd'
    by_cases hfd : fd' = fd
    · subst hfd
      simp [tableOf, Table.drop, hkernel]
    · simp [tableOf, Table.drop, hkernel, hfd]
  · exact hopened
  · exact held_clear w w' t hclear
  · exact hlog

/-- The connection is left idle. -/
theorem table_keep (w w' : PoolWorld) (t : ℕ) (ref : ConnRef) (fd : ℕ)
    (hplace : (tableOf w').place = Function.update (tableOf w).place ref (some (fd, false)))
    (hkernel : w'.kernel = w.kernel) (hopened : w'.opened = w.opened)
    (hclear : w'.held = Function.update w.held t none) (hlog : w'.log = w.log) :
    tableOf w' = (tableOf w).keep t ref fd := by
  ext1
  · exact hplace
  · exact hkernel
  · exact hopened
  · exact held_clear w w' t hclear
  · exact hlog

/-- What a release does to the table, whatever the flag it is given: only a slot
keeps its connection. -/
theorem release_table (w : PoolWorld) (t : ℕ) (p : Prepared) (ref : ConnRef) (keepAlive : Bool)
    (now : ℤ) (hs : Base (tableOf w)) (hheld : w.held t = some (p, ref)) :
    ∃ fd, (tableOf w).place ref = some (fd, true) ∧
      (tableOf (vwasmHttpPoolRelease { w with held := Function.update w.held t none } ref keepAlive
          now) = (tableOf w).drop t ref fd ∨
        keepAlive = true ∧ (∃ i, ref = .slot i) ∧
        tableOf (vwasmHttpPoolRelease { w with held := Function.update w.held t none } ref keepAlive
          now) = (tableOf w).keep t ref fd) := by
  obtain ⟨fd, hbusy⟩ := hs.held_busy t p.exempt ref (by simp [tableOf, hheld])
  obtain ⟨c, hc, hplace⟩ := Option.bind_eq_some_iff.mp hbusy
  have hfd : c.fd = some fd := by
    rcases hfd : c.fd with _ | fd'
    · simp [placeOf, hfd] at hplace
    · simpa [placeOf, hfd] using congrArg (Option.map Prod.fst) hplace
  refine ⟨fd, hbusy, ?_⟩
  have hreleased := release_released { w with held := Function.update w.held t none } ref c fd
    keepAlive now hc hfd
  obtain ⟨hclear, hlog⟩ := release_frame { w with held := Function.update w.held t none } ref
    keepAlive now
  rcases hreleased.conn with ⟨o, ho, hconn, hkernel, -⟩ | ⟨hflag, hslot, hconn, hkernel, -⟩
  · refine Or.inl (table_drop w _ t ref fd ?_ hkernel hreleased.opened hclear hlog)
    have hnone : o.bind placeOf = none := by
      cases o with
      | none => rfl
      | some c' => simp [placeOf, ho c' rfl]
    rw [place_update w _ ref o hconn, hnone]
  · refine Or.inr ⟨hflag, hslot, table_keep w _ t ref fd ?_ hkernel hreleased.opened hclear hlog⟩
    rw [place_update w _ ref _ hconn]
    simp [placeOf, hfd]

theorem release_moves (w : PoolWorld) (t : ℕ) (p : Prepared) (ref : ConnRef) (keepAlive : Bool)
    (now : ℤ) (hs : Base (tableOf w)) (hheld : w.held t = some (p, ref))
    (hkeeps : keepAlive = true → Keeps p.exempt) :
    Move Admitted Keeps (tableOf w) (tableOf (vwasmHttpPoolRelease
      { w with held := Function.update w.held t none } ref keepAlive now)) := by
  have hcall : (tableOf w).held t = some (p.exempt, ref) := by simp [tableOf, hheld]
  obtain ⟨fd, hbusy, hdrop | ⟨hflag, -, hkeep⟩⟩ := release_table w t p ref keepAlive now hs hheld
  · rw [hdrop]
    exact Move.drop _ t ref fd p.exempt hcall hbusy
  · rw [hkeep]
    exact Move.keep _ t ref fd p.exempt (hkeeps hflag) hcall hbusy

end Release

/-- A new pool. The DNS cache and the circuit breakers may hold anything. -/
def newWorld (maxConns defaultTimeoutMs : ℕ) (dnsTtlS : ℤ) (dns : List DnsEntry)
    (breakers : List Breaker) : PoolWorld where
  pool := vwasmHttpPoolNew maxConns
  breakers := breakers
  dns := dns
  dnsTtlS := dnsTtlS
  defaultTimeoutMs := defaultTimeoutMs

theorem newWorld_place (maxConns defaultTimeoutMs : ℕ) (dnsTtlS : ℤ) (dns : List DnsEntry)
    (breakers : List Breaker) (ref : ConnRef) :
    (tableOf (newWorld maxConns defaultTimeoutMs dnsTtlS dns breakers)).place ref = none := by
  cases ref with
  | heap k => rfl
  | slot j =>
    rcases hc : (vwasmHttpPoolNew maxConns).conns[j]? with _ | c
    · simp [place_slot, newWorld, hc]
    · obtain rfl : c = {} := List.eq_of_mem_replicate (List.mem_of_getElem? hc)
      simp [place_slot, newWorld, hc, placeOf]

theorem newWorld_base (maxConns defaultTimeoutMs : ℕ) (dnsTtlS : ℤ) (dns : List DnsEntry)
    (breakers : List Breaker) :
    Base (tableOf (newWorld maxConns defaultTimeoutMs dnsTtlS dns breakers)) where
  id_lt fd h hh := by simp [tableOf, newWorld] at hh
  id_inj fd fd' h h' hh := by simp [tableOf, newWorld] at hh
  place_open r fd busy hr := by simp [newWorld_place] at hr
  place_inj r r' fd busy busy' hr := by simp [newWorld_place] at hr
  held_busy t shares r ht := by simp [tableOf, newWorld] at ht
  held_inj t t' shares shares' r ht := by simp [tableOf, newWorld] at ht
  log_lt h hh := by simp [tableOf, newWorld] at hh

/-- The address `a.b.c.d`. -/
def ipv4 (a b c d : UInt32) (port : ℕ) : SockAddr :=
  ⟨.v4 (a <<< 24 ||| b <<< 16 ||| c <<< 8 ||| d), port⟩

def callTo (host : Bytes) (exempt : Bool) : Prepared := ⟨host, 80, 1000, exempt, [], []⟩

end VmodWasm.PoolTable
