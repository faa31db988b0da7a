import VmodWasm.CircuitBreaker
import VmodWasm.ConnectionPool
import VmodWasm.SafeReuse
import VmodWasm.Lib.Handles

/-!
The HTTP pool with each `vwasm_http_pool_acquire` and each
`vwasm_http_pool_release` taken as one operation: circuit breaker, idle
connections, DNS cache, the filter for private addresses, the connect, and the
slot the new connection goes to. The kernel's table says which socket a
descriptor stands for; descriptors are used again after a close. Clock, DNS
answers, connects and the liveness of sockets are the world's.
-/
namespace VmodWasm.HttpPool

open ByteStrings ProxyContext HttpCall CircuitBreaker ConnectionPool Lib.Handles
open Lib.Transition hiding exec

/-- An address as `sockaddr_in`, `sockaddr_in6` or another family holds it. -/
inductive IpAddr where
  | v4 (ip : UInt32)
  | v6 (b : Vector UInt8 16)
  | other (family : ℕ)
  deriving DecidableEq

structure SockAddr where
  ip : IpAddr
  port : ℕ
  deriving DecidableEq

def v4IsPrivate (ip : UInt32) : Bool :=
  ip >>> 24 == 127 ||
  ip >>> 24 == 10 ||
  ip >>> 20 == ((172 : UInt32) <<< 4 ||| 1) ||
  ip >>> 16 == ((192 : UInt32) <<< 8 ||| 168) ||
  ip >>> 16 == ((169 : UInt32) <<< 8 ||| 254) ||
  ip >>> 24 == 0 ||
  ip >>> 22 == ((100 : UInt32) <<< 2 ||| 1) ||
  ip >>> 8 == ((192 : UInt32) <<< 16 ||| 0) ||
  ip >>> 17 == ((198 : UInt32) <<< 7 ||| 9) ||
  ip >>> 28 == 15

/-- The address in the last four bytes of an IPv4-mapped address. -/
def mappedIp (b : Vector UInt8 16) : UInt32 :=
  b[12].toUInt32 <<< 24 ||| b[13].toUInt32 <<< 16 ||| b[14].toUInt32 <<< 8 ||| b[15].toUInt32

def v6IsPrivate (b : Vector UInt8 16) : Bool :=
  b.toList == List.replicate 15 0 ++ [1] ||
  b.toList == List.replicate 16 0 ||
  b[0] &&& 0xfe == 0xfc ||
  b[0] == 0xfe && b[1] &&& 0xc0 == 0x80 ||
  b.toList.take 12 == List.replicate 10 0 ++ [0xff, 0xff] && v4IsPrivate (mappedIp b)

def vwasmHttpAddrIsPrivate (addr : SockAddr) : Bool :=
  match addr.ip with
  | .v4 ip => v4IsPrivate ip
  | .v6 b => v6IsPrivate b
  | .other _ => false

/-- `struct vwasm_http_dns_entry`. -/
structure DnsEntry where
  host : Bytes
  addr : SockAddr
  resolvedAt : ℤ
  valid : Bool := true
  deriving DecidableEq

def dnsCacheCapacity : ℕ := 64

/-- The port of an internet address; other families are left as they are. -/
def SockAddr.setPort (addr : SockAddr) (port : ℕ) : SockAddr :=
  match addr.ip with
  | .other _ => addr
  | _ => { addr with port := port }

/-- The first lock section of `vwasm_http_pool_resolve`. -/
def dnsLookup (cache : List DnsEntry) (ttl now : ℤ) (host : Bytes) : Option SockAddr :=
  (cache.find? fun e => e.valid && e.host == host && decide (now - e.resolvedAt < ttl)).map
    DnsEntry.addr

/-- The second: the host's entry, else a new one, else the first is given up. -/
def dnsStore (cache : List DnsEntry) (now : ℤ) (host : Bytes) (addr : SockAddr) : List DnsEntry :=
  let entry : DnsEntry := { host := host.take 255, addr := addr, resolvedAt := now }
  let slot := (cache.findIdx? fun e => e.host == host).getD cache.length
  let slot := if dnsCacheCapacity ≤ slot then 0 else slot
  if slot = cache.length then cache ++ [entry] else cache.set slot entry

/-- `vwasm_http_pool_resolve`; `answer` is the first address of `getaddrinfo`. -/
def vwasmHttpPoolResolve (cache : List DnsEntry) (ttl now : ℤ) (host : Bytes) (port : ℕ)
    (answer : Option SockAddr) : Option SockAddr × List DnsEntry :=
  match dnsLookup cache ttl now host with
  | some addr => (some (addr.setPort port), cache)
  | none =>
    match answer with
    | none => (none, cache)
    | some addr => (some addr, dnsStore cache now host addr)

/-- What the kernel knows of a connected socket. -/
structure SocketInfo where
  peer : SockAddr
  timeoutMs : ℕ
  deriving DecidableEq

structure PoolStats where
  acquires : ℕ := 0
  releases : ℕ := 0
  creates : ℕ := 0
  reuses : ℕ := 0
  evictions : ℕ := 0
  deriving DecidableEq

/-- The pool, the kernel's descriptors, and the calls that hold a connection.
`log` and `closes` are ghost data: the sockets handed out, and what each call of
`close` met. The `callers` of the pool are not used here. -/
structure PoolWorld where
  pool : ConnectionPool.HttpPool
  breakers : List Breaker := []
  dns : List DnsEntry := []
  dnsTtlS : ℤ := 60
  defaultTimeoutMs : ℕ := 1000
  stats : PoolStats := {}
  kernel : ℕ → Option (Handle SocketInfo) := fun _ => none
  opened : ℕ := 0
  held : ℕ → Option (Prepared × ConnRef) := fun _ => none
  log : List (Handing SocketInfo) := []
  closes : List (Option (Handle SocketInfo)) := []

/-- What the world decides in one acquire; `fd` is the descriptor of the
connected socket. -/
structure AcquireEnv where
  cbNow : ℤ := 0
  now : ℤ := 0
  dnsNow : ℤ := 0
  alive : ℕ → Bool := fun _ => true
  answer : Option SockAddr := none
  fd : Option ℕ := none
  alloc : Bool := true

def PoolWorld.setConns (w : PoolWorld) (conns : List Conn) : PoolWorld :=
  { w with pool := { w.pool with conns := conns } }

def PoolWorld.closeFds (w : PoolWorld) (fds : List ℕ) : PoolWorld :=
  { w with
    kernel := fun fd => if fd ∈ fds then none else w.kernel fd
    closes := w.closes ++ fds.map w.kernel }

/-- The descriptors that a scan of the slots has closed. -/
def closedBy (before after : List Conn) : List ℕ :=
  (before.zip after).filterMap fun c => if c.2.fd.isNone then c.1.fd else none

/-- The world after the scan for an idle connection. -/
def scanned (w : PoolWorld) (req : ConnRequest) (alive : ℕ → Bool) : PoolWorld :=
  (w.closeFds (closedBy w.pool.conns (reuseScan w.pool req alive w.pool.conns).2)).setConns
    (reuseScan w.pool req alive w.pool.conns).2

/-- The sections after the connect: a free slot, the oldest idle connection's,
or an overflow connection. -/
def placeConn (w : PoolWorld) (req : ConnRequest) (fd : ℕ) (alloc : Bool) :
    Option ConnRef × PoolWorld :=
  let created := { w.stats with acquires := w.stats.acquires + 1, creates := w.stats.creates + 1 }
  match freeSlot w.pool.conns with
  | some i =>
    (some (.slot i),
      { w.setConns (w.pool.conns.set i (newConn req fd true)) with stats := created })
  | none =>
    match oldestIdle 0 w.pool.conns req.now none with
    | some i =>
      let old := (w.pool.conns[i]?.bind Conn.fd).toList
      (some (.slot i),
        { (w.closeFds old).setConns (w.pool.conns.set i (newConn req fd true)) with
          stats := { created with evictions := created.evictions + 1 } })
    | none =>
      if alloc then
        (some (.heap w.pool.heap.length),
          { w with
            pool := { w.pool with heap := w.pool.heap ++ [some (newConn req fd false)] }
            stats := created })
      else (none, w.closeFds [fd])

/-- `connect_with_timeout` to the address, which gets descriptor `fd`. -/
def connectSocket (w : PoolWorld) (fd : ℕ) (addr : SockAddr) (timeoutMs : ℕ) : PoolWorld :=
  { w with
    kernel := Function.update w.kernel fd
      (some ⟨w.opened, ⟨addr, if timeoutMs = 0 then 1000 else timeoutMs⟩⟩)
    opened := w.opened + 1 }

/-- Resolve, check, connect, and find a slot. -/
def createConn (w : PoolWorld) (req : ConnRequest) (timeoutMs : ℕ) (env : AcquireEnv) :
    Option ConnRef × PoolWorld :=
  let resolved := vwasmHttpPoolResolve w.dns w.dnsTtlS env.dnsNow req.host req.port env.answer
  let w := { w with dns := resolved.2 }
  match resolved.1 with
  | none => (none, w)
  | some addr =>
    if !req.ssrfExempt && vwasmHttpAddrIsPrivate addr then (none, w)
    else
      match env.fd with
      | none => (none, w)
      | some fd => placeConn (connectSocket w fd addr timeoutMs) req fd env.alloc

/-- `vwasm_http_pool_acquire` for the checked call `p`. -/
def vwasmHttpPoolAcquire (w : PoolWorld) (p : Prepared) (env : AcquireEnv) :
    Option ConnRef × PoolWorld :=
  let timeoutMs := if p.timeoutMs = 0 then w.defaultTimeoutMs else p.timeoutMs
  let allowed := vwasmHttpPoolCbAllow w.breakers p.host p.port env.cbNow
  let w := { w with breakers := allowed.2 }
  if !allowed.1 then (none, w)
  else
    let req : ConnRequest := ⟨p.host, p.port, p.exempt, env.now⟩
    let scan := reuseScan w.pool req env.alive w.pool.conns
    let w' := (w.closeFds (closedBy w.pool.conns scan.2)).setConns scan.2
    match scan.1 with
    | some i =>
      (some (.slot i), { w' with
        stats := { w.stats with acquires := w.stats.acquires + 1, reuses := w.stats.reuses + 1 } })
    | none => createConn w' req timeoutMs env

/-- The end of a release: a heap-allocated connection is freed. -/
def PoolWorld.freeOverflow (w : PoolWorld) : ConnRef → PoolWorld
  | .slot _ => w
  | .heap k => { w with pool := { w.pool with heap := w.pool.heap.set k none } }

/-- `vwasm_http_pool_release`. An overflow connection that may be kept is
closed by the last section instead. -/
def vwasmHttpPoolRelease (w : PoolWorld) (ref : ConnRef) (keepAlive : Bool) (now : ℤ) :
    PoolWorld :=
  match w.pool.conn ref with
  | none => w
  | some c =>
    let w := { w with stats := { w.stats with releases := w.stats.releases + 1 } }
    if !keepAlive || !c.keepAlive || c.fd.isNone then
      let w := w.closeFds c.fd.toList
      { w with pool := w.pool.modifyConn (fun c => { c with fd := none, inUse := false }) ref
        }.freeOverflow ref
    else
      let w := { w with pool := w.pool.modifyConn
                          (fun c => { c with inUse := false, lastUsed := now }) ref }
      match ref with
      | .slot _ => w
      | .heap _ => (w.closeFds c.fd.toList).freeOverflow ref

/-- The `keep_alive` that `pw_proxy_http_call` passes to the release of a
connection it acquired. -/
def releaseFlag (env : CallEnv) (p : Prepared) : Bool :=
  decide (.connReleased true ∈ (exchange true { env with connected := true } p).1)

inductive PoolCall where
  | acquire (p : Prepared) (env : AcquireEnv)
  | release (env : CallEnv) (now : ℤ)
  | report (host : Bytes) (port : ℕ) (success : Bool) (now : ℤ)

/-- The socket behind a connection. -/
def PoolWorld.socket (w : PoolWorld) (ref : ConnRef) : Option (Handle SocketInfo) :=
  ((w.pool.conn ref).bind Conn.fd).bind w.kernel

/-- Call `t` now has a connection; a call has one at a time. -/
def PoolWorld.hand (w : PoolWorld) (t : ℕ) (p : Prepared) (since : ℕ) (ref : ConnRef) :
    PoolWorld :=
  { w with
    held := Function.update w.held t (some (p, ref))
    log := w.log ++ ((w.socket ref).map fun socket => ⟨socket, since, p.exempt⟩).toList }

/-- The end of an acquire for call `t`, which may have got a connection. -/
def handResult (t : ℕ) (p : Prepared) (since : ℕ) : Option ConnRef × PoolWorld → PoolWorld
  | (none, w) => w
  | (some ref, w) => w.hand t p since ref

/-- A connect gets a descriptor that is not in use; the scan before it may just
have closed one. -/
def fdTaken (w : PoolWorld) (p : Prepared) (env : AcquireEnv) : Bool :=
  (env.fd.bind (scanned w ⟨p.host, p.port, p.exempt, env.now⟩ env.alive).kernel).isSome

/-- One operation of call `t`. A call releases the connection it acquired, once. -/
def poolCall (w : PoolWorld) : ℕ × PoolCall → Option PoolWorld
  | (t, .acquire p env) =>
    if (w.held t).isSome || fdTaken w p env then none
    else some (handResult t p w.opened (vwasmHttpPoolAcquire w p env))
  | (t, .release env now) =>
    match w.held t with
    | none => none
    | some (p, ref) =>
      let w := { w with held := Function.update w.held t none }
      some (vwasmHttpPoolRelease w ref (releaseFlag env p) now)
  | (_, .report host port success now) =>
    some { w with
      breakers :=
        if success then vwasmHttpPoolCbSuccess w.breakers host port now
        else vwasmHttpPoolCbFailure w.breakers host port now }

section Steps

variable {w w' : PoolWorld} {t : ℕ}

theorem acquire_ready {p : Prepared} {env : AcquireEnv}
    (h : ¬ ((w.held t).isSome || fdTaken w p env) = true) :
    w.held t = none ∧ fdTaken w p env = false := by
  simpa only [Bool.or_eq_true, not_or, Bool.not_eq_true, Option.isSome_eq_false_iff,
    Option.isNone_iff_eq_none] using h

theorem poolCall_acquire {p : Prepared} {env : AcquireEnv}
    (h : poolCall w (t, .acquire p env) = some w') :
    w.held t = none ∧ fdTaken w p env = false ∧
      w' = handResult t p w.opened (vwasmHttpPoolAcquire w p env) := by
  rw [poolCall] at h
  split at h
  · contradiction
  next hready =>
    obtain ⟨hfree, hfd⟩ := acquire_ready hready
    exact ⟨hfree, hfd, (Option.some.inj h).symm⟩

theorem poolCall_release {env : CallEnv} {now : ℤ}
    (h : poolCall w (t, .release env now) = some w') :
    ∃ p ref, w.held t = some (p, ref) ∧
      w' = vwasmHttpPoolRelease { w with held := Function.update w.held t none } ref
        (releaseFlag env p) now := by
  rw [poolCall] at h
  split at h
  · contradiction
  next p ref hheld => exact ⟨p, ref, hheld, (Option.some.inj h).symm⟩

end Steps

end VmodWasm.HttpPool
