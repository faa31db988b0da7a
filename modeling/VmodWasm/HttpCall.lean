import VmodWasm.GuestMemory
import VmodWasm.HttpText
import VmodWasm.ProxyContext

/-!
`pw_proxy_http_call`. The function is cut where its effects are: the rate
limit, the checks that have no effect but their status, the exchange with the
upstream, and the entry in the response tree. What the world decides (connects,
writes, allocations, the bytes the upstream sends and how reads cut them) is
an argument.
-/
namespace VmodWasm.HttpCall

open ByteStrings GuestMemory HttpText ProxyContext Lib.KeyedList

/-- What the outside decides about one host call. A read returns up to the
next size of `sizes`; the stream ends when either list does. -/
structure CallEnv where
  connected : Bool := true
  requestSent : Bool := true
  bodySent : Bool := true
  responseAlloc : Bool := true
  stream : Bytes := []
  sizes : List ℕ := []
  entryAlloc : Bool := true
  bodyAlloc : Bool := true
  headersAlloc : Bool := true

structure HttpCallArgs where
  upstreamPtr : UInt32
  upstreamSize : UInt32
  headersPtr : UInt32
  headersSize : UInt32
  bodyPtr : UInt32
  bodySize : UInt32
  timeoutMs : UInt32
  tokenPtr : UInt32

def defaultHttpTimeoutMs : ℕ := 5000

/-- Module value, else engine value, else the default; at most 30 s. -/
def effectiveTimeout (ctx : ProxyCtx) (timeoutMs : UInt32) : ℕ :=
  let t := if timeoutMs = 0 then ctx.httpTimeoutMs else timeoutMs.toNat
  let t := if t = 0 then defaultHttpTimeoutMs else t
  if 30000 < t then 30000 else t

/-- `snprintf(upstream_check, 280, "%s:%u", host, port)`. -/
def upstreamCheck (host : Bytes) (port : ℕ) : Bytes :=
  (host ++ 0x3a :: decimal port).take 279

structure RequestHead where
  method : Bytes := ascii "GET"
  path : Bytes := ascii "/"
  extra : Bytes := []

/-- One header pair: the two pseudo-headers, a plain header, or nothing. -/
def RequestHead.addPair (head : RequestHead) (k v : Bytes) : Option RequestHead :=
  if k = ascii ":method" then some { head with method := v }
  else if k = ascii ":path" then some { head with path := v }
  else if 0 < k.length ∧ k.head? ≠ some 0x3a then
    (pwHttpAppendHeader head.extra 4096 k v).map fun extra => { head with extra := extra }
  else some head

/-- The pair loop over a serialized header map: `n` pairs left, pair `hi`
next, its key at `off`. -/
def decodePairs (hdr : Bytes) : ℕ → ℕ → ℕ → RequestHead → Option RequestHead
  | 0, _, _, head => some head
  | n + 1, hi, off, head =>
    let ks := readU32 hdr (4 + hi * 8)
    let vs := readU32 hdr (4 + hi * 8 + 4)
    if hdr.length - off < ks + 1 then none
    else if hdr.getD (off + ks) 0 ≠ 0 then none
    else
      let voff := off + (ks + 1)
      if hdr.length - voff < vs + 1 then none
      else if hdr.getD (voff + vs) 0 ≠ 0 then none
      else
        match head.addPair ((hdr.drop off).take ks) ((hdr.drop voff).take vs) with
        | none => none
        | some head' => decodePairs hdr n (hi + 1) (voff + (vs + 1)) head'

def decodeHeaderMap (valid : Bool) (mem : Bytes) (ptr size : UInt32) : Option RequestHead :=
  if size = 0 then some {}
  else if size < 4 ∨ pwValidateRegion valid mem ptr size = false then none
  else
    let hdr := pwMemRegion mem ptr size
    let numPairs := readU32 hdr 0
    if 64 < numPairs then none
    else if hdr.length < 4 + numPairs * 8 then none
    else decodePairs hdr numPairs 0 (4 + numPairs * 8) {}

/-- A checked call, ready for its connection. -/
structure Prepared where
  host : Bytes
  port : ℕ
  timeoutMs : ℕ
  exempt : Bool
  request : Bytes
  body : Bytes

def buildRequest (head : RequestHead) (host : Bytes) (bodySize : ℕ) (keepAlive : Bool) : Bytes :=
  head.method ++ ascii " " ++ head.path ++ ascii " HTTP/1.1" ++ crlf ++
    ascii "Host: " ++ host ++ crlf ++
    (if 0 < bodySize then ascii "Content-Length: " ++ decimal bodySize ++ crlf else []) ++
    (if keepAlive then ascii "Connection: keep-alive" else ascii "Connection: close") ++ crlf ++
    head.extra ++ crlf

/-- The allowlist check: `none` refuses, `some exempt` admits. -/
def checkAllowlist (ctx : ProxyCtx) (host : Bytes) (port : ℕ) : Option Bool :=
  if ctx.allowedUpstreams = [] then some false
  else if upstreamCheck host port ∈ ctx.allowedUpstreams then some true
  else none

/-- Everything between the counter and the connection. -/
def prepare (hasPool : Bool) (ctx : ProxyCtx) (mem : Bytes) (args : HttpCallArgs) :
    Except ProxyStatus Prepared :=
  match pwReadString ctx.memoryValid mem args.upstreamPtr args.upstreamSize 256 with
  | none => .error .badArgument
  | some upstream =>
  match pwHttpParseUpstream upstream 256 with
  | none => .error .badArgument
  | some (host, port) =>
  match checkAllowlist ctx host port with
  | none => .error .badArgument
  | some exempt =>
  match decodeHeaderMap ctx.memoryValid mem args.headersPtr args.headersSize with
  | none => .error .badArgument
  | some head =>
    if !pwHttpMethodOk head.method || !pwHttpPathOk head.path ||
        decide (intMax < head.method.length) || decide (intMax < head.path.length) then
      .error .badArgument
    else if args.bodySize ≠ 0 ∧
        pwValidateRegion ctx.memoryValid mem args.bodyPtr args.bodySize = false then
      .error .badArgument
    else
      let request := buildRequest head host args.bodySize.toNat (hasPool && exempt)
      if 8192 ≤ request.length then .error .internal
      else .ok {
        host := host
        port := port
        timeoutMs := effectiveTimeout ctx args.timeoutMs
        exempt := exempt
        request := request
        body := pwMemRegion mem args.bodyPtr args.bodySize
      }

def maxResponse : ℕ := 256 * 1024

/-- Phase 1: read until the buffer holds the end of a header block. -/
def readHead : List ℕ → Bytes → Bytes → Bytes × Option ℕ × List ℕ × Bytes
  | [], stream, buf => (buf, none, [], stream)
  | k :: ks, stream, buf =>
    if maxResponse ≤ buf.length then (buf, none, k :: ks, stream)
    else
      let got := stream.take (min k (maxResponse - buf.length))
      if got = [] then (buf, none, ks, stream)
      else
        match strstr (buf ++ got) (crlf ++ crlf) with
        | some i => (buf ++ got, some i, ks, stream.drop got.length)
        | none => readHead ks (stream.drop got.length) (buf ++ got)

/-- Phase 2: read the rest of a body of known length; returns what is missing. -/
def readBody : List ℕ → Bytes → Bytes → ℕ → Bytes × ℕ
  | _, _, buf, 0 => (buf, 0)
  | [], _, buf, need + 1 => (buf, need + 1)
  | k :: ks, stream, buf, need + 1 =>
    let room := maxResponse - buf.length
    if room = 0 then (buf, need + 1)
    else
      let got := stream.take (min k (min (need + 1) room))
      if got = [] then (buf, need + 1)
      else readBody ks (stream.drop got.length) (buf ++ got) (need + 1 - got.length)

structure ResponseRead where
  buf : Bytes
  complete : Bool
  reusable : Bool
  status : ProxyStatus

/-- The part of the source between `response_len = 0` and `response_done`. -/
def readResponse (env : CallEnv) (exempt : Bool) : ResponseRead :=
  match readHead env.sizes env.stream [] with
  | (buf, none, _, _) => ⟨buf, false, false, .parseFailure⟩
  | (buf, some i, sizes, stream) =>
    let headerBytes := i + 4
    let http11 := (ascii "HTTP/1.1").isPrefixOf buf
    let chunked :=
      match pwHttpFindHeaderValue buf headerBytes (ascii "Transfer-Encoding") with
      | some value => pwHttpValueHasToken value (ascii "chunked")
      | none => false
    if chunked then ⟨buf, false, false, .unimplemented⟩
    else
      let connClose :=
        match pwHttpFindHeaderValue buf headerBytes (ascii "Connection") with
        | some value => pwHttpValueHasToken value (ascii "close")
        | none => false
      match pwHttpFindHeaderValue buf headerBytes (ascii "Content-Length") with
      | some value =>
        match pwHttpParseSize value with
        | none => ⟨buf, false, false, .parseFailure⟩
        | some contentLength =>
          if maxResponse - headerBytes < contentLength then ⟨buf, false, false, .internal⟩
          else if contentLength < buf.length - headerBytes then
            ⟨buf.take (headerBytes + contentLength), true, false, .ok⟩
          else
            let (full, missing) :=
              readBody sizes stream buf (contentLength - (buf.length - headerBytes))
            if missing = 0 then ⟨full, true, http11 && !connClose && exempt, .ok⟩
            else ⟨full, false, false, .internal⟩
      | none =>
        if buf.length = headerBytes then ⟨buf, true, false, .ok⟩
        else ⟨buf, false, false, .parseFailure⟩

/-- Connect, send and read. The events are those of the source in order. -/
def exchange (hasPool : Bool) (env : CallEnv) (p : Prepared) :
    List Event × Except ProxyStatus Bytes :=
  let attempt := Event.attempt p.host p.port p.timeoutMs p.exempt
  let failed := if hasPool then [Event.cbFailure p.host p.port] else []
  let close := if hasPool then Event.connReleased false else Event.connClosed
  if !env.connected then (attempt :: failed, .error .internal)
  else if !env.requestSent then (attempt :: close :: failed, .error .internal)
  else if p.body ≠ [] ∧ env.bodySent = false then (attempt :: close :: failed, .error .internal)
  else if !env.responseAlloc then (attempt :: close :: failed, .error .internal)
  else
    let r := readResponse env p.exempt
    let release := if hasPool then Event.connReleased r.reusable else Event.connClosed
    let report :=
      if hasPool then
        [if r.complete then Event.cbSuccess p.host p.port else Event.cbFailure p.host p.port]
      else []
    if !r.complete || r.buf.isEmpty then (attempt :: release :: report, .error r.status)
    else (attempt :: release :: report, .ok r.buf)

/-- Lines after the status line, as the source counts them. -/
def countHeaders (head : Bytes) : ℕ :=
  let rest := (head.dropWhile (· != 0x0a)).drop 1
  rest.count 0x0a + if rest = [] ∨ rest.getLast? = some 0x0a then 0 else 1

def parseResponse (token : ℕ) (raw : Bytes) : HttpCallEntry :=
  match findSub (crlf ++ crlf) raw with
  | some i => ⟨token, raw, raw.drop (i + 4), if 0 < i then countHeaders (raw.take i) else 0⟩
  | none => ⟨token, raw, [], 0⟩

structure HttpCallResult where
  status : ProxyStatus
  mem : Bytes
  ctx : ProxyCtx
  events : List Event

/-- Store the response under a new token and write the token back; a failed
write-back takes the entry out again. -/
def storeResponse (env : CallEnv) (ctx : ProxyCtx) (mem : Bytes) (tokenPtr : UInt32)
    (raw : Bytes) : HttpCallResult :=
  let token := u32 (ctx.httpCallNextToken + 1)
  let ctx := { ctx with httpCallNextToken := token }
  if !env.entryAlloc then ⟨.internal, mem, ctx, []⟩
  else
    let calls := insertKeyed HttpCallEntry.tokenId (parseResponse token raw) ctx.httpCalls
    match pwWriteU32 ctx.memoryValid mem tokenPtr token with
    | none =>
      let calls := removeKeyed HttpCallEntry.tokenId token calls
      ⟨.internal, mem, { ctx with httpCalls := calls }, []⟩
    | some mem => ⟨.ok, mem, { ctx with httpCalls := calls }, []⟩

/-- The context once the call is counted. -/
def countCall (ctx : ProxyCtx) : ProxyCtx :=
  { ctx with httpCallCount := u32 (ctx.httpCallCount + 1) }

/-- `pw_proxy_http_call`; the last event records how it came back. -/
def pwProxyHttpCall (hasPool : Bool) (env : CallEnv) (ctx : ProxyCtx) (mem : Bytes)
    (args : HttpCallArgs) : HttpCallResult :=
  if 0 < ctx.httpCallMax ∧ ctx.httpCallMax ≤ ctx.httpCallCount then
    ⟨.badArgument, mem, ctx, [.httpCall .badArgument none]⟩
  else
    let ctx := countCall ctx
    match prepare hasPool ctx mem args with
    | .error status => ⟨status, mem, ctx, [.httpCall status none]⟩
    | .ok p =>
      match exchange hasPool env p with
      | (events, .error status) => ⟨status, mem, ctx, events ++ [.httpCall status none]⟩
      | (events, .ok raw) =>
        let r := storeResponse env ctx mem args.tokenPtr raw
        let token := if r.status = .ok then some r.ctx.httpCallNextToken else none
        { r with events := events ++ [.httpCall r.status token] }

/-- The ways the call can go: refused by the limit, refused by a check, failed
in the exchange, or handed to the response tree. -/
theorem pwProxyHttpCall_cases (hasPool : Bool) (env : CallEnv) (ctx : ProxyCtx) (mem : Bytes)
    (args : HttpCallArgs) (r : HttpCallResult) (hr : pwProxyHttpCall hasPool env ctx mem args = r) :
    (0 < ctx.httpCallMax ∧ ctx.httpCallMax ≤ ctx.httpCallCount ∧
      r = ⟨.badArgument, mem, ctx, [.httpCall .badArgument none]⟩) ∨
    (¬ (0 < ctx.httpCallMax ∧ ctx.httpCallMax ≤ ctx.httpCallCount) ∧
      ((∃ status, prepare hasPool (countCall ctx) mem args = .error status ∧
          r = ⟨status, mem, countCall ctx, [.httpCall status none]⟩) ∨
        ∃ p, prepare hasPool (countCall ctx) mem args = .ok p ∧
          ((∃ events status, exchange hasPool env p = (events, .error status) ∧
              r = ⟨status, mem, countCall ctx, events ++ [.httpCall status none]⟩) ∨
            ∃ events raw stored, exchange hasPool env p = (events, .ok raw) ∧
              storeResponse env (countCall ctx) mem args.tokenPtr raw = stored ∧
              r = { stored with events := events ++ [.httpCall stored.status
                (if stored.status = .ok then some stored.ctx.httpCallNextToken else none)] }))) := by
  subst hr
  unfold pwProxyHttpCall
  split
  next hlimit => exact Or.inl ⟨hlimit.1, hlimit.2, rfl⟩
  next hlimit =>
    refine Or.inr ⟨hlimit, ?_⟩
    dsimp only
    cases hp : prepare hasPool (countCall ctx) mem args with
    | error status => exact Or.inl ⟨status, rfl, rfl⟩
    | ok p =>
      refine Or.inr ⟨p, rfl, ?_⟩
      dsimp only
      rcases hx : exchange hasPool env p with ⟨events, status | raw⟩
      · exact Or.inl ⟨events, status, rfl, rfl⟩
      · exact Or.inr ⟨events, raw, _, rfl, rfl, rfl⟩

/-- What the checks have established when a call is ready for its connection. -/
theorem prepare_spec (hasPool : Bool) (ctx : ProxyCtx) (mem : Bytes) (args : HttpCallArgs)
    (p : Prepared) (h : prepare hasPool ctx mem args = .ok p) :
    ∃ upstream head,
      pwReadString ctx.memoryValid mem args.upstreamPtr args.upstreamSize 256 = some upstream ∧
      pwHttpParseUpstream upstream 256 = some (p.host, p.port) ∧
      checkAllowlist ctx p.host p.port = some p.exempt ∧
      decodeHeaderMap ctx.memoryValid mem args.headersPtr args.headersSize = some head ∧
      pwHttpMethodOk head.method = true ∧ pwHttpPathOk head.path = true ∧
      (args.bodySize = 0 ∨
        pwValidateRegion ctx.memoryValid mem args.bodyPtr args.bodySize = true) ∧
      p.request = buildRequest head p.host args.bodySize.toNat (hasPool && p.exempt) ∧
      p.body = pwMemRegion mem args.bodyPtr args.bodySize ∧
      p.timeoutMs = effectiveTimeout ctx args.timeoutMs := by
  unfold prepare at h
  split at h
  · cases h
  next upstream hread =>
    split at h
    · cases h
    next host port hparse =>
      split at h
      · cases h
      next exempt hallow =>
        split at h
        · cases h
        next head hhead =>
          split at h
          · cases h
          next htexts =>
            split at h
            · cases h
            next hbody =>
              dsimp only at h
              split at h
              · cases h
              · injection h with h
                subst h
                simp only [Bool.or_eq_true, Bool.not_eq_true', not_or, Bool.not_eq_false]
                  at htexts
                refine ⟨upstream, head, hread, hparse, hallow, hhead, htexts.1.1.1,
                  htexts.1.1.2, ?_, rfl, rfl, rfl⟩
                by_cases hsize : args.bodySize = 0
                · exact Or.inl hsize
                · exact Or.inr (by simpa [hsize] using hbody)

theorem prepare_ok (hasPool : Bool) (ctx : ProxyCtx) (mem : Bytes) (args : HttpCallArgs)
    (p : Prepared) (h : prepare hasPool ctx mem args = .ok p) :
    ∃ upstream,
      pwReadString ctx.memoryValid mem args.upstreamPtr args.upstreamSize 256 = some upstream ∧
      pwHttpParseUpstream upstream 256 = some (p.host, p.port) ∧
      checkAllowlist ctx p.host p.port = some p.exempt ∧
      p.timeoutMs = effectiveTimeout ctx args.timeoutMs := by
  obtain ⟨upstream, _, hread, hparse, hallow, _, _, _, _, _, _, htimeout⟩ :=
    prepare_spec hasPool ctx mem args p h
  exact ⟨upstream, hread, hparse, hallow, htimeout⟩

/-- A callout that names its upstream, which stands at the start of memory, and
nothing else. -/
def plainArgs (upstream : Bytes) (tokenPtr : UInt32) : HttpCallArgs :=
  ⟨0, UInt32.ofNat upstream.length, 0, 0, 0, 0, 0, tokenPtr⟩

theorem buildRequest_length (host : Bytes) (keepAlive : Bool) (h : host.length < 256) :
    (buildRequest {} host 0 keepAlive).length < 8192 := by
  cases keepAlive <;> simp [buildRequest, ascii, crlf] <;> omega

theorem prepare_plain (hasPool : Bool) (ctx : ProxyCtx) (upstream rest host : Bytes) (port : ℕ)
    (tokenPtr : UInt32) (exempt : Bool) (hvalid : ctx.memoryValid = true)
    (hparse : pwHttpParseUpstream upstream 256 = some (host, port))
    (hallow : checkAllowlist ctx host port = some exempt) :
    prepare hasPool ctx (upstream ++ rest) (plainArgs upstream tokenPtr) =
      .ok ⟨host, port, effectiveTimeout ctx 0, exempt,
        buildRequest {} host 0 (hasPool && exempt), []⟩ := by
  have hlen := (pwHttpParseUpstream_cases hparse).1
  have hsize : (UInt32.ofNat upstream.length).toNat = upstream.length := by
    rw [UInt32.toNat_ofNat']
    omega
  have hnz : UInt32.ofNat upstream.length ≠ 0 := by
    intro h
    rw [h] at hsize
    simp at hsize
    omega
  have hread : pwReadString ctx.memoryValid (upstream ++ rest) 0
      (UInt32.ofNat upstream.length) 256 = some upstream := by
    simp [pwReadString, pwValidateRegion, pwMemRegion, hnz, hvalid, hsize, hlen.2]
  obtain ⟨hhost, _⟩ := pwHttpParseUpstream_bounds upstream host 256 port hparse
  have hrequest := buildRequest_length host (hasPool && exempt) hhost
  have hchecks : (!pwHttpMethodOk (ascii "GET") || !pwHttpPathOk (ascii "/") ||
      decide (intMax < (ascii "GET").length) || decide (intMax < (ascii "/").length)) = false := by
    decide
  unfold prepare plainArgs
  dsimp only
  rw [hread]
  dsimp only
  rw [hparse]
  dsimp only
  rw [hallow]
  simp only [decodeHeaderMap, if_true, hchecks]
  simp [Nat.not_le.mpr hrequest, pwMemRegion]

/-- An exchange comes to reading a response. -/
def sends (env : CallEnv) (p : Prepared) : Bool :=
  env.connected && env.requestSent && (p.body.isEmpty || env.bodySent) && env.responseAlloc

/-- What an exchange reports: a failure before there is a response to read, or
the outcome of reading it. -/
theorem exchange_cases (hasPool : Bool) (env : CallEnv) (p : Prepared) :
    (sends env p = false ∧ ∃ rest, exchange hasPool env p =
        (.attempt p.host p.port p.timeoutMs p.exempt :: rest, .error .internal) ∧
      ∀ e ∈ rest, e ∈ [.connReleased false, .connClosed, .cbFailure p.host p.port]) ∨
    (sends env p = true ∧ exchange hasPool env p =
      (.attempt p.host p.port p.timeoutMs p.exempt ::
        (if hasPool then .connReleased (readResponse env p.exempt).reusable else .connClosed) ::
        (if hasPool then [if (readResponse env p.exempt).complete then .cbSuccess p.host p.port
          else .cbFailure p.host p.port] else []),
        if !(readResponse env p.exempt).complete || (readResponse env p.exempt).buf.isEmpty
        then .error (readResponse env p.exempt).status
        else .ok (readResponse env p.exempt).buf)) := by
  have hfailed (close : List Event)
      (hclose : close ⊆ [if hasPool then .connReleased false else .connClosed]) :
      ∀ e ∈ close ++ (if hasPool then [Event.cbFailure p.host p.port] else []),
        e ∈ [.connReleased false, .connClosed, .cbFailure p.host p.port] := by
    intro e he
    rcases List.mem_append.mp he with he | he
    · rw [List.mem_singleton.mp (hclose he)]
      cases hasPool <;> simp
    · cases hasPool with
      | false => simp at he
      | true =>
        rw [List.mem_singleton.mp he]
        simp
  unfold exchange sends
  cases hconnected : env.connected with
  | false => exact Or.inl ⟨rfl, _, rfl, hfailed [] (by simp)⟩
  | true =>
    cases hsent : env.requestSent with
    | false => exact Or.inl ⟨rfl, _, rfl, hfailed [_] (by simp)⟩
    | true =>
      by_cases hbody : p.body ≠ [] ∧ env.bodySent = false
      · exact Or.inl ⟨by simp [hbody.1, hbody.2], _, if_pos hbody, hfailed [_] (by simp)⟩
      · have hwhole : (p.body.isEmpty || env.bodySent) = true := by
          rw [not_and_or, not_not, Bool.not_eq_false, ← List.isEmpty_iff] at hbody
          exact (Bool.or_eq_true _ _).mpr hbody
        cases halloc : env.responseAlloc with
        | false =>
          exact Or.inl ⟨Bool.and_false _, _, (if_neg hbody).trans rfl, hfailed [_] (by simp)⟩
        | true =>
          refine Or.inr ⟨by rw [hwhole]; rfl, (if_neg hbody).trans ?_⟩
          generalize readResponse env p.exempt = r
          cases hfailure : !r.complete || r.buf.isEmpty with
          | false => exact if_neg (Bool.eq_false_iff.mp hfailure)
          | true => exact if_pos hfailure

/-- What can follow an attempt: the connection goes back and the circuit
breaker is told. -/
def isAftermath : Event → Bool
  | .cbSuccess .. | .cbFailure .. | .connReleased .. | .connClosed => true
  | _ => false

/-- One attempt, to the checked upstream, and then only its aftermath. -/
theorem exchange_events (hasPool : Bool) (env : CallEnv) (p : Prepared) :
    ∃ rest, (exchange hasPool env p).1 =
        .attempt p.host p.port p.timeoutMs p.exempt :: rest ∧
      ∀ e ∈ rest, isAftermath e = true := by
  rcases exchange_cases hasPool env p with ⟨-, rest, heq, hrest⟩ | ⟨-, heq⟩
  · refine ⟨rest, by rw [heq], fun e he => ?_⟩
    have hmem := hrest e he
    simp only [List.mem_cons, List.not_mem_nil, or_false] at hmem
    rcases hmem with rfl | rfl | rfl <;> rfl
  · refine ⟨_, by rw [heq], ?_⟩
    cases hasPool with
    | false => simp [isAftermath]
    | true => cases (readResponse env p.exempt).complete <;> simp [isAftermath]

theorem storeResponse_ctx (env : CallEnv) (ctx : ProxyCtx) (mem : Bytes) (tokenPtr : UInt32)
    (raw : Bytes) :
    ∃ calls, (storeResponse env ctx mem tokenPtr raw).ctx =
      { ctx with httpCalls := calls, httpCallNextToken := u32 (ctx.httpCallNextToken + 1) } := by
  unfold storeResponse
  dsimp only
  split
  · exact ⟨ctx.httpCalls, rfl⟩
  · split <;> exact ⟨_, rfl⟩

section Call

variable (hasPool : Bool) (env : CallEnv) (ctx : ProxyCtx) (mem : Bytes) (args : HttpCallArgs)

/-- A callout touches only its own three fields of the context. -/
theorem pwProxyHttpCall_ctx :
    ∃ calls token count, (pwProxyHttpCall hasPool env ctx mem args).ctx =
      { ctx with httpCalls := calls, httpCallNextToken := token, httpCallCount := count } := by
  rcases pwProxyHttpCall_cases hasPool env ctx mem args _ rfl with
    ⟨_, _, hr⟩ | ⟨_, ⟨_, _, hr⟩ | ⟨p, _, ⟨_, _, _, hr⟩ | ⟨_, raw, stored, _, hs, hr⟩⟩⟩
  · exact ⟨_, _, _, by rw [hr]⟩
  · exact ⟨_, _, _, by rw [hr]; rfl⟩
  · exact ⟨_, _, _, by rw [hr]; rfl⟩
  · obtain ⟨calls, hcalls⟩ :=
      storeResponse_ctx env (countCall ctx) mem args.tokenPtr raw
    rw [hs] at hcalls
    exact ⟨calls, _, _, by rw [hr]; exact hcalls⟩

/-- The events of a callout: at most one attempt, its aftermath, the return. -/
theorem pwProxyHttpCall_events :
    ∃ status token, (pwProxyHttpCall hasPool env ctx mem args).events = [.httpCall status token] ∨
      ∃ p rest, ¬ (0 < ctx.httpCallMax ∧ ctx.httpCallMax ≤ ctx.httpCallCount) ∧
        (pwProxyHttpCall hasPool env ctx mem args).ctx.httpCallCount = u32 (ctx.httpCallCount + 1) ∧
        prepare hasPool (countCall ctx) mem args = .ok p ∧
        (pwProxyHttpCall hasPool env ctx mem args).events =
          .attempt p.host p.port p.timeoutMs p.exempt :: rest ++ [.httpCall status token] ∧
        ∀ e ∈ rest, isAftermath e = true := by
  rcases pwProxyHttpCall_cases hasPool env ctx mem args _ rfl with
    ⟨_, _, hr⟩ | ⟨hlimit, ⟨_, _, hr⟩ | ⟨p, hp, hx⟩⟩
  · exact ⟨_, _, Or.inl (by rw [hr])⟩
  · exact ⟨_, _, Or.inl (by rw [hr])⟩
  · obtain ⟨rest, hrest, haft⟩ := exchange_events hasPool env p
    rcases hx with ⟨events, status, hx, hr⟩ | ⟨events, raw, stored, hx, hs, hr⟩
    · rw [hx] at hrest
      dsimp only at hrest
      subst hrest
      exact ⟨_, _, Or.inr ⟨p, rest, hlimit, by rw [hr]; rfl, hp, by rw [hr], haft⟩⟩
    · rw [hx] at hrest
      dsimp only at hrest
      subst hrest
      obtain ⟨calls, hcalls⟩ := storeResponse_ctx env (countCall ctx) mem args.tokenPtr raw
      rw [hs] at hcalls
      exact ⟨_, _, Or.inr ⟨p, rest, hlimit, by rw [hr, hcalls]; rfl, hp, by rw [hr], haft⟩⟩

/-- Within the limit, a call that passes its checks is attempted. -/
theorem pwProxyHttpCall_attempt (p : Prepared)
    (hlimit : ¬ (0 < ctx.httpCallMax ∧ ctx.httpCallMax ≤ ctx.httpCallCount))
    (hp : prepare hasPool (countCall ctx) mem args = .ok p) :
    .attempt p.host p.port p.timeoutMs p.exempt ∈
      (pwProxyHttpCall hasPool env ctx mem args).events := by
  obtain ⟨rest, hrest, _⟩ := exchange_events hasPool env p
  rcases pwProxyHttpCall_cases hasPool env ctx mem args _ rfl with
    ⟨hpos, hle, _⟩ | ⟨_, ⟨_, herr, _⟩ | ⟨p', hp', hx⟩⟩
  · exact absurd ⟨hpos, hle⟩ hlimit
  · rw [hp] at herr
    contradiction
  · rw [hp] at hp'
    injection hp' with hp'
    subst hp'
    rcases hx with ⟨events, status, hx, hr⟩ | ⟨events, raw, stored, hx, _, hr⟩ <;>
    · rw [hx] at hrest
      rw [hr, show events = _ from hrest]
      exact List.mem_append_left _ (List.mem_cons_self ..)

end Call

end VmodWasm.HttpCall
