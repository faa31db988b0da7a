import VmodWasm.HostCalls
import VmodWasm.TrailerBlocks

/-!
The memory behind an execution context. What the other modules take for values,
the captured local response, the rewritten body, the callout responses and the
trailers, are blocks that the host functions allocate, replace and free and that
`vwasm_proxy_ctx_cleanup` frees at the end. Reads go through the blocks, too, so
that a program that reads or frees what is gone has no result. `Shows` says that
the blocks of a context, all of them, stand for the values of the other modules.
-/
namespace VmodWasm.ContextBlocks

open ByteStrings GuestMemory HttpText ProxyContext HttpCall HostCalls TrailerMaps TrailerBlocks
  Lib.KeyedList Lib.Blocks

/-- `struct vwasm_http_call_entry`, in the block `addr`; the body is a pointer into
the raw buffer. -/
structure CallNode where
  addr : ℕ
  tokenId : ℕ
  rawBuf : ℕ
  bodyStart : Option ℕ
  numHeaders : ℕ

/-- The collected request body, in an array of the caller or in a block. -/
inductive BodyPtr where
  | null
  | stack (data : Bytes)
  | heap (addr : ℕ)

/-- The context with its pointers. `plain` has the fields that are no pointers to
blocks, its other fields are not looked at. -/
structure BlockCtx where
  plain : ProxyCtx
  localResponseBody : Option ℕ := none
  localResponseHeaders : Option ℕ := none
  modifiedBody : Option ℕ := none
  requestBody : BodyPtr := .null
  httpCalls : List CallNode := []
  requestTrailers : List TrailerNode := []
  responseTrailers : List TrailerNode := []

section Model

def captureBlock (c : BlockCtx) (mem : Bytes) (ptr size : UInt32) (alloc : Bool)
    (old : Option ℕ) : Mem Bytes (Option ℕ) :=
  if size ≠ 0 ∧ pwValidateRegion c.plain.memoryValid mem ptr size = true then do
    freeOpt old
    if alloc then
      let i ← malloc (pwMemRegion mem ptr size)
      pure (some i)
    else pure none
  else pure old

def pwProxySendLocalResponse (env : CallEnv) (c : BlockCtx) (mem : Bytes) (statusCode : ℤ)
    (bodyPtr bodySize headersPtr headersSize : UInt32) : Mem Bytes BlockCtx := do
  let body ← captureBlock c mem bodyPtr bodySize env.bodyAlloc c.localResponseBody
  let headers ← captureBlock c mem headersPtr headersSize env.headersAlloc c.localResponseHeaders
  pure { c with
    plain := { c.plain with localResponseSet := true, localResponseCode := statusCode }
    localResponseBody := body
    localResponseHeaders := headers }

def BodyPtr.read : BodyPtr → Mem Bytes Bytes
  | .null => pure []
  | .stack data => pure data
  | .heap i => load i

/-- The new buffer of `pw_replace_bytes`, a null pointer for no bytes. -/
def pwReplaceBytes (base : Bytes) (start replaceLen : UInt32) (value : Bytes) (alloc : Bool) :
    Mem Bytes (Option (Option ℕ)) :=
  match HostCalls.pwReplaceBytes base start replaceLen value alloc with
  | none => pure none
  | some new =>
    if new = [] then pure (some none)
    else do
      let i ← malloc new
      pure (some (some i))

def readBase (c : BlockCtx) (original : Mem Bytes Bytes) : Mem Bytes Bytes :=
  if c.plain.bodyModified then readOpt c.modifiedBody else original

def setBody (env : CallEnv) (c : BlockCtx) (original : Mem Bytes Bytes) (start size : UInt32)
    (value : Bytes) : Mem Bytes (ProxyStatus × BlockCtx) := do
  let base ← readBase c original
  let new ← pwReplaceBytes base start size value env.bodyAlloc
  match new with
  | none => pure (.internal, c)
  | some newBody =>
    freeOpt c.modifiedBody
    pure (.ok, { c with modifiedBody := newBody, plain := { c.plain with bodyModified := true } })

def pwProxySetBufferBytes (env : CallEnv) (c : BlockCtx) (mem : Bytes) (bufferType : ℤ)
    (start size dataPtr dataSize : UInt32) : Mem Bytes (ProxyStatus × BlockCtx) :=
  if dataSize ≠ 0 ∧ pwValidateRegion c.plain.memoryValid mem dataPtr dataSize = false then
    pure (.badArgument, c)
  else
    let value := pwMemRegion mem dataPtr dataSize
    match BufferType.ofCode bufferType with
    | some .httpRequestBody => setBody env c c.requestBody.read start size value
    | some .httpResponseBody =>
      setBody env c (pure (c.plain.responseBody.getD [])) start size value
    | some _ => pure (.notFound, c)
    | none => pure (.badArgument, c)

def makeNode (token addr buf : ℕ) (raw : Bytes) : CallNode where
  addr := addr
  tokenId := token
  rawBuf := buf
  bodyStart := (findSub (crlf ++ crlf) raw).map (· + 4)
  numHeaders := (parseResponse token raw).numHeaders

/-- The node goes into the tree, and comes out again if its token cannot be
written back. -/
def linkResponse (c : BlockCtx) (mem : Bytes) (tokenPtr : UInt32) (node : CallNode) :
    Mem Bytes (ProxyStatus × Bytes × BlockCtx) :=
  let c := { c with httpCalls := insertKeyed CallNode.tokenId node c.httpCalls }
  match pwWriteU32 c.plain.memoryValid mem tokenPtr node.tokenId with
  | none => do
    free node.rawBuf
    free node.addr
    let calls := removeKeyed CallNode.tokenId node.tokenId c.httpCalls
    pure (.internal, mem, { c with httpCalls := calls })
  | some mem => pure (.ok, mem, c)

/-- The context once a token is drawn. -/
def drawToken (ctx : ProxyCtx) : ProxyCtx :=
  { ctx with httpCallNextToken := u32 (ctx.httpCallNextToken + 1) }

/-- The end of `pw_proxy_http_call`, with the response in the block `buf`. -/
def storeResponse (env : CallEnv) (c : BlockCtx) (mem : Bytes) (tokenPtr : UInt32) (buf : ℕ) :
    Mem Bytes (ProxyStatus × Bytes × BlockCtx) :=
  let c := { c with plain := drawToken c.plain }
  if env.entryAlloc then do
    let raw ← load buf
    let addr ← malloc []
    linkResponse c mem tokenPtr (makeNode c.plain.httpCallNextToken addr buf raw)
  else do
    free buf
    pure (.internal, mem, c)

/-- Whether `pw_proxy_http_call` gets as far as to a response buffer. -/
def received (env : CallEnv) (p : Prepared) : Bool :=
  env.connected && env.requestSent && (p.body.isEmpty || env.bodySent) && env.responseAlloc

def pwProxyHttpCall (hasPool : Bool) (env : CallEnv) (c : BlockCtx) (mem : Bytes)
    (args : HttpCallArgs) : Mem Bytes (ProxyStatus × Bytes × BlockCtx) :=
  if 0 < c.plain.httpCallMax ∧ c.plain.httpCallMax ≤ c.plain.httpCallCount then
    pure (.badArgument, mem, c)
  else
    let c := { c with plain := countCall c.plain }
    match prepare hasPool c.plain mem args with
    | .error status => pure (status, mem, c)
    | .ok p =>
      match (exchange hasPool env p).2 with
      | .error status => do
        if received env p then
          let buf ← malloc (readResponse env p.exempt).buf
          free buf
          pure (status, mem, c)
        else pure (status, mem, c)
      | .ok raw => do
        let buf ← malloc raw
        storeResponse env c mem args.tokenPtr buf

/-- One host call, with the status it returns. -/
def hostCall (hasPool : Bool) (env : CallEnv) (r : Request) (c : BlockCtx) :
    Mem Bytes (Reply × BlockCtx) :=
  match r.call with
  | .httpCall args => do
    let (status, mem, c) ← pwProxyHttpCall hasPool env c r.mem args
    pure (⟨mem, status.code⟩, c)
  | .sendLocalResponse code bodyPtr bodySize headersPtr headersSize => do
    let c ← pwProxySendLocalResponse env c r.mem code bodyPtr bodySize headersPtr headersSize
    pure (⟨r.mem, ProxyStatus.ok.code⟩, c)
  | .setBufferBytes bufferType start size dataPtr dataSize => do
    let (status, c) ← pwProxySetBufferBytes env c r.mem bufferType start size dataPtr dataSize
    pure (⟨r.mem, status.code⟩, c)
  | .continueStream =>
    pure (⟨r.mem, ProxyStatus.ok.code⟩, { c with plain := { c.plain with paused := false } })
  | .closeStream | .done =>
    pure (⟨r.mem, ProxyStatus.ok.code⟩, { c with plain := { c.plain with done := true } })

def freeCall (n : CallNode) : Mem Bytes Unit := do
  free n.rawBuf
  free n.addr

/-- The fields once everything is freed. A rewrite by no bytes has no block and
stays marked, and an array of the caller stays where it is. -/
def BlockCtx.cleaned (c : BlockCtx) : BlockCtx where
  plain := if c.modifiedBody.isSome then { c.plain with bodyModified := false } else c.plain
  requestBody :=
    match c.requestBody with
    | .heap _ => .null
    | .null => .null
    | .stack data => .stack data

def BodyPtr.free : BodyPtr → Mem Bytes Unit
  | .null | .stack _ => pure ()
  | .heap i => Lib.Blocks.free i

/-- The response body is never in a block of the context, nothing sets its flag. -/
def BlockCtx.freeAll (c : BlockCtx) : Mem Bytes Unit := do
  forEach freeCall c.httpCalls
  c.requestBody.free
  freeOpt c.localResponseBody
  freeOpt c.localResponseHeaders
  freeOpt c.modifiedBody
  forEach freeTrailer c.requestTrailers
  forEach freeTrailer c.responseTrailers

/-- `vwasm_proxy_ctx_cleanup` and `vwasm_trailer_map_cleanup`. -/
def vwasmProxyCtxCleanup (c : BlockCtx) : Mem Bytes BlockCtx := do
  c.freeAll
  pure c.cleaned

end Model

/-- The context as the other modules have it. -/
structure Values where
  ctx : ProxyCtx
  requestBodyHeap : Bool := false
  requestTrailers : TrailerMap
  responseTrailers : TrailerMap

section Shows

/-- A node of the response tree, with the block of the node itself. -/
def CallRow (n : CallNode) (e : HttpCallEntry) (P : Multiset (ℕ × Bytes)) : Prop :=
  n.tokenId = e.tokenId ∧ n.numHeaders = e.numHeaders ∧
    e.body = ((n.bodyStart.map fun k => e.raw.drop k).getD []) ∧
    P = {(n.rawBuf, e.raw)} + {(n.addr, [])}

/-- The request body and its flag `request_body_heap`. -/
inductive BodyCell : BodyPtr → Option Bytes → Bool → Multiset (ℕ × Bytes) → Prop
  | null : BodyCell .null none false 0
  | stack (data : Bytes) : BodyCell (.stack data) (some data) false 0
  | heap (i : ℕ) (data : Bytes) : BodyCell (.heap i) (some data) true {(i, data)}

/-- The fields of the context that are no pointers. -/
def SamePlain (p ctx : ProxyCtx) : Prop :=
  ctx = { p with
    localResponseBody := ctx.localResponseBody
    localResponseHeaders := ctx.localResponseHeaders
    modifiedBody := ctx.modifiedBody
    requestBody := ctx.requestBody
    httpCalls := ctx.httpCalls }

/-- The blocks `P` are those of the context, and they hold the values `v`. -/
inductive Shows (c : BlockCtx) (v : Values) (P : Multiset (ℕ × Bytes)) : Prop
  | mk {body headers modified request calls trailers trailers' : Multiset (ℕ × Bytes)} :
      SamePlain c.plain v.ctx →
      Cell c.localResponseBody v.ctx.localResponseBody body →
      Cell c.localResponseHeaders v.ctx.localResponseHeaders headers →
      Cell c.modifiedBody (nonempty v.ctx.modifiedBody) modified →
      BodyCell c.requestBody v.ctx.requestBody v.requestBodyHeap request →
      Listed CallRow c.httpCalls v.ctx.httpCalls calls →
      Listed TrailerRow c.requestTrailers v.requestTrailers.entries trailers →
      Listed TrailerRow c.responseTrailers v.responseTrailers.entries trailers' →
      P = calls + (request + (body + (headers + (modified + (trailers + trailers'))))) →
      Shows c v P

end Shows

section Specs

variable {c : BlockCtx} {v : Values} {P : Multiset (ℕ × Bytes)}

theorem Shows.samePlain (hs : Shows c v P) : SamePlain c.plain v.ctx := by
  obtain ⟨hplain, -⟩ := hs
  exact hplain

theorem captureBlock_spec {ctx : ProxyCtx} (hvalid : c.plain.memoryValid = ctx.memoryValid)
    (mem : Bytes) (ptr size : UInt32) (alloc : Bool) {old : Option ℕ} {value : Option Bytes}
    (hc : Cell old value P) :
    Triple P (captureBlock c mem ptr size alloc old) fun i P' =>
      Cell i (captureRegion ctx mem ptr size alloc value) P' := by
  unfold captureBlock captureRegion
  rw [hvalid]
  split
  · refine Triple.seq (Triple.freeOpt hc) ?_
    rintro _ _ rfl
    cases alloc with
    | false => exact Triple.pure Cell.null
    | true =>
      refine Triple.malloc_bind fun i => Triple.pure ?_
      rw [add_zero]
      exact Cell.block i _
  · exact Triple.pure hc

theorem pwProxySendLocalResponse_spec (hs : Shows c v P) (env : CallEnv) (mem : Bytes) (code : ℤ)
    (bodyPtr bodySize headersPtr headersSize : UInt32) :
    Triple P (pwProxySendLocalResponse env c mem code bodyPtr bodySize headersPtr headersSize)
      fun c' P' =>
        let ctx := HostCalls.pwProxySendLocalResponse env v.ctx mem code bodyPtr bodySize
          headersPtr headersSize
        Shows c' { v with ctx := ctx } P' := by
  obtain ⟨hplain, hbody, hheaders, hmod, hreq, hcalls, htr, htr', rfl⟩ := hs
  rename_i body headers modified request calls trailers trailers'
  have hvalid : c.plain.memoryValid = v.ctx.memoryValid := by rw [hplain]
  refine Triple.part (F := headers + (calls + request + modified + trailers + trailers'))
    (captureBlock_spec hvalid mem bodyPtr bodySize env.bodyAlloc hbody) (by abel) ?_
  intro i body' hbody'
  refine Triple.part (F := body' + (calls + request + modified + trailers + trailers'))
    (captureBlock_spec hvalid mem headersPtr headersSize env.headersAlloc hheaders) (by abel) ?_
  intro j headers' hheaders'
  refine Triple.pure (Shows.mk ?_ hbody' hheaders' hmod hreq hcalls htr htr' (by abel))
  rw [SamePlain, hplain]
  rfl

theorem BodyPtr.read_spec {b : BodyPtr} {data : Option Bytes} {heap : Bool}
    (hb : BodyCell b data heap P) :
    Triple P b.read fun a P' => a = data.getD [] ∧ P' = P := by
  cases hb with
  | null => exact Triple.pure ⟨rfl, rfl⟩
  | stack data => exact Triple.pure ⟨rfl, rfl⟩
  | heap i data => exact Triple.load i data

theorem pwReplaceBytes_spec (base : Bytes) (start size : UInt32) (value : Bytes) (alloc : Bool) :
    Triple 0 (pwReplaceBytes base start size value alloc) fun r P' =>
      match HostCalls.pwReplaceBytes base start size value alloc with
      | none => r = none ∧ P' = 0
      | some new => ∃ i, r = some i ∧ Cell i (nonempty new) P' := by
  unfold pwReplaceBytes
  cases HostCalls.pwReplaceBytes base start size value alloc with
  | none => exact Triple.pure ⟨rfl, rfl⟩
  | some new =>
    dsimp only
    split
    next hnil => exact Triple.pure ⟨none, rfl, Cell.unfilled hnil⟩
    next hne =>
      refine Triple.malloc_bind fun i => Triple.pure ⟨some i, rfl, ?_⟩
      rw [add_zero]
      exact Cell.filled i hne

/-- The rewrite of a body, wherever the original is read from. -/
theorem setBody_spec (hs : Shows c v P) (env : CallEnv) {original : Mem Bytes Bytes}
    {data : Option Bytes} (horig : Triple P original fun a P' => a = data.getD [] ∧ P' = P)
    (start size : UInt32) (value : Bytes) :
    Triple P (setBody env c original start size value) fun r P' =>
      let res := HostCalls.setBody env v.ctx data start size value
      r.1 = res.1 ∧ Shows r.2 { v with ctx := res.2 } P' := by
  have hbase : Triple P (readBase c original) fun a P' => a = bodyBase v.ctx data ∧ P' = P := by
    have hflag : c.plain.bodyModified = v.ctx.bodyModified := by rw [hs.samePlain]
    unfold readBase bodyBase
    rw [← hflag]
    split
    · obtain ⟨-, -, -, hmod, -, -, -, -, rfl⟩ := hs
      rename_i body headers modified request calls trailers trailers'
      exact Triple.reads (F := calls + request + body + headers + trailers + trailers')
        (readOpt_spec hmod) (by abel)
    · exact horig
  unfold setBody HostCalls.setBody
  refine Triple.seq hbase ?_
  rintro _ _ ⟨rfl, hsame⟩
  rw [hsame, ← zero_add P]
  refine Triple.bind (pwReplaceBytes_spec (bodyBase v.ctx data) start size value env.bodyAlloc) ?_
  intro new Pnew hnew
  cases hres : HostCalls.pwReplaceBytes (bodyBase v.ctx data) start size value env.bodyAlloc with
  | none =>
    simp only [hres] at hnew
    obtain ⟨rfl, rfl⟩ := hnew
    rw [zero_add]
    exact Triple.pure ⟨rfl, hs⟩
  | some new' =>
    simp only [hres] at hnew
    obtain ⟨i, rfl, hcell⟩ := hnew
    obtain ⟨hplain, hbody, hheaders, hmod, hreq, hcalls, htr, htr', rfl⟩ := hs
    rename_i body headers modified request calls trailers trailers'
    refine Triple.part (F := Pnew + (calls + request + body + headers + trailers + trailers'))
      (Triple.freeOpt hmod) (by abel) ?_
    rintro _ _ rfl
    refine Triple.pure ⟨rfl, Shows.mk ?_ hbody hheaders hcell hreq hcalls htr htr' (by abel)⟩
    rw [SamePlain, hplain]

theorem pwProxySetBufferBytes_spec (hs : Shows c v P) (env : CallEnv) (mem : Bytes)
    (bufferType : ℤ) (start size dataPtr dataSize : UInt32) :
    Triple P (pwProxySetBufferBytes env c mem bufferType start size dataPtr dataSize) fun r P' =>
      let res :=
        HostCalls.pwProxySetBufferBytes env v.ctx mem bufferType start size dataPtr dataSize
      r.1 = res.1 ∧ Shows r.2 { v with ctx := res.2 } P' := by
  have hvalid : c.plain.memoryValid = v.ctx.memoryValid := by rw [hs.samePlain]
  have hresponse : c.plain.responseBody = v.ctx.responseBody := by rw [hs.samePlain]
  have hrequest : Triple P c.requestBody.read fun a P' =>
      a = v.ctx.requestBody.getD [] ∧ P' = P := by
    obtain ⟨-, -, -, -, hreq, -, -, -, rfl⟩ := hs
    rename_i body headers modified request calls trailers trailers'
    exact Triple.reads (F := calls + body + headers + modified + trailers + trailers')
      (BodyPtr.read_spec hreq) (by abel)
  unfold pwProxySetBufferBytes HostCalls.pwProxySetBufferBytes
  rw [hvalid, hresponse]
  split
  · exact Triple.pure ⟨rfl, hs⟩
  · rcases BufferType.ofCode bufferType with _ | type
    · exact Triple.pure ⟨rfl, hs⟩
    · cases type with
      | httpRequestBody => exact setBody_spec hs env hrequest start size _
      | httpResponseBody => exact setBody_spec hs env (Triple.pure ⟨rfl, rfl⟩) start size _
      | _ => exact Triple.pure ⟨rfl, hs⟩

theorem mem_tokens {ns : List CallNode} {es : List HttpCallEntry} (h : Listed CallRow ns es P)
    {n : CallNode} (hn : n ∈ ns) : ∃ e ∈ es, n.tokenId = e.tokenId := by
  induction h with
  | nil => contradiction
  | @cons m e _ _ _ _ hrow _ ih =>
    rcases List.mem_cons.mp hn with rfl | hn
    · exact ⟨e, List.mem_cons_self, hrow.1⟩
    · obtain ⟨e', he', htok⟩ := ih hn
      exact ⟨e', List.mem_cons_of_mem _ he', htok⟩

theorem makeNode_row (token addr buf : ℕ) (raw : Bytes) :
    CallRow (makeNode token addr buf raw) (parseResponse token raw)
      ({(buf, raw)} + {(addr, [])}) := by
  unfold CallRow makeNode parseResponse
  cases findSub (crlf ++ crlf) raw with
  | none => exact ⟨rfl, rfl, rfl, rfl⟩
  | some i => exact ⟨rfl, rfl, rfl, rfl⟩

/-- The response goes into the tree, under a token that is not in it yet, or is
freed with the node. -/
theorem linkResponse_spec (hs : Shows c v P) (mem : Bytes) (tokenPtr : UInt32)
    (token addr buf : ℕ) (raw : Bytes) (hnew : ∀ e ∈ v.ctx.httpCalls, e.tokenId < token) :
    Triple ({(buf, raw)} + {(addr, [])} + P)
      (linkResponse c mem tokenPtr (makeNode token addr buf raw)) fun r P' =>
      match pwWriteU32 v.ctx.memoryValid mem tokenPtr token with
      | none => r.1 = .internal ∧ r.2.1 = mem ∧ Shows r.2.2 v P'
      | some mem' => r.1 = .ok ∧ r.2.1 = mem' ∧ Shows r.2.2 { v with
          ctx := { v.ctx with httpCalls := v.ctx.httpCalls ++ [parseResponse token raw] } } P' := by
  have hs' := hs
  obtain ⟨hplain, hbody, hheaders, hmod, hreq, hcalls, htr, htr', rfl⟩ := hs'
  have hvalid : c.plain.memoryValid = v.ctx.memoryValid := by rw [hplain]
  have hnew' (n : CallNode) (hn : n ∈ c.httpCalls) :
      n.tokenId < (makeNode token addr buf raw).tokenId := by
    obtain ⟨e, he, htok⟩ := mem_tokens hcalls hn
    rw [htok]
    exact hnew e he
  unfold linkResponse
  dsimp only
  rw [insertKeyed_last _ _ _ hnew', removeKeyed_last _ _ _ hnew', hvalid]
  dsimp only [makeNode]
  cases pwWriteU32 v.ctx.memoryValid mem tokenPtr token with
  | none =>
    rw [add_assoc]
    exact Triple.free_bind (Triple.free_bind (Triple.pure ⟨rfl, rfl, hs⟩))
  | some mem' =>
    have hcalls' := hcalls.append (listed_singleton (makeNode_row token addr buf raw))
    refine Triple.pure ⟨rfl, rfl, Shows.mk ?_ hbody hheaders hmod hreq hcalls' htr htr' (by abel)⟩
    rw [SamePlain, hplain]

/-- The next token is larger than those in the tree. -/
def TokensAscend (ctx : ProxyCtx) : Prop :=
  ∀ e ∈ ctx.httpCalls, e.tokenId < u32 (ctx.httpCallNextToken + 1)

theorem storeResponse_eq (env : CallEnv) (ctx : ProxyCtx) (mem : Bytes) (tokenPtr : UInt32)
    (raw : Bytes) (hnew : TokensAscend ctx) :
    HttpCall.storeResponse env ctx mem tokenPtr raw =
      if env.entryAlloc then
        match pwWriteU32 ctx.memoryValid mem tokenPtr (drawToken ctx).httpCallNextToken with
        | none => ⟨.internal, mem, drawToken ctx, []⟩
        | some mem => ⟨.ok, mem, { drawToken ctx with httpCalls := ctx.httpCalls ++
            [parseResponse (drawToken ctx).httpCallNextToken raw] }, []⟩
      else ⟨.internal, mem, drawToken ctx, []⟩ := by
  have hkey (token : ℕ) : (parseResponse token raw).tokenId = token :=
    (makeNode_row token 0 0 raw).1.symm
  have hnew' (e : HttpCallEntry) (he : e ∈ ctx.httpCalls) :
      e.tokenId < (parseResponse (u32 (ctx.httpCallNextToken + 1)) raw).tokenId := by
    rw [hkey]
    exact hnew e he
  have hremove := removeKeyed_last _ _ _ hnew'
  rw [hkey] at hremove
  unfold HttpCall.storeResponse
  cases env.entryAlloc with
  | false => rfl
  | true =>
    cases hwrite : pwWriteU32 ctx.memoryValid mem tokenPtr (u32 (ctx.httpCallNextToken + 1)) <;>
      simp only [Bool.not_true, Bool.false_eq_true, if_false, if_true, drawToken, hwrite,
        insertKeyed_last _ _ _ hnew', hremove]

theorem Shows.drawToken (hs : Shows c v P) :
    Shows { c with plain := drawToken c.plain } { v with ctx := drawToken v.ctx } P := by
  obtain ⟨hplain, hbody, hheaders, hmod, hreq, hcalls, htr, htr', hP⟩ := hs
  refine Shows.mk ?_ hbody hheaders hmod hreq hcalls htr htr' hP
  rw [SamePlain, hplain]
  rfl

theorem storeResponse_spec (hs : Shows c v P) (env : CallEnv) (mem : Bytes) (tokenPtr : UInt32)
    (buf : ℕ) (raw : Bytes) (hnew : TokensAscend v.ctx) :
    Triple ({(buf, raw)} + P) (storeResponse env c mem tokenPtr buf) fun r P' =>
      let res := HttpCall.storeResponse env v.ctx mem tokenPtr raw
      r.1 = res.status ∧ r.2.1 = res.mem ∧ Shows r.2.2 { v with ctx := res.ctx } P' := by
  have hdraw := hs.drawToken
  have htoken : (ContextBlocks.drawToken c.plain).httpCallNextToken =
      (ContextBlocks.drawToken v.ctx).httpCallNextToken := by
    rw [hs.samePlain]
    rfl
  rw [storeResponse_eq env v.ctx mem tokenPtr raw hnew]
  unfold storeResponse
  dsimp only
  rw [htoken]
  cases env.entryAlloc with
  | false => exact Triple.free_bind (Triple.pure ⟨rfl, rfl, hdraw⟩)
  | true =>
    refine Triple.load_bind (Triple.malloc_bind fun addr => ?_)
    rw [← add_assoc, add_comm {(addr, [])}]
    refine Triple.mono (linkResponse_spec hdraw mem tokenPtr _ addr buf raw hnew) ?_
    intro r P' hr
    rw [if_pos rfl]
    change match pwWriteU32 v.ctx.memoryValid mem tokenPtr _ with
      | none => _
      | some _ => _ at hr
    cases hw : pwWriteU32 v.ctx.memoryValid mem tokenPtr
        (ContextBlocks.drawToken v.ctx).httpCallNextToken with
    | none =>
      rw [hw] at hr
      exact hr
    | some mem' =>
      rw [hw] at hr
      exact hr

theorem Shows.countCall (hs : Shows c v P) :
    Shows { c with plain := countCall c.plain } { v with ctx := countCall v.ctx } P := by
  obtain ⟨hplain, hbody, hheaders, hmod, hreq, hcalls, htr, htr', hP⟩ := hs
  refine Shows.mk ?_ hbody hheaders hmod hreq hcalls htr htr' hP
  rw [SamePlain, hplain]
  rfl

theorem pwProxyHttpCall_spec (hs : Shows c v P) (hasPool : Bool) (env : CallEnv) (mem : Bytes)
    (args : HttpCallArgs) (hnew : TokensAscend v.ctx) :
    Triple P (pwProxyHttpCall hasPool env c mem args) fun r P' =>
      let res := HttpCall.pwProxyHttpCall hasPool env v.ctx mem args
      r.1 = res.status ∧ r.2.1 = res.mem ∧ Shows r.2.2 { v with ctx := res.ctx } P' := by
  have hcount := hs.countCall
  have hmax : c.plain.httpCallMax = v.ctx.httpCallMax := by rw [hs.samePlain]
  have hused : c.plain.httpCallCount = v.ctx.httpCallCount := by rw [hs.samePlain]
  have hprepare : prepare hasPool (HttpCall.countCall c.plain) mem args =
      prepare hasPool (HttpCall.countCall v.ctx) mem args := by
    rw [hs.samePlain]
    rfl
  unfold pwProxyHttpCall HttpCall.pwProxyHttpCall
  rw [hmax, hused]
  split
  · exact Triple.pure ⟨rfl, rfl, hs⟩
  · dsimp only
    rw [hprepare]
    cases prepare hasPool (HttpCall.countCall v.ctx) mem args with
    | error status => exact Triple.pure ⟨rfl, rfl, hcount⟩
    | ok p =>
      dsimp only
      rcases exchange hasPool env p with ⟨events, status | raw⟩
      · dsimp only
        split
        · exact Triple.malloc_bind fun buf => Triple.free_bind (Triple.pure ⟨rfl, rfl, hcount⟩)
        · exact Triple.pure ⟨rfl, rfl, hcount⟩
      · exact Triple.malloc_bind fun buf =>
          storeResponse_spec hcount env mem args.tokenPtr buf raw hnew

/-- The host call of the values, without its events. -/
def hostReply (hasPool : Bool) (env : CallEnv) (r : Request) (ctx : ProxyCtx) : Reply × ProxyCtx :=
  let res := handle { hasPool := hasPool, call := fun _ => env } r { ctx := ctx }
  (res.1, res.2.ctx)

theorem hostCall_spec (hs : Shows c v P) (hasPool : Bool) (env : CallEnv) (r : Request)
    (hnew : TokensAscend v.ctx) :
    Triple P (hostCall hasPool env r c) fun s P' =>
      let res := hostReply hasPool env r v.ctx
      s.1 = res.1 ∧ Shows s.2 { v with ctx := res.2 } P' := by
  obtain ⟨mem, call⟩ := r
  cases call with
  | httpCall args =>
    refine Triple.seq (pwProxyHttpCall_spec hs hasPool env mem args hnew) ?_
    rintro ⟨status, mem', c'⟩ P' ⟨rfl, rfl, hs'⟩
    exact Triple.pure ⟨rfl, hs'⟩
  | sendLocalResponse code bodyPtr bodySize headersPtr headersSize =>
    refine Triple.seq (pwProxySendLocalResponse_spec hs env mem code _ _ _ _) ?_
    intro c' P' hs'
    exact Triple.pure ⟨rfl, hs'⟩
  | setBufferBytes bufferType start size dataPtr dataSize =>
    refine Triple.seq (pwProxySetBufferBytes_spec hs env mem bufferType _ _ _ _) ?_
    rintro ⟨status, c'⟩ P' ⟨rfl, hs'⟩
    exact Triple.pure ⟨rfl, hs'⟩
  | continueStream | closeStream | done =>
    refine Triple.pure ⟨rfl, ?_⟩
    obtain ⟨hplain, hbody, hheaders, hmod, hreq, hcalls, htr, htr', hP⟩ := hs
    refine Shows.mk ?_ hbody hheaders hmod hreq hcalls htr htr' hP
    rw [SamePlain, hplain]
    rfl

end Specs

section Cleanup

variable {c : BlockCtx} {v : Values} {P : Multiset (ℕ × Bytes)}

theorem freeCall_spec (n : CallNode) (e : HttpCallEntry) (P : Multiset (ℕ × Bytes))
    (h : CallRow n e P) : Triple P (freeCall n) fun _ P' => P' = 0 := by
  obtain ⟨-, -, -, rfl⟩ := h
  exact Triple.free_bind (Triple.free n.addr [])

theorem BodyPtr.free_spec {b : BodyPtr} {data : Option Bytes} {heap : Bool}
    (h : BodyCell b data heap P) :
    Triple P b.free fun _ P' => P' = 0 := by
  cases h with
  | null => exact Triple.pure rfl
  | stack data => exact Triple.pure rfl
  | heap i data => exact Triple.free i data

/-- What the context shows once it is cleaned up. -/
def Values.cleaned (v : Values) : Values where
  ctx := { v.ctx with
    localResponseBody := none
    localResponseHeaders := none
    modifiedBody := []
    bodyModified := v.ctx.bodyModified && v.ctx.modifiedBody.isEmpty
    requestBody := if v.requestBodyHeap then none else v.ctx.requestBody
    httpCalls := [] }
  requestTrailers := TrailerMaps.pwTrailerClear
  responseTrailers := TrailerMaps.pwTrailerClear

theorem shows_cleaned {Pm Pr : Multiset (ℕ × Bytes)} (hplain : SamePlain c.plain v.ctx)
    (hmod : Cell c.modifiedBody (nonempty v.ctx.modifiedBody) Pm)
    (hreq : BodyCell c.requestBody v.ctx.requestBody v.requestBodyHeap Pr) :
    Shows c.cleaned v.cleaned 0 := by
  have hplain' : SamePlain c.cleaned.plain v.cleaned.ctx := by
    unfold SamePlain BlockCtx.cleaned Values.cleaned
    rw [hmod.isSome_eq, hplain]
    cases v.ctx.modifiedBody with
    | nil => simp
    | cons _ _ => simp
  have hreq' : BodyCell c.cleaned.requestBody v.cleaned.ctx.requestBody false 0 := by
    unfold BlockCtx.cleaned Values.cleaned
    dsimp only
    generalize c.requestBody = b, v.ctx.requestBody = data, v.requestBodyHeap = heap at hreq ⊢
    cases hreq with
    | null => exact BodyCell.null
    | stack data => exact BodyCell.stack data
    | heap i data => exact BodyCell.null
  exact Shows.mk hplain' Cell.null Cell.null Cell.null hreq' Listed.nil Listed.nil Listed.nil rfl

theorem BlockCtx.freeAll_spec (hs : Shows c v P) : Triple P c.freeAll fun _ P' => P' = 0 := by
  obtain ⟨hplain, hbody, hheaders, hmod, hreq, hcalls, htr, htr', rfl⟩ := hs
  refine Triple.frees_bind (Triple.forEach freeCall_spec hcalls) fun _ => ?_
  refine Triple.frees_bind (BodyPtr.free_spec hreq) fun _ => ?_
  refine Triple.frees_bind (Triple.freeOpt hbody) fun _ => ?_
  refine Triple.frees_bind (Triple.freeOpt hheaders) fun _ => ?_
  refine Triple.frees_bind (Triple.freeOpt hmod) fun _ => ?_
  refine Triple.frees_bind (Triple.forEach freeTrailer_spec htr) fun _ => ?_
  exact Triple.forEach freeTrailer_spec htr'

/-- Every block of a context is freed by its cleanup, and no other. -/
theorem vwasmProxyCtxCleanup_spec (hs : Shows c v P) :
    Triple P (vwasmProxyCtxCleanup c) fun c' P' => P' = 0 ∧ Shows c' v.cleaned 0 := by
  refine Triple.seq (BlockCtx.freeAll_spec hs) ?_
  rintro _ _ rfl
  obtain ⟨hplain, -, -, hmod, hreq, -, -, -, -⟩ := hs
  exact Triple.pure ⟨rfl, shows_cleaned hplain hmod hreq⟩

theorem BodyPtr.strict_free {b : BodyPtr} {data : Option Bytes} {heap : Bool}
    (h : BodyCell b data heap P) : Strict P b.free := by
  cases h with
  | null => exact strict_pure
  | stack data => exact strict_pure
  | heap i data => exact Lib.Blocks.strict_free i data

/-- The same blocks cannot be freed a second time. -/
theorem BlockCtx.strict_freeAll (hs : Shows c v P) : Strict P c.freeAll := by
  obtain ⟨-, hbody, hheaders, hmod, hreq, hcalls, htr, htr', rfl⟩ := hs
  have hcall (n : CallNode) (e : HttpCallEntry) (P : Multiset (ℕ × Bytes)) (h : CallRow n e P) :
      Strict P (freeCall n) := by
    obtain ⟨-, -, -, rfl⟩ := h
    exact (Lib.Blocks.strict_free n.rawBuf e.raw).bind (Lib.Blocks.strict_free n.addr [])
  have htrailer (n : TrailerNode) (e : Bytes × Bytes) (P : Multiset (ℕ × Bytes))
      (h : TrailerRow n e P) : Strict P (freeTrailer n) := by
    obtain rfl : P = {(n.name, e.1)} + {(n.value, e.2)} := h
    exact (Lib.Blocks.strict_free n.name e.1).bind (Lib.Blocks.strict_free n.value e.2)
  exact (strict_forEach hcall hcalls).bind <| (BodyPtr.strict_free hreq).bind <|
    (strict_freeOpt hbody).bind <| (strict_freeOpt hheaders).bind <| (strict_freeOpt hmod).bind <|
    (strict_forEach htrailer htr).bind (strict_forEach htrailer htr')

end Cleanup

end VmodWasm.ContextBlocks
