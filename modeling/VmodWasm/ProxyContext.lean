import VmodWasm.ByteStrings
import VmodWasm.Lib.KeyedList

/-!
The execution context of proxy_wasm.h that host functions work on, and the
observations the development makes of a run. Context fields keep the
source's names; the red-black tree of callout responses is the ascending list
of its entries. Events are ghost data: the code never reads them.
-/
namespace VmodWasm.ProxyContext

open ByteStrings

inductive ProxyStatus where
  | ok | notFound | badArgument | serialization | parseFailure | badExpression
  | invalidOp | empty | casMismatch | internal | unimplemented
  deriving DecidableEq, Repr

/-- The i32 a host function hands back. -/
def ProxyStatus.code : ProxyStatus → ℤ
  | .ok => 0
  | .notFound => 1
  | .badArgument => 2
  | .serialization => 3
  | .parseFailure => 4
  | .badExpression => 5
  | .invalidOp => 6
  | .empty => 7
  | .casMismatch => 8
  | .internal => 10
  | .unimplemented => 12

/-- The guest functions the host enters. -/
inductive Callback where
  | initializeModule | contextCreate | vmStart | configure | requestHeaders | responseHeaders
  | httpCallResponse | requestBody | responseBody | log | done | delete | tick
  deriving DecidableEq, Repr

inductive BufferType where
  | httpRequestBody | httpResponseBody | downstreamData | upstreamData | httpCallBody
  | grpcRecvMsg | vmConfiguration | pluginConfig | foreignFuncArgs
  deriving DecidableEq, Repr

/-- Any other code falls into the `default` branch of the source's switches. -/
def BufferType.ofCode : ℤ → Option BufferType
  | 0 => some .httpRequestBody
  | 1 => some .httpResponseBody
  | 2 => some .downstreamData
  | 3 => some .upstreamData
  | 4 => some .httpCallBody
  | 5 => some .grpcRecvMsg
  | 6 => some .vmConfiguration
  | 7 => some .pluginConfig
  | 8 => some .foreignFuncArgs
  | _ => none

/-- A stored callout response, `struct vwasm_http_call_entry`. The body is
the part of the raw buffer after its header block. -/
structure HttpCallEntry where
  tokenId : ℕ
  raw : Bytes
  body : Bytes
  numHeaders : ℕ
  deriving DecidableEq, Repr

structure ProxyCtx where
  memoryValid : Bool := false
  rootContextId : ℕ := 0
  streamContextId : ℕ := 0
  moduleName : Bytes := []
  localResponseSet : Bool := false
  localResponseCode : ℤ := 0
  localResponseBody : Option Bytes := none
  localResponseHeaders : Option Bytes := none
  vmConfig : Bytes := []
  pluginConfig : Bytes := []
  paused : Bool := false
  done : Bool := false
  httpCalls : List HttpCallEntry := []
  httpCallNextToken : ℕ := 0
  activeHttpCall : Option ℕ := none
  requestBody : Option Bytes := none
  responseBody : Option Bytes := none
  modifiedBody : Bytes := []
  bodyModified : Bool := false
  httpCallCount : ℕ := 0
  httpCallMax : ℕ := 0
  httpTimeoutMs : ℕ := 0
  allowedUpstreams : List Bytes := []
  deriving DecidableEq, Repr

inductive Outcome where
  | returned (value : ℤ)
  | trapped
  deriving DecidableEq, Repr

/-- What a run shows. `attempt` is the call of `vwasm_http_pool_acquire` or
`pw_http_connect`; `entered` carries the callback's arguments and the token
of `active_http_call` at that moment. -/
inductive Event where
  | entered (cb : Callback) (args : List ℤ) (active : Option ℕ)
  | left (cb : Callback) (outcome : Outcome)
  | localResponse (code : ℤ)
  | attempt (host : Bytes) (port timeoutMs : ℕ) (exempt : Bool)
  | cbSuccess (host : Bytes) (port : ℕ)
  | cbFailure (host : Bytes) (port : ℕ)
  | connReleased (keepAlive : Bool)
  | connClosed
  | httpCall (status : ProxyStatus) (token : Option ℕ)
  | bodySet (status : ProxyStatus)
  deriving DecidableEq, Repr

end VmodWasm.ProxyContext
