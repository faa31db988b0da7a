import VmodWasm.ProxyContext

/-!
The host functions a module can import, and loaded modules. The engine has one
linker for all modules: raw functions and Proxy-Wasm functions under `env`, WASI
functions under `wasi_snapshot_preview1`.
-/
namespace VmodWasm.HostImports

open ByteStrings ProxyContext

/-- The records that can be installed as store data: `struct vwasm_host_ctx`
and `struct vwasm_proxy_ctx`. -/
inductive CtxKind where
  | hostCtx | proxyCtx
  deriving DecidableEq, Repr

inductive RawFn where
  | getRequestHeader | getRequestUrl | getRequestMethod | getClientIp | setResponseHeader | logMsg
  deriving DecidableEq, Repr

inductive WasiFn where
  | fdWrite | clockTimeGet | randomGet | environSizesGet | environGet | argsSizesGet | argsGet
  | procExit
  deriving DecidableEq, Repr

inductive ProxyImport where
  | log | getLogLevel | getHeaderMapValue | addHeaderMapValue | replaceHeaderMapValue
  | removeHeaderMapValue | getHeaderMapPairs | setHeaderMapPairs | getHeaderMapSize
  | getProperty | setProperty | getBufferBytes | setBufferBytes | getBufferStatus
  | sendLocalResponse | getCurrentTimeNanoseconds | setTickPeriodMilliseconds
  | setEffectiveContext | done | continueStream | closeStream | getSharedData | setSharedData
  | registerSharedQueue | resolveSharedQueue | enqueueSharedQueue | dequeueSharedQueue
  | getStatus | defineMetric | incrementMetric | recordMetric | getMetric | httpCall
  deriving DecidableEq, Repr

/-- The functions that `pw_stub_not_found` stands for. -/
inductive StubImport where
  | grpcCall | grpcStream | grpcSend | grpcCancel | grpcClose | callForeignFunction
  deriving DecidableEq, Repr

inductive HostImport where
  | raw (f : RawFn)
  | wasi (f : WasiFn)
  | proxy (f : ProxyImport)
  | stub (f : StubImport)
  deriving DecidableEq, Repr

/-- The module part of an import name. -/
inductive Namespace where
  | env | wasiSnapshotPreview1
  deriving DecidableEq, Repr

def RawFn.name : RawFn → String
  | .getRequestHeader => "get_request_header"
  | .getRequestUrl => "get_request_url"
  | .getRequestMethod => "get_request_method"
  | .getClientIp => "get_client_ip"
  | .setResponseHeader => "set_response_header"
  | .logMsg => "log_msg"

def WasiFn.name : WasiFn → String
  | .fdWrite => "fd_write"
  | .clockTimeGet => "clock_time_get"
  | .randomGet => "random_get"
  | .environSizesGet => "environ_sizes_get"
  | .environGet => "environ_get"
  | .argsSizesGet => "args_sizes_get"
  | .argsGet => "args_get"
  | .procExit => "proc_exit"

def ProxyImport.name : ProxyImport → String
  | .log => "proxy_log"
  | .getLogLevel => "proxy_get_log_level"
  | .getHeaderMapValue => "proxy_get_header_map_value"
  | .addHeaderMapValue => "proxy_add_header_map_value"
  | .replaceHeaderMapValue => "proxy_replace_header_map_value"
  | .removeHeaderMapValue => "proxy_remove_header_map_value"
  | .getHeaderMapPairs => "proxy_get_header_map_pairs"
  | .setHeaderMapPairs => "proxy_set_header_map_pairs"
  | .getHeaderMapSize => "proxy_get_header_map_size"
  | .getProperty => "proxy_get_property"
  | .setProperty => "proxy_set_property"
  | .getBufferBytes => "proxy_get_buffer_bytes"
  | .setBufferBytes => "proxy_set_buffer_bytes"
  | .getBufferStatus => "proxy_get_buffer_status"
  | .sendLocalResponse => "proxy_send_local_response"
  | .getCurrentTimeNanoseconds => "proxy_get_current_time_nanoseconds"
  | .setTickPeriodMilliseconds => "proxy_set_tick_period_milliseconds"
  | .setEffectiveContext => "proxy_set_effective_context"
  | .done => "proxy_done"
  | .continueStream => "proxy_continue_stream"
  | .closeStream => "proxy_close_stream"
  | .getSharedData => "proxy_get_shared_data"
  | .setSharedData => "proxy_set_shared_data"
  | .registerSharedQueue => "proxy_register_shared_queue"
  | .resolveSharedQueue => "proxy_resolve_shared_queue"
  | .enqueueSharedQueue => "proxy_enqueue_shared_queue"
  | .dequeueSharedQueue => "proxy_dequeue_shared_queue"
  | .getStatus => "proxy_get_status"
  | .defineMetric => "proxy_define_metric"
  | .incrementMetric => "proxy_increment_metric"
  | .recordMetric => "proxy_record_metric"
  | .getMetric => "proxy_get_metric"
  | .httpCall => "proxy_http_call"

def StubImport.name : StubImport → String
  | .grpcCall => "proxy_grpc_call"
  | .grpcStream => "proxy_grpc_stream"
  | .grpcSend => "proxy_grpc_send"
  | .grpcCancel => "proxy_grpc_cancel"
  | .grpcClose => "proxy_grpc_close"
  | .callForeignFunction => "proxy_call_foreign_function"

/-- The name a function is defined under. -/
def HostImport.name : HostImport → Namespace × String
  | .raw f => (.env, f.name)
  | .wasi f => (.wasiSnapshotPreview1, f.name)
  | .proxy f => (.env, f.name)
  | .stub f => (.env, f.name)

/-- What `vwasm_engine_new` registers with the one linker of the engine. -/
def linker : List HostImport :=
  [.getRequestHeader, .getRequestUrl, .getRequestMethod, .getClientIp, .setResponseHeader,
    .logMsg].map HostImport.raw ++
  [.fdWrite, .clockTimeGet, .randomGet, .environSizesGet, .environGet, .argsSizesGet, .argsGet,
    .procExit].map HostImport.wasi ++
  [.log, .getLogLevel, .getHeaderMapValue, .addHeaderMapValue, .replaceHeaderMapValue,
    .removeHeaderMapValue, .getHeaderMapPairs, .setHeaderMapPairs, .getHeaderMapSize,
    .getProperty, .setProperty, .getBufferBytes, .setBufferBytes, .getBufferStatus,
    .sendLocalResponse, .getCurrentTimeNanoseconds, .setTickPeriodMilliseconds,
    .setEffectiveContext, .done, .continueStream, .closeStream, .getSharedData, .setSharedData,
    .registerSharedQueue, .resolveSharedQueue, .enqueueSharedQueue, .dequeueSharedQueue,
    .getStatus, .defineMetric, .incrementMetric, .recordMetric, .getMetric,
    .httpCall].map HostImport.proxy ++
  [.grpcCall, .grpcStream, .grpcSend, .grpcCancel, .grpcClose,
    .callForeignFunction].map HostImport.stub

def resolve (name : Namespace × String) : Option HostImport :=
  linker.find? fun f => f.name = name

/-- The export a callback is looked up under. -/
def exportName : Callback → Bytes
  | .initializeModule => ascii "_initialize"
  | .contextCreate => ascii "proxy_on_context_create"
  | .vmStart => ascii "proxy_on_vm_start"
  | .configure => ascii "proxy_on_configure"
  | .requestHeaders => ascii "proxy_on_request_headers"
  | .responseHeaders => ascii "proxy_on_response_headers"
  | .httpCallResponse => ascii "proxy_on_http_call_response"
  | .requestBody => ascii "proxy_on_request_body"
  | .responseBody => ascii "proxy_on_response_body"
  | .log => ascii "proxy_on_log"
  | .done => ascii "proxy_on_done"
  | .delete => ascii "proxy_on_delete"
  | .tick => ascii "proxy_on_tick"

/-- A loaded module: `vwasm_engine_load_module` has resolved its imports. -/
structure WasmModule where
  importNames : List (Namespace × String)
  resolves : ∀ name ∈ importNames, (resolve name).isSome = true
  exportsFn : Bytes → Bool
  hasStart : Bool

namespace WasmModule

variable (m : WasmModule)

def imports : List HostImport := m.importNames.filterMap resolve

def exports (cb : Callback) : Bool := m.exportsFn (exportName cb)

def exportsAllocator : Bool :=
  m.exportsFn (ascii "proxy_on_memory_allocate") || m.exportsFn (ascii "malloc")

end WasmModule

theorem mem_linker (f : HostImport) : f ∈ linker := by
  rcases f with f | f | f | f <;> cases f <;> decide

/-- Every function is found under its own name, so no two names clash. -/
theorem resolve_name (f : HostImport) : resolve f.name = some f := by
  have hall : ∀ f ∈ linker, resolve f.name = some f := by decide +kernel
  exact hall f (mem_linker f)

end VmodWasm.HostImports
