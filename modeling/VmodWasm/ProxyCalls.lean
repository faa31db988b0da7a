import VmodWasm.HelperBodies
import VmodWasm.HostCalls
import VmodWasm.SharedData
import VmodWasm.SharedQueue

/-!
The proxy functions as their helper calls. Header maps and properties appear
as what they answer; the shared stores, the buffers and the metrics are those
of the source. Two functions are not plain sequences of helper calls:
`proxy_get_buffer_bytes` hands back buffers of any length, and
`proxy_send_local_response` passes over a region it cannot read.
-/
namespace VmodWasm.ProxyCalls

open ByteStrings GuestMemory ProxyContext HttpCall HostCalls SharedData SharedQueue
open HttpText Lib.CheckedMemory CheckedHelpers HelperBodies

/-- A shared store as calls leave it. -/
abbrev BoundedStore := { sd : SharedStore // ValuesFit sd }

def BoundedStore.get (sd : BoundedStore) (key : Bytes) (alloc : Bool) : Option (Text × UInt32) :=
  match h : vwasmSharedDataGet sd.1 key alloc with
  | none => none
  | some (value, cas) =>
    have hlen := vwasmSharedDataGet_length sd.1 key value alloc cas sd.2 h
    some (⟨value, Nat.lt_of_le_of_lt hlen (by decide)⟩, cas)

/-- A queue store as calls leave it. -/
abbrev BoundedQueues := { qs : QueueStore // MessagesFit qs }

def BoundedQueues.dequeue (qs : BoundedQueues) (queueId : ℕ) : Option Text :=
  match h : (vwasmQueueDequeue qs.1 queueId).1 with
  | none => none
  | some msg =>
    have hlen := (messagesFit_dequeue qs.1 queueId qs.2).2 msg h
    some ⟨msg.data, Nat.lt_of_le_of_lt hlen (by decide)⟩

structure Metric where
  name : Bytes
  type : ℤ
  value : ℕ

def maxMetrics : ℕ := 256

def metricMaxName : ℕ := 128

/-- `PROXY_LOG_DEBUG`. -/
def logDebug : ℕ := 1

/-- The data of a buffer, as `pw_proxy_get_buffer_bytes` and
`pw_proxy_get_buffer_status` look it up. -/
def bufferData (ctx : ProxyCtx) (bufferType : ℤ) : Except ProxyStatus Bytes :=
  match BufferType.ofCode bufferType with
  | some .vmConfiguration => .ok ctx.vmConfig
  | some .pluginConfig => .ok ctx.pluginConfig
  | some .httpCallBody =>
    match ctx.activeHttpCall.bind fun token => ctx.httpCalls.find? (·.tokenId == token) with
    | some ent => .ok ent.body
    | none => .error .notFound
  | some .httpRequestBody => .ok (bodyBase ctx ctx.requestBody)
  | some .httpResponseBody => .ok (bodyBase ctx ctx.responseBody)
  | some .downstreamData | some .upstreamData | some .grpcRecvMsg | some .foreignFuncArgs =>
    .error .notFound
  | none => .error .badArgument

section HelperBodies

def pwProxyLog (hasVrt : Bool) (msgPtr msgSize : UInt32) : HelperBody :=
  if hasVrt = false then .done .internal
  else .ask (.string msgPtr msgSize 4096) fun _ => .done .ok

def pwProxyGetCurrentTime (nanos : ℕ) (retTime : UInt32) : HelperBody :=
  .give (.u64 retTime nanos .badArgument) (.done .ok)

def pwProxySetBufferBytes (env : CallEnv) (ctx : ProxyCtx) (bufferType : ℤ)
    (start size dataPtr dataSize : UInt32) : HelperBody :=
  .ask (.region dataPtr dataSize) fun value =>
    match BufferType.ofCode bufferType with
    | some .httpRequestBody => .done (setBody env ctx ctx.requestBody start size value).1
    | some .httpResponseBody => .done (setBody env ctx ctx.responseBody start size value).1
    | some _ => .done .notFound
    | none => .done .badArgument

def pwProxyGetBufferStatus (ctx : ProxyCtx) (bufferType : ℤ) (retLen retFlags : UInt32) :
    HelperBody :=
  match bufferData ctx bufferType with
  | .error status => .done status
  | .ok data => .give (.u32 retLen data.length .badArgument) (.give (.u32 retFlags 0 .badArgument)
      (.done .ok))

def pwProxyGetLogLevel (retLevel : UInt32) : HelperBody :=
  .give (.u32 retLevel logDebug .badArgument) (.done .ok)

def pwProxyGetSharedData (sd : Option BoundedStore) (alloc : Bool)
    (keyPtr keySize retData retSize retCas : UInt32) : HelperBody :=
  match sd with
  | none => .done .notFound
  | some sd =>
    .ask (.string keyPtr keySize sharedDataMaxKey) fun key =>
      match sd.get key alloc with
      | none => .done .notFound
      | some (value, cas) =>
        .give (.bytes value retData retSize) (.give (.u32 retCas cas.toNat .internal) (.done .ok))

def pwProxySetSharedData (sd : Option SharedStore) (env : SetEnv)
    (keyPtr keySize valPtr valSize cas : UInt32) : HelperBody :=
  match sd with
  | none => .done .internal
  | some sd =>
    .ask (.string keyPtr keySize sharedDataMaxKey) fun key =>
      .ask (.region valPtr valSize) fun value =>
        .done (vwasmSharedDataSet sd key value cas env).1.status

def pwProxyRegisterSharedQueue (qs : Option QueueStore) (queueAlloc nameAlloc : Bool)
    (namePtr nameSize retId : UInt32) : HelperBody :=
  match qs with
  | none => .done .internal
  | some qs =>
    .ask (.string namePtr nameSize queueMaxName) fun name =>
      let queueId := (vwasmQueueRegister qs name queueAlloc nameAlloc).1
      if queueId = 0 then .done .internal else .give (.u32 retId queueId .internal) (.done .ok)

def pwProxyResolveSharedQueue (qs : Option QueueStore)
    (vmPtr vmSize namePtr nameSize retId : UInt32) : HelperBody :=
  match qs with
  | none => .done .notFound
  | some qs =>
    .ask (.string vmPtr vmSize 256) fun _ =>
      .ask (.string namePtr nameSize queueMaxName) fun name =>
        let queueId := vwasmQueueResolve qs name
        if queueId = 0 then .done .notFound else .give (.u32 retId queueId .internal) (.done .ok)

def pwProxyEnqueueSharedQueue (qs : Option QueueStore) (msgAlloc dataAlloc : Bool) (serial : ℕ)
    (queueId dataPtr dataSize : UInt32) : HelperBody :=
  match qs with
  | none => .done .notFound
  | some qs =>
    .ask (.region dataPtr dataSize) fun data =>
      if (vwasmQueueEnqueue qs queueId.toNat ⟨serial, data⟩ msgAlloc dataAlloc).1 then .done .ok
      else .done .internal

def pwProxyDequeueSharedQueue (qs : Option BoundedQueues) (queueId retData retSize : UInt32) :
    HelperBody :=
  match qs with
  | none => .done .empty
  | some qs =>
    match qs.dequeue queueId.toNat with
    | none => .done .empty
    | some data => .give (.bytes data retData retSize) (.done .ok)

def pwProxyGetStatus (lastStatusCode : ℕ) (lastStatusMsg : Option Text)
    (retCode retMsg retSize : UInt32) : HelperBody :=
  .give (.u32 retCode lastStatusCode .internal) <|
    match lastStatusMsg with
    | some msg => .give (.bytes msg retMsg retSize) (.done .ok)
    | none => .give (.u32 retMsg 0 .internal) (.give (.u32 retSize 0 .internal) (.done .ok))

def pwProxyDefineMetric (metrics : Option (List Metric)) (namePtr nameSize retId : UInt32) :
    HelperBody :=
  match metrics with
  | none => .done .internal
  | some metrics =>
    .ask (.string namePtr nameSize metricMaxName) fun name =>
      match metrics.findIdx? fun m => m.name == name with
      | some i => .give (.u32 retId (i + 1) .internal) (.done .ok)
      | none =>
        if maxMetrics ≤ metrics.length then .done .internal
        else .give (.u32 retId (metrics.length + 1) .internal) (.done .ok)

def pwProxyGetMetric (metrics : Option (List Metric)) (metricId retValue : UInt32) : HelperBody :=
  match metrics with
  | none => .done .internal
  | some metrics =>
    if metricId = 0 then .done .badArgument
    else
      match metrics[metricId.toNat - 1]? with
      | none => .done .badArgument
      | some m => .give (.u64 retValue m.value .badArgument) (.done .ok)

/-- `lookup` is the answer of the map the call names. -/
def pwProxyGetHeaderMapValue (lookup : Bytes → Except ProxyStatus Text)
    (keyPtr keySize retData retSize : UInt32) : HelperBody :=
  .ask (.string keyPtr keySize 256) fun key =>
    match lookup key with
    | .error status => .done status
    | .ok value => .give (.bytes value retData retSize) (.done .ok)

/-- The two functions that put a pair into a header map; they differ in what
`put` does to the map. -/
def putHeaderMapValue (put : Bytes → Bytes → ProxyStatus)
    (keyPtr keySize valPtr valSize : UInt32) : HelperBody :=
  .ask (.string keyPtr keySize 256) fun key =>
    .ask (.string valPtr valSize 4096) fun value => .done (put key value)

def pwProxyAddHeaderMapValue (add : Bytes → Bytes → ProxyStatus)
    (keyPtr keySize valPtr valSize : UInt32) : HelperBody :=
  putHeaderMapValue add keyPtr keySize valPtr valSize

def pwProxyReplaceHeaderMapValue (replace : Bytes → Bytes → ProxyStatus)
    (keyPtr keySize valPtr valSize : UInt32) : HelperBody :=
  putHeaderMapValue replace keyPtr keySize valPtr valSize

def pwProxyRemoveHeaderMapValue (remove : Bytes → ProxyStatus) (keyPtr keySize : UInt32) :
    HelperBody :=
  .ask (.string keyPtr keySize 256) fun key => .done (remove key)

/-- `serialized` is the buffer the source builds, which it measures by a
`uint32_t` offset; it may fail to allocate it. -/
def pwProxyGetHeaderMapPairs (serialized : Option Text) (retData retSize : UInt32) : HelperBody :=
  match serialized with
  | none => .done .internal
  | some buf => .give (.bytes buf retData retSize) (.done .ok)

def pwProxyGetHeaderMapSize (serializedSize : Except ProxyStatus ℕ) (retSize : UInt32) :
    HelperBody :=
  match serializedSize with
  | .error status => .done status
  | .ok n => .give (.u32 retSize n .badArgument) (.done .ok)

def pwProxyGetProperty (hasVrt : Bool) (property : Bytes → Option Text)
    (pathPtr pathSize retData retSize : UInt32) : HelperBody :=
  if hasVrt = false then .done .internal
  else
    .ask (.string pathPtr pathSize 512) fun path =>
      match property path with
      | none => .done .notFound
      | some value => .give (.bytes value retData retSize) (.done .ok)

def pwProxySetProperty (hasVrt : Bool) (set : Bytes → Bytes → ProxyStatus)
    (pathPtr pathSize valPtr valSize : UInt32) : HelperBody :=
  if hasVrt = false then .done .internal
  else
    .ask (.string pathPtr pathSize 512) fun path =>
      .ask (.string valPtr valSize 4096) fun value => .done (set path value)

def pwProxyHttpCall (hasPool : Bool) (env : CallEnv) (ctx : ProxyCtx) (args : HttpCallArgs) :
    HelperBody :=
  if 0 < ctx.httpCallMax ∧ ctx.httpCallMax ≤ ctx.httpCallCount then .done .badArgument
  else
    let ctx := countCall ctx
    .ask (.string args.upstreamPtr args.upstreamSize 256) fun upstream =>
      match pwHttpParseUpstream upstream 256 with
      | none => .done .badArgument
      | some (host, port) =>
      match checkAllowlist ctx host port with
      | none => .done .badArgument
      | some exempt =>
      .ask (.headerMap args.headersPtr args.headersSize) fun head =>
        if !pwHttpMethodOk head.method || !pwHttpPathOk head.path ||
            decide (intMax < head.method.length) || decide (intMax < head.path.length) then
          .done .badArgument
        else
          .ask (.region args.bodyPtr args.bodySize) fun body =>
            let request := buildRequest head host args.bodySize.toNat (hasPool && exempt)
            if 8192 ≤ request.length then .done .internal
            else
              let p : Prepared :=
                ⟨host, port, effectiveTimeout ctx args.timeoutMs, exempt, request, body⟩
              match (exchange hasPool env p).2 with
              | .error status => .done status
              | .ok _ =>
                if !env.entryAlloc then .done .internal
                else
                  .give (.u32 args.tokenPtr (u32 (ctx.httpCallNextToken + 1)) .internal) (.done .ok)

end HelperBodies

section Models

/-! Where a function has a model of its own elsewhere, its helper calls give the
status and the memory of that model. -/

variable (side : GuestSide) (mem : Bytes)

theorem pwProxySetBufferBytes_eval (env : CallEnv) (ctx : ProxyCtx) (bufferType : ℤ)
    (start size dataPtr dataSize : UInt32) (hvalid : ctx.memoryValid = side.valid) :
    (pwProxySetBufferBytes env ctx bufferType start size dataPtr dataSize).eval side mem =
      ((HostCalls.pwProxySetBufferBytes env ctx mem bufferType start size dataPtr dataSize).1,
        mem) := by
  simp only [pwProxySetBufferBytes, HostCalls.pwProxySetBufferBytes, HelperBody.eval_region, hvalid]
  by_cases hbad : dataSize ≠ 0 ∧ pwValidateRegion side.valid mem dataPtr dataSize = false
  · simp only [if_pos hbad]
  · simp only [if_neg hbad]
    rcases BufferType.ofCode bufferType with _ | _ | _ | _ | _ | _ | _ | _ | _ | _ <;> rfl

theorem BoundedStore.get_eq (sd : BoundedStore) (key : Bytes) (alloc : Bool) :
    (sd.get key alloc).map (fun r => (r.1.1, r.2)) = vwasmSharedDataGet sd.1 key alloc := by
  unfold BoundedStore.get
  split <;> simp_all

theorem pwProxyGetSharedData_eval (sd : Option BoundedStore) (alloc : Bool)
    (keyPtr keySize retData retSize retCas : UInt32) :
    (pwProxyGetSharedData sd alloc keyPtr keySize retData retSize retCas).eval side mem =
      SharedData.pwProxyGetSharedData (sd.map Subtype.val) side.valid side.allocator mem keyPtr
        keySize retData retSize retCas alloc := by
  rcases sd with _ | sd
  · rfl
  · simp only [pwProxyGetSharedData, SharedData.pwProxyGetSharedData, HelperBody.eval_string,
      Option.map_some]
    rcases pwReadString side.valid mem keyPtr keySize sharedDataMaxKey with _ | key
    · rfl
    · have hget := sd.get_eq key alloc
      rcases hfound : sd.get key alloc with _ | ⟨value, cas⟩
      · rw [hfound, Option.map_none] at hget
        simp only [← hget, hfound, HelperBody.eval_done]
      · rw [hfound, Option.map_some] at hget
        simp only [← hget, hfound, HelperBody.eval_bytes, HelperBody.eval_u32, HelperBody.eval_done]
        rcases pwReturnBytes side.valid side.allocator mem value.1 retData retSize
          with ⟨_ | _, mem'⟩ <;> rfl

theorem pwProxySetSharedData_eval (sd : Option SharedStore) (env : SetEnv)
    (keyPtr keySize valPtr valSize cas : UInt32) :
    (pwProxySetSharedData sd env keyPtr keySize valPtr valSize cas).eval side mem =
      ((SharedData.pwProxySetSharedData sd side.valid mem keyPtr keySize valPtr valSize cas env).1,
        mem) := by
  rcases sd with _ | sd
  · rfl
  · simp only [pwProxySetSharedData, SharedData.pwProxySetSharedData, HelperBody.eval_string]
    rcases pwReadString side.valid mem keyPtr keySize sharedDataMaxKey with _ | key
    · rfl
    · simp only [HelperBody.eval_region, HelperBody.eval_done]
      by_cases hbad : valSize ≠ 0 ∧ pwValidateRegion side.valid mem valPtr valSize = false
      · simp only [if_pos hbad]
      · simp only [if_neg hbad]

theorem pwProxyEnqueueSharedQueue_eval (qs : Option QueueStore) (msgAlloc dataAlloc : Bool)
    (serial : ℕ) (queueId dataPtr dataSize : UInt32) :
    (pwProxyEnqueueSharedQueue qs msgAlloc dataAlloc serial queueId dataPtr dataSize).eval side mem =
      ((SharedQueue.pwProxyEnqueueSharedQueue qs side.valid mem queueId dataPtr dataSize msgAlloc
        dataAlloc serial).1, mem) := by
  rcases qs with _ | qs
  · rfl
  · simp only [pwProxyEnqueueSharedQueue, SharedQueue.pwProxyEnqueueSharedQueue,
      HelperBody.eval_region]
    by_cases hbad : dataSize ≠ 0 ∧ pwValidateRegion side.valid mem dataPtr dataSize = false
    · simp only [if_pos hbad]
    · simp only [if_neg hbad]
      rcases vwasmQueueEnqueue qs queueId.toNat ⟨serial, pwMemRegion mem dataPtr dataSize⟩ msgAlloc
        dataAlloc with ⟨_ | _, qs'⟩ <;> rfl

theorem BoundedQueues.dequeue_eq (qs : BoundedQueues) (queueId : ℕ) :
    (qs.dequeue queueId).map Subtype.val = (vwasmQueueDequeue qs.1 queueId).1.map QueueMsg.data := by
  unfold BoundedQueues.dequeue
  split <;> simp_all

theorem pwProxyDequeueSharedQueue_eval (qs : Option BoundedQueues)
    (queueId retData retSize : UInt32) :
    (pwProxyDequeueSharedQueue qs queueId retData retSize).eval side mem =
      (let r := SharedQueue.pwProxyDequeueSharedQueue (qs.map Subtype.val) side.valid
        side.allocator mem queueId retData retSize
      (r.1, r.2.2)) := by
  rcases qs with _ | qs
  · rfl
  · simp only [pwProxyDequeueSharedQueue, SharedQueue.pwProxyDequeueSharedQueue, Option.map_some]
    have hdeq := qs.dequeue_eq queueId.toNat
    rcases hplain : vwasmQueueDequeue qs.1 queueId.toNat with ⟨_ | msg, qs'⟩
    · rw [hplain, Option.map_none, Option.map_eq_none_iff] at hdeq
      simp only [hdeq, HelperBody.eval_done]
    · rw [hplain, Option.map_some, Option.map_eq_some_iff] at hdeq
      obtain ⟨data, hdata, hval⟩ := hdeq
      simp only [hdata, HelperBody.eval_bytes, hval]
      rcases pwReturnBytes side.valid side.allocator mem msg.data retData retSize
        with ⟨_ | _, mem'⟩ <;> rfl

theorem pwProxyHttpCall_eval (hasPool : Bool) (env : CallEnv) (ctx : ProxyCtx)
    (args : HttpCallArgs) (hvalid : ctx.memoryValid = side.valid) :
    (pwProxyHttpCall hasPool env ctx args).eval side mem =
      (let r := HttpCall.pwProxyHttpCall hasPool env ctx mem args
      (r.status, r.mem)) := by
  have hsame : (countCall ctx).memoryValid = side.valid := hvalid
  unfold pwProxyHttpCall HttpCall.pwProxyHttpCall
  by_cases hlimit : 0 < ctx.httpCallMax ∧ ctx.httpCallMax ≤ ctx.httpCallCount
  · simp only [if_pos hlimit, HelperBody.eval_done]
  · simp only [if_neg hlimit, HelperBody.eval_string, prepare, hsame]
    rcases pwReadString side.valid mem args.upstreamPtr args.upstreamSize 256 with _ | upstream
    · rfl
    · dsimp only
      rcases pwHttpParseUpstream upstream 256 with _ | ⟨host, port⟩
      · rfl
      · dsimp only
        rcases checkAllowlist (countCall ctx) host port with _ | exempt
        · rfl
        · simp only [HelperBody.eval_headerMap]
          rcases decodeHeaderMap side.valid mem args.headersPtr args.headersSize with _ | head
          · rfl
          · dsimp only
            by_cases hhead : (!pwHttpMethodOk head.method || !pwHttpPathOk head.path ||
                decide (intMax < head.method.length) || decide (intMax < head.path.length)) = true
            · simp only [if_pos hhead, HelperBody.eval_done]
            · simp only [if_neg hhead, HelperBody.eval_region]
              by_cases hbody : args.bodySize ≠ 0 ∧
                  pwValidateRegion side.valid mem args.bodyPtr args.bodySize = false
              · simp only [if_pos hbody]
              · simp only [if_neg hbody]
                by_cases hlong : 8192 ≤
                    (buildRequest head host args.bodySize.toNat (hasPool && exempt)).length
                · simp only [if_pos hlong, HelperBody.eval_done]
                · simp only [if_neg hlong]
                  rcases exchange hasPool env _ with ⟨events, status | raw⟩
                  · rfl
                  · simp only [storeResponse, hsame]
                    rcases env.entryAlloc with _ | _
                    · rfl
                    · simp only [Bool.not_true, Bool.false_eq_true, if_false, HelperBody.eval_u32]
                      rcases pwWriteU32 side.valid mem args.tokenPtr _ with _ | mem' <;> rfl

end Models

variable (side : GuestSide)

section BufferBytes

/-- The part of a buffer that `start` and `maxSize` select. -/
def sliceBytes (data : Bytes) (start maxSize : UInt32) : Bytes :=
  if start.toNat < data.length then
    let rest := data.drop start.toNat
    if 0 < maxSize.toNat ∧ maxSize.toNat < rest.length then rest.take maxSize.toNat else rest
  else []

def pwProxyGetBufferBytes (ctx : ProxyCtx) (bufferType : ℤ)
    (start maxSize retData retSize : UInt32) : Checked ProxyStatus :=
  match bufferData ctx bufferType with
  | .error status => return status
  | .ok data => do
    if ← returnBytes side (sliceBytes data start maxSize) retData retSize then return .ok
    else return .internal

/-- The selected part is 4 GiB or more, and the copy leaves the memory. -/
def BufferOverruns (ctx : ProxyCtx) (bufferType : ℤ) (start maxSize : UInt32) (mem : Bytes) :
    Prop :=
  ∃ data, bufferData ctx bufferType = .ok data ∧
    CopyOverruns side mem (sliceBytes data start maxSize)

theorem pwProxyGetBufferBytes_bounded_iff (ctx : ProxyCtx) (bufferType : ℤ)
    (start maxSize retData retSize : UInt32) (mem : Bytes) :
    Bounded (pwProxyGetBufferBytes side ctx bufferType start maxSize retData retSize) (· ≠ .ok)
      mem ↔ ¬ BufferOverruns side ctx bufferType start maxSize mem := by
  unfold pwProxyGetBufferBytes BufferOverruns
  rcases bufferData ctx bufferType with status | data
  · simp [Bounded]
  · constructor
    · rintro hbounded ⟨data', hdata, hover⟩
      obtain rfl := Except.ok.inj hdata
      exact returnBytes_overruns side _ retData retSize _ _ hover ((sat_bind _ _ _ _).mp hbounded)
    · intro hfits
      have hreturn := returnBytes_computes side (sliceBytes data start maxSize) retData retSize
        ⟨mem, false⟩ (fun hover => hfits ⟨data, rfl, hover⟩)
      rcases hplain : pwReturnBytes side.valid side.allocator mem (sliceBytes data start maxSize)
        retData retSize with ⟨_ | _, mem'⟩
      · rw [hplain] at hreturn
        refine Computes.bounded (?_ : Computes _ _ (ProxyStatus.internal, mem') _)
        exact hreturn.bind (fun r => Computes.pure _ ⟨mem', r⟩ _) (by simp)
      · rw [hplain] at hreturn
        refine Computes.bounded (?_ : Computes _ _ (ProxyStatus.ok, mem') _)
        exact hreturn.bind (fun r => Computes.pure _ ⟨mem', r⟩ _) (by simp)

/-- A bound on the slice below 4 GiB rules the overrun out. -/
theorem not_bufferOverruns (ctx : ProxyCtx) (bufferType : ℤ) (start maxSize : UInt32) (mem : Bytes)
    (hmax : maxSize ≠ 0) : ¬ BufferOverruns side ctx bufferType start maxSize mem := by
  rintro ⟨data, -, hlong, -⟩
  have hpos : maxSize.toNat ≠ 0 := fun hzero => hmax (UInt32.toNat_inj.mp hzero)
  have hlt := maxSize.toNat_lt
  unfold sliceBytes at hlong
  split at hlong
  · dsimp only at hlong
    split at hlong
    · rw [List.length_take] at hlong
      omega
    · omega
  · simp at hlong

end BufferBytes

section LocalResponse

/-- The capture of one region; `old` is what was there. -/
def capture (ptr size : UInt32) (alloc : Bool) (old : Option Bytes) : Checked (Option Bytes) := do
  if size = 0 then return old
  else if ← validateRegion side ptr size then
    if alloc then return some (← load ptr.toNat size.toNat) else return none
  else return old

def pwProxySendLocalResponse (env : CallEnv) (ctx : ProxyCtx) (statusCode : ℤ)
    (bodyPtr bodySize headersPtr headersSize : UInt32) : Checked (ProxyStatus × ProxyCtx) := do
  let body ← capture side bodyPtr bodySize env.bodyAlloc ctx.localResponseBody
  let headers ← capture side headersPtr headersSize env.headersAlloc ctx.localResponseHeaders
  return (.ok, { ctx with
    localResponseSet := true
    localResponseCode := statusCode
    localResponseBody := body
    localResponseHeaders := headers })

/-- The region a guest names is empty or inside its memory. -/
def RegionHeld (mem : Bytes) (ptr size : UInt32) : Prop :=
  size = 0 ∨ pwValidateRegion side.valid mem ptr size = true

theorem sat_capture (ctx : ProxyCtx) (ptr size : UInt32) (alloc : Bool) (old : Option Bytes)
    (Q : Option Bytes → Heap → Prop) (h : Heap) (hvalid : ctx.memoryValid = side.valid) :
    Sat (capture side ptr size alloc old) Q h ↔
      (RegionHeld side h.bytes ptr size → Q (captureRegion ctx h.bytes ptr size alloc old) h) ∧
      (¬ RegionHeld side h.bytes ptr size →
        Q (captureRegion ctx h.bytes ptr size alloc old) { h with refused := true }) := by
  unfold capture captureRegion RegionHeld
  by_cases hsize : size = 0
  · simp [hsize]
  · by_cases hregion : pwValidateRegion side.valid h.bytes ptr size = true
    · have hin := inRange_of_region side.valid h.bytes ptr size hregion
      cases alloc <;> simp [hsize, hregion, hvalid, hin, pwMemRegion]
    · simp [hsize, hregion, hvalid]

/-- Whatever the regions are, the function answers `PROXY_OK` and leaves the
context of its plain model. -/
theorem sat_pwProxySendLocalResponse (env : CallEnv) (ctx : ProxyCtx) (statusCode : ℤ)
    (bodyPtr bodySize headersPtr headersSize : UInt32) (Q : ProxyStatus × ProxyCtx → Heap → Prop)
    (h : Heap) (hvalid : ctx.memoryValid = side.valid) :
    Sat (pwProxySendLocalResponse side env ctx statusCode bodyPtr bodySize headersPtr headersSize)
        Q h ↔
      let res := HostCalls.pwProxySendLocalResponse env ctx h.bytes statusCode bodyPtr bodySize
        headersPtr headersSize
      let held := RegionHeld side h.bytes bodyPtr bodySize ∧
        RegionHeld side h.bytes headersPtr headersSize
      (held → Q (.ok, res) h) ∧ (¬ held → Q (.ok, res) { h with refused := true }) := by
  simp only [pwProxySendLocalResponse, HostCalls.pwProxySendLocalResponse, sat_bind, sat_pure,
    sat_capture side ctx _ _ _ _ _ _ hvalid]
  by_cases hbody : RegionHeld side h.bytes bodyPtr bodySize
  · simp [hbody]
  · by_cases hheaders : RegionHeld side h.bytes headersPtr headersSize
    · simp [hbody, hheaders]
    · simp [hbody, hheaders]

theorem pwProxySendLocalResponse_bounded_iff (env : CallEnv) (ctx : ProxyCtx) (statusCode : ℤ)
    (bodyPtr bodySize headersPtr headersSize : UInt32) (mem : Bytes)
    (hvalid : ctx.memoryValid = side.valid) :
    Bounded (pwProxySendLocalResponse side env ctx statusCode bodyPtr bodySize headersPtr
        headersSize) (·.1 ≠ .ok) mem ↔
      RegionHeld side mem bodyPtr bodySize ∧ RegionHeld side mem headersPtr headersSize := by
  rw [Bounded, sat_pwProxySendLocalResponse side env ctx _ _ _ _ _ _ _ hvalid]
  simp

end LocalResponse

end VmodWasm.ProxyCalls
