import VmodWasm.WasiCalls
import VmodWasm.ProxyCalls
import VmodWasm.HeaderMapPairs

/-!
Every host function that takes pointers from the guest, and when it keeps to
the guest's memory. A call is bounded if each byte it reads or writes is
inside, and if it answers with an error whenever one of its tests against the
memory refuses an access. Seven functions are not bounded for every argument;
each of their conditions names the branch that goes wrong.
-/
namespace VmodWasm.MemoryBounds

open ByteStrings ProxyContext HttpCall SharedData SharedQueue
open Lib.CheckedMemory CheckedHelpers HelperBodies WasiCalls ProxyCalls HeaderMapPairs

/-- The proxy functions that are sequences of helper calls. -/
inductive ProxyFn where
  | log (hasVrt : Bool) (msgPtr msgSize : UInt32)
  | getCurrentTime (nanos : ℕ) (retTime : UInt32)
  | setBufferBytes (env : CallEnv) (ctx : ProxyCtx) (bufferType : ℤ)
      (start size dataPtr dataSize : UInt32)
  | getBufferStatus (ctx : ProxyCtx) (bufferType : ℤ) (retLen retFlags : UInt32)
  | getLogLevel (retLevel : UInt32)
  | getSharedData (sd : Option BoundedStore) (alloc : Bool)
      (keyPtr keySize retData retSize retCas : UInt32)
  | setSharedData (sd : Option SharedStore) (env : SetEnv)
      (keyPtr keySize valPtr valSize cas : UInt32)
  | registerSharedQueue (qs : Option QueueStore) (queueAlloc nameAlloc : Bool)
      (namePtr nameSize retId : UInt32)
  | resolveSharedQueue (qs : Option QueueStore) (vmPtr vmSize namePtr nameSize retId : UInt32)
  | enqueueSharedQueue (qs : Option QueueStore) (msgAlloc dataAlloc : Bool) (serial : ℕ)
      (queueId dataPtr dataSize : UInt32)
  | dequeueSharedQueue (qs : Option BoundedQueues) (queueId retData retSize : UInt32)
  | getStatus (lastStatusCode : ℕ) (lastStatusMsg : Option Text)
      (retCode retMsg retSize : UInt32)
  | defineMetric (metrics : Option (List Metric)) (namePtr nameSize retId : UInt32)
  | getMetric (metrics : Option (List Metric)) (metricId retValue : UInt32)
  | getHeaderMapValue (lookup : Bytes → Except ProxyStatus Text)
      (keyPtr keySize retData retSize : UInt32)
  | addHeaderMapValue (add : Bytes → Bytes → ProxyStatus)
      (keyPtr keySize valPtr valSize : UInt32)
  | replaceHeaderMapValue (replace : Bytes → Bytes → ProxyStatus)
      (keyPtr keySize valPtr valSize : UInt32)
  | removeHeaderMapValue (remove : Bytes → ProxyStatus) (keyPtr keySize : UInt32)
  | getHeaderMapPairs (serialized : Option Text) (retData retSize : UInt32)
  | getHeaderMapSize (serializedSize : Except ProxyStatus ℕ) (retSize : UInt32)
  | getProperty (hasVrt : Bool) (property : Bytes → Option Text)
      (pathPtr pathSize retData retSize : UInt32)
  | setProperty (hasVrt : Bool) (set : Bytes → Bytes → ProxyStatus)
      (pathPtr pathSize valPtr valSize : UInt32)
  | httpCall (hasPool : Bool) (env : CallEnv) (ctx : ProxyCtx) (args : HttpCallArgs)

def ProxyFn.body : ProxyFn → HelperBody
  | .log hasVrt msgPtr msgSize => pwProxyLog hasVrt msgPtr msgSize
  | .getCurrentTime nanos retTime => pwProxyGetCurrentTime nanos retTime
  | .setBufferBytes env ctx bufferType start size dataPtr dataSize =>
    pwProxySetBufferBytes env ctx bufferType start size dataPtr dataSize
  | .getBufferStatus ctx bufferType retLen retFlags =>
    pwProxyGetBufferStatus ctx bufferType retLen retFlags
  | .getLogLevel retLevel => pwProxyGetLogLevel retLevel
  | .getSharedData sd alloc keyPtr keySize retData retSize retCas =>
    ProxyCalls.pwProxyGetSharedData sd alloc keyPtr keySize retData retSize retCas
  | .setSharedData sd env keyPtr keySize valPtr valSize cas =>
    ProxyCalls.pwProxySetSharedData sd env keyPtr keySize valPtr valSize cas
  | .registerSharedQueue qs queueAlloc nameAlloc namePtr nameSize retId =>
    pwProxyRegisterSharedQueue qs queueAlloc nameAlloc namePtr nameSize retId
  | .resolveSharedQueue qs vmPtr vmSize namePtr nameSize retId =>
    pwProxyResolveSharedQueue qs vmPtr vmSize namePtr nameSize retId
  | .enqueueSharedQueue qs msgAlloc dataAlloc serial queueId dataPtr dataSize =>
    ProxyCalls.pwProxyEnqueueSharedQueue qs msgAlloc dataAlloc serial queueId dataPtr dataSize
  | .dequeueSharedQueue qs queueId retData retSize =>
    ProxyCalls.pwProxyDequeueSharedQueue qs queueId retData retSize
  | .getStatus lastStatusCode lastStatusMsg retCode retMsg retSize =>
    pwProxyGetStatus lastStatusCode lastStatusMsg retCode retMsg retSize
  | .defineMetric metrics namePtr nameSize retId =>
    pwProxyDefineMetric metrics namePtr nameSize retId
  | .getMetric metrics metricId retValue => pwProxyGetMetric metrics metricId retValue
  | .getHeaderMapValue lookup keyPtr keySize retData retSize =>
    pwProxyGetHeaderMapValue lookup keyPtr keySize retData retSize
  | .addHeaderMapValue add keyPtr keySize valPtr valSize =>
    pwProxyAddHeaderMapValue add keyPtr keySize valPtr valSize
  | .replaceHeaderMapValue replace keyPtr keySize valPtr valSize =>
    pwProxyReplaceHeaderMapValue replace keyPtr keySize valPtr valSize
  | .removeHeaderMapValue remove keyPtr keySize =>
    pwProxyRemoveHeaderMapValue remove keyPtr keySize
  | .getHeaderMapPairs serialized retData retSize =>
    pwProxyGetHeaderMapPairs serialized retData retSize
  | .getHeaderMapSize serializedSize retSize => pwProxyGetHeaderMapSize serializedSize retSize
  | .getProperty hasVrt property pathPtr pathSize retData retSize =>
    pwProxyGetProperty hasVrt property pathPtr pathSize retData retSize
  | .setProperty hasVrt set pathPtr pathSize valPtr valSize =>
    pwProxySetProperty hasVrt set pathPtr pathSize valPtr valSize
  | .httpCall hasPool env ctx args => ProxyCalls.pwProxyHttpCall hasPool env ctx args

/-- A call of a host function, with its arguments and what the host answers. -/
inductive HostFn where
  | fdWrite (fd : ℤ) (iovsPtr iovsLen nwrittenPtr : UInt32)
  | clockTimeGet (clockGettime : ClockId → Option (ℕ × ℕ)) (clockId : ℤ) (timePtr : UInt32)
  | randomGet (getrandom : ℕ → Option (UInt8 × Bytes)) (bufPtr bufLen : UInt32)
  | environSizesGet (p0 p1 : UInt32)
  | argsSizesGet (p0 p1 : UInt32)
  | helpers (f : ProxyFn)
  | getBufferBytes (ctx : ProxyCtx) (bufferType : ℤ) (start maxSize retData retSize : UInt32)
  | sendLocalResponse (env : CallEnv) (ctx : ProxyCtx) (statusCode : ℤ)
      (bodyPtr bodySize headersPtr headersSize : UInt32)
  | setHeaderMapPairs (target : Option PairTarget) (dataPtr dataSize : UInt32)

/-- The i32 the guest gets back; 0 is success. -/
def HostFn.run (side : GuestSide) : HostFn → Checked ℤ
  | .fdWrite fd iovsPtr iovsLen nwrittenPtr =>
    (·.1.code) <$> wasiFdWrite side fd iovsPtr iovsLen nwrittenPtr
  | .clockTimeGet clockGettime clockId timePtr =>
    WasiErrno.code <$> wasiClockTimeGet side clockGettime clockId timePtr
  | .randomGet getrandom bufPtr bufLen =>
    WasiErrno.code <$> wasiRandomGet side getrandom bufPtr bufLen
  | .environSizesGet p0 p1 => WasiErrno.code <$> wasiEnvironSizesGet side p0 p1
  | .argsSizesGet p0 p1 => WasiErrno.code <$> wasiArgsSizesGet side p0 p1
  | .helpers f => ProxyStatus.code <$> f.body.run side
  | .getBufferBytes ctx bufferType start maxSize retData retSize =>
    ProxyStatus.code <$> pwProxyGetBufferBytes side ctx bufferType start maxSize retData retSize
  | .sendLocalResponse env ctx statusCode bodyPtr bodySize headersPtr headersSize =>
    (·.1.code) <$> ProxyCalls.pwProxySendLocalResponse side env
      { ctx with memoryValid := side.valid } statusCode bodyPtr bodySize headersPtr headersSize
  | .setHeaderMapPairs target dataPtr dataSize =>
    (·.1.code) <$> pwProxySetHeaderMapPairs side target dataPtr dataSize

/-- What a call needs to be bounded. -/
def HostFn.Sound (side : GuestSide) (mem : Bytes) : HostFn → Prop
  | .fdWrite fd iovsPtr iovsLen nwrittenPtr =>
    ¬ FdWriteOverruns side fd iovsPtr iovsLen nwrittenPtr mem
  | .clockTimeGet clockGettime clockId timePtr =>
    ¬ ClockOverruns side clockGettime clockId timePtr mem
  | .environSizesGet p0 p1 | .argsSizesGet p0 p1 =>
    side.valid = true ∧ p0.toNat + 4 ≤ mem.length ∧ p1.toNat + 4 ≤ mem.length
  | .getBufferBytes ctx bufferType start maxSize _ _ =>
    ¬ BufferOverruns side ctx bufferType start maxSize mem
  | .sendLocalResponse _ _ _ bodyPtr bodySize headersPtr headersSize =>
    RegionHeld side mem bodyPtr bodySize ∧ RegionHeld side mem headersPtr headersSize
  | .setHeaderMapPairs target dataPtr dataSize =>
    ¬ SetPairsOverruns side target dataPtr dataSize mem
  | .randomGet .. | .helpers _ => True

theorem errno_code_ne_zero (errno : WasiErrno) : errno.code ≠ 0 ↔ errno ≠ .success := by
  cases errno <;> decide

theorem status_code_ne_zero (status : ProxyStatus) : status.code ≠ 0 ↔ status ≠ .ok := by
  cases status <;> decide

theorem helpers_bounded (side : GuestSide) (body : HelperBody) (mem : Bytes) :
    Bounded (body.run side) (· ≠ .ok) mem :=
  (body.run_computes side ⟨mem, false⟩).bounded

/-- For every memory up to 4 GiB and all arguments: a host call is bounded
exactly when it is sound. -/
theorem hostCall_bounded_iff (fn : HostFn) (side : GuestSide) (mem : Bytes)
    (hm : mem.length ≤ 2 ^ 32) :
    Bounded (fn.run side) (· ≠ 0) mem ↔ fn.Sound side mem := by
  cases fn with
  | fdWrite fd iovsPtr iovsLen nwrittenPtr =>
    simp only [HostFn.run, HostFn.Sound, bounded_map, errno_code_ne_zero]
    exact wasiFdWrite_bounded_iff side fd iovsPtr iovsLen nwrittenPtr mem hm
  | clockTimeGet clockGettime clockId timePtr =>
    simp only [HostFn.run, HostFn.Sound, bounded_map, errno_code_ne_zero]
    exact wasiClockTimeGet_bounded_iff side clockGettime clockId timePtr mem hm
  | randomGet getrandom bufPtr bufLen =>
    simp only [HostFn.run, HostFn.Sound, bounded_map, errno_code_ne_zero, iff_true]
    exact wasiRandomGet_bounded side getrandom bufPtr bufLen mem
  | environSizesGet p0 p1 =>
    simp only [HostFn.run, HostFn.Sound, bounded_map, errno_code_ne_zero]
    exact sizesGet_bounded_iff side p0 p1 mem hm
  | argsSizesGet p0 p1 =>
    simp only [HostFn.run, HostFn.Sound, bounded_map, errno_code_ne_zero]
    exact sizesGet_bounded_iff side p0 p1 mem hm
  | helpers f =>
    simp only [HostFn.run, HostFn.Sound, bounded_map, status_code_ne_zero, iff_true]
    exact helpers_bounded side f.body mem
  | getBufferBytes ctx bufferType start maxSize retData retSize =>
    simp only [HostFn.run, HostFn.Sound, bounded_map, status_code_ne_zero]
    exact pwProxyGetBufferBytes_bounded_iff side ctx bufferType start maxSize retData retSize mem
  | sendLocalResponse env ctx statusCode bodyPtr bodySize headersPtr headersSize =>
    simp only [HostFn.run, HostFn.Sound, bounded_map, status_code_ne_zero]
    exact pwProxySendLocalResponse_bounded_iff side env _ statusCode bodyPtr bodySize headersPtr
      headersSize mem rfl
  | setHeaderMapPairs target dataPtr dataSize =>
    simp only [HostFn.run, HostFn.Sound, bounded_map, status_code_ne_zero]
    exact pwProxySetHeaderMapPairs_bounded_iff side target dataPtr dataSize mem

/-- A guest with one page of memory. -/
def onePage : Bytes := List.replicate 65536 0

theorem length_onePage : onePage.length = 65536 := List.length_replicate

/-- A write of nothing whose count fits. -/
theorem emptyWrite_bounded :
    Bounded ((HostFn.fdWrite 1 0 0 8).run ⟨true, none⟩) (· ≠ 0) onePage := by
  have hm : onePage.length ≤ 2 ^ 32 := by rw [length_onePage]; omega
  refine (hostCall_bounded_iff _ _ _ hm).mpr ?_
  rintro ⟨-, -, ⟨hwraps, -⟩, -⟩
  revert hwraps
  decide

/-- The count of a write of nothing, at the last four addresses below 2^32. -/
theorem wrappedCount_unbounded :
    ¬ Bounded ((HostFn.fdWrite 1 0 0 0xfffffffc).run ⟨true, none⟩) (· ≠ 0) onePage := by
  have hm : onePage.length ≤ 2 ^ 32 := by rw [length_onePage]; omega
  simp only [HostFn.run, bounded_map, errno_code_ne_zero]
  rw [wasiFdWrite_bounded_iff _ _ _ _ _ _ hm, not_not]
  refine ⟨rfl, Or.inl rfl, ⟨by decide, ?_, ?_⟩, ?_, ?_⟩
  · rw [length_onePage]
    decide
  · rw [length_onePage]
    decide
  · rw [length_onePage]
    decide
  · intro i hi
    exact absurd hi (Nat.not_lt_zero i)

end VmodWasm.MemoryBounds
