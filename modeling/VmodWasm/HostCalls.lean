import VmodWasm.HttpCall
import VmodWasm.Lib.Interaction

/-!
Guest code and the host functions it can call. A guest function is an
interactive program: at every host call it presents its linear memory, and it
continues with the memory and status the host returns. Host functions that
touch neither the verdict, the callouts nor the bodies of the context (header
maps, shared data, metrics and so on) are part of what a guest may do between
two of these calls. Execution limits end every program, by a trap if need be.
-/
namespace VmodWasm.HostCalls

open ByteStrings GuestMemory HttpText ProxyContext HttpCall Lib.Interaction

inductive HostCall where
  | httpCall (args : HttpCallArgs)
  | sendLocalResponse (statusCode : ℤ) (bodyPtr bodySize headersPtr headersSize : UInt32)
  | setBufferBytes (bufferType : ℤ) (start size dataPtr dataSize : UInt32)
  | continueStream
  | closeStream
  | done

structure Request where
  mem : Bytes
  call : HostCall

structure Reply where
  mem : Bytes
  status : ℤ

/-- A guest function running in world `σ`: it ends with an outcome and the
world it leaves behind. -/
abbrev GuestProg (σ : Type) := Prog Request Reply (Outcome × σ)

structure HostState where
  ctx : ProxyCtx
  log : List Event := []
  calls : ℕ := 0

def HostState.observe (h : HostState) (e : Event) : HostState := { h with log := h.log ++ [e] }

def HostState.setCtx (h : HostState) (f : ProxyCtx → ProxyCtx) : HostState :=
  { h with ctx := f h.ctx }

/-- The part of the outside a whole execution sees: whether the engine has an
HTTP pool, and what happens to its n-th host call. -/
structure HostEnv where
  hasPool : Bool := false
  call : ℕ → CallEnv := fun _ => {}

/-- The capture of a region for a local response; `old` is what was there. -/
def captureRegion (ctx : ProxyCtx) (mem : Bytes) (ptr size : UInt32) (alloc : Bool)
    (old : Option Bytes) : Option Bytes :=
  if size ≠ 0 ∧ pwValidateRegion ctx.memoryValid mem ptr size = true then
    if alloc then some (pwMemRegion mem ptr size) else none
  else old

def pwProxySendLocalResponse (env : CallEnv) (ctx : ProxyCtx) (mem : Bytes) (statusCode : ℤ)
    (bodyPtr bodySize headersPtr headersSize : UInt32) : ProxyCtx :=
  { ctx with
    localResponseSet := true
    localResponseCode := statusCode
    localResponseBody :=
      captureRegion ctx mem bodyPtr bodySize env.bodyAlloc ctx.localResponseBody
    localResponseHeaders :=
      captureRegion ctx mem headersPtr headersSize env.headersAlloc ctx.localResponseHeaders }

/-- `pw_replace_bytes`: splice `value` over a range of `base`. -/
def pwReplaceBytes (base : Bytes) (start replaceLen : UInt32) (value : Bytes) (alloc : Bool) :
    Option Bytes :=
  let prefixLen := min start.toNat base.length
  let replaced := min replaceLen.toNat (base.length - prefixLen)
  let suffix := base.drop (prefixLen + replaced)
  if sizeMax - prefixLen < value.length ∨ sizeMax - suffix.length < prefixLen + value.length then
    none
  else
    let new := base.take prefixLen ++ value ++ suffix
    if new ≠ [] ∧ alloc = false then none else some new

/-- The bytes a body buffer currently shows: the rewrite, else the original. -/
def bodyBase (ctx : ProxyCtx) (original : Option Bytes) : Bytes :=
  if ctx.bodyModified then ctx.modifiedBody else original.getD []

def setBody (env : CallEnv) (ctx : ProxyCtx) (original : Option Bytes) (start size : UInt32)
    (value : Bytes) : ProxyStatus × ProxyCtx :=
  match pwReplaceBytes (bodyBase ctx original) start size value env.bodyAlloc with
  | none => (.internal, ctx)
  | some body => (.ok, { ctx with modifiedBody := body, bodyModified := true })

def pwProxySetBufferBytes (env : CallEnv) (ctx : ProxyCtx) (mem : Bytes) (bufferType : ℤ)
    (start size dataPtr dataSize : UInt32) : ProxyStatus × ProxyCtx :=
  if dataSize ≠ 0 ∧ pwValidateRegion ctx.memoryValid mem dataPtr dataSize = false then
    (.badArgument, ctx)
  else
    let value := pwMemRegion mem dataPtr dataSize
    match BufferType.ofCode bufferType with
    | some .httpRequestBody => setBody env ctx ctx.requestBody start size value
    | some .httpResponseBody => setBody env ctx ctx.responseBody start size value
    | some _ => (.notFound, ctx)
    | none => (.badArgument, ctx)

/-- One host call: its effect on the context, its reply, its events. -/
def handle (env : HostEnv) (r : Request) (h : HostState) : Reply × HostState :=
  let e := env.call h.calls
  match r.call with
  | .httpCall args =>
    let res := pwProxyHttpCall env.hasPool e h.ctx r.mem args
    (⟨res.mem, res.status.code⟩, ⟨res.ctx, h.log ++ res.events, h.calls + 1⟩)
  | .sendLocalResponse code bodyPtr bodySize headersPtr headersSize =>
    let ctx := pwProxySendLocalResponse e h.ctx r.mem code bodyPtr bodySize headersPtr headersSize
    (⟨r.mem, ProxyStatus.ok.code⟩, ⟨ctx, h.log ++ [.localResponse code], h.calls + 1⟩)
  | .setBufferBytes bufferType start size dataPtr dataSize =>
    let res := pwProxySetBufferBytes e h.ctx r.mem bufferType start size dataPtr dataSize
    (⟨r.mem, res.1.code⟩, ⟨res.2, h.log ++ [.bodySet res.1], h.calls + 1⟩)
  | .continueStream =>
    (⟨r.mem, ProxyStatus.ok.code⟩, ⟨{ h.ctx with paused := false }, h.log, h.calls + 1⟩)
  | .closeStream =>
    (⟨r.mem, ProxyStatus.ok.code⟩, ⟨{ h.ctx with done := true }, h.log, h.calls + 1⟩)
  | .done =>
    (⟨r.mem, ProxyStatus.ok.code⟩, ⟨{ h.ctx with done := true }, h.log, h.calls + 1⟩)

theorem setBody_cases (env : CallEnv) (ctx : ProxyCtx) (original : Option Bytes)
    (start size : UInt32) (value : Bytes) :
    ((setBody env ctx original start size value).1 = .ok ∧
      ∃ body, (setBody env ctx original start size value).2 =
        { ctx with modifiedBody := body, bodyModified := true }) ∨
    ((setBody env ctx original start size value).1 ≠ .ok ∧
      (setBody env ctx original start size value).2 = ctx) := by
  unfold setBody
  split
  · exact Or.inr ⟨by simp, rfl⟩
  · exact Or.inl ⟨rfl, _, rfl⟩

/-- A body rewrite either succeeds and marks the body, or changes nothing. -/
theorem pwProxySetBufferBytes_cases (env : CallEnv) (ctx : ProxyCtx) (mem : Bytes)
    (bufferType : ℤ) (start size dataPtr dataSize : UInt32) (r : ProxyStatus × ProxyCtx)
    (hr : pwProxySetBufferBytes env ctx mem bufferType start size dataPtr dataSize = r) :
    (r.1 = .ok ∧ ∃ body, r.2 = { ctx with modifiedBody := body, bodyModified := true }) ∨
    (r.1 ≠ .ok ∧ r.2 = ctx) := by
  subst hr
  unfold pwProxySetBufferBytes
  split
  · exact Or.inr ⟨by simp, rfl⟩
  · dsimp only
    split
    · exact setBody_cases ..
    · exact setBody_cases ..
    · exact Or.inr ⟨by simp, rfl⟩
    · exact Or.inr ⟨by simp, rfl⟩

/-- All a host call can do to the host state. -/
theorem handle_cases (env : HostEnv) (r : Request) (h s : HostState)
    (hs : (handle env r h).2 = s) :
    (∃ args res, pwProxyHttpCall env.hasPool (env.call h.calls) h.ctx r.mem args = res ∧
      s = ⟨res.ctx, h.log ++ res.events, h.calls + 1⟩) ∨
    (∃ code body headers, s = ⟨{ h.ctx with
        localResponseSet := true
        localResponseCode := code
        localResponseBody := body
        localResponseHeaders := headers }, h.log ++ [.localResponse code], h.calls + 1⟩) ∨
    (∃ body, s = ⟨{ h.ctx with modifiedBody := body, bodyModified := true },
      h.log ++ [.bodySet .ok], h.calls + 1⟩) ∨
    (∃ status, status ≠ .ok ∧ s = ⟨h.ctx, h.log ++ [.bodySet status], h.calls + 1⟩) ∨
    (∃ paused done, s = ⟨{ h.ctx with paused := paused, done := done }, h.log, h.calls + 1⟩) := by
  subst hs
  obtain ⟨mem, call⟩ := r
  cases call with
  | httpCall args => exact Or.inl ⟨args, _, rfl, rfl⟩
  | sendLocalResponse code bodyPtr bodySize headersPtr headersSize =>
    exact Or.inr (Or.inl ⟨code, _, _, rfl⟩)
  | setBufferBytes bufferType start size dataPtr dataSize =>
    simp only [handle]
    rcases pwProxySetBufferBytes_cases _ _ _ _ _ _ _ _ _ rfl with ⟨hok, body, hctx⟩ | ⟨hne, hctx⟩
    · rw [hok, hctx]
      exact Or.inr (Or.inr (Or.inl ⟨body, rfl⟩))
    · rw [hctx]
      exact Or.inr (Or.inr (Or.inr (Or.inl ⟨_, hne, rfl⟩)))
  | continueStream => exact Or.inr (Or.inr (Or.inr (Or.inr ⟨false, h.ctx.done, rfl⟩)))
  | closeStream => exact Or.inr (Or.inr (Or.inr (Or.inr ⟨h.ctx.paused, true, rfl⟩)))
  | done => exact Or.inr (Or.inr (Or.inr (Or.inr ⟨h.ctx.paused, true, rfl⟩)))

/-- A loaded module: what it exports, its start function, its callbacks. -/
structure Guest (σ : Type) where
  exportsMemory : Bool
  exports : Callback → Bool
  start : σ → GuestProg σ
  enter : Callback → List ℤ → σ → GuestProg σ

structure Machine (σ : Type) where
  world : σ
  host : HostState

variable {σ : Type}

def Machine.setCtx (m : Machine σ) (f : ProxyCtx → ProxyCtx) : Machine σ :=
  { m with host := m.host.setCtx f }

def Machine.observe (m : Machine σ) (e : Event) : Machine σ :=
  { m with host := m.host.observe e }

/-- Run guest code in the machine's store. -/
def runGuest (env : HostEnv) (p : GuestProg σ) (m : Machine σ) : Outcome × Machine σ :=
  let r := interp (handle env) p m.host
  (r.1.1, ⟨r.1.2, r.2⟩)

/-- `wasmtime_func_call` on an exported callback, with its two observations. -/
def enterGuest (env : HostEnv) (g : Guest σ) (cb : Callback) (args : List ℤ) (m : Machine σ) :
    Outcome × Machine σ :=
  let m := m.observe (.entered cb args m.host.ctx.activeHttpCall)
  let r := runGuest env (g.enter cb args m.world) m
  (r.1, r.2.observe (.left cb r.1))

/-- `call_wasm_func` and `call_wasm_void`: a missing export, an error and a
trap all come back as -1, here `none`. -/
def callWasm (env : HostEnv) (g : Guest σ) (cb : Callback) (args : List ℤ) (m : Machine σ) :
    Option ℤ × Machine σ :=
  if g.exports cb then
    match enterGuest env g cb args m with
    | (.returned v, m') => (some v, m')
    | (.trapped, m') => (none, m')
  else (none, m)

/-- What keeps `I` whenever the host or a guest acts on a context. -/
structure HostInvariant (env : HostEnv) (I : HostState → Prop) : Prop where
  handle : ∀ r h, I h → I (handle env r h).2
  entered : ∀ cb args h, I h → I (h.observe (.entered cb args h.ctx.activeHttpCall))
  left : ∀ cb outcome h, I h → I (h.observe (.left cb outcome))

section Invariant

variable (env : HostEnv) (I : HostState → Prop) (hI : HostInvariant env I) (g : Guest σ)
include hI

theorem runGuest_invariant (p : GuestProg σ) (m : Machine σ) (h : I m.host) :
    I (runGuest env p m).2.host :=
  interp_invariant (handle env) I hI.handle p m.host h

theorem enterGuest_invariant (cb : Callback) (args : List ℤ) (m : Machine σ) (h : I m.host) :
    I (enterGuest env g cb args m).2.host :=
  hI.left _ _ _ (runGuest_invariant env I hI _ _ (hI.entered _ _ _ h))

theorem callWasm_invariant (cb : Callback) (args : List ℤ) (m : Machine σ) (h : I m.host) :
    I (callWasm env g cb args m).2.host := by
  have henter := enterGuest_invariant env I hI g cb args m h
  unfold callWasm
  split
  · split <;> simp_all
  · exact h

end Invariant

end VmodWasm.HostCalls
