import VmodWasm.BodyBuffers
import VmodWasm.VdpStream
import VmodWasm.Lib.Transition

/-!
The request body and the response body as two buffers. They have one field for
a rewritten body between them, so an edit of either is seen in both, and what a
guest writes into the request body while a chunk is delivered goes to the
client.
-/
namespace VmodWasm.BodyIndependence

open ByteStrings ProxyContext HostCalls HelperBodies CheckedHelpers Execute ProxyCalls BodyBuffers
open VdpStream Lib.Transition

variable {σ : Type}

/-- The bytes a chunk is passed on as at the end of `vdp_wasm_bytes`. -/
def forwarded (ctx : ProxyCtx) (chunk : Bytes) : Bytes :=
  if ctx.bodyModified then ctx.modifiedBody else chunk

theorem vdpWasmBytes_forwards (env : HostEnv) (g : Guest σ) (k : ℕ) (c : VdpCall)
    (m : Machine σ) : ∃ buf rest, (vdpWasmBytes env g k c m).1 =
      .bytes c.act (forwarded (bodyCallback env g c m).host.ctx c.data) buf :: rest := by
  unfold vdpWasmBytes forwarded
  dsimp only
  split
  · exact ⟨_, _, rfl⟩
  · exact ⟨_, _, rfl⟩

/-- All that a guest can read of a buffer: the slices it is given and the length
it is told. -/
structure Report where
  bytes : UInt32 → UInt32 → Bytes
  length : ℕ

def report (ctx : ProxyCtx) (buf : BodyBuffer) : Report where
  bytes start maxSize := slice (content ctx buf) start.toNat maxSize.toNat
  length := (content ctx buf).length

/-- The two host functions that read a buffer work from its report. -/
theorem reads_of_report (ctx : ProxyCtx) (buf : BodyBuffer) (side : GuestSide)
    (start maxSize retData retSize retLen retFlags : UInt32) :
    pwProxyGetBufferBytes side ctx buf.code start maxSize retData retSize = (do
      if ← returnBytes side ((report ctx buf).bytes start maxSize) retData retSize then return .ok
      else return .internal) ∧
    pwProxyGetBufferStatus ctx buf.code retLen retFlags =
      .give (.u32 retLen (report ctx buf).length .badArgument)
        (.give (.u32 retFlags 0 .badArgument) (.done .ok)) := by
  refine ⟨pwProxyGetBufferBytes_code side ctx buf start maxSize retData retSize, ?_⟩
  rw [pwProxyGetBufferStatus, bufferData_code]
  rfl

theorem report_eq_iff (ctx ctx' : ProxyCtx) (buf buf' : BodyBuffer) :
    report ctx buf = report ctx' buf' ↔ content ctx buf = content ctx' buf' := by
  constructor
  · intro hsame
    have hall := congrFun (congrFun (congrArg Report.bytes hsame) 0) 0
    exact hall
  · intro hsame
    rw [report, hsame, report]

structure BodyCall where
  buffer : BodyBuffer
  edit : BodyEdit

def after (ctx : ProxyCtx) (c : BodyCall) : ProxyCtx := (setBuffer c.buffer ctx c.edit).2

def bodyStep (ctx : ProxyCtx) (c : BodyCall) (ctx' : ProxyCtx) : Prop := ctx' = after ctx c

/-- A call on one body leaves the other alone; `chunk` is the one in delivery. -/
def Independent (chunk : Bytes) (ctx : ProxyCtx) (c : BodyCall) : Prop :=
  match c.buffer with
  | .request =>
    report (after ctx c) .response = report ctx .response ∧
      forwarded (after ctx c) chunk = forwarded ctx chunk
  | .response => report (after ctx c) .request = report ctx .request

/-- The call is refused, or its edit makes of its own body just what the other
one holds. -/
def Unnoticed (chunk : Bytes) (ctx : ProxyCtx) (c : BodyCall) : Prop :=
  c.edit.Refused ctx.memoryValid (content ctx c.buffer) ∨
    match c.buffer with
    | .request =>
      c.edit.apply (content ctx .request) = content ctx .response ∧
        c.edit.apply (content ctx .request) = forwarded ctx chunk
    | .response => c.edit.apply (content ctx .response) = content ctx .request

/-- An edit that is taken shows in both buffers and at the client. -/
theorem after_of_taken (ctx : ProxyCtx) (c : BodyCall)
    (htaken : ¬ c.edit.Refused ctx.memoryValid (content ctx c.buffer)) (buf : BodyBuffer)
    (chunk : Bytes) :
    content (after ctx c) buf = c.edit.apply (content ctx c.buffer) ∧
      forwarded (after ctx c) chunk = c.edit.apply (content ctx c.buffer) := by
  rw [after, setBuffer_snd, if_neg htaken]
  exact ⟨rfl, rfl⟩

theorem independent_iff (chunk : Bytes) (ctx : ProxyCtx) (c : BodyCall) :
    Independent chunk ctx c ↔ Unnoticed chunk ctx c := by
  by_cases hrefused : c.edit.Refused ctx.memoryValid (content ctx c.buffer)
  · have hafter : after ctx c = ctx := by rw [after, setBuffer_snd, if_pos hrefused]
    have hindependent : Independent chunk ctx c := by
      unfold Independent
      rw [hafter]
      split
      · exact ⟨rfl, rfl⟩
      · rfl
    exact iff_of_true hindependent (Or.inl hrefused)
  · have hafter := after_of_taken ctx c hrefused
    obtain ⟨buf, e⟩ := c
    cases buf with
    | request =>
      have hresponse := (hafter .response chunk).1
      have hclient := (hafter .response chunk).2
      rw [Unnoticed, or_iff_right hrefused, Independent]
      simp only [report_eq_iff]
      rw [hresponse, hclient]
    | response =>
      have hrequest := (hafter .request chunk).1
      rw [Unnoticed, or_iff_right hrefused, Independent]
      simp only [report_eq_iff]
      rw [hrequest]

/-- The bodies are independent in just those runs in which every edit is refused
or makes both bodies equal to what the other one was. -/
theorem independentRun_iff (chunk : Bytes) (ctx ctx' : ProxyCtx) (cs : List BodyCall) :
    Run (Guarded (Independent chunk) bodyStep) ctx cs ctx' ↔
      Run (Guarded (Unnoticed chunk) bodyStep) ctx cs ctx' :=
  Run.guarded_congr (independent_iff chunk) ctx ctx' cs

/-- A filter that stores a byte in the request body when it is shown a chunk of
the response. -/
def requestEditor : Guest Unit :=
  scriptedGuest [.responseHeaders, .responseBody] fun cb =>
    match cb with
    | .responseBody =>
      .call ⟨ascii "x", .setBufferBytes BodyBuffer.request.code 0 0 0 1⟩ fun _ =>
        .done (.returned 0, ())
    | _ => .done (.returned 0, ())

/-- That byte is sent to the client in place of the response body. -/
theorem requestEditor_forwarded :
    (runStream {} requestEditor 0 [⟨.vdpEnd, ascii "abc"⟩]
      (proxyWasmExecute (singleEngine requestEditor) {} (ascii "m") .response [] [] ()).machine).1 =
      [.bytes .vdpEnd (ascii "x") (.rewritten 0), .freed (.rewritten 0)] := by
  decide +kernel

end VmodWasm.BodyIndependence
