import VmodWasm.Execute

/-!
The delivery processor `wasm_body`: each chunk Varnish delivers is shown to the
guest, which may rewrite it, and is passed on. Events record the calls of
`VDP_bytes` with the buffer they pass, and the release of rewritten buffers,
so that the life time of a buffer can be compared with Varnish's contract.
-/
namespace VmodWasm.VdpStream

open ByteStrings ProxyContext HostCalls Execute

variable {σ : Type}

inductive VdpAction where
  | vdpNull | vdpFlush | vdpEnd
  deriving DecidableEq, Repr

structure VdpCall where
  act : VdpAction
  data : Bytes
  deriving DecidableEq, Repr

/-- The buffer of the k-th call: Varnish's own, or the guest's rewrite of it. -/
inductive Buffer where
  | upstream (k : ℕ)
  | rewritten (k : ℕ)
  deriving DecidableEq, Repr

inductive VdpEvent where
  | bytes (act : VdpAction) (data : Bytes) (buf : Buffer)
  | freed (buf : Buffer)
  deriving DecidableEq, Repr

/-- Drop an earlier rewrite and show the chunk to the host functions. -/
def exposeChunk (data : Bytes) (m : Machine σ) : Machine σ :=
  m.setCtx fun ctx => { ctx with
    modifiedBody := []
    bodyModified := false
    responseBody := if data = [] then none else some data }

def hideChunk (m : Machine σ) : Machine σ :=
  m.setCtx fun ctx => { ctx with responseBody := none }

/-- The callback part of `vdp_wasm_bytes`; an empty chunk that does not end the
stream is not shown to the guest. -/
def bodyCallback (env : HostEnv) (g : Guest σ) (c : VdpCall) (m : Machine σ) : Machine σ :=
  if c.data ≠ [] ∨ c.act = .vdpEnd then
    hideChunk (callIgnored env g .responseBody
      [2, c.data.length, if c.act = .vdpEnd then 1 else 0] (exposeChunk c.data m))
  else m

def dropRewrite (m : Machine σ) : Machine σ :=
  m.setCtx fun ctx => { ctx with modifiedBody := [], bodyModified := false }

/-- `vdp_wasm_bytes` for the k-th call. -/
def vdpWasmBytes (env : HostEnv) (g : Guest σ) (k : ℕ) (c : VdpCall) (m : Machine σ) :
    List VdpEvent × Machine σ :=
  let m := bodyCallback env g c m
  if m.host.ctx.bodyModified then
    ([.bytes c.act m.host.ctx.modifiedBody (.rewritten k), .freed (.rewritten k)], dropRewrite m)
  else ([.bytes c.act c.data (.upstream k)], m)

/-- A whole response body, from the k-th call on. -/
def runStream (env : HostEnv) (g : Guest σ) : ℕ → List VdpCall → Machine σ →
    List VdpEvent × Machine σ
  | _, [], m => ([], m)
  | k, c :: calls, m =>
    let r := vdpWasmBytes env g k c m
    let rest := runStream env g (k + 1) calls r.2
    (r.1 ++ rest.1, rest.2)

/-- The guest part of `vdp_wasm_fini`. -/
def vdpWasmFini (env : HostEnv) (g : Guest σ) (m : Machine σ) : Machine σ := closeStream env g m

/-- What keeps `I` while a body is delivered. -/
structure StreamInvariant (env : HostEnv) (I : HostState → Prop) : Prop
    extends HostInvariant env I where
  chunk : ∀ b h, I h → I (h.setCtx fun ctx => { ctx with responseBody := b })
  rewrite : ∀ d f h, I h →
    I (h.setCtx fun ctx => { ctx with modifiedBody := d, bodyModified := f })

section Invariant

variable (env : HostEnv) (I : HostState → Prop) (hI : StreamInvariant env I) (g : Guest σ)
include hI

theorem vdpWasmBytes_invariant (k : ℕ) (c : VdpCall) (m : Machine σ) (h : I m.host) :
    I (vdpWasmBytes env g k c m).2.host := by
  have hexpose : I (exposeChunk c.data m).host :=
    hI.chunk (if c.data = [] then none else some c.data) _ (hI.rewrite [] false _ h)
  have hcallback : I (bodyCallback env g c m).host := by
    unfold bodyCallback
    split
    · exact hI.chunk _ _ (callIgnored_invariant env I hI.toHostInvariant g _ _ _ hexpose)
    · exact h
  unfold vdpWasmBytes
  dsimp only
  split
  · exact hI.rewrite _ _ _ hcallback
  · exact hcallback

theorem runStream_invariant (k : ℕ) (calls : List VdpCall) (m : Machine σ) (h : I m.host) :
    I (runStream env g k calls m).2.host := by
  induction calls generalizing k m with
  | nil => exact h
  | cons c calls ih => exact ih _ _ (vdpWasmBytes_invariant env I hI g k c m h)

end Invariant

/-- Calls that keep Varnish's contract: a `VDP_NULL` call has data, and the one
`VDP_END` comes last. -/
def conformingCalls : List VdpCall → Bool
  | [] => false
  | c :: calls =>
    match c.act with
    | .vdpNull => c.data ≠ [] && conformingCalls calls
    | .vdpFlush => conformingCalls calls
    | .vdpEnd => calls = []

/-- The same contract downstream, with the life time of buffers: `pending` are
those passed with `VDP_NULL` since the last flush, which nobody may free yet. -/
def conforming : List Buffer → List VdpEvent → Bool
  | _, [] => false
  | pending, .freed buf :: rest => buf ∉ pending && conforming pending rest
  | pending, .bytes act data buf :: rest =>
    match act with
    | .vdpNull => data ≠ [] && conforming (buf :: pending) rest
    | .vdpFlush => conforming [] rest
    | .vdpEnd => rest.all fun e => match e with | .freed _ => true | .bytes .. => false

/-- No chunk that is delivered with `VDP_NULL` is rewritten by its callback. -/
def NullsUntouched (env : HostEnv) (g : Guest σ) : ℕ → List VdpCall → Machine σ → Prop
  | _, [], _ => True
  | k, c :: calls, m =>
    (c.act = .vdpNull → (bodyCallback env g c m).host.ctx.bodyModified = false) ∧
    NullsUntouched env g (k + 1) calls (vdpWasmBytes env g k c m).2

/-- What one call passes on. -/
theorem vdpWasmBytes_cases (env : HostEnv) (g : Guest σ) (k : ℕ) (c : VdpCall) (m : Machine σ) :
    ((bodyCallback env g c m).host.ctx.bodyModified = true ∧
      ∃ data, (vdpWasmBytes env g k c m).1 =
        [.bytes c.act data (.rewritten k), .freed (.rewritten k)]) ∨
    ((bodyCallback env g c m).host.ctx.bodyModified = false ∧
      (vdpWasmBytes env g k c m).1 = [.bytes c.act c.data (.upstream k)]) := by
  unfold vdpWasmBytes
  dsimp only
  cases h : (bodyCallback env g c m).host.ctx.bodyModified with
  | true => exact Or.inl ⟨rfl, _, rfl⟩
  | false => exact Or.inr ⟨rfl, rfl⟩

/-- A conforming body is passed on in a conforming way exactly when no chunk
delivered with `VDP_NULL` is rewritten. -/
theorem runStream_conforming_iff (env : HostEnv) (g : Guest σ) (calls : List VdpCall) (k : ℕ)
    (m : Machine σ) (pending : List Buffer) (hcalls : conformingCalls calls = true) :
    conforming pending (runStream env g k calls m).1 = true ↔ NullsUntouched env g k calls m := by
  induction calls generalizing k m pending with
  | nil => simp [conformingCalls] at hcalls
  | cons c calls ih =>
    rw [NullsUntouched, runStream]
    dsimp only
    cases hact : c.act with
    | vdpNull =>
      simp only [conformingCalls, hact, Bool.and_eq_true] at hcalls
      rcases vdpWasmBytes_cases env g k c m with ⟨hmod, data, hev⟩ | ⟨hmod, hev⟩
      · -- the rewritten buffer is freed while it is still pending
        rw [hev, hact]
        simp [conforming, hmod]
      · rw [hev, hact]
        simp [conforming, hmod, hcalls.1, ih (k + 1) _ _ hcalls.2]
    | vdpFlush =>
      simp only [conformingCalls, hact] at hcalls
      have h := ih (k + 1) (vdpWasmBytes env g k c m).2 [] hcalls
      rcases vdpWasmBytes_cases env g k c m with ⟨hmod, data, hev⟩ | ⟨hmod, hev⟩ <;>
      · rw [hev, hact]
        simpa [conforming] using h
    | vdpEnd =>
      simp only [conformingCalls, hact, decide_eq_true_eq] at hcalls
      subst hcalls
      rcases vdpWasmBytes_cases env g k c m with ⟨hmod, data, hev⟩ | ⟨hmod, hev⟩ <;>
      · rw [hev, hact]
        simp [conforming, runStream, NullsUntouched]

/-- A filter that writes one byte over the body from its start on. -/
def rewritingGuest : Guest Unit :=
  scriptedGuest [.responseHeaders, .responseBody] fun cb =>
    match cb with
    | .responseBody =>
      .call ⟨ascii "x", .setBufferBytes 1 0 3 0 1⟩ fun _ => .done (.returned 0, ())
    | _ => .done (.returned 0, ())

/-- The filter with its body deferred, as the delivery processor finds it. -/
def rewritingMachine : Machine Unit :=
  (proxyWasmExecute (singleEngine rewritingGuest) {} (ascii "m") .response [] [] ()).machine

/-- With a flush instead, the rewritten buffer may go right after the call. -/
theorem rewritingGuest_flush :
    conforming [] (runStream {} rewritingGuest 0
        [⟨.vdpFlush, ascii "abc"⟩, ⟨.vdpEnd, []⟩] rewritingMachine).1 = true ↔
      NullsUntouched {} rewritingGuest 0 [⟨.vdpFlush, ascii "abc"⟩, ⟨.vdpEnd, []⟩]
        rewritingMachine :=
  runStream_conforming_iff _ _ _ _ _ _ (by decide)

/-- A conforming body of one chunk and its end is passed on with a buffer that
is freed before Varnish has flushed it. -/
theorem rewritingGuest_frees_pending :
    conformingCalls [⟨.vdpNull, ascii "abc"⟩, ⟨.vdpEnd, []⟩] = true ∧
    conforming [] (runStream {} rewritingGuest 0
      [⟨.vdpNull, ascii "abc"⟩, ⟨.vdpEnd, []⟩] rewritingMachine).1 = false := by
  decide +kernel

end VmodWasm.VdpStream
