import VmodWasm.GuestStores

/-!
The record behind the store data, as a tagged union. Host functions cast the
store data to the record of their own layer: the raw and the WASI functions to
`struct vwasm_host_ctx`, the Proxy-Wasm functions to `struct vwasm_proxy_ctx`.
The linker gives every function to every module.
-/
namespace VmodWasm.ContextKinds

open ByteStrings ProxyContext HostImports StorePaths PathEntries GuestStores Lib.Interaction
  Lib.Obligations

/-- The record a host function casts the store data to. The WASI functions that
leave the caller alone cast nothing, and neither does `pw_stub_not_found`. -/
def reads : HostImport → Option CtxKind
  | .raw _ => some .hostCtx
  | .wasi .environGet | .wasi .argsGet | .wasi .procExit => none
  | .wasi _ => some .hostCtx
  | .proxy _ => some .proxyCtx
  | .stub _ => none

/-- Does the function assert that there is store data? The WASI functions test
the pointer instead. -/
def asserts : HostImport → Bool
  | .raw _ | .proxy _ => true
  | .wasi _ | .stub _ => false

/-- The function finds the record it casts to, or the `NULL` it tests for. -/
def ReadsMatch (data : Option CtxKind) (f : HostImport) : Prop :=
  ∀ k, reads f = some k → data = some k ∨ (data = none ∧ asserts f = false)

def kindsOk (s : StoreState) (_ : StoreOp) (r : Reply) : Prop :=
  ∀ f, .hostCall f ∈ r.visit → ReadsMatch s.data f

/-- Context-kind agreement on one path: whatever the module and Wasmtime do, no
host function reads the store data as a record of the other kind. -/
def KindsAgree (e : Limits) (m : WasmModule) (path : ExecPath) : Prop :=
  Throughout (storeRules m kindsOk) (fun _ _ => True) (path.script e m) path.start

theorem kindsOk_quiet (m : WasmModule) (s : StoreState) (op : StoreOp) (r : Reply)
    (hop : runsGuest m op = false) (hr : Possible m op r) : kindsOk s op r := by
  intro f hf
  have hruns := (hr.hostCall f hf).1
  simp [hop] at hruns

theorem readsMatch_some (k : CtxKind) (f : HostImport) :
    ReadsMatch (some k) f ↔ reads f = none ∨ reads f = some k := by
  constructor
  · intro h
    cases hreads : reads f with
    | none => exact Or.inl rfl
    | some k' =>
      rcases h k' hreads with heq | ⟨hnone, -⟩
      · exact Or.inr heq.symm
      · simp at hnone
  · rintro (hnone | hsome) k' hreads
    · simp [hnone] at hreads
    · exact Or.inl (hsome.symm.trans hreads)

/-- Without data a function must test for it, or read none. -/
theorem readsMatch_none (f : HostImport) : ReadsMatch none f ↔ asserts f = false := by
  rcases f with f | f | f | f
  · simp [ReadsMatch, reads, asserts]
  · simp [ReadsMatch, asserts]
  · simp [ReadsMatch, reads, asserts]
  · simp [ReadsMatch, reads, asserts]

/-- Where guest code can run with this data, an import reads it. -/
theorem readsMatch_of_possibly {e : Limits} {m : WasmModule} {path : ExecPath}
    {data : Option CtxKind} {limiter : Option ℕ} (h : KindsAgree e m path)
    (hcomes : Possibly (storeRules m kindsOk) (RunsAt m data limiter) (fun _ _ => False)
      (path.script e m) path.start) (f : HostImport) (hf : f ∈ m.imports) : ReadsMatch data f := by
  by_contra hnot
  refine h.not_possibly _ (hcomes.mono _ ?_ fun _ _ h => h.elim)
  rintro s op ⟨hop, hdata, -⟩
  refine ⟨{ visit := [.hostCall f] }, ⟨?_, ?_, ?_⟩, ?_⟩
  · intro g hg
    simp only [List.mem_singleton, RunEvent.hostCall.injEq] at hg
    exact hg ▸ ⟨hop, hf⟩
  · simp
  · simp
  · intro hok
    exact hnot (hdata ▸ hok f List.mem_cons_self)

/-- Host functions agree with the store data on a path exactly if guest code
that runs on it imports nothing that reads the other record, and a start
function that runs without data imports nothing that asserts it. -/
theorem kindsAgree_iff (e : Limits) (m : WasmModule) (path : ExecPath) :
    KindsAgree e m path ↔
      (Enters m path → ∀ f ∈ m.imports, reads f = none ∨ reads f = some (kind path)) ∧
        (StartsBare m path → ∀ f ∈ m.imports, asserts f = false) := by
  constructor
  · intro h
    refine ⟨fun henters f hf => ?_, fun hbare f hf => ?_⟩
    · have hcomes := possibly_enters e kindsOk path henters
      exact (readsMatch_some _ f).mp (readsMatch_of_possibly h hcomes f hf)
    · have hcomes := possibly_bare e kindsOk path hbare
      exact (readsMatch_none f).mp (readsMatch_of_possibly h hcomes f hf)
  · rintro ⟨henters, hbare⟩
    refine Accepts.throughout ⟨kindsOk_quiet m, ?_, ?_⟩
    · intro hen s op r hs hr f hf
      rw [hs.data]
      exact (readsMatch_some _ f).mpr (henters hen f (hr.hostCall f hf).2)
    · intro hstart s r hdata _ _ hr f hf
      rw [hdata]
      exact (readsMatch_none f).mpr (hbare hstart f (hr.hostCall f hf).2)

/-- A Proxy-Wasm module for `wasm32-wasi`: it writes to a file descriptor. -/
def wasiFilter : WasmModule where
  importNames := [HostImport.name (.proxy .log), HostImport.name (.wasi .fdWrite)]
  resolves name hname := by
    simp only [List.mem_cons, List.not_mem_nil, or_false] at hname
    rcases hname with rfl | rfl <;> rw [resolve_name] <;> rfl
  exportsFn name := decide (name = ascii "proxy_on_request_headers")
  hasStart := false

/-- Run for a request, its `fd_write` takes the Proxy-Wasm context for a host
context. -/
theorem wasiFilter_confused : ¬ KindsAgree {} wasiFilter (.execute none {}) := by
  intro h
  have hfd : HostImport.wasi .fdWrite ∈ wasiFilter.imports := by
    simp [WasmModule.imports, wasiFilter, resolve_name]
  have henters : Enters wasiFilter (.execute none {}) :=
    Or.inl ⟨.requestHeaders, by simp [entries, Execute.Phase.headersFn], by decide +kernel⟩
  have hmatch := readsMatch_of_possibly h (possibly_enters {} _ _ henters) _ hfd
  simp [readsMatch_some, reads, kind] at hmatch

end VmodWasm.ContextKinds
