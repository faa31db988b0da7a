import VmodWasm.ContextBlocks
import VmodWasm.Execute
import VmodWasm.Lib.Transition

/-!
The memory of an execution context over its whole life: host calls in any number
and order, with allocations that succeed or fail, the collected request body, the
hand-over to the delivery processor and the two functions that may end a deferred
execution. The original of a context that was handed over is cleared; if Varnish
has no room for the task, it is not, and both copies are cleaned up.
-/
namespace VmodWasm.ContextLife

open ByteStrings ProxyContext HttpCall HostCalls TrailerMaps TrailerBlocks ContextBlocks Execute
  Lib.Blocks Lib.Transition

/-- Where the context is: in the frame of the execution, or in the block of a task
whose store may have been given up. -/
inductive Life where
  | executing (c : BlockCtx)
  | deferred (task : ℕ) (c : BlockCtx) (storeLive : Bool)
  | ended

/-- What happens to a context while a guest can run. -/
inductive CtxEvent where
  | resolveMemory (valid : Bool)
  | activate (token : Option ℕ)
  | pause
  | hostCall (hasPool : Bool) (env : CallEnv) (r : Request)
  | trailerCall (response : Bool) (alloc : ℕ → EntryAlloc) (call : TrailerCall)
  | showChunk (data : Bytes)
  | hideChunk
  | passChunk

inductive LifeEvent where
  | during (e : CtxEvent)
  | collectBody (cachedSize : ℕ) (alloc : Bool) (collected : Option Bytes)
  | finish
  | handOver (taskAlloc privTask : Bool)
  | vdpFini
  | taskFini

section Model

/-- `VWASM_BODY_STACK_MAX`. -/
def bodyStackMax : ℕ := 64 * 1024

/-- The start of `vdp_wasm_bytes`. -/
def showChunk (data : Bytes) (c : BlockCtx) : Mem Bytes BlockCtx := do
  freeOpt c.modifiedBody
  pure { c with
    modifiedBody := none
    plain := { c.plain with bodyModified := false, responseBody := nonempty data } }

/-- Its end: a rewrite is passed on and freed. -/
def passChunk (c : BlockCtx) : Mem Bytes BlockCtx :=
  if c.plain.bodyModified then do
    let _ ← readOpt c.modifiedBody
    freeOpt c.modifiedBody
    pure { c with modifiedBody := none, plain := { c.plain with bodyModified := false } }
  else pure c

def ctxStep (c : BlockCtx) : CtxEvent → Mem Bytes BlockCtx
  | .resolveMemory valid => pure { c with plain := { c.plain with memoryValid := valid } }
  | .activate token => pure { c with plain := { c.plain with activeHttpCall := token } }
  | .pause => pure { c with plain := { c.plain with paused := true } }
  | .hostCall hasPool env r => do
    let res ← hostCall hasPool env r c
    pure res.2
  | .trailerCall false alloc call => do
    let res ← trailerCall alloc c.requestTrailers call
    pure { c with requestTrailers := res.2 }
  | .trailerCall true alloc call => do
    let res ← trailerCall alloc c.responseTrailers call
    pure { c with responseTrailers := res.2 }
  | .showChunk data => showChunk data c
  | .hideChunk => pure { c with plain := { c.plain with responseBody := none } }
  | .passChunk => passChunk c

/-- The request body. `collected` is what the iteration over it has collected, if it
came to its end and there was something. -/
def collectBody (cachedSize : ℕ) (alloc : Bool) (collected : Option Bytes) (c : BlockCtx) :
    Mem Bytes BlockCtx :=
  if cachedSize ≤ bodyStackMax then
    match collected with
    | some data => pure { c with requestBody := .stack data }
    | none => pure c
  else if alloc then do
    let buf ← malloc (collected.getD [])
    if collected.isSome then pure { c with requestBody := .heap buf }
    else
      free buf
      pure c
  else pure c

/-- The hand-over of a deferred execution; without room for the task both copies of
the context are cleaned up, the second one at the label `cleanup`. -/
def handOver (taskAlloc privTask : Bool) (c : BlockCtx) : Mem Bytes Life :=
  if taskAlloc then do
    let task ← malloc []
    if privTask then pure (.deferred task c true)
    else
      c.freeAll
      free task
      c.freeAll
      pure .ended
  else do
    c.freeAll
    pure .ended

def vdpWasmTaskFini (task : ℕ) (c : BlockCtx) (storeLive : Bool) : Mem Bytes Life :=
  if storeLive then do
    c.freeAll
    free task
    pure .ended
  else do
    free task
    pure .ended

/-- What an event does, if it can happen during an execution. -/
def executingStep (c : BlockCtx) : LifeEvent → Option (Mem Bytes Life)
  | .during e => some do
    let c ← ctxStep c e
    pure (.executing c)
  | .collectBody cachedSize alloc collected =>
    match c.requestBody with
    | .null => some do
      let c ← collectBody cachedSize alloc collected c
      pure (.executing c)
    | .stack _ | .heap _ => none
  | .finish => some do
    c.freeAll
    pure .ended
  | .handOver taskAlloc privTask => some (handOver taskAlloc privTask c)
  | .vdpFini | .taskFini => none

/-- The same for a task, which more than one delivery processor may have. -/
def deferredStep (task : ℕ) (c : BlockCtx) (storeLive : Bool) :
    LifeEvent → Option (Mem Bytes Life)
  | .during e =>
    if storeLive then some do
      let c ← ctxStep c e
      pure (.deferred task c true)
    else none
  | .vdpFini => some do
    let c ← vwasmProxyCtxCleanup c
    pure (.deferred task c false)
  | .taskFini => some (vdpWasmTaskFini task c storeLive)
  | .collectBody .. | .finish | .handOver .. => none

def lifeStep : Life → LifeEvent → Option (Mem Bytes Life)
  | .executing c, e => executingStep c e
  | .deferred task c storeLive, e => deferredStep task c storeLive e
  | .ended, _ => none

/-- A step that comes to an end. -/
def step (s : Life × Heap Bytes) (e : LifeEvent) (s' : Life × Heap Bytes) : Prop :=
  ∃ m, lifeStep s.1 e = some m ∧ m s.2 = some s'

end Model

section Values

def Values.ctxStep (v : Values) : CtxEvent → Values
  | .resolveMemory valid => { v with ctx := { v.ctx with memoryValid := valid } }
  | .activate token => { v with ctx := { v.ctx with activeHttpCall := token } }
  | .pause => { v with ctx := { v.ctx with paused := true } }
  | .hostCall hasPool env r => { v with ctx := (hostReply hasPool env r v.ctx).2 }
  | .trailerCall false alloc call =>
    { v with requestTrailers := (TrailerMaps.trailerCall alloc v.requestTrailers call).2 }
  | .trailerCall true alloc call =>
    { v with responseTrailers := (TrailerMaps.trailerCall alloc v.responseTrailers call).2 }
  | .showChunk data =>
    { v with ctx := { v.ctx with
        modifiedBody := []
        bodyModified := false
        responseBody := nonempty data } }
  | .hideChunk => { v with ctx := { v.ctx with responseBody := none } }
  | .passChunk =>
    if v.ctx.bodyModified then
      { v with ctx := { v.ctx with modifiedBody := [], bodyModified := false } }
    else v

/-- What the events do to the values, by the functions of the other modules. -/
def Values.step (v : Values) : LifeEvent → Values
  | .during e => Values.ctxStep v e
  | .collectBody cachedSize alloc collected =>
    match collected with
    | some data =>
      if cachedSize ≤ bodyStackMax then { v with ctx := { v.ctx with requestBody := some data } }
      else if alloc then
        { v with ctx := { v.ctx with requestBody := some data }, requestBodyHeap := true }
      else v
    | none => v
  | .vdpFini => v.cleaned
  | .finish | .handOver .. | .taskFini => v

end Values

/-- The blocks of a life: those of its context and the task. -/
def Life.Shows : Life → Values → Multiset (ℕ × Bytes) → Prop
  | .executing c, v, P => ContextBlocks.Shows c v P
  | .deferred task c storeLive, v, P =>
    ∃ Q, P = Q + {(task, [])} ∧ ContextBlocks.Shows c v Q ∧ (storeLive = false → Q = 0)
  | .ended, _, P => P = 0

section Steps

variable {c : BlockCtx} {v : Values} {P : Multiset (ℕ × Bytes)}

theorem showChunk_spec (hs : Shows c v P) (data : Bytes) :
    Triple P (showChunk data c) fun c' P' => Shows c' (Values.ctxStep v (.showChunk data)) P' := by
  obtain ⟨hplain, hbody, hheaders, hmod, hreq, hcalls, htr, htr', rfl⟩ := hs
  rename_i body headers modified request calls trailers trailers'
  refine Triple.part (F := calls + request + body + headers + trailers + trailers')
    (Triple.freeOpt hmod) (by abel) ?_
  rintro _ _ rfl
  refine Triple.pure (Shows.mk ?_ hbody hheaders Cell.null hreq hcalls htr htr' (by abel))
  dsimp only [Values.ctxStep]
  rw [SamePlain, hplain]

theorem passChunk_spec (hs : Shows c v P) :
    Triple P (passChunk c) fun c' P' => Shows c' (Values.ctxStep v .passChunk) P' := by
  have hflag : c.plain.bodyModified = v.ctx.bodyModified := by rw [hs.samePlain]
  unfold passChunk Values.ctxStep
  rw [hflag]
  split
  · obtain ⟨hplain, hbody, hheaders, hmod, hreq, hcalls, htr, htr', rfl⟩ := hs
    rename_i body headers modified request calls trailers trailers'
    refine Triple.part (F := calls + request + body + headers + trailers + trailers')
      (readOpt_spec hmod) (by abel) ?_
    rintro _ _ ⟨rfl, rfl⟩
    refine Triple.frees_bind (Triple.freeOpt hmod) fun _ => ?_
    refine Triple.pure (Shows.mk ?_ hbody hheaders Cell.null hreq hcalls htr htr' (by abel))
    rw [SamePlain, hplain]
  · exact Triple.pure hs

/-- Every event of a guest keeps the blocks and the values together. -/
theorem ctxStep_spec (hs : Shows c v P) (hnew : TokensAscend v.ctx) (e : CtxEvent) :
    Triple P (ctxStep c e) fun c' P' => Shows c' (Values.ctxStep v e) P' := by
  cases e with
  | hostCall hasPool env r =>
    refine Triple.seq (hostCall_spec hs hasPool env r hnew) ?_
    rintro res P' ⟨-, hs'⟩
    exact Triple.pure hs'
  | trailerCall response alloc call =>
    obtain ⟨hplain, hbody, hheaders, hmod, hreq, hcalls, htr, htr', rfl⟩ := hs
    rename_i body headers modified request calls trailers trailers'
    cases response with
    | false =>
      refine Triple.part (F := calls + request + body + headers + modified + trailers')
        (trailerCall_spec htr alloc call) (by abel) ?_
      rintro res P' ⟨-, hnew⟩
      exact Triple.pure (Shows.mk hplain hbody hheaders hmod hreq hcalls hnew htr' (by abel))
    | true =>
      refine Triple.part (F := calls + request + body + headers + modified + trailers)
        (trailerCall_spec htr' alloc call) (by abel) ?_
      rintro res P' ⟨-, hnew⟩
      exact Triple.pure (Shows.mk hplain hbody hheaders hmod hreq hcalls htr hnew (by abel))
  | showChunk data => exact showChunk_spec hs data
  | resolveMemory _ | activate _ | pause | hideChunk =>
    refine Triple.pure ?_
    obtain ⟨hplain, hbody, hheaders, hmod, hreq, hcalls, htr, htr', hP⟩ := hs
    refine Shows.mk ?_ hbody hheaders hmod hreq hcalls htr htr' hP
    dsimp only [Values.ctxStep]
    rw [SamePlain, hplain]
  | passChunk => exact passChunk_spec hs

theorem bodyCell_null {data : Option Bytes} {heap : Bool} (h : BodyCell .null data heap P) :
    data = none ∧ heap = false ∧ P = 0 := by
  cases h
  exact ⟨rfl, rfl, rfl⟩

theorem collectBody_spec (hs : Shows c v P) (hnull : c.requestBody = .null) (cachedSize : ℕ)
    (alloc : Bool) (collected : Option Bytes) :
    Triple P (collectBody cachedSize alloc collected c) fun c' P' =>
      Shows c' (Values.step v (.collectBody cachedSize alloc collected)) P' := by
  have hs' := hs
  obtain ⟨hplain, hbody, hheaders, hmod, hreq, hcalls, htr, htr', rfl⟩ := hs'
  rw [hnull] at hreq
  obtain ⟨-, hheap, rfl⟩ := bodyCell_null hreq
  unfold collectBody
  cases collected with
  | none =>
    split
    · exact Triple.pure hs
    · split
      · exact Triple.malloc_bind fun buf => Triple.free_bind (Triple.pure hs)
      · exact Triple.pure hs
  | some data =>
    simp only [Values.step]
    split
    · refine Triple.pure (Shows.mk ?_ hbody hheaders hmod ?_ hcalls htr htr' rfl)
      · rw [SamePlain, hplain]
      · dsimp only
        rw [hheap]
        exact BodyCell.stack data
    · split
      · refine Triple.malloc_bind fun buf => ?_
        simp only [Option.isSome_some, if_true, Option.getD_some]
        refine Triple.pure
          (Shows.mk ?_ hbody hheaders hmod (BodyCell.heap buf data) hcalls htr htr' (by abel))
        rw [SamePlain, hplain]
      · exact Triple.pure hs

/-- What one event does to the blocks of a life. The hand-over without room for the
task frees everything twice, so there must be nothing. -/
theorem lifeStep_spec {s : Life} (hs : s.Shows v P) (hnew : TokensAscend v.ctx) {e : LifeEvent}
    {m : Mem Bytes Life} (hm : lifeStep s e = some m) (hroom : e = .handOver true false → P = 0) :
    Triple P m fun s' P' => s'.Shows (Values.step v e) P' := by
  cases s with
  | executing c =>
    cases e with
    | during e =>
      injection hm with hm
      subst hm
      exact Triple.seq (ctxStep_spec hs hnew e) fun c' P' hs' => Triple.pure hs'
    | collectBody cachedSize alloc collected =>
      simp only [lifeStep, executingStep] at hm
      split at hm
      next hnull =>
        injection hm with hm
        subst hm
        exact Triple.seq (collectBody_spec hs hnull cachedSize alloc collected)
          fun c' P' hs' => Triple.pure hs'
      all_goals contradiction
    | finish =>
      injection hm with hm
      subst hm
      exact Triple.seq (BlockCtx.freeAll_spec hs) fun _ P' hP' => Triple.pure hP'
    | handOver taskAlloc privTask =>
      injection hm with hm
      subst hm
      unfold handOver
      cases taskAlloc with
      | false => exact Triple.seq (BlockCtx.freeAll_spec hs) fun _ P' hP' => Triple.pure hP'
      | true =>
        rw [if_pos rfl]
        refine Triple.malloc_bind fun task => ?_
        cases privTask with
        | true => exact Triple.pure ⟨P, add_comm .., hs, fun h => absurd h (by decide)⟩
        | false =>
          obtain rfl := hroom rfl
          rw [add_comm]
          refine Triple.frees_bind (BlockCtx.freeAll_spec hs) fun _ => ?_
          rw [← add_zero {_}]
          refine Triple.free_bind ?_
          exact Triple.seq (BlockCtx.freeAll_spec hs) fun _ P' hP' => Triple.pure hP'
    | vdpFini | taskFini => contradiction
  | deferred task c storeLive =>
    obtain ⟨Q, rfl, hs, hgone⟩ := hs
    cases e with
    | during e =>
      cases storeLive with
      | false => contradiction
      | true =>
        injection hm with hm
        subst hm
        refine Triple.bind (ctxStep_spec hs hnew e) ?_
        intro c' P' hs'
        exact Triple.pure ⟨P', rfl, hs', fun h => absurd h (by decide)⟩
    | vdpFini =>
      injection hm with hm
      subst hm
      refine Triple.bind (vwasmProxyCtxCleanup_spec hs) ?_
      rintro c' _ ⟨rfl, hs'⟩
      exact Triple.pure ⟨0, rfl, hs', fun _ => rfl⟩
    | taskFini =>
      injection hm with hm
      subst hm
      cases storeLive with
      | false =>
        rw [hgone rfl, zero_add]
        exact Triple.seq (Triple.free task []) fun _ P' hP' => Triple.pure hP'
      | true =>
        refine Triple.frees_bind (BlockCtx.freeAll_spec hs) fun _ => ?_
        exact Triple.seq (Triple.free task []) fun _ P' hP' => Triple.pure hP'
    | collectBody _ _ _ | finish | handOver _ _ => contradiction
  | ended => contradiction

end Steps

section Tokens

/-- The tokens in the tree have been drawn, and no more than `k` have. -/
structure TokensDrawn (k : ℕ) (ctx : ProxyCtx) : Prop where
  drawn : ∀ e ∈ ctx.httpCalls, e.tokenId ≤ ctx.httpCallNextToken
  next_le : ctx.httpCallNextToken ≤ k

variable {k : ℕ} {ctx : ProxyCtx}

theorem TokensDrawn.u32_next (h : TokensDrawn k ctx) (hk : k + 1 < 2 ^ 32) :
    u32 (ctx.httpCallNextToken + 1) = ctx.httpCallNextToken + 1 := by
  have := h.next_le
  exact Nat.mod_eq_of_lt (by omega)

theorem TokensDrawn.ascend (h : TokensDrawn k ctx) (hk : k + 1 < 2 ^ 32) : TokensAscend ctx := by
  intro e he
  rw [h.u32_next hk]
  exact Nat.lt_succ_of_le (h.drawn e he)

theorem TokensDrawn.mono (h : TokensDrawn k ctx) : TokensDrawn (k + 1) ctx :=
  ⟨h.drawn, Nat.le_succ_of_le h.next_le⟩

theorem TokensDrawn.drawToken (h : TokensDrawn k ctx) (hk : k + 1 < 2 ^ 32) :
    TokensDrawn (k + 1) (drawToken ctx) := by
  have hnext : (ContextBlocks.drawToken ctx).httpCallNextToken = ctx.httpCallNextToken + 1 :=
    h.u32_next hk
  refine ⟨fun e he => ?_, ?_⟩
  · rw [hnext]
    exact Nat.le_succ_of_le (h.drawn e he)
  · rw [hnext]
    exact Nat.succ_le_succ h.next_le

theorem TokensDrawn.storeResponse (h : TokensDrawn k ctx) (hk : k + 1 < 2 ^ 32) (env : CallEnv)
    (mem : Bytes) (tokenPtr : UInt32) (raw : Bytes) :
    TokensDrawn (k + 1) (HttpCall.storeResponse env ctx mem tokenPtr raw).ctx := by
  rw [storeResponse_eq env ctx mem tokenPtr raw (h.ascend hk)]
  split
  · split
    · exact h.drawToken hk
    · refine ⟨fun e he => ?_, (h.drawToken hk).next_le⟩
      rcases List.mem_append.mp he with he | he
      · exact (h.drawToken hk).drawn e he
      · rw [List.mem_singleton.mp he, ← (makeNode_row _ 0 0 raw).1]
        exact Nat.le_refl _
  · exact h.drawToken hk

theorem TokensDrawn.hostReply (h : TokensDrawn k ctx) (hk : k + 1 < 2 ^ 32) (hasPool : Bool)
    (env : CallEnv) (r : Request) : TokensDrawn (k + 1) (hostReply hasPool env r ctx).2 := by
  suffices hall : ∀ s,
      (handle { hasPool := hasPool, call := fun _ => env } r { ctx := ctx }).2 = s →
      TokensDrawn (k + 1) s.ctx from hall _ rfl
  intro s hs
  have hsame : TokensDrawn (k + 1) (countCall ctx) := ⟨h.mono.drawn, h.mono.next_le⟩
  obtain ⟨args, res, hres, rfl⟩ | ⟨code, body, headers, rfl⟩ | ⟨body, rfl⟩ | ⟨status, -, rfl⟩ |
    ⟨paused, done, rfl⟩ := handle_cases _ r _ s hs
  · obtain ⟨-, -, rfl⟩ | ⟨-, ⟨status, -, rfl⟩ | ⟨p, -, ⟨events, status, -, rfl⟩ |
      ⟨events, raw, stored, -, rfl, rfl⟩⟩⟩ := pwProxyHttpCall_cases _ _ _ _ args res hres
    · exact h.mono
    · exact hsame
    · exact hsame
    · have hcounted : TokensDrawn k (countCall ctx) := ⟨h.drawn, h.next_le⟩
      exact hcounted.storeResponse hk env r.mem _ raw
  · exact ⟨h.mono.drawn, h.mono.next_le⟩
  · exact ⟨h.mono.drawn, h.mono.next_le⟩
  · exact h.mono
  · exact ⟨h.mono.drawn, h.mono.next_le⟩

theorem TokensDrawn.step {v : Values} (h : TokensDrawn k v.ctx) (hk : k + 1 < 2 ^ 32)
    (e : LifeEvent) : TokensDrawn (k + 1) (Values.step v e).ctx := by
  have hsame (ctx : ProxyCtx) (hcalls : ctx.httpCalls = v.ctx.httpCalls)
      (hnext : ctx.httpCallNextToken = v.ctx.httpCallNextToken) : TokensDrawn (k + 1) ctx := by
    refine ⟨?_, ?_⟩
    · rw [hcalls, hnext]
      exact h.drawn
    · rw [hnext]
      exact h.mono.next_le
  cases e with
  | during e =>
    cases e with
    | hostCall hasPool env r => exact h.hostReply hk hasPool env r
    | trailerCall response alloc call => cases response <;> exact h.mono
    | passChunk =>
      simp only [Values.step, Values.ctxStep]
      split
      · exact hsame _ rfl rfl
      · exact h.mono
    | _ => exact hsame _ rfl rfl
  | collectBody cachedSize alloc collected =>
    simp only [Values.step]
    split
    · split
      · exact hsame _ rfl rfl
      · split
        · exact hsame _ rfl rfl
        · exact h.mono
    · exact h.mono
  | vdpFini => exact ⟨fun e he => absurd he List.not_mem_nil, h.mono.next_le⟩
  | finish | handOver _ _ | taskFini => exact h.mono

end Tokens

section Runs

def inBlock : BodyPtr → Bool
  | .heap _ => true
  | .null | .stack _ => false

/-- Whether a context has any block. -/
def ownsBlocks (c : BlockCtx) : Bool :=
  !c.httpCalls.isEmpty || inBlock c.requestBody ||
    c.localResponseBody.isSome || c.localResponseHeaders.isSome || c.modifiedBody.isSome ||
    !c.requestTrailers.isEmpty || !c.responseTrailers.isEmpty

theorem ownsBlocks_iff {c : BlockCtx} {v : Values} {P : Multiset (ℕ × Bytes)} (hs : Shows c v P) :
    ownsBlocks c = true ↔ P ≠ 0 := by
  obtain ⟨-, hbody, hheaders, hmod, hreq, hcalls, htr, htr', rfl⟩ := hs
  rename_i body headers modified request calls trailers trailers'
  have hcall := hcalls.isEmpty_iff fun n e P (h : CallRow n e P) => by
    obtain ⟨-, -, -, rfl⟩ := h
    exact fun hzero => Multiset.singleton_ne_zero _ (Multiset.le_zero.mp
      (hzero ▸ Multiset.le_add_right {(n.rawBuf, e.raw)} {(n.addr, [])}))
  have hrow (n : TrailerNode) (e : Bytes × Bytes) (P : Multiset (ℕ × Bytes))
      (h : TrailerRow n e P) : P ≠ 0 := by
    obtain rfl : P = {(n.name, e.1)} + {(n.value, e.2)} := h
    exact fun hzero => Multiset.singleton_ne_zero _ (Multiset.le_zero.mp
      (hzero ▸ Multiset.le_add_right {(n.name, e.1)} {(n.value, e.2)}))
  have hrequest : inBlock c.requestBody = true ↔ request ≠ 0 := by
    generalize c.requestBody = b, v.ctx.requestBody = data, v.requestBodyHeap = heap at hreq
    cases hreq <;> simp [inBlock]
  simp only [ownsBlocks, Bool.or_eq_true, Bool.not_eq_true', ← Bool.not_eq_true, hcall, hrequest,
    hbody.isSome_iff, hheaders.isSome_iff, hmod.isSome_iff, htr.isEmpty_iff hrow,
    htr'.isEmpty_iff hrow, ne_eq, ← Multiset.card_eq_zero, Multiset.card_add]
  omega

/-- A context that is not handed over yet and has a block. -/
def Life.ownsBlocks : Life → Bool
  | .executing c => ContextLife.ownsBlocks c
  | .deferred .. | .ended => false

variable {base : ℕ → Option Bytes} {h h' : Heap Bytes} {s s' : Life} {v : Values} {k : ℕ}

/-- All blocks of a life are known, and they hold the values. -/
def Inv (base : ℕ → Option Bytes) (k : ℕ) (s : Life × Heap Bytes) (v : Values) : Prop :=
  ∃ P, Owns base s.2 P ∧ s.1.Shows v P ∧ TokensDrawn k v.ctx

/-- Both copies of the context have the same blocks. -/
theorem handOver_faults {c : BlockCtx} {P : Multiset (ℕ × Bytes)} (hs : Shows c v P) (hne : P ≠ 0)
    (ho : Owns base h P) : handOver true false c h = none := by
  have hfirst : Triple P (do
      let task ← malloc []
      c.freeAll
      free task) fun _ P' => P' = 0 := by
    refine Triple.malloc_bind fun task => ?_
    rw [add_comm]
    exact Triple.frees_bind (BlockCtx.freeAll_spec hs) fun _ => Triple.free task []
  rw [← add_zero P] at ho
  obtain ⟨_, h₁, _, hrun, ho₁, rfl⟩ := hfirst base h 0 ho
  rw [zero_add] at ho₁
  have hdead (b : ℕ × Bytes) (hb : b ∈ P) : h₁.block b.1 = none := ho.dead ho₁ hb
  have hsecond : c.freeAll h₁ = none := (BlockCtx.strict_freeAll hs h₁ hdead).2 hne
  have hsplit : handOver true false c = (do
      let task ← malloc []
      c.freeAll
      free task) >>= fun _ => c.freeAll >>= fun _ => pure Life.ended := by
    simp only [handOver, if_true, Bool.false_eq_true, if_false, bind_assoc]
  rw [hsplit]
  have hnone (r : Unit × Heap Bytes) (hr : r.2 = h₁) :
      (c.freeAll >>= fun _ => pure Life.ended) r.2 = none := by
    change (c.freeAll r.2).bind _ = none
    rw [hr, hsecond]
    rfl
  exact (congrArg (Option.bind · _) hrun).trans (hnone ((), h₁) rfl)

/-- Every event that can happen comes to an end and keeps the blocks known, but for
the hand-over that frees the blocks twice. -/
theorem lifeStep_total (hi : Inv base k (s, h) v) (hk : k + 1 < 2 ^ 32) {e : LifeEvent}
    {m : Mem Bytes Life} (hm : lifeStep s e = some m) :
    (∃ s' h', m h = some (s', h') ∧ Inv base (k + 1) (s', h') (Values.step v e) ∧
      ¬ (e = .handOver true false ∧ s.ownsBlocks = true)) ∨
    (m h = none ∧ e = .handOver true false ∧ s.ownsBlocks = true) := by
  obtain ⟨P, ho, hs, htok⟩ := hi
  have hcase (hroom : e = .handOver true false → P = 0) :
      ∃ s' h', m h = some (s', h') ∧ Inv base (k + 1) (s', h') (Values.step v e) := by
    rw [← add_zero P] at ho
    obtain ⟨s', h', P', hrun, ho', hs'⟩ := lifeStep_spec hs (htok.ascend hk) hm hroom base h 0 ho
    rw [add_zero] at ho'
    exact ⟨s', h', hrun, P', ho', hs', htok.step hk e⟩
  by_cases he : e = .handOver true false
  · subst he
    cases s with
    | executing c =>
      injection hm with hm
      subst hm
      by_cases hP : P = 0
      · obtain ⟨s', h', hrun, hinv⟩ := hcase fun _ => hP
        refine Or.inl ⟨s', h', hrun, hinv, fun hboth => ?_⟩
        exact (ownsBlocks_iff hs).mp hboth.2 hP
      · exact Or.inr ⟨handOver_faults hs hP ho, rfl, (ownsBlocks_iff hs).mpr hP⟩
    | deferred _ _ _ | ended => contradiction
  · obtain ⟨s', h', hrun, hinv⟩ := hcase fun heq => absurd heq he
    exact Or.inl ⟨s', h', hrun, hinv, fun hboth => he hboth.1⟩

theorem step_inv {e : LifeEvent} (hstep : step (s, h) e (s', h')) (hi : Inv base k (s, h) v)
    (hk : k + 1 < 2 ^ 32) : Inv base (k + 1) (s', h') (Values.step v e) := by
  obtain ⟨m, hm, hrun⟩ := hstep
  obtain ⟨s'', h'', hrun', hinv, -⟩ | ⟨hnone, -⟩ := lifeStep_total hi hk hm
  · have hsame : some (s', h') = some (s'', h'') := hrun.symm.trans hrun'
    injection hsame with hsame
    rw [hsame]
    exact hinv
  · have hcontra : some (s', h') = none := hrun.symm.trans hnone
    contradiction

theorem run_inv {a b : Life × Heap Bytes} {ls : List LifeEvent} (hrun : Run step a ls b)
    (hi : Inv base k a v) (hk : k + ls.length < 2 ^ 32) :
    Inv base (k + ls.length) b (ls.foldl Values.step v) := by
  induction hrun generalizing k v with
  | nil => exact hi
  | cons hstep _ ih =>
    rw [List.length_cons] at hk ⊢
    have hnext := ih (step_inv hstep hi (by omega)) (by omega)
    rwa [add_right_comm, add_assoc] at hnext

variable {σ : Type} (engine : Engine σ) (name vmConfig pluginConfig : Bytes)

/-- An execution at its start. -/
def begun : Life := .executing { plain := setupCtx engine name vmConfig pluginConfig }

def begunValues : Values where
  ctx := setupCtx engine name vmConfig pluginConfig
  requestTrailers := TrailerMaps.pwTrailerClear
  responseTrailers := TrailerMaps.pwTrailerClear

theorem begun_inv (hfresh : ∀ i, h.next ≤ i → h.block i = none) :
    Inv h.block 0 (begun engine name vmConfig pluginConfig, h)
      (begunValues engine name vmConfig pluginConfig) := by
  have hplain : SamePlain (setupCtx engine name vmConfig pluginConfig)
      (begunValues engine name vmConfig pluginConfig).ctx := rfl
  have hshows := Shows.mk (c := { plain := setupCtx engine name vmConfig pluginConfig }) hplain
    Cell.null Cell.null Cell.null BodyCell.null Listed.nil Listed.nil Listed.nil rfl
  exact ⟨0, owns_zero hfresh, hshows, fun e he => absurd he List.not_mem_nil, Nat.le_refl 0⟩

/-- A local response with a body and the end of the execution. -/
def answering : List LifeEvent :=
  [.during (.resolveMemory true),
    .during (.hostCall false {} ⟨[0x41], .sendLocalResponse 403 0 1 0 0⟩),
    .finish]

def answeringLife : Life := begun ({ modules := [] } : Engine Unit) [] [] []

theorem answering_run : ∃ h, Run step (answeringLife, Heap.empty) answering (.ended, h) :=
  ⟨_, Run.cons ⟨_, rfl, rfl⟩ (Run.cons ⟨_, rfl, rfl⟩ (Run.cons ⟨_, rfl, rfl⟩ (Run.nil _)))⟩

theorem answered_run : ∃ c h, Run step (answeringLife, Heap.empty) (answering.take 2)
    (.executing c, h) ∧ ownsBlocks c = true :=
  ⟨_, _, Run.cons ⟨_, rfl, rfl⟩ (Run.cons ⟨_, rfl, rfl⟩ (Run.nil _)), rfl⟩

end Runs

end VmodWasm.ContextLife
