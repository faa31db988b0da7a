import VmodWasm.PathEntries

/-!
The store a path runs its guest code in. Every path sets up one store, and the
guest functions it enters find its record, its limiter and a budget within its
deadline, however the operations before them went. Only a start function can
run earlier, in a store without a record.
-/
namespace VmodWasm.GuestStores

open ByteStrings ProxyContext HostImports StorePaths PathEntries Lib.Interaction Lib.Obligations

variable (e : Limits) (m : WasmModule) (path : ExecPath)

/-- How a path sets up the store in which it runs guest code. -/
structure GuestStore (s : StoreState) : Prop where
  data : s.data = some (kind path)
  limiter : s.limiter = limiterOf e path
  budget : s.budget ≤ budgetOf e m path

variable {e m path} {s : StoreState}

theorem epochDeadline_le_budgetOf : e.epochDeadlineMs ≤ budgetOf e m path := by
  unfold budgetOf
  split <;> split <;> omega

theorem GuestStore.instantiate (hs : GuestStore e m path s) (r : Reply) :
    GuestStore e m path (storeNext s .instantiate r) :=
  ⟨hs.data, hs.limiter, (Nat.sub_le _ _).trans hs.budget⟩

theorem GuestStore.funcCall (hs : GuestStore e m path s) (name : Bytes) (r : Reply) :
    GuestStore e m path (storeNext s (.funcCall name) r) :=
  ⟨hs.data, hs.limiter, (Nat.sub_le _ _).trans hs.budget⟩

theorem GuestStore.setEpochDeadline (hs : GuestStore e m path s) (ticks : ℕ)
    (hle : ticks ≤ budgetOf e m path) (r : Reply) :
    GuestStore e m path (storeNext s (.setEpochDeadline ticks) r) :=
  ⟨hs.data, hs.limiter, (Nat.sub_le _ _).trans hle⟩

theorem GuestStore.setData (hs : GuestStore e m path s) (hkind : kind path = .proxyCtx)
    (r : Reply) : GuestStore e m path (storeNext s (.setData (some .proxyCtx)) r) :=
  ⟨by rw [hkind]; rfl, hs.limiter, (Nat.sub_le _ _).trans hs.budget⟩

theorem storeNext_newStore_none (r : Reply) : storeNext {} (.newStore none) r = {} := by
  cases hok : r.ok <;> simp [storeNext, StoreOp.effect, hok]

variable (e m path s) in
theorem guestStore_newStore (hlimiter : limiterOf e path = some e.memoryLimit)
    {created : Reply} (hcreated : created.ok = true) (r r' : Reply) :
    GuestStore e m path (storeNext (storeNext (storeNext s (.newStore (some (kind path))) created)
      (.setEpochDeadline e.epochDeadlineMs) r) (.storeLimiter e.memoryLimit) r') := by
  refine ⟨?_, hlimiter.symm, ?_⟩
  · simp [storeNext, StoreOp.effect, hcreated]
  · exact ((Nat.sub_le _ _).trans (Nat.sub_le _ _)).trans epochDeadline_le_budgetOf

variable (e m path) in
/-- `ok` lets everything pass but guest code, guest code in the store that the
path sets up, and the start function that runs before. -/
structure Accepts (ok : StoreState → StoreOp → Reply → Prop) : Prop where
  quiet : ∀ s op r, runsGuest m op = false → Possible m op r → ok s op r
  guest : Enters m path → ∀ s op r, GuestStore e m path s → Possible m op r → ok s op r
  bare : StartsBare m path → ∀ s r, s.data = none → s.limiter = limiterOf e path →
    s.budget ≤ budgetOf e m path → Possible m .instantiate r → ok s .instantiate r

namespace Accepts

variable {ok : StoreState → StoreOp → Reply → Prop}

theorem run (h : Accepts e m path ok) (op : StoreOp) (hs : GuestStore e m path s)
    (henters : runsGuest m op = true → Enters m path) {r : Reply} (hr : Possible m op r) :
    ok s op r := by
  cases hop : runsGuest m op
  · exact h.quiet s op r hop hr
  · exact h.guest (henters hop) s op r hs hr

theorem runBare (h : Accepts e m path ok) (hbare : m.hasStart = true → StartsBare m path)
    (hdata : s.data = none) (hlimiter : s.limiter = limiterOf e path)
    (hbudget : s.budget ≤ budgetOf e m path) {r : Reply} (hr : Possible m .instantiate r) :
    ok s .instantiate r := by
  cases hstart : m.hasStart
  · exact h.quiet s _ r hstart hr
  · exact h.bare (hbare hstart) s r hdata hlimiter hbudget hr

theorem calls (h : Accepts e m path ok) (henters : Enters m path) :
    Calls m ok (GuestStore e m path) :=
  fun _ _ s r hs hr => ⟨h.guest henters s _ r hs hr, hs.funcCall _ r⟩

theorem keeps {pooled : Option ℕ} {x : ExecInput} (h : Accepts e m (.execute pooled x) ok)
    (henters : Enters m (.execute pooled x)) :
    Keeps e m ok (GuestStore e m (.execute pooled x)) x.phase where
  calls := h.calls henters
  reset s r hs hr := ⟨h.quiet s _ r rfl hr, hs.setEpochDeadline _ epochDeadline_le_budgetOf r⟩
  data s r hs hr := ⟨h.quiet s _ r rfl hr, hs.setData rfl r⟩
  deliver hheaders hexports himports s r hs hr := by
    refine ⟨h.quiet s _ r rfl hr, hs.setEpochDeadline _ ?_ r⟩
    simp [budgetOf, delivers, hheaders, hexports, himports]

theorem engineCall {func : Bytes} (h : Accepts e m (.engineCall func) ok) :
    Throughout (storeRules m ok) (fun _ _ => True) (vwasmEngineCall e m func) {} := by
  refine quiet_then h.quiet _ rfl _ _ fun created => ?_
  cases hcreated : created.ok
  · trivial
  refine quiet_then h.quiet _ rfl _ _ fun r => quiet_then h.quiet _ rfl _ _ fun r' => ?_
  have hs := guestStore_newStore e m (.engineCall func) {} rfl hcreated r r'
  refine then_of_step fun inst hinst => ?_
  refine ⟨h.run .instantiate hs (fun hstart => Or.inr (Or.inl hstart)) hinst, ?_⟩
  split
  next hcall =>
    have hexports : m.exportsFn func = true := (Bool.and_eq_true _ _ ▸ hcall).2
    refine then_of_step fun r hr => ⟨h.run _ (hs.instantiate inst) ?_ hr, trivial⟩
    exact fun _ => Or.inr (Or.inr hexports)
  next => trivial

theorem lifecycle {pooled : Option ℕ} {x : ExecInput} (h : Accepts e m (.execute pooled x) ok)
    (hs : GuestStore e m (.execute pooled x) s) :
    Throughout (storeRules m ok) (fun _ _ => True) (lifecycle e m pooled.isSome x) s := by
  by_cases hany : ∃ cb ∈ entries (.execute pooled x), m.exports cb = true
  · exact ((h.keeps (Or.inl hany)).lifecycle hs _ x rfl).mono _ fun _ _ _ => trivial
  · refine quiet_lifecycle e h.quiet pooled x (fun cb hcb => ?_) s
    exact Bool.eq_false_iff.mpr fun hexports => hany ⟨cb, hcb, hexports⟩

theorem execute {pooled : Option ℕ} {x : ExecInput} (h : Accepts e m (.execute pooled x) ok) :
    Throughout (storeRules m ok) (fun _ _ => True) (proxyWasmExecute e m pooled.isSome x)
      { limiter := pooled } := by
  cases pooled with
  | none =>
    refine (throughout_bind _ _ (useFresh e) _ _).mpr ?_
    refine quiet_then h.quiet _ rfl _ _ fun created => ?_
    cases hcreated : created.ok
    · trivial
    refine quiet_then h.quiet _ rfl _ _ fun r => quiet_then h.quiet _ rfl _ _ fun r' => ?_
    have hs := guestStore_newStore e m (.execute none x) {} rfl hcreated r r'
    refine then_of_step fun inst hinst => ?_
    refine ⟨h.run .instantiate hs (fun hstart => Or.inr hstart) hinst, ?_⟩
    show Throughout _ _ (if inst.ok then StorePaths.lifecycle e m false x else pure ()) _
    cases inst.ok
    · trivial
    · exact h.lifecycle (hs.instantiate inst)
  | some limit =>
    refine (throughout_bind _ _ (usePooled e) _ _).mpr ?_
    refine quiet_then h.quiet _ rfl _ _ fun r => quiet_then h.quiet _ rfl _ _ fun r' => ?_
    refine quiet_then h.quiet _ rfl _ _ fun r'' => ?_
    refine (throughout_bind _ _ (StorePaths.lifecycle e m true x) _ _).mpr ?_
    refine (h.lifecycle ⟨rfl, rfl, ?_⟩).mono _ fun _ _ _ => ?_
    · exact (Nat.sub_le _ _).trans epochDeadline_le_budgetOf
    · refine quiet_then h.quiet _ rfl _ _ fun _ => ?_
      trivial

theorem warmInstance (h : Accepts e m .warmInstance ok) :
    Throughout (storeRules m ok) (fun _ _ => True) (vwasmWarmInstanceCreate e m) {} := by
  refine quiet_then h.quiet _ rfl _ _ fun created => ?_
  cases created.ok
  · trivial
  refine quiet_then h.quiet _ rfl _ _ fun r => quiet_then h.quiet _ rfl _ _ fun r' => ?_
  refine quiet_then h.quiet _ rfl _ _ fun r'' => then_of_step fun inst hinst => ?_
  have hs : GuestStore e m .warmInstance (storeNext (storeNext (storeNext (storeNext {}
      (.newStore none) created) (.setData (some .proxyCtx)) r)
      (.setEpochDeadline e.epochDeadlineMs) r') (.storeLimiter e.memoryLimit) r'') :=
    ⟨rfl, rfl, ((Nat.sub_le _ _).trans (Nat.sub_le _ _)).trans epochDeadline_le_budgetOf⟩
  refine ⟨h.run .instantiate hs (fun hstart => Or.inr hstart) hinst, ?_⟩
  cases inst.ok
  · trivial
  by_cases hany : ∃ cb ∈ entries .warmInstance, m.exports cb = true
  · have hcalls := h.calls (Or.inl hany)
    exact (hcalls.runUntilFailure (hs.instantiate inst) _).mono _ fun _ _ _ => trivial
  · refine quiet_untilFailure _ (fun cb hcb => ?_) _
    exact Bool.eq_false_iff.mpr fun hexports => hany ⟨cb, hcb, hexports⟩

theorem poolSlot (h : Accepts e m .poolSlot ok) :
    Throughout (storeRules m ok) (fun _ _ => True) (poolInitSlot e) {} := by
  refine quiet_then h.quiet _ rfl _ _ fun created => ?_
  rw [storeNext_newStore_none]
  cases created.ok
  · trivial
  refine quiet_then h.quiet _ rfl _ _ fun r => quiet_then h.quiet _ rfl _ _ fun r' => ?_
  refine then_of_step fun inst hinst => ⟨h.runBare id rfl rfl ?_ hinst, trivial⟩
  exact ((Nat.sub_le _ _).trans (Nat.sub_le _ _)).trans epochDeadline_le_budgetOf

theorem tick (h : Accepts e m .tick ok) :
    Throughout (storeRules m ok) (fun _ _ => True) (tickTurn e m) {} := by
  refine quiet_then h.quiet _ rfl _ _ fun created => ?_
  rw [storeNext_newStore_none]
  cases created.ok
  · trivial
  refine quiet_then h.quiet _ rfl _ _ fun r => then_of_step fun inst hinst => ?_
  refine ⟨h.runBare id rfl rfl (Nat.sub_le _ _) hinst, ?_⟩
  cases inst.ok
  · trivial
  refine quiet_then h.quiet _ rfl _ _ fun r' => ?_
  by_cases hany : ∃ cb ∈ entries .tick, m.exports cb = true
  · have hcalls := h.calls (Or.inl hany)
    refine hcalls.callThen ⟨rfl, rfl, ?_⟩ _ _ fun _ _ hs => hcalls.callThen hs _ _ fun _ _ hs => ?_
    · exact (Nat.sub_le _ _).trans ((Nat.sub_le _ _).trans (Nat.sub_le _ _))
    · exact hcalls.callThen hs _ _ fun _ _ hs => hcalls.callThen hs _ _ fun _ _ _ => trivial
  · have hmissing (cb : Callback) (hcb : cb ∈ entries .tick) : callWasm m cb = pure none :=
      callWasm_missing cb (Bool.eq_false_iff.mpr fun hexports => hany ⟨cb, hcb, hexports⟩)
    rw [hmissing .initializeModule (by simp [entries]), hmissing .contextCreate (by simp [entries]),
      hmissing .vmStart (by simp [entries]), hmissing .tick (by simp [entries])]
    trivial

/-- Every operation of a path passes that passes for its store. -/
theorem throughout (h : Accepts e m path ok) :
    Throughout (storeRules m ok) (fun _ _ => True) (path.script e m) path.start := by
  cases path with
  | engineCall func => exact h.engineCall
  | execute pooled x => exact h.execute
  | warmInstance => exact h.warmInstance
  | poolSlot => exact h.poolSlot
  | tick => exact h.tick

end Accepts

end VmodWasm.GuestStores
