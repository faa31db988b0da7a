import VmodWasm.ByteStrings
import VmodWasm.Lib.SlotClaims

/-!
The connection pool of http_pool.c under concurrent callers. A step of a caller
is one section of `vwasm_http_pool_acquire` that holds the pool lock, the
connect between two such sections, or one store of `vwasm_http_pool_release`,
whose stores are made without the lock. Steps of different callers interleave
freely. Clock, DNS, connects and the liveness of sockets are labels.
-/
namespace VmodWasm.ConnectionPool

open ByteStrings Lib.Transition Lib.SlotClaims

/-- `struct vwasm_http_conn`; `fd` is `none` for -1. -/
structure Conn where
  fd : Option ℕ := none
  host : Bytes := []
  port : ℕ := 0
  lastUsed : ℤ := 0
  createdAt : ℤ := 0
  inUse : Bool := false
  keepAlive : Bool := false
  requestsServed : ℤ := 0
  deriving DecidableEq, Repr

/-- The arguments of an acquire, with the time it started. -/
structure ConnRequest where
  host : Bytes
  port : ℕ
  ssrfExempt : Bool := true
  now : ℤ := 0
  deriving DecidableEq, Repr

/-- A connection pointer: into the pool's array, or a heap-allocated overflow
connection. -/
inductive ConnRef where
  | slot (i : ℕ)
  | heap (k : ℕ)
  deriving DecidableEq, Repr

/-- Where a caller is. The states from `closing` on are those of its release. -/
inductive Caller where
  | idle
  | searching (req : ConnRequest)
  | connecting (req : ConnRequest)
  | placing (req : ConnRequest) (fd : ℕ)
  | evicting (req : ConnRequest) (fd : ℕ)
  | overflowing (req : ConnRequest) (fd : ℕ)
  | holding (conn : ConnRef)
  | closing (conn : ConnRef)
  | clearing (conn : ConnRef) (keep : Bool)
  | touching (conn : ConnRef)
  | checking (conn : ConnRef)
  deriving DecidableEq, Repr

structure HttpPool where
  conns : List Conn
  maxRequestsPerConn : ℤ := 100
  maxConnAgeS : ℤ := 300
  heap : List (Option Conn) := []
  callers : ℕ → Caller := fun _ => .idle

/-- `vwasm_http_pool_new`, as far as the connections go. -/
def vwasmHttpPoolNew (maxConns : ℕ) : HttpPool where
  conns := List.replicate (min (if maxConns = 0 then 16 else maxConns) 256) {}

def HttpPool.setCaller (p : HttpPool) (t : ℕ) (c : Caller) : HttpPool :=
  { p with callers := Function.update p.callers t c }

def HttpPool.conn (p : HttpPool) : ConnRef → Option Conn
  | .slot i => p.conns[i]?
  | .heap k => p.heap[k]?.join

def HttpPool.modifyConn (p : HttpPool) (f : Conn → Conn) : ConnRef → HttpPool
  | .slot i => { p with conns := p.conns.modify i f }
  | .heap k => { p with heap := p.heap.modify k (Option.map f) }

/-- An idle connection that the request may not use any more. -/
def HttpPool.expired (p : HttpPool) (now : ℤ) (alive : Bool) (c : Conn) : Bool :=
  decide (p.maxConnAgeS < now - c.createdAt) ||
    decide (p.maxRequestsPerConn ≤ c.requestsServed) || !alive

/-- The first section: the first usable idle connection to the upstream is
taken; unusable ones on the way are closed. -/
def reuseScan (p : HttpPool) (req : ConnRequest) : (ℕ → Bool) → List Conn →
    Option ℕ × List Conn
  | _, [] => (none, [])
  | alive, c :: cs =>
    if !req.ssrfExempt || c.fd.isNone || c.inUse || c.host != req.host || c.port != req.port then
      let r := reuseScan p req (fun n => alive (n + 1)) cs
      (r.1.map (· + 1), c :: r.2)
    else if p.expired req.now (alive 0) c then
      let r := reuseScan p req (fun n => alive (n + 1)) cs
      (r.1.map (· + 1), { c with fd := none } :: r.2)
    else
      (some 0, { c with inUse := true, lastUsed := req.now
                        requestsServed := c.requestsServed + 1 } :: cs)

/-- The second section looks only at the descriptor. -/
def freeSlot (conns : List Conn) : Option ℕ := conns.findIdx? fun c => c.fd.isNone

/-- The third section: the idle connection used longest ago, the last of them
on a tie. -/
def oldestIdle : ℕ → List Conn → ℤ → Option ℕ → Option ℕ
  | _, [], _, best => best
  | i, c :: cs, oldest, best =>
    if c.fd.isSome && !c.inUse && decide (c.lastUsed ≤ oldest) then
      oldestIdle (i + 1) cs c.lastUsed (some i)
    else oldestIdle (i + 1) cs oldest best

/-- A connection as acquire fills it in; overflow connections are not kept. -/
def newConn (req : ConnRequest) (fd : ℕ) (keepAlive : Bool) : Conn where
  fd := some fd
  host := req.host.take 255
  port := req.port
  lastUsed := req.now
  createdAt := req.now
  inUse := true
  keepAlive := keepAlive
  requestsServed := 1

inductive Action where
  | acquire (req : ConnRequest)
  | reuse (alive : ℕ → Bool)
  | connect (fd : Option ℕ)
  | place
  | evict
  | overflow (alloc : Bool)
  | release (keepAlive : Bool)
  | closeFd
  | clearInUse
  | touch (now : ℤ)
  | scan

/-- Take slot `i` for a new connection. -/
def HttpPool.fill (p : HttpPool) (t i : ℕ) (req : ConnRequest) (fd : ℕ) : HttpPool :=
  { p with conns := p.conns.set i (newConn req fd true) }.setCaller t (.holding (.slot i))

/-- One step of caller `t`. A request that the circuit breaker refuses never
gets as far as `acquire` here. -/
def poolStep (p : HttpPool) : ℕ × Action → Option HttpPool
  | (t, a) =>
    match a, p.callers t with
    | .acquire req, .idle => some (p.setCaller t (.searching req))
    | .reuse alive, .searching req =>
      let r := reuseScan p req alive p.conns
      match r.1 with
      | some i => some ({ p with conns := r.2 }.setCaller t (.holding (.slot i)))
      | none => some ({ p with conns := r.2 }.setCaller t (.connecting req))
    | .connect none, .connecting _ => some (p.setCaller t .idle)
    | .connect (some fd), .connecting req => some (p.setCaller t (.placing req fd))
    | .place, .placing req fd =>
      match freeSlot p.conns with
      | some i => some (p.fill t i req fd)
      | none => some (p.setCaller t (.evicting req fd))
    | .evict, .evicting req fd =>
      match oldestIdle 0 p.conns req.now none with
      | some i => some (p.fill t i req fd)
      | none => some (p.setCaller t (.overflowing req fd))
    | .overflow false, .overflowing _ _ => some (p.setCaller t .idle)
    | .overflow true, .overflowing req fd =>
      some ({ p with heap := p.heap ++ [some (newConn req fd false)] }.setCaller t
        (.holding (.heap p.heap.length)))
    | .release keepAlive, .holding ref =>
      match p.conn ref with
      | some c =>
        if !keepAlive || !c.keepAlive || c.fd.isNone then some (p.setCaller t (.closing ref))
        else some (p.setCaller t (.clearing ref true))
      | none => none
    | .closeFd, .closing ref =>
      some ((p.modifyConn (fun c => { c with fd := none }) ref).setCaller t (.clearing ref false))
    | .clearInUse, .clearing ref keep =>
      some ((p.modifyConn (fun c => { c with inUse := false }) ref).setCaller t
        (if keep then .touching ref else .checking ref))
    | .touch now, .touching ref =>
      some ((p.modifyConn (fun c => { c with lastUsed := now }) ref).setCaller t (.checking ref))
    | .scan, .checking (.slot _) => some (p.setCaller t .idle)
    | .scan, .checking (.heap k) => some ({ p with heap := p.heap.set k none }.setCaller t .idle)
    | _, _ => none

def ConnRef.index : ConnRef → Option ℕ
  | .slot i => some i
  | .heap _ => none

/-- The slot a caller owns: from the section that hands it out to the store
that clears `in_use`. -/
def Caller.slot : Caller → Option ℕ
  | .holding ref | .closing ref | .clearing ref _ => ref.index
  | _ => none

/-- The flag `in_use` of a slot. -/
def inUseAt (conns : List Conn) (i : ℕ) : Bool := (conns[i]?.map Conn.inUse).getD false

def claims (p : HttpPool) : Claims ℕ ℕ where
  owner t := (p.callers t).slot
  taken := inUseAt p.conns

@[simp] theorem inUseAt_cons_zero (c : Conn) (cs : List Conn) :
    inUseAt (c :: cs) 0 = c.inUse := rfl

@[simp] theorem inUseAt_cons_succ (c : Conn) (cs : List Conn) (i : ℕ) :
    inUseAt (c :: cs) (i + 1) = inUseAt cs i := rfl

theorem inUseAt_set (conns : List Conn) (i : ℕ) (c : Conn) (h : i < conns.length) :
    inUseAt (conns.set i c) = Function.update (inUseAt conns) i c.inUse := by
  funext j
  by_cases hj : j = i
  · subst hj
    simp [inUseAt, h]
  · rw [Function.update_of_ne hj]
    simp [inUseAt, List.getElem?_set_ne (Ne.symm hj)]

theorem inUseAt_modify (conns : List Conn) (i : ℕ) (f : Conn → Conn)
    (hf : ∀ c, (f c).inUse = c.inUse) : inUseAt (conns.modify i f) = inUseAt conns := by
  funext j
  by_cases hj : i = j <;> cases h : conns[j]? <;> simp [inUseAt, h, hj, hf]

theorem inUseAt_clear (conns : List Conn) (i : ℕ) :
    inUseAt (conns.modify i fun c => { c with inUse := false }) =
      Function.update (inUseAt conns) i false := by
  funext j
  by_cases hj : j = i
  · subst hj
    cases h : conns[j]? <;> simp [inUseAt, h]
  · rw [Function.update_of_ne hj]
    cases h : conns[j]? <;> simp [inUseAt, h, Ne.symm hj]

/-- The first section takes a slot that is not in use, or none. -/
theorem reuseScan_cases (p : HttpPool) (req : ConnRequest) (alive : ℕ → Bool) (conns : List Conn)
    (r : Option ℕ × List Conn) (hr : reuseScan p req alive conns = r) :
    (r.1 = none ∧ inUseAt r.2 = inUseAt conns) ∨
    ∃ i, r.1 = some i ∧ inUseAt conns i = false ∧
      inUseAt r.2 = Function.update (inUseAt conns) i true := by
  induction conns generalizing alive r with
  | nil =>
    subst hr
    exact Or.inl ⟨rfl, rfl⟩
  | cons c cs ih =>
    -- a skipped connection keeps its flag, so the scan of the rest decides
    have hskip (c' : Conn) (hc' : c'.inUse = c.inUse)
        (hr : ((reuseScan p req (fun n => alive (n + 1)) cs).1.map (· + 1),
          c' :: (reuseScan p req (fun n => alive (n + 1)) cs).2) = r) :
        (r.1 = none ∧ inUseAt r.2 = inUseAt (c :: cs)) ∨
        ∃ i, r.1 = some i ∧ inUseAt (c :: cs) i = false ∧
          inUseAt r.2 = Function.update (inUseAt (c :: cs)) i true := by
      subst hr
      rcases ih (fun n => alive (n + 1)) _ rfl with ⟨hnone, hsame⟩ | ⟨i, hi, hfree, htaken⟩
      · refine Or.inl ⟨by rw [hnone]; rfl, ?_⟩
        funext j
        cases j with
        | zero => exact hc'
        | succ j => exact congrFun hsame j
      · refine Or.inr ⟨i + 1, by rw [hi]; rfl, hfree, ?_⟩
        funext j
        cases j with
        | zero => simp [hc']
        | succ j =>
          rw [inUseAt_cons_succ, congrFun htaken j]
          simp [Function.update_apply]
    rw [reuseScan] at hr
    split at hr
    · exact hskip c rfl hr
    next hbusy =>
      split at hr
      · exact hskip { c with fd := none } rfl hr
      · subst hr
        refine Or.inr ⟨0, rfl, by simp_all, ?_⟩
        funext j
        cases j <;> simp

theorem freeSlot_lt (conns : List Conn) (i : ℕ) (h : freeSlot conns = some i) :
    i < conns.length :=
  (List.findIdx?_eq_some_iff_findIdx_eq.mp h).1

/-- The third section takes a slot that is not in use, or none. -/
theorem oldestIdle_idle (conns : List Conn) (i : ℕ) (oldest : ℤ) (best : Option ℕ) (j : ℕ)
    (h : oldestIdle i conns oldest best = some j) :
    best = some j ∨ ∃ k, j = i + k ∧ k < conns.length ∧ inUseAt conns k = false := by
  induction conns generalizing i oldest best with
  | nil => exact Or.inl h
  | cons c cs ih =>
    have hrest : (∃ k, j = i + 1 + k ∧ k < cs.length ∧ inUseAt cs k = false) →
        ∃ k, j = i + k ∧ k < (c :: cs).length ∧ inUseAt (c :: cs) k = false := by
      rintro ⟨k, hk, hlt, hidle⟩
      exact ⟨k + 1, by omega, by rw [List.length_cons]; omega, hidle⟩
    rw [oldestIdle] at h
    split at h
    next hidle =>
      rcases ih (i + 1) c.lastUsed (some i) h with hbest | hlater
      · injection hbest with hbest
        exact Or.inr ⟨0, hbest.symm, by simp, by simp_all⟩
      · exact Or.inr (hrest hlater)
    next =>
      rcases ih (i + 1) oldest best h with hbest | hlater
      · exact Or.inl hbest
      · exact Or.inr (hrest hlater)

/-- Owners and flags stay as they are. -/
def Quiet (p p' : HttpPool) (t : ℕ) : Prop :=
  ∃ q c, p' = HttpPool.setCaller q t c ∧ q.callers = p.callers ∧
    c.slot = (p.callers t).slot ∧ inUseAt q.conns = inUseAt p.conns

/-- The caller takes slot `i`, and the flag of the slot goes up. -/
def Takes (p p' : HttpPool) (t i : ℕ) : Prop :=
  ∃ q, p' = HttpPool.setCaller q t (.holding (.slot i)) ∧ q.callers = p.callers ∧
    inUseAt q.conns = Function.update (inUseAt p.conns) i true

/-- The caller lets go of slot `i`, and the flag goes down. -/
def Clears (p p' : HttpPool) (t i : ℕ) : Prop :=
  ∃ q c, p' = HttpPool.setCaller q t c ∧ q.callers = p.callers ∧
    (p.callers t).slot = some i ∧ c.slot = none ∧
    inUseAt q.conns = Function.update (inUseAt p.conns) i false

theorem quiet_setCaller (p : HttpPool) (t : ℕ) (c : Caller)
    (h : c.slot = (p.callers t).slot) : Quiet p (p.setCaller t c) t :=
  ⟨p, c, rfl, rfl, h, rfl⟩

theorem fill_takes (p : HttpPool) (t i : ℕ) (req : ConnRequest) (fd : ℕ)
    (h : i < p.conns.length) : Takes p (p.fill t i req fd) t i :=
  ⟨_, rfl, rfl, inUseAt_set p.conns i _ h⟩

/-- Stores to a connection that leave its flag alone. -/
theorem quiet_modifyConn (p : HttpPool) (t : ℕ) (f : Conn → Conn) (ref : ConnRef) (c : Caller)
    (hf : ∀ c, (f c).inUse = c.inUse) (h : c.slot = (p.callers t).slot) :
    Quiet p ((p.modifyConn f ref).setCaller t c) t := by
  cases ref with
  | slot i => exact ⟨_, c, rfl, rfl, h, inUseAt_modify p.conns i f hf⟩
  | heap k => exact ⟨_, c, rfl, rfl, h, rfl⟩

theorem reuse_cases (p : HttpPool) (t : ℕ) (req : ConnRequest) (alive : ℕ → Bool)
    (p' : HttpPool) (hcaller : p.callers t = .searching req)
    (h : poolStep p (t, .reuse alive) = some p') :
    Quiet p p' t ∨ ∃ i, inUseAt p.conns i = false ∧ Takes p p' t i := by
  simp only [poolStep, hcaller] at h
  rcases reuseScan_cases p req alive p.conns _ rfl with ⟨hnone, hsame⟩ | ⟨i, hi, hfree, htaken⟩
  · rw [hnone] at h
    injection h with h
    subst h
    exact Or.inl ⟨_, _, rfl, rfl, by rw [hcaller]; rfl, hsame⟩
  · rw [hi] at h
    injection h with h
    subst h
    exact Or.inr ⟨i, hfree, _, rfl, rfl, htaken⟩

/-- All a step can do to the slots: nothing that shows in owners and flags, a
claim of a slot whose flag is down, a claim by the second section, which does
not look at the flag, or the store that clears the flag. -/
theorem poolStep_cases (p p' : HttpPool) (t : ℕ) (a : Action) (h : poolStep p (t, a) = some p') :
    Quiet p p' t ∨ (∃ i, inUseAt p.conns i = false ∧ Takes p p' t i) ∨
      (∃ i, a = .place ∧ freeSlot p.conns = some i ∧ Takes p p' t i) ∨ ∃ i, Clears p p' t i := by
  have hquiet (c : Caller) (hp : some (p.setCaller t c) = some p')
      (hc : c.slot = (p.callers t).slot) : Quiet p p' t := by
    injection hp with hp
    subst hp
    exact quiet_setCaller p t c hc
  cases a with
  | acquire req =>
    cases hcaller : p.callers t <;> simp only [poolStep, hcaller, reduceCtorEq] at h
    exact Or.inl (hquiet _ h (by rw [hcaller]; rfl))
  | reuse alive =>
    cases hcaller : p.callers t with
    | searching req => exact (reuse_cases p t req alive p' hcaller h).imp_right Or.inl
    | _ => simp [poolStep, hcaller] at h
  | connect fd =>
    cases hcaller : p.callers t <;> cases fd <;> simp only [poolStep, hcaller, reduceCtorEq] at h
    all_goals exact Or.inl (hquiet _ h (by rw [hcaller]; rfl))
  | place =>
    cases hcaller : p.callers t <;> simp only [poolStep, hcaller, reduceCtorEq] at h
    split at h
    next i hi =>
      injection h with h
      subst h
      exact Or.inr (Or.inr (Or.inl ⟨i, rfl, hi, fill_takes p t i _ _ (freeSlot_lt _ _ hi)⟩))
    next => exact Or.inl (hquiet _ h (by rw [hcaller]; rfl))
  | evict =>
    cases hcaller : p.callers t <;> simp only [poolStep, hcaller, reduceCtorEq] at h
    split at h
    next i hi =>
      injection h with h
      subst h
      obtain hbest | ⟨k, hk, hlt, hidle⟩ := oldestIdle_idle _ _ _ _ _ hi
      · contradiction
      · rw [Nat.zero_add] at hk
        subst hk
        exact Or.inr (Or.inl ⟨i, hidle, fill_takes p t i _ _ hlt⟩)
    next => exact Or.inl (hquiet _ h (by rw [hcaller]; rfl))
  | overflow alloc =>
    cases hcaller : p.callers t <;> cases alloc <;>
      simp only [poolStep, hcaller, reduceCtorEq] at h
    · exact Or.inl (hquiet _ h (by rw [hcaller]; rfl))
    · injection h with h
      subst h
      exact Or.inl ⟨_, _, rfl, rfl, by rw [hcaller]; rfl, rfl⟩
  | release keepAlive =>
    cases hcaller : p.callers t <;> simp only [poolStep, hcaller, reduceCtorEq] at h
    split at h
    · split at h
      all_goals exact Or.inl (hquiet _ h (by rw [hcaller]; rfl))
    · contradiction
  | closeFd =>
    cases hcaller : p.callers t <;> simp only [poolStep, hcaller, reduceCtorEq] at h
    injection h with h
    subst h
    exact Or.inl (quiet_modifyConn p t _ _ _ (fun _ => rfl) (by rw [hcaller]; rfl))
  | clearInUse =>
    cases hcaller : p.callers t <;> simp only [poolStep, hcaller, reduceCtorEq] at h
    next ref keep =>
      injection h with h
      subst h
      have hnone : (if keep = true then Caller.touching ref else .checking ref).slot = none := by
        cases keep <;> rfl
      cases ref with
      | slot i =>
        exact Or.inr (Or.inr (Or.inr ⟨i, _, _, rfl, rfl, by rw [hcaller]; rfl, hnone,
          inUseAt_clear p.conns i⟩))
      | heap k => exact Or.inl ⟨_, _, rfl, rfl, by rw [hcaller, hnone]; rfl, rfl⟩
  | touch now =>
    cases hcaller : p.callers t <;> simp only [poolStep, hcaller, reduceCtorEq] at h
    injection h with h
    subst h
    exact Or.inl (quiet_modifyConn p t _ _ _ (fun _ => rfl) (by rw [hcaller]; rfl))
  | scan =>
    cases hcaller : p.callers t with
    | checking ref =>
      cases ref with
      | slot i =>
        simp only [poolStep, hcaller] at h
        exact Or.inl (hquiet _ h (by rw [hcaller]; rfl))
      | heap k =>
        simp only [poolStep, hcaller] at h
        injection h with h
        subst h
        exact Or.inl ⟨_, _, rfl, rfl, by rw [hcaller]; rfl, rfl⟩
    | _ => simp [poolStep, hcaller] at h

/-- Whether a step keeps the second section from taking a slot whose flag is
still up, that is, whose release stands between its two stores. -/
def placesOnCleared (p : HttpPool) : ℕ × Action → Bool
  | (_, .place) => (freeSlot p.conns).all fun i => !inUseAt p.conns i
  | _ => true

theorem claims_setCaller (p q : HttpPool) (t : ℕ) (c : Caller) (h : q.callers = p.callers) :
    (claims (q.setCaller t c)).owner = Function.update (claims p).owner t c.slot := by
  funext u
  by_cases hu : u = t
  · subst hu
    simp [claims, HttpPool.setCaller]
  · simp [claims, HttpPool.setCaller, hu, h]

/-- Under the condition every step is a safe move of the claims. -/
theorem poolStep_move (p p' : HttpPool) (l : ℕ × Action) (hguard : placesOnCleared p l = true)
    (h : poolStep p l = some p') : Move (claims p) (claims p') := by
  obtain ⟨t, a⟩ := l
  have htakes (i : ℕ) (hfree : inUseAt p.conns i = false) (ht : Takes p p' t i) :
      Move (claims p) (claims p') := by
    obtain ⟨q, rfl, hcallers, hflag⟩ := ht
    exact Or.inr (Or.inl ⟨t, i, hfree, claims_setCaller p q t _ hcallers, hflag⟩)
  rcases poolStep_cases p p' t a h with
    ⟨q, c, rfl, hcallers, hslot, hflag⟩ | ⟨i, hfree, ht⟩ | ⟨i, rfl, hi, ht⟩ |
      ⟨i, q, c, rfl, hcallers, hown, hnone, hflag⟩
  · refine Or.inl ⟨?_, hflag⟩
    rw [claims_setCaller p q t c hcallers, hslot]
    exact Function.update_eq_self t _
  · exact htakes i hfree ht
  · refine htakes i ?_ ht
    simpa [placesOnCleared, hi] using hguard
  · refine Or.inr (Or.inr ⟨t, i, hown, ?_, hflag⟩)
    rw [claims_setCaller p q t c hcallers, hnone]

/-- No slot has two callers, and the slot of a caller is in use as long as its
descriptor is live. -/
structure ExclusiveUse (p : HttpPool) : Prop where
  unique : ∀ t u i, (p.callers t).slot = some i → (p.callers u).slot = some i → t = u
  flagged : ∀ t i c, (p.callers t).slot = some i → p.conns[i]? = some c → c.fd.isSome →
    c.inUse = true

theorem exclusiveUse_of_claims (p : HttpPool) (h : Exclusive (claims p)) : ExclusiveUse p where
  unique := h.unique
  flagged t i c hslot hc _ := by
    have hflag := h.flagged t i hslot
    simpa [claims, inUseAt, hc] using hflag

/-- Connections are exclusive in every state of every run in which the second
section only takes slots whose flag is down. -/
theorem poolRun_exclusiveUse (maxConns : ℕ) (labels : List (ℕ × Action)) (p : HttpPool)
    (hrun : Run (Guarded (fun p l => placesOnCleared p l = true)
      fun p l p' => poolStep p l = some p') (vwasmHttpPoolNew maxConns) labels p) :
    ExclusiveUse p := by
  have hinit : Exclusive (claims (vwasmHttpPoolNew maxConns)) := by
    constructor <;> intro t <;> simp [claims, vwasmHttpPoolNew, Caller.slot]
  apply exclusiveUse_of_claims
  exact exclusive_of_run claims (fun p l p' hstep => poolStep_move p p' l hstep.1 hstep.2)
    hrun hinit

/-- The steps of an acquire that finds nothing to reuse and connects. -/
def freshAcquire (t : ℕ) (req : ConnRequest) (fd : ℕ) : List (ℕ × Action) :=
  [(t, .acquire req), (t, .reuse fun _ => true), (t, .connect (some fd)), (t, .place)]

/-- A connection is kept, another one closed, and both slots are taken again. -/
def calmRun : List (ℕ × Action) :=
  let req : ConnRequest := { host := ascii "up", port := 80 }
  freshAcquire 0 req 5 ++ freshAcquire 1 req 6 ++
    [(0, .release true), (1, .release false), (0, .clearInUse), (1, .closeFd), (1, .clearInUse),
      (0, .touch 1), (1, .scan), (0, .scan), (2, .acquire req), (2, .reuse fun _ => true)] ++
    freshAcquire 3 req 7

theorem calmRun_exclusiveUse :
    ∃ p, exec (checked placesOnCleared poolStep) (vwasmHttpPoolNew 0) calmRun = some p ∧
      (p.callers 2 = .holding (.slot 0) ∧ p.callers 3 = .holding (.slot 1)) ∧ ExclusiveUse p := by
  obtain ⟨p, hp⟩ := Option.isSome_iff_exists.mp
    (show (exec (checked placesOnCleared poolStep) (vwasmHttpPoolNew 0) calmRun).isSome by
      decide +kernel)
  have hcallers : (exec (checked placesOnCleared poolStep) (vwasmHttpPoolNew 0) calmRun).map
      (fun p => (p.callers 2, p.callers 3)) = some (.holding (.slot 0), .holding (.slot 1)) := by
    decide +kernel
  rw [hp] at hcallers
  exact ⟨p, hp, by simpa using hcallers, poolRun_exclusiveUse 0 calmRun p (Run.of_checked hp)⟩

/-- Caller 0 has closed its connection and has not yet cleared the flag when
caller 1 fills the slot; the late store then offers the slot to caller 2. -/
def raceRun : List (ℕ × Action) :=
  let req : ConnRequest := { host := ascii "up", port := 80 }
  freshAcquire 0 req 5 ++ [(0, .release false), (0, .closeFd)] ++ freshAcquire 1 req 6 ++
    [(0, .clearInUse), (2, .acquire req), (2, .reuse fun _ => true)]

theorem raceRun_shares_slot :
    ∃ p, Run (fun p l p' => poolStep p l = some p') (vwasmHttpPoolNew 0) raceRun p ∧
      (p.callers 1 = .holding (.slot 0) ∧ p.callers 2 = .holding (.slot 0)) ∧
      ¬ ExclusiveUse p := by
  obtain ⟨p, hp⟩ := Option.isSome_iff_exists.mp
    (show (exec poolStep (vwasmHttpPoolNew 0) raceRun).isSome by decide +kernel)
  have hcallers : (exec poolStep (vwasmHttpPoolNew 0) raceRun).map
      (fun p => (p.callers 1, p.callers 2)) = some (.holding (.slot 0), .holding (.slot 0)) := by
    decide +kernel
  rw [hp] at hcallers
  obtain ⟨hone, htwo⟩ : p.callers 1 = .holding (.slot 0) ∧ p.callers 2 = .holding (.slot 0) := by
    simpa using hcallers
  refine ⟨p, Run.of_exec hp, ⟨hone, htwo⟩, ?_⟩
  intro h
  exact absurd (h.unique 1 2 0 (by rw [hone]; rfl) (by rw [htwo]; rfl)) (by decide)

end VmodWasm.ConnectionPool
