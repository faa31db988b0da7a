import VmodWasm.Lib.Sections
import VmodWasm.SharedQueue

/-!
The shared queues in memory, used by many activations of the host functions at once.
A dequeue takes its message out under the lock, frees the message when it has released
the lock and leaves its caller with the data. The queues, their names, the messages and
their data are blocks. Whatever the interleaving, the store in memory is the store of
SharedQueue, called once for each time the lock was taken.
-/
namespace VmodWasm.QueueBlocks

open ByteStrings ByteSearch SharedQueue Lib.Blocks Lib.HashChains Lib.Mealy Lib.Transition
  Lib.Sections

/-- `struct vwasm_queue_msg`. -/
structure MsgNode where
  node : ℕ
  data : Option ℕ

/-- `struct vwasm_queue`; `vm_id` is a null pointer in every queue. -/
structure QueueNode where
  node : ℕ
  name : ℕ
  id : ℕ
  msgs : List MsgNode := []
  depth : ℕ := 0

structure BlockQueues where
  block : ℕ
  queues : List QueueNode := []
  nextId : ℕ := 1

def vwasmQueueStoreNew (alloc lockInit : Bool) : Mem Bytes (Option BlockQueues) :=
  if alloc = false then pure none
  else do
    let block ← malloc []
    if lockInit = false then do
      free block
      pure none
    else pure (some { block := block })

def freeMsg (m : MsgNode) : Mem Bytes Unit := do
  let _ ← load m.node
  freeOpt m.data
  free m.node

def freeQueue (q : QueueNode) : Mem Bytes Unit := do
  let _ ← load q.node
  forEach freeMsg q.msgs
  free q.name
  free q.node

def vwasmQueueStoreDestroy (qs : BlockQueues) : Mem Bytes Unit := do
  forEach freeQueue qs.queues
  free qs.block

def nameIs (name : Bytes) (q : QueueNode) : Mem Bytes Bool := do
  let _ ← load q.node
  let stored ← load q.name
  pure (cstrMatches stored name)

def idIs (id : ℕ) (q : QueueNode) : Mem Bytes Bool := do
  let _ ← load q.node
  pure (q.id == id)

/-- The queue that a search has found. -/
def found (qs : BlockQueues) (i : Option ℕ) : Option (ℕ × QueueNode) :=
  i.bind fun i => qs.queues[i]?.map fun q => (i, q)

inductive QueueCall where
  | register (name : Bytes) (queueAlloc nameAlloc : Bool)
  | resolve (name : Bytes)
  | enqueue (queueId : ℕ) (data : Bytes) (msgAlloc dataAlloc : Bool)
  | dequeue (queueId : ℕ)
  deriving DecidableEq

inductive QueueAnswer where
  | id (id : ℕ)
  | enqueued (ok : Bool)
  | dequeued (data : Option Bytes)
  deriving DecidableEq

/-- The calls on the store with lists of messages. -/
def queueCall (qs : QueueStore) : QueueCall → QueueAnswer × QueueStore
  | .register name queueAlloc nameAlloc =>
    let r := SharedQueue.vwasmQueueRegister qs name queueAlloc nameAlloc
    (.id r.1, r.2)
  | .resolve name => (.id (SharedQueue.vwasmQueueResolve qs name), qs)
  | .enqueue queueId data msgAlloc dataAlloc =>
    let r := SharedQueue.vwasmQueueEnqueue qs queueId ⟨0, data⟩ msgAlloc dataAlloc
    (.enqueued r.1, r.2)
  | .dequeue queueId =>
    let r := SharedQueue.vwasmQueueDequeue qs queueId
    (.dequeued (r.1.map QueueMsg.data), r.2)

/-- An activation between two of its sections: a dequeue that has released the lock,
and its caller with the data. -/
inductive Activation where
  | idle
  | popped (value : Bytes) (msg : MsgNode)
  | holding (value : Bytes) (data : Option ℕ)

abbrev Section := Mem Bytes (Outcome BlockQueues Activation QueueCall QueueAnswer)

/-- A new queue in front of the others. -/
def addQueue (qs : BlockQueues) (name : Bytes) (queueAlloc nameAlloc : Bool) :
    Mem Bytes (ℕ × BlockQueues) :=
  if queueMaxCount < qs.nextId then pure (0, qs)
  else if queueAlloc = false then pure (0, qs)
  else do
    let node ← malloc []
    if nameAlloc = false then do
      free node
      pure (0, qs)
    else do
      let copy ← malloc (name ++ [0])
      pure (qs.nextId, { qs with
        queues := { node := node, name := copy, id := qs.nextId } :: qs.queues
        nextId := qs.nextId + 1 })

def vwasmQueueRegister (qs : BlockQueues) (name : Bytes) (queueAlloc nameAlloc : Bool) :
    Mem Bytes (ℕ × BlockQueues) :=
  if name = [] then pure (0, qs)
  else if queueMaxName < name.length then pure (0, qs)
  else do
    let i ← search (nameIs name) qs.queues
    match found qs i with
    | some (_, q) => pure (q.id, qs)
    | none => addQueue qs name queueAlloc nameAlloc

def vwasmQueueResolve (qs : BlockQueues) (name : Bytes) : Mem Bytes ℕ :=
  if name = [] then pure 0
  else do
    let i ← search (nameIs name) qs.queues
    match found qs i with
    | some (_, q) => pure q.id
    | none => pure 0

/-- A new message, or null. -/
def newMsg (data : Bytes) (msgAlloc dataAlloc : Bool) : Mem Bytes (Option MsgNode) :=
  if msgAlloc = false then pure none
  else do
    let node ← malloc []
    if data = [] then pure (some ⟨node, none⟩)
    else if dataAlloc = false then do
      free node
      pure none
    else do
      let copy ← malloc data
      pure (some ⟨node, some copy⟩)

/-- The part of `vwasm_queue_enqueue` that has found the queue. -/
def appendMsg (qs : BlockQueues) (i : ℕ) (q : QueueNode) (data : Bytes)
    (msgAlloc dataAlloc : Bool) : Mem Bytes (Bool × BlockQueues) :=
  if queueMaxDepth ≤ q.depth then pure (false, qs)
  else do
    let msg ← newMsg data msgAlloc dataAlloc
    match msg with
    | none => pure (false, qs)
    | some msg =>
      pure (true, { qs with
        queues := qs.queues.set i { q with msgs := q.msgs ++ [msg], depth := q.depth + 1 } })

def vwasmQueueEnqueue (qs : BlockQueues) (queueId : ℕ) (data : Bytes) (msgAlloc dataAlloc : Bool) :
    Mem Bytes (Bool × BlockQueues) :=
  if queueId = 0 then pure (false, qs)
  else if queueMaxMsg < data.length then pure (false, qs)
  else do
    let i ← search (idIs queueId) qs.queues
    match found qs i with
    | none => pure (false, qs)
    | some (i, q) => appendMsg qs i q data msgAlloc dataAlloc

/-- The head of a queue that was found. Its data is read here for the log only; the
source leaves that to the caller. -/
def popMsg (qs : BlockQueues) (i : ℕ) (q : QueueNode) :
    Mem Bytes (Option (Bytes × MsgNode) × BlockQueues) :=
  match q.msgs with
  | [] => pure (none, qs)
  | msg :: msgs => do
    let _ ← load msg.node
    let value ← readOpt msg.data
    pure (some (value, msg), { qs with
      queues := qs.queues.set i { q with msgs := msgs, depth := q.depth - 1 } })

/-- `vwasm_queue_dequeue` up to the release of the lock. -/
def lockedDequeue (qs : BlockQueues) (queueId : ℕ) :
    Mem Bytes (Option (Bytes × MsgNode) × BlockQueues) :=
  if queueId = 0 then pure (none, qs)
  else do
    let i ← search (idIs queueId) qs.queues
    match found qs i with
    | none => pure (none, qs)
    | some (i, q) => popMsg qs i q

inductive Action where
  | register (name : Bytes) (queueAlloc nameAlloc : Bool)
  | resolve (name : Bytes)
  | enqueue (queueId : ℕ) (data : Bytes) (msgAlloc dataAlloc : Bool)
  | dequeue (queueId : ℕ)
  | unlocked
  | handedOver

/-- The sections of the functions of the queues and the end of
`pw_proxy_dequeue_shared_queue`, which reads the data and frees it on every path. -/
def sections (qs : BlockQueues) : Activation → Action → Option Section
  | .idle, .register name queueAlloc nameAlloc => some do
    let (id, qs) ← vwasmQueueRegister qs name queueAlloc nameAlloc
    pure ⟨qs, some (.register name queueAlloc nameAlloc, .id id), .idle⟩
  | .idle, .resolve name => some do
    let id ← vwasmQueueResolve qs name
    pure ⟨qs, some (.resolve name, .id id), .idle⟩
  | .idle, .enqueue queueId data msgAlloc dataAlloc => some do
    let (ok, qs) ← vwasmQueueEnqueue qs queueId data msgAlloc dataAlloc
    pure ⟨qs, some (.enqueue queueId data msgAlloc dataAlloc, .enqueued ok), .idle⟩
  | .idle, .dequeue queueId => some do
    let (msg, qs) ← lockedDequeue qs queueId
    match msg with
    | none => pure ⟨qs, some (.dequeue queueId, .dequeued none), .idle⟩
    | some (value, msg) =>
      pure ⟨qs, some (.dequeue queueId, .dequeued (some value)), .popped value msg⟩
  | .popped value msg, .unlocked => some do
    let _ ← load msg.node
    free msg.node
    pure ⟨qs, none, .holding value msg.data⟩
  | .holding _ data, .handedOver => some do
    let _ ← readOpt data
    freeOpt data
    pure ⟨qs, none, .idle⟩
  | _, _ => none

section Specs

variable {qs : BlockQueues} {qs' : QueueStore} {P : Multiset (ℕ × Bytes)}

/-- The blocks of a message. -/
inductive MsgRow : MsgNode → QueueMsg → Multiset (ℕ × Bytes) → Prop
  | mk {m : MsgNode} {m' : QueueMsg} {Pd : Multiset (ℕ × Bytes)}
      (hdata : Cell m.data (nonempty m'.data) Pd) : MsgRow m m' ({(m.node, [])} + Pd)

/-- The blocks of a queue. -/
inductive QueueRow : QueueNode → Queue → Multiset (ℕ × Bytes) → Prop
  | mk {q : QueueNode} {q' : Queue} {Pm : Multiset (ℕ × Bytes)} (hid : q.id = q'.id)
      (hdepth : q.depth = q'.depth) (hmsgs : Listed MsgRow q.msgs q'.msgs Pm) :
      QueueRow q q' ({(q.node, [])} + ({(q.name, q'.name)} + Pm))

/-- The queues in memory are those of a store. -/
inductive Shows : BlockQueues → QueueStore → Multiset (ℕ × Bytes) → Prop
  | mk {qs : BlockQueues} {qs' : QueueStore} {Pq : Multiset (ℕ × Bytes)}
      (hnext : qs.nextId = qs'.nextId) (hqueues : Listed QueueRow qs.queues qs'.queues Pq) :
      Shows qs qs' ({(qs.block, [])} + Pq)

/-- What an activation keeps between two sections. -/
def Activation.owned : Activation → Multiset (ℕ × Bytes)
  | .idle => 0
  | .popped value msg => {(msg.node, [])} + opt value msg.data
  | .holding value data => opt value data

def Activation.Ok : Activation → Prop
  | .idle => True
  | .popped value msg => Cell msg.data (nonempty value) (opt value msg.data)
  | .holding value data => Cell data (nonempty value) (opt value data)

theorem freeMsg_spec (m : MsgNode) (m' : QueueMsg) (P : Multiset (ℕ × Bytes))
    (h : MsgRow m m' P) : Triple P (freeMsg m) fun _ P' => P' = 0 := by
  obtain ⟨hdata⟩ := h
  refine Triple.load_bind ?_
  rw [add_comm]
  exact Triple.frees_bind (Triple.freeOpt hdata) fun _ => Triple.free m.node []

theorem freeQueue_spec (q : QueueNode) (q' : Queue) (P : Multiset (ℕ × Bytes))
    (h : QueueRow q q' P) : Triple P (freeQueue q) fun _ P' => P' = 0 := by
  obtain ⟨-, -, hmsgs⟩ := h
  rename_i Pm
  refine Triple.load_bind ?_
  rw [show {(q.node, [])} + ({(q.name, q'.name)} + Pm) =
    Pm + ({(q.name, q'.name)} + {(q.node, [])}) by abel]
  exact Triple.frees_bind (Triple.forEach freeMsg_spec hmsgs)
    fun _ => Triple.free_bind (Triple.free q.node [])

theorem vwasmQueueStoreDestroy_spec (h : Shows qs qs' P) :
    Triple P (vwasmQueueStoreDestroy qs) fun _ P' => P' = 0 := by
  obtain ⟨-, hqueues⟩ := h
  rw [add_comm]
  exact Triple.frees_bind (Triple.forEach freeQueue_spec hqueues) fun _ => Triple.free qs.block []

theorem vwasmQueueStoreNew_spec (alloc lockInit : Bool) :
    Triple 0 (vwasmQueueStoreNew alloc lockInit) fun r P' =>
      ∀ qs, r = some qs → Shows qs {} P' := by
  unfold vwasmQueueStoreNew
  split
  · exact Triple.pure nofun
  · refine Triple.malloc_bind fun block => ?_
    split
    · exact Triple.free_bind (Triple.pure nofun)
    · refine Triple.pure fun qs hqs => ?_
      obtain rfl := Option.some.inj hqs
      exact Shows.mk rfl Listed.nil

/-- Searching by name and by id leaves the blocks alone. -/
theorem Shows.searchName (h : Shows qs qs' P) (name : Bytes) :
    Triple P (search (nameIs name) qs.queues) fun r P' =>
      r = qs'.queues.findIdx? (nameMatches name) ∧ P' = P := by
  obtain ⟨-, hqueues⟩ := h
  refine Triple.reads (Triple.search (fun q q' P hrow => ?_) hqueues) (add_comm ..)
  obtain ⟨-, -, hmsgs⟩ := hrow
  refine Triple.load_bind ?_
  refine Triple.load_mem (v := q'.name) (by simp) ?_
  exact Triple.pure ⟨rfl, rfl⟩

theorem Shows.searchId (h : Shows qs qs' P) (id : ℕ) :
    Triple P (search (idIs id) qs.queues) fun r P' =>
      r = qs'.queues.findIdx? (fun q => q.id == id) ∧ P' = P := by
  obtain ⟨-, hqueues⟩ := h
  refine Triple.reads (Triple.search (fun q q' P hrow => ?_) hqueues) (add_comm ..)
  obtain ⟨hid, -, hmsgs⟩ := hrow
  refine Triple.load_bind (Triple.pure ⟨?_, rfl⟩)
  rw [hid]

/-- The queue that was found with its blocks, and the store with another one in its
place. -/
theorem Shows.queue (h : Shows qs qs' P) {p : Queue → Bool} {i : ℕ}
    (hi : qs'.queues.findIdx? p = some i) :
    ∃ q q' Pq F, found qs (some i) = some (i, q) ∧ qs'.queues.find? p = some q' ∧
      P = Pq + F ∧ QueueRow q q' Pq ∧
      ∀ q₁ (f : Queue → Queue) P₁, QueueRow q₁ (f q') P₁ →
        Shows { qs with queues := qs.queues.set i q₁ }
          { qs' with queues := modifyFirst p f qs'.queues } (P₁ + F) := by
  obtain ⟨hnext, hqueues⟩ := h
  obtain ⟨q, hq⟩ := hqueues.exists_of_findIdx? hi
  obtain ⟨q', Pq, F, hq', rfl, hrow, hset⟩ := hqueues.set hq
  refine ⟨q, q', Pq, {(qs.block, [])} + F, ?_, (modifyFirst_eq_set p id hi hq').1,
    add_left_comm .., hrow, fun q₁ f P₁ hrow' => ?_⟩
  · rw [found, Option.bind_some, hq, Option.map_some]
  · rw [add_left_comm, (modifyFirst_eq_set p f hi hq').2]
    exact Shows.mk hnext (hset q₁ (f q') P₁ hrow')

theorem addQueue_spec (h : Shows qs qs' P) (name : Bytes) (queueAlloc nameAlloc : Bool)
    (hname : name ≠ []) (hlen : name.length ≤ queueMaxName)
    (hi : qs'.queues.findIdx? (nameMatches name) = none) :
    Triple P (addQueue qs name queueAlloc nameAlloc) fun r P' =>
      let r' := SharedQueue.vwasmQueueRegister qs' name queueAlloc nameAlloc
      r.1 = r'.1 ∧ Shows r.2 r'.2 P' := by
  have hfind := find?_eq_none_of_findIdx? hi
  have hnext : qs.nextId = qs'.nextId := by
    obtain ⟨hnext, -⟩ := h
    exact hnext
  simp only [SharedQueue.vwasmQueueRegister, if_neg hname, if_neg (Nat.not_lt.mpr hlen), hfind]
  unfold addQueue
  rw [hnext]
  split
  · exact Triple.pure ⟨rfl, h⟩
  · split
    · exact Triple.pure ⟨rfl, h⟩
    · refine Triple.malloc_bind fun node => ?_
      split
      · exact Triple.free_bind (Triple.pure ⟨rfl, h⟩)
      · refine Triple.malloc_bind fun copy => Triple.pure ⟨rfl, ?_⟩
        obtain ⟨-, hqueues⟩ := h
        rename_i Pq
        rw [show {(copy, name ++ [0])} + ({(node, [])} + ({(qs.block, [])} + Pq)) =
          {(qs.block, [])} + ({(node, [])} + ({(copy, name ++ [0])} + 0) + Pq) by abel]
        have hrow : QueueRow { node := node, name := copy, id := qs'.nextId }
            { name := name ++ [0], id := qs'.nextId } _ := QueueRow.mk rfl rfl Listed.nil
        exact Shows.mk rfl (Listed.cons hrow hqueues)

theorem vwasmQueueRegister_spec (h : Shows qs qs' P) (name : Bytes) (queueAlloc nameAlloc : Bool) :
    Triple P (vwasmQueueRegister qs name queueAlloc nameAlloc) fun r P' =>
      let r' := SharedQueue.vwasmQueueRegister qs' name queueAlloc nameAlloc
      r.1 = r'.1 ∧ Shows r.2 r'.2 P' := by
  unfold vwasmQueueRegister
  split
  next hnil =>
    rw [SharedQueue.vwasmQueueRegister, if_pos hnil]
    exact Triple.pure ⟨rfl, h⟩
  next hname =>
  split
  next hlen =>
    rw [SharedQueue.vwasmQueueRegister, if_neg hname, if_pos hlen]
    exact Triple.pure ⟨rfl, h⟩
  next hlen =>
    refine Triple.seq (h.searchName name) ?_
    rintro _ _ ⟨rfl, rfl⟩
    cases hi : qs'.queues.findIdx? (nameMatches name) with
    | none => exact addQueue_spec h name queueAlloc nameAlloc hname (Nat.not_lt.mp hlen) hi
    | some i =>
      obtain ⟨q, q', Pq, F, hfound, hfind, rfl, hrow, -⟩ := h.queue hi
      obtain ⟨hid, -, -⟩ := hrow
      simp only [SharedQueue.vwasmQueueRegister, if_neg hname, if_neg hlen, hfind, hfound]
      exact Triple.pure ⟨hid, h⟩

theorem vwasmQueueResolve_spec (h : Shows qs qs' P) (name : Bytes) :
    Triple P (vwasmQueueResolve qs name) fun r P' =>
      r = SharedQueue.vwasmQueueResolve qs' name ∧ P' = P := by
  unfold vwasmQueueResolve
  split
  next hnil =>
    rw [SharedQueue.vwasmQueueResolve, if_pos hnil]
    exact Triple.pure ⟨rfl, rfl⟩
  next hname =>
    refine Triple.seq (h.searchName name) ?_
    rintro _ _ ⟨rfl, rfl⟩
    cases hi : qs'.queues.findIdx? (nameMatches name) with
    | none =>
      simp only [SharedQueue.vwasmQueueResolve, if_neg hname, find?_eq_none_of_findIdx? hi]
      exact Triple.pure ⟨rfl, rfl⟩
    | some i =>
      obtain ⟨q, q', Pq, F, hfound, hfind, rfl, hrow, -⟩ := h.queue hi
      obtain ⟨hid, -, -⟩ := hrow
      simp only [SharedQueue.vwasmQueueResolve, if_neg hname, hfind, hfound]
      exact Triple.pure ⟨hid, rfl⟩

theorem newMsg_spec (data : Bytes) (msgAlloc dataAlloc : Bool) :
    Triple 0 (newMsg data msgAlloc dataAlloc) fun r P' =>
      match r with
      | none => (msgAlloc = false ∨ (data ≠ [] ∧ dataAlloc = false)) ∧ P' = 0
      | some m => ¬ (msgAlloc = false ∨ (data ≠ [] ∧ dataAlloc = false)) ∧
          MsgRow m ⟨0, data⟩ P' := by
  unfold newMsg
  split
  next hfalse => exact Triple.pure ⟨Or.inl hfalse, rfl⟩
  next hmsg =>
    refine Triple.malloc_bind fun node => ?_
    split
    next hnil =>
      exact Triple.pure ⟨fun hno => hno.elim hmsg fun hne => hne.1 hnil,
        MsgRow.mk (Cell.unfilled hnil)⟩
    next hne =>
      split
      next hdata => exact Triple.free_bind (Triple.pure ⟨Or.inr ⟨hne, hdata⟩, rfl⟩)
      next hdata =>
        refine Triple.malloc_bind fun copy => Triple.pure ?_
        refine ⟨fun hno => hno.elim hmsg fun hno => hdata hno.2, ?_⟩
        rw [add_zero, add_comm]
        exact MsgRow.mk (Cell.filled copy hne)

theorem appendMsg_spec (h : Shows qs qs' P) {queueId i : ℕ} {q : QueueNode} (data : Bytes)
    (msgAlloc dataAlloc : Bool) (hid : queueId ≠ 0) (hlen : data.length ≤ queueMaxMsg)
    (hi : qs'.queues.findIdx? (fun q => q.id == queueId) = some i)
    (hq : found qs (some i) = some (i, q)) :
    Triple P (appendMsg qs i q data msgAlloc dataAlloc) fun r P' =>
      let r' := SharedQueue.vwasmQueueEnqueue qs' queueId ⟨0, data⟩ msgAlloc dataAlloc
      r.1 = r'.1 ∧ Shows r.2 r'.2 P' := by
  obtain ⟨q, q', Pq, F, hfound, hfind, rfl, hrow, hset⟩ := h.queue hi
  obtain ⟨-, rfl⟩ := Prod.mk.inj (Option.some.inj (hq.symm.trans hfound))
  simp only [SharedQueue.vwasmQueueEnqueue, if_neg hid, if_neg (Nat.not_lt.mpr hlen), hfind]
  obtain ⟨hqid, hdepth, hmsgs⟩ := hrow
  rename_i Pm
  unfold appendMsg
  rw [hdepth]
  split
  · exact Triple.pure ⟨rfl, h⟩
  · rw [← zero_add ({(q.node, [])} + ({(q.name, q'.name)} + Pm) + F)]
    refine Triple.bind (newMsg_spec data msgAlloc dataAlloc) ?_
    intro msg Pn hnew
    cases msg with
    | none =>
      obtain ⟨hno, rfl⟩ := hnew
      rw [zero_add]
      refine Triple.pure ?_
      rcases hno with hfalse | hfalse
      · rw [if_pos hfalse]
        exact ⟨rfl, h⟩
      · rw [if_pos hfalse, ite_self]
        exact ⟨rfl, h⟩
    | some msg =>
      obtain ⟨hyes, hmsg⟩ := hnew
      rw [if_neg fun hno => hyes (Or.inl hno), if_neg fun hno => hyes (Or.inr hno)]
      refine Triple.pure ⟨rfl, ?_⟩
      rw [show Pn + ({(q.node, [])} + ({(q.name, q'.name)} + Pm) + F) =
        {(q.node, [])} + ({(q.name, q'.name)} + (Pm + Pn)) + F by abel]
      exact hset _ (fun q => { q with msgs := q.msgs ++ [⟨0, data⟩], depth := q.depth + 1 }) _
        (QueueRow.mk hqid rfl (hmsgs.append (listed_singleton hmsg)))

theorem vwasmQueueEnqueue_spec (h : Shows qs qs' P) (queueId : ℕ) (data : Bytes)
    (msgAlloc dataAlloc : Bool) :
    Triple P (vwasmQueueEnqueue qs queueId data msgAlloc dataAlloc) fun r P' =>
      let r' := SharedQueue.vwasmQueueEnqueue qs' queueId ⟨0, data⟩ msgAlloc dataAlloc
      r.1 = r'.1 ∧ Shows r.2 r'.2 P' := by
  unfold vwasmQueueEnqueue
  split
  next hzero =>
    rw [SharedQueue.vwasmQueueEnqueue, if_pos hzero]
    exact Triple.pure ⟨rfl, h⟩
  next hid =>
  split
  next hlen =>
    rw [SharedQueue.vwasmQueueEnqueue, if_neg hid, if_pos hlen]
    exact Triple.pure ⟨rfl, h⟩
  next hlen =>
    refine Triple.seq (h.searchId queueId) ?_
    rintro _ _ ⟨rfl, rfl⟩
    cases hi : qs'.queues.findIdx? (fun q => q.id == queueId) with
    | none =>
      simp only [SharedQueue.vwasmQueueEnqueue, if_neg hid, if_neg hlen,
        find?_eq_none_of_findIdx? hi]
      exact Triple.pure ⟨rfl, h⟩
    | some i =>
      obtain ⟨q, -, -, -, hfound, -⟩ := h.queue hi
      rw [hfound]
      exact appendMsg_spec h data msgAlloc dataAlloc hid (Nat.not_lt.mp hlen) hi hfound

/-- What a dequeue leaves: the store without the message, and the message. -/
def Popped (r : Option (Bytes × MsgNode) × BlockQueues) (r' : Option QueueMsg × QueueStore)
    (P : Multiset (ℕ × Bytes)) : Prop :=
  match r.1 with
  | none => r'.1 = none ∧ Shows r.2 r'.2 P
  | some (value, msg) => r'.1.map QueueMsg.data = some value ∧
      (Activation.popped value msg).Ok ∧
      ∃ Ps, P = Ps + (Activation.popped value msg).owned ∧ Shows r.2 r'.2 Ps

theorem popMsg_spec (h : Shows qs qs' P) {queueId i : ℕ} {q : QueueNode} (hid : queueId ≠ 0)
    (hi : qs'.queues.findIdx? (fun q => q.id == queueId) = some i)
    (hq : found qs (some i) = some (i, q)) :
    Triple P (popMsg qs i q) fun r P' =>
      Popped r (SharedQueue.vwasmQueueDequeue qs' queueId) P' := by
  obtain ⟨q, q', Pq, F, hfound, hfind, rfl, hrow, hset⟩ := h.queue hi
  obtain ⟨-, rfl⟩ := Prod.mk.inj (Option.some.inj (hq.symm.trans hfound))
  obtain ⟨hqid, hdepth, hmsgs⟩ := hrow
  rename_i Pm
  unfold popMsg
  generalize hns : q.msgs = ns at hmsgs
  generalize hms : q'.msgs = ms at hmsgs
  cases hmsgs with
  | nil =>
    simp only [SharedQueue.vwasmQueueDequeue, if_neg hid, hfind, hms]
    exact Triple.pure ⟨rfl, h⟩
  | @cons m m' Pn Pm ns ms hmsg hrest =>
    simp only [SharedQueue.vwasmQueueDequeue, if_neg hid, hfind, hms]
    obtain ⟨hdata⟩ := hmsg
    rename_i Pd
    refine Triple.load_mem (v := []) (by simp) ?_
    rw [show {(q.node, [])} + ({(q.name, q'.name)} + ({(m.node, [])} + Pd + Pm)) + F =
      Pd + ({(q.node, [])} + ({(q.name, q'.name)} + Pm) + F + {(m.node, [])}) by abel]
    refine Triple.bind (readOpt_spec hdata) ?_
    rintro _ _ ⟨rfl, rfl⟩
    refine Triple.pure ⟨rfl, ?_, _, ?_, hset _
      (fun q => { q with msgs := q.msgs.tail, depth := q.depth - 1 }) _
      (QueueRow.mk hqid (by rw [hdepth]) (by rw [hms]; exact hrest))⟩
    · rw [Activation.Ok, ← hdata.eq_opt]
      exact hdata
    · rw [Activation.owned, ← hdata.eq_opt]
      abel

theorem lockedDequeue_spec (h : Shows qs qs' P) (queueId : ℕ) :
    Triple P (lockedDequeue qs queueId) fun r P' =>
      Popped r (SharedQueue.vwasmQueueDequeue qs' queueId) P' := by
  unfold lockedDequeue
  split
  next hzero =>
    rw [SharedQueue.vwasmQueueDequeue, if_pos hzero]
    exact Triple.pure ⟨rfl, h⟩
  next hid =>
    refine Triple.seq (h.searchId queueId) ?_
    rintro _ _ ⟨rfl, rfl⟩
    cases hi : qs'.queues.findIdx? (fun q => q.id == queueId) with
    | none =>
      simp only [SharedQueue.vwasmQueueDequeue, if_neg hid, find?_eq_none_of_findIdx? hi]
      exact Triple.pure ⟨rfl, h⟩
    | some i =>
      obtain ⟨q, -, -, -, hfound, -⟩ := h.queue hi
      rw [hfound]
      exact popMsg_spec h hid hi hfound

/-- Every section is right for the store alone. -/
theorem sections_correct :
    Correct queueCall Shows Activation.owned Activation.Ok sections := by
  intro qs qs' P act a m h hok hm
  unfold sections at hm
  split at hm
  next name queueAlloc nameAlloc =>
    obtain rfl := Option.some.inj hm
    rw [Activation.owned, add_zero]
    refine Triple.seq (vwasmQueueRegister_spec h name queueAlloc nameAlloc) ?_
    rintro ⟨id, qs₁⟩ P₁ ⟨rfl, hshows⟩
    exact Triple.pure (Leaves.returns rfl hshows trivial rfl)
  next name =>
    obtain rfl := Option.some.inj hm
    rw [Activation.owned, add_zero]
    refine Triple.seq (vwasmQueueResolve_spec h name) ?_
    rintro _ P₁ ⟨rfl, hP⟩
    rw [hP]
    exact Triple.pure (Leaves.returns rfl h trivial rfl)
  next queueId data msgAlloc dataAlloc =>
    obtain rfl := Option.some.inj hm
    rw [Activation.owned, add_zero]
    refine Triple.seq (vwasmQueueEnqueue_spec h queueId data msgAlloc dataAlloc) ?_
    rintro ⟨ok, qs₁⟩ P₁ ⟨rfl, hshows⟩
    exact Triple.pure (Leaves.returns rfl hshows trivial rfl)
  next queueId =>
    obtain rfl := Option.some.inj hm
    rw [Activation.owned, add_zero]
    refine Triple.seq (lockedDequeue_spec h queueId) ?_
    rintro ⟨_ | ⟨value, msg⟩, qs₁⟩ P₁ hpopped
    · obtain ⟨hnone, hshows⟩ := hpopped
      exact Triple.pure (Leaves.returns (by rw [queueCall, hnone]; rfl) hshows trivial rfl)
    · obtain ⟨hvalue, hcell, Ps, rfl, hshows⟩ := hpopped
      exact Triple.pure (Leaves.answers (by rw [queueCall, hvalue]) hshows hcell)
  next value msg =>
    obtain rfl := Option.some.inj hm
    rw [Activation.owned, add_left_comm]
    refine Triple.load_bind (Triple.free_bind (Triple.pure ?_))
    exact Leaves.silent h hok
  next value data =>
    obtain rfl := Option.some.inj hm
    rw [Activation.owned, add_comm]
    refine Triple.bind (readOpt_spec hok) ?_
    rintro _ _ ⟨-, rfl⟩
    exact Triple.freeOpt_bind (Triple.pure (Leaves.idle h trivial rfl))
  next => contradiction

end Specs

/-- Whatever calls of the queues are in progress at once, and in whatever order their
sections run: every section that can be entered comes to its end, so nothing is read
or freed that is gone; the calls answer what SharedQueue answers to the same calls one
after the other, each at the moment it had the lock; and when all have returned, the
store can be destroyed, with the messages nobody took, and leaves no block. -/
theorem queue_store_linearizes (alloc lockInit : Bool) (h₀ h₁ : Heap Bytes) (qs : BlockQueues)
    (hfresh : ∀ i, h₀.next ≤ i → h₀.block i = none)
    (hnew : vwasmQueueStoreNew alloc lockInit h₀ = some (some qs, h₁)) (n : ℕ)
    (turns : List (ℕ × Action)) (s : System BlockQueues Activation QueueCall QueueAnswer)
    (h : Heap Bytes) (hrun : Run (step sections) (start qs .idle n, h₁) turns (s, h)) :
    (∀ (t : ℕ) act a m, s.activations[t]? = some act → sections s.object act a = some m →
      (m h).isSome = true) ∧
    s.log = transcript queueCall {} (s.log.map Prod.fst) ∧
    ((∀ act ∈ s.activations, act = .idle) →
      ∃ h', vwasmQueueStoreDestroy s.object h = some ((), h') ∧ h'.block = h₀.block) :=
  interleaving sections_correct .idle rfl trivial (vwasmQueueStoreNew_spec alloc lockInit)
    (fun _ _ _ hshows => vwasmQueueStoreDestroy_spec hshows) hfresh hnew hrun

section Example

/-- A message is enqueued between the lock of a dequeue and the free of its message. -/
def crossing : List (ℕ × Action) :=
  [(0, .register (ascii "q") true true), (0, .enqueue 1 (ascii "m") true true), (1, .dequeue 1),
    (0, .enqueue 1 (ascii "k") true true), (1, .unlocked), (1, .handedOver)]

def crossingLog : List (QueueCall × QueueAnswer) :=
  [(.register (ascii "q") true true, .id 1), (.enqueue 1 (ascii "m") true true, .enqueued true),
    (.dequeue 1, .dequeued (some (ascii "m"))), (.enqueue 1 (ascii "k") true true, .enqueued true)]

theorem queue_store_linearizes_crossing :
    (∃ s h h', exec (turn sections) (start { block := 0 } .idle 2, Heap.empty.put []) crossing =
        some (s, h) ∧ vwasmQueueStoreDestroy s.object h = some ((), h') ∧
      h'.block = (Heap.empty : Heap Bytes).block) ∧
    crossingLog = transcript queueCall {} (crossingLog.map Prod.fst) := by
  have hfacts : (exec (turn sections) (start { block := 0 } .idle 2, Heap.empty.put [])
      crossing).map (fun r => (r.1.activations, r.1.log)) =
        some ([.idle, .idle], crossingLog) := rfl
  obtain ⟨⟨s, h⟩, hexec, heq⟩ := Option.map_eq_some_iff.mp hfacts
  obtain ⟨hacts, hlog⟩ := Prod.mk.inj heq
  have hidle : ∀ act ∈ s.activations, act = .idle := by
    rw [show s.activations = [.idle, .idle] from hacts]
    simp
  have hall := queue_store_linearizes true true Heap.empty (Heap.empty.put []) { block := 0 }
    (fun _ _ => rfl) rfl 2 crossing s h (Run.of_exec hexec)
  obtain ⟨h', hend⟩ := hall.2.2 hidle
  exact ⟨⟨s, h, h', hexec, hend⟩, hlog ▸ hall.2.1⟩

end Example

end VmodWasm.QueueBlocks
