import VmodWasm.GuestMemory
import VmodWasm.ByteSearch
import VmodWasm.ProxyContext
import VmodWasm.Lib.HashChains

/-!
The shared queues of proxy_wasm_shared.c and the host functions over them. A
queue is the list of its messages, head first, with the depth counted apart;
the store lists its queues newest first. A message carries a serial number,
which is ghost data: the code never reads it.
-/
namespace VmodWasm.SharedQueue

open ByteStrings ByteSearch GuestMemory ProxyContext Lib.HashChains

def queueMaxName : ℕ := 256

def queueMaxMsg : ℕ := 65536

def queueMaxDepth : ℕ := 1024

def queueMaxCount : ℕ := 64

structure QueueMsg where
  serial : ℕ
  data : Bytes
  deriving DecidableEq, Repr

/-- `struct vwasm_queue`; `name` includes the terminator. -/
structure Queue where
  name : Bytes
  id : ℕ
  msgs : List QueueMsg := []
  depth : ℕ := 0
  deriving DecidableEq, Repr

structure QueueStore where
  queues : List Queue := []
  nextId : ℕ := 1
  deriving DecidableEq, Repr

def nameMatches (name : Bytes) (q : Queue) : Bool := cstrMatches q.name name

/-- `vwasm_queue_register`; the id 0 stands for an error. -/
def vwasmQueueRegister (qs : QueueStore) (name : Bytes) (queueAlloc nameAlloc : Bool) :
    ℕ × QueueStore :=
  if name = [] then (0, qs)
  else if queueMaxName < name.length then (0, qs)
  else
    match qs.queues.find? (nameMatches name) with
    | some q => (q.id, qs)
    | none =>
      if queueMaxCount < qs.nextId then (0, qs)
      else if queueAlloc = false then (0, qs)
      else if nameAlloc = false then (0, qs)
      else
        (qs.nextId,
          { queues := { name := name ++ [0], id := qs.nextId } :: qs.queues
            nextId := qs.nextId + 1 })

/-- `vwasm_queue_resolve`, which does not look at the vm id. -/
def vwasmQueueResolve (qs : QueueStore) (name : Bytes) : ℕ :=
  if name = [] then 0
  else
    match qs.queues.find? (nameMatches name) with
    | none => 0
    | some q => q.id

/-- `vwasm_queue_enqueue`: whether it returned 0. -/
def vwasmQueueEnqueue (qs : QueueStore) (queueId : ℕ) (msg : QueueMsg)
    (msgAlloc dataAlloc : Bool) : Bool × QueueStore :=
  if queueId = 0 then (false, qs)
  else if queueMaxMsg < msg.data.length then (false, qs)
  else
    match qs.queues.find? fun q => q.id == queueId with
    | none => (false, qs)
    | some q =>
      if queueMaxDepth ≤ q.depth then (false, qs)
      else if msgAlloc = false then (false, qs)
      else if msg.data ≠ [] ∧ dataAlloc = false then (false, qs)
      else
        (true, { qs with
          queues := modifyFirst (fun q => q.id == queueId)
            (fun q => { q with msgs := q.msgs ++ [msg], depth := q.depth + 1 }) qs.queues })

/-- `vwasm_queue_dequeue`: the message at the head, if there is one. -/
def vwasmQueueDequeue (qs : QueueStore) (queueId : ℕ) : Option QueueMsg × QueueStore :=
  if queueId = 0 then (none, qs)
  else
    match qs.queues.find? fun q => q.id == queueId with
    | none => (none, qs)
    | some q =>
      match q.msgs with
      | [] => (none, qs)
      | msg :: _ =>
        (some msg, { qs with
          queues := modifyFirst (fun q => q.id == queueId)
            (fun q => { q with msgs := q.msgs.tail, depth := q.depth - 1 }) qs.queues })

/-- `pw_proxy_enqueue_shared_queue`; `serial` numbers the message. -/
def pwProxyEnqueueSharedQueue (qs : Option QueueStore) (valid : Bool) (mem : Bytes)
    (queueId dataPtr dataSize : UInt32) (msgAlloc dataAlloc : Bool) (serial : ℕ) :
    ProxyStatus × Option QueueStore :=
  match qs with
  | none => (.notFound, none)
  | some qs =>
    if dataSize ≠ 0 ∧ pwValidateRegion valid mem dataPtr dataSize = false then
      (.badArgument, some qs)
    else
      match vwasmQueueEnqueue qs queueId.toNat ⟨serial, pwMemRegion mem dataPtr dataSize⟩
        msgAlloc dataAlloc with
      | (false, qs) => (.internal, some qs)
      | (true, qs) => (.ok, some qs)

/-- `pw_proxy_dequeue_shared_queue`: the status, the store, and the memory it
leaves. -/
def pwProxyDequeueSharedQueue (qs : Option QueueStore) (valid : Bool)
    (allocator : Option GuestAlloc) (mem : Bytes) (queueId retData retSize : UInt32) :
    ProxyStatus × Option QueueStore × Bytes :=
  match qs with
  | none => (.empty, none, mem)
  | some qs =>
    match vwasmQueueDequeue qs queueId.toNat with
    | (none, qs) => (.empty, some qs, mem)
    | (some msg, qs) =>
      match pwReturnBytes valid allocator mem msg.data retData retSize with
      | (false, mem) => (.internal, some qs, mem)
      | (true, mem) => (.ok, some qs, mem)

/-- The messages in the queues, each with the id of its queue. -/
def queued (qs : QueueStore) : List (ℕ × QueueMsg) :=
  qs.queues.flatMap fun q => q.msgs.map fun msg => (q.id, msg)

theorem vwasmQueueRegister_queued (qs : QueueStore) (name : Bytes) (queueAlloc nameAlloc : Bool) :
    queued (vwasmQueueRegister qs name queueAlloc nameAlloc).2 = queued qs := by
  unfold vwasmQueueRegister
  split
  · rfl
  · split
    · rfl
    · split
      · rfl
      · split
        · rfl
        · split
          · rfl
          · split
            · rfl
            · rfl

/-- Storing a message in a queue, or taking one out. -/
theorem queued_modifyFirst (qs : QueueStore) (queueId : ℕ) (q : Queue) (f : Queue → Queue)
    (hf : ∀ q, (f q).id = q.id) (hfind : qs.queues.find? (fun q => q.id == queueId) = some q) :
    ∃ others, (queued qs).Perm ((q.msgs.map fun msg => (queueId, msg)) ++ others) ∧
      (queued { qs with queues := modifyFirst (fun q => q.id == queueId) f qs.queues }).Perm
        (((f q).msgs.map fun msg => (queueId, msg)) ++ others) := by
  obtain ⟨before, behind, hsplit, hmodify⟩ := modifyFirst_split _ f qs.queues q hfind
  have hid : q.id = queueId := by simpa using List.find?_some hfind
  refine ⟨queued { qs with queues := before } ++ queued { qs with queues := behind }, ?_, ?_⟩
  · simp only [queued, hsplit, List.flatMap_append, List.flatMap_cons, hid]
    exact (List.perm_append_comm_assoc _ _ _)
  · simp only [queued, hmodify, List.flatMap_append, List.flatMap_cons, hf, hid]
    exact (List.perm_append_comm_assoc _ _ _)

/-- An enqueue is refused, or puts the message behind those of its queue. -/
theorem vwasmQueueEnqueue_cases (qs : QueueStore) (queueId : ℕ) (msg : QueueMsg)
    (msgAlloc dataAlloc : Bool) :
    vwasmQueueEnqueue qs queueId msg msgAlloc dataAlloc = (false, qs) ∨
    ∃ q, (qs.queues.find? fun q => q.id == queueId) = some q ∧ msg.data.length ≤ queueMaxMsg ∧
      vwasmQueueEnqueue qs queueId msg msgAlloc dataAlloc =
        (true, { qs with
          queues := modifyFirst (fun q => q.id == queueId)
            (fun q => { q with msgs := q.msgs ++ [msg], depth := q.depth + 1 }) qs.queues }) := by
  unfold vwasmQueueEnqueue
  split
  · exact Or.inl rfl
  split
  · exact Or.inl rfl
  next hlen =>
    split
    · exact Or.inl rfl
    next q hfind =>
      repeat' split
      · exact Or.inl rfl
      · exact Or.inl rfl
      · exact Or.inl rfl
      · exact Or.inr ⟨q, hfind, Nat.le_of_not_lt hlen, rfl⟩

theorem vwasmQueueEnqueue_queued (qs qs' : QueueStore) (queueId : ℕ) (msg : QueueMsg)
    (msgAlloc dataAlloc : Bool)
    (h : vwasmQueueEnqueue qs queueId msg msgAlloc dataAlloc = (true, qs')) :
    (queued qs').Perm ((queueId, msg) :: queued qs) ∧ msg.data.length ≤ queueMaxMsg := by
  rcases vwasmQueueEnqueue_cases qs queueId msg msgAlloc dataAlloc with
    hrefused | ⟨q, hfind, hlen, hput⟩
  · rw [hrefused] at h
    simp at h
  · rw [hput] at h
    obtain ⟨others, hold, hnew⟩ := queued_modifyFirst qs queueId q
      (fun q => { q with msgs := q.msgs ++ [msg], depth := q.depth + 1 }) (fun _ => rfl) hfind
    rw [← (Prod.mk.inj h).2]
    refine ⟨hnew.trans ?_, hlen⟩
    rw [List.map_append, List.map_singleton, List.append_assoc, List.singleton_append]
    exact List.perm_middle.trans (hold.symm.cons _)

theorem vwasmQueueEnqueue_refused (qs qs' : QueueStore) (queueId : ℕ) (msg : QueueMsg)
    (msgAlloc dataAlloc : Bool)
    (h : vwasmQueueEnqueue qs queueId msg msgAlloc dataAlloc = (false, qs')) : qs' = qs := by
  rcases vwasmQueueEnqueue_cases qs queueId msg msgAlloc dataAlloc with hrefused | ⟨q, -, -, hput⟩
  · rw [hrefused] at h
    exact (Prod.mk.inj h).2.symm
  · rw [hput] at h
    simp at h

/-- A dequeue finds no message, or takes the first one of its queue. -/
theorem vwasmQueueDequeue_cases (qs : QueueStore) (queueId : ℕ) :
    vwasmQueueDequeue qs queueId = (none, qs) ∨
    ∃ q msg rest, (qs.queues.find? fun q => q.id == queueId) = some q ∧ q.msgs = msg :: rest ∧
      vwasmQueueDequeue qs queueId =
        (some msg, { qs with
          queues := modifyFirst (fun q => q.id == queueId)
            (fun q => { q with msgs := q.msgs.tail, depth := q.depth - 1 }) qs.queues }) := by
  unfold vwasmQueueDequeue
  split
  · exact Or.inl rfl
  split
  · exact Or.inl rfl
  next q hfind =>
    split
    · exact Or.inl rfl
    next msg rest hmsgs => exact Or.inr ⟨q, msg, rest, hfind, hmsgs, rfl⟩

theorem vwasmQueueDequeue_queued (qs qs' : QueueStore) (queueId : ℕ) (msg : QueueMsg)
    (h : vwasmQueueDequeue qs queueId = (some msg, qs')) :
    (queued qs).Perm ((queueId, msg) :: queued qs') := by
  rcases vwasmQueueDequeue_cases qs queueId with hempty | ⟨q, first, rest, hfind, hmsgs, htaken⟩
  · rw [hempty] at h
    simp at h
  · rw [htaken] at h
    obtain ⟨hmsg, hqs'⟩ := Prod.mk.inj h
    obtain rfl := Option.some.inj hmsg
    obtain ⟨others, hold, hnew⟩ := queued_modifyFirst qs queueId q
      (fun q => { q with msgs := q.msgs.tail, depth := q.depth - 1 }) (fun _ => rfl) hfind
    rw [← hqs']
    rw [hmsgs, List.map_cons, List.cons_append] at hold
    rw [hmsgs, List.tail_cons] at hnew
    exact hold.trans (hnew.symm.cons _)

theorem vwasmQueueDequeue_empty (qs qs' : QueueStore) (queueId : ℕ)
    (h : vwasmQueueDequeue qs queueId = (none, qs')) : qs' = qs := by
  rcases vwasmQueueDequeue_cases qs queueId with hempty | ⟨q, first, rest, -, -, htaken⟩
  · rw [hempty] at h
    exact (Prod.mk.inj h).2.symm
  · rw [htaken] at h
    simp at h

/-- No message is longer than an enqueue accepts. -/
def MessagesFit (qs : QueueStore) : Prop := ∀ m ∈ queued qs, m.2.data.length ≤ queueMaxMsg

theorem messagesFit_dequeue (qs : QueueStore) (queueId : ℕ) (h : MessagesFit qs) :
    MessagesFit (vwasmQueueDequeue qs queueId).2 ∧
      ∀ msg, (vwasmQueueDequeue qs queueId).1 = some msg → msg.data.length ≤ queueMaxMsg := by
  rcases hdeq : vwasmQueueDequeue qs queueId with ⟨_ | msg, qs'⟩
  · rw [vwasmQueueDequeue_empty qs qs' queueId hdeq]
    exact ⟨h, fun msg hmsg => nomatch hmsg⟩
  · have hperm := vwasmQueueDequeue_queued qs qs' queueId msg hdeq
    have hmem (m) (hm : m ∈ (queueId, msg) :: queued qs') : m ∈ queued qs := hperm.mem_iff.mpr hm
    refine ⟨fun m hm => h m (hmem m (List.mem_cons_of_mem _ hm)), fun msg' hmsg => ?_⟩
    obtain rfl := Option.some.inj hmsg
    exact h _ (hmem _ List.mem_cons_self)

end VmodWasm.SharedQueue
