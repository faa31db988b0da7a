import VmodWasm.Lib.LinkedQueues
import VmodWasm.QueueNames

/-!
The shared queues down to the nodes of their messages. A queue has a pointer to
its first and to its last message; an enqueue links a new node behind the last
one, a dequeue takes out the first one and frees it. This store represents the
one with lists of messages, and that is a family of first-in first-out lists,
one for each registered name.
-/
namespace VmodWasm.QueueNodes

open ByteStrings ByteSearch SharedQueue QueueNames Lib.HashChains Lib.LinkedQueues Lib.Mealy

/-- `struct vwasm_queue`, with `head` and `tail`. -/
structure NodeQueue extends Ends ℕ where
  name : Bytes
  id : ℕ
  depth : ℕ := 0
  deriving DecidableEq

/-- `struct vwasm_queue_store` and the nodes of messages. `fault` is up when the
code has followed a pointer to no node. -/
structure NodeStore where
  heap : Heap ℕ Bytes := fun _ => none
  queues : List NodeQueue := []
  nextId : ℕ := 1
  fault : Bool := false

/-- The arguments `data` and `len` of an enqueue. -/
inductive Payload where
  | null (len : ℕ)
  | bytes (data : Bytes)
  deriving DecidableEq

def Payload.len : Payload → ℕ
  | .null len => len
  | .bytes data => data.length

/-- The bytes there are. -/
def Payload.content : Payload → Bytes
  | .null _ => []
  | .bytes data => data

def vwasmQueueRegister (s : NodeStore) (name : Bytes) (queueAlloc nameAlloc : Bool) :
    ℕ × NodeStore :=
  if name = [] then (0, s)
  else if queueMaxName < name.length then (0, s)
  else
    match s.queues.find? fun q => cstrMatches q.name name with
    | some q => (q.id, s)
    | none =>
      if queueMaxCount < s.nextId then (0, s)
      else if queueAlloc = false then (0, s)
      else if nameAlloc = false then (0, s)
      else
        (s.nextId, { s with
          queues := { name := name ++ [0], id := s.nextId } :: s.queues
          nextId := s.nextId + 1 })

/-- The message gets node `node`, if `calloc` has one. -/
def vwasmQueueEnqueue (s : NodeStore) (queueId : ℕ) (data : Payload) (node : Option ℕ)
    (dataAlloc : Bool) : Bool × NodeStore :=
  if queueId = 0 then (false, s)
  else if queueMaxMsg < data.len then (false, s)
  else
    match s.queues.find? fun q => q.id == queueId with
    | none => (false, s)
    | some q =>
      if queueMaxDepth ≤ q.depth then (false, s)
      else
        match node with
        | none => (false, s)
        | some msg =>
          if data.content ≠ [] ∧ dataAlloc = false then (false, s)
          else
            match append s.heap q.toEnds msg data.content with
            | none => (true, { s with fault := true })
            | some (heap, ends) =>
              (true, { s with
                heap := heap
                queues := modifyFirst (fun q => q.id == queueId)
                  (fun q => { q with toEnds := ends, depth := u32 (q.depth + 1) }) s.queues })

def vwasmQueueDequeue (s : NodeStore) (queueId : ℕ) : Option Bytes × NodeStore :=
  if queueId = 0 then (none, s)
  else
    match s.queues.find? fun q => q.id == queueId with
    | none => (none, s)
    | some q =>
      match q.head with
      | none => (none, s)
      | some _ =>
        match pop s.heap q.toEnds with
        | none => (none, { s with fault := true })
        | some (data, heap, ends) =>
          (some data, { s with
            heap := heap
            queues := modifyFirst (fun q => q.id == queueId)
              (fun q => { q with toEnds := ends, depth := u32 (q.depth + (2 ^ 32 - 1)) }) s.queues })

/-- The calls; `node` is the address that `calloc` returns. -/
inductive QueueOp where
  | register (name : CString) (queueAlloc nameAlloc : Bool)
  | enqueue (queueId : ℕ) (data : Payload) (node : Option ℕ) (dataAlloc : Bool)
  | dequeue (queueId : ℕ)

inductive OpAnswer where
  | registered (id : ℕ)
  | enqueued (ok : Bool)
  | dequeued (msg : Option Bytes)
  deriving DecidableEq

def nodeCall (s : NodeStore) : QueueOp → OpAnswer × NodeStore
  | .register name queueAlloc nameAlloc =>
    let r := vwasmQueueRegister s name.1 queueAlloc nameAlloc
    (.registered r.1, r.2)
  | .enqueue queueId data node dataAlloc =>
    let r := vwasmQueueEnqueue s queueId data node dataAlloc
    (.enqueued r.1, r.2)
  | .dequeue queueId =>
    let r := vwasmQueueDequeue s queueId
    (.dequeued r.1, r.2)

/-- The contract of `calloc`: a node that is not in use. -/
def CallocFree (s : NodeStore) : QueueOp → Prop
  | .enqueue _ _ (some node) _ => s.heap node = none
  | _ => True

section Fifo

/-- What the store is for: registered names, and for each one's id the messages
that wait, oldest first. -/
structure Fifo where
  names : List Bytes := []
  content : ℕ → Option (List Bytes) := fun _ => none

/-- There is memory for the message. -/
def Allocated (data : Payload) (node : Option ℕ) (dataAlloc : Bool) : Prop :=
  node.isSome = true ∧ (data.content = [] ∨ dataAlloc = true)

instance (data : Payload) (node : Option ℕ) (dataAlloc : Bool) :
    Decidable (Allocated data node dataAlloc) := by
  unfold Allocated
  infer_instance

theorem not_allocated_iff {data : Payload} {node : Option ℕ} {dataAlloc : Bool} :
    ¬ Allocated data node dataAlloc ↔
      node.isSome = false ∨ (data.content ≠ [] ∧ dataAlloc = false) := by
  cases node <;> cases dataAlloc <;> simp [Allocated]

def fifoCall (f : Fifo) : QueueOp → OpAnswer × Fifo
  | .register name queueAlloc nameAlloc =>
    if name.1 = [] ∨ queueMaxName < name.1.length then (.registered 0, f)
    else if name.1 ∈ f.names then (.registered (idOf f.names name.1), f)
    else if queueMaxCount ≤ f.names.length ∨ queueAlloc = false ∨ nameAlloc = false then
      (.registered 0, f)
    else
      (.registered (f.names.length + 1),
        ⟨f.names ++ [name.1], Function.update f.content (f.names.length + 1) (some [])⟩)
  | .enqueue queueId data node dataAlloc =>
    match f.content queueId with
    | none => (.enqueued false, f)
    | some msgs =>
      if queueMaxMsg < data.len ∨ msgs.length = queueMaxDepth ∨ ¬ Allocated data node dataAlloc then
        (.enqueued false, f)
      else
        (.enqueued true, { f with
          content := Function.update f.content queueId (some (msgs ++ [data.content])) })
  | .dequeue queueId =>
    match f.content queueId with
    | some (msg :: msgs) =>
      (.dequeued (some msg), { f with content := Function.update f.content queueId (some msgs) })
    | _ => (.dequeued none, f)

end Fifo

section Lists

/-- The calls on the store with lists of messages. It knows no null pointers: a
null pointer with a length that is too large is refused before. -/
def listCall (qs : QueueStore) : QueueOp → OpAnswer × QueueStore
  | .register name queueAlloc nameAlloc =>
    let r := SharedQueue.vwasmQueueRegister qs name.1 queueAlloc nameAlloc
    (.registered r.1, r.2)
  | .enqueue queueId data node dataAlloc =>
    if queueMaxMsg < data.len then (.enqueued false, qs)
    else
      let r := SharedQueue.vwasmQueueEnqueue qs queueId ⟨0, data.content⟩ node.isSome dataAlloc
      (.enqueued r.1, r.2)
  | .dequeue queueId =>
    let r := SharedQueue.vwasmQueueDequeue qs queueId
    (.dequeued (r.1.map QueueMsg.data), r.2)

/-- Two stores give the same answer, and are related afterwards. -/
def Agrees {S T : Type} (R : S → T → Prop) (r : OpAnswer × S) (r' : OpAnswer × T) : Prop :=
  r.1 = r'.1 ∧ R r.2 r'.2

/-- The store holds what the lists hold, under the registered names. -/
structure Lists (qs : QueueStore) (f : Fifo) : Prop where
  listed : Listed ⟨qs, f.names⟩
  content : ∀ id, (qs.queues.find? fun q => q.id == id).map (fun q => q.msgs.map QueueMsg.data) =
    f.content id
  depth : ∀ q ∈ qs.queues, q.depth = q.msgs.length ∧ q.msgs.length ≤ queueMaxDepth

variable {qs : QueueStore} {f : Fifo}

theorem Lists.find_zero (h : Lists qs f) : (qs.queues.find? fun q => q.id == 0) = none := by
  refine List.find?_eq_none.mpr fun q hq hid => ?_
  have hmem : q.id ∈ qs.queues.map Queue.id := List.mem_map_of_mem hq
  rw [h.listed.ids, List.mem_reverse, List.mem_range'_1] at hmem
  have hzero : q.id = 0 := by simpa using hid
  omega

theorem Lists.ne_zero (h : Lists qs f) {id : ℕ} {q : Queue}
    (hfind : (qs.queues.find? fun q => q.id == id) = some q) : id ≠ 0 := by
  rintro rfl
  rw [h.find_zero] at hfind
  contradiction

/-- A change to the messages of one queue. -/
theorem Lists.modify (h : Lists qs f) (id : ℕ) (q : Queue)
    (hfind : (qs.queues.find? fun q => q.id == id) = some q) (g : Queue → Queue)
    (hg : ∀ q, ((g q).name, (g q).id) = (q.name, q.id))
    (hdepth : (g q).depth = (g q).msgs.length ∧ (g q).msgs.length ≤ queueMaxDepth) :
    Lists { qs with queues := modifyFirst (fun q => q.id == id) g qs.queues }
      { f with content := Function.update f.content id (some ((g q).msgs.map QueueMsg.data)) } where
  listed := by
    refine ⟨?_, h.listed.nextId, h.listed.nodup, h.listed.plain, h.listed.bounded⟩
    rw [← h.listed.queues]
    exact map_modifyFirst (fun q => (q.name, q.id)) _ g hg qs.queues
  content id' := by
    have hid (q : Queue) : (g q).id = q.id := (Prod.mk.inj (hg q)).2
    by_cases heq : id' = id
    · subst heq
      refine Eq.trans ?_ (Function.update_self id' _ f.content).symm
      have hself := find?_modifyFirst_self Queue.id id' g hid qs.queues
      change (qs.queues.find? fun q => decide (q.id = id')) = some q at hfind
      rw [hfind] at hself
      exact congrArg (Option.map _) hself
    · refine Eq.trans ?_ ((h.content id').trans (Function.update_of_ne heq ..).symm)
      exact congrArg (Option.map _) (find?_modifyFirst_of_ne Queue.id id id' heq g hid qs.queues)
  depth q' hq' := by
    obtain ⟨before, behind, hsplit, hmodify⟩ := modifyFirst_split _ g qs.queues q hfind
    rw [hmodify] at hq'
    rcases List.mem_append.mp hq' with hbefore | hrest
    · exact h.depth q' (hsplit ▸ List.mem_append_left _ hbefore)
    · rcases List.mem_cons.mp hrest with rfl | hbehind
      · exact hdepth
      · exact h.depth q' (hsplit ▸ List.mem_append_right _ (List.mem_cons_of_mem _ hbehind))

/-- A new queue, with no messages. -/
theorem Lists.add (h : Lists qs f) (name : Bytes) (hfresh : name ∉ f.names) (hnul : 0 ∉ name)
    (hroom : qs.nextId ≤ queueMaxCount) :
    Lists ⟨{ name := name ++ [0], id := qs.nextId } :: qs.queues, qs.nextId + 1⟩
      ⟨f.names ++ [name], Function.update f.content (f.names.length + 1) (some [])⟩ where
  listed := h.listed.add name hfresh hnul hroom
  content id := by
    have hnext : qs.nextId = f.names.length + 1 := h.listed.nextId
    rw [List.find?_cons, ← hnext]
    by_cases heq : id = qs.nextId
    · simp [heq]
    · simp only [Function.update_of_ne heq, ← h.content id]
      rw [beq_eq_false_iff_ne.mpr (Ne.symm heq)]
  depth q hq := by
    rcases List.mem_cons.mp hq with rfl | hq
    · exact ⟨rfl, Nat.zero_le _⟩
    · exact h.depth q hq

theorem Lists.register (h : Lists qs f) (name : CString) (queueAlloc nameAlloc : Bool) :
    Agrees Lists (listCall qs (.register name queueAlloc nameAlloc))
      (fifoCall f (.register name queueAlloc nameAlloc)) := by
  have hid := h.listed.find name.1
  have hnext : qs.nextId = f.names.length + 1 := h.listed.nextId
  rw [listCall, fifoCall, SharedQueue.vwasmQueueRegister]
  by_cases hname : name.1 = [] ∨ queueMaxName < name.1.length
  · rw [if_pos hname]
    rcases hname with hempty | hlong
    · rw [if_pos hempty]
      exact ⟨rfl, h⟩
    · rw [if_pos hlong, ite_self]
      exact ⟨rfl, h⟩
  · rw [if_neg hname, if_neg fun hempty => hname (Or.inl hempty),
      if_neg fun hlong => hname (Or.inr hlong)]
    rcases hfind : qs.queues.find? (nameMatches name.1) with _ | q
    · rw [hfind] at hid
      have hfresh : name.1 ∉ f.names := (idOf_eq_zero_iff ..).mp hid.symm
      rw [if_neg hfresh]
      dsimp only
      by_cases hfull : queueMaxCount ≤ f.names.length
      · rw [if_pos (by omega), if_pos (Or.inl hfull)]
        exact ⟨rfl, h⟩
      · rw [if_neg (by omega)]
        cases queueAlloc <;> cases nameAlloc <;> simp only [hfull] <;>
          first | exact ⟨rfl, h⟩ | exact ⟨congrArg _ hnext, h.add name.1 hfresh name.2 (by omega)⟩
    · rw [hfind] at hid
      have hmem : name.1 ∈ f.names := by
        by_contra hout
        rw [(idOf_eq_zero_iff ..).mpr hout] at hid
        have hzero := List.find?_eq_none.mp h.find_zero q (List.mem_of_find?_eq_some hfind)
        exact hzero (beq_iff_eq.mpr hid)
      rw [if_pos hmem]
      exact ⟨congrArg _ hid, h⟩

theorem Payload.content_length_le (data : Payload) : data.content.length ≤ data.len := by
  cases data with
  | null len => exact Nat.zero_le _
  | bytes data => exact Nat.le_refl _

theorem Lists.enqueue (h : Lists qs f) (queueId : ℕ) (data : Payload) (node : Option ℕ)
    (dataAlloc : Bool) :
    Agrees Lists (listCall qs (.enqueue queueId data node dataAlloc))
      (fifoCall f (.enqueue queueId data node dataAlloc)) := by
  rw [listCall, fifoCall, ← h.content queueId, SharedQueue.vwasmQueueEnqueue]
  cases hfind : qs.queues.find? fun q => q.id == queueId with
  | none =>
    simp only [Option.map_none, ite_self]
    exact ⟨rfl, h⟩
  | some q =>
    have hzero := h.ne_zero hfind
    obtain ⟨hdepth, hbound⟩ := h.depth q (List.mem_of_find?_eq_some hfind)
    simp only [Option.map_some, List.length_map, if_neg hzero]
    by_cases hlong : queueMaxMsg < data.len
    · rw [if_pos hlong, if_pos (Or.inl hlong)]
      exact ⟨rfl, h⟩
    · have hlen := data.content_length_le
      simp only [if_neg hlong, if_neg (show ¬ queueMaxMsg < data.content.length by omega)]
      by_cases hfull : q.msgs.length = queueMaxDepth
      · simp only [if_pos (show queueMaxDepth ≤ q.depth by omega), if_pos (Or.inr (Or.inl hfull))]
        exact ⟨rfl, h⟩
      · simp only [if_neg (show ¬ queueMaxDepth ≤ q.depth by omega)]
        by_cases hmem : Allocated data node dataAlloc
        · have hok : ¬ (queueMaxMsg < data.len ∨ q.msgs.length = queueMaxDepth ∨
              ¬ Allocated data node dataAlloc) := by tauto
          obtain ⟨hnode, hdata⟩ := not_or.mp (mt not_allocated_iff.mpr (not_not_intro hmem))
          rw [if_neg hok, if_neg hnode, if_neg hdata]
          refine ⟨rfl, ?_⟩
          have hmodify := h.modify queueId q hfind
            (fun q => { q with msgs := q.msgs ++ [⟨0, data.content⟩], depth := q.depth + 1 })
            (fun _ => rfl) (by simp only [List.length_append, List.length_singleton]; omega)
          rw [List.map_append] at hmodify
          exact hmodify
        · rw [if_pos (Or.inr (Or.inr hmem))]
          rcases not_allocated_iff.mp hmem with hnode | hdata
          · rw [if_pos hnode]
            exact ⟨rfl, h⟩
          · rw [if_pos hdata, ite_self]
            exact ⟨rfl, h⟩

theorem Lists.dequeue (h : Lists qs f) (queueId : ℕ) :
    Agrees Lists (listCall qs (.dequeue queueId)) (fifoCall f (.dequeue queueId)) := by
  rw [listCall, fifoCall, ← h.content queueId, SharedQueue.vwasmQueueDequeue]
  cases hfind : qs.queues.find? fun q => q.id == queueId with
  | none =>
    simp only [Option.map_none, ite_self]
    exact ⟨rfl, h⟩
  | some q =>
    have hzero := h.ne_zero hfind
    obtain ⟨hdepth, hbound⟩ := h.depth q (List.mem_of_find?_eq_some hfind)
    rw [if_neg hzero]
    rcases hmsgs : q.msgs with _ | ⟨msg, msgs⟩
    · simp only [Option.map_some, hmsgs]
      exact ⟨rfl, h⟩
    · simp only [Option.map_some, hmsgs]
      refine ⟨rfl, ?_⟩
      have hmodify := h.modify queueId q hfind
        (fun q => { q with msgs := q.msgs.tail, depth := q.depth - 1 }) (fun _ => rfl)
        (by simp only [hmsgs, List.tail_cons, List.length_cons] at *; omega)
      rw [hmsgs] at hmodify
      exact hmodify

end Lists

section Nodes

/-- The queue with nodes holds the messages of the other one. `owner` gives each
node to a queue. -/
structure Holds (heap : Heap ℕ Bytes) (owner : ℕ → ℕ) (q : NodeQueue) (q' : Queue) : Prop where
  name : q.name = q'.name
  id : q.id = q'.id
  depth : q.depth = q'.depth
  linked : ∃ addrs, Linked heap q.toEnds addrs (q'.msgs.map QueueMsg.data) ∧
    ∀ a ∈ addrs, owner a = q.id

structure Represents (s : NodeStore) (qs : QueueStore) : Prop where
  queues : ∃ owner, List.Forall₂ (Holds s.heap owner) s.queues qs.queues
  nextId : s.nextId = qs.nextId
  fault : s.fault = false

variable {heap heap' : Heap ℕ Bytes} {owner owner' : ℕ → ℕ} {q : NodeQueue} {q' : Queue}
variable {s : NodeStore} {qs : QueueStore} {f : Fifo}

/-- A queue does not see what happens to the nodes of others. -/
theorem Holds.frame (h : Holds heap owner q q')
    (hsame : ∀ a, owner a = q.id → heap a ≠ none → heap' a = heap a ∧ owner' a = owner a) :
    Holds heap' owner' q q' := by
  obtain ⟨addrs, hl, howner⟩ := h.linked
  have hkept (a : ℕ) (ha : a ∈ addrs) := hsame a (howner a ha) (hl.chain.allocated a ha)
  refine ⟨h.name, h.id, h.depth, addrs, hl.frame fun a ha => (hkept a ha).1, fun a ha => ?_⟩
  rw [(hkept a ha).2, howner a ha]

theorem forall₂_ids {queues : List NodeQueue} {queues' : List Queue}
    (h : List.Forall₂ (Holds heap owner) queues queues') :
    queues.map NodeQueue.id = queues'.map Queue.id := by
  rw [← List.forall₂_eq_eq_eq, List.forall₂_map_left_iff, List.forall₂_map_right_iff]
  exact h.imp fun _ _ hq => hq.id

/-- A change to one queue and its nodes. -/
theorem forall₂_modify (hids : (s.queues.map NodeQueue.id).Nodup)
    (hq : List.Forall₂ (Holds s.heap owner) s.queues qs.queues) (queueId : ℕ)
    (hfind : (s.queues.find? fun q => q.id == queueId) = some q)
    (hfind' : (qs.queues.find? fun q => q.id == queueId) = some q')
    (hsame : ∀ a, owner a ≠ queueId → s.heap a ≠ none → heap' a = s.heap a ∧ owner' a = owner a)
    (u : NodeQueue → NodeQueue) (v : Queue → Queue)
    (hfirst : Holds heap' owner' (u q) (v q')) :
    List.Forall₂ (Holds heap' owner') (modifyFirst (fun q => q.id == queueId) u s.queues)
      (modifyFirst (fun q => q.id == queueId) v qs.queues) := by
  refine forall₂_modifyFirst hq (fun q q' h => by rw [h.id]) hfind hfind' ?_ ?_ hfirst
  · refine (List.pairwise_map.mp hids).imp fun hne he => ?_
    rw [beq_iff_eq] at he
    exact beq_false_of_ne fun he' => hne (he.trans he'.symm)
  · intro q q' h hother
    refine h.frame fun a ha hheap => hsame a (fun heq => ?_) hheap
    rw [← ha, heq, beq_self_eq_true] at hother
    contradiction

theorem Represents.register (h : Represents s qs) (name : CString) (queueAlloc nameAlloc : Bool) :
    Agrees Represents (nodeCall s (.register name queueAlloc nameAlloc))
      (listCall qs (.register name queueAlloc nameAlloc)) := by
  obtain ⟨⟨owner, hqueues⟩, hnext, hfault⟩ := h
  have hsame : Represents s qs := ⟨⟨owner, hqueues⟩, hnext, hfault⟩
  rw [nodeCall, listCall, vwasmQueueRegister, SharedQueue.vwasmQueueRegister]
  by_cases hempty : name.1 = []
  · rw [if_pos hempty, if_pos hempty]
    exact ⟨rfl, hsame⟩
  · rw [if_neg hempty, if_neg hempty]
    by_cases hlong : queueMaxName < name.1.length
    · rw [if_pos hlong, if_pos hlong]
      exact ⟨rfl, hsame⟩
    · rw [if_neg hlong, if_neg hlong, hnext]
      have hfind := forall₂_find? (p := fun q => cstrMatches q.name name.1) (q := nameMatches name.1)
        hqueues fun q q' hq => by rw [hq.name, nameMatches]
      generalize (s.queues.find? fun q => cstrMatches q.name name.1) = found at hfind ⊢
      generalize qs.queues.find? (nameMatches name.1) = found' at hfind ⊢
      cases hfind with
      | some hq => exact ⟨congrArg _ hq.id, hsame⟩
      | none =>
        dsimp only
        split
        · exact ⟨rfl, hsame⟩
        · split
          · exact ⟨rfl, hsame⟩
          · split
            · exact ⟨rfl, hsame⟩
            · refine ⟨rfl, ⟨owner, .cons ⟨rfl, rfl, rfl, [], ?_, by simp⟩ hqueues⟩, rfl, hfault⟩
              exact ⟨.nil, rfl, List.nodup_nil⟩

/-- Both stores have a queue with the id, or none has. -/
theorem found_cases {queues : List NodeQueue} {queues' : List Queue}
    (h : List.Forall₂ (Holds heap owner) queues queues') (queueId : ℕ) :
    ((queues.find? fun q => q.id == queueId) = none ∧
      (queues'.find? fun q => q.id == queueId) = none) ∨
    ∃ q q', (queues.find? fun q => q.id == queueId) = some q ∧
      (queues'.find? fun q => q.id == queueId) = some q' ∧ Holds heap owner q q' := by
  have hrel := forall₂_find? (p := fun q => q.id == queueId) (q := fun q => q.id == queueId) h
    fun q q' hq => by rw [hq.id]
  generalize (queues.find? fun q => q.id == queueId) = found at hrel ⊢
  generalize (queues'.find? fun q => q.id == queueId) = found' at hrel ⊢
  cases hrel with
  | none => exact Or.inl ⟨rfl, rfl⟩
  | some hq => exact Or.inr ⟨_, _, rfl, rfl, hq⟩

section OneQueue

variable (hids : (qs.queues.map Queue.id).Nodup)
variable (hqueues : List.Forall₂ (Holds s.heap owner) s.queues qs.queues) (queueId : ℕ)
variable (hfind : (s.queues.find? fun q => q.id == queueId) = some q)
variable (hfind' : (qs.queues.find? fun q => q.id == queueId) = some q')
variable (hq : Holds s.heap owner q q')

include hids hqueues hfind hfind' hq

/-- A message put at the end of one queue. -/
theorem forall₂_append (node : ℕ) (hfree : s.heap node = none) (msg : QueueMsg)
    (hdepth : q'.depth < queueMaxDepth) :
    ∃ heap' ends owner', append s.heap q.toEnds node msg.data = some (heap', ends) ∧
      List.Forall₂ (Holds heap' owner')
        (modifyFirst (fun q => q.id == queueId)
          (fun q => { q with toEnds := ends, depth := u32 (q.depth + 1) }) s.queues)
        (modifyFirst (fun q => q.id == queueId)
          (fun q => { q with msgs := q.msgs ++ [msg], depth := q.depth + 1 }) qs.queues) := by
  obtain ⟨hname, hid, hcount, addrs, hl, howner⟩ := hq
  have hqid : q.id = queueId := by simpa using List.find?_some hfind
  have hne (a : ℕ) (ha : s.heap a ≠ none) : a ≠ node := by
    rintro rfl
    exact ha hfree
  obtain ⟨heap', ends, happend, hl', hothers⟩ := hl.append hfree msg.data
  refine ⟨heap', ends, Function.update owner node queueId, happend, ?_⟩
  refine forall₂_modify (forall₂_ids hqueues ▸ hids) hqueues queueId hfind hfind' ?_ _ _ ?_
  · intro a ha hheap
    refine ⟨hothers a (hne a hheap) fun hmem => ha ((howner a hmem).trans hqid), ?_⟩
    rw [Function.update_of_ne (hne a hheap)]
  · refine ⟨hname, hid, ?_, addrs ++ [node], by rwa [List.map_append], ?_⟩
    · dsimp only [u32]
      rw [hcount, Nat.mod_eq_of_lt (by unfold queueMaxDepth at hdepth; omega)]
    · intro a ha
      rcases List.mem_append.mp ha with hold | hnew
      · rw [Function.update_of_ne (hne a (hl.chain.allocated a hold)), howner a hold]
      · rw [List.mem_singleton.mp hnew, Function.update_self, hqid]

/-- The first message taken out of one queue. -/
theorem forall₂_pop (msg : QueueMsg) (msgs : List QueueMsg) (hmsgs : q'.msgs = msg :: msgs)
    (hdepth : 0 < q'.depth ∧ q'.depth ≤ queueMaxDepth) :
    ∃ heap' ends, pop s.heap q.toEnds = some (msg.data, heap', ends) ∧
      List.Forall₂ (Holds heap' owner)
        (modifyFirst (fun q => q.id == queueId)
          (fun q => { q with toEnds := ends, depth := u32 (q.depth + (2 ^ 32 - 1)) }) s.queues)
        (modifyFirst (fun q => q.id == queueId)
          (fun q => { q with msgs := q.msgs.tail, depth := q.depth - 1 }) qs.queues) := by
  obtain ⟨hname, hid, hcount, addrs, hl, howner⟩ := hq
  have hqid : q.id = queueId := by simpa using List.find?_some hfind
  rw [hmsgs] at hl
  obtain ⟨first, addrs, rfl⟩ := hl.exists_cons
  obtain ⟨heap', ends, hpop, hl', hothers⟩ := hl.pop
  refine ⟨heap', ends, hpop, ?_⟩
  refine forall₂_modify (forall₂_ids hqueues ▸ hids) hqueues queueId hfind hfind' ?_ _ _ ?_
  · intro a ha _
    refine ⟨hothers a ?_, rfl⟩
    rintro rfl
    exact ha ((howner a List.mem_cons_self).trans hqid)
  · refine ⟨hname, hid, ?_, addrs, by rwa [hmsgs], fun a ha => ?_⟩
    · dsimp only [u32]
      unfold queueMaxDepth at hdepth
      omega
    · exact howner a (List.mem_cons_of_mem _ ha)

end OneQueue

theorem Represents.enqueue (h : Represents s qs) (hids : (qs.queues.map Queue.id).Nodup)
    (queueId : ℕ) (data : Payload) (node : Option ℕ) (dataAlloc : Bool)
    (hfree : CallocFree s (.enqueue queueId data node dataAlloc)) :
    Agrees Represents (nodeCall s (.enqueue queueId data node dataAlloc))
      (listCall qs (.enqueue queueId data node dataAlloc)) := by
  have hlen := data.content_length_le
  obtain ⟨owner, hqueues⟩ := h.queues
  rw [nodeCall, listCall, vwasmQueueEnqueue, SharedQueue.vwasmQueueEnqueue]
  by_cases hlong : queueMaxMsg < data.len
  · simp only [if_pos hlong, ite_self]
    exact ⟨rfl, h⟩
  by_cases hzero : queueId = 0
  · simp only [if_neg hlong, if_pos hzero]
    exact ⟨rfl, h⟩
  simp only [if_neg hlong, if_neg hzero,
    if_neg (show ¬ queueMaxMsg < data.content.length by omega)]
  rcases found_cases hqueues queueId with ⟨hfind, hfind'⟩ | ⟨q, q', hfind, hfind', hq⟩
  · simp only [hfind, hfind']
    exact ⟨rfl, h⟩
  simp only [hfind, hfind', hq.depth]
  by_cases hfull : queueMaxDepth ≤ q'.depth
  · simp only [if_pos hfull]
    exact ⟨rfl, h⟩
  simp only [if_neg hfull]
  cases node with
  | none => exact ⟨rfl, h⟩
  | some node =>
    dsimp only
    rw [if_neg (by simp : ¬ (some node).isSome = false)]
    by_cases hdata : data.content ≠ [] ∧ dataAlloc = false
    · rw [if_pos hdata, if_pos hdata]
      exact ⟨rfl, h⟩
    · obtain ⟨heap', ends, owner', happend, hafter⟩ := forall₂_append hids hqueues queueId hfind
        hfind' hq node hfree ⟨0, data.content⟩ (Nat.lt_of_not_le hfull)
      rw [if_neg hdata, if_neg hdata, happend]
      exact ⟨rfl, ⟨owner', hafter⟩, h.nextId, h.fault⟩

theorem Represents.dequeue (h : Represents s qs) (hids : (qs.queues.map Queue.id).Nodup)
    (hdepth : ∀ q ∈ qs.queues, q.depth = q.msgs.length ∧ q.msgs.length ≤ queueMaxDepth)
    (queueId : ℕ) :
    Agrees Represents (nodeCall s (.dequeue queueId)) (listCall qs (.dequeue queueId)) := by
  obtain ⟨owner, hqueues⟩ := h.queues
  rw [nodeCall, listCall, vwasmQueueDequeue, SharedQueue.vwasmQueueDequeue]
  by_cases hzero : queueId = 0
  · simp only [if_pos hzero]
    exact ⟨rfl, h⟩
  simp only [if_neg hzero]
  rcases found_cases hqueues queueId with ⟨hfind, hfind'⟩ | ⟨q, q', hfind, hfind', hq⟩
  · simp only [hfind, hfind']
    exact ⟨rfl, h⟩
  simp only [hfind, hfind']
  obtain ⟨addrs, hl, -⟩ := hq.linked
  rw [hl.head_eq]
  cases hmsgs : q'.msgs with
  | nil =>
    rw [hmsgs] at hl
    rw [List.length_eq_zero_iff.mp hl.length_eq]
    exact ⟨rfl, h⟩
  | cons msg msgs =>
    rw [hmsgs] at hl
    obtain ⟨first, addrs, rfl⟩ := hl.exists_cons
    obtain ⟨hcount, hbound⟩ := hdepth q' (List.mem_of_find?_eq_some hfind')
    obtain ⟨heap', ends, hpop, hafter⟩ := forall₂_pop hids hqueues queueId hfind hfind' hq msg msgs
      hmsgs ⟨by rw [hcount, hmsgs]; exact Nat.succ_pos _, hcount ▸ hbound⟩
    simp only [List.head?_cons, hpop]
    exact ⟨rfl, ⟨owner, hafter⟩, h.nextId, h.fault⟩

/-- The nodes hold what the lists hold. -/
def Simulates (f : Fifo) (s : NodeStore) : Prop := ∃ qs, Represents s qs ∧ Lists qs f

theorem Simulates.step (h : Simulates f s) (op : QueueOp) (hfree : CallocFree s op) :
    Agrees Simulates (fifoCall f op) (nodeCall s op) := by
  obtain ⟨qs, hrep, hlists⟩ := h
  have hids : (qs.queues.map Queue.id).Nodup := by
    rw [hlists.listed.ids, List.nodup_reverse]
    exact List.nodup_range'
  have hcall : Agrees Represents (nodeCall s op) (listCall qs op) ∧
      Agrees Lists (listCall qs op) (fifoCall f op) := by
    cases op with
    | register name queueAlloc nameAlloc => exact ⟨hrep.register .., hlists.register ..⟩
    | enqueue queueId data node dataAlloc =>
      exact ⟨hrep.enqueue hids _ _ _ _ hfree, hlists.enqueue ..⟩
    | dequeue queueId => exact ⟨hrep.dequeue hids hlists.depth _, hlists.dequeue _⟩
  obtain ⟨⟨hanswer, hrep'⟩, hanswer', hlists'⟩ := hcall
  exact ⟨(hanswer.trans hanswer').symm, _, hrep', hlists'⟩

end Nodes

abbrev nodesAfter (calls : List QueueOp) : NodeStore := after nodeCall {} calls

abbrev fifoAfter (calls : List QueueOp) : Fifo := after fifoCall {} calls

/-- The id is that of a registered name. -/
def Known (names : List Bytes) (id : ℕ) : Prop := ∃ name ∈ names, idOf names name = id

/-- The messages that a call has put into a queue. -/
def accepted (id : ℕ) : QueueOp × OpAnswer → List Bytes
  | (.enqueue queueId data _ _, .enqueued true) => if queueId = id then [data.content] else []
  | _ => []

/-- The messages that a call has taken out of a queue. -/
def taken (id : ℕ) : QueueOp × OpAnswer → List Bytes
  | (.dequeue queueId, .dequeued (some msg)) => if queueId = id then [msg] else []
  | _ => []

def OpAnswer.Refused : OpAnswer → Prop
  | .registered id => id = 0
  | .enqueued ok => ok = false
  | .dequeued msg => msg = none

/-- The queue that a call works on. -/
def QueueOp.queue : QueueOp → Option ℕ
  | .register _ _ _ => none
  | .enqueue queueId _ _ _ => some queueId
  | .dequeue queueId => some queueId

/-- The nodes of a queue lead from `head` to `tail` through these messages, of which
there are `depth`. -/
structure QueueHolds (heap : Heap ℕ Bytes) (q : NodeQueue) (msgs : List Bytes) : Prop where
  linked : ∃ addrs, Linked heap q.toEnds addrs msgs
  ends : q.tail ≠ none ↔ q.head ≠ none
  depth : q.depth = msgs.length
  bounded : msgs.length ≤ queueMaxDepth

/-- In a history of calls the queues are first-in first-out lists. -/
structure RefinesFifo (calls : List QueueOp) : Prop where
  noFault : ∀ pre, pre <+: calls → (nodesAfter pre).fault = false
  answers : ∀ pre op, pre ++ [op] <+: calls →
    answer nodeCall {} pre op = answer fifoCall {} pre op
  holds : ∀ pre id, pre <+: calls →
    Option.Rel (QueueHolds (nodesAfter pre).heap)
      ((nodesAfter pre).queues.find? fun q => q.id == id) ((fifoAfter pre).content id)
  known : ∀ pre id, pre <+: calls →
    ((fifoAfter pre).content id ≠ none ↔ Known (fifoAfter pre).names id)
  /-- What was enqueued is what was dequeued and what still waits, in this order. -/
  order : ∀ pre id, pre <+: calls →
    (transcript nodeCall {} pre).flatMap (accepted id) =
      (transcript nodeCall {} pre).flatMap (taken id) ++ ((fifoAfter pre).content id).getD []
  refused : ∀ pre queueId data node dataAlloc,
    pre ++ [.enqueue queueId data node dataAlloc] <+: calls →
    (answer nodeCall {} pre (.enqueue queueId data node dataAlloc) = .enqueued false ↔
      ¬ Known (fifoAfter pre).names queueId ∨ queueMaxMsg < data.len ∨
        (∃ q, ((nodesAfter pre).queues.find? fun q => q.id == queueId) = some q ∧
          q.depth = queueMaxDepth) ∨ ¬ Allocated data node dataAlloc)
  unchanged : ∀ pre op, pre ++ [op] <+: calls → (answer nodeCall {} pre op).Refused →
    nodesAfter (pre ++ [op]) = nodesAfter pre
  others : ∀ pre op id, pre ++ [op] <+: calls → Known (fifoAfter pre).names id →
    op.queue ≠ some id →
    ((nodesAfter (pre ++ [op])).queues.find? fun q => q.id == id) =
        ((nodesAfter pre).queues.find? fun q => q.id == id) ∧
      (fifoAfter (pre ++ [op])).content id = (fifoAfter pre).content id

section Results

variable {s : NodeStore} {qs : QueueStore} {f : Fifo}

theorem known_iff {names : List Bytes} (hnodup : names.Nodup) (id : ℕ) :
    Known names id ↔ 1 ≤ id ∧ id ≤ names.length := by
  constructor
  · rintro ⟨name, hmem, rfl⟩
    rw [idOf, if_pos hmem]
    exact ⟨Nat.succ_pos _, List.idxOf_lt_length_iff.mpr hmem⟩
  · rintro ⟨hpos, hle⟩
    have hlt : id - 1 < names.length := by omega
    refine ⟨names[id - 1], List.getElem_mem hlt, ?_⟩
    rw [idOf, if_pos (List.getElem_mem hlt), hnodup.idxOf_getElem]
    omega

theorem Lists.known (h : Lists qs f) (id : ℕ) : f.content id ≠ none ↔ Known f.names id := by
  have hids : id ∈ qs.queues.map Queue.id ↔ 1 ≤ id ∧ id ≤ f.names.length := by
    rw [h.listed.ids, List.mem_reverse, List.mem_range'_1]
    dsimp only
    omega
  rw [known_iff h.listed.nodup, ← hids, ← h.content id, Ne, Option.map_eq_none_iff,
    List.find?_eq_none, List.mem_map]
  simp

theorem Simulates.holds (h : Simulates f s) (id : ℕ) :
    Option.Rel (QueueHolds s.heap) (s.queues.find? fun q => q.id == id) (f.content id) := by
  obtain ⟨qs, hrep, hlists⟩ := h
  obtain ⟨owner, hqueues⟩ := hrep.queues
  rw [← hlists.content id]
  rcases found_cases hqueues id with ⟨hfind, hfind'⟩ | ⟨q, q', hfind, hfind', hq⟩
  · rw [hfind, hfind']
    exact .none
  · rw [hfind, hfind']
    obtain ⟨hdepth, hbound⟩ := hlists.depth q' (List.mem_of_find?_eq_some hfind')
    obtain ⟨addrs, hl, -⟩ := hq.linked
    refine .some ⟨⟨addrs, hl⟩, not_congr hl.tail_eq_none_iff, ?_, ?_⟩
    · rw [hq.depth, hdepth, List.length_map]
    · rwa [List.length_map]

theorem Simulates.known (h : Simulates f s) (id : ℕ) : f.content id ≠ none ↔ Known f.names id := by
  obtain ⟨qs, -, hlists⟩ := h
  exact hlists.known id

theorem Simulates.nextId (h : Simulates f s) : s.nextId = f.names.length + 1 := by
  obtain ⟨qs, hrep, hlists⟩ := h
  exact hrep.nextId.trans hlists.listed.nextId

theorem Simulates.le_of_known (h : Simulates f s) {id : ℕ} (hid : Known f.names id) :
    id ≤ f.names.length := by
  obtain ⟨qs, -, hlists⟩ := h
  exact ((known_iff hlists.listed.nodup id).mp hid).2

/-- An enqueue is refused for an unknown id, a message that is too long, a full
queue, and want of memory. -/
theorem Simulates.refused (h : Simulates f s) (queueId : ℕ) (data : Payload) (node : Option ℕ)
    (dataAlloc : Bool) :
    (fifoCall f (.enqueue queueId data node dataAlloc)).1 = .enqueued false ↔
      ¬ Known f.names queueId ∨ queueMaxMsg < data.len ∨
        (∃ q, (s.queues.find? fun q => q.id == queueId) = some q ∧ q.depth = queueMaxDepth) ∨
        ¬ Allocated data node dataAlloc := by
  have hholds := h.holds queueId
  rw [← h.known queueId, not_not, fifoCall]
  generalize (s.queues.find? fun q => q.id == queueId) = found at hholds ⊢
  generalize f.content queueId = msgs at hholds ⊢
  cases hholds with
  | none => simp
  | some hq =>
    have hdepth := hq.depth
    dsimp only
    split <;> simp_all

/-- A call adds to the end of a queue and takes from its front. -/
theorem fifoCall_order (f : Fifo) (hnew : f.content (f.names.length + 1) = none) (op : QueueOp)
    (id : ℕ) :
    (f.content id).getD [] ++ accepted id (op, (fifoCall f op).1) =
      taken id (op, (fifoCall f op).1) ++ ((fifoCall f op).2.content id).getD [] := by
  cases op with
  | register name queueAlloc nameAlloc =>
    rw [fifoCall]
    split
    · exact List.append_nil _
    · split
      · exact List.append_nil _
      · split
        · exact List.append_nil _
        · refine (List.append_nil _).trans ?_
          by_cases hid : id = f.names.length + 1
          · rw [hid, hnew]
            simp [taken]
          · simp [taken, Function.update_of_ne hid]
  | enqueue queueId data node dataAlloc =>
    rw [fifoCall]
    rcases hcontent : f.content queueId with _ | msgs
    · exact List.append_nil _
    · dsimp only
      split
      · exact List.append_nil _
      · by_cases hid : queueId = id
        · subst hid
          simp [accepted, taken, hcontent]
        · simp [accepted, taken, hid, Function.update_of_ne (Ne.symm hid)]
  | dequeue queueId =>
    rw [fifoCall]
    rcases hcontent : f.content queueId with _ | _ | ⟨msg, msgs⟩
    · exact List.append_nil _
    · exact List.append_nil _
    · by_cases hid : queueId = id
      · subst hid
        simp [accepted, taken, hcontent]
      · simp [accepted, taken, hid, Function.update_of_ne (Ne.symm hid)]

/-- What a call can do to the nodes: nothing, follow a bad pointer, add a queue, or
change the queue it works on. -/
theorem nodeCall_cases (s : NodeStore) (op : QueueOp) :
    (nodeCall s op).2 = s ∨ (nodeCall s op).2.fault = true ∨
    (∃ q : NodeQueue, (nodeCall s op).1 = .registered s.nextId ∧ q.id = s.nextId ∧
      (nodeCall s op).2 = { s with queues := q :: s.queues, nextId := s.nextId + 1 }) ∨
    (∃ queueId heap' u, (nodeCall s op).2 =
        { s with heap := heap', queues := modifyFirst (fun q => q.id == queueId) u s.queues } ∧
      op.queue = some queueId ∧ ¬ (nodeCall s op).1.Refused ∧
      ∀ q : NodeQueue, (u q).id = q.id) := by
  cases op with
  | register name queueAlloc nameAlloc =>
    rw [nodeCall, vwasmQueueRegister]
    repeat' split
    all_goals first
      | exact Or.inl rfl
      | exact Or.inr (Or.inr (Or.inl ⟨_, rfl, rfl, rfl⟩))
  | enqueue queueId data node dataAlloc =>
    rw [nodeCall, vwasmQueueEnqueue]
    repeat' split
    all_goals first
      | exact Or.inl rfl
      | exact Or.inr (Or.inl rfl)
      | exact Or.inr (Or.inr (Or.inr ⟨_, _, _, rfl, rfl, Bool.noConfusion, fun _ => rfl⟩))
  | dequeue queueId =>
    rw [nodeCall, vwasmQueueDequeue]
    repeat' split
    all_goals first
      | exact Or.inl rfl
      | exact Or.inr (Or.inl rfl)
      | exact Or.inr (Or.inr (Or.inr ⟨_, _, _, rfl, rfl, Option.some_ne_none _, fun _ => rfl⟩))

/-- A refused call changes nothing. -/
theorem nodeCall_refused (s : NodeStore) (op : QueueOp) (hnext : s.nextId ≠ 0)
    (hfault : (nodeCall s op).2.fault = false) (h : (nodeCall s op).1.Refused) :
    (nodeCall s op).2 = s := by
  rcases nodeCall_cases s op with hsame | hbad | ⟨q, hid, -, -⟩ | ⟨_, _, _, -, -, hdone, -⟩
  · exact hsame
  · rw [hbad] at hfault
    contradiction
  · rw [hid] at h
    exact absurd h hnext
  · exact absurd h hdone

/-- A call leaves the queues alone that it does not work on. -/
theorem nodeCall_others (s : NodeStore) (op : QueueOp) (id : ℕ) (hid : id < s.nextId)
    (hfault : (nodeCall s op).2.fault = false) (h : op.queue ≠ some id) :
    ((nodeCall s op).2.queues.find? fun q => q.id == id) =
      s.queues.find? fun q => q.id == id := by
  rcases nodeCall_cases s op with
    hsame | hbad | ⟨q, -, hq, hadd⟩ | ⟨queueId, heap', u, hmodify, hop, -, hu⟩
  · rw [hsame]
  · rw [hbad] at hfault
    contradiction
  · rw [hadd]
    exact List.find?_cons_of_neg (by simp [hq]; omega)
  · rw [hmodify]
    refine find?_modifyFirst_of_ne NodeQueue.id queueId id ?_ u hu s.queues
    rintro rfl
    exact h hop

theorem fifoCall_others (f : Fifo) (op : QueueOp) (id : ℕ) (hid : id ≤ f.names.length)
    (h : op.queue ≠ some id) : (fifoCall f op).2.content id = f.content id := by
  have hne (queueId : ℕ) (hqueue : op.queue = some queueId) : id ≠ queueId := by
    rintro rfl
    exact h hqueue
  cases op with
  | register name queueAlloc nameAlloc =>
    rw [fifoCall]
    repeat' split
    all_goals first
      | rfl
      | exact Function.update_of_ne (by omega) ..
  | enqueue queueId data node dataAlloc =>
    rw [fifoCall]
    repeat' split
    all_goals first
      | rfl
      | exact Function.update_of_ne (hne queueId rfl) ..
  | dequeue queueId =>
    rw [fifoCall]
    split
    · exact Function.update_of_ne (hne queueId rfl) ..
    · rfl

theorem simulates_new : Simulates {} {} := by
  refine ⟨{}, ⟨⟨fun _ => 0, .nil⟩, rfl, rfl⟩, ⟨⟨rfl, rfl, List.nodup_nil, ?_, Nat.zero_le _⟩, ?_, ?_⟩⟩
  · simp
  · exact fun _ => rfl
  · simp

end Results

/-- The queues of linked nodes are first-in first-out lists, for every history of
calls in which `calloc` returns nodes that are not in use. -/
theorem queueNodes_refine (calls : List QueueOp) (hcalloc : InOrder nodeCall CallocFree {} calls) :
    RefinesFifo calls := by
  have hsim (pre : List QueueOp) (hpre : pre <+: calls) :
      Simulates (fifoAfter pre) (nodesAfter pre) := by
    obtain ⟨rest, rfl⟩ := hpre
    exact after_related fifoCall nodeCall Simulates CallocFree
      (fun f s op h hfree => (h.step op hfree).2) {} {} simulates_new pre hcalloc.left
  have hleft (pre : List QueueOp) (op : QueueOp) (hpre : pre ++ [op] <+: calls) : pre <+: calls :=
    (List.prefix_append ..).trans hpre
  have hanswer (pre : List QueueOp) (op : QueueOp) (hpre : pre ++ [op] <+: calls) :
      answer nodeCall {} pre op = answer fifoCall {} pre op :=
    ((hsim pre (hleft pre op hpre)).step op (hcalloc pre op hpre)).1.symm
  have hfault (pre : List QueueOp) (hpre : pre <+: calls) : (nodesAfter pre).fault = false := by
    obtain ⟨qs, hrep, -⟩ := hsim pre hpre
    exact hrep.fault
  have hafter (pre : List QueueOp) (op : QueueOp) (hpre : pre ++ [op] <+: calls) :
      (nodeCall (nodesAfter pre) op).2.fault = false := by
    rw [← after_snoc]
    exact hfault _ hpre
  refine ⟨hfault, hanswer, fun pre id hpre => (hsim pre hpre).holds id,
    fun pre id hpre => (hsim pre hpre).known id, ?_, ?_, ?_, ?_⟩
  · intro pre id hpre
    induction pre using List.reverseRecOn with
    | nil => rfl
    | append_singleton pre op ih =>
      have hpre' := hleft pre op hpre
      have hnew : (fifoAfter pre).content ((fifoAfter pre).names.length + 1) = none := by
        by_contra hsome
        have hle := (hsim pre hpre').le_of_known (((hsim pre hpre').known _).mp hsome)
        omega
      have hop := fifoCall_order (fifoAfter pre) hnew op id
      have hstep : fifoAfter (pre ++ [op]) = (fifoCall (fifoAfter pre) op).2 := after_snoc ..
      rw [transcript_snoc, List.flatMap_append, List.flatMap_append, List.flatMap_singleton,
        List.flatMap_singleton, ih hpre', hanswer pre op hpre, List.append_assoc, List.append_assoc,
        hstep]
      exact congrArg _ hop
  · intro pre queueId data node dataAlloc hpre
    rw [hanswer pre _ hpre]
    exact (hsim pre (hleft pre _ hpre)).refused queueId data node dataAlloc
  · intro pre op hpre hrefused
    have hnext := (hsim pre (hleft pre op hpre)).nextId
    rw [nodesAfter, after_snoc]
    exact nodeCall_refused _ op (hnext ▸ Nat.succ_ne_zero _) (hafter pre op hpre) hrefused
  · intro pre op id hpre hid hop
    have hpre' := hsim pre (hleft pre op hpre)
    have hle := hpre'.le_of_known hid
    rw [nodesAfter, fifoAfter, after_snoc, after_snoc]
    exact ⟨nodeCall_others _ op id (by rw [hpre'.nextId]; omega) (hafter pre op hpre) hop,
      fifoCall_others _ op id hle hop⟩

/-- Two queues; the node of the message taken out is used for the next one. -/
def twoQueues : List QueueOp :=
  [.register ⟨[97], by decide⟩ true true, .register ⟨[98], by decide⟩ true true,
    .enqueue 1 (.bytes [1]) (some 500) true, .enqueue 2 (.bytes [2]) (some 600) true,
    .enqueue 1 (.bytes [3]) (some 700) true, .dequeue 1, .enqueue 2 (.bytes [4]) (some 500) true]

theorem twoQueues_refine :
    RefinesFifo twoQueues ∧ (fifoAfter twoQueues).content 1 = some [[3]] ∧
      (fifoAfter twoQueues).content 2 = some [[2], [4]] := by
  refine ⟨queueNodes_refine twoQueues ?_, by decide, by decide⟩
  exact .cons _ trivial <| .cons _ trivial <| .cons _ rfl <| .cons _ rfl <| .cons _ rfl <|
    .cons _ trivial <| .cons _ rfl <| .nil _

end VmodWasm.QueueNodes
