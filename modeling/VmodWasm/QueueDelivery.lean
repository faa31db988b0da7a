import VmodWasm.SharedQueue
import VmodWasm.Lib.Custody
import VmodWasm.Lib.Mealy

/-!
Delivery of queued messages to guests. A dequeue takes the message out of its
queue under the lock and hands it over to the guest afterwards, so calls of
any number of contexts interleave between the two steps; a guest may also make
calls of its own from its allocator. A hand-over that fails drops the message.
-/
namespace VmodWasm.QueueDelivery

open ByteStrings GuestMemory ProxyContext SharedQueue Lib.Custody Lib.Mealy

/-- A dequeue that has taken a message and not handed it over yet. -/
structure Pending where
  call : ℕ
  queueId : ℕ
  msg : QueueMsg
  retData : UInt32
  retSize : UInt32
  deriving DecidableEq, Repr

/-- The store, the dequeues in progress, and ghost data: the messages accepted,
delivered and dropped, each with the id of the queue named in the call. -/
structure QueueWorld where
  store : QueueStore := {}
  pending : List Pending := []
  accepted : List (ℕ × QueueMsg) := []
  delivered : List (ℕ × QueueMsg) := []
  dropped : List (ℕ × QueueMsg) := []
  deriving DecidableEq, Repr

/-- The steps of calls. `attached` says whether the context has a queue store;
memory, allocator and allocations are the world's. -/
inductive QueueStep where
  | register (name : Bytes) (queueAlloc nameAlloc : Bool)
  | enqueue (attached valid : Bool) (mem : Bytes) (queueId dataPtr dataSize : UInt32)
      (msgAlloc dataAlloc : Bool)
  | dequeue (call : ℕ) (attached : Bool) (queueId retData retSize : UInt32)
  | handOver (call : ℕ) (valid : Bool) (allocator : Option GuestAlloc) (mem : Bytes)

def QueueWorld.enqueue (w : QueueWorld) (attached valid : Bool) (mem : Bytes)
    (queueId dataPtr dataSize : UInt32) (msgAlloc dataAlloc : Bool) : ProxyStatus × QueueWorld :=
  let serial := w.accepted.length
  match pwProxyEnqueueSharedQueue (if attached then some w.store else none) valid mem queueId
    dataPtr dataSize msgAlloc dataAlloc serial with
  | (.ok, some store) =>
    (.ok, { w with
      store := store
      accepted := w.accepted ++
        [(queueId.toNat, ⟨serial, pwMemRegion mem dataPtr dataSize⟩)] })
  | (status, _) => (status, w)

/-- The first half of `pw_proxy_dequeue_shared_queue`. -/
def QueueWorld.dequeue (w : QueueWorld) (call : ℕ) (attached : Bool)
    (queueId retData retSize : UInt32) : Option ProxyStatus × QueueWorld :=
  if !attached then (some .empty, w)
  else
    match vwasmQueueDequeue w.store queueId.toNat with
    | (none, store) => (some .empty, { w with store := store })
    | (some msg, store) =>
      (none, { w with
        store := store
        pending := ⟨call, queueId.toNat, msg, retData, retSize⟩ :: w.pending })

/-- The second half, of a dequeue in progress. -/
def QueueWorld.handOver (w : QueueWorld) (p : Pending) (valid : Bool)
    (allocator : Option GuestAlloc) (mem : Bytes) : ProxyStatus × QueueWorld :=
  let w := { w with pending := w.pending.erase p }
  match (pwReturnBytes valid allocator mem p.msg.data p.retData p.retSize).1 with
  | true => (.ok, { w with delivered := w.delivered ++ [(p.queueId, p.msg)] })
  | false => (.internal, { w with dropped := w.dropped ++ [(p.queueId, p.msg)] })

/-- One step, and the status it returns to the guest, if it ends a call. Calls
that are not in progress hand nothing over. -/
def queueStep (w : QueueWorld) : QueueStep → Option ProxyStatus × QueueWorld
  | .register name queueAlloc nameAlloc =>
    (none, { w with store := (vwasmQueueRegister w.store name queueAlloc nameAlloc).2 })
  | .enqueue attached valid mem queueId dataPtr dataSize msgAlloc dataAlloc =>
    let r := w.enqueue attached valid mem queueId dataPtr dataSize msgAlloc dataAlloc
    (some r.1, r.2)
  | .dequeue call attached queueId retData retSize =>
    w.dequeue call attached queueId retData retSize
  | .handOver call valid allocator mem =>
    match w.pending.find? fun p => p.call == call with
    | none => (none, w)
    | some p =>
      let r := w.handOver p valid allocator mem
      (some r.1, r.2)

/-- The two halves of a dequeue, one right after the other, are the source's
function. -/
theorem dequeue_handOver (w : QueueWorld) (call : ℕ) (valid : Bool) (allocator : Option GuestAlloc)
    (mem : Bytes) (queueId retData retSize : UInt32)
    (hfree : ∀ p ∈ w.pending, p.call ≠ call) :
    let first := queueStep w (.dequeue call true queueId retData retSize)
    let second := queueStep first.2 (.handOver call valid allocator mem)
    let whole := pwProxyDequeueSharedQueue (some w.store) valid allocator mem queueId retData retSize
    first.1.or second.1 = some whole.1 ∧ some second.2.store = whole.2.1 := by
  have hnone : w.pending.find? (fun p => p.call == call) = none :=
    List.find?_eq_none.mpr fun p hp => by simpa using hfree p hp
  dsimp only
  rw [pwProxyDequeueSharedQueue]
  rcases hpop : vwasmQueueDequeue w.store queueId.toNat with ⟨_ | msg, store⟩
  · simp [queueStep, QueueWorld.dequeue, hpop, hnone]
  · rcases hreturn : pwReturnBytes valid allocator mem msg.data retData retSize with ⟨_ | _, mem'⟩
    · simp [queueStep, QueueWorld.dequeue, hpop, QueueWorld.handOver, hreturn]
    · simp [queueStep, QueueWorld.dequeue, hpop, QueueWorld.handOver, hreturn]

/-- What a hand-over needs: room for the result pointers and, for a message
that is not empty, an allocation in range. -/
def CanHandOver (valid : Bool) (allocator : Option GuestAlloc) (mem data : Bytes)
    (retData retSize : UInt32) : Prop :=
  if data = [] then
    pwValidateRegion valid mem retData 4 = true ∧ pwValidateRegion valid mem retSize 4 = true
  else
    ∃ ptr mem', pwAllocWasm allocator mem (UInt32.ofNat data.length) = (some ptr, mem') ∧
      pwValidateRegion valid mem' ptr (UInt32.ofNat data.length) = true ∧
      pwValidateRegion valid mem' retData 4 = true ∧ pwValidateRegion valid mem' retSize 4 = true

/-- A step that drops no message. -/
def HandsOver (w : QueueWorld) : QueueStep → Prop
  | .handOver call valid allocator mem =>
    ∀ p, w.pending.find? (fun p => p.call == call) = some p →
      CanHandOver valid allocator mem p.msg.data p.retData p.retSize
  | _ => True

def ledgerOf (w : QueueWorld) : Ledger (ℕ × QueueMsg) where
  waiting := queued w.store
  carried := w.pending.map fun p => (p.queueId, p.msg)
  delivered := w.delivered
  lost := w.dropped
  issued := w.accepted

theorem coe_snoc (l : List (ℕ × QueueMsg)) (t : ℕ × QueueMsg) :
    ((l ++ [t] : List _) : Multiset _) = t ::ₘ (l : Multiset (ℕ × QueueMsg)) :=
  Multiset.coe_eq_coe.mpr (List.perm_append_singleton _ _)

theorem pwReturnBytes_iff (valid : Bool) (allocator : Option GuestAlloc) (mem data : Bytes)
    (retData retSize : UInt32) (hlen : data.length < 2 ^ 32) :
    (pwReturnBytes valid allocator mem data retData retSize).1 = true ↔
      CanHandOver valid allocator mem data retData retSize := by
  unfold pwReturnBytes CanHandOver
  by_cases hdata : data = []
  · rw [if_pos hdata, if_pos hdata, writeResults_iff]
  · rw [if_neg hdata, if_neg hdata]
    rcases halloc : pwAllocWasm allocator mem (UInt32.ofNat data.length) with ⟨_ | ptr, mem'⟩
    · simp
    · by_cases hregion : pwValidateRegion valid mem' ptr (UInt32.ofNat data.length) = true
      · have hsize : (UInt32.ofNat data.length).toNat = data.length :=
          UInt32.toNat_ofNat_of_lt' hlen
        have hfits : ptr.toNat + data.length ≤ mem'.length := by
          simp only [pwValidateRegion, hsize, Bool.and_eq_true, decide_eq_true_eq] at hregion
          exact hregion.2
        have hsame : (mem'.take ptr.toNat ++ data ++ mem'.drop (ptr.toNat + data.length)).length =
            mem'.length := by
          simp only [List.length_append, List.length_take, List.length_drop]
          omega
        simp only [hregion, Bool.not_true, Bool.false_eq_true, if_false, writeResults_iff]
        rw [pwValidateRegion_congr valid _ mem' retData 4 hsame,
          pwValidateRegion_congr valid _ mem' retSize 4 hsame]
        constructor
        · intro h
          exact ⟨ptr, mem', rfl, hregion, h⟩
        · rintro ⟨ptr', mem'', heq, _, h⟩
          obtain ⟨_, rfl⟩ := Prod.mk.inj heq
          exact h
      · simp only [hregion, Bool.not_false, if_true, Bool.false_eq_true, false_iff]
        rintro ⟨ptr', mem'', heq, hregion', _⟩
        obtain ⟨hptr, rfl⟩ := Prod.mk.inj heq
        obtain rfl := Option.some.inj hptr
        exact hregion hregion'

/-- The ledger balances, and accepted messages are numbered and within the
limit. -/
structure WorldInv (w : QueueWorld) : Prop where
  ledger : Inv (ledgerOf w)
  serials : ∀ t ∈ w.accepted, t.2.serial < w.accepted.length
  small : ∀ t ∈ w.accepted, t.2.data.length ≤ queueMaxMsg

theorem worldInv_new : WorldInv {} where
  ledger := ⟨rfl, List.nodup_nil⟩
  serials t ht := by simp at ht
  small t ht := by simp at ht

namespace WorldInv

variable {w : QueueWorld} (h : WorldInv w)

include h

theorem mem_issued {t : ℕ × QueueMsg}
    (ht : t ∈ (ledgerOf w).waiting ∨ t ∈ (ledgerOf w).carried) : t ∈ w.accepted := by
  have hissued : t ∈ (ledgerOf w).issued := by
    rw [← h.ledger.total]
    simp only [Multiset.mem_add]
    exact Or.inl (Or.inl ht)
  exact Multiset.mem_coe.mp hissued

theorem mem_accepted (p : Pending) (hp : p ∈ w.pending) : (p.queueId, p.msg) ∈ w.accepted :=
  h.mem_issued (Or.inr (Multiset.mem_coe.mpr (List.mem_map.mpr ⟨p, hp, rfl⟩)))

theorem messagesFit : MessagesFit w.store := fun t ht =>
  h.small t (h.mem_issued (Or.inl (Multiset.mem_coe.mpr ht)))

theorem enqueue (attached valid : Bool) (mem : Bytes) (queueId dataPtr dataSize : UInt32)
    (msgAlloc dataAlloc : Bool) :
    WorldInv (w.enqueue attached valid mem queueId dataPtr dataSize msgAlloc dataAlloc).2 := by
  cases attached with
  | false => exact h
  | true =>
    unfold QueueWorld.enqueue pwProxyEnqueueSharedQueue
    simp only [if_true]
    set msg : QueueMsg := ⟨w.accepted.length, pwMemRegion mem dataPtr dataSize⟩ with hmsg
    by_cases hregion : dataSize ≠ 0 ∧ pwValidateRegion valid mem dataPtr dataSize = false
    · rw [if_pos hregion]
      exact h
    · rw [if_neg hregion]
      rcases hput : vwasmQueueEnqueue w.store queueId.toNat msg msgAlloc dataAlloc with
        ⟨_ | _, store⟩
      · exact h
      · obtain ⟨hqueued, hsmall⟩ := vwasmQueueEnqueue_queued _ _ _ _ _ _ hput
        have hnew : (queueId.toNat, msg) ∉ w.accepted := by
          intro hmem
          have hlt := h.serials _ hmem
          exact absurd hlt (Nat.lt_irrefl _)
        refine ⟨?_, ?_, ?_⟩
        · have hmove := h.ledger.move (Move.issue (ledgerOf w) (queueId.toNat, msg) hnew)
          have hwaiting : ((queued store : List _) : Multiset (ℕ × QueueMsg)) =
              (queueId.toNat, msg) ::ₘ (ledgerOf w).waiting := Multiset.coe_eq_coe.mpr hqueued
          simpa only [ledgerOf, hwaiting, coe_snoc] using hmove
        · intro t ht
          rw [List.length_append, List.length_singleton]
          rcases List.mem_append.mp ht with ht | ht
          · exact Nat.lt_succ_of_lt (h.serials t ht)
          · rw [List.mem_singleton.mp ht]
            exact Nat.lt_succ_self _
        · intro t ht
          rcases List.mem_append.mp ht with ht | ht
          · exact h.small t ht
          · rw [List.mem_singleton.mp ht]
            exact hsmall

theorem dequeue (call : ℕ) (attached : Bool) (queueId retData retSize : UInt32) :
    WorldInv (w.dequeue call attached queueId retData retSize).2 := by
  unfold QueueWorld.dequeue
  cases attached with
  | false => exact h
  | true =>
    rcases hpop : vwasmQueueDequeue w.store queueId.toNat with ⟨_ | msg, store⟩
    · rw [vwasmQueueDequeue_empty _ _ _ hpop]
      exact h
    · have hqueued := vwasmQueueDequeue_queued _ _ _ _ hpop
      have hwaiting : (ledgerOf w).waiting =
          (queueId.toNat, msg) ::ₘ ((queued store : List _) : Multiset (ℕ × QueueMsg)) :=
        Multiset.coe_eq_coe.mpr hqueued
      exact ⟨h.ledger.move (Move.take (ledgerOf w) _ _ hwaiting), h.serials, h.small⟩

theorem handOver (p : Pending) (hp : p ∈ w.pending) (valid : Bool) (allocator : Option GuestAlloc)
    (mem : Bytes) : WorldInv (w.handOver p valid allocator mem).2 := by
  have hcarried : (ledgerOf w).carried = (p.queueId, p.msg) ::ₘ
      (((w.pending.erase p).map fun p => (p.queueId, p.msg) : List _) : Multiset _) :=
    Multiset.coe_eq_coe.mpr ((List.perm_cons_erase hp).map _)
  unfold QueueWorld.handOver
  rcases hreturn : (pwReturnBytes valid allocator mem p.msg.data p.retData p.retSize).1 with _ | _
  · refine ⟨?_, h.serials, h.small⟩
    have hmove := h.ledger.move (Move.lose (ledgerOf w) _ _ hcarried)
    simpa only [ledgerOf, coe_snoc] using hmove
  · refine ⟨?_, h.serials, h.small⟩
    have hmove := h.ledger.move (Move.deliver (ledgerOf w) _ _ hcarried)
    simpa only [ledgerOf, coe_snoc] using hmove

theorem step (s : QueueStep) : WorldInv (queueStep w s).2 := by
  cases s with
  | register name queueAlloc nameAlloc =>
    refine ⟨?_, h.serials, h.small⟩
    simpa only [ledgerOf, queueStep, vwasmQueueRegister_queued] using h.ledger
  | enqueue attached valid mem queueId dataPtr dataSize msgAlloc dataAlloc =>
    exact h.enqueue attached valid mem queueId dataPtr dataSize msgAlloc dataAlloc
  | dequeue call attached queueId retData retSize =>
    exact h.dequeue call attached queueId retData retSize
  | handOver call valid allocator mem =>
    rcases hfind : w.pending.find? (fun p => p.call == call) with _ | p
    · simpa only [queueStep, hfind] using h
    · simpa only [queueStep, hfind] using
        h.handOver p (List.mem_of_find?_eq_some hfind) valid allocator mem

end WorldInv

theorem worldInv_after (steps : List QueueStep) : WorldInv (after queueStep {} steps) :=
  after_invariant queueStep WorldInv (fun _ s h => h.step s) {} worldInv_new steps

/-- No queued message is ever longer than an enqueue accepts. -/
theorem messagesFit_after (steps : List QueueStep) :
    MessagesFit (after queueStep {} steps).store :=
  (worldInv_after steps).messagesFit

/-- A step drops a message exactly when it is a hand-over that cannot be made. -/
theorem dropped_step (w : QueueWorld) (h : WorldInv w) (s : QueueStep) :
    w.dropped <+: (queueStep w s).2.dropped ∧
      ((queueStep w s).2.dropped = w.dropped ↔ HandsOver w s) := by
  have hsame (hdropped : (queueStep w s).2.dropped = w.dropped) (hover : HandsOver w s) :
      w.dropped <+: (queueStep w s).2.dropped ∧
        ((queueStep w s).2.dropped = w.dropped ↔ HandsOver w s) :=
    ⟨hdropped.symm ▸ List.prefix_rfl, fun _ => hover, fun _ => hdropped⟩
  cases s with
  | register name queueAlloc nameAlloc => exact hsame rfl trivial
  | enqueue attached valid mem queueId dataPtr dataSize msgAlloc dataAlloc =>
    refine hsame ?_ trivial
    simp only [queueStep, QueueWorld.enqueue]
    split <;> rfl
  | dequeue call attached queueId retData retSize =>
    refine hsame ?_ trivial
    simp only [queueStep, QueueWorld.dequeue]
    split
    · rfl
    · split <;> rfl
  | handOver call valid allocator mem =>
    rcases hfind : w.pending.find? (fun p => p.call == call) with _ | p
    · refine hsame ?_ fun p hp => ?_
      · simp only [queueStep, hfind]
      · rw [hfind] at hp
        contradiction
    · have hsmall : p.msg.data.length ≤ queueMaxMsg :=
        h.small _ (h.mem_accepted p (List.mem_of_find?_eq_some hfind))
      have hlen : p.msg.data.length < 2 ^ 32 := by
        rw [queueMaxMsg] at hsmall
        omega
      have hiff := pwReturnBytes_iff valid allocator mem p.msg.data p.retData p.retSize hlen
      have hover : HandsOver w (.handOver call valid allocator mem) ↔
          CanHandOver valid allocator mem p.msg.data p.retData p.retSize := by
        simp [HandsOver, hfind]
      rw [hover, ← hiff]
      simp only [queueStep, hfind, QueueWorld.handOver]
      rcases (pwReturnBytes valid allocator mem p.msg.data p.retData p.retSize).1 with _ | _
      · simp
      · simp

/-- Every message accepted is in its queue, in the hands of one dequeue in
progress, or delivered to one dequeue, at every moment of a run exactly when no
dequeue of the run meets a result pointer out of range or an allocation that
fails or is out of range. -/
theorem deliveries_accounted_iff (steps : List QueueStep) :
    (∀ pre, pre <+: steps → Accounted (ledgerOf (after queueStep {} pre))) ↔
      InOrder queueStep HandsOver {} steps := by
  have hdropped (pre : List QueueStep) :
      Accounted (ledgerOf (after queueStep {} pre)) ↔ (after queueStep {} pre).dropped = [] := by
    rw [accounted_iff _ (worldInv_after pre).ledger]
    exact Multiset.coe_eq_zero _
  simp only [hdropped]
  constructor
  · intro h pre s hpre
    refine (dropped_step _ (worldInv_after pre) s).2.mp ?_
    rw [← after_snoc, h _ hpre, h pre ((List.prefix_append ..).trans hpre)]
  · intro h pre hpre
    obtain ⟨rest, rfl⟩ := hpre
    have hpre := h.left
    clear h
    induction pre using List.reverseRecOn with
    | nil => rfl
    | append_singleton pre s ih =>
      rw [after_snoc, (dropped_step _ (worldInv_after pre) s).2.mpr hpre.last]
      exact ih hpre.left

/-- Where no dequeue is in progress, every message accepted is in its queue or
has been delivered, once. -/
theorem accounted_atRest (w : QueueWorld) (h : Accounted (ledgerOf w)) (hrest : w.pending = [])
    (t : ℕ × QueueMsg) (ht : t ∈ w.accepted) :
    (ledgerOf w).waiting.count t + (ledgerOf w).delivered.count t = 1 := by
  have hcount := h t ht
  have hcarried : (ledgerOf w).carried = 0 := by simp [ledgerOf, hrest]
  rwa [hcarried, Multiset.count_zero, Nat.add_zero] at hcount

/-- A message is enqueued and dequeued with a result pointer behind the end of
the memory. -/
def badPointer : List QueueStep :=
  [.register (ascii "q") true true, .enqueue true true (ascii "job") 1 0 3 true true,
    .dequeue 0 true 1 8 4, .handOver 0 true (some fun mem _ => (some 0, mem)) (List.replicate 8 0)]

theorem badPointer_drops :
    answer queueStep {} (badPointer.take 1) badPointer[1] = some .ok ∧
    answer queueStep {} (badPointer.take 3) badPointer[3] = some .internal ∧
    (after queueStep {} badPointer).accepted = [(1, ⟨0, ascii "job"⟩)] ∧
    queued (after queueStep {} badPointer).store = [] ∧
    (after queueStep {} badPointer).pending = [] ∧
    (after queueStep {} badPointer).delivered = [] ∧
    ¬ Accounted (ledgerOf (after queueStep {} badPointer)) := by
  have haccepted : (after queueStep {} badPointer).accepted = [(1, ⟨0, ascii "job"⟩)] := by
    decide +kernel
  have hqueued : queued (after queueStep {} badPointer).store = [] := by decide +kernel
  have hpending : (after queueStep {} badPointer).pending = [] := by decide +kernel
  have hdelivered : (after queueStep {} badPointer).delivered = [] := by decide +kernel
  refine ⟨by decide +kernel, by decide +kernel, haccepted, hqueued, hpending, hdelivered, ?_⟩
  intro h
  have hcount := h (1, ⟨0, ascii "job"⟩) (by simp [ledgerOf, haccepted])
  simp [ledgerOf, hqueued, hpending, hdelivered] at hcount

end VmodWasm.QueueDelivery
