import VmodWasm.ProxyCalls

/-!
The names of shared queues, as guests register and resolve them. A name is any
byte string, but is stored and compared as a C string: a queue registered under
a name with a NUL byte is found by the part before it. A registration writes the
id to the guest after it has made the queue, so one that fails there has made a
queue all the same.
-/
namespace VmodWasm.QueueNames

open ByteStrings ByteSearch GuestMemory ProxyContext SharedQueue Lib.Mealy
open CheckedHelpers HelperBodies

section Host

/-- The end of both functions: the id goes to the guest. -/
def returnId (valid : Bool) (mem : Bytes) (retId : UInt32) (id : ℕ) : ProxyStatus × Bytes :=
  match pwWriteU32 valid mem retId id with
  | none => (.internal, mem)
  | some mem => (.ok, mem)

/-- `pw_proxy_register_shared_queue`: the status, the memory it leaves, and the
store. -/
def pwProxyRegisterSharedQueue (qs : QueueStore) (valid : Bool) (mem : Bytes)
    (namePtr nameSize retId : UInt32) (queueAlloc nameAlloc : Bool) :
    (ProxyStatus × Bytes) × QueueStore :=
  match pwReadString valid mem namePtr nameSize queueMaxName with
  | none => ((.badArgument, mem), qs)
  | some name =>
    let r := vwasmQueueRegister qs name queueAlloc nameAlloc
    if r.1 = 0 then ((.internal, mem), r.2) else (returnId valid mem retId r.1, r.2)

/-- `pw_proxy_resolve_shared_queue`. -/
def pwProxyResolveSharedQueue (qs : QueueStore) (valid : Bool) (mem : Bytes)
    (vmPtr vmSize namePtr nameSize retId : UInt32) : ProxyStatus × Bytes :=
  match pwReadString valid mem vmPtr vmSize 256 with
  | none => (.badArgument, mem)
  | some _ =>
    match pwReadString valid mem namePtr nameSize queueMaxName with
    | none => (.badArgument, mem)
    | some name =>
      let id := vwasmQueueResolve qs name
      if id = 0 then (.notFound, mem) else returnId valid mem retId id

/-- The functions as their helper calls give the guest the same. -/
theorem pwProxyRegisterSharedQueue_eval (qs : QueueStore) (side : GuestSide) (mem : Bytes)
    (namePtr nameSize retId : UInt32) (queueAlloc nameAlloc : Bool) :
    (ProxyCalls.pwProxyRegisterSharedQueue (some qs) queueAlloc nameAlloc namePtr nameSize
        retId).eval side mem =
      (pwProxyRegisterSharedQueue qs side.valid mem namePtr nameSize retId queueAlloc
        nameAlloc).1 := by
  simp only [ProxyCalls.pwProxyRegisterSharedQueue, pwProxyRegisterSharedQueue,
    HelperBody.eval_string]
  rcases pwReadString side.valid mem namePtr nameSize queueMaxName with _ | name
  · rfl
  · dsimp only
    split
    · rfl
    · rw [HelperBody.eval_u32, returnId]
      rcases pwWriteU32 side.valid mem retId _ with _ | mem' <;> rfl

theorem pwProxyResolveSharedQueue_eval (qs : QueueStore) (side : GuestSide) (mem : Bytes)
    (vmPtr vmSize namePtr nameSize retId : UInt32) :
    (ProxyCalls.pwProxyResolveSharedQueue (some qs) vmPtr vmSize namePtr nameSize retId).eval
        side mem =
      pwProxyResolveSharedQueue qs side.valid mem vmPtr vmSize namePtr nameSize retId := by
  simp only [ProxyCalls.pwProxyResolveSharedQueue, pwProxyResolveSharedQueue,
    HelperBody.eval_string]
  rcases pwReadString side.valid mem vmPtr vmSize 256 with _ | vm
  · rfl
  · rcases pwReadString side.valid mem namePtr nameSize queueMaxName with _ | name
    · rfl
    · dsimp only
      split
      · rfl
      · rw [HelperBody.eval_u32, returnId]
        rcases pwWriteU32 side.valid mem retId _ with _ | mem' <;> rfl

end Host

/-- A call of `proxy_register_shared_queue`: the guest's memory and arguments,
and what the allocator does. -/
structure Registration where
  valid : Bool := true
  mem : Bytes
  namePtr : UInt32
  nameSize : UInt32
  retId : UInt32
  queueAlloc : Bool := true
  nameAlloc : Bool := true

/-- A call of `proxy_resolve_shared_queue`. -/
structure Resolution where
  valid : Bool := true
  mem : Bytes
  vmPtr : UInt32
  vmSize : UInt32
  namePtr : UInt32
  nameSize : UInt32
  retId : UInt32

def Registration.name (r : Registration) : Option Bytes :=
  pwReadString r.valid r.mem r.namePtr r.nameSize queueMaxName

inductive NameCall where
  | register (r : Registration)
  | resolve (r : Resolution)

/-- The store, with the names whose registration was answered with `PROXY_OK`, in
the order of their first ones. -/
structure Directory where
  store : QueueStore := {}
  names : List Bytes := []

scoped instance decidableMemName (name : Bytes) (names : List Bytes) : Decidable (name ∈ names) :=
  decidable_of_iff (names.contains name = true) List.contains_iff_mem

/-- The names after a registration of `name`, by its answer. -/
def noted (names : List Bytes) (name : Option Bytes) (status : ProxyStatus) : List Bytes :=
  match name, status with
  | some name, .ok => if name ∈ names then names else names ++ [name]
  | _, _ => names

def nameCall (d : Directory) : NameCall → (ProxyStatus × Bytes) × Directory
  | .register r =>
    let done := pwProxyRegisterSharedQueue d.store r.valid r.mem r.namePtr r.nameSize r.retId
      r.queueAlloc r.nameAlloc
    (done.1, ⟨done.2, noted d.names r.name done.1.1⟩)
  | .resolve r =>
    (pwProxyResolveSharedQueue d.store r.valid r.mem r.vmPtr r.vmSize r.namePtr r.nameSize r.retId,
      d)

abbrev directoryAfter (calls : List NameCall) : Directory := after nameCall {} calls

/-- The place of a name in the order of registration, from 1; 0 for others. -/
def idOf (names : List Bytes) (name : Bytes) : ℕ :=
  if name ∈ names then names.idxOf name + 1 else 0

/-- In a history of calls the ids name the queues: between any two calls every name
resolves to its place in the order of registration, and to nothing if it was not
registered; registrations return that place, and those that are refused change
nothing. -/
structure NamesQueues (calls : List NameCall) : Prop where
  known : ∀ pre name, pre <+: calls → name ≠ [] →
    vwasmQueueResolve (directoryAfter pre).store name = idOf (directoryAfter pre).names name
  distinct : ∀ pre name name', pre <+: calls → name ∈ (directoryAfter pre).names →
    idOf (directoryAfter pre).names name = idOf (directoryAfter pre).names name' → name = name'
  bounded : ∀ pre, pre <+: calls → (directoryAfter pre).names.length ≤ queueMaxCount
  registered : ∀ pre r name mem', pre ++ [.register r] <+: calls → r.name = some name →
    answer nameCall {} pre (.register r) = (.ok, mem') →
    pwWriteU32 r.valid r.mem r.retId (idOf (directoryAfter (pre ++ [.register r])).names name) =
      some mem'
  resolved : ∀ pre (r : Resolution) vm name, pre ++ [.resolve r] <+: calls →
    pwReadString r.valid r.mem r.vmPtr r.vmSize 256 = some vm →
    pwReadString r.valid r.mem r.namePtr r.nameSize queueMaxName = some name → name ≠ [] →
    answer nameCall {} pre (.resolve r) =
      if name ∈ (directoryAfter pre).names then
        returnId r.valid r.mem r.retId (idOf (directoryAfter pre).names name)
      else (.notFound, r.mem)
  refused : ∀ pre r, pre ++ [.register r] <+: calls →
    (answer nameCall {} pre (.register r)).1 ≠ .ok →
    (directoryAfter (pre ++ [.register r])).store = (directoryAfter pre).store

/-- If the call adds a queue, its name has no NUL byte and the guest gets the id. -/
def AddsPlainly (d : Directory) : NameCall → Prop
  | .register r => ∀ name, r.name = some name →
      (vwasmQueueRegister d.store name r.queueAlloc r.nameAlloc).2 ≠ d.store →
      0 ∉ name ∧ pwValidateRegion r.valid r.mem r.retId 4 = true
  | .resolve _ => True

section Lookup

/-- The queues that a list of names makes, newest first. -/
def entriesOf (names : List Bytes) : List (Bytes × ℕ) :=
  ((names.zipIdx 1).map fun e => (e.1 ++ [0], e.2)).reverse

theorem entriesOf_snoc (names : List Bytes) (name : Bytes) :
    entriesOf (names ++ [name]) = (name ++ [0], names.length + 1) :: entriesOf names := by
  rw [entriesOf, List.zipIdx_append, List.map_append, List.reverse_append, Nat.add_comm]
  rfl

theorem cstrMatches_terminated (name name' : Bytes) (h : 0 ∉ name) :
    cstrMatches (name ++ [0]) name' = decide (name = name') := by
  rw [Bool.eq_iff_iff, cstrMatches_iff, cstr_append_nul, cstr_eq_self h, decide_eq_true_eq]

theorem idOf_snoc (names : List Bytes) (name name' : Bytes) (hnew : name ∉ names) :
    idOf (names ++ [name]) name' =
      if name = name' then names.length + 1 else idOf names name' := by
  by_cases heq : name = name'
  · subst heq
    simp [idOf, List.idxOf_append, hnew]
  · by_cases hmem : name' ∈ names
    · simp [idOf, List.idxOf_append, hmem, heq]
    · simp [idOf, hmem, heq, Ne.symm heq]

theorem idOf_eq_zero_iff (names : List Bytes) (name : Bytes) :
    idOf names name = 0 ↔ name ∉ names := by
  rw [idOf]
  split <;> simp_all

/-- Different names have different ids. -/
theorem idOf_inj {names : List Bytes} {name name' : Bytes} (hmem : name ∈ names)
    (h : idOf names name = idOf names name') : name = name' := by
  rw [idOf, if_pos hmem, idOf] at h
  split at h
  · exact (List.idxOf_inj hmem).mp (Nat.succ.inj h)
  · contradiction

/-- Looking for a name among the entries finds its id. -/
theorem find_entriesOf (names : List Bytes) (hnodup : names.Nodup) (hplain : ∀ n ∈ names, 0 ∉ n)
    (name : Bytes) :
    (((entriesOf names).find? fun e => cstrMatches e.1 name).map Prod.snd).getD 0 =
      idOf names name := by
  induction names using List.reverseRecOn with
  | nil => rfl
  | append_singleton names n ih =>
    rw [List.nodup_append] at hnodup
    have hnew : n ∉ names := fun hmem => hnodup.2.2 n hmem n (List.mem_singleton_self n) rfl
    have hn : 0 ∉ n := hplain n (by simp)
    rw [entriesOf_snoc, idOf_snoc names n name hnew, List.find?_cons,
      cstrMatches_terminated n name hn]
    by_cases heq : n = name
    · simp [heq]
    · simpa [heq] using ih hnodup.1 fun n' hn' => hplain n' (by simp [hn'])

end Lookup

/-- The store holds the registered names, in order. -/
structure Listed (d : Directory) : Prop where
  queues : d.store.queues.map (fun q => (q.name, q.id)) = entriesOf d.names
  nextId : d.store.nextId = d.names.length + 1
  nodup : d.names.Nodup
  plain : ∀ name ∈ d.names, 0 ∉ name
  bounded : d.names.length ≤ queueMaxCount

/-- The ids count down from the newest queue to 1. -/
theorem Listed.ids {d : Directory} (h : Listed d) :
    d.store.queues.map Queue.id = (List.range' 1 d.names.length).reverse := by
  have hids := congrArg (List.map Prod.snd) h.queues
  rw [List.map_map, entriesOf, List.map_reverse, List.map_map] at hids
  exact hids.trans (congrArg List.reverse (List.zipIdx_map_snd ..))

/-- A new queue, under a name that has none. -/
theorem Listed.add {d : Directory} (h : Listed d) (name : Bytes) (hfresh : name ∉ d.names)
    (hnul : 0 ∉ name) (hroom : d.store.nextId ≤ queueMaxCount) :
    Listed ⟨⟨{ name := name ++ [0], id := d.store.nextId } :: d.store.queues, d.store.nextId + 1⟩,
      d.names ++ [name]⟩ where
  queues := by
    rw [entriesOf_snoc, ← h.queues, ← h.nextId]
    rfl
  nextId := by rw [h.nextId, List.length_append, List.length_singleton]
  nodup := by
    refine List.nodup_append.mpr ⟨h.nodup, List.nodup_singleton _, ?_⟩
    intro n hn n' hn' heq
    rw [List.mem_singleton.mp hn'] at heq
    exact hfresh (heq ▸ hn)
  plain n hn := by
    rcases List.mem_append.mp hn with hold | hlast
    · exact h.plain n hold
    · rwa [List.mem_singleton.mp hlast]
  bounded := by
    rw [List.length_append, List.length_singleton, ← h.nextId]
    exact hroom

theorem Listed.find {d : Directory} (h : Listed d) (name : Bytes) :
    ((d.store.queues.find? (nameMatches name)).map Queue.id).getD 0 = idOf d.names name := by
  rw [← find_entriesOf d.names h.nodup h.plain, ← h.queues, List.find?_map, Option.map_map]
  rfl

theorem Listed.resolve {d : Directory} (h : Listed d) (name : Bytes) (hname : name ≠ []) :
    vwasmQueueResolve d.store name = idOf d.names name := by
  rw [← h.find name, vwasmQueueResolve, if_neg hname]
  rcases d.store.queues.find? (nameMatches name) with _ | q <;> rfl

/-- What a registration does. -/
theorem vwasmQueueRegister_cases (qs : QueueStore) (name : Bytes) (queueAlloc nameAlloc : Bool) :
    vwasmQueueRegister qs name queueAlloc nameAlloc = (0, qs) ∨
    (∃ q, qs.queues.find? (nameMatches name) = some q ∧
      vwasmQueueRegister qs name queueAlloc nameAlloc = (q.id, qs)) ∨
    (qs.queues.find? (nameMatches name) = none ∧ qs.nextId ≤ queueMaxCount ∧
      vwasmQueueRegister qs name queueAlloc nameAlloc =
        (qs.nextId, ⟨{ name := name ++ [0], id := qs.nextId } :: qs.queues, qs.nextId + 1⟩)) := by
  unfold vwasmQueueRegister
  split
  · exact Or.inl rfl
  · split
    · exact Or.inl rfl
    · split
      next q hfind => exact Or.inr (Or.inl ⟨q, hfind, rfl⟩)
      next hfind =>
        split
        · exact Or.inl rfl
        next hroom =>
          split
          · exact Or.inl rfl
          · split
            · exact Or.inl rfl
            · exact Or.inr (Or.inr ⟨hfind, by omega, rfl⟩)

theorem pwWriteU32_isSome (valid : Bool) (mem : Bytes) (offset : UInt32) (value : ℕ) :
    (pwWriteU32 valid mem offset value).isSome = pwValidateRegion valid mem offset 4 := by
  rw [pwWriteU32]
  split <;> simp_all

theorem nameCall_unread (d : Directory) (r : Registration) (h : r.name = none) :
    nameCall d (.register r) = ((.badArgument, r.mem), d) := by
  have hread : pwReadString r.valid r.mem r.namePtr r.nameSize queueMaxName = none := h
  rw [nameCall, pwProxyRegisterSharedQueue, hread, h]
  rfl

theorem nameCall_read (d : Directory) (r : Registration) (name : Bytes) (h : r.name = some name)
    (id : ℕ) (qs : QueueStore)
    (hregister : vwasmQueueRegister d.store name r.queueAlloc r.nameAlloc = (id, qs)) :
    nameCall d (.register r) =
      if id = 0 then ((.internal, r.mem), ⟨qs, d.names⟩)
      else (returnId r.valid r.mem r.retId id,
        ⟨qs, noted d.names (some name) (returnId r.valid r.mem r.retId id).1⟩) := by
  have hread : pwReadString r.valid r.mem r.namePtr r.nameSize queueMaxName = some name := h
  rw [nameCall, pwProxyRegisterSharedQueue, hread, h]
  dsimp only
  rw [hregister]
  dsimp only
  split <;> rfl

/-- A registration as it should be: the store stays listed, an id that is returned
is that of the name, and without one the store is as it was. -/
structure Registers (d : Directory) (r : Registration) : Prop where
  listed : Listed (nameCall d (.register r)).2
  returned : ∀ name mem', r.name = some name → (nameCall d (.register r)).1 = (.ok, mem') →
    pwWriteU32 r.valid r.mem r.retId (idOf (nameCall d (.register r)).2.names name) = some mem'
  refused : (nameCall d (.register r)).1.1 ≠ .ok → (nameCall d (.register r)).2.store = d.store

theorem Listed.unchanged {d : Directory} (h : Listed d) {r : Registration}
    {answered : ProxyStatus × Bytes} (hcall : nameCall d (.register r) = (answered, d))
    (hreturned : ∀ name mem', r.name = some name → answered = (.ok, mem') →
      pwWriteU32 r.valid r.mem r.retId (idOf d.names name) = some mem') : Registers d r := by
  constructor
  · rwa [hcall]
  · rwa [hcall]
  · intro _
    rw [hcall]

theorem noted_mem {names : List Bytes} {name : Bytes} (hmem : name ∈ names) (status : ProxyStatus) :
    noted names (some name) status = names := by
  cases status with
  | ok => exact if_pos hmem
  | _ => rfl

theorem mem_noted (names : List Bytes) (name : Bytes) : name ∈ noted names (some name) .ok := by
  rw [noted]
  split
  next hmem => exact hmem
  next => exact List.mem_append_right _ (List.mem_singleton_self name)

theorem returnId_ok {valid : Bool} {mem mem' : Bytes} {retId : UInt32} {id : ℕ}
    (h : returnId valid mem retId id = (.ok, mem')) : pwWriteU32 valid mem retId id = some mem' := by
  rw [returnId] at h
  rcases hwrite : pwWriteU32 valid mem retId id with _ | written
  · simp [hwrite] at h
  · simp only [hwrite] at h
    rw [(Prod.mk.inj h).2]

theorem Listed.register {d : Directory} (h : Listed d) (r : Registration)
    (hadds : AddsPlainly d (.register r)) : Registers d r := by
  rcases hname : r.name with _ | name
  · exact h.unchanged (nameCall_unread d r hname) fun _ _ _ hok => by simp at hok
  · have hid := h.find name
    rcases vwasmQueueRegister_cases d.store name r.queueAlloc r.nameAlloc with
      hrefused | ⟨q, hfind, hfound⟩ | ⟨hfind, hroom, hnew⟩
    · exact h.unchanged (nameCall_read d r name hname _ _ hrefused) fun _ _ _ hok => by simp at hok
    · have hcall := nameCall_read d r name hname _ _ hfound
      rw [hfind, Option.map_some, Option.getD_some] at hid
      by_cases hzero : q.id = 0
      · rw [if_pos hzero] at hcall
        exact h.unchanged hcall fun _ _ _ hok => by simp at hok
      · -- a name that is found was registered before
        have hmem : name ∈ d.names := by
          by_contra hnot
          exact hzero (hid.trans ((idOf_eq_zero_iff d.names name).mpr hnot))
        rw [if_neg hzero, noted_mem hmem] at hcall
        refine h.unchanged hcall fun name' mem' hname' hok => ?_
        rw [hname, Option.some.injEq] at hname'
        rw [← hname', ← hid]
        exact returnId_ok hok
    · have hcall := nameCall_read d r name hname _ _ hnew
      rw [hfind, Option.map_none, Option.getD_none] at hid
      have hfresh : name ∉ d.names := (idOf_eq_zero_iff d.names name).mp hid.symm
      obtain ⟨hnul, hwritable⟩ := hadds name hname (by
        rw [hnew]
        intro hsame
        exact absurd (congrArg (fun qs => qs.queues.length) hsame) (by simp))
      obtain ⟨written, hwrite⟩ := Option.isSome_iff_exists.mp
        ((pwWriteU32_isSome r.valid r.mem r.retId d.store.nextId).trans hwritable)
      have hlen := h.nextId
      rw [if_neg (by omega), returnId, hwrite] at hcall
      have hnoted : noted d.names (some name) .ok = d.names ++ [name] := if_neg hfresh
      dsimp only at hcall
      rw [hnoted] at hcall
      constructor
      · rw [hcall]
        exact h.add name hfresh hnul hroom
      · intro name' mem' hname' hok
        rw [hcall] at hok ⊢
        rw [hname, Option.some.injEq] at hname'
        rw [← hname', idOf_snoc d.names name name hfresh, if_pos rfl, ← hlen, hwrite]
        exact congrArg some (Prod.mk.inj hok).2
      · intro hno
        rw [hcall] at hno
        exact absurd rfl hno

theorem listed_after (calls : List NameCall) (h : InOrder nameCall AddsPlainly {} calls) :
    Listed (directoryAfter calls) := by
  induction calls using List.reverseRecOn with
  | nil => exact ⟨rfl, rfl, List.nodup_nil, fun _ h => absurd h List.not_mem_nil, Nat.zero_le _⟩
  | append_singleton calls call ih =>
    rw [directoryAfter, after_snoc]
    cases call with
    | register r => exact ((ih h.left).register r h.last).listed
    | resolve r => exact ih h.left

/-- A name with a NUL byte is never found. -/
theorem vwasmQueueResolve_nul (qs : QueueStore) (name : Bytes) (h : 0 ∈ name) :
    vwasmQueueResolve qs name = 0 := by
  have hnone : qs.queues.find? (nameMatches name) = none := by
    refine List.find?_eq_none.mpr fun q _ hmatches => ?_
    rw [nameMatches, cstrMatches_iff] at hmatches
    rw [← hmatches] at h
    exact nul_notMem_cstr q.name h
  rw [vwasmQueueResolve, hnone]
  split <;> rfl

/-- The ids name the queues exactly if every registration that adds a queue has a
name without NUL bytes and a place for the id. -/
theorem namesQueues_iff (calls : List NameCall) :
    NamesQueues calls ↔ InOrder nameCall AddsPlainly {} calls := by
  constructor
  · intro h pre call hpre
    cases call with
    | resolve r => trivial
    | register r =>
      intro name hname hadds
      rcases hregister : vwasmQueueRegister (directoryAfter pre).store name r.queueAlloc r.nameAlloc
        with ⟨id, qs⟩
      replace hadds : qs ≠ (directoryAfter pre).store := by rwa [hregister] at hadds
      have hcall := nameCall_read (directoryAfter pre) r name hname id qs hregister
      have hok : (answer nameCall {} pre (.register r)).1 = .ok := by
        by_contra hno
        have hsame := h.refused pre r hpre hno
        rw [directoryAfter, after_snoc, hcall] at hsame
        split at hsame
        · exact hadds hsame
        · exact hadds hsame
      rw [answer, hcall] at hok
      split at hok
      · contradiction
      next hid =>
        have hwrite := returnId_ok (Prod.ext hok rfl)
        refine ⟨fun hnul => ?_, ?_⟩
        · -- the name was registered, and yet it is not found
          have hknown := h.known _ name hpre (by rintro rfl; contradiction)
          rw [vwasmQueueResolve_nul _ name hnul, directoryAfter, after_snoc, hcall, if_neg hid,
            hok] at hknown
          exact (idOf_eq_zero_iff _ name).mp hknown.symm (mem_noted _ name)
        · rw [← pwWriteU32_isSome, hwrite, Option.isSome_some]
  · intro h
    have hlisted (pre : List NameCall) (hpre : pre <+: calls) : Listed (directoryAfter pre) :=
      listed_after pre fun pre' call hpre' => h pre' call (hpre'.trans hpre)
    have hregisters (pre : List NameCall) (r : Registration) (hpre : pre ++ [.register r] <+: calls) :
        Registers (directoryAfter pre) r :=
      (hlisted pre ((List.prefix_append ..).trans hpre)).register r (h pre _ hpre)
    constructor
    · intro pre name hpre hname
      exact (hlisted pre hpre).resolve name hname
    · intro pre name name' hpre hmem hid
      exact idOf_inj hmem hid
    · intro pre hpre
      exact (hlisted pre hpre).bounded
    · intro pre r name mem' hpre hname hok
      rw [directoryAfter, after_snoc]
      exact (hregisters pre r hpre).returned name mem' hname hok
    · intro pre r vm name hpre hvm hread hname
      have hknown := (hlisted pre ((List.prefix_append ..).trans hpre)).resolve name hname
      rw [answer, nameCall, pwProxyResolveSharedQueue, hvm, hread]
      dsimp only
      rw [hknown]
      by_cases hmem : name ∈ (directoryAfter pre).names
      · rw [if_pos hmem, if_neg (mt (idOf_eq_zero_iff _ name).mp (not_not.mpr hmem))]
      · rw [if_neg hmem, if_pos ((idOf_eq_zero_iff _ name).mpr hmem)]
    · intro pre r hpre hrefused
      rw [directoryAfter, after_snoc]
      exact (hregisters pre r hpre).refused hrefused

/-- A registration from a memory that holds the name and, if it is not elsewhere,
has the place for the id behind it. -/
def registerName (name : Bytes) (retId : UInt32) : NameCall :=
  .register { mem := name ++ [0, 0, 0, 0], namePtr := 0, nameSize := UInt32.ofNat name.length,
              retId := retId }

def resolveName (name : Bytes) : NameCall :=
  .resolve { mem := name ++ [0, 0, 0, 0], vmPtr := 0, vmSize := 0, namePtr := 0
             nameSize := UInt32.ofNat name.length, retId := UInt32.ofNat name.length }

/-- The name `a\0b` gets an id, which `a` gets as well, and is not found by itself;
and a registration that is refused for want of a place for the id has made the
queue. -/
theorem registerName_confused :
    answer nameCall {} [] (registerName [0x61, 0, 0x62] 3) =
        (.ok, [0x61, 0, 0x62] ++ u32Bytes 1) ∧
      answer nameCall {} [registerName [0x61, 0, 0x62] 3] (registerName [0x61] 1) =
        (.ok, [0x61] ++ u32Bytes 1) ∧
      (answer nameCall {} [registerName [0x61, 0, 0x62] 3] (resolveName [0x61, 0, 0x62])).1 =
        .notFound ∧
      (answer nameCall {} [] (registerName [0x71] 9)).1 = .internal ∧
      answer nameCall {} [registerName [0x71] 9] (resolveName [0x71]) =
        (.ok, [0x71] ++ u32Bytes 1) ∧
      ¬ NamesQueues [registerName [0x61, 0, 0x62] 3] ∧ ¬ NamesQueues [registerName [0x71] 9] := by
  refine ⟨by decide +kernel, by decide +kernel, by decide +kernel, by decide +kernel,
    by decide +kernel, ?_, ?_⟩
  · intro h
    exact absurd (h.known _ [0x61, 0, 0x62] List.prefix_rfl (by decide)) (by decide +kernel)
  · intro h
    exact absurd (h.known _ [0x71] List.prefix_rfl (by decide)) (by decide +kernel)

end VmodWasm.QueueNames
