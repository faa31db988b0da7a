import VmodWasm.Lib.Sections
import VmodWasm.SharedData

/-!
The shared data in memory, used by many activations of the host functions at once.
A set copies the value before it takes the lock and frees what it could not store
after it has released the lock; a get leaves its caller with a copy. Between these
points other activations run. The entries, keys, values and copies are blocks, and
whatever the interleaving the store in memory is the store of SharedData, called
once for each time the lock was taken.
-/
namespace VmodWasm.SharedBlocks

open ByteStrings ByteSearch SharedData Lib.Blocks Lib.HashChains Lib.Mealy Lib.Transition
  Lib.Sections

/-- `struct vwasm_shared_entry` with its own block; the length of the value is that
of its block. -/
structure EntryNode where
  node : ℕ
  key : ℕ
  value : Option ℕ
  cas : UInt32

structure BlockStore where
  block : ℕ
  buckets : Fin sharedDataBuckets → List EntryNode

def vwasmSharedDataNew (alloc lockInit : Bool) : Mem Bytes (Option BlockStore) :=
  if alloc = false then pure none
  else do
    let block ← malloc []
    if lockInit = false then do
      free block
      pure none
    else pure (some ⟨block, fun _ => []⟩)

def freeEntry (n : EntryNode) : Mem Bytes Unit := do
  let _ ← load n.node
  free n.key
  freeOpt n.value
  free n.node

def vwasmSharedDataDestroy (sd : BlockStore) : Mem Bytes Unit := do
  forEach (forEach freeEntry) (List.ofFn sd.buckets)
  free sd.block

def keyIs (key : Bytes) (n : EntryNode) : Mem Bytes Bool := do
  let _ ← load n.node
  let stored ← load n.key
  pure (cstrMatches stored key)

/-- The walk along a chain: the place of the entry. -/
def findEntry (key : Bytes) : List EntryNode → Mem Bytes (Option ℕ) := search (keyIs key)

/-- An activation between two of its sections: before the lock of a set, after the
lock of a set that did not store its value, and after a get. -/
inductive Activation where
  | idle
  | setting (key value : Bytes) (cas : UInt32) (env : SetEnv) (newVal : Option ℕ)
  | failed (value : Bytes) (newVal entry : Option ℕ)
  | holding (value : Bytes) (copy : Option ℕ)

abbrev Section := Mem Bytes (Outcome BlockStore Activation SharedCall Answer)

/-- `vwasm_shared_data_set` up to the lock. -/
def beginSet (sd : BlockStore) (key value : Bytes) (cas : UInt32) (env : SetEnv) : Section :=
  let refused : Outcome BlockStore Activation SharedCall Answer :=
    ⟨sd, some (.set key value cas env, .set .error), .idle⟩
  if key = [] then pure refused
  else if sharedDataMaxKey < key.length then pure refused
  else if sharedDataMaxValue < value.length then pure refused
  else if value = [] then pure ⟨sd, none, .setting key value cas env none⟩
  else if env.valueAlloc = false then pure refused
  else do
    let newVal ← malloc value
    pure ⟨sd, none, .setting key value cas env (some newVal)⟩

/-- The entry that is there gets the new value. -/
def replaceValue (sd : BlockStore) (bucket : Fin sharedDataBuckets) (i : ℕ) (n : EntryNode)
    (newVal : Option ℕ) : Mem Bytes BlockStore := do
  freeOpt n.value
  let n' := { n with value := newVal, cas := n.cas + 1 }
  pure { sd with buckets := Function.update sd.buckets bucket ((sd.buckets bucket).set i n') }

/-- What `vwasm_shared_data_set` does under the lock when it has found the entry. -/
def updateFound (sd : BlockStore) (i : ℕ) (n : EntryNode) (key value : Bytes) (cas : UInt32)
    (env : SetEnv) (newVal : Option ℕ) : Section :=
  let call := SharedCall.set key value cas env
  if cas ≠ 0 ∧ n.cas ≠ cas then
    pure ⟨sd, some (call, .set .casMismatch), .failed value newVal none⟩
  else do
    let sd ← replaceValue sd (bucketOf key) i n newVal
    pure ⟨sd, some (call, .set .ok), .idle⟩

/-- What it does when there is none. -/
def insertNew (sd : BlockStore) (key value : Bytes) (cas : UInt32) (env : SetEnv)
    (newVal : Option ℕ) : Section :=
  let call := SharedCall.set key value cas env
  if env.entryAlloc = false then
    pure ⟨sd, some (call, .set .error), .failed value newVal none⟩
  else do
    let node ← malloc []
    if env.keyAlloc = false then
      pure ⟨sd, some (call, .set .error), .failed value newVal (some node)⟩
    else do
      let copy ← malloc (key ++ [0])
      let n : EntryNode := ⟨node, copy, newVal, 1⟩
      let bucket := bucketOf key
      pure ⟨{ sd with buckets := Function.update sd.buckets bucket (n :: sd.buckets bucket) },
        some (call, .set .ok), .idle⟩

/-- `vwasm_shared_data_set` under the lock. -/
def lockedSet (sd : BlockStore) (key value : Bytes) (cas : UInt32) (env : SetEnv)
    (newVal : Option ℕ) : Section := do
  let found ← findEntry key (sd.buckets (bucketOf key))
  match found.bind fun i => (sd.buckets (bucketOf key))[i]?.map fun n => (i, n) with
  | some (i, n) => updateFound sd i n key value cas env newVal
  | none => insertNew sd key value cas env newVal

/-- The copy of a value that was found. -/
def copyFound (sd : BlockStore) (n : EntryNode) (key : Bytes) (alloc : Bool) : Section :=
  match n.value with
  | none => pure ⟨sd, some (.get key alloc, .get (some ([], n.cas))), .holding [] none⟩
  | some v =>
    if alloc = false then pure ⟨sd, some (.get key alloc, .get none), .idle⟩
    else do
      let value ← load v
      let copy ← malloc value
      pure ⟨sd, some (.get key alloc, .get (some (value, n.cas))), .holding value (some copy)⟩

/-- `vwasm_shared_data_get`. -/
def lockedGet (sd : BlockStore) (key : Bytes) (alloc : Bool) : Section :=
  let missing : Outcome BlockStore Activation SharedCall Answer :=
    ⟨sd, some (.get key alloc, .get none), .idle⟩
  if key = [] then pure missing
  else do
    let found ← findEntry key (sd.buckets (bucketOf key))
    match found.bind fun i => (sd.buckets (bucketOf key))[i]? with
    | some n => copyFound sd n key alloc
    | none => pure missing

inductive Action where
  | set (key value : Bytes) (cas : UInt32) (env : SetEnv)
  | lock
  | unlocked
  | get (key : Bytes) (alloc : Bool)
  | handedOver

/-- The sections of `vwasm_shared_data_set`, of `vwasm_shared_data_get`, and the end
of `pw_proxy_get_shared_data`, which reads the copy and frees it on every path. -/
def sections (sd : BlockStore) : Activation → Action → Option Section
  | .idle, .set key value cas env => some (beginSet sd key value cas env)
  | .setting key value cas env newVal, .lock => some (lockedSet sd key value cas env newVal)
  | .failed _ newVal entry, .unlocked => some do
    freeOpt newVal
    freeOpt entry
    pure ⟨sd, none, .idle⟩
  | .idle, .get key alloc => some (lockedGet sd key alloc)
  | .holding _ copy, .handedOver => some do
    let _ ← readOpt copy
    freeOpt copy
    pure ⟨sd, none, .idle⟩
  | _, _ => none

section Specs

variable {sd : BlockStore} {sd' : SharedStore} {P : Multiset (ℕ × Bytes)}

/-- The blocks of an entry. -/
inductive EntryRow : EntryNode → SharedEntry → Multiset (ℕ × Bytes) → Prop
  | mk {n : EntryNode} {e : SharedEntry} {Pv : Multiset (ℕ × Bytes)} (hcas : n.cas = e.cas)
      (hvalue : Cell n.value (nonempty e.value) Pv) :
      EntryRow n e ({(n.node, [])} + ({(n.key, e.key)} + Pv))

/-- The chains in memory are those of a store. -/
inductive Shows : BlockStore → SharedStore → Multiset (ℕ × Bytes) → Prop
  | mk {sd : BlockStore} {sd' : SharedStore} {Pc : Multiset (ℕ × Bytes)}
      (hchains : Listed (Listed EntryRow) (List.ofFn sd.buckets) (List.ofFn sd') Pc) :
      Shows sd sd' ({(sd.block, [])} + Pc)

/-- What an activation keeps between two sections. -/
def Activation.owned : Activation → Multiset (ℕ × Bytes)
  | .idle => 0
  | .setting _ value _ _ newVal => opt value newVal
  | .failed value newVal entry => opt value newVal + opt [] entry
  | .holding value copy => opt value copy

/-- A set that waits for the lock is within the limits and has a block for a value
that is not empty. -/
def Activation.Ok : Activation → Prop
  | .setting key value _ env newVal =>
    Fits key value env ∧ Cell newVal (nonempty value) (opt value newVal)
  | .holding value copy => Cell copy (nonempty value) (opt value copy)
  | _ => True

theorem findEntry_spec (key : Bytes) {ns : List EntryNode} {es : List SharedEntry}
    (h : Listed EntryRow ns es P) :
    Triple P (findEntry key ns) fun r P' => r = es.findIdx? (entryMatches key) ∧ P' = P := by
  refine Triple.search (fun n e P hrow => ?_) h
  obtain ⟨hcas, hvalue⟩ := hrow
  refine Triple.load_bind ?_
  refine Triple.load_mem (v := e.key) (by simp) ?_
  exact Triple.pure ⟨rfl, rfl⟩

theorem ofFn_update {E : Type} {n : ℕ} (f : Fin n → E) (i : Fin n) (e : E) :
    List.ofFn (Function.update f i e) = (List.ofFn f).set i e := by
  refine List.ext_getElem (by simp) fun j hj _ => ?_
  rw [List.getElem_set, List.getElem_ofFn, List.getElem_ofFn, Function.update_apply]
  simp only [Fin.ext_iff, eq_comm]

/-- One chain with its blocks, and the store with another chain in its place. -/
theorem Shows.chain (h : Shows sd sd' P) (b : Fin sharedDataBuckets) :
    ∃ Pc F, P = Pc + F ∧ Listed EntryRow (sd.buckets b) (sd' b) Pc ∧
      ∀ ns es Pc', Listed EntryRow ns es Pc' →
        Shows { sd with buckets := Function.update sd.buckets b ns } (Function.update sd' b es)
          (Pc' + F) := by
  obtain ⟨hchains⟩ := h
  have hb : (List.ofFn sd.buckets)[b.val]? = some (sd.buckets b) := by simp
  have hb' : (List.ofFn sd')[b.val]? = some (sd' b) := by simp
  obtain ⟨es, Pc, F, hes, rfl, hchain, hset⟩ := hchains.set hb
  obtain rfl := Option.some.inj (hb'.symm.trans hes)
  refine ⟨Pc, {(sd.block, [])} + F, add_left_comm .., hchain, fun ns es Pc' hchain' => ?_⟩
  have hnew := hset ns es Pc' hchain'
  rw [← ofFn_update, ← ofFn_update] at hnew
  rw [add_left_comm]
  exact Shows.mk hnew

section Calls

variable {key value : Bytes} {env : SetEnv} {i : ℕ} {e : SharedEntry}

theorem set_found (cas : UInt32) (hfits : Fits key value env)
    (hi : (sd' (bucketOf key)).findIdx? (entryMatches key) = some i)
    (he : (sd' (bucketOf key))[i]? = some e) :
    sharedCall sd' (.set key value cas env) =
      if cas ≠ 0 ∧ e.cas ≠ cas then (.set .casMismatch, sd')
      else (.set .ok, Function.update sd' (bucketOf key)
        ((sd' (bucketOf key)).set i (updateEntry value e))) := by
  obtain ⟨hfind, hset⟩ := modifyFirst_eq_set (entryMatches key) (updateEntry value) hi he
  rw [← hset]
  rw [entryMatches_eq] at hfind ⊢
  have hfound : find bucketOf entryName sd' key = some e := hfind
  rw [sharedCall, vwasmSharedDataSet_eq, if_neg (not_not.mpr hfits), hfound]
  dsimp only
  split <;> rfl

theorem set_missing (cas : UInt32) (hfits : Fits key value env)
    (hi : (sd' (bucketOf key)).findIdx? (entryMatches key) = none) :
    sharedCall sd' (.set key value cas env) =
      if env.entryAlloc && env.keyAlloc then (.set .ok,
        Function.update sd' (bucketOf key) (⟨key ++ [0], value, 1⟩ :: sd' (bucketOf key)))
      else (.set .error, sd') := by
  have hfind := find?_eq_none_of_findIdx? hi
  rw [entryMatches_eq] at hfind
  have hmissing : find bucketOf entryName sd' key = none := hfind
  rw [sharedCall, vwasmSharedDataSet_eq, if_neg (not_not.mpr hfits), hmissing]
  dsimp only
  split <;> rfl

theorem get_found (hkey : key ≠ []) (alloc : Bool)
    (hi : (sd' (bucketOf key)).findIdx? (entryMatches key) = some i)
    (he : (sd' (bucketOf key))[i]? = some e) :
    sharedCall sd' (.get key alloc) =
      (.get (if e.value ≠ [] ∧ alloc = false then none else some (e.value, e.cas)), sd') := by
  obtain ⟨hfind, -⟩ := modifyFirst_eq_set (entryMatches key) id hi he
  rw [sharedCall, vwasmSharedDataGet, if_neg hkey, hfind]

theorem get_missing (alloc : Bool)
    (hi : (sd' (bucketOf key)).findIdx? (entryMatches key) = none) :
    sharedCall sd' (.get key alloc) = (.get none, sd') := by
  rw [sharedCall, vwasmSharedDataGet, find?_eq_none_of_findIdx? hi]
  dsimp only
  rw [ite_self]

end Calls

/-- What a section of the shared data leaves. -/
abbrev Done (sd' : SharedStore) :=
  Leaves sharedCall Shows Activation.owned Activation.Ok sd'

theorem beginSet_spec (h : Shows sd sd' P) (key value : Bytes) (cas : UInt32) (env : SetEnv) :
    Triple P (beginSet sd key value cas env) (Done sd') := by
  have hrefused (hunfit : ¬ Fits key value env) :
      Done sd' ⟨sd, some (.set key value cas env, .set .error), .idle⟩ P := by
    have hcall : sharedCall sd' (.set key value cas env) = (.set .error, sd') := by
      rw [sharedCall, vwasmSharedDataSet_eq, if_pos hunfit]
    exact Leaves.returns hcall h trivial rfl
  unfold beginSet
  dsimp only
  split
  next hkey => exact Triple.pure (hrefused fun hfits => hfits.1 hkey)
  next hkey =>
  split
  next hlen => exact Triple.pure (hrefused fun hfits => Nat.not_lt.mpr hfits.2.1 hlen)
  next hlen =>
  split
  next hvalueLen => exact Triple.pure (hrefused fun hfits => Nat.not_lt.mpr hfits.2.2.1 hvalueLen)
  next hvalueLen =>
  have hfits (hvalue : value = [] ∨ env.valueAlloc = true) : Fits key value env :=
    ⟨hkey, Nat.not_lt.mp hlen, Nat.not_lt.mp hvalueLen, hvalue⟩
  split
  next hnil =>
    exact Triple.pure (Leaves.idle h ⟨hfits (Or.inl hnil), Cell.unfilled hnil⟩ rfl)
  next hne =>
  split
  next hfalse =>
    refine Triple.pure (hrefused fun hfits => ?_)
    rcases hfits.2.2.2 with hnil | htrue
    · exact hne hnil
    · rw [hfalse] at htrue
      contradiction
  next htrue =>
    refine Triple.malloc_bind fun i => Triple.pure ?_
    rw [add_comm]
    exact Leaves.silent h
      ⟨hfits (Or.inr (Bool.eq_true_of_not_eq_false htrue)), Cell.filled i hne⟩

section Set

variable {key value : Bytes} {cas : UInt32} {env : SetEnv} {newVal : Option ℕ}

theorem updateFound_spec {i : ℕ} {n : EntryNode} (h : Shows sd sd' P)
    (hfits : Fits key value env) (hcell : Cell newVal (nonempty value) (opt value newVal))
    (hi : (sd' (bucketOf key)).findIdx? (entryMatches key) = some i)
    (hn : (sd.buckets (bucketOf key))[i]? = some n) :
    Triple (P + opt value newVal) (updateFound sd i n key value cas env newVal) (Done sd') := by
  obtain ⟨Pc, F, rfl, hchain, hstore⟩ := h.chain (bucketOf key)
  obtain ⟨e, Pe, G, he, rfl, hrow, hset⟩ := hchain.set hn
  obtain ⟨hcas, hvalue⟩ := hrow
  rename_i Pv
  have hcall := set_found cas hfits hi he
  unfold updateFound
  dsimp only
  rw [hcas]
  split
  next hmismatch =>
    rw [if_pos hmismatch] at hcall
    refine Triple.pure ?_
    rw [← add_zero (opt value newVal)]
    exact Leaves.answers hcall h trivial
  next hmatch =>
    rw [if_neg hmatch] at hcall
    unfold replaceValue
    simp only [bind_assoc, pure_bind]
    rw [show {(n.node, [])} + ({(n.key, e.key)} + Pv) + G + F + opt value newVal =
      Pv + ({(n.node, [])} + ({(n.key, e.key)} + opt value newVal) + G + F) by abel]
    refine Triple.frees_bind (Triple.freeOpt hvalue) fun _ => Triple.pure ?_
    refine Leaves.returns hcall (hstore _ _ _ (hset _ _ _ ?_)) trivial rfl
    exact EntryRow.mk (by rw [hcas]; rfl) hcell

theorem insertNew_spec (h : Shows sd sd' P) (hfits : Fits key value env)
    (hcell : Cell newVal (nonempty value) (opt value newVal))
    (hi : (sd' (bucketOf key)).findIdx? (entryMatches key) = none) :
    Triple (P + opt value newVal) (insertNew sd key value cas env newVal) (Done sd') := by
  have hcall := set_missing cas hfits hi
  have hfailed (hno : (env.entryAlloc && env.keyAlloc) = false) (node : Option ℕ) :
      Done sd' ⟨sd, some (.set key value cas env, .set .error), .failed value newVal node⟩
        (P + (opt value newVal + opt [] node)) := by
    rw [if_neg (by rw [hno]; exact Bool.false_ne_true)] at hcall
    exact Leaves.answers hcall h trivial
  unfold insertNew
  dsimp only
  split
  next hentry =>
    refine Triple.pure ?_
    rw [← add_zero (opt value newVal)]
    exact hfailed (by rw [hentry]; rfl) none
  next hentry =>
    refine Triple.malloc_bind fun node => ?_
    split
    next hkey =>
      refine Triple.pure ?_
      rw [show {(node, [])} + (P + opt value newVal) = P + (opt value newVal + {(node, [])}) by
        abel]
      exact hfailed (by rw [hkey, Bool.and_false]) (some node)
    next hkey =>
      refine Triple.malloc_bind fun copy => Triple.pure ?_
      rw [if_pos (by rw [Bool.eq_true_of_not_eq_false hentry,
        Bool.eq_true_of_not_eq_false hkey]; rfl)] at hcall
      obtain ⟨Pc, F, rfl, hchain, hstore⟩ := h.chain (bucketOf key)
      rw [show {(copy, key ++ [0])} + ({(node, [])} + (Pc + F + opt value newVal)) =
        {(node, [])} + ({(copy, key ++ [0])} + opt value newVal) + Pc + F by abel]
      have hrow : EntryRow ⟨node, copy, newVal, 1⟩ ⟨key ++ [0], value, 1⟩ _ := EntryRow.mk rfl hcell
      exact Leaves.returns hcall (hstore _ _ _ (Listed.cons hrow hchain)) trivial rfl

theorem lockedSet_spec (h : Shows sd sd' P) (hfits : Fits key value env)
    (hcell : Cell newVal (nonempty value) (opt value newVal)) :
    Triple (P + opt value newVal) (lockedSet sd key value cas env newVal) (Done sd') := by
  obtain ⟨Pc, F, rfl, hchain, -⟩ := h.chain (bucketOf key)
  unfold lockedSet
  rw [add_assoc]
  refine Triple.bind (findEntry_spec key hchain) ?_
  rintro _ _ ⟨rfl, rfl⟩
  rw [← add_assoc]
  cases hi : (sd' (bucketOf key)).findIdx? (entryMatches key) with
  | none => exact insertNew_spec h hfits hcell hi
  | some i =>
    obtain ⟨n, hn⟩ := hchain.exists_of_findIdx? hi
    simp only [Option.bind_some, hn, Option.map_some]
    exact updateFound_spec h hfits hcell hi hn

end Set

theorem copyFound_spec {key : Bytes} {i : ℕ} {n : EntryNode} (h : Shows sd sd' P) (alloc : Bool)
    (hkey : key ≠ []) (hi : (sd' (bucketOf key)).findIdx? (entryMatches key) = some i)
    (hn : (sd.buckets (bucketOf key))[i]? = some n) :
    Triple P (copyFound sd n key alloc) (Done sd') := by
  obtain ⟨Pc, F, rfl, hchain, -⟩ := h.chain (bucketOf key)
  obtain ⟨e, Pe, G, he, rfl, hrow, -⟩ := hchain.set hn
  obtain ⟨hcas, hvalue⟩ := hrow
  rename_i Pv
  have hcall := get_found hkey alloc hi he
  unfold copyFound
  rw [hcas]
  obtain ⟨hnull, hnil, rfl⟩ | ⟨v, hv, hne, rfl⟩ := hvalue.buffer_cases
  · rw [hnull]
    rw [if_neg fun hnot => hnot.1 hnil, hnil] at hcall
    exact Triple.pure (Leaves.returns hcall h Cell.null rfl)
  · rw [hv]
    dsimp only
    split
    next hfalse =>
      rw [if_pos ⟨hne, hfalse⟩] at hcall
      exact Triple.pure (Leaves.returns hcall h trivial rfl)
    next htrue =>
      rw [if_neg fun hnot => htrue hnot.2] at hcall
      refine Triple.load_mem (v := e.value) (by simp) ?_
      refine Triple.malloc_bind fun copy => Triple.pure ?_
      rw [add_comm]
      exact Leaves.answers hcall h (Cell.filled copy hne)

theorem lockedGet_spec (h : Shows sd sd' P) (key : Bytes) (alloc : Bool) :
    Triple P (lockedGet sd key alloc) (Done sd') := by
  have hmissing (hcall : sharedCall sd' (.get key alloc) = (.get none, sd')) :
      Done sd' ⟨sd, some (.get key alloc, .get none), .idle⟩ P :=
    Leaves.returns hcall h trivial rfl
  unfold lockedGet
  dsimp only
  split
  next hnil => exact Triple.pure (hmissing (by rw [sharedCall, vwasmSharedDataGet, if_pos hnil]))
  next hkey =>
    obtain ⟨Pc, F, rfl, hchain, -⟩ := h.chain (bucketOf key)
    refine Triple.bind (findEntry_spec key hchain) ?_
    rintro _ _ ⟨rfl, rfl⟩
    cases hi : (sd' (bucketOf key)).findIdx? (entryMatches key) with
    | none => exact Triple.pure (hmissing (get_missing alloc hi))
    | some i =>
      obtain ⟨n, hn⟩ := hchain.exists_of_findIdx? hi
      simp only [Option.bind_some, hn]
      exact copyFound_spec h alloc hkey hi hn

/-- Every section is right for the store alone. -/
theorem sections_correct :
    Correct sharedCall Shows Activation.owned Activation.Ok sections := by
  intro sd sd' P act a m h hok hm
  unfold sections at hm
  split at hm
  next key value cas env =>
    obtain rfl := Option.some.inj hm
    rw [Activation.owned, add_zero]
    exact beginSet_spec h key value cas env
  next key value cas env newVal =>
    obtain rfl := Option.some.inj hm
    exact lockedSet_spec h hok.1 hok.2
  next value newVal entry =>
    obtain rfl := Option.some.inj hm
    rw [Activation.owned, add_comm, add_assoc]
    exact Triple.freeOpt_bind (Triple.freeOpt_bind (Triple.pure (Leaves.idle h trivial rfl)))
  next key alloc =>
    obtain rfl := Option.some.inj hm
    rw [Activation.owned, add_zero]
    exact lockedGet_spec h key alloc
  next value copy =>
    obtain rfl := Option.some.inj hm
    rw [Activation.owned, add_comm]
    refine Triple.bind (readOpt_spec hok) ?_
    rintro _ _ ⟨-, rfl⟩
    exact Triple.freeOpt_bind (Triple.pure (Leaves.idle h trivial rfl))
  next => contradiction

theorem freeEntry_spec (n : EntryNode) (e : SharedEntry) (P : Multiset (ℕ × Bytes))
    (h : EntryRow n e P) : Triple P (freeEntry n) fun _ P' => P' = 0 := by
  obtain ⟨hcas, hvalue⟩ := h
  rename_i Pv
  refine Triple.load_bind ?_
  rw [add_left_comm]
  refine Triple.free_bind ?_
  rw [add_comm]
  exact Triple.frees_bind (Triple.freeOpt hvalue) fun _ => Triple.free n.node []

theorem vwasmSharedDataDestroy_spec (h : Shows sd sd' P) :
    Triple P (vwasmSharedDataDestroy sd) fun _ P' => P' = 0 := by
  obtain ⟨hchains⟩ := h
  rw [add_comm]
  exact Triple.frees_bind
    (Triple.forEach (fun ns es P h => Triple.forEach freeEntry_spec h) hchains)
    fun _ => Triple.free sd.block []

theorem listed_empty (k : ℕ) :
    Listed (Listed EntryRow) (List.ofFn fun _ : Fin k => []) (List.ofFn fun _ : Fin k => []) 0 := by
  rw [List.ofFn_const, List.ofFn_const]
  induction k with
  | zero => exact Listed.nil
  | succ k ih => exact Listed.cons Listed.nil ih

theorem vwasmSharedDataNew_spec (alloc lockInit : Bool) :
    Triple 0 (vwasmSharedDataNew alloc lockInit) fun r P' =>
      ∀ sd, r = some sd → Shows sd SharedData.vwasmSharedDataNew P' := by
  unfold vwasmSharedDataNew
  split
  · exact Triple.pure nofun
  · refine Triple.malloc_bind fun block => ?_
    split
    · exact Triple.free_bind (Triple.pure nofun)
    · refine Triple.pure fun sd hsd => ?_
      obtain rfl := Option.some.inj hsd
      exact Shows.mk (listed_empty sharedDataBuckets)

end Specs

/-- Whatever calls of the shared data are in progress at once, and in whatever order
their sections run: every section that can be entered comes to its end, so nothing is
read or freed that is gone; the calls answer what SharedData answers to the same calls
one after the other, each at the moment it had the lock; and when all have returned,
the store can be destroyed and leaves no block. -/
theorem shared_data_linearizes (alloc lockInit : Bool) (h₀ h₁ : Heap Bytes) (sd : BlockStore)
    (hfresh : ∀ i, h₀.next ≤ i → h₀.block i = none)
    (hnew : vwasmSharedDataNew alloc lockInit h₀ = some (some sd, h₁)) (n : ℕ)
    (turns : List (ℕ × Action)) (s : System BlockStore Activation SharedCall Answer)
    (h : Heap Bytes) (hrun : Run (step sections) (start sd .idle n, h₁) turns (s, h)) :
    (∀ (t : ℕ) act a m, s.activations[t]? = some act → sections s.object act a = some m →
      (m h).isSome = true) ∧
    s.log = transcript sharedCall SharedData.vwasmSharedDataNew (s.log.map Prod.fst) ∧
    ((∀ act ∈ s.activations, act = .idle) →
      ∃ h', vwasmSharedDataDestroy s.object h = some ((), h') ∧ h'.block = h₀.block) :=
  interleaving sections_correct .idle rfl trivial (vwasmSharedDataNew_spec alloc lockInit)
    (fun _ _ _ hshows => vwasmSharedDataDestroy_spec hshows) hfresh hnew hrun

section Example

def keyA : Bytes := ascii "a"

/-- Two sets of one key that have both made their copies when the first one gets the
lock: the second one frees the value of the first. -/
def twoSets : List (ℕ × Action) :=
  [(0, .set keyA (ascii "x") 0 {}), (1, .set keyA (ascii "y") 0 {}), (0, .lock), (1, .lock)]

def twoSetsLog : List (SharedCall × Answer) :=
  [(.set keyA (ascii "x") 0 {}, .set .ok), (.set keyA (ascii "y") 0 {}, .set .ok)]

theorem shared_data_linearizes_twoSets :
    (∃ s h h', exec (turn sections) (start ⟨0, fun _ => []⟩ .idle 2, Heap.empty.put []) twoSets =
        some (s, h) ∧ vwasmSharedDataDestroy s.object h = some ((), h') ∧
      h'.block = (Heap.empty : Heap Bytes).block) ∧
    twoSetsLog = transcript sharedCall SharedData.vwasmSharedDataNew (twoSetsLog.map Prod.fst) := by
  have hfacts : (exec (turn sections) (start ⟨0, fun _ => []⟩ .idle 2, Heap.empty.put [])
      twoSets).map (fun r => (r.1.activations, r.1.log)) = some ([.idle, .idle], twoSetsLog) := rfl
  obtain ⟨⟨s, h⟩, hexec, heq⟩ := Option.map_eq_some_iff.mp hfacts
  obtain ⟨hacts, hlog⟩ := Prod.mk.inj heq
  have hidle : ∀ act ∈ s.activations, act = .idle := by
    rw [show s.activations = [.idle, .idle] from hacts]
    simp
  have hall := shared_data_linearizes true true Heap.empty (Heap.empty.put []) ⟨0, fun _ => []⟩
    (fun _ _ => rfl) rfl 2 twoSets s h (Run.of_exec hexec)
  obtain ⟨h', hend⟩ := hall.2.2 hidle
  exact ⟨⟨s, h, h', hexec, hend⟩, hlog ▸ hall.2.1⟩

end Example

end VmodWasm.SharedBlocks
