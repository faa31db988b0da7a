import VmodWasm.GuestMemory
import VmodWasm.ByteSearch
import VmodWasm.ProxyContext
import VmodWasm.Lib.HashChains
import VmodWasm.Lib.Mealy
import Mathlib.Algebra.BigOperators.Fin

/-!
The shared data of proxy_wasm_shared.c: a table of 64 chains, keys kept as
NUL-terminated copies, a counter for compare-and-swap in each entry. It is
compared with a map from byte strings to values and counters. The two agree
until a key with a NUL byte is stored: such an entry is under another name
than the one it was stored by.
-/
namespace VmodWasm.SharedData

open ByteStrings ByteSearch GuestMemory ProxyContext Lib.HashChains Lib.Mealy

def fnv1a (key : Bytes) : UInt32 :=
  key.foldl (fun hash c => (hash ^^^ c.toUInt32) * 16777619) 2166136261

def sharedDataBuckets : ℕ := 64

def sharedDataMaxKey : ℕ := 256

def sharedDataMaxValue : ℕ := 65536

def bucketOf (key : Bytes) : Fin sharedDataBuckets :=
  ⟨(fnv1a key).toNat % sharedDataBuckets, Nat.mod_lt _ (by decide)⟩

/-- `struct vwasm_shared_entry`; `key` includes the terminator. -/
structure SharedEntry where
  key : Bytes
  value : Bytes
  cas : UInt32
  deriving DecidableEq, Repr

abbrev SharedStore := Fin sharedDataBuckets → List SharedEntry

def vwasmSharedDataNew : SharedStore := fun _ => []

def entryMatches (key : Bytes) (e : SharedEntry) : Bool := cstrMatches e.key key

/-- `vwasm_shared_data_get`; `alloc` says whether the copy can be allocated. -/
def vwasmSharedDataGet (sd : SharedStore) (key : Bytes) (alloc : Bool) : Option (Bytes × UInt32) :=
  if key = [] then none
  else
    match (sd (bucketOf key)).find? (entryMatches key) with
    | none => none
    | some e => if e.value ≠ [] ∧ alloc = false then none else some (e.value, e.cas)

/-- The allocations of a set. -/
structure SetEnv where
  valueAlloc : Bool := true
  entryAlloc : Bool := true
  keyAlloc : Bool := true
  deriving DecidableEq, Repr

/-- The results 0, -1 and -2 of a set. -/
inductive SetResult where
  | ok | casMismatch | error
  deriving DecidableEq, Repr

def vwasmSharedDataSet (sd : SharedStore) (key value : Bytes) (cas : UInt32) (env : SetEnv) :
    SetResult × SharedStore :=
  if key = [] then (.error, sd)
  else if sharedDataMaxKey < key.length then (.error, sd)
  else if sharedDataMaxValue < value.length then (.error, sd)
  else if value ≠ [] ∧ env.valueAlloc = false then (.error, sd)
  else
    let bucket := bucketOf key
    match (sd bucket).find? (entryMatches key) with
    | some e =>
      if cas ≠ 0 ∧ e.cas ≠ cas then (.casMismatch, sd)
      else
        (.ok, Function.update sd bucket (modifyFirst (entryMatches key)
          (fun e => { e with value := value, cas := e.cas + 1 }) (sd bucket)))
    | none =>
      if env.entryAlloc = false then (.error, sd)
      else if env.keyAlloc = false then (.error, sd)
      else (.ok, Function.update sd bucket (⟨key ++ [0], value, 1⟩ :: sd bucket))

section Abi

/-- The status `pw_proxy_set_shared_data` makes of a result. -/
def SetResult.status : SetResult → ProxyStatus
  | .ok => .ok
  | .casMismatch => .casMismatch
  | .error => .internal

/-- `pw_proxy_set_shared_data`, with the memory of the guest. -/
def pwProxySetSharedData (sd : Option SharedStore) (valid : Bool) (mem : Bytes)
    (keyPtr keySize valPtr valSize cas : UInt32) (env : SetEnv) :
    ProxyStatus × Option SharedStore :=
  match sd with
  | none => (.internal, none)
  | some sd =>
    match pwReadString valid mem keyPtr keySize sharedDataMaxKey with
    | none => (.badArgument, some sd)
    | some key =>
      if valSize ≠ 0 ∧ pwValidateRegion valid mem valPtr valSize = false then
        (.badArgument, some sd)
      else
        let r := vwasmSharedDataSet sd key (pwMemRegion mem valPtr valSize) cas env
        (r.1.status, some r.2)

/-- `pw_proxy_get_shared_data`: the status and the memory it leaves. -/
def pwProxyGetSharedData (sd : Option SharedStore) (valid : Bool) (allocator : Option GuestAlloc)
    (mem : Bytes) (keyPtr keySize retData retSize retCas : UInt32) (alloc : Bool) :
    ProxyStatus × Bytes :=
  match sd with
  | none => (.notFound, mem)
  | some sd =>
    match pwReadString valid mem keyPtr keySize sharedDataMaxKey with
    | none => (.badArgument, mem)
    | some key =>
      match vwasmSharedDataGet sd key alloc with
      | none => (.notFound, mem)
      | some (value, cas) =>
        match pwReturnBytes valid allocator mem value retData retSize with
        | (false, mem) => (.internal, mem)
        | (true, mem) =>
          match pwWriteU32 valid mem retCas cas.toNat with
          | none => (.internal, mem)
          | some mem => (.ok, mem)

/-- A guest's set is refused, or is one call of the store, with a key of at
most 255 bytes. -/
theorem pwProxySetSharedData_issues (sd : SharedStore) (valid : Bool) (mem : Bytes)
    (keyPtr keySize valPtr valSize cas : UInt32) (env : SetEnv) :
    pwProxySetSharedData (some sd) valid mem keyPtr keySize valPtr valSize cas env =
        (.badArgument, some sd) ∨
      ∃ key value, key.length < sharedDataMaxKey ∧
        pwProxySetSharedData (some sd) valid mem keyPtr keySize valPtr valSize cas env =
          ((vwasmSharedDataSet sd key value cas env).1.status,
            some (vwasmSharedDataSet sd key value cas env).2) := by
  rw [pwProxySetSharedData]
  rcases hread : pwReadString valid mem keyPtr keySize sharedDataMaxKey with _ | key
  · exact Or.inl rfl
  · dsimp only
    split
    · exact Or.inl rfl
    · refine Or.inr ⟨key, pwMemRegion mem valPtr valSize, ?_, ?_⟩
      · exact pwReadString_lt valid mem keyPtr keySize sharedDataMaxKey key (by decide) hread
      · rfl

/-- What a guest's get hands over was found by one call of the store. -/
theorem pwProxyGetSharedData_issues (sd : SharedStore) (valid : Bool)
    (allocator : Option GuestAlloc) (mem : Bytes)
    (keyPtr keySize retData retSize retCas : UInt32) (alloc : Bool)
    (h : (pwProxyGetSharedData (some sd) valid allocator mem keyPtr keySize retData retSize retCas
      alloc).1 = .ok) :
    ∃ key value cas mem', key.length < sharedDataMaxKey ∧
      vwasmSharedDataGet sd key alloc = some (value, cas) ∧
      pwReturnBytes valid allocator mem value retData retSize = (true, mem') := by
  rw [pwProxyGetSharedData] at h
  rcases hread : pwReadString valid mem keyPtr keySize sharedDataMaxKey with _ | key
  · simp [hread] at h
  · rcases hget : vwasmSharedDataGet sd key alloc with _ | ⟨value, cas⟩
    · simp [hread, hget] at h
    · rcases hreturn : pwReturnBytes valid allocator mem value retData retSize with ⟨_ | _, mem'⟩
      · simp [hread, hget, hreturn] at h
      · exact ⟨key, value, cas, mem',
          pwReadString_lt valid mem keyPtr keySize sharedDataMaxKey key (by decide) hread, hget,
          hreturn⟩

end Abi

inductive SharedCall where
  | set (key value : Bytes) (cas : UInt32) (env : SetEnv)
  | get (key : Bytes) (alloc : Bool)
  deriving DecidableEq, Repr

inductive Answer where
  | set (result : SetResult)
  | get (found : Option (Bytes × UInt32))
  deriving DecidableEq, Repr

def SharedCall.key : SharedCall → Bytes
  | .set key _ _ _ => key
  | .get key _ => key

def sharedCall (sd : SharedStore) : SharedCall → Answer × SharedStore
  | .set key value cas env =>
    let r := vwasmSharedDataSet sd key value cas env
    (.set r.1, r.2)
  | .get key alloc => (.get (vwasmSharedDataGet sd key alloc), sd)

/-- A set that is within the limits and gets the memory for its value. -/
def Fits (key value : Bytes) (env : SetEnv) : Prop :=
  key ≠ [] ∧ key.length ≤ sharedDataMaxKey ∧ value.length ≤ sharedDataMaxValue ∧
    (value = [] ∨ env.valueAlloc = true)

instance (key value : Bytes) (env : SetEnv) : Decidable (Fits key value env) := by
  unfold Fits
  infer_instance

section Map

/-- What the store is for: a map from byte strings to values with counters. -/
abbrev CasMap := Bytes → Option (Bytes × UInt32)

def mapSet (m : CasMap) (key value : Bytes) (cas : UInt32) (env : SetEnv) : SetResult × CasMap :=
  if ¬ Fits key value env then (.error, m)
  else
    match m key with
    | some (_, current) =>
      if cas ≠ 0 ∧ current ≠ cas then (.casMismatch, m)
      else (.ok, Function.update m key (some (value, current + 1)))
    | none =>
      if env.entryAlloc && env.keyAlloc then (.ok, Function.update m key (some (value, 1)))
      else (.error, m)

def mapCall (m : CasMap) : SharedCall → Answer × CasMap
  | .set key value cas env =>
    let r := mapSet m key value cas env
    (.set r.1, r.2)
  | .get key _ => (.get (m key), m)

end Map

/-- The entries that were stored under a key. -/
def entriesOf (sd : SharedStore) (key : Bytes) : List SharedEntry :=
  (List.finRange sharedDataBuckets).flatMap fun b => (sd b).filter fun e => e.key = key ++ [0]

/-- The state after a history of calls, of the store and of the map. -/
abbrev storeAfter (calls : List SharedCall) : SharedStore := after sharedCall vwasmSharedDataNew calls

abbrev mapAfter (calls : List SharedCall) : CasMap := after mapCall (fun _ => none) calls

/-- Every call is answered as the map answers it; in between, every key finds
what the map holds, and has one entry if the map holds it and none otherwise. -/
structure RefinesMap (calls : List SharedCall) : Prop where
  answers : ∀ pre call, pre ++ [call] <+: calls →
    (sharedCall (storeAfter pre) call).1 = (mapCall (mapAfter pre) call).1
  found : ∀ pre key, pre <+: calls → vwasmSharedDataGet (storeAfter pre) key true = mapAfter pre key
  entries : ∀ pre key, pre <+: calls →
    (entriesOf (storeAfter pre) key).length = (mapAfter pre key).toList.length

/-- The calls that do what the map does: a set does not store a key with a NUL
byte, a get has memory for the value it copies. -/
def Sound (m : CasMap) : SharedCall → Prop
  | .set key value _ env =>
    ¬ (0 ∈ key ∧ Fits key value env ∧ env.entryAlloc = true ∧ env.keyAlloc = true)
  | .get key alloc => ¬ (alloc = false ∧ ∃ value cas, m key = some (value, cas) ∧ value ≠ [])

/-- The name an entry is found by. -/
def entryName (e : SharedEntry) : Bytes := cstr e.key

theorem entryMatches_eq (key : Bytes) : entryMatches key = fun e => decide (entryName e = key) := by
  funext e
  rw [Bool.eq_iff_iff, entryMatches, cstrMatches_iff, decide_eq_true_eq, entryName]

theorem entryName_terminated (key value : Bytes) (cas : UInt32) :
    entryName ⟨key ++ [0], value, cas⟩ = cstr key := cstr_append_nul key []

theorem cstr_of_notMem (key : Bytes) (h : 0 ∉ key) : cstr key = key := by
  simpa [cstr] using cstr_append key [] h

/-- A key with a NUL byte is never found. -/
theorem find_nul (sd : SharedStore) (key : Bytes) (h : 0 ∈ key) :
    find bucketOf entryName sd key = none := by
  refine List.find?_eq_none.mpr fun e _ hname => ?_
  rw [decide_eq_true_eq] at hname
  rw [← hname] at h
  exact nul_notMem_cstr e.key h

theorem vwasmSharedDataGet_eq (sd : SharedStore) (key : Bytes) (alloc : Bool) :
    vwasmSharedDataGet sd key alloc =
      if key = [] then none
      else
        match find bucketOf entryName sd key with
        | none => none
        | some e => if e.value ≠ [] ∧ alloc = false then none else some (e.value, e.cas) := by
  rw [vwasmSharedDataGet, entryMatches_eq]
  rfl

/-- The effect of a set that finds its key. -/
def updateEntry (value : Bytes) (e : SharedEntry) : SharedEntry :=
  { e with value := value, cas := e.cas + 1 }

theorem vwasmSharedDataSet_eq (sd : SharedStore) (key value : Bytes) (cas : UInt32) (env : SetEnv) :
    vwasmSharedDataSet sd key value cas env =
      if ¬ Fits key value env then (.error, sd)
      else
        match find bucketOf entryName sd key with
        | some e =>
          if cas ≠ 0 ∧ e.cas ≠ cas then (.casMismatch, sd)
          else (.ok, modify bucketOf entryName sd key (updateEntry value))
        | none =>
          if env.entryAlloc && env.keyAlloc then
            (.ok, push bucketOf sd key ⟨key ++ [0], value, 1⟩)
          else (.error, sd) := by
  rw [vwasmSharedDataSet, entryMatches_eq]
  by_cases hfits : Fits key value env
  · obtain ⟨hkey, hkeyLen, hvalueLen, hvalue⟩ := hfits
    have halloc : ¬ (value ≠ [] ∧ env.valueAlloc = false) := by
      rintro ⟨hne, hfalse⟩
      rcases hvalue with hnil | htrue
      · exact hne hnil
      · rw [hfalse] at htrue
        contradiction
    rw [if_neg hkey, if_neg (by omega), if_neg (by omega), if_neg halloc,
      if_neg (not_not.mpr ⟨hkey, hkeyLen, hvalueLen, hvalue⟩)]
    change (match find bucketOf entryName sd key with | some e => _ | none => _) = _
    rcases find bucketOf entryName sd key with _ | e
    · rcases env with ⟨_, _ | _, _ | _⟩ <;> rfl
    · rfl
  · rw [if_pos hfits]
    split
    · rfl
    · split
      · rfl
      · split
        · rfl
        · split
          · rfl
          next hkey hkeyLen hvalueLen hvalue =>
            refine absurd ⟨hkey, by omega, by omega, ?_⟩ hfits
            by_contra hnot
            rw [not_or, Bool.not_eq_true] at hnot
            exact hvalue hnot

/-- The store holds what the map holds, each key in one entry of its own. -/
structure Refines (sd : SharedStore) (m : CasMap) : Prop where
  placed : WellPlaced bucketOf entryName sd
  named : ∀ b, ∀ e ∈ sd b, entryName e ≠ [] ∧ e.key = entryName e ++ [0]
  view : ∀ key, (find bucketOf entryName sd key).map (fun e => (e.value, e.cas)) = m key

theorem refines_new : Refines vwasmSharedDataNew fun _ => none where
  placed := ⟨fun b e he => by simp [vwasmSharedDataNew] at he, fun b => List.nodup_nil⟩
  named b e he := by simp [vwasmSharedDataNew] at he
  view key := rfl

namespace Refines

variable {sd : SharedStore} {m : CasMap} (h : Refines sd m)

include h

theorem empty_key : m [] = none := by
  rw [← h.view []]
  rcases hfind : find bucketOf entryName sd [] with _ | e
  · rfl
  · have hname : entryName e = [] := by simpa using List.find?_some hfind
    exact absurd hname (h.named _ e (List.mem_of_find?_eq_some hfind)).1

theorem get (key : Bytes) : vwasmSharedDataGet sd key true = m key := by
  rw [vwasmSharedDataGet_eq]
  by_cases hkey : key = []
  · subst hkey
    rw [if_pos rfl, h.empty_key]
  · rw [if_neg hkey, ← h.view key]
    rcases find bucketOf entryName sd key with _ | e <;> simp

theorem entries (key : Bytes) :
    (entriesOf sd key).length = (m key).toList.length := by
  have hfilter (b : Fin sharedDataBuckets) :
      (sd b).filter (fun e => e.key = key ++ [0]) =
        if b = bucketOf key then (find bucketOf entryName sd key).toList else [] := by
    rw [← h.placed.filter_eq bucketOf entryName key b]
    refine List.filter_congr fun e he => ?_
    rw [(h.named b e he).2]
    simp
  have hlen (b : Fin sharedDataBuckets) :
      ((sd b).filter fun e => e.key = key ++ [0]).length =
        if b = bucketOf key then (find bucketOf entryName sd key).toList.length else 0 := by
    rw [hfilter]
    split <;> rfl
  rw [entriesOf, List.length_flatMap]
  simp only [hlen]
  rw [← Fin.sum_univ_def, Finset.sum_ite_eq', if_pos (Finset.mem_univ _), ← h.view key]
  rcases find bucketOf entryName sd key with _ | e <;> rfl

/-- An entry for a new key without NUL bytes. -/
theorem push (key value : Bytes) (hkey : key ≠ []) (hnul : 0 ∉ key) (hnew : m key = none) :
    Refines (push bucketOf sd key ⟨key ++ [0], value, 1⟩)
      (Function.update m key (some (value, 1))) := by
  have hname : entryName ⟨key ++ [0], value, 1⟩ = key := by
    rw [entryName_terminated, cstr_of_notMem key hnul]
  have hnone : find bucketOf entryName sd key = none := by
    have hview := h.view key
    rwa [hnew, Option.map_eq_none_iff] at hview
  refine ⟨h.placed.push _ _ key _ hname hnone, fun b e he => ?_, fun key' => ?_⟩
  · rcases mem_push bucketOf sd key _ e b he with ⟨_, rfl⟩ | he
    · rw [hname]
      exact ⟨hkey, rfl⟩
    · exact h.named b e he
  · rw [find_push bucketOf entryName sd key _ hname]
    by_cases hk : key' = key
    · subst hk
      simp
    · rw [Function.update_of_ne hk, Function.update_of_ne hk, h.view]

/-- A new value for a key that is there. -/
theorem modify (key value : Bytes) (old : Bytes) (cas : UInt32) (hfound : m key = some (old, cas)) :
    Refines (modify bucketOf entryName sd key (updateEntry value))
      (Function.update m key (some (value, cas + 1))) := by
  have hname (e : SharedEntry) : entryName (updateEntry value e) = entryName e := rfl
  refine ⟨h.placed.modify _ _ key _ hname, fun b e he => ?_, fun key' => ?_⟩
  · rcases mem_modify bucketOf entryName sd key _ e b he with he | ⟨d, hd, rfl⟩
    · exact h.named b e he
    · exact h.named b d hd
  · rw [find_modify bucketOf entryName sd key _ hname]
    by_cases hk : key' = key
    · subst hk
      have hview := h.view key'
      rw [hfound] at hview
      obtain ⟨e, he, heq⟩ := Option.map_eq_some_iff.mp hview
      obtain ⟨_, rfl⟩ := Prod.mk.inj heq
      simp [he, updateEntry]
    · rw [Function.update_of_ne hk, Function.update_of_ne hk, h.view]

/-- A sound set does to the store what it does to the map. -/
theorem set (key value : Bytes) (cas : UInt32) (env : SetEnv)
    (hsound : Sound m (.set key value cas env)) :
    (vwasmSharedDataSet sd key value cas env).1 = (mapSet m key value cas env).1 ∧
      Refines (vwasmSharedDataSet sd key value cas env).2 (mapSet m key value cas env).2 := by
  rw [vwasmSharedDataSet_eq, mapSet]
  by_cases hfits : Fits key value env
  · rw [if_neg (not_not.mpr hfits), if_neg (not_not.mpr hfits)]
    have hview := h.view key
    rcases hfind : find bucketOf entryName sd key with _ | e
    · rw [hfind, Option.map_none] at hview
      rw [← hview]
      dsimp only
      by_cases halloc : (env.entryAlloc && env.keyAlloc) = true
      · rw [if_pos halloc, if_pos halloc]
        rw [Bool.and_eq_true] at halloc
        have hnul : 0 ∉ key := fun hmem => hsound ⟨hmem, hfits, halloc⟩
        exact ⟨rfl, h.push key value hfits.1 hnul hview.symm⟩
      · rw [if_neg halloc, if_neg halloc]
        exact ⟨rfl, h⟩
    · rw [hfind, Option.map_some] at hview
      rw [← hview]
      dsimp only
      by_cases hcas : cas ≠ 0 ∧ e.cas ≠ cas
      · rw [if_pos hcas, if_pos hcas]
        exact ⟨rfl, h⟩
      · rw [if_neg hcas, if_neg hcas]
        exact ⟨rfl, h.modify key value e.value e.cas hview.symm⟩
  · rw [if_pos hfits, if_pos hfits]
    exact ⟨rfl, h⟩

theorem call (call : SharedCall) (hsound : Sound m call) :
    (sharedCall sd call).1 = (mapCall m call).1 ∧
      Refines (sharedCall sd call).2 (mapCall m call).2 := by
  cases call with
  | set key value cas env =>
    obtain ⟨hanswer, hrefines⟩ := h.set key value cas env hsound
    exact ⟨congrArg Answer.set hanswer, hrefines⟩
  | get key alloc =>
    refine ⟨congrArg Answer.get ?_, h⟩
    cases alloc with
    | true => exact h.get key
    | false =>
      have hget := h.get key
      rw [← hget, vwasmSharedDataGet_eq, vwasmSharedDataGet_eq]
      by_cases hkey : key = []
      · rw [if_pos hkey, if_pos hkey]
      · rw [if_neg hkey, if_neg hkey]
        have hview := h.view key
        rcases hfind : find bucketOf entryName sd key with _ | e
        · rfl
        · rw [hfind, Option.map_some] at hview
          have hnil : ¬ e.value ≠ [] := fun hne => hsound ⟨rfl, e.value, e.cas, hview.symm, hne⟩
          simp [not_not.mp hnil]

end Refines

theorem refines_after (calls : List SharedCall)
    (hcalls : InOrder mapCall Sound (fun _ => none) calls) :
    Refines (storeAfter calls) (mapAfter calls) :=
  after_related sharedCall mapCall Refines Sound (fun _ _ call h hsound => (h.call call hsound).2)
    _ _ refines_new calls hcalls

theorem vwasmSharedDataGet_nul (sd : SharedStore) (key : Bytes) (alloc : Bool) (h : 0 ∈ key) :
    vwasmSharedDataGet sd key alloc = none := by
  rw [vwasmSharedDataGet_eq, find_nul sd key h]
  split <;> rfl

/-- Without memory for the copy a value is not found. -/
theorem vwasmSharedDataGet_noAlloc (sd : SharedStore) (key value : Bytes) (cas : UInt32)
    (h : vwasmSharedDataGet sd key true = some (value, cas)) (hvalue : value ≠ []) :
    vwasmSharedDataGet sd key false = none := by
  rw [vwasmSharedDataGet_eq] at h ⊢
  by_cases hkey : key = []
  · rw [if_pos hkey]
  · rw [if_neg hkey] at h ⊢
    rcases hfind : find bucketOf entryName sd key with _ | e
    · rfl
    · obtain ⟨rfl, _⟩ : e.value = value ∧ e.cas = cas := by simpa [hfind] using h
      simp [hvalue]

/-- The store refines the map exactly as long as no call stores a key with a
NUL byte or runs out of memory for the value it should return. -/
theorem refinesMap_iff (calls : List SharedCall) :
    RefinesMap calls ↔ InOrder mapCall Sound (fun _ => none) calls := by
  constructor
  · intro h pre call hpre
    have hpre' : pre <+: calls := (List.prefix_append ..).trans hpre
    cases call with
    | set key value cas env =>
      rintro ⟨hnul, hfits, hentry, hkey⟩
      have hnew : mapAfter pre key = none := by
        rw [← h.found pre key hpre', vwasmSharedDataGet_nul _ key true hnul]
      have hset : mapSet (mapAfter pre) key value cas env =
          (.ok, Function.update (mapAfter pre) key (some (value, 1))) := by
        rw [mapSet, if_neg (not_not.mpr hfits), hnew]
        simp [hentry, hkey]
      have hstored : mapAfter (pre ++ [.set key value cas env]) key = some (value, 1) := by
        rw [mapAfter, after_snoc]
        change (mapSet (mapAfter pre) key value cas env).2 key = some (value, 1)
        rw [hset]
        exact Function.update_self ..
      have hfound := h.found _ key hpre
      rw [hstored, vwasmSharedDataGet_nul _ key true hnul] at hfound
      contradiction
    | get key alloc =>
      rintro ⟨rfl, value, cas, hm, hvalue⟩
      have hm : mapAfter pre key = some (value, cas) := hm
      have hfound := h.found pre key hpre'
      rw [hm] at hfound
      have hanswer : Answer.get (vwasmSharedDataGet (storeAfter pre) key false) =
          .get (mapAfter pre key) := h.answers pre _ hpre
      rw [vwasmSharedDataGet_noAlloc _ key value cas hfound hvalue, hm] at hanswer
      injection hanswer with hanswer
      contradiction
  · intro h
    have hpart (pre : List SharedCall) (hpre : pre <+: calls) :
        Refines (storeAfter pre) (mapAfter pre) := by
      obtain ⟨rest, rfl⟩ := hpre
      exact refines_after pre h.left
    refine ⟨fun pre call hpre => ?_, fun pre key hpre => (hpart pre hpre).get key,
      fun pre key hpre => (hpart pre hpre).entries key⟩
    exact ((hpart pre ((List.prefix_append ..).trans hpre)).call call (h pre call hpre)).1

/-- No value is longer than a set accepts. -/
def ValuesFit (sd : SharedStore) : Prop := ∀ b, ∀ e ∈ sd b, e.value.length ≤ sharedDataMaxValue

theorem valuesFit_set (sd : SharedStore) (key value : Bytes) (cas : UInt32) (env : SetEnv)
    (h : ValuesFit sd) : ValuesFit (vwasmSharedDataSet sd key value cas env).2 := by
  rw [vwasmSharedDataSet_eq]
  by_cases hfits : Fits key value env
  · rw [if_neg (not_not.mpr hfits)]
    have hvalue : value.length ≤ sharedDataMaxValue := hfits.2.2.1
    split
    · split
      · exact h
      · intro b e he
        rcases mem_modify _ _ sd key _ e b he with hold | ⟨old, -, rfl⟩
        · exact h b e hold
        · exact hvalue
    · split
      · intro b e he
        rcases mem_push _ sd key _ e b he with ⟨-, rfl⟩ | hold
        · exact hvalue
        · exact h b e hold
      · exact h
  · rw [if_pos hfits]
    exact h

theorem valuesFit_after (calls : List SharedCall) : ValuesFit (storeAfter calls) := by
  apply after_invariant sharedCall ValuesFit
  · intro sd call h
    cases call with
    | get key alloc => exact h
    | set key value cas env => exact valuesFit_set sd key value cas env h
  · intro b e he
    simp [vwasmSharedDataNew] at he

theorem vwasmSharedDataGet_length (sd : SharedStore) (key value : Bytes) (alloc : Bool)
    (cas : UInt32) (hfit : ValuesFit sd) (h : vwasmSharedDataGet sd key alloc = some (value, cas)) :
    value.length ≤ sharedDataMaxValue := by
  unfold vwasmSharedDataGet at h
  split at h
  · contradiction
  · split at h
    · contradiction
    next e hfind =>
      split at h
      · contradiction
      · obtain ⟨rfl, -⟩ := Prod.mk.inj (Option.some.inj h)
        exact hfit _ e (List.mem_of_find?_eq_some hfind)

/-- The key `a`, NUL, blank, whose bucket is that of the key `a`. -/
def nulKey : Bytes := [0x61, 0, 0x20]

def nulCalls : List SharedCall :=
  [.set nulKey (ascii "v") 0 {}, .set nulKey (ascii "w") 0 {}]

/-- Both sets succeed, each makes an entry, the key is not found, and another
key has got its value. -/
theorem nulCalls_not_refined :
    ((sharedCall (storeAfter []) (nulCalls[0])).1 = .set .ok ∧
      (sharedCall (storeAfter (nulCalls.take 1)) (nulCalls[1])).1 = .set .ok) ∧
    vwasmSharedDataGet (storeAfter nulCalls) nulKey true = none ∧
    vwasmSharedDataGet (storeAfter nulCalls) (ascii "a") true = some (ascii "w", 1) ∧
    (entriesOf (storeAfter nulCalls) nulKey).length = 2 ∧ ¬ RefinesMap nulCalls := by
  have hget : vwasmSharedDataGet (storeAfter nulCalls) nulKey true = none := by decide +kernel
  refine ⟨by decide +kernel, hget, by decide +kernel, by decide +kernel, fun h => ?_⟩
  have hfound := h.found nulCalls nulKey List.prefix_rfl
  rw [hget] at hfound
  have hmap : mapAfter nulCalls nulKey = some (ascii "w", 2) := by decide +kernel
  rw [hmap] at hfound
  contradiction

end VmodWasm.SharedData
