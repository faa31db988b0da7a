import VmodWasm.CasUpdates

/-!
The counter of an entry and the value 0, by which a set asks for no comparison.
An entry starts at 1 and every further set of it adds 1 to a `uint32_t`. The
counter of an entry is therefore the number of its sets, and comes to 0 with
the set number `2 ^ 32`.
-/
namespace VmodWasm.CasCounter

open ByteStrings SharedData CasUpdates Lib.HashChains Lib.Mealy

/-- The entries of a chain, the oldest first. New entries come to the front of
the chain and none is ever removed: an entry keeps its place in this order. -/
def oldestFirst (sd : SharedStore) (b : Fin sharedDataBuckets) : List SharedEntry := (sd b).reverse

/-- The place of the entry that a set of `key` goes to, found or new. -/
def placeOf (sd : SharedStore) (key : Bytes) : ℕ :=
  match (sd (bucketOf key)).dropWhile fun e => !entryMatches key e with
  | _ :: older => older.length
  | [] => (sd (bucketOf key)).length

/-- The call is a successful set of the entry in this place. -/
def Writes (b : Fin sharedDataBuckets) (i : ℕ) (sd : SharedStore) : SharedCall → Prop
  | .set key value cas env =>
    (vwasmSharedDataSet sd key value cas env).1 = .ok ∧ bucketOf key = b ∧ placeOf sd key = i
  | .get _ _ => False

instance (b : Fin sharedDataBuckets) (i : ℕ) (sd : SharedStore) (call : SharedCall) :
    Decidable (Writes b i sd call) :=
  match call with
  | .set .. => inferInstanceAs (Decidable (_ ∧ _ ∧ _))
  | .get .. => inferInstanceAs (Decidable False)

/-- The number of successful sets of an entry, its first one included. -/
def entrySets (calls : List SharedCall) (b : Fin sharedDataBuckets) (i : ℕ) : ℕ :=
  countSteps sharedCall (Writes b i) vwasmSharedDataNew calls

/-- The counter of an entry, if there is one in this place. -/
def counterAt (sd : SharedStore) (b : Fin sharedDataBuckets) (i : ℕ) : Option UInt32 :=
  (oldestFirst sd b)[i]?.map SharedEntry.cas

/-- No entry has the counter 0, and so a set by the counter of a get is a
conditional one: it fails on an entry with another counter. -/
structure CasReserved (calls : List SharedCall) : Prop where
  nonzero : ∀ pre, pre <+: calls → ∀ b, ∀ e ∈ storeAfter pre b, e.cas ≠ 0
  conditional : ∀ pre mid key alloc old cas value env e, pre ++ mid <+: calls →
    vwasmSharedDataGet (storeAfter pre) key alloc = some (old, cas) →
    (storeAfter (pre ++ mid) (bucketOf key)).find? (entryMatches key) = some e → e.cas ≠ cas →
    (vwasmSharedDataSet (storeAfter (pre ++ mid)) key value cas env).1 ≠ .ok

section Counting

theorem placeOf_found (sd : SharedStore) (key : Bytes) (newer older : List SharedEntry)
    (e : SharedEntry) (hchain : sd (bucketOf key) = newer ++ e :: older)
    (hnewer : ∀ d ∈ newer, entryMatches key d = false) (he : entryMatches key e = true) :
    placeOf sd key = older.length := by
  rw [placeOf, hchain, List.dropWhile_append_of_pos (by simpa using hnewer),
    List.dropWhile_cons_of_neg (by simp [he])]

theorem placeOf_new (sd : SharedStore) (key : Bytes)
    (h : (sd (bucketOf key)).find? (entryMatches key) = none) :
    placeOf sd key = (sd (bucketOf key)).length := by
  rw [placeOf, List.dropWhile_eq_nil_iff.mpr (by simpa using h)]

/-- A new chain that differs in one place, where it has moved the counter. -/
theorem counterAt_update (sd : SharedStore) (b b' : Fin sharedDataBuckets) (chain : List SharedEntry)
    (place i : ℕ) (h : ∀ i, chain.reverse[i]?.map SharedEntry.cas =
      if i = place then some ((counterAt sd b i).elim 1 (· + 1)) else counterAt sd b i) :
    counterAt (Function.update sd b chain) b' i =
      if b = b' ∧ place = i then some ((counterAt sd b' i).elim 1 (· + 1))
      else counterAt sd b' i := by
  by_cases hb : b = b'
  · subst hb
    rw [counterAt, oldestFirst, Function.update_self, h]
    simp [eq_comm]
  · rw [counterAt, oldestFirst, Function.update_of_ne (Ne.symm hb), if_neg fun h => hb h.1]
    rfl

theorem counterAt_push (sd : SharedStore) (key value : Bytes)
    (hfind : (sd (bucketOf key)).find? (entryMatches key) = none) (b : Fin sharedDataBuckets)
    (i : ℕ) :
    counterAt (push bucketOf sd key ⟨key ++ [0], value, 1⟩) b i =
      if bucketOf key = b ∧ placeOf sd key = i then some ((counterAt sd b i).elim 1 (· + 1))
      else counterAt sd b i := by
  refine counterAt_update sd _ b _ _ i fun i => ?_
  rw [getElem?_reverse_cons, placeOf_new sd key hfind, counterAt, oldestFirst]
  by_cases hi : i = (sd (bucketOf key)).length
  · rw [if_pos hi, if_pos hi, List.getElem?_eq_none (by rw [List.length_reverse]; omega)]
    rfl
  · rw [if_neg hi, if_neg hi]

theorem counterAt_modify (sd : SharedStore) (key value : Bytes) (e : SharedEntry)
    (hfind : (sd (bucketOf key)).find? (entryMatches key) = some e) (b : Fin sharedDataBuckets)
    (i : ℕ) :
    counterAt (modify bucketOf entryName sd key (updateEntry value)) b i =
      if bucketOf key = b ∧ placeOf sd key = i then some ((counterAt sd b i).elim 1 (· + 1))
      else counterAt sd b i := by
  obtain ⟨he, newer, older, hchain, hnewer⟩ := List.find?_eq_some_iff_append.mp hfind
  replace hnewer : ∀ d ∈ newer, entryMatches key d = false := by simpa using hnewer
  rw [Lib.HashChains.modify, ← entryMatches_eq, hchain, modifyFirst_append _ _ _ _ _ hnewer he,
    placeOf_found sd key newer older e hchain hnewer he]
  refine counterAt_update sd _ b _ _ i fun i => ?_
  rw [getElem?_reverse_replace newer older e, counterAt, oldestFirst, hchain]
  by_cases hi : i = older.length
  · subst hi
    simp [updateEntry]
  · rw [if_neg hi, if_neg hi]

/-- A successful set moves the counter of the entry it goes to, and no other. -/
theorem counterAt_set (sd : SharedStore) (key value : Bytes) (cas : UInt32) (env : SetEnv)
    (b : Fin sharedDataBuckets) (i : ℕ) :
    counterAt (vwasmSharedDataSet sd key value cas env).2 b i =
      if (vwasmSharedDataSet sd key value cas env).1 = .ok ∧ bucketOf key = b ∧
          placeOf sd key = i then
        some ((counterAt sd b i).elim 1 (· + 1))
      else counterAt sd b i := by
  rw [vwasmSharedDataSet_eq]
  by_cases hfits : Fits key value env
  · rw [if_neg (not_not.mpr hfits), find, ← entryMatches_eq]
    rcases hfind : (sd (bucketOf key)).find? (entryMatches key) with _ | e
    · dsimp only
      split
      · simpa using counterAt_push sd key value hfind b i
      · simp
    · dsimp only
      split
      · simp
      · simpa using counterAt_modify sd key value e hfind b i
  · rw [if_pos hfits]
    simp

theorem counterAt_call (sd : SharedStore) (call : SharedCall) (b : Fin sharedDataBuckets) (i : ℕ) :
    counterAt (sharedCall sd call).2 b i =
      if Writes b i sd call then some ((counterAt sd b i).elim 1 (· + 1))
      else counterAt sd b i := by
  cases call with
  | set key value cas env => exact counterAt_set sd key value cas env b i
  | get key alloc => exact (if_neg fun h => h).symm

theorem counterAt_after (calls : List SharedCall) (b : Fin sharedDataBuckets) (i : ℕ) :
    counterAt (storeAfter calls) b i = versionOf (entrySets calls b i) := by
  induction calls using List.reverseRecOn with
  | nil => simp [counterAt, oldestFirst, storeAfter, after, vwasmSharedDataNew, entrySets,
      countSteps, versionOf]
  | append_singleton calls call ih =>
    rw [storeAfter, after_snoc, counterAt_call, entrySets, countSteps_snoc, ih]
    by_cases hwrites : Writes b i (after sharedCall vwasmSharedDataNew calls) call
    · rw [if_pos hwrites, if_pos hwrites, versionOf_succ]
      rfl
    · rw [if_neg hwrites, if_neg hwrites]
      rfl

end Counting

theorem exists_counterAt (sd : SharedStore) (b : Fin sharedDataBuckets) (e : SharedEntry)
    (he : e ∈ sd b) : ∃ i, counterAt sd b i = some e.cas := by
  obtain ⟨i, hi, hget⟩ := List.getElem_of_mem (List.mem_reverse.mpr he)
  exact ⟨i, by rw [counterAt, oldestFirst, List.getElem?_eq_getElem hi, hget, Option.map_some]⟩

theorem exists_entry (sd : SharedStore) (b : Fin sharedDataBuckets) (i : ℕ) (cas : UInt32)
    (h : counterAt sd b i = some cas) : ∃ e ∈ sd b, e.cas = cas := by
  obtain ⟨e, hget, hcas⟩ := Option.map_eq_some_iff.mp h
  exact ⟨e, List.mem_reverse.mp (List.mem_of_getElem? hget), hcas⟩

/-- The value 0 stays reserved exactly as long as no entry is set `2 ^ 32` times. -/
theorem casReserved_iff (calls : List SharedCall) :
    CasReserved calls ↔ ∀ b i, entrySets calls b i < 2 ^ 32 := by
  constructor
  · intro h b i
    by_contra hmany
    obtain ⟨pre, hpre, hcount⟩ :=
      exists_countSteps_eq sharedCall (Writes b i) vwasmSharedDataNew calls (2 ^ 32) (by
        rw [entrySets] at hmany
        omega)
    have hcounter := counterAt_after pre b i
    rw [entrySets, hcount] at hcounter
    obtain ⟨e, he, hcas⟩ := exists_entry _ b i 0 hcounter
    exact h.nonzero pre hpre b e he hcas
  · intro hfew
    have hnonzero (pre : List SharedCall) (hpre : pre <+: calls) (b : Fin sharedDataBuckets)
        (e : SharedEntry) (he : e ∈ storeAfter pre b) : e.cas ≠ 0 := by
      obtain ⟨i, hcounter⟩ := exists_counterAt _ b e he
      have hle := countSteps_le_of_prefix sharedCall (Writes b i) vwasmSharedDataNew pre calls hpre
      rw [counterAt_after] at hcounter
      exact versionOf_ne_zero _ _ (lt_of_le_of_lt hle (hfew b i)) hcounter
    refine ⟨hnonzero, ?_⟩
    intro pre mid key alloc old cas value env e hmid hget hfind hne hok
    have hcas : cas ≠ 0 := by
      obtain ⟨d, hd, rfl⟩ := Option.map_eq_some_iff.mp (version_get _ key old cas alloc hget)
      exact hnonzero pre ((List.prefix_append ..).trans hmid) _ d (List.mem_of_find?_eq_some hd)
    refine hne (version_of_ok _ key value cas e.cas env hcas ?_ hok)
    rw [version, find, ← entryMatches_eq, hfind, Option.map_some]

/-- The same set of one key, again and again. -/
def repeatedSet : SharedCall := .set (ascii "k") [] 0 {}

def oneEntry (cas : UInt32) : SharedStore :=
  Function.update vwasmSharedDataNew (bucketOf (ascii "k")) [⟨ascii "k" ++ [0], [], cas⟩]

theorem repeatedSet_oneEntry (cas : UInt32) :
    (sharedCall (oneEntry cas) repeatedSet).2 = oneEntry (cas + 1) := by
  have hmatches : entryMatches (ascii "k") ⟨ascii "k" ++ [0], [], cas⟩ = true := rfl
  have hfits : Fits (ascii "k") [] {} := by decide
  rw [repeatedSet, sharedCall, vwasmSharedDataSet_eq, if_neg (not_not.mpr hfits), find,
    ← entryMatches_eq, oneEntry, Function.update_self, List.find?_cons_of_pos hmatches]
  dsimp only
  rw [if_neg (by simp), Lib.HashChains.modify, ← entryMatches_eq, Function.update_self, modifyFirst,
    if_pos hmatches, Function.update_idem]
  rfl

theorem repeatedSet_new : (sharedCall vwasmSharedDataNew repeatedSet).2 = oneEntry 1 := by
  have hfits : Fits (ascii "k") [] {} := by decide
  have hfind : find bucketOf entryName vwasmSharedDataNew (ascii "k") = none := List.find?_nil
  rw [repeatedSet, sharedCall, vwasmSharedDataSet_eq, if_neg (not_not.mpr hfits), hfind]
  dsimp only
  rw [Bool.and_self, if_pos rfl]
  rfl

theorem storeAfter_repeatedSet (n : ℕ) (hn : 0 < n) :
    storeAfter (List.replicate n repeatedSet) = oneEntry (UInt32.ofNat n) := by
  induction n, hn using Nat.le_induction with
  | base => exact repeatedSet_new
  | succ n hn ih =>
    rw [List.replicate_succ', storeAfter, after_snoc, ← storeAfter, ih, repeatedSet_oneEntry,
      UInt32.ofNat_add]
    rfl

/-- After `2 ^ 32` sets a client reads the counter 0. When another client has set
the key once more, the update by that counter still goes through. -/
theorem repeatedSet_unconditional :
    vwasmSharedDataGet (storeAfter (List.replicate (2 ^ 32) repeatedSet)) (ascii "k") true =
        some ([], 0) ∧
      vwasmSharedDataGet (storeAfter (List.replicate (2 ^ 32 + 1) repeatedSet)) (ascii "k") true =
        some ([], 1) ∧
      (vwasmSharedDataSet (storeAfter (List.replicate (2 ^ 32 + 1) repeatedSet)) (ascii "k")
        (ascii "lost") 0 {}).1 = .ok := by
  rw [storeAfter_repeatedSet _ (Nat.two_pow_pos 32), storeAfter_repeatedSet _ (Nat.succ_pos _)]
  decide +kernel

end VmodWasm.CasCounter
