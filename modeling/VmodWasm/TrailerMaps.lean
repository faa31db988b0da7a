import VmodWasm.HeaderLines
import VmodWasm.Lib.SwapRemoval

/-!
The trailer maps, arrays of at most 32 entries. A name may stand in a map more
than once. The removal of a name takes out the first entry of that name and moves
the last entry of the array into its place; a replacement is a removal and then
an addition, whose result is not looked at.
-/
namespace VmodWasm.TrailerMaps

open ByteStrings ByteSearch ProxyContext HeaderFields HeaderMapPairs HeaderLookup CheckedHelpers
  Lib.CheckedMemory Lib.SwapRemoval Lib.Transition

structure TrailerMap where
  entries : Fields
  count_le : entries.length ≤ maxTrailers

/-- Whether an entry gets the memory for its name and its value. -/
structure EntryAlloc where
  name : Bool := true
  value : Bool := true

/-- The calls that change a trailer map, with the bytes as they are read from the
guest. -/
inductive TrailerCall where
  | addHeaderMapValue (key value : Bytes)
  | replaceHeaderMapValue (key value : Bytes)
  | removeHeaderMapValue (key : Bytes)
  | setHeaderMapPairs (pairs : Pairs)

section Model

/-- The comparison of an entry with a name. -/
def hasName (name : Bytes) (e : Bytes × Bytes) : Bool :=
  e.1.length == name.length && caseEq e.1 name

def pwTrailerAdd (alloc : EntryAlloc) (tm : TrailerMap) (name value : Bytes) : Option TrailerMap :=
  if hroom : tm.entries.length < maxTrailers then
    if alloc.name && alloc.value then
      some ⟨tm.entries ++ [(name, value)], by
        rw [List.length_append]
        exact hroom⟩
    else none
  else none

def pwTrailerRemove (tm : TrailerMap) (name : Bytes) : TrailerMap :=
  match tm.entries.findIdx? (hasName name) with
  | none => tm
  | some i => ⟨swapRemove tm.entries i, by
      rw [length_swapRemove]
      exact (Nat.sub_le _ _).trans tm.count_le⟩

def pwTrailerClear : TrailerMap := ⟨[], Nat.zero_le _⟩

/-- The loop over the pairs, from pair `i` on. -/
def putTrailers (alloc : ℕ → EntryAlloc) : ℕ → Pairs → TrailerMap → TrailerMap
  | _, [], tm => tm
  | i, p :: ps, tm =>
    if Used p.1.length p.2.length then
      putTrailers alloc (i + 1) ps ((pwTrailerAdd (alloc i) tm p.1 p.2).getD tm)
    else putTrailers alloc (i + 1) ps tm

def trailerCall (alloc : ℕ → EntryAlloc) (tm : TrailerMap) :
    TrailerCall → ProxyStatus × TrailerMap
  | .addHeaderMapValue key value =>
    if 256 ≤ key.length ∨ 4096 ≤ value.length then (.badArgument, tm)
    else
      match pwTrailerAdd (alloc 0) tm (cstr key) (cstr value) with
      | none => (.internal, tm)
      | some tm => (.ok, tm)
  | .replaceHeaderMapValue key value =>
    if 256 ≤ key.length ∨ 4096 ≤ value.length then (.badArgument, tm)
    else
      let tm := pwTrailerRemove tm (cstr key)
      (.ok, (pwTrailerAdd (alloc 0) tm (cstr key) (cstr value)).getD tm)
  | .removeHeaderMapValue key =>
    if 256 ≤ key.length then (.badArgument, tm) else (.ok, pwTrailerRemove tm (cstr key))
  | .setHeaderMapPairs pairs =>
    if 256 < pairs.length then (.badArgument, tm)
    else (.ok, putTrailers alloc 0 pairs pwTrailerClear)

def trailerStep (tm : TrailerMap) (c : (ℕ → EntryAlloc) × TrailerCall) (tm' : TrailerMap) : Prop :=
  (trailerCall c.1 tm c.2).2 = tm'

end Model

section Semantics

variable (tm : TrailerMap) (k : Bytes)

/-- The lookup of a name in the request's trailers. -/
def lookup : Except ProxyStatus Bytes :=
  pwProxyGetHeaderMapValue { requestTrailers := tm.entries } .httpRequestTrailers k

/-- The entries that a call with the name `k` is about; a name is a C string. -/
def namedEntries : Fields := tm.entries.filter (hasName (cstr k))

def otherEntries : Fields := tm.entries.filter fun e => !hasName (cstr k) e

/-- What the calls on a map with names promise. -/
def KeepsPromise (c : (ℕ → EntryAlloc) × TrailerCall) : Prop :=
  let r := trailerCall c.1 tm c.2
  match c.2 with
  | .replaceHeaderMapValue k v =>
    (r.1 = .ok → lookup r.2 k = .ok v ∧ (namedEntries r.2 k).length = 1) ∧
      otherEntries r.2 k = otherEntries tm k
  | .removeHeaderMapValue k =>
    lookup r.2 k = .error .notFound ∧ otherEntries r.2 k = otherEntries tm k
  | .addHeaderMapValue .. | .setHeaderMapPairs .. => True

/-- The entries behind the first one of the name, if there is one. -/
def entriesBehind : Fields := (tm.entries.dropWhile fun e => !hasName (cstr k) e).tail

/-- The last entry has the name, too, or is the same as all entries of other names
that it passes on its way into the hole. -/
def OrderSafe : Prop :=
  ∀ y, (entriesBehind tm k).getLast? = some y → hasName (cstr k) y = false →
    ∀ e ∈ entriesBehind tm k, hasName (cstr k) e = false → e = y

/-- The addition finds room, since the array is not full or an entry is removed. -/
def Addable (alloc : EntryAlloc) : Prop :=
  (alloc.name && alloc.value) = true ∧
    (tm.entries.length < maxTrailers ∨ ∃ e ∈ tm.entries, hasName (cstr k) e = true)

instance (alloc : EntryAlloc) : Decidable (Addable tm k alloc) :=
  inferInstanceAs (Decidable (_ ∧ _))

/-- When a call keeps its promise. -/
def PromiseSafe (c : (ℕ → EntryAlloc) × TrailerCall) : Prop :=
  match c.2 with
  | .replaceHeaderMapValue k v =>
    k.length < 256 → v.length < 4096 →
      OrderSafe tm k ∧
        if Addable tm k (c.1 0) then
          -- no second entry of the name, and a value that is not cut
          (∀ e ∈ entriesBehind tm k, hasName (cstr k) e = false) ∧ 0 ∉ v
        else
          -- the second entry of the name, of two, has the new value already
          ((entriesBehind tm k).filter (hasName (cstr k))).map Prod.snd = [v]
  | .removeHeaderMapValue k =>
    k.length < 256 ∧ OrderSafe tm k ∧ ∀ e ∈ entriesBehind tm k, hasName (cstr k) e = false
  | .addHeaderMapValue .. | .setHeaderMapPairs .. => True

end Semantics

section Entries

variable (tm : TrailerMap) (k : Bytes)

theorem hasName_self (name value : Bytes) : hasName name (name, value) = true := by
  simp [hasName, caseEq]

theorem pwTrailerGet_eq_head (es : Fields) (name : Bytes) :
    pwTrailerGet es name = ((es.filter (hasName name)).map Prod.snd).head? := by
  rw [pwTrailerGet]
  induction es with
  | nil => rfl
  | cons e es ih =>
    rw [List.findSome?_cons, ih, List.filter_cons]
    by_cases hname : e.1.length = name.length ∧ caseEq e.1 name = true
    · simp [hasName, hname.1, hname.2]
    · have hnot : hasName name e = false := by
        rw [Bool.eq_false_iff, hasName, Ne, Bool.and_eq_true, beq_iff_eq]
        exact hname
      simp [hname, hnot]

/-- The values of the name are all that a lookup sees. -/
theorem lookup_eq (hk : k.length < 256) :
    lookup tm k = found ((namedEntries tm k).map Prod.snd).head? := by
  have hsize : ¬ 256 ≤ k.length := by omega
  simp only [lookup, pwProxyGetHeaderMapValue, if_neg hsize, pwTrailerGet_eq_head, namedEntries]

theorem lookup_unique_iff (hk : k.length < 256) (v : Bytes) :
    (lookup tm k = .ok v ∧ (namedEntries tm k).length = 1) ↔
      (namedEntries tm k).map Prod.snd = [v] := by
  rw [lookup_eq tm k hk]
  rcases namedEntries tm k with _ | ⟨e, _ | ⟨e', es⟩⟩ <;> simp [found]

theorem lookup_notFound_iff (hk : k.length < 256) :
    lookup tm k = .error .notFound ↔ namedEntries tm k = [] := by
  rw [lookup_eq tm k hk]
  rcases namedEntries tm k with _ | ⟨e, es⟩ <;> simp [found]

/-- Either no entry has the name, or the map is split at the first one. -/
theorem entries_split :
    (entriesBehind tm k = [] ∧ namedEntries tm k = [] ∧ pwTrailerRemove tm (cstr k) = tm) ∨
      ∃ front x, tm.entries = front ++ x :: entriesBehind tm k ∧ hasName (cstr k) x = true ∧
        (∀ e ∈ front, hasName (cstr k) e = false) ∧
        (pwTrailerRemove tm (cstr k)).entries = front ++ lastFirst (entriesBehind tm k) := by
  have hsplit := List.takeWhile_append_dropWhile (p := fun e => !hasName (cstr k) e)
    (l := tm.entries)
  cases hdrop : tm.entries.dropWhile fun e => !hasName (cstr k) e with
  | nil =>
    have hnone : ∀ e ∈ tm.entries, hasName (cstr k) e = false := by
      simpa using List.dropWhile_eq_nil_iff.mp hdrop
    refine Or.inl ⟨by rw [entriesBehind, hdrop]; rfl, ?_, ?_⟩
    · simpa [namedEntries] using hnone
    · rw [pwTrailerRemove, List.findIdx?_eq_none_iff.mpr hnone]
  | cons x behind =>
    set front := tm.entries.takeWhile fun e => !hasName (cstr k) e
    have hfront : ∀ e ∈ front, hasName (cstr k) e = false := by
      intro e he
      simpa using List.mem_takeWhile_imp he
    have hx : hasName (cstr k) x = true := by
      have hhead := List.head?_dropWhile_not (fun e => !hasName (cstr k) e) tm.entries
      simpa [hdrop] using hhead
    have hbehind : entriesBehind tm k = behind := by rw [entriesBehind, hdrop]; rfl
    rw [hdrop] at hsplit
    refine Or.inr ⟨front, x, by rw [hbehind, hsplit], hx, hfront, ?_⟩
    have hfind : tm.entries.findIdx? (hasName (cstr k)) = some front.length := by
      rw [← hsplit, List.findIdx?_append, List.findIdx?_eq_none_iff.mpr hfront,
        List.findIdx?_cons, hx]
      simp
    rw [pwTrailerRemove, hfind, hbehind]
    dsimp only
    rw [← hsplit, swapRemove_append]

end Entries

section Removal

variable (tm : TrailerMap) (k : Bytes)

/-- Only the first entry of the name is gone. -/
theorem namedEntries_remove :
    (namedEntries (pwTrailerRemove tm (cstr k)) k).Perm
      ((entriesBehind tm k).filter (hasName (cstr k))) := by
  rcases entries_split tm k with ⟨hbehind, hnone, hsame⟩ | ⟨front, x, -, -, hfront, hentries⟩
  · rw [hsame, hbehind, hnone]
    exact List.Perm.refl _
  · have hempty : front.filter (hasName (cstr k)) = [] := by
      simpa using hfront
    rw [namedEntries, hentries, List.filter_append, hempty, List.nil_append]
    exact (perm_lastFirst _).filter _

theorem namedEntries_remove_nil_iff :
    namedEntries (pwTrailerRemove tm (cstr k)) k = [] ↔
      ∀ e ∈ entriesBehind tm k, hasName (cstr k) e = false := by
  rw [← List.length_eq_zero_iff, (namedEntries_remove tm k).length_eq, List.length_eq_zero_iff,
    List.filter_eq_nil_iff]
  simp only [Bool.not_eq_true]

theorem otherEntries_remove_iff :
    otherEntries (pwTrailerRemove tm (cstr k)) k = otherEntries tm k ↔ OrderSafe tm k := by
  rcases entries_split tm k with ⟨hbehind, -, hsame⟩ | ⟨front, x, hsplit, hx, -, hentries⟩
  · rw [hsame, OrderSafe, hbehind]
    exact iff_of_true rfl (fun y hy => absurd hy (by simp))
  · have hmoved := filter_lastFirst_eq_iff (fun e => !hasName (cstr k) e) (entriesBehind tm k)
    simp only [Bool.not_eq_true'] at hmoved
    have hrest : (x :: entriesBehind tm k).filter (fun e => !hasName (cstr k) e) =
        (entriesBehind tm k).filter fun e => !hasName (cstr k) e := by
      simp [hx]
    rw [otherEntries, otherEntries, hentries, hsplit, List.filter_append, List.filter_append, hrest,
      List.append_cancel_left_eq, hmoved, OrderSafe]

/-- A removal makes room in a full array. -/
theorem length_remove_lt_iff :
    (pwTrailerRemove tm (cstr k)).entries.length < maxTrailers ↔
      tm.entries.length < maxTrailers ∨ ∃ e ∈ tm.entries, hasName (cstr k) e = true := by
  rcases entries_split tm k with ⟨-, hnone, hsame⟩ | ⟨front, x, hsplit, hx, -, hentries⟩
  · have hfree : ¬ ∃ e ∈ tm.entries, hasName (cstr k) e = true := by
      intro h
      obtain ⟨e, he, hname⟩ := h
      exact absurd hname (List.filter_eq_nil_iff.mp hnone e he)
    rw [hsame, or_iff_left hfree]
  · have hlen : (lastFirst (entriesBehind tm k)).length = (entriesBehind tm k).length :=
      (perm_lastFirst _).length_eq
    have hle := tm.count_le
    refine iff_of_true ?_ (Or.inr ⟨x, by rw [hsplit]; simp, hx⟩)
    rw [hsplit, List.length_append, List.length_cons] at hle
    rw [hentries, List.length_append, hlen]
    omega

/-- The map after a replacement. -/
theorem entries_replace (alloc : EntryAlloc) (v : Bytes) :
    ((pwTrailerAdd alloc (pwTrailerRemove tm (cstr k)) (cstr k) (cstr v)).getD
        (pwTrailerRemove tm (cstr k))).entries =
      (pwTrailerRemove tm (cstr k)).entries ++
        if Addable tm k alloc then [(cstr k, cstr v)] else [] := by
  have hadd : Addable tm k alloc ↔ (alloc.name && alloc.value) = true ∧
      (pwTrailerRemove tm (cstr k)).entries.length < maxTrailers := by
    rw [Addable, length_remove_lt_iff]
  simp only [pwTrailerAdd, hadd]
  by_cases hroom : (pwTrailerRemove tm (cstr k)).entries.length < maxTrailers
  · by_cases halloc : (alloc.name && alloc.value) = true
    · simp only [hroom, halloc, dite_true, if_true, Option.getD_some, and_self]
    · simp [hroom, halloc]
  · simp [hroom]

end Removal

section Promises

variable (tm : TrailerMap) (alloc : ℕ → EntryAlloc) (k v : Bytes)

theorem cstr_eq_iff (v : Bytes) : cstr v = v ↔ 0 ∉ v := by
  constructor
  · intro h
    rw [← h]
    exact nul_notMem_cstr v
  · exact cstr_eq_self

theorem keepsPromise_replace :
    KeepsPromise tm (alloc, .replaceHeaderMapValue k v) ↔
      PromiseSafe tm (alloc, .replaceHeaderMapValue k v) := by
  simp only [KeepsPromise, PromiseSafe, trailerCall]
  split
  next hlong =>
    apply iff_of_true ⟨fun h => by simp at h, rfl⟩
    intro hk hv
    omega
  next hshort =>
    have hk : k.length < 256 := by omega
    have hv : v.length < 4096 := by omega
    have hentries := entries_replace tm k (alloc 0) v
    set tm' := (pwTrailerAdd (alloc 0) (pwTrailerRemove tm (cstr k)) (cstr k) (cstr v)).getD
      (pwTrailerRemove tm (cstr k))
    have hothers : otherEntries tm' k = otherEntries (pwTrailerRemove tm (cstr k)) k := by
      rw [otherEntries, hentries, List.filter_append]
      split
      next => simp [hasName_self, otherEntries]
      next => simp [otherEntries]
    have hnamed : namedEntries tm' k = namedEntries (pwTrailerRemove tm (cstr k)) k ++
        if Addable tm k (alloc 0) then [(cstr k, cstr v)] else [] := by
      rw [namedEntries, hentries, List.filter_append]
      split
      next => simp [hasName_self, namedEntries]
      next => simp [namedEntries]
    have hperm := namedEntries_remove tm k
    simp only [hk, hv, true_implies]
    rw [lookup_unique_iff tm' k hk v, hothers, otherEntries_remove_iff, and_comm, hnamed]
    refine and_congr_right fun _ => ?_
    split
    next =>
      rw [← namedEntries_remove_nil_iff, ← cstr_eq_iff, List.map_append, List.map_singleton]
      constructor
      · intro h
        have hlen := congrArg List.length h
        simp only [List.length_append, List.length_map, List.length_singleton] at hlen
        have hnil := List.length_eq_zero_iff.mp
          (show (namedEntries (pwTrailerRemove tm (cstr k)) k).length = 0 by omega)
        refine ⟨hnil, ?_⟩
        simpa [hnil] using h
      · intro h
        simp [h.1, h.2]
    next =>
      rw [List.append_nil]
      constructor
      · intro h
        exact List.perm_singleton.mp ((hperm.symm.map Prod.snd).trans (h ▸ List.Perm.refl _))
      · intro h
        exact List.perm_singleton.mp ((hperm.map Prod.snd).trans (h ▸ List.Perm.refl _))

theorem keepsPromise_remove :
    KeepsPromise tm (alloc, .removeHeaderMapValue k) ↔
      PromiseSafe tm (alloc, .removeHeaderMapValue k) := by
  simp only [KeepsPromise, PromiseSafe, trailerCall]
  split
  next hlong =>
    apply iff_of_false
    · intro h
      simp [lookup, pwProxyGetHeaderMapValue, hlong] at h
    · intro h
      omega
  next hshort =>
    have hk : k.length < 256 := by omega
    rw [lookup_notFound_iff _ k hk, otherEntries_remove_iff, namedEntries_remove_nil_iff,
      and_iff_right hk, and_comm]

theorem keepsPromise_iff (c : (ℕ → EntryAlloc) × TrailerCall) :
    KeepsPromise tm c ↔ PromiseSafe tm c := by
  obtain ⟨alloc, call⟩ := c
  cases call with
  | addHeaderMapValue key value => exact Iff.rfl
  | replaceHeaderMapValue key value => exact keepsPromise_replace tm alloc key value
  | removeHeaderMapValue key => exact keepsPromise_remove tm alloc key
  | setHeaderMapPairs pairs => exact Iff.rfl

end Promises

section Loop

/-- The loop over a guest's memory does to a trailer map what `putTrailers` does
with the pairs it reads. -/
theorem setPairsAt_putTrailers (nameAlloc valueAlloc : ℕ → Bool) (data size : ℕ) (h : Heap)
    (n i offset : ℕ) (tm : TrailerMap)
    (hrun : Sat (setPairsAt (.trailers nameAlloc valueAlloc) data size n i offset tm.entries)
      (fun _ _ => True) h) :
    Sat (setPairsAt (.trailers nameAlloc valueAlloc) data size n i offset tm.entries)
      (fun r _ => r.1 = .ok ∧ ∃ ps : Pairs, ps.length ≤ n ∧
        (putTrailers (fun j => ⟨nameAlloc j, valueAlloc j⟩) i ps tm).entries = r.2) h := by
  have hrule := setPairsAt_rule (.trailers nameAlloc valueAlloc) data size h (fun n i put r =>
    ∀ tm : TrailerMap, tm.entries = put → r.1 = .ok ∧ ∃ ps : Pairs, ps.length ≤ n ∧
      (putTrailers (fun j => ⟨nameAlloc j, valueAlloc j⟩) i ps tm).entries = r.2)
    ?_ ?_ ?_ n i offset tm.entries hrun
  · exact hrule.mono fun r _ hr => hr tm rfl
  · intro n i put tm htm
    exact ⟨rfl, [], Nat.zero_le _, htm⟩
  · -- a pair that does not get into the map stands for itself as an empty one
    intro n i put r hr tm htm
    obtain ⟨hok, ps, hlen, hps⟩ := hr tm htm
    exact ⟨hok, ([], []) :: ps, Nat.succ_le_succ hlen, hps⟩
  · intro n i put keyAddr ks valAddr vs hused hreads
    by_cases hfail : maxTrailers ≤ put.length ∨ nameAlloc i = false ∨ valueAlloc i = false
    · simp only [pairPut, if_pos hfail]
      intro r hr tm htm
      obtain ⟨hok, ps, hlen, hps⟩ := hr tm htm
      exact ⟨hok, ([], []) :: ps, Nat.succ_le_succ hlen, hps⟩
    · simp only [pairPut, if_neg hfail]
      intro r hr tm htm
      have hroom : tm.entries.length < maxTrailers := by
        rw [htm]
        omega
      have hname : nameAlloc i = true := by simpa using fun h => hfail (Or.inr (Or.inl h))
      have hvalue : valueAlloc i = true := by simpa using fun h => hfail (Or.inr (Or.inr h))
      have hin : InRange h.bytes.length keyAddr ks ∧ InRange h.bytes.length valAddr vs := by
        rw [htm] at hroom
        simpa [PairReads, Nat.not_le.mpr hroom, hname, hvalue] using hreads
      set p : Bytes × Bytes := ((h.bytes.drop keyAddr).take ks, (h.bytes.drop valAddr).take vs)
      have hpair : Used p.1.length p.2.length := HeaderLines.used_of_read hused (Or.inr hin.1)
      obtain ⟨tm', hadd, hentries⟩ : ∃ tm', pwTrailerAdd ⟨nameAlloc i, valueAlloc i⟩ tm p.1
          p.2 = some tm' ∧ tm'.entries = tm.entries ++ [p] :=
        ⟨_, by rw [pwTrailerAdd, dif_pos hroom, hname, hvalue]; rfl, rfl⟩
      obtain ⟨hok, ps, hlen, hps⟩ := hr tm' (hentries.trans (by rw [htm]))
      refine ⟨hok, p :: ps, Nat.succ_le_succ hlen, ?_⟩
      rw [putTrailers, if_pos hpair, hadd]
      exact hps

end Loop

/-- The sequences of calls in which every replacement and removal keeps its
promise are those in which each of them is safe where it is made. -/
theorem promisedRun_iff (tm tm' : TrailerMap) (cs : List ((ℕ → EntryAlloc) × TrailerCall)) :
    Run (Guarded KeepsPromise trailerStep) tm cs tm' ↔
      Run (Guarded PromiseSafe trailerStep) tm cs tm' :=
  Run.guarded_congr keepsPromise_iff tm tm' cs

/-- Memory for every entry. -/
def plenty : ℕ → EntryAlloc := fun _ => {}

/-- A name that stands in the map twice is found after its removal. -/
theorem removedTwin_found :
    ∃ tm, Run trailerStep pwTrailerClear
        [(plenty, .addHeaderMapValue (ascii "a") (ascii "1")),
          (plenty, .addHeaderMapValue (ascii "a") (ascii "2")),
          (plenty, .removeHeaderMapValue (ascii "a"))] tm ∧
      lookup tm (ascii "a") = .ok (ascii "2") :=
  ⟨_, Run.cons rfl (Run.cons rfl (Run.cons rfl (Run.nil _))), by decide +kernel⟩

end VmodWasm.TrailerMaps
