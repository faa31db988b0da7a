import VmodWasm.Lib.Mealy
import VmodWasm.ProxyCalls

/-!
The metric store, which the contexts of an engine share. Every call has one
section under the lock of the store, so that calls of many contexts are a
sequence in the order in which they hold the lock. A metric has the position of
its first definition for an id, and no call moves or renames it.
-/
namespace VmodWasm.MetricStore

open ByteStrings ProxyContext ProxyCalls Lib.Mealy

abbrev Store := List Metric

/-- An `int64_t` that can be negated. -/
abbrev Offset := { o : ℤ // -2 ^ 63 < o ∧ o < 2 ^ 63 }

/-- A call; `written` says whether the guest's memory takes the result. -/
inductive MetricCall where
  | define (type : ℤ) (name : Bytes) (written : Bool)
  | increment (metricId : UInt32) (offset : Offset)
  | record (metricId : UInt32) (value : UInt64)
  | get (metricId : UInt32) (written : Bool)

/-- A status, and the number that has been written to the guest. -/
abbrev Reply := ProxyStatus × Option ℕ

section Calls

variable (s : Store)

def definedId (written : Bool) (metricId : ℕ) : Reply :=
  if written then (.ok, some metricId) else (.internal, none)

def pwProxyDefineMetric (type : ℤ) (name : Bytes) (written : Bool) : Reply × Store :=
  if metricMaxName ≤ name.length then ((.badArgument, none), s)
  else
    match s.findIdx? fun m => m.name.length == name.length && m.name == name with
    | some i => (definedId written (i + 1), s)
    | none =>
      if maxMetrics ≤ s.length then ((.internal, none), s)
      else (definedId written (s.length + 1), s ++ [{ name := name, type := type, value := 0 }])

/-- An id that no metric has. -/
def Unknown (metricId : UInt32) : Prop := metricId = 0 ∨ s.length < metricId.toNat

instance (metricId : UInt32) : Decidable (Unknown s metricId) :=
  inferInstanceAs (Decidable (metricId = 0 ∨ s.length < metricId.toNat))

/-- The calls that change a value. -/
def changeMetric (metricId : UInt32) (f : ℕ → ℕ) : Reply × Store :=
  if Unknown s metricId then ((.badArgument, none), s)
  else
    ((.ok, none), s.modify (metricId.toNat - 1) fun m => { m with value := f m.value })

def addOffset (offset : Offset) (value : ℕ) : ℕ :=
  if 0 ≤ offset.1 then (value + offset.1.toNat) % 2 ^ 64
  else if (-offset.1).toNat ≤ value then value - (-offset.1).toNat
  else 0

def pwProxyIncrementMetric (metricId : UInt32) (offset : Offset) : Reply × Store :=
  changeMetric s metricId (addOffset offset)

def pwProxyRecordMetric (metricId : UInt32) (value : UInt64) : Reply × Store :=
  changeMetric s metricId fun _ => value.toNat

def pwProxyGetMetric (metricId : UInt32) (written : Bool) : Reply × Store :=
  if Unknown s metricId then ((.badArgument, none), s)
  else
    match s[metricId.toNat - 1]? with
    | some m => (if written then (.ok, some m.value) else (.badArgument, none), s)
    | none => ((.badArgument, none), s)

/-- A call of some context. -/
def metricStep (call : ℕ × MetricCall) : Reply × Store :=
  match call.2 with
  | .define type name written => pwProxyDefineMetric s type name written
  | .increment metricId offset => pwProxyIncrementMetric s metricId offset
  | .record metricId value => pwProxyRecordMetric s metricId value
  | .get metricId written => pwProxyGetMetric s metricId written

end Calls

section Memory

open GuestMemory CheckedHelpers HelperBodies

/-! The functions of `ProxyCalls` read the name and write the result; they answer
what these answer, and what has been written is in the guest's memory. -/

variable (side : GuestSide) (mem : Bytes) (s : Store)

/-- A reply with the memory that `put` leaves. -/
def handOver (put : ℕ → Bool × Bytes) (reply : Reply) : ProxyStatus × Bytes :=
  (reply.1, reply.2.elim mem fun n => (put n).2)

theorem eval_definedId (retId : UInt32) (metricId : ℕ) :
    (HelperBody.give (.u32 retId metricId .internal) (.done .ok)).eval side mem =
      handOver mem (putU32 side.valid mem retId)
        (definedId (pwValidateRegion side.valid mem retId 4) metricId) := by
  rw [HelperBody.eval_u32]
  simp only [handOver, putU32, definedId, pwWriteU32]
  cases pwValidateRegion side.valid mem retId 4 <;> rfl

theorem pwProxyDefineMetric_eval (type : ℤ) (namePtr nameSize retId : UInt32) :
    (ProxyCalls.pwProxyDefineMetric (some s) namePtr nameSize retId).eval side mem =
      match pwReadString side.valid mem namePtr nameSize metricMaxName with
      | none => (.badArgument, mem)
      | some name =>
        handOver mem (putU32 side.valid mem retId)
          (pwProxyDefineMetric s type name (pwValidateRegion side.valid mem retId 4)).1 := by
  rw [ProxyCalls.pwProxyDefineMetric, HelperBody.eval_string]
  rcases hname : pwReadString side.valid mem namePtr nameSize metricMaxName with _ | name
  · rfl
  · have hshort := pwReadString_lt _ _ _ _ _ _ (by decide) hname
    -- the search by length and bytes is a search by name
    have hsearch : (fun m : Metric => m.name.length == name.length && m.name == name) =
        fun m => m.name == name := by
      funext m
      by_cases heq : m.name = name <;> simp [heq]
    simp only [pwProxyDefineMetric, if_neg (Nat.not_le.mpr hshort), hsearch]
    rcases List.findIdx? (fun m : Metric => m.name == name) s with _ | i
    · by_cases hfull : maxMetrics ≤ s.length
      · simp only [if_pos hfull]
        rfl
      · simp only [if_neg hfull]
        exact eval_definedId side mem retId (s.length + 1)
    · exact eval_definedId side mem retId (i + 1)

theorem pwProxyGetMetric_eval (metricId retValue : UInt32) :
    (ProxyCalls.pwProxyGetMetric (some s) metricId retValue).eval side mem =
      handOver mem (putU64 side.valid mem retValue)
        (pwProxyGetMetric s metricId (pwValidateRegion side.valid mem retValue 8)).1 := by
  unfold ProxyCalls.pwProxyGetMetric pwProxyGetMetric
  by_cases hzero : metricId = 0
  · simp only [if_pos hzero, if_pos (show Unknown s metricId from Or.inl hzero)]
    rfl
  · by_cases hlong : s.length < metricId.toNat
    · have hnone : s[metricId.toNat - 1]? = none := List.getElem?_eq_none (by omega)
      simp only [if_neg hzero, hnone, if_pos (show Unknown s metricId from Or.inr hlong)]
      rfl
    · have hknown : ¬ Unknown s metricId := fun h => h.elim hzero hlong
      simp only [if_neg hzero, if_neg hknown]
      rcases s[metricId.toNat - 1]? with _ | m
      · rfl
      · simp only [HelperBody.eval, Give.plain, handOver, putU64]
        cases pwValidateRegion side.valid mem retValue 8 <;> rfl

end Memory

section Specification

/-- What a call means for the value of a metric. -/
inductive Change where
  | add (n : ℕ)
  | subtract (n : ℕ)
  | set (n : ℕ)

/-- Sums wrap at 2^64, differences stop at 0. -/
def Change.apply (value : ℕ) : Change → ℕ
  | .add n => (value + n) % 2 ^ 64
  | .subtract n => value - n
  | .set n => n

def changeOf (metricId : ℕ) : MetricCall → Option Change
  | .increment id offset =>
    if id.toNat = metricId then
      some (if 0 ≤ offset.1 then .add offset.1.toNat else .subtract (-offset.1).toNat)
    else none
  | .record id value => if id.toNat = metricId then some (.set value.toNat) else none
  | _ => none

/-- The changes that calls make to one metric, in order. -/
def changesOf (metricId : ℕ) (calls : List (ℕ × MetricCall)) : List Change :=
  calls.filterMap fun call => changeOf metricId call.2

/-- The store after a sequence of calls. -/
def storeAfter (calls : List (ℕ × MetricCall)) : Store := after metricStep [] calls

/-- The calls that name a metric by its id. -/
def idOf : MetricCall → Option UInt32
  | .define .. => none
  | .increment metricId _ | .record metricId _ | .get metricId _ => some metricId

/-- What the metrics are after a sequence of calls. -/
structure StoreSpec (calls : List (ℕ × MetricCall)) : Prop where
  count : (storeAfter calls).length ≤ maxMetrics
  distinct : ((storeAfter calls).map (·.name)).Nodup
  /-- A metric stands where its name was first defined, with the type it was given
  there, and its value is made by the changes to it since then. -/
  origin : ∀ (i : ℕ) (m : Metric), (storeAfter calls)[i]? = some m →
    ∃ before context written rest,
      calls = before ++ (context, .define m.type m.name written) :: rest ∧
      (storeAfter before).length = i ∧ (∀ m' ∈ storeAfter before, m'.name ≠ m.name) ∧
      m.value = (changesOf (i + 1) rest).foldl Change.apply 0
  /-- Later calls leave the name and type of an id alone. -/
  stable : ∀ more (i : ℕ) (m : Metric), (storeAfter calls)[i]? = some m →
    ∃ m' : Metric, (storeAfter (calls ++ more))[i]? = some m' ∧ m'.name = m.name ∧ m'.type = m.type
  redefine : ∀ context (i : ℕ) (m : Metric) type written, (storeAfter calls)[i]? = some m →
    metricStep (storeAfter calls) (context, .define type m.name written) =
      (definedId written (i + 1), storeAfter calls)
  /-- A new name gets the next id. -/
  fresh : ∀ context type name written, name.length < metricMaxName →
    (storeAfter calls).length < maxMetrics → (∀ m ∈ storeAfter calls, m.name ≠ name) →
    (metricStep (storeAfter calls) (context, .define type name written)).1 =
      definedId written ((storeAfter calls).length + 1)
  get : ∀ context (i : ℕ) (m : Metric) metricId, (storeAfter calls)[i]? = some m →
    metricId.toNat = i + 1 →
    metricStep (storeAfter calls) (context, .get metricId true) =
      ((.ok, some m.value), storeAfter calls)
  unknown : ∀ context call metricId, idOf call = some metricId →
    Unknown (storeAfter calls) metricId →
    metricStep (storeAfter calls) (context, call) = ((.badArgument, none), storeAfter calls)

end Specification

section Steps

variable {s : Store} {i : ℕ} {m : Metric}

theorem addOffset_eq (offset : Offset) (value : ℕ) :
    addOffset offset value =
      Change.apply value
        (if 0 ≤ offset.1 then .add offset.1.toNat else .subtract (-offset.1).toNat) := by
  rw [addOffset]
  split
  · rfl
  · simp only [Change.apply]
    split
    · rfl
    · omega

/-- The id of a metric is known. -/
theorem known_of_getElem {metricId : UInt32} (h : s[i]? = some m) (hid : metricId.toNat = i + 1) :
    ¬ Unknown s metricId := by
  obtain ⟨hi, -⟩ := List.getElem?_eq_some_iff.mp h
  rintro (rfl | hlong)
  · rw [UInt32.toNat_zero] at hid
    omega
  · omega

theorem toNat_eq_iff_of_known {metricId : UInt32} (h : ¬ Unknown s metricId) :
    metricId.toNat - 1 = i ↔ metricId.toNat = i + 1 := by
  have hne : metricId.toNat ≠ 0 := fun hzero =>
    h (Or.inl (UInt32.toNat_inj.mp (hzero.trans UInt32.toNat_zero.symm)))
  omega

theorem changeMetric_old (h : s[i]? = some m) (metricId : UInt32) (f : ℕ → ℕ) :
    (changeMetric s metricId f).2[i]? =
      some (if metricId.toNat = i + 1 then { m with value := f m.value } else m) := by
  unfold changeMetric
  by_cases hunknown : Unknown s metricId
  · rw [if_pos hunknown, if_neg fun hid => known_of_getElem h hid hunknown]
    exact h
  · rw [if_neg hunknown, List.getElem?_modify, h]
    simp only [toNat_eq_iff_of_known hunknown, Option.map_eq_map, Option.map_some]

theorem changeMetric_length (metricId : UInt32) (f : ℕ → ℕ) :
    (changeMetric s metricId f).2.length = s.length := by
  unfold changeMetric
  split
  · rfl
  · exact List.length_modify ..

theorem findMetric_eq_none_iff (name : Bytes) :
    s.findIdx? (fun m => m.name.length == name.length && m.name == name) = none ↔
      ∀ m ∈ s, m.name ≠ name := by
  rw [List.findIdx?_eq_none_iff]
  refine forall₂_congr fun m _ => ?_
  rw [Bool.and_eq_false_iff, beq_eq_false_iff_ne, beq_eq_false_iff_ne]
  exact ⟨fun h heq => h.elim (fun hlen => hlen (congrArg List.length heq)) fun hne => hne heq,
    Or.inr⟩

/-- A definition leaves the store alone, or appends a metric under a new name. -/
theorem define_cases (type : ℤ) (name : Bytes) (written : Bool) :
    (pwProxyDefineMetric s type name written).2 = s ∨
      ((s.length < maxMetrics ∧ name.length < metricMaxName) ∧ (∀ m ∈ s, m.name ≠ name) ∧
        (pwProxyDefineMetric s type name written).2 = s ++ [⟨name, type, 0⟩]) := by
  unfold pwProxyDefineMetric
  split
  next => exact Or.inl rfl
  next hshort =>
    split
    next => exact Or.inl rfl
    next hfind =>
      split
      next => exact Or.inl rfl
      next hroom =>
        exact Or.inr ⟨⟨Nat.lt_of_not_le hroom, Nat.lt_of_not_le hshort⟩,
          (findMetric_eq_none_iff name).mp hfind, rfl⟩

theorem get_same (metricId : UInt32) (written : Bool) :
    (pwProxyGetMetric s metricId written).2 = s := by
  unfold pwProxyGetMetric
  split
  · rfl
  · split <;> rfl

/-- A call changes the value of a metric as it is meant to, and nothing else of it. -/
theorem metricStep_old (h : s[i]? = some m) (call : ℕ × MetricCall) :
    (metricStep s call).2[i]? =
      some { m with value := (changesOf (i + 1) [call]).foldl Change.apply m.value } := by
  obtain ⟨context, call⟩ := call
  cases call with
  | define type name written =>
    rw [metricStep]
    rcases define_cases type name written with hsame | ⟨-, -, hnew⟩
    · rw [hsame]
      exact h
    · rw [hnew, List.getElem?_append_left (List.getElem?_eq_some_iff.mp h).1]
      exact h
  | increment metricId offset =>
    refine (changeMetric_old h metricId _).trans ?_
    by_cases hid : metricId.toNat = i + 1
    · simp [changesOf, changeOf, hid, addOffset_eq]
    · simp [changesOf, changeOf, hid]
  | record metricId value =>
    refine (changeMetric_old h metricId _).trans ?_
    by_cases hid : metricId.toNat = i + 1
    · simp [changesOf, changeOf, hid, Change.apply]
    · simp [changesOf, changeOf, hid]
  | get metricId written =>
    rw [metricStep, get_same]
    exact h

/-- A metric that was not there before is the one a call defines. -/
theorem metricStep_new {call : ℕ × MetricCall} (hi : s.length ≤ i)
    (h : (metricStep s call).2[i]? = some m) :
    i = s.length ∧ (s.length < maxMetrics ∧ m.name.length < metricMaxName) ∧ m.value = 0 ∧
      (∀ m' ∈ s, m'.name ≠ m.name) ∧ ∃ written, call.2 = .define m.type m.name written := by
  obtain ⟨context, call⟩ := call
  have hlt := (List.getElem?_eq_some_iff.mp h).1
  cases call with
  | define type name written =>
    rw [metricStep] at h hlt
    rcases define_cases type name written with hsame | ⟨hroom, hfresh, hnew⟩
    · rw [hsame] at hlt
      omega
    · rw [hnew] at h hlt
      rw [List.length_append, List.length_singleton] at hlt
      obtain rfl : i = s.length := by omega
      rw [List.getElem?_append_right (Nat.le_refl _), Nat.sub_self] at h
      obtain rfl := Option.some.inj h
      exact ⟨rfl, hroom, rfl, hfresh, written, rfl⟩
  | increment metricId offset =>
    have hlen : (metricStep s (context, .increment metricId offset)).2.length = s.length :=
      changeMetric_length ..
    omega
  | record metricId value =>
    have hlen : (metricStep s (context, .record metricId value)).2.length = s.length :=
      changeMetric_length ..
    omega
  | get metricId written =>
    rw [metricStep, get_same] at hlt
    omega

end Steps

section Runs

theorem storeAfter_snoc (calls : List (ℕ × MetricCall)) (call : ℕ × MetricCall) :
    storeAfter (calls ++ [call]) = (metricStep (storeAfter calls) call).2 := after_snoc ..

/-- What a run does to a metric that is there. -/
theorem after_old {s : Store} {i : ℕ} {m : Metric} (h : s[i]? = some m)
    (calls : List (ℕ × MetricCall)) :
    (after metricStep s calls)[i]? =
      some { m with value := (changesOf (i + 1) calls).foldl Change.apply m.value } := by
  induction calls generalizing s m with
  | nil => exact h
  | cons call calls ih =>
    have hsplit : changesOf (i + 1) (call :: calls) =
        changesOf (i + 1) [call] ++ changesOf (i + 1) calls := List.filterMap_append (l := [call])
    refine (ih (metricStep_old h call)).trans ?_
    rw [hsplit, List.foldl_append]

/-- Where a metric of a run comes from. -/
theorem storeAfter_origin (calls : List (ℕ × MetricCall)) (i : ℕ) (m : Metric)
    (h : (storeAfter calls)[i]? = some m) :
    ∃ before context written rest,
      calls = before ++ (context, .define m.type m.name written) :: rest ∧
      (storeAfter before).length = i ∧
      ((storeAfter before).length < maxMetrics ∧ m.name.length < metricMaxName) ∧
      (∀ m' ∈ storeAfter before, m'.name ≠ m.name) ∧
      m.value = (changesOf (i + 1) rest).foldl Change.apply 0 := by
  induction calls using List.reverseRecOn generalizing m with
  | nil => simp [storeAfter, after] at h
  | append_singleton calls call ih =>
    rw [storeAfter_snoc] at h
    by_cases hi : i < (storeAfter calls).length
    · obtain ⟨m₀, hm₀⟩ : ∃ m₀, (storeAfter calls)[i]? = some m₀ :=
        ⟨_, List.getElem?_eq_getElem hi⟩
      obtain ⟨before, context, written, rest, hcalls, hlen, hroom, hfresh, hvalue⟩ := ih m₀ hm₀
      obtain rfl := Option.some.inj (h.symm.trans (metricStep_old hm₀ call))
      refine ⟨before, context, written, rest ++ [call], ?_, hlen, hroom, hfresh, ?_⟩
      · rw [hcalls, List.append_assoc, List.cons_append]
      · have hsplit : changesOf (i + 1) (rest ++ [call]) =
            changesOf (i + 1) rest ++ changesOf (i + 1) [call] := List.filterMap_append ..
        rw [hsplit, List.foldl_append, ← hvalue]
    · obtain ⟨rfl, hroom, hvalue, hfresh, written, hcall⟩ := metricStep_new (Nat.le_of_not_lt hi) h
      exact ⟨calls, call.1, written, [], by rw [← hcall], rfl, hroom, hfresh, hvalue⟩

theorem storeAfter_append (calls more : List (ℕ × MetricCall)) :
    storeAfter (calls ++ more) = after metricStep (storeAfter calls) more := after_append ..

theorem storeAfter_count (calls : List (ℕ × MetricCall)) :
    (storeAfter calls).length ≤ maxMetrics := by
  by_contra hmany
  obtain ⟨_, _, _, _, _, hlen, hroom, -⟩ :=
    storeAfter_origin calls maxMetrics _ (List.getElem?_eq_getElem (by omega))
  omega

theorem name_ne_of_lt {calls : List (ℕ × MetricCall)} {i j : ℕ} {m m' : Metric}
    (hi : (storeAfter calls)[i]? = some m) (hj : (storeAfter calls)[j]? = some m') (hij : i < j) :
    m.name ≠ m'.name := by
  obtain ⟨before, context, written, rest, hcalls, hlen, -, hfresh, -⟩ :=
    storeAfter_origin calls j m' hj
  -- when the later one was defined, the earlier one was there under its name
  have hlt : i < (storeAfter before).length := by omega
  have hkept := after_old (List.getElem?_eq_getElem hlt)
    ((context, .define m'.type m'.name written) :: rest)
  rw [← storeAfter_append, ← hcalls, hi, Option.some.injEq] at hkept
  rw [hkept]
  exact hfresh (storeAfter before)[i] (List.getElem_mem hlt)

theorem storeAfter_distinct (calls : List (ℕ × MetricCall)) :
    ((storeAfter calls).map (·.name)).Nodup := by
  rw [List.Nodup, List.pairwise_map, List.pairwise_iff_getElem]
  intro i j hi hj hij
  exact name_ne_of_lt (List.getElem?_eq_getElem hi) (List.getElem?_eq_getElem hj) hij

/-- A name that is there is found where it is. -/
theorem findMetric_name {calls : List (ℕ × MetricCall)} {i : ℕ} {m : Metric}
    (h : (storeAfter calls)[i]? = some m) :
    (storeAfter calls).findIdx? (fun m' => m'.name.length == m.name.length && m'.name == m.name) =
      some i := by
  obtain ⟨hi, hget⟩ := List.getElem?_eq_some_iff.mp h
  rw [List.findIdx?_eq_some_iff_getElem]
  refine ⟨hi, by simp [hget], fun j hj => ?_⟩
  have hne := name_ne_of_lt (List.getElem?_eq_getElem (Nat.lt_trans hj hi)) h hj
  simp [hne]

/-- After every sequence of calls by any contexts the store is what the
specification says. -/
theorem metricStore_spec (calls : List (ℕ × MetricCall)) : StoreSpec calls where
  count := storeAfter_count calls
  distinct := storeAfter_distinct calls
  origin i m h := by
    obtain ⟨before, context, written, rest, hcalls, hlen, -, hrest⟩ :=
      storeAfter_origin calls i m h
    exact ⟨before, context, written, rest, hcalls, hlen, hrest⟩
  stable more i m h := by
    rw [storeAfter_append, after_old h more]
    exact ⟨_, rfl, rfl, rfl⟩
  redefine context i m type written h := by
    obtain ⟨_, _, _, _, _, _, ⟨-, hshort⟩, -⟩ := storeAfter_origin calls i m h
    simp only [metricStep, pwProxyDefineMetric, Nat.not_le.mpr hshort, if_false,
      findMetric_name h]
  fresh context type name written hname hroom hnew := by
    simp only [metricStep, pwProxyDefineMetric, Nat.not_le.mpr hname, Nat.not_le.mpr hroom,
      if_false, (findMetric_eq_none_iff name).mpr hnew]
  get context i m metricId h hid := by
    have hknown := known_of_getElem h hid
    have hindex : metricId.toNat - 1 = i := by omega
    simp only [metricStep, pwProxyGetMetric, hknown, if_false, hindex, h, if_true]
  unknown context call metricId hid hunknown := by
    cases call with
    | define type name written => simp [idOf] at hid
    | increment id offset =>
      obtain rfl := Option.some.inj hid
      exact if_pos hunknown
    | record id value =>
      obtain rfl := Option.some.inj hid
      exact if_pos hunknown
    | get id written =>
      obtain rfl := Option.some.inj hid
      exact if_pos hunknown

end Runs

end VmodWasm.MetricStore
