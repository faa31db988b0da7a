import VmodWasm.CalloutHeaders
import VmodWasm.HeaderFields
import VmodWasm.ProxyContext

/-!
`proxy_get_header_map_value` beside `proxy_get_header_map_pairs`. One looks a
single name up, the other lists all pairs, and each has its own code for header
tables, for trailers and for the response of a callout. The lookup agrees with
the list if it answers with the value of the first pair of that name.
-/
namespace VmodWasm.HeaderLookup

open ByteStrings ByteSearch ProxyContext HeaderTables HeaderFields CalloutHeaders

/-- The map types; `unknown` is any other number. -/
inductive MapType where
  | httpRequestHeaders | httpRequestTrailers | httpResponseHeaders | httpResponseTrailers
  | grpcCallInitialMd | grpcCallTrailingMd | httpCallRespHeaders | httpCallRespTrailers
  | unknown
  deriving DecidableEq, Repr

/-- The header tables that `vrt_ctx` points to. -/
structure VrtTables where
  httpReq : Option HttpTable := none
  httpResp : Option HttpTable := none
  httpBeresp : Option HttpTable := none

/-- What the maps of a context are read from. `callResponse` is the raw response
of the active call, if there is one and it is valid. `misread` is what
`http_GetHdr` makes of a name with a wrong length in front. -/
structure MapCtx where
  vrtCtx : Option VrtTables := none
  requestTrailers : Fields := []
  responseTrailers : Fields := []
  callResponse : Option Bytes := none
  misread : Option Bytes := none

def pwGetHeaderMap (ctx : MapCtx) : MapType → Option HttpTable
  | .httpRequestHeaders => ctx.vrtCtx.bind (·.httpReq)
  | .httpResponseHeaders => ctx.vrtCtx.bind fun vctx => vctx.httpResp.or vctx.httpBeresp
  | _ => none

def pwTrailerGet (tm : Fields) (name : Bytes) : Option Bytes :=
  tm.findSome? fun e => if e.1.length = name.length ∧ caseEq e.1 name then some e.2 else none

/-- `hdr_search[0]`, the length of a name with its colon, tells the length if a
byte can hold it. -/
def LengthTold (name : Bytes) : Prop := (UInt8.ofNat (name.length + 1)).toNat = name.length + 1

instance (name : Bytes) : Decidable (LengthTold name) :=
  inferInstanceAs (Decidable (_ = name.length + 1))

/-- `http_GetHdr`: the first line that begins with the name and a colon. -/
def httpGetHdr (t : HttpTable) (name : Bytes) : Option Bytes :=
  t.entries.findSome? fun
    | none => none
    | some line => if begins name line.1 then some (fieldValue name line.1) else none

/-- What a lookup found, or `PROXY_NOT_FOUND`. -/
def found (value : Option Bytes) : Except ProxyStatus Bytes :=
  match value with
  | none => .error .notFound
  | some v => .ok v

/-- The answer to the name `k`, as far as `pw_return_string`. The name is read
into a buffer of 256 bytes, and is a C string from then on. -/
def pwProxyGetHeaderMapValue (ctx : MapCtx) (mapType : MapType) (k : Bytes) :
    Except ProxyStatus Bytes :=
  if 256 ≤ k.length then .error .badArgument
  else
    match mapType with
    | .httpRequestTrailers => found (pwTrailerGet ctx.requestTrailers (cstr k))
    | .httpResponseTrailers => found (pwTrailerGet ctx.responseTrailers (cstr k))
    | .httpCallRespHeaders =>
      found (ctx.callResponse.bind fun raw => pwHttpCallResponseFindHeader raw (cstr k))
    | .httpCallRespTrailers | .grpcCallInitialMd | .grpcCallTrailingMd => .error .notFound
    | .httpRequestHeaders | .httpResponseHeaders | .unknown =>
      match pwGetHeaderMap ctx mapType with
      | none => .error .badArgument
      | some t => found (if LengthTold (cstr k) then httpGetHdr t (cstr k) else ctx.misread)

/-- The pairs that are serialized. -/
def pwProxyGetHeaderMapPairs (ctx : MapCtx) (mapType : MapType) : Fields :=
  match mapType with
  | .httpRequestTrailers => ctx.requestTrailers
  | .httpResponseTrailers => ctx.responseTrailers
  | .httpCallRespHeaders => (ctx.callResponse.map callResponsePairs).getD []
  | .httpRequestHeaders => ((pwGetHeaderMap ctx mapType).map (tablePairs .request)).getD []
  | .httpResponseHeaders => ((pwGetHeaderMap ctx mapType).map (tablePairs .response)).getD []
  | _ => []

/-- The value of the first pair with the name, ignoring case. -/
def firstNamed (k : Bytes) (ps : Fields) : Option Bytes :=
  ps.findSome? fun p => if caseEq p.1 k then some p.2 else none

def LookupAgrees (ctx : MapCtx) (mapType : MapType) (k : Bytes) : Prop :=
  (pwProxyGetHeaderMapValue ctx mapType k).toOption =
    firstNamed k (pwProxyGetHeaderMapPairs ctx mapType)

section Conditions

/-- When a lookup in a header table agrees. -/
def TableOk (misread : Option Bytes) (map : HeaderMap) (t : HttpTable) (k : Bytes) : Prop :=
  -- a name that is too long for the lookup is not in the list
  if 256 ≤ k.length then ∀ e ∈ t.entries, caseEq (entryPair e).1 k = false
  -- a name with a NUL is not the name of a header when it is cut there
  else if 0 ∈ k then httpGetHdr t (cstr k) = none
  -- with a colon, this one is too long for the byte that tells the length
  else if k.length = 255 then misread = firstNamed k (t.entries.map entryPair)
  else
    match firstNamed k (pseudoPairs map t) with
    -- a pseudo-header stands among the headers, too
    | some v => httpGetHdr t k = some v
    | none =>
      -- no line goes on with a colon behind the name
      if colon ∈ k then httpGetHdr t k = none
      -- a line without colon does not stand before a header of its name that has a value
      else firstNamed k (t.entries.map entryPair) = some [] → httpGetHdr t k = some []

/-- When a lookup in a trailer map agrees. -/
def TrailersOk (tm : Fields) (k : Bytes) : Prop :=
  if 256 ≤ k.length then ∀ e ∈ tm, caseEq e.1 k = false
  else if 0 ∈ k then firstNamed k tm = firstNamed (cstr k) tm
  else True

/-- The first line with the name and something behind the colon. -/
def firstBearing (raw key : Bytes) : Option Bytes :=
  (responseLines raw).findSome? fun line =>
    if bears key line then some (fieldValue key line) else none

/-- The fields of a response for which the list has room. -/
def listedFields (raw : Bytes) : Fields :=
  ((responseLines raw).filterMap lineField).take
    (maxListed - (pseudoPair ":status" (statusCode raw)).length)

/-- When a lookup in the response of a callout agrees. -/
def CallOk (raw k : Bytes) : Prop :=
  if 256 ≤ k.length then ∀ f ∈ listedFields raw, caseEq f.1 k = false
  else if 0 ∈ k then
    if cstr k = ascii ":status" then statusCode raw = none else firstBearing raw (cstr k) = none
  else if k = ascii ":status" then True
  -- written in another case, it is looked for among the headers
  else if caseEq (ascii ":status") k then firstBearing raw k = statusCode raw
  else if colon ∈ k then firstBearing raw k = none
  else
    match firstNamed k (listedFields raw) with
    -- no field with a value is left out for want of room
    | none => firstBearing raw k = none
    -- a field without a value does not stand before one of its name with a value
    | some v => v ≠ [] ∨ firstBearing raw k = some []

/-- When the lookup of `k` agrees with the list. -/
def LookupOk (ctx : MapCtx) (mapType : MapType) (k : Bytes) : Prop :=
  match mapType with
  | .httpRequestHeaders =>
    ∀ t, pwGetHeaderMap ctx mapType = some t → TableOk ctx.misread .request t k
  | .httpResponseHeaders =>
    ∀ t, pwGetHeaderMap ctx mapType = some t → TableOk ctx.misread .response t k
  | .httpRequestTrailers => TrailersOk ctx.requestTrailers k
  | .httpResponseTrailers => TrailersOk ctx.responseTrailers k
  | .httpCallRespHeaders => ∀ raw, ctx.callResponse = some raw → CallOk raw k
  | _ => True

end Conditions

section Names

theorem colon_mem_iff {a b : Bytes} (h : caseEq a b = true) : colon ∈ a ↔ colon ∈ b :=
  mem_iff_of_caseEq (by decide) h

theorem caseEq_false_of_mem {a b : Bytes} {c : UInt8} (hc : c < 0x41) (ha : c ∉ a)
    (hb : c ∈ b) : caseEq a b = false :=
  Bool.eq_false_iff.mpr fun h => ha ((mem_iff_of_caseEq hc h).mpr hb)

theorem caseEq_false_of_length {a b : Bytes} (h : a.length ≠ b.length) : caseEq a b = false :=
  Bool.eq_false_iff.mpr fun heq => h (caseEq_length a b heq)

/-- A line that begins with a name without colon has this name. -/
theorem lineField_of_begins {key l : Bytes} (hcolon : colon ∉ key)
    (h : begins key l = true) :
    ∃ name, lineField l = some (name, fieldValue key l) ∧ caseEq name key = true := by
  rw [begins, Bool.and_eq_true, beq_iff_eq] at h
  obtain ⟨hname, hat⟩ := h
  obtain ⟨hlt, hget⟩ := List.getElem?_eq_some_iff.mp hat
  have hidx : strchr l colon = some key.length := by
    rw [strchr, List.findIdx?_eq_some_iff_getElem]
    refine ⟨hlt, by simp [hget], fun j hj heq => hcolon ?_⟩
    have hmem : l[j] ∈ l.take key.length :=
      List.mem_take_iff_getElem.mpr ⟨j, by omega, rfl⟩
    rw [beq_iff_eq.mp heq] at hmem
    exact (colon_mem_iff hname).mp hmem
  exact ⟨l.take key.length, by rw [lineField, hidx]; rfl, hname⟩

/-- A line begins with its name. -/
theorem begins_of_lineField {key l name value : Bytes}
    (hfield : lineField l = some (name, value)) (hname : caseEq name key = true) :
    begins key l = true ∧ fieldValue key l = value := by
  obtain ⟨c, hidx, hpair⟩ := Option.map_eq_some_iff.mp hfield
  obtain ⟨hlt, hget, -⟩ := List.findIdx?_eq_some_iff_getElem.mp hidx
  have hkey : l.take c = name := congrArg Prod.fst hpair
  have hc : c = key.length := by
    rw [← caseEq_length name key hname, ← hkey, List.length_take]
    omega
  have hat : l[c]? = some colon := by
    rw [List.getElem?_eq_getElem hlt, beq_iff_eq.mp hget]
  rw [begins, fieldValue, ← hc, hkey, hname, hat]
  exact ⟨rfl, congrArg Prod.snd hpair⟩

theorem lineField_name {line name value : Bytes} (h : lineField line = some (name, value)) :
    name <+: line ∧ colon ∉ name := by
  obtain ⟨c, hidx, hpair⟩ := Option.map_eq_some_iff.mp h
  have hkey : line.take c = name := congrArg Prod.fst hpair
  refine ⟨hkey ▸ List.take_prefix c line, fun hmem => ?_⟩
  rw [← hkey, ← (strchr_some hidx).1] at hmem
  simpa using List.mem_takeWhile_imp hmem

end Names

section Lists

/-- Two searches over a list: `g` finds only what `f` finds, and all of it but
the empty values. -/
theorem findSome_agree {α : Type} (l : List α) (f g : α → Option Bytes)
    (hsub : ∀ x v, g x = some v → f x = some v)
    (hval : ∀ x v, f x = some v → v ≠ [] → g x = some v) :
    l.findSome? g = l.findSome? f ↔ (l.findSome? f = some [] → l.findSome? g = some []) := by
  induction l with
  | nil => simp
  | cons x l ih =>
    rw [List.findSome?_cons, List.findSome?_cons]
    cases hf : f x with
    | none =>
      have hg : g x = none := by
        by_contra hne
        obtain ⟨v, hv⟩ := Option.ne_none_iff_exists'.mp hne
        exact absurd (hsub x v hv) (by simp [hf])
      rw [hg]
      exact ih
    | some v =>
      by_cases hv : v = []
      · cases hg : g x with
        | none => simp [hv]
        | some w =>
          have hw := hsub x w hg
          simp_all
      · simp [hval x v hf hv, hv]

theorem firstNamed_append (k : Bytes) (ps qs : Fields) :
    firstNamed k (ps ++ qs) = (firstNamed k ps).or (firstNamed k qs) := List.findSome?_append

theorem firstNamed_eq_none_iff {k : Bytes} {ps : Fields} :
    firstNamed k ps = none ↔ ∀ p ∈ ps, caseEq p.1 k = false := by
  simp [firstNamed]

/-- A name with a separator in it is not found where no name has one. -/
theorem firstNamed_of_mem {k : Bytes} {ps : Fields} {c : UInt8} (hc : c < 0x41) (hk : c ∈ k)
    (hps : ∀ p ∈ ps, c ∉ p.1) : firstNamed k ps = none :=
  firstNamed_eq_none_iff.mpr fun p hp => caseEq_false_of_mem hc (hps p hp) hk

end Lists

section Tables

theorem entryPair_some (line : CStr) :
    entryPair (some line) = (lineField line.1).getD (line.1, []) := by
  cases h : strchr line.1 colon with
  | none =>
    rw [entryPair_colonless h, lineField, h]
    rfl
  | some i =>
    rw [entryPair_colon h, lineField, h]
    rfl

/-- For a name without colon the lookup finds the first entry of the name,
unless that has an empty value. -/
theorem httpGetHdr_plain (t : HttpTable) {k : Bytes} (hcolon : colon ∉ k) :
    httpGetHdr t k = firstNamed k (t.entries.map entryPair) ↔
      (firstNamed k (t.entries.map entryPair) = some [] → httpGetHdr t k = some []) := by
  have hmap : firstNamed k (t.entries.map entryPair) = t.entries.findSome? fun e =>
      if caseEq (entryPair e).1 k then some (entryPair e).2 else none := List.findSome?_map
  rw [hmap]
  refine findSome_agree _ _ _ (fun e v h => ?_) fun e v h hne => ?_
  · cases e with
    | none => simp at h
    | some line =>
      simp only [Option.ite_none_right_eq_some, Option.some.injEq] at h
      obtain ⟨name, hfield, hname⟩ := lineField_of_begins hcolon h.1
      simp [entryPair_some, hfield, hname, h.2]
  · simp only [Option.ite_none_right_eq_some, Option.some.injEq] at h
    cases e with
    | none => exact absurd h.2.symm hne
    | some line =>
      cases hfield : lineField line.1 with
      | none =>
        rw [entryPair_some, hfield] at h
        exact absurd h.2.symm hne
      | some field =>
        rw [entryPair_some, hfield] at h
        obtain ⟨hbegins, hvalue⟩ := begins_of_lineField hfield h.1
        simp only [hbegins, if_true, hvalue]
        exact congrArg some h.2

theorem lengthTold_iff {name : Bytes} (h : name.length < 256) :
    LengthTold name ↔ name.length ≠ 255 := by
  rw [LengthTold, UInt8.toNat_ofNat']
  omega

/-- No pseudo-header has a name that long. -/
theorem firstNamed_pseudoPairs (map : HeaderMap) (t : HttpTable) {k : Bytes}
    (hlong : 255 ≤ k.length) : firstNamed k (pseudoPairs map t) = none :=
  firstNamed_eq_none_iff.mpr fun p hp => caseEq_false_of_length <| by
    have hshort := (pseudoPairs_ok map t p hp).1.2.1
    omega

theorem tableOk_iff (misread : Option Bytes) (map : HeaderMap) (t : HttpTable) (k : Bytes) :
    (if 256 ≤ k.length then none
      else if LengthTold (cstr k) then httpGetHdr t (cstr k) else misread) =
        firstNamed k (tablePairs map t) ↔
      TableOk misread map t k := by
  rw [tablePairs, firstNamed_append, TableOk]
  by_cases hlong : 256 ≤ k.length
  · rw [if_pos hlong, if_pos hlong, firstNamed_pseudoPairs map t (by omega), Option.none_or,
      eq_comm, firstNamed_eq_none_iff, List.forall_mem_map]
  · rw [if_neg hlong, if_neg hlong]
    by_cases hnul : 0 ∈ k
    · have hpseudo : firstNamed k (pseudoPairs map t) = none :=
        firstNamed_of_mem (by decide) hnul fun p hp => (pseudoPairs_ok map t p hp).1.2.2.1
      have hnone : firstNamed k (t.entries.map entryPair) = none :=
        firstNamed_of_mem (by decide) hnul
          (List.forall_mem_map.mpr fun e _ => (nul_notMem_entryPair e).1)
      have hcut := length_cstr_lt hnul
      rw [if_pos hnul, hpseudo, hnone, Option.none_or,
        if_pos ((lengthTold_iff (by omega)).mpr (by omega))]
    · rw [if_neg hnul, cstr_eq_self hnul]
      by_cases hfull : k.length = 255
      · rw [if_pos hfull, if_neg fun h => (lengthTold_iff (by omega)).mp h hfull,
          firstNamed_pseudoPairs map t hfull.ge, Option.none_or]
      rw [if_neg hfull, if_pos ((lengthTold_iff (by omega)).mpr hfull)]
      cases hpseudo : firstNamed k (pseudoPairs map t) with
      | some v => rfl
      | none =>
        rw [Option.none_or]
        dsimp only
        by_cases hcolon : colon ∈ k
        · have hnone : firstNamed k (t.entries.map entryPair) = none :=
            firstNamed_of_mem (by decide) hcolon
              (List.forall_mem_map.mpr fun e _ => colon_notMem_entryPair e)
          rw [if_pos hcolon, hnone]
        · rw [if_neg hcolon]
          exact httpGetHdr_plain t hcolon

end Tables

theorem pwTrailerGet_eq (tm : Fields) (name : Bytes) :
    pwTrailerGet tm name = firstNamed name tm := by
  have hlen (e : Bytes × Bytes) :
      (e.1.length = name.length ∧ caseEq e.1 name = true) ↔ caseEq e.1 name = true :=
    ⟨And.right, fun h => ⟨caseEq_length _ _ h, h⟩⟩
  simp only [pwTrailerGet, hlen]
  rfl

theorem trailersOk_iff (tm : Fields) (k : Bytes) :
    (if 256 ≤ k.length then none else pwTrailerGet tm (cstr k)) = firstNamed k tm ↔
      TrailersOk tm k := by
  rw [TrailersOk, pwTrailerGet_eq]
  by_cases hlong : 256 ≤ k.length
  · rw [if_pos hlong, if_pos hlong, eq_comm, firstNamed_eq_none_iff]
  · rw [if_neg hlong, if_neg hlong]
    by_cases hnul : 0 ∈ k
    · rw [if_pos hnul, eq_comm]
    · rw [if_neg hnul, cstr_eq_self hnul]
      exact iff_of_true rfl trivial

section Callouts

theorem find_eq (raw key : Bytes) :
    pwHttpCallResponseFindHeader raw key =
      if key = ascii ":status" then statusCode raw else firstBearing raw key := by
  rw [pwHttpCallResponseFindHeader, firstBearing, responseLines]
  cases hline : strstr raw crlf with
  | none => simp [statusCode, hline]
  | some e =>
    dsimp only
    rw [findHeaderFrom_eq key _ _ (by rw [List.length_drop]; omega)]

theorem callResponsePairs_eq (raw : Bytes) :
    callResponsePairs raw = pseudoPair ":status" (statusCode raw) ++ listedFields raw := by
  rw [callResponsePairs, listedFields, responseLines]
  cases hline : strstr raw crlf with
  | none => simp [statusCode, hline, pseudoPair]
  | some e =>
    have hone : (pseudoPair ":status" (statusCode raw)).length ≤ maxListed := by
      cases statusCode raw <;> simp [pseudoPair, maxListed]
    dsimp only
    rw [collectFrom_eq _ _ _ (by rw [List.length_drop]; omega) hone, List.take_append,
      List.take_of_length_le hone]

theorem firstNamed_status (raw k : Bytes) :
    firstNamed k (pseudoPair ":status" (statusCode raw)) =
      if caseEq (ascii ":status") k then statusCode raw else none := by
  cases statusCode raw with
  | none => exact (ite_self none).symm
  | some v =>
    rw [firstNamed, pseudoPair, Option.map_some, Option.toList_some, List.findSome?_cons]
    split <;> simp_all

theorem nul_notMem_responseLines (raw line : Bytes) (h : line ∈ responseLines raw) : 0 ∉ line := by
  rw [responseLines] at h
  cases hfound : strstr raw crlf with
  | none => simp [hfound] at h
  | some e =>
    rw [hfound] at h
    have hmem := List.mem_of_mem_dropLast ((List.takeWhile_sublist _).mem h)
    intro hnul
    have hall : (0 : UInt8) ∈ cstr (raw.drop (e + 2)) ++ crlf := by
      rw [← splitCrlf_join]
      exact List.mem_flatMap.mpr ⟨line, hmem, List.mem_append_left _ hnul⟩
    rcases List.mem_append.mp hall with hall | hall
    · exact nul_notMem_cstr _ hall
    · simp [crlf] at hall

theorem listedFields_name {raw : Bytes} {p : Bytes × Bytes} (h : p ∈ listedFields raw) :
    0 ∉ p.1 ∧ colon ∉ p.1 := by
  obtain ⟨line, hline, hfield⟩ := List.mem_filterMap.mp (List.mem_of_mem_take h)
  obtain ⟨hfront, hcolon⟩ := lineField_name hfield
  exact ⟨fun hnul => nul_notMem_responseLines raw line hline (hfront.subset hnul), hcolon⟩

/-- Without a limit on the list, the search finds the first field of the name
unless that has an empty value. -/
theorem firstBearing_plain (raw : Bytes) {k : Bytes} (hcolon : colon ∉ k) :
    firstBearing raw k = firstNamed k ((responseLines raw).filterMap lineField) ↔
      (firstNamed k ((responseLines raw).filterMap lineField) = some [] →
        firstBearing raw k = some []) := by
  have hmap : firstNamed k ((responseLines raw).filterMap lineField) =
      (responseLines raw).findSome? fun line => (lineField line).bind fun p =>
        if caseEq p.1 k then some p.2 else none := by
    rw [firstNamed, ← List.head?_filterMap, List.filterMap_filterMap, List.head?_filterMap]
  rw [hmap]
  refine findSome_agree _ _ _ (fun line v h => ?_) fun line v h hne => ?_
  · simp only [Option.ite_none_right_eq_some, Option.some.injEq, bears, Bool.and_eq_true] at h
    obtain ⟨name, hfield, hname⟩ := lineField_of_begins hcolon h.1.2
    simp [hfield, hname, h.2]
  · obtain ⟨field, hfield, h⟩ := Option.bind_eq_some_iff.mp h
    simp only [Option.ite_none_right_eq_some, Option.some.injEq] at h
    obtain ⟨hbegins, hvalue⟩ := begins_of_lineField hfield h.1
    have hlong : k.length + 1 < line.length := by
      by_contra hshort
      rw [fieldValue, List.drop_of_length_le (by omega), List.dropWhile_nil] at hvalue
      exact hne (h.2.symm.trans hvalue.symm)
    simp [bears, hbegins, hlong, hvalue, h.2]

theorem callOk_iff (raw k : Bytes) :
    (if 256 ≤ k.length then none else pwHttpCallResponseFindHeader raw (cstr k)) =
        firstNamed k (callResponsePairs raw) ↔ CallOk raw k := by
  rw [callResponsePairs_eq, firstNamed_append, firstNamed_status, find_eq, CallOk]
  by_cases hlong : 256 ≤ k.length
  · have hlen : (ascii ":status").length = 7 := by decide +kernel
    have hstatus : caseEq (ascii ":status") k = false := caseEq_false_of_length (by omega)
    rw [if_pos hlong, if_pos hlong, hstatus, if_neg Bool.false_ne_true, Option.none_or, eq_comm,
      firstNamed_eq_none_iff]
  rw [if_neg hlong, if_neg hlong]
  by_cases hnul : 0 ∈ k
  · have hstatus : caseEq (ascii ":status") k = false :=
      caseEq_false_of_mem (by decide) (by decide +kernel) hnul
    have hnone : firstNamed k (listedFields raw) = none :=
      firstNamed_of_mem (by decide) hnul fun p hp => (listedFields_name hp).1
    rw [if_pos hnul, hstatus, if_neg Bool.false_ne_true, hnone, Option.none_or]
    split <;> rfl
  rw [if_neg hnul, cstr_eq_self hnul]
  by_cases hcolon : colon ∈ k
  · have hnone : firstNamed k (listedFields raw) = none :=
      firstNamed_of_mem (by decide) hcolon fun p hp => (listedFields_name hp).2
    rw [hnone, Option.or_none]
    by_cases hk : k = ascii ":status"
    · have hself : caseEq (ascii ":status") k = true := by rw [hk]; decide +kernel
      rw [if_pos hk, if_pos hk, if_pos hself]
      exact iff_of_true rfl trivial
    · rw [if_neg hk, if_neg hk]
      split <;> rfl
  · have hstatus : ¬ caseEq (ascii ":status") k = true := fun h =>
      hcolon ((colon_mem_iff h).mp (by decide +kernel))
    have hk : k ≠ ascii ":status" := fun h => hcolon (h ▸ by decide +kernel)
    rw [if_neg hk, if_neg hk, if_neg hstatus, if_neg hstatus, if_neg hcolon, Option.none_or]
    have hall := firstBearing_plain raw hcolon
    cases hfound : firstNamed k (listedFields raw) with
    | none => rfl
    | some v =>
      -- what is found in a part of the list is found first in all of it
      have hfirst : firstNamed k ((responseLines raw).filterMap lineField) = some v := by
        rw [← List.take_append_drop (maxListed - (pseudoPair ":status" (statusCode raw)).length)
          ((responseLines raw).filterMap lineField), firstNamed_append]
        rw [listedFields] at hfound
        rw [hfound, Option.some_or]
      rw [hfirst] at hall
      rw [hall, Option.some.injEq]
      exact imp_iff_not_or

end Callouts

theorem toOption_found (value : Option Bytes) : (found value).toOption = value := by
  cases value <;> rfl

theorem toOption_limited (c : Prop) [Decidable c] (status : ProxyStatus)
    (r : Except ProxyStatus Bytes) :
    (if c then .error status else r).toOption = if c then none else r.toOption :=
  apply_ite Except.toOption c (.error status) r

/-- The lookup of a name agrees with the list of all pairs exactly under `LookupOk`. -/
theorem lookupAgrees_iff (ctx : MapCtx) (mapType : MapType) (k : Bytes) :
    LookupAgrees ctx mapType k ↔ LookupOk ctx mapType k := by
  have htable (map : HeaderMap) (table : Option HttpTable) :
      (if 256 ≤ k.length then Except.error ProxyStatus.badArgument
        else match table with
          | none => .error .badArgument
          | some t =>
            found (if LengthTold (cstr k) then httpGetHdr t (cstr k) else ctx.misread)).toOption =
        firstNamed k ((table.map (tablePairs map)).getD []) ↔
      ∀ t, table = some t → TableOk ctx.misread map t k := by
    rw [toOption_limited]
    cases table with
    | none => simp [firstNamed, Except.toOption]
    | some t =>
      simp only [Option.some.injEq, forall_eq', Option.map_some, Option.getD_some, ← tableOk_iff,
        toOption_found]
  have htrailers (tm : Fields) :
      (if 256 ≤ k.length then Except.error ProxyStatus.badArgument
        else found (pwTrailerGet tm (cstr k))).toOption = firstNamed k tm ↔ TrailersOk tm k := by
    rw [← trailersOk_iff, toOption_limited, toOption_found]
  have hempty (status : ProxyStatus) :
      (if 256 ≤ k.length then Except.error ProxyStatus.badArgument
        else (.error status : Except ProxyStatus Bytes)).toOption = firstNamed k [] ↔ True := by
    rw [toOption_limited]
    exact iff_of_true (ite_self none) trivial
  cases mapType with
  | httpRequestHeaders => exact htable .request _
  | httpResponseHeaders => exact htable .response _
  | httpRequestTrailers => exact htrailers _
  | httpResponseTrailers => exact htrailers _
  | httpCallRespHeaders =>
    simp only [LookupAgrees, LookupOk, pwProxyGetHeaderMapValue, pwProxyGetHeaderMapPairs,
      toOption_limited, toOption_found]
    cases ctx.callResponse with
    | none => simp [firstNamed]
    | some raw =>
      simp only [Option.some.injEq, forall_eq', ← callOk_iff]
      rfl
  | httpCallRespTrailers => exact hempty .notFound
  | grpcCallInitialMd => exact hempty .notFound
  | grpcCallTrailingMd => exact hempty .notFound
  | unknown => exact hempty .badArgument

/-- A request with a method and one header. -/
def methodCtx : MapCtx where
  vrtCtx := some {
    httpReq := some {
      method := some (toCStr (ascii "GET"))
      entries := [some (toCStr (ascii "A: b"))] } }

/-- The list has the method as `:method`, and the lookup does not find it. -/
theorem method_notFound :
    pwProxyGetHeaderMapValue methodCtx .httpRequestHeaders (ascii ":method") = .error .notFound ∧
      firstNamed (ascii ":method") (pwProxyGetHeaderMapPairs methodCtx .httpRequestHeaders) =
        some (ascii "GET") := by
  decide +kernel

end VmodWasm.HeaderLookup
