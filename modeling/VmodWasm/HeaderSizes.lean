import VmodWasm.HeaderLookup

/-!
`proxy_get_header_map_size` beside `proxy_get_header_map_pairs`. A guest asks for
the size of a serialized map before it reads the map. The size is added up by
code of its own for header tables, for trailers and for the response of a
callout, with sums in `uint32_t`.
-/
namespace VmodWasm.HeaderSizes

open ByteStrings ByteSearch ProxyContext PairMaps HeaderTables CalloutHeaders HeaderLookup
  CheckedHelpers Lib.CheckedMemory Lib.SequentialWrites

section Bulk

/-- The offset behind the last of the writes, which is the length that is
returned. -/
def lastOffset (chunks : List Bytes) : ℕ :=
  chunks.foldl (fun offset chunk => u32 (offset + chunk.length)) 0

/-- The length of what `proxy_get_header_map_pairs` returns, as far as
`pw_return_bytes`. -/
def pairsLength (ctx : MapCtx) (mapType : MapType) : Except ProxyStatus ℕ :=
  match mapType with
  | .httpRequestTrailers =>
    .ok (if ctx.requestTrailers.length = 0 then 0
      else lastOffset (plainChunks ctx.requestTrailers))
  | .httpResponseTrailers =>
    .ok (if ctx.responseTrailers.length = 0 then 0
      else lastOffset (plainChunks ctx.responseTrailers))
  | .httpCallRespHeaders =>
    .ok ((ctx.callResponse.map fun raw => lastOffset (plainChunks (callResponsePairs raw))).getD 0)
  | .httpCallRespTrailers | .grpcCallInitialMd | .grpcCallTrailingMd => .ok 0
  | .httpRequestHeaders =>
    .ok (((pwGetHeaderMap ctx mapType).map fun t => lastOffset (headerChunks .request t)).getD 0)
  | .httpResponseHeaders =>
    .ok (((pwGetHeaderMap ctx mapType).map fun t => lastOffset (headerChunks .response t)).getD 0)
  -- there is no header map for another number
  | .unknown => .ok 0

end Bulk

section Sizes

/-- `serialized_size` of a trailer map. -/
def trailersSize (tm : Fields) : ℕ :=
  if 0 < tm.length then
    tm.foldl (fun size e => u32 (size + (u32 e.1.length + 1 + u32 e.2.length + 1)))
      (u32 (4 + tm.length * 8))
  else 0

/-- What the pseudo-headers add to `data_size`. -/
def pseudoSizes (map : HeaderMap) (t : HttpTable) : List ℕ :=
  match map with
  | .request =>
    (t.method.map fun v => (ascii ":method").length + 1 + v.1.length + 1).toList ++
      (t.url.map fun v => (ascii ":path").length + 1 + v.1.length + 1).toList ++
      ((authority t).map fun v => (ascii ":authority").length + 1 + v.length + 1).toList
  | .response => (t.status.map fun v => (ascii ":status").length + 1 + v.1.length + 1).toList

/-- What an entry adds to `data_size`. -/
def sizedEntry : Option CStr → ℕ
  | none => 2
  | some line =>
    match strchr line.1 colon with
    | none => u32 line.1.length + 2
    | some c => u32 c + 1 + u32 ((line.1.drop (c + 1)).dropWhile isBlank).length + 1

def tableSize (map : HeaderMap) (t : HttpTable) : ℕ :=
  let numHeaders := u32 (t.entries.length + (pseudoSizes map t).length)
  let dataSize := (pseudoSizes map t ++ t.entries.map sizedEntry).foldl
    (fun size n => u32 (size + n)) 0
  u32 (4 + numHeaders * 8 + dataSize)

/-- The loop over the lines of a response, with `count` and `size`. -/
def sizeFrom : ℕ → Bytes → ℕ → ℕ → ℕ × ℕ
  | 0, _, count, size => (count, size)
  | fuel + 1, rest, count, size =>
    if rest = [] ∨ maxListed ≤ count then (count, size)
    else
      match strstr rest crlf with
      | none => (count, size)
      | some i =>
        if i = 0 then (count, size)
        else
          match strchr (rest.take i) colon with
          | none => sizeFrom fuel (rest.drop (i + 2)) count size
          | some c =>
            sizeFrom fuel (rest.drop (i + 2)) (count + 1)
              (size + (8 + c + 1 + (((rest.take i).drop (c + 1)).dropWhile isBlank).length + 1))

/-- A response without any pair has size 0. -/
def pwHttpCallResponseHeadersSize (raw : Bytes) : ℕ :=
  match strstr raw crlf with
  | none => 0
  | some e =>
    let r :=
      match statusCode raw with
      | none => sizeFrom (raw.length + 1) (raw.drop (e + 2)) 0 4
      | some code =>
        sizeFrom (raw.length + 1) (raw.drop (e + 2)) 1
          (4 + (8 + (ascii ":status").length + 1 + code.length + 1))
    if r.1 = 0 then 0 else r.2

/-- The size, as far as `pw_write_u32`. -/
def pwProxyGetHeaderMapSize (ctx : MapCtx) (mapType : MapType) : Except ProxyStatus ℕ :=
  match mapType with
  | .unknown => .error .badArgument
  | .httpRequestTrailers => .ok (trailersSize ctx.requestTrailers)
  | .httpResponseTrailers => .ok (trailersSize ctx.responseTrailers)
  | .httpCallRespHeaders =>
    .ok (u32 ((ctx.callResponse.map pwHttpCallResponseHeadersSize).getD 0))
  | .httpCallRespTrailers => .ok 0
  | .grpcCallInitialMd | .grpcCallTrailingMd => .error .notFound
  | .httpRequestHeaders => .ok (((pwGetHeaderMap ctx mapType).map (tableSize .request)).getD 0)
  | .httpResponseHeaders => .ok (((pwGetHeaderMap ctx mapType).map (tableSize .response)).getD 0)

end Sizes

/-- Where both calls succeed, the size is the length of the pairs. -/
def SizeAgrees (ctx : MapCtx) (mapType : MapType) : Prop :=
  ∀ size length, pwProxyGetHeaderMapSize ctx mapType = .ok size →
    pairsLength ctx mapType = .ok length → size = length

/-- A response of a callout has a status code, or a header line with a colon. -/
def SizeOk (ctx : MapCtx) (mapType : MapType) : Prop :=
  mapType = .httpCallRespHeaders → ∀ raw, ctx.callResponse = some raw →
    statusCode raw ≠ none ∨ ∃ line ∈ responseLines raw, colon ∈ line

section Sums

theorem foldl_u32 (ns : List ℕ) (a : ℕ) :
    ns.foldl (fun size n => u32 (size + n)) (u32 a) = u32 (a + ns.sum) := by
  induction ns generalizing a with
  | nil => rfl
  | cons n ns ih =>
    have hstep : u32 (u32 a + n) = u32 (a + n) := by
      simp only [u32]
      omega
    rw [List.foldl_cons, hstep, ih, List.sum_cons, Nat.add_assoc]

theorem lastOffset_eq (chunks : List Bytes) : lastOffset chunks = u32 chunks.flatten.length := by
  have hsum := foldl_u32 (chunks.map List.length) 0
  rw [List.foldl_map, Nat.zero_add, ← List.length_flatten] at hsum
  exact hsum

theorem emitAll_offset (chunks : List Bytes) (start : ℕ) (h : Heap)
    (hrun : Sat (emitAll u32 start chunks) (fun _ _ => True) h) :
    Sat (emitAll u32 start chunks) (fun offset _ => offset =
      chunks.foldl (fun offset chunk => u32 (offset + chunk.length)) start) h := by
  induction chunks generalizing start h with
  | nil => simp [emitAll]
  | cons chunk chunks ih =>
    rw [emitAll, List.foldlM_cons, sat_bind, emit, sat_bind, sat_store] at hrun ⊢
    simp only [sat_pure] at hrun ⊢
    exact ⟨hrun.1, ih _ _ hrun.2⟩

/-- What is built from pairs has the length that is returned. -/
theorem buildPairs_lastOffset (ps : Fields) (h : Heap)
    (hrun : Sat (buildPairs ps) (fun _ _ => True) h) :
    Sat (buildPairs ps) (fun offset _ => offset = lastOffset (plainChunks ps)) h := by
  rw [buildPairs_eq] at hrun ⊢
  exact emitAll_offset _ 0 h hrun

theorem buildHeaderPairs_lastOffset (map : HeaderMap) (t : HttpTable) (h : Heap)
    (hrun : Sat (buildHeaderPairs map t) (fun _ _ => True) h) :
    Sat (buildHeaderPairs map t) (fun offset _ => offset = lastOffset (headerChunks map t)) h := by
  rw [buildHeaderPairs_eq] at hrun ⊢
  exact emitAll_offset _ 0 h hrun

end Sums

section Kinds

theorem lastOffset_plainChunks (ps : Fields) :
    lastOffset (plainChunks ps) = u32 (pairsSize ps) := by
  rw [lastOffset_eq, flatten_plainChunks, pairsSize_eq]

theorem trailersSize_eq (tm : Fields) :
    trailersSize tm = if tm.length = 0 then 0 else lastOffset (plainChunks tm) := by
  have hstep : (fun size (e : Bytes × Bytes) =>
      u32 (size + (u32 e.1.length + 1 + u32 e.2.length + 1))) =
      fun size e => u32 (size + pairSize e) := by
    funext size e
    simp only [u32, pairSize]
    omega
  have hsum := foldl_u32 (tm.map pairSize) (4 + tm.length * 8)
  rw [List.foldl_map] at hsum
  rw [trailersSize, hstep, hsum, lastOffset_plainChunks, pairsSize]
  by_cases hempty : tm.length = 0
  · rw [if_pos hempty, if_neg (by omega)]
  · rw [if_neg hempty, if_pos (by omega)]

theorem pseudoSizes_eq (map : HeaderMap) (t : HttpTable) :
    pseudoSizes map t = (pseudoPairs map t).map pairSize := by
  have hpair (name : String) (value : Option Bytes) :
      (pseudoPair name value).map pairSize =
        (value.map fun v => (ascii name).length + 1 + v.length + 1).toList := by
    cases value <;> rfl
  cases map with
  | request => simp [pseudoSizes, pseudoPairs, hpair]
  | response => simp [pseudoSizes, pseudoPairs, hpair]

theorem u32_sizedEntry (e : Option CStr) (size : ℕ) :
    u32 (size + sizedEntry e) = u32 (size + entrySize e) := by
  cases e with
  | none => rfl
  | some line =>
    simp only [sizedEntry, entrySize]
    cases strchr line.1 colon <;> simp only [u32] <;> omega

/-- All chunks together, without the wrapping of the number of headers. -/
theorem length_headerChunks (map : HeaderMap) (t : HttpTable) :
    (headerChunks map t).flatten.length =
      4 + (t.entries.length + (pseudoPairs map t).length) * 8 +
        (((pseudoPairs map t).map pairSize).sum + (t.entries.map entrySize).sum) := by
  have hlengths : (t.entries.map fun e => (entryLengths e).flatten.length) =
      t.entries.map fun _ => 8 :=
    List.map_congr_left fun e _ => by rw [(walks_agree e).2.1, length_pairLengths]
  have hstrings : (t.entries.map fun e => (entryStrings e).flatten.length) =
      t.entries.map entrySize :=
    List.map_congr_left fun e _ => by
      rw [(walks_agree e).2.2, (walks_agree e).1, length_pairStrings, pairSize]
      omega
  have hpseudo : ((pseudoPairs map t).map fun p => (lengthChunks p).flatten.length) =
      (pseudoPairs map t).map fun _ => 8 := List.map_congr_left fun p _ => rfl
  have hvalues : ((pseudoPairs map t).map fun p => (stringChunks p).flatten.length) =
      (pseudoPairs map t).map pairSize :=
    List.map_congr_left fun p _ => by
      simp only [stringChunks, List.flatten_cons, List.flatten_nil, List.length_append,
        List.length_cons, List.length_nil, pairSize]
      omega
  have hfour : (u32Bytes (numHeaders map t)).length = 4 := rfl
  simp only [headerChunks, List.flatten_append, flatten_flatMap, List.length_append,
    List.length_flatMap, hlengths, hstrings, hpseudo, hvalues, List.flatten_cons, List.flatten_nil,
    List.append_nil, hfour, List.map_const', List.sum_replicate_nat]
  omega

theorem tableSize_eq (map : HeaderMap) (t : HttpTable) :
    tableSize map t = lastOffset (headerChunks map t) := by
  have hentries (start : ℕ) :
      (t.entries.map sizedEntry).foldl (fun size n => u32 (size + n)) start =
      (t.entries.map entrySize).foldl (fun size n => u32 (size + n)) start := by
    rw [List.foldl_map, List.foldl_map]
    simp only [u32_sizedEntry]
  have hdata : (pseudoSizes map t ++ t.entries.map sizedEntry).foldl
      (fun size n => u32 (size + n)) 0 =
      u32 (((pseudoPairs map t).map pairSize).sum + (t.entries.map entrySize).sum) := by
    have hsum := foldl_u32 (pseudoSizes map t ++ t.entries.map entrySize) 0
    rw [Nat.zero_add, List.sum_append, pseudoSizes_eq] at hsum
    rw [List.foldl_append, hentries, ← List.foldl_append, pseudoSizes_eq]
    exact hsum
  have hcount : (pseudoSizes map t).length = (pseudoPairs map t).length := by
    rw [pseudoSizes_eq, List.length_map]
  unfold tableSize
  rw [hdata, hcount, lastOffset_eq, length_headerChunks]
  simp only [u32]
  omega

end Kinds

section Callouts

theorem pairsSize_concat (ps : Fields) (p : Bytes × Bytes) :
    pairsSize (ps ++ [p]) = pairsSize ps + (8 + p.1.length + 1 + p.2.length + 1) := by
  simp only [pairsSize, pairSize, List.length_append, List.length_singleton, List.map_append,
    List.sum_append, List.map_cons, List.map_nil, List.sum_singleton]
  omega

/-- The two loops over the lines of a response keep step. -/
theorem sizeFrom_eq (fuel : ℕ) (rest : Bytes) (hdrs : Fields) :
    sizeFrom fuel rest hdrs.length (pairsSize hdrs) =
      ((collectFrom fuel rest hdrs).length, pairsSize (collectFrom fuel rest hdrs)) := by
  induction fuel generalizing rest hdrs with
  | zero => rfl
  | succ fuel ih =>
    rw [sizeFrom, collectFrom]
    split
    next => rfl
    next =>
      cases strstr rest crlf with
      | none => rfl
      | some i =>
        dsimp only
        split
        next => rfl
        next =>
          cases hcolon : strchr (rest.take i) colon with
          | none =>
            have hfield : lineField (rest.take i) = none := by rw [lineField, hcolon]; rfl
            rw [hfield, Option.toList_none, List.append_nil]
            exact ih _ _
          | some c =>
            have hfield : lineField (rest.take i) = some ((rest.take i).take c,
                ((rest.take i).drop (c + 1)).dropWhile isBlank) := by rw [lineField, hcolon]; rfl
            have hkey : ((rest.take i).take c).length = c :=
              List.length_take_of_le (strchr_lt hcolon).le
            have hnext := ih (rest.drop (i + 2)) (hdrs ++ [((rest.take i).take c,
              ((rest.take i).drop (c + 1)).dropWhile isBlank)])
            rw [pairsSize_concat, List.length_append, List.length_singleton] at hnext
            dsimp only at hnext
            rw [hkey] at hnext
            rw [hfield, Option.toList_some]
            exact hnext

theorem pwHttpCallResponseHeadersSize_eq (raw : Bytes) :
    pwHttpCallResponseHeadersSize raw =
      if (callResponsePairs raw).length = 0 then 0 else pairsSize (callResponsePairs raw) := by
  rw [pwHttpCallResponseHeadersSize, callResponsePairs]
  cases strstr raw crlf with
  | none => rfl
  | some e =>
    have hloop := sizeFrom_eq (raw.length + 1) (raw.drop (e + 2))
      (pseudoPair ":status" (statusCode raw))
    dsimp only
    cases hcode : statusCode raw with
    | none =>
      rw [hcode] at hloop
      exact congrArg (fun r : ℕ × ℕ => if r.1 = 0 then 0 else r.2) hloop
    | some code =>
      have hstart : pairsSize (pseudoPair ":status" (some code)) =
          4 + (8 + (ascii ":status").length + 1 + code.length + 1) :=
        pairsSize_concat [] (ascii ":status", code)
      rw [hcode, hstart] at hloop
      exact congrArg (fun r : ℕ × ℕ => if r.1 = 0 then 0 else r.2) hloop

/-- A response without pairs has no status code, and no header line with a
colon. -/
theorem callResponsePairs_length_eq_zero_iff (raw : Bytes) :
    (callResponsePairs raw).length = 0 ↔
      ¬ (statusCode raw ≠ none ∨ ∃ line ∈ responseLines raw, colon ∈ line) := by
  have hfield (line : Bytes) : lineField line = none ↔ colon ∉ line := by
    rw [lineField, Option.map_eq_none_iff, strchr, List.findIdx?_eq_none_iff]
    constructor
    · intro hall hmem
      simpa using hall colon hmem
    · intro hnot c hc
      simpa using fun heq : c = colon => hnot (heq ▸ hc)
  rw [callResponsePairs_eq, List.length_eq_zero_iff, List.append_eq_nil_iff, listedFields]
  cases hcode : statusCode raw with
  | some code => simp [pseudoPair]
  | none =>
    simp [pseudoPair, maxListed, hfield]

end Callouts

theorem sizeAgrees_of_ok {ctx : MapCtx} {mapType : MapType} {size length : ℕ}
    (hsize : pwProxyGetHeaderMapSize ctx mapType = .ok size)
    (hlength : pairsLength ctx mapType = .ok length) :
    SizeAgrees ctx mapType ↔ size = length := by
  constructor
  · intro hagrees
    exact hagrees size length hsize hlength
  · intro heq size' length' hsize' hlength'
    rw [hsize] at hsize'
    rw [hlength] at hlength'
    cases hsize'
    cases hlength'
    exact heq

/-- The size agrees with the pairs, except for a response without any pair. -/
theorem sizeAgrees_iff (ctx : MapCtx) (mapType : MapType) :
    SizeAgrees ctx mapType ↔ SizeOk ctx mapType := by
  have hother (h : mapType ≠ .httpCallRespHeaders) : SizeOk ctx mapType := fun heq => absurd heq h
  have htable (map : HeaderMap) (table : Option HttpTable) :
      (table.map (tableSize map)).getD 0 =
        (table.map fun t => lastOffset (headerChunks map t)).getD 0 := by
    cases table with
    | none => rfl
    | some t => exact tableSize_eq map t
  cases mapType with
  | httpRequestTrailers | httpResponseTrailers =>
    exact iff_of_true ((sizeAgrees_of_ok rfl rfl).mpr (trailersSize_eq _)) (hother nofun)
  | httpRequestHeaders =>
    exact iff_of_true ((sizeAgrees_of_ok rfl rfl).mpr (htable .request _)) (hother nofun)
  | httpResponseHeaders =>
    exact iff_of_true ((sizeAgrees_of_ok rfl rfl).mpr (htable .response _)) (hother nofun)
  | httpCallRespTrailers => exact iff_of_true ((sizeAgrees_of_ok rfl rfl).mpr rfl) (hother nofun)
  | grpcCallInitialMd | grpcCallTrailingMd | unknown =>
    refine iff_of_true ?_ (hother nofun)
    intro size length hsize
    cases hsize
  | httpCallRespHeaders =>
    rw [sizeAgrees_of_ok rfl rfl, SizeOk]
    cases hraw : ctx.callResponse with
    | none => simp [u32]
    | some raw =>
      have hzero := callResponsePairs_length_eq_zero_iff raw
      simp only [Option.map_some, Option.getD_some, Option.some.injEq, forall_eq', true_implies,
        pwHttpCallResponseHeadersSize_eq, lastOffset_plainChunks]
      by_cases hnone : (callResponsePairs raw).length = 0
      · apply iff_of_false _ (hzero.mp hnone)
        rw [if_pos hnone, List.length_eq_zero_iff.mp hnone]
        decide
      · rw [if_neg hnone]
        exact iff_of_true rfl (not_not.mp fun h => hnone (hzero.mpr h))

/-- A callout whose upstream has answered with a line of one word. -/
def wordResponse : MapCtx where
  callResponse := some (ascii "OK" ++ crlf ++ crlf)

/-- The guest is told a size of 0, and is given the four bytes of the count. -/
theorem wordResponse_disagrees :
    pwProxyGetHeaderMapSize wordResponse .httpCallRespHeaders = .ok 0 ∧
      pairsLength wordResponse .httpCallRespHeaders = .ok 4 := by
  decide +kernel

end VmodWasm.HeaderSizes
