import VmodWasm.HeaderLookup
import VmodWasm.HeaderRewrites
import VmodWasm.Lib.Transition

/-!
What guests store in the header tables of Varnish. Five host functions print the
bytes of a guest into a header line, or copy them into the first line of the
request. A line that holds a CR or LF is more than one line when the table is
sent.
-/
namespace VmodWasm.HeaderLines

open ByteStrings ByteSearch ProxyContext HeaderTables HeaderMapPairs HeaderRewrites HeaderLookup
  CalloutHeaders CheckedHelpers Lib.CheckedMemory Lib.Transition

/-- Which copies the workspace takes, and which lines the table has room for,
counted from the start of a call; `kept` are the lines that `http_Unset` leaves
there if the length in front of the name is wrong. -/
structure Room where
  copied : ℕ → Bool := fun _ => true
  fits : ℕ → Bool := fun _ => true
  kept : CStr → Bool := fun _ => true

/-- Calls on the header tables, with the bytes as they are read from the guest. -/
inductive GuestCall where
  | addHeaderMapValue (map : HeaderMap) (key value : Bytes)
  | replaceHeaderMapValue (map : HeaderMap) (key value : Bytes)
  | setHeaderMapPairs (map : HeaderMap) (pairs : Pairs)
  | setProperty (path value : Bytes)
  | setResponseHeader (name value : Bytes)

/-- What a call returns: a status, or the number of a raw function. -/
inductive Reply where
  | status (s : ProxyStatus)
  | raw (code : ℤ)
  deriving DecidableEq, Repr

section Tables

def httpSetHeader (fits : Bool) (line : CStr) (t : HttpTable) : HttpTable :=
  if fits then { t with entries := t.entries ++ [some line] } else t

def httpUnset (kept : CStr → Bool) (name : Bytes) (t : HttpTable) : HttpTable :=
  { t with entries := t.entries.filter fun
      | none => true
      | some line => if LengthTold name then !begins name line.1 else kept line }

/-- `pw_get_header_map_mutable`. -/
def pwGetHeaderMapMutable (s : VrtTables) : HeaderMap → Option HttpTable
  | .request => s.httpReq
  | .response => s.httpResp.or s.httpBeresp

/-- The tables after a change to the one that the map stands for. -/
def modify (s : VrtTables) (map : HeaderMap) (f : HttpTable → HttpTable) : VrtTables :=
  match map with
  | .request => { s with httpReq := s.httpReq.map f }
  | .response =>
    match s.httpResp with
    | some t => { s with httpResp := some (f t) }
    | none => { s with httpBeresp := s.httpBeresp.map f }

end Tables

section Calls

variable (room : Room)

def pwProxyAddHeaderMapValue (map : HeaderMap) (key value : Bytes) (s : VrtTables) :
    ProxyStatus × VrtTables :=
  if 256 ≤ key.length ∨ 4096 ≤ value.length then (.badArgument, s)
  else if (pwGetHeaderMapMutable s map).isNone then (.badArgument, s)
  else if room.copied 0 then
    (.ok, modify s map (httpSetHeader (room.fits 0) (headerLine (cutPair (key, value)))))
  else (.internal, s)

def pwProxyReplaceHeaderMapValue (map : HeaderMap) (key value : Bytes) (s : VrtTables) :
    ProxyStatus × VrtTables :=
  if 256 ≤ key.length ∨ 4096 ≤ value.length then (.badArgument, s)
  else if (pwGetHeaderMapMutable s map).isNone then (.badArgument, s)
  else
    let s := modify s map (httpUnset room.kept (cstr key))
    if room.copied 0 then
      (.ok, modify s map (httpSetHeader (room.fits 0) (headerLine (cutPair (key, value)))))
    else (.internal, s)

/-- The loop over the pairs, from pair `i` on. -/
def putPairs : ℕ → Pairs → HttpTable → ProxyStatus × HttpTable
  | _, [], t => (.ok, t)
  | i, p :: ps, t =>
    if Used p.1.length p.2.length then
      if room.copied i then
        putPairs (i + 1) ps (httpSetHeader (room.fits i) (headerLine (cutPair p)) t)
      else (.internal, t)
    else putPairs (i + 1) ps t

def pwProxySetHeaderMapPairs (map : HeaderMap) (pairs : Pairs) (s : VrtTables) :
    ProxyStatus × VrtTables :=
  if 256 < pairs.length then (.badArgument, s)
  else
    match pwGetHeaderMapMutable s map with
    | none => (.badArgument, s)
    | some t =>
      let r := putPairs room 0 pairs { t with entries := [] }
      (r.1, modify s map fun _ => r.2)

/-- A property path: its parts with a NUL between them. -/
def requestPath (part : String) : Bytes := ascii "request" ++ 0 :: ascii part

/-- `snprintf(hdr_line, sizeof(hdr_line), "Host: %.*s", ...)`. -/
def hostLine (value : Bytes) : CStr := toCStr ((ascii "Host: " ++ cstr value).take 4351)

def pwProxySetProperty (path value : Bytes) (s : VrtTables) : ProxyStatus × VrtTables :=
  if 512 ≤ path.length ∨ 4096 ≤ value.length then (.badArgument, s)
  else
    match s.httpReq with
    | none => (.notFound, s)
    | some t =>
      if path = requestPath "path" ∨ path = requestPath "url_path" then
        if value.head? ≠ some 0x2f then (.badArgument, s)
        else if room.copied 0 then
          (.ok, { s with httpReq := some { t with url := some (toCStr value) } })
        else (.internal, s)
      else if path = requestPath "method" then
        if value.length = 0 ∨ 16 < value.length then (.badArgument, s)
        else if room.copied 0 then
          (.ok, { s with httpReq := some { t with method := some (toCStr value) } })
        else (.internal, s)
      else if path = requestPath "host" then
        if value.length = 0 ∨ 4096 < value.length then (.badArgument, s)
        else
          let t := httpUnset room.kept (ascii "Host") t
          if room.copied 0 then
            (.ok, { s with httpReq := some (httpSetHeader (room.fits 0) (hostLine value) t) })
          else (.internal, { s with httpReq := some t })
      else (.notFound, s)

/-- `snprintf(hdr_line, hdr_len, "%s: %s", name, val)`, with a buffer of that size. -/
def rawLine (name value : Bytes) : CStr := toCStr (cstr name ++ ascii ": " ++ cstr value)

/-- The raw function puts its line into the request, too. -/
def hostSetResponseHeader (name value : Bytes) (s : VrtTables) : ℤ × VrtTables :=
  match s.httpReq with
  | none => (-1, s)
  | some t =>
    if room.copied 0 then
      (0, { s with httpReq := some (httpSetHeader (room.fits 0) (rawLine name value) t) })
    else (-1, s)

def guestCall (s : VrtTables) : GuestCall → Reply × VrtTables
  | .addHeaderMapValue map key value =>
    (pwProxyAddHeaderMapValue room map key value s).map .status id
  | .replaceHeaderMapValue map key value =>
    (pwProxyReplaceHeaderMapValue room map key value s).map .status id
  | .setHeaderMapPairs map pairs => (pwProxySetHeaderMapPairs room map pairs s).map .status id
  | .setProperty path value => (pwProxySetProperty room path value s).map .status id
  | .setResponseHeader name value => (hostSetResponseHeader room name value s).map .raw id

end Calls

/-- One call, with what the workspace and the table have room for. -/
def callStep (s : VrtTables) (c : Room × GuestCall) (s' : VrtTables) : Prop :=
  (guestCall c.1 s c.2).2 = s'

section Conditions

def LineFree (s : Bytes) : Prop := 0x0d ∉ s ∧ 0x0a ∉ s

/-- No text of the table holds a line end. -/
structure TableClean (t : HttpTable) : Prop where
  method : ∀ text, t.method = some text → LineFree text.1
  url : ∀ text, t.url = some text → LineFree text.1
  status : ∀ text, t.status = some text → LineFree text.1
  entries : ∀ line, some line ∈ t.entries → LineFree line.1

structure TablesClean (s : VrtTables) : Prop where
  req : ∀ t, s.httpReq = some t → TableClean t
  resp : ∀ t, s.httpResp = some t → TableClean t
  beresp : ∀ t, s.httpBeresp = some t → TableClean t

/-- The part of a pair that goes into a line has no line end. -/
def PairFree (p : Bytes × Bytes) : Prop :=
  LineFree (cstr p.1) ∧ LineFree ((cstr p.2).take (4349 - (cstr p.1).length))

variable (room : Room)

/-- Every pair that goes into the table is free of line ends. -/
def PairsFree : ℕ → Pairs → Prop
  | _, [] => True
  | i, p :: ps =>
    if Used p.1.length p.2.length then
      room.copied i = true → (room.fits i = true → PairFree p) ∧ PairsFree (i + 1) ps
    else PairsFree (i + 1) ps

/-- What a property is set to has no line end. -/
def PropertyFree (path value : Bytes) : Prop :=
  ((path = requestPath "path" ∨ path = requestPath "url_path") → value.head? = some 0x2f →
    LineFree (cstr value)) ∧
  (path = requestPath "method" → 0 < value.length → value.length ≤ 16 → LineFree (cstr value)) ∧
  (path = requestPath "host" → 0 < value.length → room.fits 0 = true → LineFree (cstr value))

/-- A call that brings no line end into a table. -/
def Harmless (s : VrtTables) (c : Room × GuestCall) : Prop :=
  match c.2 with
  | .addHeaderMapValue map key value | .replaceHeaderMapValue map key value =>
    key.length < 256 → value.length < 4096 → (pwGetHeaderMapMutable s map).isSome = true →
      c.1.copied 0 = true → c.1.fits 0 = true → PairFree (key, value)
  | .setHeaderMapPairs map pairs =>
    pairs.length ≤ 256 → (pwGetHeaderMapMutable s map).isSome = true → PairsFree c.1 0 pairs
  | .setProperty path value =>
    value.length < 4096 → s.httpReq.isSome = true → c.1.copied 0 = true →
      PropertyFree c.1 path value
  | .setResponseHeader name value =>
    s.httpReq.isSome = true → c.1.copied 0 = true → c.1.fits 0 = true →
      LineFree (cstr name) ∧ LineFree (cstr value)

end Conditions

section Loop

/-- A string that is read is not empty, and is not longer than was asked for. -/
theorem used_of_read {mem : Bytes} {keyAddr ks valAddr vs : ℕ} (h : Used ks vs)
    (hkey : StrInRange mem keyAddr ks) :
    Used ((mem.drop keyAddr).take ks).length ((mem.drop valAddr).take vs).length := by
  obtain ⟨hpos, hks, hvs⟩ := h
  refine ⟨?_, ?_, ?_⟩
  · rcases hkey with hnul | hin
    · exact List.length_pos_of_mem hnul
    · rw [List.length_take, List.length_drop]
      rcases hin with hzero | hle <;> omega
  · rw [List.length_take]
    omega
  · rw [List.length_take]
    omega

/-- The loop over a guest's memory does to a table what `putPairs` does with the
pairs it reads. -/
theorem setPairsAt_putPairs (copied : ℕ → Bool) (t : HttpTable) (data size : ℕ) (h : Heap)
    (n i offset : ℕ) (put : Pairs)
    (hrun : Sat (setPairsAt (.headers copied) data size n i offset put) (fun _ _ => True) h) :
    Sat (setPairsAt (.headers copied) data size n i offset put)
      (fun r _ => ∃ ps : Pairs, ps.length ≤ n ∧
        putPairs { copied := copied } i ps (rewritten t put) = (r.1, rewritten t r.2)) h := by
  refine setPairsAt_rule (.headers copied) data size h (fun n i put r => ∃ ps : Pairs,
    ps.length ≤ n ∧ putPairs { copied := copied } i ps (rewritten t put) = (r.1, rewritten t r.2))
    ?_ ?_ ?_ n i offset put hrun
  · intro n i put
    exact ⟨[], Nat.zero_le _, rfl⟩
  · -- a pair that is passed over stands for itself as an empty one
    intro n i put r hr
    obtain ⟨ps, hlen, hps⟩ := hr
    exact ⟨([], []) :: ps, Nat.succ_le_succ hlen, hps⟩
  · intro n i put keyAddr ks valAddr vs hused hreads
    set p : Bytes × Bytes := ((h.bytes.drop keyAddr).take ks, (h.bytes.drop valAddr).take vs)
    have hpair : Used p.1.length p.2.length := used_of_read hused hreads.1
    by_cases hcopied : copied i = true
    · simp only [pairPut, hcopied, if_true]
      intro r hr
      obtain ⟨ps, hlen, hps⟩ := hr
      refine ⟨p :: ps, Nat.succ_le_succ hlen, ?_⟩
      rw [putPairs, if_pos hpair, if_pos hcopied, ← hps]
      simp [httpSetHeader, rewritten, cutPair, cstr, p]
    · simp only [pairPut, hcopied, Bool.false_eq_true, if_false]
      exact ⟨[p], by simp, by rw [putPairs, if_pos hpair, if_neg hcopied]⟩

end Loop

section Texts

theorem lineFree_append {a b : Bytes} : LineFree (a ++ b) ↔ LineFree a ∧ LineFree b := by
  simp only [LineFree, List.mem_append, not_or]
  exact and_and_and_comm

theorem lineFree_separator : LineFree (ascii ": ") := by
  unfold LineFree
  decide +kernel

theorem lineFree_headerLine {key value : Bytes} (hkey : key.length < 256) :
    LineFree (headerLine (cutPair (key, value))).1 ↔ PairFree (key, value) := by
  have hle := length_cstr_le key
  rw [headerLine_eq _ (nul_notMem_cstr key) (nul_notMem_cstr value) (Nat.lt_of_le_of_lt hle hkey),
    lineFree_append, lineFree_append, PairFree]
  simp only [cutPair, lineFree_separator, and_true]

theorem lineFree_hostLine {value : Bytes} (hvalue : value.length < 4096) :
    LineFree (hostLine value).1 ↔ LineFree (cstr value) := by
  have hhost : (ascii "Host: ").length = 6 := by decide +kernel
  have hle := length_cstr_le value
  have hnul : 0 ∉ ascii "Host: " ++ cstr value := by
    rw [List.mem_append, not_or]
    exact ⟨by decide +kernel, nul_notMem_cstr value⟩
  have hline : (hostLine value).1 = ascii "Host: " ++ cstr value := by
    rw [hostLine, List.take_of_length_le (by rw [List.length_append]; omega)]
    exact cstr_eq_self hnul
  have hfree : LineFree (ascii "Host: ") := by
    unfold LineFree
    decide +kernel
  rw [hline, lineFree_append, and_iff_right hfree]

theorem lineFree_rawLine (name value : Bytes) :
    LineFree (rawLine name value).1 ↔ LineFree (cstr name) ∧ LineFree (cstr value) := by
  have hnul : 0 ∉ cstr name ++ ascii ": " ++ cstr value := by
    simp only [List.mem_append, nul_notMem_cstr, or_false, false_or]
    decide +kernel
  have hline : (rawLine name value).1 = cstr name ++ ascii ": " ++ cstr value := cstr_eq_self hnul
  rw [hline, lineFree_append, lineFree_append]
  simp only [lineFree_separator, and_true]

end Texts

section Steps

theorem tableClean_httpSetHeader {t : HttpTable} {fits : Bool} {line : CStr} :
    TableClean (httpSetHeader fits line t) ↔ TableClean t ∧ (fits = true → LineFree line.1) := by
  rw [httpSetHeader]
  cases fits with
  | false => simp
  | true =>
    simp only [if_true, true_implies]
    constructor
    · intro h
      exact ⟨⟨h.method, h.url, h.status, fun l hl => h.entries l (List.mem_append_left _ hl)⟩,
        h.entries line (List.mem_append_right _ (List.mem_singleton_self _))⟩
    · rintro ⟨h, hline⟩
      refine ⟨h.method, h.url, h.status, fun l hl => ?_⟩
      rcases List.mem_append.mp hl with hl | hl
      · exact h.entries l hl
      · exact Option.some.inj (List.mem_singleton.mp hl) ▸ hline

theorem TableClean.setUrl_iff {t : HttpTable} (h : TableClean t) (text : CStr) :
    TableClean { t with url := some text } ↔ LineFree text.1 :=
  ⟨fun hclean => hclean.url text rfl,
    fun hfree => ⟨h.method, fun _ ht => Option.some.inj ht ▸ hfree, h.status, h.entries⟩⟩

theorem TableClean.setMethod_iff {t : HttpTable} (h : TableClean t) (text : CStr) :
    TableClean { t with method := some text } ↔ LineFree text.1 :=
  ⟨fun hclean => hclean.method text rfl,
    fun hfree => ⟨fun _ ht => Option.some.inj ht ▸ hfree, h.url, h.status, h.entries⟩⟩

theorem TableClean.httpUnset {t : HttpTable} (h : TableClean t) (kept : CStr → Bool)
    (name : Bytes) : TableClean (httpUnset kept name t) :=
  ⟨h.method, h.url, h.status, fun line hline => h.entries line (List.mem_of_mem_filter hline)⟩

theorem pwGetHeaderMapMutable_modify (s : VrtTables) (map : HeaderMap)
    (f : HttpTable → HttpTable) :
    pwGetHeaderMapMutable (modify s map f) map = (pwGetHeaderMapMutable s map).map f := by
  cases map with
  | request => rfl
  | response =>
    simp only [modify]
    cases hresp : s.httpResp <;> simp [pwGetHeaderMapMutable, hresp]

theorem TablesClean.table {s : VrtTables} (h : TablesClean s) {map : HeaderMap} {t : HttpTable}
    (ht : pwGetHeaderMapMutable s map = some t) : TableClean t := by
  cases map with
  | request => exact h.req t ht
  | response =>
    rcases Option.or_eq_some_iff.mp ht with hresp | ⟨-, hberesp⟩
    · exact h.resp t hresp
    · exact h.beresp t hberesp

theorem tablesClean_modify {s : VrtTables} (h : TablesClean s) (map : HeaderMap)
    (f : HttpTable → HttpTable) :
    TablesClean (modify s map f) ↔
      ∀ t, pwGetHeaderMapMutable s map = some t → TableClean (f t) := by
  constructor
  · intro hclean t ht
    have hmodified := pwGetHeaderMapMutable_modify s map f
    rw [ht, Option.map_some] at hmodified
    exact hclean.table hmodified
  · intro hf
    cases map with
    | request =>
      refine ⟨fun t ht => ?_, h.resp, h.beresp⟩
      obtain ⟨u, hu, rfl⟩ := Option.map_eq_some_iff.mp ht
      exact hf u hu
    | response =>
      cases hresp : s.httpResp with
      | some u =>
        simp only [modify, hresp]
        refine ⟨h.req, fun t ht => ?_, h.beresp⟩
        obtain rfl := Option.some.inj ht
        exact hf u (by simp [pwGetHeaderMapMutable, hresp])
      | none =>
        simp only [modify, hresp]
        refine ⟨h.req, by simp, fun t ht => ?_⟩
        obtain ⟨u, hu, rfl⟩ := Option.map_eq_some_iff.mp ht
        exact hf u (by simp [pwGetHeaderMapMutable, hresp, hu])

theorem tableClean_putPairs (room : Room) (i : ℕ) (ps : Pairs) (t : HttpTable) :
    TableClean (putPairs room i ps t).2 ↔ TableClean t ∧ PairsFree room i ps := by
  induction ps generalizing i t with
  | nil => simp [putPairs, PairsFree]
  | cons p ps ih =>
    rw [putPairs, PairsFree]
    by_cases hused : Used p.1.length p.2.length
    · rw [if_pos hused, if_pos hused]
      by_cases hcopied : room.copied i = true
      · rw [if_pos hcopied, ih, tableClean_httpSetHeader, lineFree_headerLine hused.2.1]
        simp only [hcopied, true_implies, and_assoc]
      · simp [hcopied]
    · rw [if_neg hused, if_neg hused, ih]

/-- A line that is put into clean tables, if it can be copied. -/
theorem tablesClean_putLine {s : VrtTables} (h : TablesClean s) (room : Room) (map : HeaderMap)
    {key value : Bytes} (hkey : key.length < 256) :
    TablesClean (if room.copied 0 then (ProxyStatus.ok,
        modify s map (httpSetHeader (room.fits 0) (headerLine (cutPair (key, value)))))
      else (.internal, s)).2 ↔
      ((pwGetHeaderMapMutable s map).isSome = true → room.copied 0 = true → room.fits 0 = true →
        PairFree (key, value)) := by
  split
  next hcopied =>
    rw [tablesClean_modify h, Option.isSome_iff_exists]
    simp only [tableClean_httpSetHeader, lineFree_headerLine hkey, hcopied, true_implies]
    constructor
    · rintro hall ⟨t, ht⟩
      exact (hall t ht).2
    · intro hall t ht
      exact ⟨h.table ht, hall ⟨t, ht⟩⟩
  next hnot => exact iff_of_true h fun _ hcopied => absurd hcopied hnot

section Calls

variable {s : VrtTables} (h : TablesClean s) (room : Room)

include h

theorem tablesClean_add (map : HeaderMap) (key value : Bytes) :
    TablesClean (pwProxyAddHeaderMapValue room map key value s).2 ↔
      (key.length < 256 → value.length < 4096 → (pwGetHeaderMapMutable s map).isSome = true →
        room.copied 0 = true → room.fits 0 = true → PairFree (key, value)) := by
  unfold pwProxyAddHeaderMapValue
  split
  next hlong => exact iff_of_true h fun hkey hvalue => absurd hlong (by omega)
  next hshort =>
    split
    next hnone => exact iff_of_true h fun _ _ hsome => absurd hsome (by simp_all)
    next hsome =>
      rw [tablesClean_putLine h room map (by omega)]
      exact ⟨fun hall _ _ => hall, fun hall => hall (by omega) (by omega)⟩

theorem tablesClean_replace (map : HeaderMap) (key value : Bytes) :
    TablesClean (pwProxyReplaceHeaderMapValue room map key value s).2 ↔
      (key.length < 256 → value.length < 4096 → (pwGetHeaderMapMutable s map).isSome = true →
        room.copied 0 = true → room.fits 0 = true → PairFree (key, value)) := by
  have hunset : TablesClean (modify s map (httpUnset room.kept (cstr key))) :=
    (tablesClean_modify h map _).mpr fun t ht => (h.table ht).httpUnset room.kept (cstr key)
  unfold pwProxyReplaceHeaderMapValue
  split
  next hlong => exact iff_of_true h fun hkey hvalue => absurd hlong (by omega)
  next hshort =>
    split
    next hnone => exact iff_of_true h fun _ _ hsome => absurd hsome (by simp_all)
    next hsome =>
      rw [tablesClean_putLine hunset room map (by omega), pwGetHeaderMapMutable_modify,
        Option.isSome_map]
      exact ⟨fun hall _ _ => hall, fun hall => hall (by omega) (by omega)⟩

theorem tablesClean_setPairs (map : HeaderMap) (pairs : Pairs) :
    TablesClean (pwProxySetHeaderMapPairs room map pairs s).2 ↔
      (pairs.length ≤ 256 → (pwGetHeaderMapMutable s map).isSome = true →
        PairsFree room 0 pairs) := by
  unfold pwProxySetHeaderMapPairs
  split
  next hmany => exact iff_of_true h fun hle => absurd hmany (by omega)
  next hfew =>
    cases ht : pwGetHeaderMapMutable s map with
    | none => exact iff_of_true h fun _ hsome => absurd hsome (by simp)
    | some t =>
      have hclean := h.table ht
      have hempty : TableClean { t with entries := [] } :=
        ⟨hclean.method, hclean.url, hclean.status, by simp⟩
      dsimp only
      rw [tablesClean_modify h]
      simp only [ht, Option.some.injEq, forall_eq', tableClean_putPairs, hempty, true_and,
        Option.isSome_some, true_implies]
      exact (imp_iff_right (by omega)).symm

theorem tablesClean_request {t : HttpTable} :
    TablesClean { s with httpReq := some t } ↔ TableClean t :=
  ⟨fun hclean => hclean.req t rfl,
    fun ht => ⟨fun _ hu => Option.some.inj hu ▸ ht, h.resp, h.beresp⟩⟩

/-- A change to the request that needs a copy; `s'` is left without it. -/
theorem tablesClean_copied {α : Type} {t : HttpTable} {s' : VrtTables} (hs' : TablesClean s')
    (copied : Bool) (done failed : α) :
    TablesClean (if copied then (done, { s with httpReq := some t }) else (failed, s')).2 ↔
      (copied = true → TableClean t) := by
  split
  next hcopied =>
    rw [tablesClean_request h]
    exact (imp_iff_right hcopied).symm
  next hnot => exact iff_of_true hs' fun hcopied => absurd hcopied hnot

theorem tablesClean_setResponseHeader (name value : Bytes) :
    TablesClean (hostSetResponseHeader room name value s).2 ↔
      (s.httpReq.isSome = true → room.copied 0 = true → room.fits 0 = true →
        LineFree (cstr name) ∧ LineFree (cstr value)) := by
  unfold hostSetResponseHeader
  cases ht : s.httpReq with
  | none => exact iff_of_true h fun hsome => absurd hsome (by simp)
  | some t =>
    rw [tablesClean_copied h h, tableClean_httpSetHeader, lineFree_rawLine]
    simp only [h.req t ht, true_and, Option.isSome_some, true_implies]

theorem tablesClean_setProperty (path value : Bytes) :
    TablesClean (pwProxySetProperty room path value s).2 ↔
      (value.length < 4096 → s.httpReq.isSome = true → room.copied 0 = true →
        PropertyFree room path value) := by
  unfold pwProxySetProperty PropertyFree
  split
  next hlong =>
    refine iff_of_true h fun hvalue _ _ => ?_
    have hpath : 512 ≤ path.length := by omega
    have hne (part : String) (hpart : (requestPath part).length < 512) :
        path ≠ requestPath part := fun heq => absurd (heq ▸ hpath) (by omega)
    simp [hne "path" (by decide +kernel), hne "url_path" (by decide +kernel),
      hne "method" (by decide +kernel), hne "host" (by decide +kernel)]
  next hshort =>
    have hvalue : value.length < 4096 := by omega
    cases ht : s.httpReq with
    | none => exact iff_of_true h fun _ hsome => absurd hsome (by simp)
    | some t =>
      have hclean := h.req t ht
      simp only [hvalue, Option.isSome_some, true_implies]
      by_cases hpath : path = requestPath "path" ∨ path = requestPath "url_path"
      · have hmethod : path ≠ requestPath "method" := by
          rcases hpath with rfl | rfl <;> decide +kernel
        have hhost : path ≠ requestPath "host" := by
          rcases hpath with rfl | rfl <;> decide +kernel
        simp only [hpath, hmethod, hhost, if_true, true_implies, false_implies, and_true]
        split
        next hother => exact iff_of_true h fun _ hslash => absurd hslash hother
        next hslash =>
          rw [tablesClean_copied h h, hclean.setUrl_iff]
          exact imp_congr_right fun _ => (imp_iff_right (not_not.mp hslash)).symm
      by_cases hmethod : path = requestPath "method"
      · have hhost : path ≠ requestPath "host" := hmethod ▸ by decide +kernel
        simp only [eq_false hpath, eq_true hmethod, eq_false hhost, if_true, if_false,
          true_implies, false_implies, true_and, and_true]
        split
        next hsize => exact iff_of_true h fun _ hpos hle => absurd hsize (by omega)
        next hsize =>
          rw [tablesClean_copied h h, hclean.setMethod_iff]
          exact imp_congr_right fun _ =>
            ⟨fun hfree _ _ => hfree, fun hall => hall (by omega) (by omega)⟩
      by_cases hhost : path = requestPath "host"
      · have hunset := hclean.httpUnset room.kept (ascii "Host")
        simp only [eq_false hpath, eq_false hmethod, eq_true hhost, if_true, if_false,
          true_implies, false_implies, true_and]
        split
        next hsize => exact iff_of_true h fun _ hpos => absurd hsize (by omega)
        next hsize =>
          rw [tablesClean_copied h ((tablesClean_request h).mpr hunset),
            tableClean_httpSetHeader, lineFree_hostLine hvalue]
          exact imp_congr_right fun _ =>
            ⟨fun hfree _ => hfree.2, fun hall => ⟨hunset, hall (by omega)⟩⟩
      · simp only [hpath, hmethod, hhost, if_false, false_implies, and_self, implies_true,
          iff_true]
        exact h

end Calls

/-- From clean tables a call leads to clean tables exactly if it is harmless. -/
theorem tablesClean_guestCall {s : VrtTables} (h : TablesClean s) (c : Room × GuestCall) :
    TablesClean (guestCall c.1 s c.2).2 ↔ Harmless s c := by
  obtain ⟨room, call⟩ := c
  cases call with
  | addHeaderMapValue map key value => exact tablesClean_add h room map key value
  | replaceHeaderMapValue map key value => exact tablesClean_replace h room map key value
  | setHeaderMapPairs map pairs => exact tablesClean_setPairs h room map pairs
  | setProperty path value => exact tablesClean_setProperty h room path value
  | setResponseHeader name value => exact tablesClean_setResponseHeader h room name value

end Steps

/-- From clean tables, the sequences of calls that keep them clean throughout are
those in which every call is harmless. -/
theorem cleanRun_iff (s s' : VrtTables) (cs : List (Room × GuestCall)) (h : TablesClean s) :
    Run (Reaching TablesClean callStep) s cs s' ↔ Run (Guarded Harmless callStep) s cs s' :=
  Run.reaching_iff_guarded (fun _ _ _ hs hharmless hstep =>
      hstep ▸ (tablesClean_guestCall hs _).mpr hharmless)
    (fun _ hs => hs)
    (fun _ _ _ hs hharm hstep hclean =>
      hharm ((tablesClean_guestCall hs _).mp (hstep ▸ hclean))) h

/-- A request without headers. -/
def bareRequest : VrtTables where
  httpReq := some {}

theorem bareRequest_clean : TablesClean bareRequest := by
  refine ⟨fun t ht => ?_, by simp [bareRequest], by simp [bareRequest]⟩
  obtain rfl := Option.some.inj ht
  exact ⟨by simp, by simp, by simp, by simp⟩

theorem plainHeader_clean :
    ∃ s, Run (Reaching TablesClean callStep) bareRequest
      [({}, .addHeaderMapValue .request (ascii "A") (ascii "b"))] s :=
  ⟨_, (cleanRun_iff bareRequest _ _ bareRequest_clean).mpr
    (Run.cons ⟨fun _ _ _ _ _ => by unfold PairFree LineFree; decide +kernel, rfl⟩ (Run.nil _))⟩

/-- A value with a line end in it becomes a line of the table. -/
theorem splitHeader_unclean :
    ∃ s, Run callStep bareRequest
        [({}, .addHeaderMapValue .request (ascii "A") (ascii "b" ++ crlf ++ ascii "C: d"))] s ∧
      ¬ TablesClean s := by
  refine ⟨_, Run.cons rfl (Run.nil _), fun hclean => ?_⟩
  have hfree := (hclean.req _ rfl).entries _ (List.mem_singleton_self _)
  exact hfree.1 (by decide +kernel)

end VmodWasm.HeaderLines
