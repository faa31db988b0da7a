import VmodWasm.HeaderLines
import VmodWasm.Lib.Mealy

/-!
The properties of a request as guests read and write them. `proxy_get_property` compares
the path with one name after the other; most values come from the header table of the
request, the others from the response, the connection and the server. Three properties can
be written: the path, which has two names, the method and the host, which is a header line
among the others. A property that is read is the one written last.
-/
namespace VmodWasm.Properties

open ByteStrings ByteSearch ProxyContext HeaderTables HeaderLookup HeaderLines CalloutHeaders
  Lib.Mealy

/-- What properties are read from. `protocol` is the third field of the first line of
`http_req`, `respStatus` the status of `http_resp` or else of `http_beresp`. -/
structure PropertyCtx where
  tables : VrtTables := {}
  protocol : Option CStr := none
  respStatus : ℕ := 200
  rootContextId : ℕ := 1
  clientAddress : Option CStr := none
  clientPort : Option ℕ := none
  serverAddress : Option CStr := none
  localPort : Option ℕ := none
  serverIdentity : Option CStr := none

/-- A path of two parts. -/
def pathOf (first second : String) : Bytes := ascii first ++ 0 :: ascii second

/-- The properties of `http_req`. -/
def requestProperty (t : HttpTable) (protocol : Option CStr) (path : Bytes) : Option Bytes :=
  if path = requestPath "path" then t.url.map (·.1)
  else if path = requestPath "url_path" then t.url.map (·.1)
  else if path = requestPath "method" then t.method.map (·.1)
  else if path = requestPath "protocol" then protocol.map (·.1)
  else if path = requestPath "host" then httpGetHdr t (ascii "Host")
  else if path = requestPath "scheme" then some (ascii "http")
  else none

/-- `val`, if the path has the name. -/
def named (path name : Bytes) (val : Option Bytes) : Option Bytes :=
  if path = name then val else none

/-- The properties that are tried when `http_req` has given no value. -/
def otherProperty (ctx : PropertyCtx) (path : Bytes) : Option Bytes :=
  let resp := ctx.tables.httpResp.or ctx.tables.httpBeresp
  (named path (pathOf "response" "code") (resp.map fun _ => decimal ctx.respStatus)).or <|
  (named path (ascii "plugin_root_id") (some (decimal ctx.rootContextId))).or <|
  (named path (pathOf "source" "address") (ctx.clientAddress.map (·.1))).or <|
  (named path (pathOf "source" "port") (ctx.clientPort.map decimal)).or <|
  (named path (pathOf "destination" "address") (ctx.serverAddress.map (·.1))).or <|
  (named path (pathOf "destination" "port") (ctx.localPort.map decimal)).or <|
  (named path (pathOf "node" "id") (ctx.serverIdentity.map (·.1))).or <|
  named path (pathOf "connection" "id") (some (decimal ctx.rootContextId))

def propertyValue (ctx : PropertyCtx) (path : Bytes) : Option Bytes :=
  (ctx.tables.httpReq.bind fun t => requestProperty t ctx.protocol path).or
    (otherProperty ctx path)

/-- `pw_proxy_get_property` for the path it has read, as far as `pw_return_string`. -/
def pwProxyGetProperty (ctx : PropertyCtx) (path : Bytes) : Except ProxyStatus Bytes :=
  if 512 ≤ path.length then .error .badArgument else found (propertyValue ctx path)

inductive PropertyCall where
  | get (path : Bytes)
  | set (room : Room) (path value : Bytes)

inductive PropertyReply where
  | got (value : Except ProxyStatus Bytes)
  | status (s : ProxyStatus)

def propertyStep (ctx : PropertyCtx) : PropertyCall → PropertyReply × PropertyCtx
  | .get path => (.got (pwProxyGetProperty ctx path), ctx)
  | .set room path value =>
    let r := pwProxySetProperty room path value ctx.tables
    (.status r.1, { ctx with tables := r.2 })

section Written

/-- The two names of the path. -/
def IsUrl (path : Bytes) : Prop := path = requestPath "path" ∨ path = requestPath "url_path"

instance (path : Bytes) : Decidable (IsUrl path) := inferInstanceAs (Decidable (_ ∨ _))

/-- A write to `q` is one to `p`. -/
def SameProperty (p q : Bytes) : Prop := p = q ∨ IsUrl p ∧ IsUrl q

instance (p q : Bytes) : Decidable (SameProperty p q) := inferInstanceAs (Decidable (_ ∨ _))

/-- What a write makes of a property, as it is read afterwards: a C string, for the host
without blanks in front, and nothing if the table has no room for the line. -/
def shown (room : Room) (path value : Bytes) : Option Bytes :=
  if path = requestPath "host" then
    if room.fits 0 then some ((cstr value).dropWhile isBlank) else none
  else some (cstr value)

/-- What a call with its reply does to the property `p`, if anything. A host that cannot
be copied is lost. -/
def written (p : Bytes) : PropertyCall × PropertyReply → Option (Option Bytes)
  | (.set room path value, .status .ok) =>
    if SameProperty p path then some (shown room path value) else none
  | (.set _ path _, .status .internal) =>
    if path = requestPath "host" ∧ p = path then some none else none
  | _ => none

end Written

section Sets

/-- What a write can come to: it is refused, or writes the path, the method or the host, or
loses the host. -/
inductive SetOutcome (room : Room) (path value : Bytes) (s : VrtTables) :
    ProxyStatus × VrtTables → Prop
  | refused {status : ProxyStatus} (hok : status ≠ .ok)
      (hhost : status = .internal → path ≠ requestPath "host") :
      SetOutcome room path value s (status, s)
  | url {t : HttpTable} (hpath : IsUrl path) (ht : s.httpReq = some t) :
      SetOutcome room path value s
        (.ok, { s with httpReq := some { t with url := some (toCStr value) } })
  | method {t : HttpTable} (hpath : path = requestPath "method") (ht : s.httpReq = some t) :
      SetOutcome room path value s
        (.ok, { s with httpReq := some { t with method := some (toCStr value) } })
  | host {t : HttpTable} (hpath : path = requestPath "host") (ht : s.httpReq = some t)
      (hlen : value.length < 4096) :
      SetOutcome room path value s
        (.ok, { s with httpReq := some (httpSetHeader (room.fits 0) (hostLine value)
          (httpUnset room.kept (ascii "Host") t)) })
  | lost {t : HttpTable} (hpath : path = requestPath "host") (ht : s.httpReq = some t) :
      SetOutcome room path value s
        (.internal, { s with httpReq := some (httpUnset room.kept (ascii "Host") t) })

theorem url_ne_host : ¬ IsUrl (requestPath "host") := by decide +kernel

theorem method_ne_host : requestPath "method" ≠ requestPath "host" := by decide +kernel

theorem pwProxySetProperty_outcome (room : Room) (path value : Bytes) (s : VrtTables) :
    SetOutcome room path value s (pwProxySetProperty room path value s) := by
  unfold pwProxySetProperty
  split
  · exact .refused nofun nofun
  next hshort =>
  cases ht : s.httpReq with
  | none => exact .refused nofun nofun
  | some t =>
    dsimp only
    split
    next hurl =>
      have hne : path ≠ requestPath "host" := fun heq => url_ne_host (heq ▸ hurl)
      split
      · exact .refused nofun nofun
      · split
        · exact .url hurl ht
        · exact .refused nofun fun _ => hne
    · split
      next hmethod =>
        have hne : path ≠ requestPath "host" := fun heq => method_ne_host (hmethod ▸ heq)
        split
        · exact .refused nofun nofun
        · split
          · exact .method hmethod ht
          · exact .refused nofun fun _ => hne
      · split
        next hhost =>
          split
          · exact .refused nofun nofun
          · split
            · exact .host hhost ht (by omega)
            · exact .lost hhost ht
        · exact .refused nofun nofun

end Sets

section Reads

variable (t : HttpTable) (protocol : Option CStr) (p : Bytes)

theorem requestProperty_url (u : Option CStr) :
    requestProperty { t with url := u } protocol p =
      if IsUrl p then u.map (·.1) else requestProperty t protocol p := by
  by_cases hurl : IsUrl p
  · rw [if_pos hurl, requestProperty]
    rcases hurl with hpath | hpath
    · rw [if_pos hpath]
    · have hne : p ≠ requestPath "path" := by
        rw [hpath]
        decide +kernel
      rw [if_neg hne, if_pos hpath]
  · rw [if_neg hurl, requestProperty, requestProperty]
    obtain ⟨hpath, hurlPath⟩ := not_or.mp hurl
    simp only [if_neg hpath, if_neg hurlPath]
    rfl

theorem requestProperty_method (m : Option CStr) :
    requestProperty { t with method := m } protocol p =
      if p = requestPath "method" then m.map (·.1) else requestProperty t protocol p := by
  unfold requestProperty
  by_cases hmethod : p = requestPath "method"
  · have hpath : p ≠ requestPath "path" := by
      rw [hmethod]
      decide +kernel
    have hurl : p ≠ requestPath "url_path" := by
      rw [hmethod]
      decide +kernel
    rw [if_neg hpath, if_neg hurl, if_pos hmethod, if_pos hmethod]
  · simp only [if_neg hmethod]
    rfl

/-- Of the header lines only the host is a property. -/
theorem requestProperty_entries (t' : HttpTable) (hurl : t'.url = t.url)
    (hmethod : t'.method = t.method) :
    requestProperty t' protocol p =
      if p = requestPath "host" then httpGetHdr t' (ascii "Host")
      else requestProperty t protocol p := by
  unfold requestProperty
  by_cases hhost : p = requestPath "host"
  · have hne (part : String) (hpart : requestPath "host" ≠ requestPath part) :
        p ≠ requestPath part := hhost ▸ hpart
    rw [if_neg (hne "path" (by decide +kernel)), if_neg (hne "url_path" (by decide +kernel)),
      if_neg (hne "method" (by decide +kernel)), if_neg (hne "protocol" (by decide +kernel)),
      if_pos hhost, if_pos hhost]
  · simp only [if_neg hhost, hurl, hmethod]

theorem otherProperty_host (ctx : PropertyCtx) : otherProperty ctx (requestPath "host") = none := by
  have hne (name : Bytes) (val : Option Bytes) (hname : requestPath "host" ≠ name) :
      named (requestPath "host") name val = none := if_neg hname
  unfold otherProperty
  dsimp only
  rw [hne _ _ (by decide +kernel), hne _ _ (by decide +kernel), hne _ _ (by decide +kernel),
    hne _ _ (by decide +kernel), hne _ _ (by decide +kernel), hne _ _ (by decide +kernel),
    hne _ _ (by decide +kernel), hne _ _ (by decide +kernel)]
  rfl

end Reads

section Host

variable {t : HttpTable} (kept : CStr → Bool) (value : Bytes)

theorem lengthTold_host : LengthTold (ascii "Host") := by decide +kernel

/-- After the removal there is no line of the name. -/
theorem httpGetHdr_httpUnset {name : Bytes} (htold : LengthTold name) :
    httpGetHdr (httpUnset kept name t) name = none := by
  refine List.findSome?_eq_none_iff.mpr fun e he => ?_
  cases e with
  | none => rfl
  | some line =>
    obtain ⟨-, hline⟩ := List.mem_filter.mp he
    have hnot : begins name line.1 = false := by
      simpa only [if_pos htold, Bool.not_eq_true'] using hline
    exact if_neg (Bool.not_eq_true _ ▸ hnot)

theorem hostLine_eq (hlen : value.length < 4096) :
    (hostLine value).1 = ascii "Host" ++ colon :: 0x20 :: cstr value := by
  have htext : ascii "Host: " ++ cstr value = ascii "Host" ++ colon :: 0x20 :: cstr value := rfl
  have hshort : (ascii "Host: " ++ cstr value).length ≤ 4351 := by
    have hle := length_cstr_le value
    rw [List.length_append, show (ascii "Host: ").length = 6 from rfl]
    omega
  have hnul : 0 ∉ ascii "Host: " ++ cstr value := by
    rw [List.mem_append, not_or]
    exact ⟨by decide +kernel, nul_notMem_cstr value⟩
  rw [hostLine, List.take_of_length_le hshort]
  exact (cstr_eq_self hnul).trans htext

theorem httpGetHdr_hostLine (hlen : value.length < 4096) (fits : Bool) :
    httpGetHdr (httpSetHeader fits (hostLine value) (httpUnset kept (ascii "Host") t))
        (ascii "Host") =
      if fits then some ((cstr value).dropWhile isBlank) else none := by
  have hgone := httpGetHdr_httpUnset (t := t) kept lengthTold_host
  cases fits with
  | false => exact hgone
  | true =>
    have hbegins : begins (ascii "Host") (hostLine value).1 = true := by
      rw [hostLine_eq value hlen]
      rfl
    have hfield : fieldValue (ascii "Host") (hostLine value).1 =
        (cstr value).dropWhile isBlank := by
      rw [hostLine_eq value hlen]
      rfl
    unfold httpGetHdr at hgone ⊢
    rw [httpSetHeader, if_pos rfl, List.findSome?_append, hgone, Option.none_or]
    simp only [List.findSome?_cons, hbegins, if_true, hfield]

end Host

theorem httpSetHeader_first (fits : Bool) (line : CStr) (t : HttpTable) :
    (httpSetHeader fits line t).url = t.url ∧ (httpSetHeader fits line t).method = t.method := by
  unfold httpSetHeader
  split <;> exact ⟨rfl, rfl⟩

section Histories

/-- The table of the request is changed, and with it perhaps one property. -/
theorem propertyValue_table {ctx : PropertyCtx} {t t' : HttpTable} {p : Bytes}
    {changed : Prop} [Decidable changed] {v : Option Bytes} (ht : ctx.tables.httpReq = some t)
    (hread : requestProperty t' ctx.protocol p =
      if changed then v else requestProperty t ctx.protocol p)
    (hgone : changed → v = none → otherProperty ctx p = none) :
    propertyValue { ctx with tables := { ctx.tables with httpReq := some t' } } p =
      if changed then v else propertyValue ctx p := by
  change (requestProperty t' ctx.protocol p).or (otherProperty ctx p) = _
  rw [hread, propertyValue, ht]
  by_cases hchanged : changed
  · rw [if_pos hchanged, if_pos hchanged]
    cases v with
    | none => exact hgone hchanged rfl
    | some v => rfl
  · rw [if_neg hchanged, if_neg hchanged]
    rfl

/-- One call changes a property as it says with its reply. -/
theorem propertyValue_step (ctx : PropertyCtx) (c : PropertyCall) (p : Bytes) :
    propertyValue (propertyStep ctx c).2 p =
      (written p (c, (propertyStep ctx c).1)).getD (propertyValue ctx p) := by
  cases c with
  | get path => rfl
  | set room path value =>
    rw [propertyStep]
    dsimp only
    have houtcome := pwProxySetProperty_outcome room path value ctx.tables
    generalize pwProxySetProperty room path value ctx.tables = r at houtcome
    cases houtcome with
    | @refused status hok hhost =>
      have hnone : written p (.set room path value, .status status) = none := by
        cases status with
        | ok => contradiction
        | internal => exact if_neg fun hboth => hhost rfl hboth.1
        | _ => rfl
      rw [hnone]
      rfl
    | @url t hpath ht =>
      have hne : path ≠ requestPath "host" := fun heq => url_ne_host (heq ▸ hpath)
      have hsame : SameProperty p path ↔ IsUrl p :=
        ⟨fun h => h.elim (fun heq => heq ▸ hpath) And.left, fun h => Or.inr ⟨h, hpath⟩⟩
      have hread := requestProperty_url t ctx.protocol p (some (toCStr value))
      rw [propertyValue_table ht hread fun _ h => absurd h (Option.some_ne_none _), written, shown,
        if_neg hne]
      simp only [hsame]
      split <;> rfl
    | @method t hpath ht =>
      subst hpath
      have hsame : SameProperty p (requestPath "method") ↔ p = requestPath "method" :=
        ⟨fun h => h.elim id fun hurl => absurd hurl.2 (by decide +kernel), Or.inl⟩
      have hread := requestProperty_method t ctx.protocol p (some (toCStr value))
      rw [propertyValue_table ht hread fun _ h => absurd h (Option.some_ne_none _), written, shown,
        if_neg method_ne_host]
      simp only [hsame]
      split <;> rfl
    | @host t hpath ht hlen =>
      subst hpath
      have hsame : SameProperty p (requestPath "host") ↔ p = requestPath "host" :=
        ⟨fun h => h.elim id fun hurl => absurd hurl.2 url_ne_host, Or.inl⟩
      have hgone : p = requestPath "host" → otherProperty ctx p = none := fun heq =>
        heq ▸ otherProperty_host ctx
      have hline := httpSetHeader_first (room.fits 0) (hostLine value)
        (httpUnset room.kept (ascii "Host") t)
      have hread := requestProperty_entries t ctx.protocol p _ hline.1 hline.2
      rw [propertyValue_table ht hread fun heq _ => hgone heq, written, shown, if_pos rfl,
        httpGetHdr_hostLine room.kept value hlen]
      simp only [hsame]
      split <;> rfl
    | @lost t hpath ht =>
      subst hpath
      have hgone : p = requestPath "host" → otherProperty ctx p = none := fun heq =>
        heq ▸ otherProperty_host ctx
      have hread := requestProperty_entries t ctx.protocol p
        (httpUnset room.kept (ascii "Host") t) rfl rfl
      rw [propertyValue_table ht hread fun heq _ => hgone heq,
        httpGetHdr_httpUnset room.kept lengthTold_host, written]
      simp only [true_and]
      split <;> rfl

theorem propertyValue_after (ctx : PropertyCtx) (calls : List PropertyCall) (p : Bytes) :
    propertyValue (after propertyStep ctx calls) p =
      ((transcript propertyStep ctx calls).filterMap (written p)).getLast?.getD
        (propertyValue ctx p) := by
  induction calls using List.reverseRecOn with
  | nil => rfl
  | append_singleton calls c ih =>
    rw [after_snoc, transcript_snoc, propertyValue_step, List.filterMap_append, ih]
    change (written p (c, answer propertyStep ctx calls c)).getD _ = _
    rw [List.filterMap_cons, List.filterMap_nil]
    cases written p (c, answer propertyStep ctx calls c) with
    | none =>
      rw [List.append_nil]
      rfl
    | some v =>
      rw [List.getLast?_concat]
      rfl

end Histories

end VmodWasm.Properties
