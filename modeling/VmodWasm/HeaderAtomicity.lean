import VmodWasm.HeaderLines

/-!
Calls on the header tables that fail. A line is copied to the workspace before a
table takes it, and the workspace may be full. Three calls take the old lines out
of the table before they try the copy, so a call that reports an error may still
have removed headers.
-/
namespace VmodWasm.HeaderAtomicity

open ByteStrings ByteSearch ProxyContext HeaderTables HeaderMapPairs HeaderRewrites HeaderLookup
  CalloutHeaders HeaderLines

/-- A status other than `PROXY_OK`, or a number other than 0. -/
def Failed : Reply → Prop
  | .status s => s ≠ .ok
  | .raw code => code ≠ 0

/-- The call leaves the tables alone if it fails. -/
def IsAtomic (room : Room) (s : VrtTables) (call : GuestCall) : Prop :=
  Failed (guestCall room s call).1 → (guestCall room s call).2 = s

section Conditions

/-- There is no line that `http_Unset` would take out. -/
def Absent (kept : CStr → Bool) (name : Bytes) (t : HttpTable) : Prop :=
  ∀ line, some line ∈ t.entries →
    if LengthTold name then begins name line.1 = false else kept line = true

/-- The first pair, of those numbered from `i` on, whose line cannot be copied. -/
def copyFailure (copied : ℕ → Bool) (i : ℕ) (ps : Pairs) : Option ℕ :=
  (ps.zipIdx i).findIdx? fun q => decide (Used q.1.1.length q.1.2.length) && !copied q.2

/-- The lines that pairs numbered from `i` on become in a table. -/
def pairLines (fits : ℕ → Bool) : ℕ → Pairs → List (Option CStr)
  | _, [] => []
  | i, p :: ps =>
    (if Used p.1.length p.2.length ∧ fits i = true then [some (headerLine (cutPair p))] else []) ++
      pairLines fits (i + 1) ps

/-- A call that has nothing to lose: no copy fails, or it fails where the table
is what it was. -/
def NothingLost (room : Room) (s : VrtTables) : GuestCall → Prop
  | .replaceHeaderMapValue map key value =>
    key.length < 256 → value.length < 4096 → room.copied 0 = false →
      ∀ t, pwGetHeaderMapMutable s map = some t → Absent room.kept (cstr key) t
  | .setHeaderMapPairs map pairs =>
    pairs.length ≤ 256 → ∀ n, copyFailure room.copied 0 pairs = some n →
      ∀ t, pwGetHeaderMapMutable s map = some t →
        t.entries = pairLines room.fits 0 (pairs.take n)
  | .setProperty path value =>
    path = requestPath "host" → 0 < value.length → value.length < 4096 →
      room.copied 0 = false → ∀ t, s.httpReq = some t → Absent room.kept (ascii "Host") t
  -- the line is copied before the table is touched
  | .addHeaderMapValue .. | .setResponseHeader .. => True

end Conditions

section Tables

theorem httpUnset_eq_self_iff (kept : CStr → Bool) (name : Bytes) (t : HttpTable) :
    httpUnset kept name t = t ↔ Absent kept name t := by
  have hentries : httpUnset kept name t = t ↔ (httpUnset kept name t).entries = t.entries :=
    ⟨congrArg _, fun h => by
      cases t
      simpa only [httpUnset, HttpTable.mk.injEq, true_and] using h⟩
  rw [hentries, httpUnset, List.filter_eq_self, Absent]
  constructor
  · intro hall line hline
    have hkept := hall (some line) hline
    by_cases htold : LengthTold name
    · simpa [htold] using hkept
    · simpa [htold] using hkept
  · intro habsent e he
    cases e with
    | none => rfl
    | some line =>
      have hline := habsent line he
      by_cases htold : LengthTold name
      · simpa [htold] using hline
      · simpa [htold] using hline

theorem modify_eq_self_iff (s : VrtTables) (map : HeaderMap) (f : HttpTable → HttpTable) :
    modify s map f = s ↔ ∀ t, pwGetHeaderMapMutable s map = some t → f t = t := by
  obtain ⟨req, resp, beresp⟩ := s
  cases map with
  | request => cases req <;> simp [HeaderLines.modify, pwGetHeaderMapMutable]
  | response =>
    cases resp with
    | some t => simp [HeaderLines.modify, pwGetHeaderMapMutable]
    | none => cases beresp <;> simp [HeaderLines.modify, pwGetHeaderMapMutable]

end Tables

section Loop

variable (room : Room)

theorem copyFailure_cons (copied : ℕ → Bool) (i : ℕ) (p : Bytes × Bytes) (ps : Pairs) :
    copyFailure copied i (p :: ps) =
      if Used p.1.length p.2.length ∧ copied i = false then some 0
      else (copyFailure copied (i + 1) ps).map (· + 1) := by
  rw [copyFailure, List.zipIdx_cons, List.findIdx?_cons, copyFailure]
  by_cases hused : Used p.1.length p.2.length
  · cases copied i <;> simp [hused]
  · simp [hused]

/-- The loop prints the lines of all pairs, or of those before the first one that
cannot be copied. -/
theorem putPairs_eq (i : ℕ) (ps : Pairs) (t : HttpTable) :
    putPairs room i ps t =
      match copyFailure room.copied i ps with
      | none => (.ok, { t with entries := t.entries ++ pairLines room.fits i ps })
      | some n =>
        (.internal, { t with entries := t.entries ++ pairLines room.fits i (ps.take n) }) := by
  induction ps generalizing i t with
  | nil => simp [putPairs, copyFailure, pairLines]
  | cons p ps ih =>
    rw [putPairs, copyFailure_cons]
    by_cases hused : Used p.1.length p.2.length
    · cases hcopied : room.copied i with
      | false => simp [hused, pairLines]
      | true =>
        have hline : httpSetHeader (room.fits i) (headerLine (cutPair p)) t =
            { t with entries := t.entries ++
                if room.fits i then [some (headerLine (cutPair p))] else [] } := by
          rw [httpSetHeader]
          cases room.fits i <;> simp
        simp only [hused, if_true, ih, hline, List.append_assoc]
        cases copyFailure room.copied (i + 1) ps <;> simp [pairLines, hused]
    · simp only [hused, if_false, false_and, ih]
      cases copyFailure room.copied (i + 1) ps <;> simp [pairLines, hused]

end Loop

section Calls

variable (room : Room) (s : VrtTables)

theorem isAtomic_add (map : HeaderMap) (key value : Bytes) :
    IsAtomic room s (.addHeaderMapValue map key value) := by
  intro hfailed
  revert hfailed
  simp only [guestCall, pwProxyAddHeaderMapValue]
  split
  next => exact fun _ => rfl
  next =>
    split
    next => exact fun _ => rfl
    next =>
      split
      next => exact fun hfailed => absurd rfl hfailed
      next => exact fun _ => rfl

theorem isAtomic_setResponseHeader (name value : Bytes) :
    IsAtomic room s (.setResponseHeader name value) := by
  intro hfailed
  revert hfailed
  simp only [guestCall, hostSetResponseHeader]
  split
  next => exact fun _ => rfl
  next =>
    split
    next => exact fun hfailed => absurd rfl hfailed
    next => exact fun _ => rfl

theorem isAtomic_replace (map : HeaderMap) (key value : Bytes) :
    IsAtomic room s (.replaceHeaderMapValue map key value) ↔
      NothingLost room s (.replaceHeaderMapValue map key value) := by
  simp only [IsAtomic, NothingLost, guestCall, pwProxyReplaceHeaderMapValue]
  split
  next hlong =>
    apply iff_of_true (fun _ => rfl)
    intro hkey hvalue
    omega
  next hshort =>
    have hkey : key.length < 256 := by omega
    have hvalue : value.length < 4096 := by omega
    simp only [hkey, hvalue, true_implies]
    split
    next hnone =>
      apply iff_of_true (fun _ => rfl)
      intro _ t ht
      simp [ht] at hnone
    next =>
      cases hcopied : room.copied 0 with
      | true => simp [Failed]
      | false =>
        have hself := modify_eq_self_iff s map (httpUnset room.kept (cstr key))
        simp only [httpUnset_eq_self_iff] at hself
        simpa [Failed] using hself

theorem isAtomic_setPairs (map : HeaderMap) (pairs : Pairs) :
    IsAtomic room s (.setHeaderMapPairs map pairs) ↔
      NothingLost room s (.setHeaderMapPairs map pairs) := by
  simp only [IsAtomic, NothingLost, guestCall, HeaderLines.pwProxySetHeaderMapPairs]
  split
  next hmany =>
    apply iff_of_true (fun _ => rfl)
    intro hfew
    omega
  next hfew =>
    have hfew : pairs.length ≤ 256 := by omega
    simp only [hfew, true_implies]
    cases ht : pwGetHeaderMapMutable s map with
    | none => simp
    | some t =>
      dsimp only
      rw [putPairs_eq]
      cases hfail : copyFailure room.copied 0 pairs with
      | none => simp [Failed]
      | some n =>
        have hself := modify_eq_self_iff s map fun _ =>
          { t with entries := pairLines room.fits 0 (pairs.take n) }
        rw [ht] at hself
        have hentries : { t with entries := pairLines room.fits 0 (pairs.take n) } = t ↔
            t.entries = pairLines room.fits 0 (pairs.take n) := by
          cases t
          simp [eq_comm]
        simpa [Failed, hentries] using hself

/-- Of the properties only the host is removed before it is set. -/
theorem isAtomic_setProperty (path value : Bytes) :
    IsAtomic room s (.setProperty path value) ↔
      NothingLost room s (.setProperty path value) := by
  have hother (hpath : path ≠ requestPath "host") :
      NothingLost room s (.setProperty path value) := fun h => absurd h hpath
  simp only [IsAtomic, guestCall, pwProxySetProperty]
  split
  next hlong =>
    apply iff_of_true (fun _ => rfl)
    intro hpath _ hvalue
    have hlen : (requestPath "host").length = 12 := by decide +kernel
    rw [hpath] at hlong
    omega
  next hshort =>
    have hvalue : value.length < 4096 := by omega
    cases hreq : s.httpReq with
    | none =>
      apply iff_of_true (fun _ => rfl)
      intro _ _ _ _ t ht
      simp [hreq] at ht
    | some t =>
      dsimp only
      split
      next hpath =>
        refine iff_of_true ?_ (hother ?_)
        · split
          next => exact fun _ => rfl
          next => split <;> simp [Failed]
        · rcases hpath with hpath | hpath <;> rw [hpath] <;> decide +kernel
      next =>
        split
        next hpath =>
          refine iff_of_true ?_ (hother ?_)
          · split
            next => exact fun _ => rfl
            next => split <;> simp [Failed]
          · rw [hpath]
            decide +kernel
        next =>
          split
          next hpath =>
            split
            next hsize =>
              apply iff_of_true (fun _ => rfl)
              intro _ hpos
              omega
            next hsize =>
              have hpos : 0 < value.length := by omega
              cases hcopied : room.copied 0 with
              | true => simp [Failed, NothingLost, hcopied]
              | false =>
                obtain ⟨req, resp, beresp⟩ := s
                obtain rfl : req = some t := hreq
                simp [Failed, NothingLost, hcopied, hpath, hpos, hvalue, httpUnset_eq_self_iff]
          next hpath => exact iff_of_true (fun _ => rfl) (hother hpath)

end Calls

/-- A call that fails leaves the tables as they were exactly if it has nothing to
lose. -/
theorem isAtomic_iff (room : Room) (s : VrtTables) (call : GuestCall) :
    IsAtomic room s call ↔ NothingLost room s call := by
  cases call with
  | addHeaderMapValue map key value => exact iff_of_true (isAtomic_add room s map key value) trivial
  | replaceHeaderMapValue map key value => exact isAtomic_replace room s map key value
  | setHeaderMapPairs map pairs => exact isAtomic_setPairs room s map pairs
  | setProperty path value => exact isAtomic_setProperty room s path value
  | setResponseHeader name value =>
    exact iff_of_true (isAtomic_setResponseHeader room s name value) trivial

/-- A request with one header. -/
def oneHeader : VrtTables where
  httpReq := some { entries := [some (toCStr (ascii "A: b"))] }

/-- With no workspace left, the header is removed and the call reports an error. -/
theorem replace_loses :
    let r := guestCall { copied := fun _ => false } oneHeader
      (.replaceHeaderMapValue .request (ascii "A") (ascii "c"))
    r.1 = .status .internal ∧ r.2.httpReq.map (·.entries) = some [] ∧
      oneHeader.httpReq.map (·.entries) = some [some (toCStr (ascii "A: b"))] := by
  decide +kernel

end VmodWasm.HeaderAtomicity
