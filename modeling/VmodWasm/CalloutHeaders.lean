import VmodWasm.ByteSearch
import VmodWasm.HeaderTables

/-!
The header fields of a stored callout response. The search for one field and the
bulk read each walk over the raw response with `strstr`. Both see the same lines,
those behind the status line up to the first empty one, but they do not take
them apart in the same way.
-/
namespace VmodWasm.CalloutHeaders

open ByteStrings ByteSearch HeaderTables

/-- What stands between the first two spaces of the status line. -/
def statusCode (raw : Bytes) : Option Bytes :=
  match strstr raw crlf with
  | none => none
  | some e =>
    (strchr (raw.take e) 0x20).map fun sp => ((raw.take e).drop (sp + 1)).takeWhile (· ≠ 0x20)

/-- A line of the form `key: ...`. -/
def begins (key l : Bytes) : Bool :=
  caseEq (l.take key.length) key && l[key.length]? == some colon

/-- What follows `key:` on a line. -/
def fieldValue (key line : Bytes) : Bytes := (line.drop (key.length + 1)).dropWhile isBlank

/-- The search takes a line only if there is something behind the colon. -/
def bears (key line : Bytes) : Bool := decide (key.length + 1 < line.length) && begins key line

/-- The name up to the first colon, and the value behind it. -/
def lineField (line : Bytes) : Option (Bytes × Bytes) :=
  (strchr line colon).map fun c => (line.take c, (line.drop (c + 1)).dropWhile isBlank)

/-- The loop of `pw_http_call_response_find_header`, at `rest`. -/
def findHeaderFrom (key : Bytes) : ℕ → Bytes → Option Bytes
  | 0, _ => none
  | fuel + 1, rest =>
    if rest = [] then none
    else
      match strstr rest crlf with
      | none => none
      | some i =>
        if i = 0 then none
        else if bears key (rest.take i) then some (fieldValue key (rest.take i))
        else findHeaderFrom key fuel (rest.drop (i + 2))

def pwHttpCallResponseFindHeader (raw key : Bytes) : Option Bytes :=
  match strstr raw crlf with
  | none => none
  | some e =>
    if key = ascii ":status" then statusCode raw
    else findHeaderFrom key (raw.length + 1) (raw.drop (e + 2))

def maxListed : ℕ := 64

/-- The loop of the bulk read, with the array it has filled so far. -/
def collectFrom : ℕ → Bytes → Fields → Fields
  | 0, _, hdrs => hdrs
  | fuel + 1, rest, hdrs =>
    if rest = [] ∨ maxListed ≤ hdrs.length then hdrs
    else
      match strstr rest crlf with
      | none => hdrs
      | some i =>
        if i = 0 then hdrs
        else collectFrom fuel (rest.drop (i + 2)) (hdrs ++ (lineField (rest.take i)).toList)

def callResponsePairs (raw : Bytes) : Fields :=
  match strstr raw crlf with
  | none => []
  | some e =>
    collectFrom (raw.length + 1) (raw.drop (e + 2)) (pseudoPair ":status" (statusCode raw))

section Lines

/-- The lines from `rest` on, up to the first that is empty or not closed. -/
def headerLines (rest : Bytes) : List Bytes :=
  (splitCrlf (cstr rest)).dropLast.takeWhile (· ≠ [])

/-- The lines behind the status line. -/
def responseLines (raw : Bytes) : List Bytes :=
  match strstr raw crlf with
  | none => []
  | some e => headerLines (raw.drop (e + 2))

theorem headerLines_of_none (rest : Bytes) (h : strstr rest crlf = none) :
    headerLines rest = [] := by
  rw [headerLines, splitCrlf_of_none _ h]
  rfl

theorem headerLines_of_some (rest : Bytes) (i : ℕ) (h : strstr rest crlf = some i) :
    headerLines rest =
      if i = 0 then [] else rest.take i :: headerLines (rest.drop (i + 2)) := by
  obtain ⟨more, hrest, hnul, hlen⟩ := strstr_split rest crlf i (by simp [crlf]) h
  set line := rest.take i with hline
  have hcstr : cstr rest = line ++ crlf ++ cstr more := by
    conv_lhs => rw [hrest]
    exact cstr_append _ _ hnul
  have hdrop : rest.drop (i + 2) = more := by
    rw [hrest, show i + 2 = (line ++ crlf).length by rw [List.length_append, hlen, length_crlf]]
    exact List.drop_left
  have htake : (cstr rest).take i = line := by
    rw [hcstr, List.append_assoc, ← hlen]
    exact List.take_left
  have hdropC : (cstr rest).drop (i + 2) = cstr more := by
    rw [hcstr, show i + 2 = (line ++ crlf).length by rw [List.length_append, hlen, length_crlf]]
    exact List.drop_left
  rw [headerLines, splitCrlf_of_some _ i h, htake, hdropC, hdrop,
    List.dropLast_cons_of_ne_nil (splitCrlf_ne_nil _), List.takeWhile_cons, headerLines]
  by_cases hi : i = 0
  · have hnil : line = [] := List.eq_nil_of_length_eq_zero (hlen.trans hi)
    rw [if_pos hi, hnil]
    rfl
  · have hne : line ≠ [] := fun hnil => hi (by rw [← hlen, hnil]; rfl)
    rw [if_neg hi, if_pos (decide_eq_true hne)]

theorem strstr_drop_length (rest : Bytes) (i : ℕ) (h : strstr rest crlf = some i) :
    (rest.drop (i + 2)).length < rest.length := by
  obtain ⟨more, hrest, -, hlen⟩ := strstr_split rest crlf i (by simp [crlf]) h
  have htotal := congrArg List.length hrest
  simp only [List.length_append, hlen, length_crlf] at htotal
  rw [List.length_drop]
  omega

/-- The search loop takes the first line that bears the key. -/
theorem findHeaderFrom_eq (key : Bytes) (fuel : ℕ) (rest : Bytes) (hfuel : rest.length < fuel) :
    findHeaderFrom key fuel rest = (headerLines rest).findSome? fun line =>
      if bears key line then some (fieldValue key line) else none := by
  induction fuel generalizing rest with
  | zero => omega
  | succ fuel ih =>
    rw [findHeaderFrom]
    by_cases hnil : rest = []
    · rw [if_pos hnil, hnil]
      rfl
    · rw [if_neg hnil]
      cases hfound : strstr rest crlf with
      | none => rw [headerLines_of_none rest hfound]; rfl
      | some i =>
        have hshort := strstr_drop_length rest i hfound
        rw [headerLines_of_some rest i hfound]
        dsimp only
        by_cases hi : i = 0
        · rw [if_pos hi, if_pos hi]
          rfl
        · rw [if_neg hi, if_neg hi, List.findSome?_cons, ih _ (by omega)]
          split <;> rfl

/-- The bulk read lists the fields of all lines, up to the size of its array. -/
theorem collectFrom_eq (fuel : ℕ) (rest : Bytes) (hdrs : Fields) (hfuel : rest.length < fuel)
    (hroom : hdrs.length ≤ maxListed) :
    collectFrom fuel rest hdrs =
      (hdrs ++ (headerLines rest).filterMap lineField).take maxListed := by
  induction fuel generalizing rest hdrs with
  | zero => omega
  | succ fuel ih =>
    rw [collectFrom]
    by_cases hstop : rest = [] ∨ maxListed ≤ hdrs.length
    · rw [if_pos hstop]
      rcases hstop with rfl | hfull
      · rw [show headerLines [] = [] from rfl, List.filterMap_nil, List.append_nil,
          List.take_of_length_le hroom]
      · rw [List.take_append_of_le_length hfull, List.take_of_length_le hroom]
    · rw [if_neg hstop]
      cases hfound : strstr rest crlf with
      | none =>
        rw [headerLines_of_none rest hfound, List.filterMap_nil, List.append_nil,
          List.take_of_length_le hroom]
      | some i =>
        have hshort := strstr_drop_length rest i hfound
        rw [headerLines_of_some rest i hfound]
        dsimp only
        by_cases hi : i = 0
        · rw [if_pos hi, if_pos hi, List.filterMap_nil, List.append_nil,
            List.take_of_length_le hroom]
        · have hone : (lineField (rest.take i)).toList.length ≤ 1 := by
            cases lineField (rest.take i) <;> simp
          rw [if_neg hi, if_neg hi, ih _ _ (by omega) (by rw [List.length_append]; omega)]
          cases hfield : lineField (rest.take i) with
          | none => rw [List.filterMap_cons_none hfield, Option.toList_none, List.append_nil]
          | some field =>
            rw [List.filterMap_cons_some hfield, Option.toList_some, List.append_assoc]
            rfl

end Lines

end VmodWasm.CalloutHeaders
