import VmodWasm.ByteSearch
import VmodWasm.HttpText

/-!
The header block of a response as a list of fields. The parser's line loop
walks over pointers into the receive buffer; here it is compared with the
fields themselves: a lookup answers with the first field of its name, and what
stands behind the header block in the buffer has no say in it.
-/
namespace VmodWasm.HeaderFields

open ByteStrings ByteSearch HttpText

/-- A field line: the name before the first colon and the value after it. -/
def fieldOf (line : Bytes) : Option (Bytes × Bytes) :=
  (line.idxOf? 0x3a).map fun colon => (line.take colon, trimBlanks (line.drop (colon + 1)))

/-- The fields of a header block: every line after the status line. -/
def headerFields (head : Bytes) : List (Bytes × Bytes) :=
  (splitCrlf head).tail.filterMap fieldOf

/-- The values of the fields of one name, in order. -/
def valuesOf (name : Bytes) (fields : List (Bytes × Bytes)) : List Bytes :=
  (fields.filter fun field => caseEq field.1 name).map Prod.snd

theorem caseEq_length (a b : Bytes) (h : caseEq a b = true) : a.length = b.length := by
  rw [caseEq, beq_iff_eq] at h
  simpa using congrArg List.length h

/-- Only letters have two cases. -/
theorem toLower_eq_iff {c d : UInt8} (hc : c < 0x41) : toLower d = c ↔ d = c := by
  rw [UInt8.lt_iff_toNat_lt] at hc
  have ha : (0x41 : UInt8).toNat = 65 := rfl
  unfold toLower
  split
  · rename_i hletter
    rw [UInt8.le_iff_toNat_le, UInt8.le_iff_toNat_le] at hletter
    have hsum : (d + 0x20).toNat = d.toNat + 32 := by
      have hz : (0x5a : UInt8).toNat = 90 := rfl
      have hspace : (0x20 : UInt8).toNat = 32 := rfl
      rw [UInt8.toNat_add]
      omega
    constructor <;> rintro rfl <;> omega
  · rfl

/-- Names that are equal ignoring case have the same bytes that are no letters. -/
theorem mem_iff_of_caseEq {a b : Bytes} {c : UInt8} (hc : c < 0x41) (h : caseEq a b = true) :
    c ∈ a ↔ c ∈ b := by
  have hlower (l : Bytes) : c ∈ l.map toLower ↔ c ∈ l := by
    simp [List.mem_map, toLower_eq_iff hc]
  rw [caseEq, beq_iff_eq] at h
  rw [← hlower a, h, hlower b]

/-- One turn of the line loop on a line that is not empty. -/
theorem findHeaderLoop_line (buf name line rest : Bytes) (stop fuel p : ℕ)
    (hbuf : buf.drop p = line ++ crlf ++ rest) (hstop : p + line.length < stop)
    (hne : line ≠ []) (hnul : 0 ∉ line) (hfree : findSub crlf line = none) :
    findHeaderLoop buf stop name (fuel + 1) p =
      match fieldOf line with
      | some field =>
        if caseEq field.1 name then some field.2
        else findHeaderLoop buf stop name fuel (p + line.length + 2)
      | none => findHeaderLoop buf stop name fuel (p + line.length + 2) := by
  have hlen : 0 < line.length := List.length_pos_iff.mpr hne
  have htake : (buf.drop p).take line.length = line := by
    rw [hbuf, List.append_assoc]
    exact List.take_left
  have hfound : strstr (buf.drop p) crlf = some line.length := by
    rw [hbuf]
    exact strstr_crlf_line line rest hnul hfree
  rw [findHeaderLoop, if_neg (by omega), hfound]
  dsimp only
  rw [if_neg (by omega), htake]
  cases hcolon : line.idxOf? 0x3a with
  | none => simp [fieldOf, hcolon]
  | some colon =>
    obtain ⟨hlt, _⟩ := List.idxOf?_eq_some_iff.mp hcolon
    have hname : (colon = name.length ∧ caseEq (line.take colon) name = true) ↔
        caseEq (line.take colon) name = true := by
      refine ⟨And.right, fun h => ⟨?_, h⟩⟩
      rw [← caseEq_length _ _ h, List.length_take]
      omega
    simp only [fieldOf, hcolon, Option.map_some, hname]

/-- The line loop over the field lines of a header block. -/
theorem findHeaderLoop_eq (buf name tail : Bytes) (stop : ℕ) (lines : List Bytes) (fuel p : ℕ)
    (hbuf : buf.drop p = lines.flatMap (· ++ crlf) ++ crlf ++ tail)
    (hstop : p + (lines.flatMap (· ++ crlf)).length < stop)
    (hlines : ∀ line ∈ lines, line ≠ [] ∧ 0 ∉ line ∧ findSub crlf line = none)
    (hfuel : lines.length < fuel) :
    findHeaderLoop buf stop name fuel p = (valuesOf name (lines.filterMap fieldOf)).head? := by
  induction lines generalizing fuel p with
  | nil =>
    obtain ⟨fuel, rfl⟩ : ∃ k, fuel = k + 1 := ⟨fuel - 1, by simp at hfuel; omega⟩
    have hfound : strstr (buf.drop p) crlf = some 0 := by
      rw [hbuf]
      exact strstr_crlf_line [] tail (by simp) rfl
    rw [findHeaderLoop, if_neg (by simp at hstop; omega), hfound]
    simp [valuesOf]
  | cons line lines ih =>
    obtain ⟨fuel, rfl⟩ : ∃ k, fuel = k + 1 := ⟨fuel - 1, by simp at hfuel; omega⟩
    obtain ⟨hne, hnul, hfree⟩ := hlines line List.mem_cons_self
    rw [List.flatMap_cons, List.append_assoc, List.append_assoc] at hbuf
    rw [List.flatMap_cons, List.length_append, List.length_append, length_crlf] at hstop
    have hdrop : buf.drop (p + line.length + 2) =
        lines.flatMap (· ++ crlf) ++ crlf ++ tail := by
      rw [Nat.add_assoc, ← List.drop_drop, hbuf, ← length_crlf, ← List.length_append, List.drop_left,
        List.append_assoc]
    have hnext := ih fuel (p + line.length + 2) hdrop (by omega)
      (fun l hl => hlines l (List.mem_cons_of_mem _ hl)) (by simp at hfuel; omega)
    rw [findHeaderLoop_line buf name line _ stop fuel p hbuf (by omega) hne hnul hfree, hnext]
    cases hfield : fieldOf line with
    | none => rw [List.filterMap_cons_none hfield]
    | some field =>
      rw [List.filterMap_cons_some hfield]
      by_cases hname : caseEq field.1 name = true
      · simp [valuesOf, hname]
      · simp [valuesOf, hname]

/-- Up to the first empty line the header block has no empty line but, maybe, its first. -/
theorem splitCrlf_tail_ne_nil (head rest line : Bytes)
    (hfirst : findSub (crlf ++ crlf) (head ++ (crlf ++ crlf) ++ rest) = some head.length)
    (h : line ∈ (splitCrlf head).tail) : line ≠ [] := by
  rintro rfl
  obtain ⟨status, lines, hsplit⟩ := List.exists_cons_of_ne_nil (splitCrlf_ne_nil head)
  rw [hsplit, List.tail_cons] at h
  obtain ⟨before, after, hlines⟩ := List.append_of_mem h
  -- the CRLF before the empty line and its own make an earlier end of the block
  obtain ⟨init, last, hinit⟩ : ∃ init last, status :: before = init ++ [last] :=
    ⟨_, _, (List.dropLast_append_getLast (List.cons_ne_nil status before)).symm⟩
  have hjoin := splitCrlf_join head
  rw [hsplit, hlines, ← List.cons_append, hinit] at hjoin
  simp only [List.flatMap_append, List.flatMap_cons, List.flatMap_nil, List.append_nil,
    List.nil_append] at hjoin
  set start := init.flatMap (· ++ crlf) ++ last with hstart
  have hhead : start ++ (crlf ++ crlf) ++ after.flatMap (· ++ crlf) = head ++ crlf := by
    rw [← hjoin, hstart]
    simp only [List.append_assoc]
  have hlt : start.length < head.length := by
    have hlen := congrArg List.length hhead
    simp only [List.length_append, length_crlf] at hlen
    omega
  apply ((findSub_eq_some_iff _ _ _).mp hfirst).2 start.length hlt
  refine ⟨after.flatMap (· ++ crlf) ++ crlf ++ rest, ?_⟩
  rw [← List.append_assoc head, ← hhead]
  simp only [List.append_assoc, List.drop_left]

theorem length_le_closed (lines : List Bytes) :
    lines.length ≤ (lines.flatMap (· ++ crlf)).length := by
  induction lines with
  | nil => simp
  | cons line lines ih =>
    simp only [List.flatMap_cons, List.length_append, List.length_cons, length_crlf]
    omega

/-- `pw_http_find_header_value` on a buffer in which the end of the header
block has been found: the first field of the name. -/
theorem pwHttpFindHeaderValue_eq (buf name : Bytes) (i : ℕ)
    (hend : strstr buf (crlf ++ crlf) = some i) :
    pwHttpFindHeaderValue buf (i + 4) name =
      (valuesOf name (headerFields (buf.take i))).head? := by
  obtain ⟨rest, hbuf, hnul, hlen⟩ := strstr_split buf (crlf ++ crlf) i (by simp [crlf]) hend
  set head := buf.take i with hhead
  have hfirst : findSub (crlf ++ crlf) (head ++ (crlf ++ crlf) ++ cstr rest) = some head.length := by
    rw [← cstr_append _ _ hnul, ← hbuf, hlen]
    exact hend
  obtain ⟨status, lines, hsplit⟩ := List.exists_cons_of_ne_nil (splitCrlf_ne_nil head)
  have hclosed := splitCrlf_join head
  rw [hsplit] at hclosed
  have hjoin := hclosed
  rw [List.flatMap_cons] at hjoin
  have hlines : buf = status ++ crlf ++ (lines.flatMap (· ++ crlf) ++ crlf ++ rest) := by
    rw [hbuf, ← List.append_assoc head, ← hjoin]
    simp only [List.append_assoc]
  have hlength := congrArg List.length hjoin
  simp only [List.length_append, length_crlf, hlen] at hlength
  have hline (line : Bytes) (h : line ∈ status :: lines) :
      0 ∉ line ∧ findSub crlf line = none := by
    refine ⟨fun hmem => hnul ?_, splitCrlf_free head line (hsplit ▸ h)⟩
    rw [← List.append_assoc, ← hclosed]
    apply List.mem_append_left
    exact List.mem_flatMap.mpr ⟨line, h, List.mem_append_left _ hmem⟩
  obtain ⟨hsnul, hsfree⟩ := hline status List.mem_cons_self
  have hfound : strstr buf crlf = some status.length := by
    rw [hlines]
    exact strstr_crlf_line status _ hsnul hsfree
  have hdrop : buf.drop (status.length + 2) = lines.flatMap (· ++ crlf) ++ crlf ++ rest := by
    rw [← length_crlf, ← List.length_append, hlines, List.drop_left]
  have hcount := length_le_closed lines
  have hbuflen := congrArg List.length hlines
  simp only [List.length_append, length_crlf] at hbuflen
  rw [pwHttpFindHeaderValue, hfound]
  dsimp only
  rw [if_neg (by omega), headerFields, hsplit, List.tail_cons]
  refine findHeaderLoop_eq buf name rest (i + 4) lines buf.length _ hdrop (by omega) ?_ (by omega)
  intro line hmem
  obtain ⟨hnul', hfree⟩ := hline line (List.mem_cons_of_mem _ hmem)
  refine ⟨splitCrlf_tail_ne_nil head (cstr rest) line hfirst ?_, hnul', hfree⟩
  rw [hsplit]
  exact hmem

section Tokens

/-- Some comma-separated element of the value is the token, in any case. -/
def ListsToken (value token : Bytes) : Prop :=
  ∃ element ∈ value.splitOn 0x2c, caseEq (trimBlanks element) token = true

instance (value token : Bytes) : Decidable (ListsToken value token) :=
  inferInstanceAs (Decidable (∃ element ∈ value.splitOn 0x2c, _))

variable (token : Bytes) (htoken : token ≠ [])

include htoken

theorem caseEq_nil_left : caseEq [] token = false := by
  rw [Bool.eq_false_iff]
  intro h
  exact htoken (List.length_eq_zero_iff.mp (caseEq_length _ _ h).symm)

theorem not_listsToken_nil : ¬ ListsToken [] token := by
  rintro ⟨element, hmem, h⟩
  obtain rfl : element = [] := by simpa using hmem
  rw [show trimBlanks [] = [] from rfl, caseEq_nil_left token htoken] at h
  contradiction

theorem listsToken_comma (rest : Bytes) :
    ListsToken (0x2c :: rest) token ↔ ListsToken rest token := by
  have hsplit : (0x2c :: rest : Bytes).splitOn 0x2c = [] :: rest.splitOn 0x2c := by
    rw [List.splitOn_cons_eq_if_modifyHead, if_pos (by rfl)]
  have hnil : caseEq (trimBlanks []) token = false := caseEq_nil_left token htoken
  simp [ListsToken, hsplit, hnil]

omit htoken in
theorem trimBlanks_blank (c : UInt8) (l : Bytes) (h : isBlank c = true) :
    trimBlanks (c :: l) = trimBlanks l := by
  rw [trimBlanks, List.dropWhile_cons_of_pos h, trimBlanks]

omit htoken in
theorem listsToken_blank (c : UInt8) (rest : Bytes) (h : isBlank c = true) :
    ListsToken (c :: rest) token ↔ ListsToken rest token := by
  have hc : (c == 0x2c) = false := by
    rw [beq_eq_false_iff_ne]
    rintro rfl
    simp [isBlank] at h
  obtain ⟨first, elements, hsplit⟩ :=
    List.exists_cons_of_ne_nil (List.splitOn_ne_nil 0x2c rest)
  simp [ListsToken, List.splitOn_cons_eq_if_modifyHead, hc, hsplit, trimBlanks_blank c first h]

/-- Blanks and commas before an element are skipped. -/
theorem listsToken_skip (value : Bytes) :
    ListsToken (value.dropWhile fun c => isBlank c || c == 0x2c) token ↔
      ListsToken value token := by
  induction value with
  | nil => rfl
  | cons c value ih =>
    by_cases hskip : (isBlank c || c == 0x2c) = true
    · simp only [List.dropWhile_cons, if_pos hskip, ih]
      rw [Bool.or_eq_true, beq_iff_eq] at hskip
      rcases hskip with hblank | rfl
      · exact (listsToken_blank token c value hblank).symm
      · exact (listsToken_comma token htoken value).symm
    · simp only [List.dropWhile_cons, if_neg hskip]

omit htoken in
/-- What is left after skipping starts with an element or is empty. -/
theorem skip_cases (value rest : Bytes)
    (hrest : value.dropWhile (fun c => isBlank c || c == 0x2c) = rest) :
    rest = [] ∨ ∃ c tail, rest = c :: tail ∧ isBlank c = false ∧ (c != 0x2c) = true := by
  cases rest with
  | nil => exact Or.inl rfl
  | cons c tail =>
    have h := List.head?_dropWhile_not (fun c => isBlank c || c == 0x2c) value
    rw [hrest] at h
    simp only [List.head?_cons, Bool.or_eq_false_iff] at h
    exact Or.inr ⟨c, tail, rfl, h.1, by simpa using h.2⟩

/-- The elements of a value are its first one and those behind its comma. -/
theorem listsToken_element (value : Bytes) :
    ListsToken value token ↔
      caseEq (trimBlanks (value.takeWhile (· != 0x2c))) token = true ∨
        ListsToken (value.dropWhile (· != 0x2c)) token := by
  have hfree : (0x2c : UInt8) ∉ value.takeWhile (· != 0x2c) := by
    intro hmem
    simpa using List.mem_takeWhile_imp hmem
  cases hrest : value.dropWhile (· != 0x2c) with
  | nil =>
    have hvalue : value.takeWhile (· != 0x2c) = value := by
      have h := List.takeWhile_append_dropWhile (p := (· != 0x2c)) (l := value)
      rwa [hrest, List.append_nil] at h
    rw [hvalue] at hfree ⊢
    have hnone := not_listsToken_nil token htoken
    simp only [hnone, or_false]
    simp [ListsToken, List.splitOn_eq_singleton hfree]
  | cons c rest =>
    have hc : c = 0x2c := by
      have h := List.head?_dropWhile_not (· != 0x2c) value
      rw [hrest] at h
      simpa using h
    subst hc
    have hvalue := List.takeWhile_append_dropWhile (p := (· != 0x2c)) (l := value)
    rw [hrest] at hvalue
    rw [listsToken_comma token htoken]
    conv_lhs => rw [← hvalue]
    simp [ListsToken, List.splitOn_append_cons_self_of_not_mem hfree]

omit htoken in
/-- An element behind skipped bytes needs no trimming at its front. -/
theorem trim_element (value rest : Bytes)
    (hrest : value.dropWhile (fun c => isBlank c || c == 0x2c) = rest) :
    ((rest.takeWhile (· != 0x2c)).reverse.dropWhile isBlank).reverse =
      trimBlanks (rest.takeWhile (· != 0x2c)) := by
  rcases skip_cases value rest hrest with rfl | ⟨c, tail, rfl, hblank, hcomma⟩
  · rfl
  · have hself : ((c :: tail).takeWhile (· != 0x2c)).dropWhile isBlank =
        (c :: tail).takeWhile (· != 0x2c) := by
      simp only [List.takeWhile_cons, hcomma, if_true, List.dropWhile_cons, hblank,
        Bool.false_eq_true, if_false]
    rw [trimBlanks, hself]

omit htoken in
/-- A turn uses up a separator or a byte of an element. -/
theorem element_shortens (value rest : Bytes) (hvalue : value ≠ [])
    (hrest : value.dropWhile (fun c => isBlank c || c == 0x2c) = rest) :
    (rest.dropWhile (· != 0x2c)).length < value.length := by
  have hpos : 0 < value.length := List.length_pos_iff.mpr hvalue
  have hle : rest.length ≤ value.length := hrest ▸ (List.dropWhile_suffix _).length_le
  rcases skip_cases value rest hrest with rfl | ⟨c, tail, rfl, hblank, hcomma⟩
  · exact hpos
  · have htail := (List.dropWhile_suffix (l := tail) (· != 0x2c)).length_le
    rw [List.length_cons] at hle
    simp only [List.dropWhile_cons, hcomma, if_true]
    omega

/-- The value lists the token as its first element or behind it. -/
theorem listsToken_turn (value rest : Bytes)
    (hrest : value.dropWhile (fun c => isBlank c || c == 0x2c) = rest) :
    ListsToken value token ↔ caseEq (trimBlanks (rest.takeWhile (· != 0x2c))) token = true ∨
      ListsToken (rest.dropWhile (· != 0x2c)) token := by
  rw [← listsToken_skip token htoken value, hrest]
  exact listsToken_element token htoken rest

/-- `pw_http_value_has_token` finds exactly the tokens a value lists. -/
theorem tokenLoop_iff (fuel : ℕ) (value : Bytes) (hfuel : value.length < fuel) :
    tokenLoop token fuel value = true ↔ ListsToken value token := by
  induction fuel generalizing value with
  | zero => omega
  | succ fuel ih =>
    rw [tokenLoop]
    by_cases hvalue : value = []
    · simp [hvalue, not_listsToken_nil token htoken]
    · rw [if_neg (by simpa using hvalue)]
      dsimp only
      set rest := value.dropWhile fun c => isBlank c || c == 0x2c with hrest
      have hshort := element_shortens value rest hvalue hrest.symm
      rw [trim_element value rest hrest.symm, listsToken_turn token htoken value rest hrest.symm,
        ← ih _ (by omega)]
      by_cases hfound : caseEq (trimBlanks (rest.takeWhile (· != 0x2c))) token = true
      · rw [if_pos ⟨caseEq_length _ _ hfound, hfound⟩]
        simp [hfound]
      · rw [if_neg (fun h => hfound h.2)]
        simp [hfound]

end Tokens

end VmodWasm.HeaderFields
