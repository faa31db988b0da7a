import VmodWasm.CalloutRequests
import VmodWasm.HeaderFields

/-!
How the upstream reads a callout request. The host prints `Host`,
`Content-Length` and `Connection` itself, and then copies the headers of the
guest, whatever their names are. The request is framed if the upstream can tell
from its fields where it ends.
-/
namespace VmodWasm.CalloutFraming

open ByteStrings ByteSearch HttpText ProxyContext HttpCall HeaderFields CalloutRequests

/-- One `Host` and one `Connection` field, no `Transfer-Encoding`, and no
`Content-Length` but the size of the body. -/
structure Framed (request body : Bytes) : Prop where
  host : (valuesOf (ascii "Host") (headerFields request)).length = 1
  contentLength : ∀ v ∈ valuesOf (ascii "Content-Length") (headerFields request),
    pwHttpParseSize v = some body.length
  oneLength : (valuesOf (ascii "Content-Length") (headerFields request)).length ≤ 1
  transferEncoding : valuesOf (ascii "Transfer-Encoding") (headerFields request) = []
  connection : (valuesOf (ascii "Connection") (headerFields request)).length = 1

/-- The pairs of the guest with a name. -/
def named (name : String) (ps : Fields) : Fields := ps.filter fun p => caseEq p.1 (ascii name)

/-- What a guest must not send along. -/
structure FramingOk (ps : Fields) (bodySize : ℕ) : Prop where
  host : named "Host" ps = []
  connection : named "Connection" ps = []
  transferEncoding : named "Transfer-Encoding" ps = []
  /-- With a body the host prints the length itself. -/
  withBody : 0 < bodySize → named "Content-Length" ps = []
  /-- Without one the guest may say that there is none. -/
  withoutBody : bodySize = 0 → (named "Content-Length" ps).length ≤ 1 ∧
    ∀ p ∈ named "Content-Length" ps, pwHttpParseSize (trimBlanks p.2) = some 0

section Sizes

/-- The number that a list of digits stands for, behind the digits of `value`. -/
def digitsValue (value : ℕ) (l : Bytes) : ℕ :=
  l.foldl (fun v c => 10 * v + (c.toNat - 0x30)) value

theorem le_digitsValue (l : Bytes) (value : ℕ) : value ≤ digitsValue value l := by
  induction l generalizing value with
  | nil => exact Nat.le_refl _
  | cons c l ih =>
    have hnext := ih (10 * value + (c.toNat - 0x30))
    rw [digitsValue, List.foldl_cons, ← digitsValue]
    omega

theorem not_isBlank_digit {c : UInt8} (h : 0x30 ≤ c) : isBlank c = false := by
  by_contra hne
  rw [Bool.not_eq_false, isBlank, Bool.or_eq_true, beq_iff_eq, beq_iff_eq] at hne
  rcases hne with rfl | rfl <;> exact absurd h (by decide)

/-- Digits with blanks behind them. -/
theorem sizeLoop_digits (l tail : Bytes) (value : ℕ) (digits : Bool)
    (hdigits : ∀ c ∈ l, 0x30 ≤ c ∧ c ≤ 0x39) (hsome : digits = true ∨ l ≠ [])
    (htail : ∀ c ∈ tail, isBlank c = true) (hbound : digitsValue value l ≤ sizeMax) :
    sizeLoop value digits (l ++ tail) = some (digitsValue value l) := by
  induction l generalizing value digits with
  | nil =>
    obtain rfl : digits = true := hsome.resolve_right fun h => h rfl
    cases tail with
    | nil => rfl
    | cons c tail =>
      rw [List.nil_append, sizeLoop, if_pos (htail c List.mem_cons_self),
        if_pos (List.all_eq_true.mpr htail)]
      rfl
  | cons c l ih =>
    obtain ⟨⟨hlow, hhigh⟩, hrest⟩ := List.forall_mem_cons.mp hdigits
    have hle := le_digitsValue l (10 * value + (c.toNat - 0x30))
    rw [digitsValue, List.foldl_cons, ← digitsValue] at hbound ⊢
    rw [List.cons_append, sizeLoop, not_isBlank_digit hlow, if_neg Bool.false_ne_true,
      if_neg (not_or.mpr ⟨UInt8.not_lt.mpr hlow, UInt8.not_lt.mpr hhigh⟩), if_neg (by omega),
      Nat.mul_comm value 10]
    exact ih _ true hrest (Or.inl rfl) hbound

theorem dropWhile_noBlank {l : Bytes} (h : ∀ c ∈ l, isBlank c = false) :
    l.dropWhile isBlank = l := by
  cases l with
  | nil => rfl
  | cons c l =>
    rw [List.dropWhile_cons, h c List.mem_cons_self, if_neg Bool.false_ne_true]

theorem trimBlanks_noBlank {l : Bytes} (h : ∀ c ∈ l, isBlank c = false) : trimBlanks l = l := by
  rw [trimBlanks, dropWhile_noBlank h,
    dropWhile_noBlank fun c hc => h c (List.mem_reverse.mp hc), List.reverse_reverse]

theorem noBlank_decimal (n : ℕ) : ∀ c ∈ decimal n, isBlank c = false := fun _ hc =>
  not_isBlank_digit (mem_decimal hc).1

theorem digitsValue_decimal (n : ℕ) : digitsValue 0 (decimal n) = n := by
  rw [digitsValue, decimal, List.foldl_map]
  refine Eq.trans (List.foldl_ext _ _ 0 fun v c hc => ?_) Nat.ofDigitChars_ten_toDigits
  have hdigit := Nat.isDigit_of_mem_toDigits (by omega) (by omega) hc
  simp only [Char.isDigit, Bool.and_eq_true, decide_eq_true_eq, UInt32.le_iff_toNat_le] at hdigit
  have hval : c.toNat = c.val.toNat := rfl
  have hnine : '9'.val.toNat = 57 := rfl
  rw [UInt8.toNat_ofNat', Nat.mod_eq_of_lt (by omega)]
  rfl

/-- A size that the host prints is read back. -/
theorem pwHttpParseSize_decimal (n : ℕ) (hn : n ≤ sizeMax) :
    pwHttpParseSize (decimal n) = some n := by
  have hne : decimal n ≠ [] := by
    intro h
    have hlen := congrArg List.length h
    rw [decimal, List.length_map] at hlen
    exact absurd hlen (Nat.pos_iff_ne_zero.mp Nat.length_toDigits_pos)
  have hvalue := digitsValue_decimal n
  have hloop := sizeLoop_digits (decimal n) [] 0 false (fun c hc => mem_decimal hc) (Or.inr hne)
    (by simp) (Nat.le_trans (Nat.le_of_eq hvalue) hn)
  rw [List.append_nil, hvalue] at hloop
  rw [pwHttpParseSize, dropWhile_noBlank (noBlank_decimal n), hloop]

end Sizes

section Fields

theorem fieldOf_line (name value : Bytes) (hname : 0x3a ∉ name) :
    fieldOf (name ++ ascii ": " ++ value) = some (name, trimBlanks value) := by
  have hsep : ascii ": " = [0x3a, 0x20] := by decide +kernel
  rw [hsep, List.append_assoc, fieldOf, List.cons_append, List.cons_append, List.nil_append,
    idxOf?_append_cons hname, Option.map_some, List.take_left, ← List.drop_drop, List.drop_left,
    List.drop_one, List.tail_cons, trimBlanks_blank _ _ rfl]

/-- The fields the host prints. -/
def hostFields (host : Bytes) (bodySize : ℕ) (keepAlive : Bool) : Fields :=
  [(ascii "Host", trimBlanks host)] ++
    (if 0 < bodySize then [(ascii "Content-Length", decimal bodySize)] else []) ++
    [(ascii "Connection", if keepAlive then ascii "keep-alive" else ascii "close")]

/-- The upstream sees the fields of the host, and then those of the guest. -/
theorem headerFields_request (ps : Fields) (host : Bytes) (bodySize : ℕ) (keepAlive : Bool)
    (hok : RequestOk ps host) :
    headerFields ((requestLines ps host bodySize keepAlive ++ [[]]).flatMap (· ++ crlf)) =
      hostFields host bodySize keepAlive ++
        (ps.filter forwarded).map fun p => (p.1, trimBlanks p.2) := by
  have hhost : fieldOf (ascii "Host: " ++ host) = some (ascii "Host", trimBlanks host) :=
    fieldOf_line (ascii "Host") host (by decide +kernel)
  have hlength : fieldOf (ascii "Content-Length: " ++ decimal bodySize) =
      some (ascii "Content-Length", decimal bodySize) := by
    have hline := fieldOf_line (ascii "Content-Length") (decimal bodySize) (by decide +kernel)
    rw [trimBlanks_noBlank (noBlank_decimal bodySize)] at hline
    exact hline
  have hconnection :
      fieldOf (if keepAlive then ascii "Connection: keep-alive" else ascii "Connection: close") =
        some (ascii "Connection", if keepAlive then ascii "keep-alive" else ascii "close") := by
    cases keepAlive <;> decide +kernel
  have hguest : ((ps.filter forwarded).map fieldLine).filterMap fieldOf =
      (ps.filter forwarded).map fun p => (p.1, trimBlanks p.2) := by
    rw [List.filterMap_map, ← List.filterMap_eq_map]
    refine List.filterMap_congr fun p hp => ?_
    obtain ⟨hmem, hforwarded⟩ := List.mem_filter.mp hp
    have hname := (hok.fields p hmem hforwarded).1
    rw [pwHttpHeaderNameOk, Bool.and_eq_true, List.all_eq_true] at hname
    exact fieldOf_line p.1 p.2 fun hcolon => absurd (hname.2 _ hcolon) (by decide)
  have hempty : ([[], []] : List Bytes).filterMap fieldOf = [] := by decide +kernel
  rw [headerFields, splitCrlf_closed _ (hok.clean_request bodySize keepAlive), requestLines]
  simp only [List.cons_append, List.nil_append, List.tail_cons, List.append_assoc]
  rw [List.filterMap_cons_some hhost, List.filterMap_append, List.filterMap_cons_some hconnection,
    List.filterMap_append, hguest, hempty, List.append_nil, hostFields]
  by_cases hbody : 0 < bodySize
  · simp [if_pos hbody, hlength]
  · simp [if_neg hbody]

theorem valuesOf_append (name : Bytes) (fs gs : Fields) :
    valuesOf name (fs ++ gs) = valuesOf name fs ++ valuesOf name gs := by
  rw [valuesOf, List.filter_append, List.map_append]
  rfl

/-- Pairs with the name of a header are all sent. -/
theorem valuesOf_guest (name : String) (ps : Fields)
    (hname : 0x3a ∉ ascii name ∧ ascii name ≠ []) :
    valuesOf (ascii name) ((ps.filter forwarded).map fun p => (p.1, trimBlanks p.2)) =
      (named name ps).map fun p => trimBlanks p.2 := by
  have hforwarded (p : Bytes × Bytes) (hp : caseEq p.1 (ascii name) = true) :
      forwarded p = true := by
    have hne : p.1 ≠ [] := fun hnil => hname.2
      (List.eq_nil_of_length_eq_zero (by rw [← caseEq_length _ _ hp, hnil]; rfl))
    have hcolon : p.1.head? ≠ some 0x3a := fun hhead => hname.1
      ((mem_iff_of_caseEq (by decide) hp).mp (List.mem_of_head? hhead))
    simp [forwarded, hne, hcolon]
  rw [valuesOf, List.filter_map, List.map_map, List.filter_filter, named]
  refine congrArg _ (List.filter_congr fun p _ => ?_)
  cases hp : caseEq p.1 (ascii name) with
  | true => simp [hp, hforwarded p hp]
  | false => simp [hp]

/-- The values of the framing fields of the host. -/
theorem valuesOf_hostFields (host : Bytes) (bodySize : ℕ) (keepAlive : Bool) :
    valuesOf (ascii "Host") (hostFields host bodySize keepAlive) = [trimBlanks host] ∧
      valuesOf (ascii "Content-Length") (hostFields host bodySize keepAlive) =
        (if 0 < bodySize then [decimal bodySize] else []) ∧
      valuesOf (ascii "Transfer-Encoding") (hostFields host bodySize keepAlive) = [] ∧
      valuesOf (ascii "Connection") (hostFields host bodySize keepAlive) =
        [if keepAlive then ascii "keep-alive" else ascii "close"] := by
  unfold hostFields
  by_cases hbody : 0 < bodySize
  · simp only [if_pos hbody]
    exact ⟨rfl, rfl, rfl, rfl⟩
  · simp only [if_neg hbody]
    exact ⟨rfl, rfl, rfl, rfl⟩

/-- The lengths that are sent, those of the host and those of the guest `gs`, all
give the size of the body exactly if the guest sends none besides that of the host. -/
theorem contentLengths_iff (gs : Fields) (bodySize : ℕ)
    (hsize : pwHttpParseSize (decimal bodySize) = some bodySize) :
    (∀ v ∈ (if 0 < bodySize then [decimal bodySize] else []) ++ gs.map fun p => trimBlanks p.2,
        pwHttpParseSize v = some bodySize) ∧
      ((if 0 < bodySize then [decimal bodySize] else []) ++
        gs.map fun p => trimBlanks p.2).length ≤ 1 ↔
      (0 < bodySize → gs = []) ∧
        (bodySize = 0 → gs.length ≤ 1 ∧
          ∀ p ∈ gs, pwHttpParseSize (trimBlanks p.2) = some 0) := by
  by_cases hpos : 0 < bodySize
  · have hne : bodySize ≠ 0 := Nat.pos_iff_ne_zero.mp hpos
    simp only [hpos, hne, true_implies, false_implies, and_true]
    constructor
    · rintro ⟨-, hle⟩
      simpa using hle
    · intro hnil
      simp [hnil, hsize]
  · have hzero : bodySize = 0 := Nat.eq_zero_of_not_pos hpos
    simp only [hzero, Nat.lt_irrefl, if_false, false_implies, true_implies, true_and,
      List.nil_append, List.forall_mem_map, List.length_map]
    exact and_comm

end Fields

/-- The request of a callout is framed exactly if the guest leaves the fields of
the host alone. -/
theorem framed_iff (hasPool : Bool) (ctx : ProxyCtx) (mem : Bytes) (args : HttpCallArgs)
    (p : Prepared) (ps : Fields) (h : prepare hasPool ctx mem args = .ok p)
    (hps : mapPairs mem args.headersPtr args.headersSize = some ps) :
    Framed p.request p.body ↔ FramingOk ps args.bodySize.toNat := by
  obtain ⟨ps', hps', hok, hrequest, hbody⟩ := prepare_request hasPool ctx mem args p h
  obtain rfl : ps = ps' := Option.some.inj (hps.symm.trans hps')
  have hfields := headerFields_request ps p.host args.bodySize.toNat (hasPool && p.exempt) hok
  rw [← hrequest] at hfields
  have hvalues (name : String) (hname : 0x3a ∉ ascii name ∧ ascii name ≠ []) :
      valuesOf (ascii name) (headerFields p.request) =
        valuesOf (ascii name) (hostFields p.host args.bodySize.toNat (hasPool && p.exempt)) ++
          (named name ps).map fun p => trimBlanks p.2 := by
    rw [hfields, valuesOf_append, valuesOf_guest name ps hname]
  obtain ⟨hhost, hlength, hencoding, hconnection⟩ :=
    valuesOf_hostFields p.host args.bodySize.toNat (hasPool && p.exempt)
  -- one field too many is one pair of the guest
  have hone (v : Bytes) (l : Fields) :
      ([v] ++ l.map fun p => trimBlanks p.2).length = 1 ↔ l = [] := by
    simp
  have hhostOk := hvalues "Host" (by decide +kernel)
  have hencodingOk := hvalues "Transfer-Encoding" (by decide +kernel)
  have hconnectionOk := hvalues "Connection" (by decide +kernel)
  have hlengthOk := hvalues "Content-Length" (by decide +kernel)
  rw [hhost] at hhostOk
  rw [hencoding, List.nil_append] at hencodingOk
  rw [hconnection] at hconnectionOk
  rw [hlength] at hlengthOk
  have hsize := pwHttpParseSize_decimal args.bodySize.toNat
    (Nat.le_trans (Nat.le_of_lt args.bodySize.toNat_lt) (by decide))
  have hlengths := contentLengths_iff (named "Content-Length" ps) args.bodySize.toNat hsize
  rw [← hlengthOk] at hlengths
  constructor
  · intro hframed
    obtain ⟨hwith, hwithout⟩ := hlengths.mp ⟨hbody ▸ hframed.contentLength, hframed.oneLength⟩
    exact ⟨(hone _ _).mp (hhostOk ▸ hframed.host),
      (hone _ _).mp (hconnectionOk ▸ hframed.connection),
      List.map_eq_nil_iff.mp (hencodingOk ▸ hframed.transferEncoding), hwith, hwithout⟩
  · intro hframing
    obtain ⟨hvalue, hcount⟩ := hlengths.mpr ⟨hframing.withBody, hframing.withoutBody⟩
    exact ⟨hhostOk ▸ (hone _ _).mpr hframing.host, hbody ▸ hvalue, hcount,
      hencodingOk ▸ List.map_eq_nil_iff.mpr hframing.transferEncoding,
      hconnectionOk ▸ (hone _ _).mpr hframing.connection⟩

theorem postCall_framed : Framed postCall.request postCall.body :=
  (framed_iff false { memoryValid := true } postMemory postArgs postCall
    [(ascii ":method", ascii "POST"), (ascii "X", ascii "1")] prepare_post
    (by decide +kernel)).mpr
    ⟨by decide +kernel, by decide +kernel, by decide +kernel, by decide +kernel, by decide +kernel⟩

/-- A guest that sends a chunked body along. -/
def smuggleMemory : Bytes :=
  ascii "ahi" ++ PairMaps.encodePairs [(ascii "transfer-encoding", ascii "chunked")]

def smuggleArgs : HttpCallArgs := { postArgs with
  headersSize := UInt32.ofNat (smuggleMemory.length - 3) }

def smuggleCall : Prepared := { postCall with
  request := buildRequest { extra := ascii "transfer-encoding: chunked" ++ crlf } (ascii "a") 2
    false }

/-- The request goes out with both a length and a transfer encoding. -/
theorem smuggleCall_unframed :
    prepare false { memoryValid := true } smuggleMemory smuggleArgs = .ok smuggleCall ∧
      ¬ Framed smuggleCall.request smuggleCall.body :=
  ⟨by decide +kernel, fun hframed => absurd hframed.transferEncoding (by decide +kernel)⟩

end VmodWasm.CalloutFraming
