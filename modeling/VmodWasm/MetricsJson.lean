import Mathlib.Data.Bool.AllAny
import VmodWasm.Lib.Json
import VmodWasm.MetricStore

/-!
The metrics as JSON. The names go into the text as they are, up to a NUL byte, so
a reader gets the store back only if they are UTF-8 without quotes, backslashes
and control characters. The types a guest may give are not restricted to those
that have a name.
-/
namespace VmodWasm.MetricsJson

open ByteStrings ByteSearch ProxyCalls MetricStore Lib.Json

def typeStr (type : ℤ) : String :=
  if type = 0 then "counter"
  else if type = 1 then "gauge"
  else if type = 2 then "histogram"
  else "unknown"

/-- What is printed for a metric; `%.*s` stops at a NUL byte. -/
def metricText (m : Metric) : Bytes :=
  ascii "\"" ++ cstr m.name ++ ascii "\":\x7b\"type\":\"" ++ ascii (typeStr m.type) ++
    ascii "\",\"value\":" ++ decimal m.value ++ ascii "\x7d"

section Buffer

/-! A buffer of `size` bytes is what has been put into it. Nothing is returned if
a byte does not fit, or if `snprintf` has to cut. -/

def putByte (size : ℕ) (buf : Bytes) (c : UInt8) : Option Bytes :=
  if buf.length < size then some (buf ++ [c]) else none

def snprintf (size : ℕ) (buf text : Bytes) : Option Bytes :=
  if buf.length + text.length < size then some (buf ++ text) else none

/-- A turn of the loop, with the number of the metric. -/
def putMetric (size : ℕ) (buf : Bytes) (e : Metric × ℕ) : Option Bytes :=
  ((if 0 < e.2 then putByte size buf 0x2c else some buf)).bind fun buf =>
    snprintf size buf (metricText e.1)

def putMetrics (metrics : Store) : Option Bytes :=
  let size := 2 + metrics.length * 200
  (putByte size [] 0x7b).bind fun buf =>
    (metrics.zipIdx.foldlM (putMetric size) buf).bind fun buf =>
      (putByte size buf 0x7d).bind fun buf =>
        (putByte size buf 0).map fun _ => buf

/-- What the code writes at a position: a byte, or a text with its terminator. -/
inductive Write where
  | byte (pos : ℕ)
  | text (pos len : ℕ)

/-- The write stays inside the buffer, and a text is not cut. -/
def Write.Fits (size : ℕ) : Write → Prop
  | .byte pos => pos < size
  | .text pos len => pos + len < size

/-- The writes of the loop from a turn on, and the position after them. The position
moves by the length that a text would have, cut or not. -/
def loopWrites (i pos : ℕ) : Store → List Write × ℕ
  | [] => ([], pos)
  | m :: metrics =>
    let start := if 0 < i then pos + 1 else pos
    let later := loopWrites (i + 1) (start + (metricText m).length) metrics
    ((if 0 < i then [.byte pos] else []) ++ .text start (metricText m).length :: later.1, later.2)

/-- All writes: the opening brace, the loop, the closing brace and the NUL. -/
def metricsWrites (metrics : Store) : List Write :=
  let loop := loopWrites 0 1 metrics
  .byte 0 :: loop.1 ++ [.byte loop.2, .byte (loop.2 + 1)]

theorem putByte_eq_some {size : ℕ} {buf buf' : Bytes} {c : UInt8}
    (h : putByte size buf c = some buf') :
    (Write.byte buf.length).Fits size ∧ buf'.length = buf.length + 1 := by
  rw [putByte, Option.ite_none_right_eq_some, Option.some.injEq] at h
  obtain ⟨hfits, rfl⟩ := h
  exact ⟨hfits, List.length_append⟩

theorem snprintf_eq_some {size : ℕ} {buf buf' text : Bytes} (h : snprintf size buf text = some buf') :
    (Write.text buf.length text.length).Fits size ∧ buf'.length = buf.length + text.length := by
  rw [snprintf, Option.ite_none_right_eq_some, Option.some.injEq] at h
  obtain ⟨hfits, rfl⟩ := h
  exact ⟨hfits, List.length_append⟩

/-- A loop that comes to its end has made writes that fit. -/
theorem foldlM_putMetric_fits {size : ℕ} (metrics : Store) (i : ℕ) (buf buf' : Bytes)
    (h : (metrics.zipIdx i).foldlM (putMetric size) buf = some buf') :
    (∀ w ∈ (loopWrites i buf.length metrics).1, w.Fits size) ∧
      buf'.length = (loopWrites i buf.length metrics).2 := by
  induction metrics generalizing i buf with
  | nil =>
    obtain rfl := Option.some.inj h
    exact ⟨by simp [loopWrites], rfl⟩
  | cons m metrics ih =>
    rw [List.zipIdx_cons, List.foldlM_cons] at h
    obtain ⟨buf₂, hput, hrest⟩ := Option.bind_eq_some_iff.mp h
    obtain ⟨buf₁, hcomma, htext⟩ := Option.bind_eq_some_iff.mp hput
    obtain ⟨hfits, hlen⟩ := snprintf_eq_some htext
    obtain ⟨hlater, hend⟩ := ih (i + 1) buf₂ hrest
    rw [hlen] at hlater hend
    by_cases hi : 0 < i
    · rw [if_pos hi] at hcomma
      obtain ⟨hbyte, hone⟩ := putByte_eq_some hcomma
      rw [hone] at hfits hlater hend
      simp only [loopWrites, if_pos hi, List.mem_append, List.mem_cons, List.not_mem_nil, or_false]
      refine ⟨?_, hend⟩
      rintro w (rfl | rfl | hw)
      · exact hbyte
      · exact hfits
      · exact hlater w hw
    · rw [if_neg hi, Option.some.injEq] at hcomma
      subst hcomma
      simp only [loopWrites, if_neg hi, List.nil_append, List.mem_cons]
      refine ⟨?_, hend⟩
      rintro w (rfl | hw)
      · exact hfits
      · exact hlater w hw

/-- So has the function. -/
theorem putMetrics_fits {metrics : Store} {buf : Bytes} (h : putMetrics metrics = some buf) :
    ∀ w ∈ metricsWrites metrics, w.Fits (2 + metrics.length * 200) := by
  obtain ⟨buf₁, hopen, h⟩ := Option.bind_eq_some_iff.mp h
  obtain ⟨buf₂, hloop, h⟩ := Option.bind_eq_some_iff.mp h
  obtain ⟨buf₃, hclose, h⟩ := Option.bind_eq_some_iff.mp h
  obtain ⟨buf₄, hnul, -⟩ := Option.map_eq_some_iff.mp h
  obtain ⟨hfirst, hone⟩ := putByte_eq_some hopen
  obtain ⟨hwrites, hend⟩ := foldlM_putMetric_fits metrics 0 buf₁ buf₂ hloop
  rw [hone] at hwrites hend
  obtain ⟨hbrace, hlen⟩ := putByte_eq_some hclose
  obtain ⟨hlast, -⟩ := putByte_eq_some hnul
  rw [hlen] at hlast
  rw [hend] at hbrace hlast
  intro w hw
  simp only [metricsWrites, List.cons_append, List.mem_cons, List.mem_append, List.not_mem_nil,
    or_false] at hw
  rcases hw with rfl | hw | rfl | rfl
  · exact hfirst
  · exact hwrites w hw
  · exact hbrace
  · exact hlast

end Buffer

def emptyObject : Bytes := ascii "\x7b\x7d"

/-- `vmod_get_metrics_json`; `none` for a write outside of the buffer. -/
def vmodGetMetricsJson (store : Option Store) (bufAlloc wsCopy : Bool) : Option Bytes :=
  match store with
  | none => some emptyObject
  | some metrics =>
    if metrics.length = 0 then some emptyObject
    else if bufAlloc = false then some emptyObject
    else (putMetrics metrics).map fun buf => if wsCopy then buf else emptyObject

section Reading

def typeOf (name : List Char) : Option ℤ :=
  if name = "counter".toList then some 0
  else if name = "gauge".toList then some 1
  else if name = "histogram".toList then some 2
  else none

def natOf (literal : List Char) : Option ℕ :=
  if literal.all Char.isDigit then some (Nat.ofDigitChars 10 literal 0) else none

/-- The metric that a member of an object describes. -/
def metricOf : List Char × Value → Option Metric
  | (name, .object [(typeKey, .string type), (valueKey, .number value)]) =>
    if typeKey = "type".toList ∧ valueKey = "value".toList then
      (typeOf type).bind fun type => (natOf value).map fun value => ⟨utf8 name, type, value⟩
    else none
  | _ => none

/-- The text is a JSON object whose members are the metrics, in order. -/
def ReadsBack (text : Bytes) (s : Store) : Prop :=
  ∃ cs members, text = utf8 cs ∧ parse cs = some (.object members) ∧
    members.map metricOf = s.map some

/-- UTF-8 in which every character stands for itself in a JSON string. -/
def PlainName (name : Bytes) : Prop := ∃ cs, name = utf8 cs ∧ ∀ c ∈ cs, Plain c

def KnownType (type : ℤ) : Prop := type = 0 ∨ type = 1 ∨ type = 2

instance (type : ℤ) : Decidable (KnownType type) :=
  inferInstanceAs (Decidable (type = 0 ∨ type = 1 ∨ type = 2))

end Reading

section Fits

theorem typeStr_cases (type : ℤ) :
    typeStr type = "counter" ∨ typeStr type = "gauge" ∨ typeStr type = "histogram" ∨
      typeStr type = "unknown" := by
  unfold typeStr
  split_ifs <;> simp

theorem length_decimal_u64 (n : ℕ) (h : n < 2 ^ 64) : (decimal n).length ≤ 20 := by
  rw [decimal, List.length_map]
  exact Nat.toDigits_length 10 n 20 (by omega) (by omega)

theorem length_metricText (m : Metric) (hname : m.name.length < metricMaxName)
    (hvalue : m.value < 2 ^ 64) : (metricText m).length ≤ 179 := by
  have hcstr : (cstr m.name).length ≤ m.name.length := (List.takeWhile_sublist _).length_le
  have hdigits := length_decimal_u64 m.value hvalue
  have htype : (ascii (typeStr m.type)).length ≤ 9 := by
    rcases typeStr_cases m.type with h | h | h | h <;> rw [h] <;> decide
  have h₁ : (ascii "\"").length = 1 := by decide
  have h₂ : (ascii "\":\x7b\"type\":\"").length = 11 := by decide
  have h₃ : (ascii "\",\"value\":").length = 10 := by decide
  have h₄ : (ascii "\x7d").length = 1 := by decide
  unfold metricMaxName at hname
  simp only [metricText, List.length_append]
  omega

/-- The members of the object. -/
def membersText : Store → Bytes
  | [] => []
  | m :: metrics => metricText m ++ metrics.flatMap fun m => 0x2c :: metricText m

variable {metrics : Store}

theorem foldlM_putMetric (size : ℕ) (hfit : ∀ m ∈ metrics, (metricText m).length ≤ 179) (i : ℕ)
    (hi : 0 < i) (buf : Bytes) (hroom : buf.length + metrics.length * 180 < size) :
    (metrics.zipIdx i).foldlM (putMetric size) buf =
      some (buf ++ metrics.flatMap fun m => 0x2c :: metricText m) := by
  induction metrics generalizing i buf with
  | nil => simp
  | cons m metrics ih =>
    obtain ⟨hm, hfit⟩ := List.forall_mem_cons.mp hfit
    rw [List.length_cons] at hroom
    have hput : putMetric size buf (m, i) = some (buf ++ 0x2c :: metricText m) := by
      rw [putMetric, if_pos hi, putByte, if_pos (by omega), Option.bind_some, snprintf, if_pos,
        List.append_assoc, List.singleton_append]
      dsimp only
      rw [List.length_append, List.length_singleton]
      omega
    rw [List.zipIdx_cons, List.foldlM_cons, hput, Option.bind_eq_bind, Option.bind_some,
      ih hfit (i + 1) (Nat.succ_pos i), List.flatMap_cons, List.append_assoc]
    rw [List.length_append, List.length_cons]
    omega

theorem length_later (hfit : ∀ m ∈ metrics, (metricText m).length ≤ 179) :
    (metrics.flatMap fun m => 0x2c :: metricText m).length ≤ metrics.length * 180 := by
  induction metrics with
  | nil => exact Nat.le_refl _
  | cons m metrics ih =>
    obtain ⟨hm, hfit⟩ := List.forall_mem_cons.mp hfit
    have hrest := ih hfit
    rw [List.flatMap_cons, List.length_append, List.length_cons, List.length_cons]
    omega

/-- The buffer is large enough. -/
theorem putMetrics_eq (hfit : ∀ m ∈ metrics, (metricText m).length ≤ 179) (hne : metrics ≠ []) :
    putMetrics metrics = some (0x7b :: membersText metrics ++ [0x7d]) := by
  cases metrics with
  | nil => contradiction
  | cons m metrics =>
    obtain ⟨hm, hfit⟩ := List.forall_mem_cons.mp hfit
    have hlater := length_later hfit
    have hfirst : putMetric (2 + (metrics.length + 1) * 200) [0x7b] (m, 0) =
        some (0x7b :: metricText m) := by
      rw [putMetric, if_neg (Nat.lt_irrefl 0), Option.bind_some, snprintf, if_pos,
        List.singleton_append]
      dsimp only [List.length_singleton]
      omega
    have hloop := foldlM_putMetric (2 + (metrics.length + 1) * 200) hfit 1 Nat.one_pos
      (0x7b :: metricText m) (by rw [List.length_cons]; omega)
    have hlen : (0x7b :: metricText m ++ metrics.flatMap fun m => 0x2c :: metricText m).length + 1 <
        2 + (metrics.length + 1) * 200 := by
      rw [List.length_append, List.length_cons]
      omega
    simp only [putMetrics, List.length_cons, putByte, List.length_nil, List.nil_append,
      if_pos (show 0 < 2 + (metrics.length + 1) * 200 by omega), Option.bind_some,
      List.zipIdx_cons, List.foldlM_cons, hfirst, Option.bind_eq_bind]
    rw [hloop, Option.bind_some, if_pos (by omega), Option.bind_some, if_pos]
    · rfl
    · rw [List.length_append, List.length_singleton]
      exact hlen

end Fits

section Digits

theorem isDigit_toDigits (n : ℕ) : ∀ c ∈ Nat.toDigits 10 n, c.isDigit = true :=
  fun _ hc => Nat.isDigit_of_mem_toDigits (by omega) (by omega) hc

theorem head_toDigits (n : ℕ) (h : 0 < n) : (Nat.toDigits 10 n).head? ≠ some '0' := by
  induction n using Nat.strong_induction_on with
  | _ n ih =>
    by_cases hlt : n < 10
    · have hdigit : ∀ d < 10, 0 < d → [d.digitChar].head? ≠ some '0' := by decide
      rw [Nat.toDigits_of_lt_base hlt]
      exact hdigit n hlt h
    · rw [Nat.toDigits_of_base_le (by omega) (by omega), List.head?_append_of_ne_nil]
      · exact ih (n / 10) (by omega) (by omega)
      · exact Nat.toDigits_ne_nil

/-- No number is printed with a leading zero. -/
theorem toDigits_int (n : ℕ) :
    Nat.toDigits 10 n = ['0'] ∨ (Nat.toDigits 10 n).head? ≠ some '0' := by
  rcases Nat.eq_zero_or_pos n with rfl | hpos
  · exact Or.inl (Nat.toDigits_zero 10)
  · exact Or.inr (head_toDigits n hpos)

end Digits

section Chars

/-- The characters of the value of a metric, and what follows them. -/
def entryChars (m : Metric) (rest : List Char) : List Char :=
  '{' :: '"' :: ("type".toList ++ '"' :: ':' :: '"' :: ((typeStr m.type).toList ++ '"' :: ',' ::
    '"' :: ("value".toList ++ '"' :: ':' :: (Nat.toDigits 10 m.value ++ '}' :: rest))))

/-- The value that they denote. -/
def entry (m : Metric) : Value :=
  .object [("type".toList, .string (typeStr m.type).toList),
    ("value".toList, .number (Nat.toDigits 10 m.value))]

theorem plain_typeStr (type : ℤ) : ∀ c ∈ (typeStr type).toList, Plain c := by
  rcases typeStr_cases type with h | h | h | h <;> rw [h] <;>
    exact List.all_iff_forall_prop.mp (by decide)

theorem readValue_entry (n : ℕ) (m : Metric) (rest : List Char) :
    readValue (n + 3) (entryChars m rest) = some (entry m, rest) := by
  have htype := readMember_plain (k := "type".toList) (List.all_iff_forall_prop.mp (by decide))
    (readValue_string (plain_typeStr m.type) (n + 1)
      (',' :: '"' :: ("value".toList ++ '"' :: ':' :: (Nat.toDigits 10 m.value ++ '}' :: rest))))
  have hvalue := readMember_plain (k := "value".toList) (List.all_iff_forall_prop.mp (by decide))
    (readValue_digits (c := '}') Nat.toDigits_ne_nil (isDigit_toDigits m.value)
      (toDigits_int m.value) (Or.inr rfl) (n + 1) rest)
  rw [entryChars, readValue_object, readItems_comma htype,
    readItems_close hvalue (by decide) (by decide)]
  rfl

theorem typeOf_typeStr (type : ℤ) :
    typeOf (typeStr type).toList = if KnownType type then some type else none := by
  unfold typeStr KnownType
  split_ifs <;> simp_all [typeOf]

theorem natOf_toDigits (n : ℕ) : natOf (Nat.toDigits 10 n) = some n := by
  rw [natOf, if_pos (List.all_eq_true.mpr (isDigit_toDigits n)), Nat.ofDigitChars_ten_toDigits]

theorem metricOf_entry (name : List Char) (m : Metric) :
    metricOf (name, entry m) =
      if KnownType m.type then some ⟨utf8 name, m.type, m.value⟩ else none := by
  rw [entry, metricOf, if_pos ⟨rfl, rfl⟩, typeOf_typeStr, natOf_toDigits]
  split <;> rfl

/-- The characters of a member whose name is printed as these characters. -/
def memberChars (e : List Char × Metric) (rest : List Char) : List Char :=
  '"' :: (e.1 ++ '"' :: ':' :: entryChars e.2 rest)

/-- The members after the first one. -/
def laterChars (es : List (List Char × Metric)) (rest : List Char) : List Char :=
  es.foldr (fun e cs => ',' :: memberChars e cs) rest

theorem laterChars_cons (e : List Char × Metric) (es : List (List Char × Metric))
    (rest : List Char) :
    laterChars (e :: es) rest = ',' :: memberChars e (laterChars es rest) := rfl

theorem entryChars_append (m : Metric) (rest : List Char) :
    entryChars m rest = entryChars m [] ++ rest := by
  simp [entryChars]

theorem utf8_toList_ascii (s : String) (h : (s.toList.all fun c => c.toNat < 128) = true) :
    utf8 s.toList = ascii s := utf8_of_ascii (List.all_iff_forall_prop.mp h)

theorem utf8_toDigits (n : ℕ) : utf8 (Nat.toDigits 10 n) = decimal n := by
  refine utf8_of_ascii fun c hc => ?_
  have hdigit := isDigit_toDigits n c hc
  simp only [Char.isDigit, Bool.and_eq_true, decide_eq_true_eq, UInt32.le_iff_toNat_le] at hdigit
  have hval : c.toNat = c.val.toNat := rfl
  have hnine : '9'.val.toNat = 57 := rfl
  omega

theorem utf8_quote (cs : List Char) : utf8 ('"' :: cs) = 0x22 :: utf8 cs :=
  utf8_cons_ascii (by decide) cs

theorem metricText_eq (m : Metric) :
    metricText m = 0x22 :: (cstr m.name ++ 0x22 :: utf8 (':' :: entryChars m [])) := by
  have htype : utf8 (typeStr m.type).toList = ascii (typeStr m.type) := by
    refine utf8_toList_ascii _ ?_
    rcases typeStr_cases m.type with h | h | h | h <;> rw [h] <;> decide
  have hparts : ':' :: entryChars m [] =
      ":\x7b\"type\":\"".toList ++ ((typeStr m.type).toList ++
        ("\",\"value\":".toList ++ (Nat.toDigits 10 m.value ++ "\x7d".toList))) := by
    simp [entryChars]
  rw [hparts, utf8_append, utf8_append, utf8_append, utf8_append, htype, utf8_toDigits,
    utf8_toList_ascii _ (by decide), utf8_toList_ascii _ (by decide),
    utf8_toList_ascii _ (by decide)]
  simp [metricText, ascii]

/-- A text that starts with a metric is a member, with a name printed as it is. -/
theorem utf8_eq_metricText {cs : List Char} {m : Metric} {y : Bytes}
    (h : utf8 cs = metricText m ++ y) :
    ∃ name rest, cs = memberChars (name, m) rest ∧ utf8 name = cstr m.name ∧ utf8 rest = y := by
  rw [metricText_eq, List.cons_append, List.append_assoc, List.cons_append] at h
  obtain ⟨cs, rfl, hcs⟩ := utf8_eq_cons (d := '"') (by decide) h
  obtain ⟨name, behind, rfl, hname, hbehind⟩ := utf8_split (d := '"') (by decide) hcs
  obtain ⟨rest, rfl, hrest⟩ := utf8_begins hbehind.symm
  refine ⟨name, rest, ?_, hname, hrest⟩
  rw [memberChars, entryChars_append m rest]
  rfl

theorem utf8_memberChars {e : List Char × Metric} (h : utf8 e.1 = cstr e.2.name)
    (rest : List Char) : utf8 (memberChars e rest) = metricText e.2 ++ utf8 rest := by
  have hentry : ':' :: entryChars e.2 rest = ':' :: entryChars e.2 [] ++ rest :=
    congrArg _ (entryChars_append e.2 rest)
  rw [metricText_eq, memberChars, hentry, utf8_quote, utf8_append, utf8_quote, utf8_append, h]
  simp

/-- The name of the metric is printed as these characters. -/
def Printed (e : List Char × Metric) : Prop := utf8 e.1 = cstr e.2.name

theorem utf8_eq_later {cs : List Char} {metrics : Store} {y : Bytes}
    (h : utf8 cs = metrics.flatMap (fun m => 0x2c :: metricText m) ++ y) :
    ∃ es rest, cs = laterChars es rest ∧ es.map Prod.snd = metrics ∧ (∀ e ∈ es, Printed e) ∧
      utf8 rest = y := by
  induction metrics generalizing cs with
  | nil => exact ⟨[], cs, rfl, rfl, by simp, h⟩
  | cons m metrics ih =>
    rw [List.flatMap_cons, List.append_assoc] at h
    obtain ⟨cs, rfl, hcs⟩ := utf8_eq_cons (d := ',') (by decide) h
    obtain ⟨name, behind, rfl, hname, hbehind⟩ := utf8_eq_metricText hcs
    obtain ⟨es, rest, rfl, rfl, hprinted, hrest⟩ := ih hbehind
    exact ⟨(name, m) :: es, rest, rfl, rfl, List.forall_mem_cons.mpr ⟨hname, hprinted⟩, hrest⟩

theorem utf8_laterChars {es : List (List Char × Metric)} (h : ∀ e ∈ es, Printed e)
    (rest : List Char) :
    utf8 (laterChars es rest) =
      (es.map Prod.snd).flatMap (fun m => 0x2c :: metricText m) ++ utf8 rest := by
  induction es with
  | nil => rfl
  | cons e es ih =>
    obtain ⟨he, hes⟩ := List.forall_mem_cons.mp h
    rw [laterChars_cons, utf8_cons_ascii (by decide), utf8_memberChars he, ih hes, List.map_cons,
      List.flatMap_cons, List.append_assoc]
    rfl

end Chars

section Members

variable {e : List Char × Metric} {es : List (List Char × Metric)} {n k : ℕ} {rest : List Char}

theorem readMember_memberChars (h : ∀ c ∈ e.1, Plain c) :
    readMember (readValue (n + 3)) (memberChars e rest) = some ((e.1, entry e.2), rest) :=
  readMember_plain h (readValue_entry n e.2 rest)

theorem metricOf_name {x : List Char × Value} {m : Metric} (h : metricOf x = some m) :
    m.name = utf8 x.1 := by
  unfold metricOf at h
  split at h
  · split at h
    · obtain ⟨type, -, hvalue⟩ := Option.bind_eq_some_iff.mp h
      obtain ⟨value, -, rfl⟩ := Option.map_eq_some_iff.mp hvalue
      rfl
    · contradiction
  · contradiction

/-- A member is read as what it was printed for only if its name is plain. -/
theorem readMember_printed (h : Printed e) {x : List Char × Value} {r : List Char}
    (hread : readMember (readValue (n + 3)) (memberChars e rest) = some (x, r))
    (hmetric : metricOf x = some e.2) :
    (∀ c ∈ e.1, Plain c) ∧ e.2.name = utf8 e.1 ∧ KnownType e.2.type := by
  have hplain : ∀ c ∈ e.1, Plain c := by
    rw [memberChars, readMember_quote] at hread
    obtain ⟨⟨key, r₁⟩, hbody, hnext⟩ := Option.bind_eq_some_iff.mp hread
    obtain ⟨r₂, -, hvalue⟩ := Option.bind_eq_some_iff.mp hnext
    obtain ⟨⟨v, r₃⟩, -, heq⟩ := Option.map_eq_some_iff.mp hvalue
    obtain ⟨rfl, rfl⟩ := Prod.mk.inj heq
    -- what is printed is the beginning of the key
    have hbegins : utf8 e.1 ++ e.2.name.dropWhile (· ≠ 0) = utf8 key := by
      rw [h, ← metricOf_name hmetric]
      exact List.takeWhile_append_dropWhile
    obtain ⟨more, rfl, -⟩ := utf8_begins hbegins
    rcases readBody_cases hbody with
      ⟨-, hplain⟩ | hshort | ⟨before, k', behind, hname, hle, hkey, htail⟩
    · exact hplain
    · rw [List.length_append] at hshort
      omega
    · -- an escaped quote would put a quote, a colon or a brace for the backslash
      have hbehind : behind = [':', '{'] := by
        have hcolon : ∀ c ∈ [':', '{'], Plain c := List.all_iff_forall_prop.mp (by decide)
        exact (Prod.mk.inj (Option.some.inj (htail.symm.trans (readBody_plain hcolon _)))).1
      have hget : (k' ++ '"' :: behind)[before.length]? = some '\\' := by
        rw [← hkey, hname]
        simp
      rw [List.getElem?_append_right hle, hbehind] at hget
      exact absurd (List.mem_of_getElem? hget) (by decide)
  rw [readMember_memberChars hplain] at hread
  obtain ⟨rfl, -⟩ := Prod.mk.inj (Option.some.inj hread)
  refine ⟨hplain, metricOf_name hmetric, ?_⟩
  rw [metricOf_entry] at hmetric
  by_contra hunknown
  rw [if_neg hunknown] at hmetric
  contradiction

theorem readItems_plain (h : ∀ e' ∈ e :: es, ∀ c ∈ e'.1, Plain c) (hk : es.length < k) :
    readItems (readMember (readValue (n + 3))) '}' k (memberChars e (laterChars es ('}' :: rest))) =
      some ((e :: es).map fun e => (e.1, entry e.2), rest) := by
  induction es generalizing e k with
  | nil =>
    obtain ⟨k, rfl⟩ := Nat.exists_eq_add_one_of_ne_zero (Nat.ne_of_gt hk)
    have he := h e List.mem_cons_self
    exact readItems_close (readMember_memberChars he) (by decide) (by decide) k
  | cons e' es ih =>
    obtain ⟨k, rfl⟩ := Nat.exists_eq_add_one_of_ne_zero (Nat.ne_of_gt (Nat.zero_lt_of_lt hk))
    obtain ⟨he, hes⟩ := List.forall_mem_cons.mp h
    rw [laterChars_cons, readItems_comma (readMember_memberChars he),
      ih hes (Nat.lt_of_succ_lt_succ hk)]
    rfl

theorem readItems_printed (h : ∀ e' ∈ e :: es, Printed e') {ms : List (List Char × Value)}
    {r : List Char}
    (hread : readItems (readMember (readValue (n + 3))) '}' k
      (memberChars e (laterChars es ('}' :: rest))) = some (ms, r))
    (hmetrics : ms.map metricOf = (e :: es).map fun e => some e.2) :
    ∀ e' ∈ e :: es, (∀ c ∈ e'.1, Plain c) ∧ e'.2.name = utf8 e'.1 ∧ KnownType e'.2.type := by
  induction es generalizing e k ms r with
  | nil =>
    obtain ⟨x, r₁, ms, rfl, hitem⟩ := readItems_eq_some hread
    have he := readMember_printed (h e List.mem_cons_self) hitem (List.cons.inj hmetrics).1
    simpa using he
  | cons e' es ih =>
    obtain ⟨x, r₁, ms, rfl, hitem⟩ := readItems_eq_some hread
    have he := readMember_printed (h e List.mem_cons_self) hitem (List.cons.inj hmetrics).1
    refine List.forall_mem_cons.mpr ⟨he, ?_⟩
    cases k with
    | zero => contradiction
    | succ k =>
      rw [laterChars_cons, readItems_comma (readMember_memberChars he.1)] at hread
      obtain ⟨⟨ms', r'⟩, hrest, heq⟩ := Option.map_eq_some_iff.mp hread
      obtain ⟨hms, -⟩ := Prod.mk.inj heq
      obtain ⟨-, rfl⟩ := List.cons.inj hms
      exact ih (fun e'' he'' => h e'' (List.mem_cons_of_mem _ he'')) hrest (List.cons.inj hmetrics).2

end Members

section Store

theorem apply_lt {metricId value : ℕ} (h : value < 2 ^ 64) {call : MetricCall} {change : Change}
    (hchange : changeOf metricId call = some change) : change.apply value < 2 ^ 64 := by
  cases change with
  | add n => exact Nat.mod_lt _ (by omega)
  | subtract n => exact Nat.lt_of_le_of_lt (Nat.sub_le ..) h
  | set n =>
    cases call with
    | record id value =>
      simp only [changeOf, Option.ite_none_right_eq_some, Option.some.injEq, Change.set.injEq]
        at hchange
      exact hchange.2 ▸ value.toNat_lt
    | increment id offset =>
      simp only [changeOf, Option.ite_none_right_eq_some, Option.some.injEq] at hchange
      split at hchange <;> simp at hchange
    | define | get => contradiction

/-- Values stay in 64 bits. -/
theorem foldl_apply_lt (metricId : ℕ) (calls : List (ℕ × MetricCall)) (value : ℕ)
    (h : value < 2 ^ 64) : (changesOf metricId calls).foldl Change.apply value < 2 ^ 64 := by
  rw [changesOf]
  induction calls generalizing value with
  | nil => exact h
  | cons call calls ih =>
    cases hchange : changeOf metricId call.2 with
    | none =>
      rw [List.filterMap_cons, hchange]
      exact ih value h
    | some change =>
      rw [List.filterMap_cons, hchange]
      exact ih _ (apply_lt h hchange)

/-- The metrics of a store that calls have made are short enough for the buffer. -/
theorem length_metricText_storeAfter (calls : List (ℕ × MetricCall)) :
    ∀ m ∈ storeAfter calls, (metricText m).length ≤ 179 := by
  intro m hm
  obtain ⟨i, hi⟩ := List.mem_iff_getElem?.mp hm
  obtain ⟨_, _, _, rest, -, -, ⟨-, hname⟩, -, hvalue⟩ := storeAfter_origin calls i m hi
  refine length_metricText m hname ?_
  rw [hvalue]
  exact foldl_apply_lt (i + 1) rest 0 (by omega)

end Store

/-- Every write of the function stays in the buffer of 2 + 200 bytes for each metric,
and no text is cut, for every store that calls have made. -/
theorem metricsWrites_fit (calls : List (ℕ × MetricCall)) (hne : storeAfter calls ≠ []) :
    ∀ w ∈ metricsWrites (storeAfter calls), w.Fits (2 + (storeAfter calls).length * 200) :=
  putMetrics_fits (putMetrics_eq (length_metricText_storeAfter calls) hne)

theorem oneMetric_fits :
    metricsWrites (storeAfter [(0, .define 7 [0x61] true)]) ≠ [] ∧
      ∀ w ∈ metricsWrites (storeAfter [(0, .define 7 [0x61] true)]), w.Fits 202 :=
  ⟨List.cons_ne_nil _ _, metricsWrites_fit [(0, .define 7 [0x61] true)] (List.cons_ne_nil _ _)⟩

section Object

variable {e : List Char × Metric} {es : List (List Char × Metric)}

/-- The characters of the object. -/
def objectChars (e : List Char × Metric) (es : List (List Char × Metric)) : List Char :=
  '{' :: memberChars e (laterChars es ['}'])

theorem length_memberChars (e : List Char × Metric) (rest : List Char) :
    3 + rest.length ≤ (memberChars e rest).length := by
  simp only [memberChars, entryChars, List.length_cons, List.length_append]
  omega

theorem length_laterChars (es : List (List Char × Metric)) (rest : List Char) :
    es.length ≤ (laterChars es rest).length := by
  induction es with
  | nil => exact Nat.zero_le _
  | cons e es ih =>
    have hmember := length_memberChars e (laterChars es rest)
    rw [laterChars_cons, List.length_cons, List.length_cons]
    omega

/-- The bound that the reader gets is large enough. -/
theorem length_objectChars (e : List Char × Metric) (es : List (List Char × Metric)) :
    ∃ n, (objectChars e es).length = n + 3 ∧ es.length < n + 3 := by
  have hmember := length_memberChars e (laterChars es ['}'])
  have hlater := length_laterChars es ['}']
  have hlen : (objectChars e es).length = (memberChars e (laterChars es ['}'])).length + 1 := rfl
  exact ⟨(objectChars e es).length - 3, by omega, by omega⟩

theorem readValue_objectChars (n : ℕ) (e : List Char × Metric) (es : List (List Char × Metric)) :
    readValue (n + 1) (objectChars e es) =
      (readItems (readMember (readValue n)) '}' n (memberChars e (laterChars es ['}']))).map
        fun r => (.object r.1, r.2) :=
  readValue_object n _

theorem parse_plain (h : ∀ e' ∈ e :: es, ∀ c ∈ e'.1, Plain c) :
    parse (objectChars e es) = some (.object ((e :: es).map fun e => (e.1, entry e.2))) := by
  obtain ⟨n, hlen, hmany⟩ := length_objectChars e es
  rw [parse, hlen, readValue_objectChars, readItems_plain h hmany]
  rfl

theorem parse_printed (h : ∀ e' ∈ e :: es, Printed e') {members : List (List Char × Value)}
    (hparse : parse (objectChars e es) = some (.object members))
    (hmetrics : members.map metricOf = (e :: es).map fun e => some e.2) :
    ∀ e' ∈ e :: es, (∀ c ∈ e'.1, Plain c) ∧ e'.2.name = utf8 e'.1 ∧ KnownType e'.2.type := by
  obtain ⟨n, hlen, -⟩ := length_objectChars e es
  rw [parse, hlen, readValue_objectChars] at hparse
  obtain ⟨⟨v, r⟩, hread, hend⟩ := Option.bind_eq_some_iff.mp hparse
  obtain ⟨⟨ms, r'⟩, hitems, heq⟩ := Option.map_eq_some_iff.mp hread
  obtain ⟨rfl, rfl⟩ := Prod.mk.inj heq
  rw [Option.ite_none_right_eq_some, Option.some.injEq, Value.object.injEq] at hend
  rw [← hend.2] at hmetrics
  exact readItems_printed h hitems hmetrics

end Object

theorem cstr_plain {cs : List Char} (h : ∀ c ∈ cs, Plain c) : cstr (utf8 cs) = utf8 cs := by
  refine cstr_eq_self fun hmem => ?_
  obtain ⟨c, hc, hbyte⟩ := List.mem_flatMap.mp hmem
  obtain rfl : c = Char.ofNat 0 := eq_of_mem_utf8EncodeChar (by decide) hbyte
  exact absurd (h _ hc).1 (by decide)

/-- Characters for plain names. -/
theorem exists_chars {s : Store} (h : ∀ m ∈ s, PlainName m.name) :
    ∃ es : List (List Char × Metric), es.map Prod.snd = s ∧
      ∀ e ∈ es, e.2.name = utf8 e.1 ∧ ∀ c ∈ e.1, Plain c := by
  induction s with
  | nil => exact ⟨[], rfl, by simp⟩
  | cons m s ih =>
    obtain ⟨⟨cs, hname, hplain⟩, hs⟩ := List.forall_mem_cons.mp h
    obtain ⟨es, rfl, hes⟩ := ih hs
    exact ⟨(cs, m) :: es, rfl, List.forall_mem_cons.mpr ⟨⟨hname, hplain⟩, hes⟩⟩

/-- The metrics come back from the text of their members if and only if their names
are plain and their types have names. -/
theorem readsBack_members_iff (m : Metric) (metrics : Store) :
    ReadsBack (0x7b :: membersText (m :: metrics) ++ [0x7d]) (m :: metrics) ↔
      ∀ m' ∈ m :: metrics, PlainName m'.name ∧ KnownType m'.type := by
  rw [membersText, List.cons_append, List.append_assoc]
  constructor
  · rintro ⟨cs, members, htext, hparse, hmetrics⟩
    obtain ⟨cs, rfl, hcs⟩ := utf8_eq_cons (d := '{') (by decide) htext.symm
    obtain ⟨name, behind, rfl, hname, hbehind⟩ := utf8_eq_metricText hcs
    obtain ⟨es, rest, rfl, rfl, hprinted, hrest⟩ := utf8_eq_later hbehind
    obtain ⟨rest, rfl, hnil⟩ := utf8_eq_cons (d := '}') (by decide) hrest
    obtain rfl := utf8_eq_nil hnil
    have hall := parse_printed (e := (name, m)) (List.forall_mem_cons.mpr ⟨hname, hprinted⟩) hparse
      (by rw [hmetrics, List.map_cons, List.map_map]; rfl)
    intro m' hm'
    obtain ⟨e, he, rfl⟩ := List.mem_map.mp (show m' ∈ ((name, m) :: es).map Prod.snd from hm')
    obtain ⟨hplain, hutf8, htype⟩ := hall e he
    exact ⟨⟨e.1, hutf8, hplain⟩, htype⟩
  · intro h
    obtain ⟨es, hes, hplain⟩ := exists_chars fun m' hm' => (h m' hm').1
    cases es with
    | nil => contradiction
    | cons e es =>
      obtain ⟨rfl, rfl⟩ := List.cons.inj hes
      have hprinted : ∀ e' ∈ e :: es, Printed e' := by
        intro e' he'
        obtain ⟨hname, hchars⟩ := hplain e' he'
        rw [Printed, hname, cstr_plain hchars]
      refine ⟨objectChars e es, _, ?_, parse_plain fun e' he' => (hplain e' he').2, ?_⟩
      · rw [objectChars, utf8_cons_ascii (by decide),
          utf8_memberChars (hprinted e List.mem_cons_self),
          utf8_laterChars fun e' he' => hprinted e' (List.mem_cons_of_mem _ he')]
        rfl
      · rw [List.map_map, ← hes, List.map_map]
        refine List.map_congr_left fun e' he' => ?_
        have htype := (h e'.2 (hes ▸ List.mem_map_of_mem he')).2
        simp only [Function.comp_apply, metricOf_entry, if_pos htype, ← (hplain e' he').1]

theorem readsBack_empty (s : Store) : ReadsBack emptyObject s ↔ s = [] := by
  have hempty : emptyObject = utf8 ['{', '}'] := by decide
  have hparse : parse ['{', '}'] = some (.object []) := by rfl
  constructor
  · rintro ⟨cs, members, htext, hmembers, hmetrics⟩
    obtain rfl : cs = ['{', '}'] := utf8_injective (htext.symm.trans hempty)
    rw [hparse, Option.some.injEq, Value.object.injEq] at hmembers
    rw [← hmembers] at hmetrics
    exact List.map_eq_nil_iff.mp hmetrics.symm
  · rintro rfl
    exact ⟨['{', '}'], [], hempty, hparse, rfl⟩

/-- `vmod_get_metrics_json` gives the metrics of a store that calls have made. -/
def Returns (calls : List (ℕ × MetricCall)) (bufAlloc wsCopy : Bool) : Prop :=
  ∃ text, vmodGetMetricsJson (some (storeAfter calls)) bufAlloc wsCopy = some text ∧
    ReadsBack text (storeAfter calls)

theorem metricsJson_returns_iff (calls : List (ℕ × MetricCall)) (bufAlloc wsCopy : Bool) :
    Returns calls bufAlloc wsCopy ↔
      storeAfter calls = [] ∨ (bufAlloc = true ∧ wsCopy = true ∧
        ∀ m ∈ storeAfter calls, PlainName m.name ∧ KnownType m.type) := by
  have hfit := length_metricText_storeAfter calls
  rw [Returns]
  cases hstore : storeAfter calls with
  | nil =>
    refine ⟨fun _ => Or.inl rfl, fun _ => ⟨emptyObject, rfl, (readsBack_empty []).mpr rfl⟩⟩
  | cons m metrics =>
    rw [hstore] at hfit
    have hput := putMetrics_eq hfit (List.cons_ne_nil m metrics)
    have hother : ¬ ReadsBack emptyObject (m :: metrics) := by
      rw [readsBack_empty]
      exact List.cons_ne_nil m metrics
    cases bufAlloc with
    | false => simp [vmodGetMetricsJson, hother]
    | true =>
      cases wsCopy with
      | false => simp [vmodGetMetricsJson, hput, hother]
      | true =>
        have htext : vmodGetMetricsJson (some (m :: metrics)) true true =
            some (0x7b :: membersText (m :: metrics) ++ [0x7d]) := by
          simp [vmodGetMetricsJson, hput]
        simp only [htext, Option.some.injEq, exists_eq_left', readsBack_members_iff, reduceCtorEq,
          false_or, true_and]

/-- A counter whose name is a quote. -/
theorem quoteName_lost : ¬ Returns [(0, .define 0 [0x22] true)] true true := by
  rintro ⟨text, htext, hread⟩
  have hstore : storeAfter [(0, .define 0 [0x22] true)] = [⟨[0x22], 0, 0⟩] := rfl
  have hput := putMetrics_eq (length_metricText_storeAfter [(0, .define 0 [0x22] true)])
    (hstore ▸ List.cons_ne_nil _ _)
  rw [hstore] at htext hread hput
  rw [vmodGetMetricsJson, if_neg (by decide), if_neg (by decide), hput] at htext
  obtain rfl := Option.some.inj htext
  obtain ⟨⟨cs, hname, hplain⟩, -⟩ := (readsBack_members_iff _ _).mp hread _ List.mem_cons_self
  obtain ⟨rest, rfl, -⟩ := utf8_eq_cons (d := '"') (by decide) hname.symm
  exact (hplain '"' List.mem_cons_self).2.1 rfl

end VmodWasm.MetricsJson
