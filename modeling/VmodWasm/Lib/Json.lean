import Mathlib.Data.List.Basic
import Mathlib.Data.List.Infix
import Mathlib.Data.Nat.Notation

/-!
JSON texts and what they denote. A text is a list of characters, and a file is
its UTF-8 encoding. The reader takes all of JSON: white space, escapes with
surrogate pairs, numbers with fraction and exponent, and nested values; a number
is kept as it is written. The reader gets the length of the text as a bound on
the nesting of values and on their number of members.
-/
namespace VmodWasm.Lib.Json

section Utf8

/-- The bytes of a text. -/
def utf8 (cs : List Char) : List UInt8 := cs.flatMap String.utf8EncodeChar

theorem utf8_cons (c : Char) (cs : List Char) : utf8 (c :: cs) = String.utf8EncodeChar c ++ utf8 cs :=
  List.flatMap_cons

theorem utf8_append (cs ds : List Char) : utf8 (cs ++ ds) = utf8 cs ++ utf8 ds :=
  List.flatMap_append

theorem utf8EncodeChar_of_ascii {c : Char} (h : c.toNat < 128) :
    String.utf8EncodeChar c = [UInt8.ofNat c.toNat] := by
  have hle : c.val.toNat ≤ 0x7f := Nat.le_of_lt_succ h
  exact if_pos hle

theorem utf8_of_ascii {cs : List Char} (h : ∀ c ∈ cs, c.toNat < 128) :
    utf8 cs = cs.map fun c => UInt8.ofNat c.toNat := by
  induction cs with
  | nil => rfl
  | cons c cs ih =>
    obtain ⟨hc, hcs⟩ := List.forall_mem_cons.mp h
    rw [utf8_cons, ih hcs, utf8EncodeChar_of_ascii hc]
    rfl

/-- No text is encoded by a proper beginning of another one's encoding. -/
theorem utf8_begins {cs ds : List Char} {x : List UInt8} (h : utf8 ds ++ x = utf8 cs) :
    ∃ es, cs = ds ++ es ∧ utf8 es = x := by
  have harray : ds.utf8Encode ++ x.toByteArray = cs.utf8Encode := by
    rw [List.utf8Encode, List.utf8Encode, ← List.toByteArray_append]
    exact congrArg List.toByteArray h
  obtain ⟨es, rfl⟩ := List.isPrefix_of_utf8Encode_append_eq_utf8Encode _ harray
  rw [utf8_append] at h
  exact ⟨es, rfl, (List.append_cancel_left h).symm⟩

theorem utf8_eq_nil {cs : List Char} (h : utf8 cs = []) : cs = [] := by
  cases cs with
  | nil => rfl
  | cons c cs =>
    rw [utf8_cons, List.append_eq_nil_iff] at h
    exact absurd h.1 String.utf8EncodeChar_ne_nil

theorem utf8_injective : Function.Injective utf8 := by
  intro cs ds h
  obtain ⟨es, rfl, hes⟩ := utf8_begins ((List.append_nil _).trans h)
  rw [utf8_eq_nil hes, List.append_nil]

theorem utf8_cons_ascii {d : Char} (hd : d.toNat < 128) (cs : List Char) :
    utf8 (d :: cs) = UInt8.ofNat d.toNat :: utf8 cs := by
  rw [utf8_cons, utf8EncodeChar_of_ascii hd, List.singleton_append]

theorem utf8_eq_cons {cs : List Char} {d : Char} (hd : d.toNat < 128) {x : List UInt8}
    (h : utf8 cs = UInt8.ofNat d.toNat :: x) : ∃ es, cs = d :: es ∧ utf8 es = x := by
  have hbegins : utf8 [d] ++ x = utf8 cs := by
    rw [h, utf8_cons_ascii hd]
    rfl
  exact utf8_begins hbegins

/-- A byte of an ASCII character stands for that character only. -/
theorem eq_of_mem_utf8EncodeChar {c d : Char} (hd : d.toNat < 128)
    (h : UInt8.ofNat d.toNat ∈ String.utf8EncodeChar c) : c = d := by
  have hbyte (n : ℕ) (hn : n < 256) (heq : UInt8.ofNat d.toNat = UInt8.ofNat n) : d.toNat = n := by
    have hnat := congrArg UInt8.toNat heq
    rwa [UInt8.toNat_ofNat', UInt8.toNat_ofNat', Nat.mod_eq_of_lt (by omega),
      Nat.mod_eq_of_lt hn] at hnat
  by_cases hc : c.toNat < 128
  · rw [utf8EncodeChar_of_ascii hc, List.mem_singleton] at h
    exact Char.toNat_inj.mp (hbyte _ (by omega) h).symm
  · have hbig (n : ℕ) (hn : 128 ≤ n ∧ n < 256) : UInt8.ofNat d.toNat ≠ UInt8.ofNat n :=
      fun heq => by have := hbyte n hn.2 heq; omega
    have hv : ¬ c.val.toNat ≤ 0x7f := fun hle => hc (Nat.lt_succ_of_le hle)
    rw [String.utf8EncodeChar, if_neg hv] at h
    -- the bytes of other characters are all at least 0x80
    split_ifs at h <;> simp only [List.mem_cons, List.not_mem_nil, or_false] at h
    · rcases h with h | h <;> exact absurd h (hbig _ (by omega))
    · rcases h with h | h | h <;> exact absurd h (hbig _ (by omega))
    · rcases h with h | h | h | h <;> exact absurd h (hbig _ (by omega))

/-- An encoding splits at an ASCII character. -/
theorem utf8_split {cs : List Char} {d : Char} (hd : d.toNat < 128) {x y : List UInt8}
    (h : utf8 cs = x ++ UInt8.ofNat d.toNat :: y) :
    ∃ ds es, cs = ds ++ d :: es ∧ utf8 ds = x ∧ utf8 es = y := by
  induction cs generalizing x with
  | nil => simp [utf8] at h
  | cons c cs ih =>
    rw [utf8_cons] at h
    rcases List.append_eq_append_iff.mp h with ⟨x', rfl, hrest⟩ | ⟨a, ha, hrest⟩
    · obtain ⟨ds, es, rfl, rfl, hes⟩ := ih hrest
      exact ⟨c :: ds, es, rfl, utf8_cons c ds, hes⟩
    · cases a with
      | nil =>
        obtain ⟨ds, es, rfl, hds, hes⟩ := ih (x := []) hrest.symm
        refine ⟨c :: ds, es, rfl, ?_, hes⟩
        rw [utf8_cons, hds, ha, List.append_nil, List.append_nil]
      | cons b a =>
        obtain ⟨rfl, rfl⟩ := List.cons.inj hrest
        obtain rfl : c = d := eq_of_mem_utf8EncodeChar hd (ha ▸ by simp)
        rw [utf8EncodeChar_of_ascii hd] at ha
        obtain ⟨rfl, rfl⟩ : x = [] ∧ a = [] := by
          have hlen := congrArg List.length ha
          simp only [List.length_append, List.length_cons, List.length_nil] at hlen
          exact ⟨List.length_eq_zero_iff.mp (by omega), List.length_eq_zero_iff.mp (by omega)⟩
        exact ⟨[], cs, rfl, rfl, rfl⟩

end Utf8

inductive Value where
  | null
  | bool (b : Bool)
  | number (literal : List Char)
  | string (text : List Char)
  | array (elements : List Value)
  | object (members : List (List Char × Value))

section Reader

def isWs (c : Char) : Bool := c == ' ' || c == '\t' || c == '\n' || c == '\r'

def skipWs (cs : List Char) : List Char := cs.dropWhile isWs

/-- A character that stands for itself in a string. -/
def Plain (c : Char) : Prop := 0x20 ≤ c.toNat ∧ c ≠ '"' ∧ c ≠ '\\'

instance (c : Char) : Decidable (Plain c) :=
  inferInstanceAs (Decidable (0x20 ≤ c.toNat ∧ c ≠ '"' ∧ c ≠ '\\'))

def hexValue (c : Char) : Option ℕ :=
  if '0' ≤ c ∧ c ≤ '9' then some (c.toNat - 48)
  else if 'a' ≤ c ∧ c ≤ 'f' then some (c.toNat - 87)
  else if 'A' ≤ c ∧ c ≤ 'F' then some (c.toNat - 55)
  else none

def readHex4 : List Char → Option (ℕ × List Char)
  | a :: b :: c :: d :: cs => do
    let a ← hexValue a
    let b ← hexValue b
    let c ← hexValue c
    let d ← hexValue d
    some (((a * 16 + b) * 16 + c) * 16 + d, cs)
  | _ => none

/-- The second half of a surrogate pair, whose first one is `high`. -/
def readLow (high : ℕ) : List Char → Option (Char × List Char)
  | '\\' :: 'u' :: cs => do
    let (low, cs) ← readHex4 cs
    if 0xdc00 ≤ low ∧ low < 0xe000 then
      some (Char.ofNat (0x10000 + (high - 0xd800) * 0x400 + (low - 0xdc00)), cs)
    else none
  | _ => none

def readUnicode (cs : List Char) : Option (Char × List Char) := do
  let (n, cs) ← readHex4 cs
  if n < 0xd800 ∨ 0xe000 ≤ n then some (Char.ofNat n, cs)
  else if n < 0xdc00 then readLow n cs
  else none

def escapeOf (c : Char) : Option Char :=
  match c with
  | '"' => some '"'
  | '\\' => some '\\'
  | '/' => some '/'
  | 'b' => some (Char.ofNat 8)
  | 'f' => some (Char.ofNat 12)
  | 'n' => some '\n'
  | 'r' => some '\r'
  | 't' => some '\t'
  | _ => none

/-- What follows a backslash. -/
def readEscape : List Char → Option (Char × List Char)
  | [] => none
  | c :: cs => if c = 'u' then readUnicode cs else (escapeOf c).map fun d => (d, cs)

theorem hexValue_quote : hexValue '"' = none := by decide

theorem readHex4_used {cs rest : List Char} {n : ℕ} (h : readHex4 cs = some (n, rest)) :
    ∃ used, cs = used ++ rest ∧ '"' ∉ used := by
  rcases cs with _ | ⟨a, _ | ⟨b, _ | ⟨c, _ | ⟨d, cs⟩⟩⟩⟩ <;> try contradiction
  have hdigit (x : Char) (hx : x = '"') (k : ℕ) : hexValue x ≠ some k := by
    rw [hx, hexValue_quote]
    exact Option.some_ne_none k |>.symm
  simp only [readHex4, Option.bind_eq_bind, Option.bind_eq_some_iff, Option.some.injEq,
    Prod.mk.injEq] at h
  obtain ⟨a', ha, b', hb, c', hc, d', hd, -, rfl⟩ := h
  refine ⟨[a, b, c, d], rfl, ?_⟩
  intro hmem
  simp only [List.mem_cons, List.not_mem_nil, or_false] at hmem
  rcases hmem with hq | hq | hq | hq
  · exact hdigit a hq.symm a' ha
  · exact hdigit b hq.symm b' hb
  · exact hdigit c hq.symm c' hc
  · exact hdigit d hq.symm d' hd

theorem readLow_used {cs rest : List Char} {high : ℕ} {x : Char}
    (h : readLow high cs = some (x, rest)) : ∃ used, cs = used ++ rest ∧ '"' ∉ used := by
  unfold readLow at h
  split at h
  · obtain ⟨⟨low, cs'⟩, hlow, hchar⟩ := Option.bind_eq_some_iff.mp h
    obtain ⟨used, rfl, hused⟩ := readHex4_used hlow
    dsimp only at hchar
    split at hchar
    · obtain rfl : cs' = rest := (Prod.mk.inj (Option.some.inj hchar)).2
      exact ⟨'\\' :: 'u' :: used, rfl, by simp [hused]⟩
    · contradiction
  · contradiction

theorem readUnicode_used {cs rest : List Char} {x : Char}
    (h : readUnicode cs = some (x, rest)) : ∃ used, cs = used ++ rest ∧ '"' ∉ used := by
  obtain ⟨⟨n, cs'⟩, hhex, hchar⟩ := Option.bind_eq_some_iff.mp h
  obtain ⟨used, rfl, hused⟩ := readHex4_used hhex
  dsimp only at hchar
  split_ifs at hchar
  · obtain rfl : cs' = rest := (Prod.mk.inj (Option.some.inj hchar)).2
    exact ⟨used, rfl, hused⟩
  · obtain ⟨used', rfl, hused'⟩ := readLow_used hchar
    exact ⟨used ++ used', by rw [List.append_assoc], by simp [hused, hused']⟩

/-- A quote in an escape is the character that is escaped. -/
theorem readEscape_used {cs rest : List Char} {x : Char} (h : readEscape cs = some (x, rest)) :
    ∃ c used, cs = c :: used ++ rest ∧ '"' ∉ used ∧ (c = '"' → x = '"' ∧ used = []) := by
  cases cs with
  | nil => contradiction
  | cons c cs =>
    rw [readEscape] at h
    split at h
    next hu =>
      obtain ⟨used, rfl, hused⟩ := readUnicode_used h
      refine ⟨c, used, rfl, hused, ?_⟩
      rintro rfl
      exact absurd hu (by decide)
    next hu =>
      obtain ⟨d, hd, heq⟩ := Option.map_eq_some_iff.mp h
      obtain ⟨rfl, rfl⟩ := Prod.mk.inj heq
      refine ⟨c, [], rfl, List.not_mem_nil, ?_⟩
      rintro rfl
      exact ⟨(Option.some.inj hd).symm, rfl⟩

/-- The rest of a string after its opening quote. -/
def readBody : List Char → Option (List Char × List Char)
  | [] => none
  | c :: cs =>
    if c = '"' then some ([], cs)
    else if c = '\\' then
      match _h : readEscape cs with
      | none => none
      | some (d, rest) => (readBody rest).map fun r => (d :: r.1, r.2)
    else if 0x20 ≤ c.toNat then (readBody cs).map fun r => (c :: r.1, r.2)
    else none
  termination_by cs => cs.length
  decreasing_by
    · obtain ⟨e, used, rfl, -, -⟩ := readEscape_used _h
      simp only [List.length_cons, List.length_append]
      omega
    · exact Nat.lt_succ_self _

theorem readBody_quote (cs : List Char) : readBody ('"' :: cs) = some ([], cs) := by
  rw [readBody, if_pos rfl]

theorem readBody_escape (cs : List Char) :
    readBody ('\\' :: cs) =
      (readEscape cs).bind fun e => (readBody e.2).map fun r => (e.1 :: r.1, r.2) := by
  rw [readBody, if_neg (by decide), if_pos rfl]
  split
  next h => rw [h, Option.bind_none]
  next h => rw [h, Option.bind_some]

theorem readBody_char (c : Char) (cs : List Char) (hquote : c ≠ '"') (hescape : c ≠ '\\') :
    readBody (c :: cs) =
      if 0x20 ≤ c.toNat then (readBody cs).map fun r => (c :: r.1, r.2) else none := by
  rw [readBody, if_neg hquote, if_neg hescape]

/-- Plain characters up to the closing quote. -/
theorem readBody_plain {cs : List Char} (h : ∀ c ∈ cs, Plain c) (rest : List Char) :
    readBody (cs ++ '"' :: rest) = some (cs, rest) := by
  induction cs with
  | nil => exact readBody_quote rest
  | cons c cs ih =>
    obtain ⟨⟨hc, hquote, hescape⟩, hcs⟩ := List.forall_mem_cons.mp h
    rw [List.cons_append, readBody_char c _ hquote hescape, if_pos hc, ih hcs]
    rfl

/-- A part without a quote ends before the quote. -/
theorem split_before_quote {cs tail used rest : List Char} (h : cs ++ '"' :: tail = used ++ rest)
    (hused : '"' ∉ used) : ∃ cs', cs = used ++ cs' ∧ rest = cs' ++ '"' :: tail := by
  rcases List.append_eq_append_iff.mp h with ⟨a, rfl, hrest⟩ | ⟨a, rfl, hrest⟩
  · cases a with
    | nil => exact ⟨[], by simp, by simpa using hrest.symm⟩
    | cons b a =>
      obtain ⟨rfl, -⟩ := List.cons.inj hrest
      exact absurd (by simp) hused
  · exact ⟨a, rfl, hrest⟩

/-- What is read from a text that is put unchanged before a quote: the text, if its
characters are plain; something shorter; or the quote is escaped by a backslash at
the end, and the reading goes on behind it. -/
theorem readBody_cases {cs tail k rest : List Char}
    (h : readBody (cs ++ '"' :: tail) = some (k, rest)) :
    (k = cs ∧ ∀ c ∈ cs, Plain c) ∨ k.length < cs.length ∨
    ∃ before k' behind, cs = before ++ ['\\'] ∧ k'.length ≤ before.length ∧
      k = k' ++ '"' :: behind ∧ readBody tail = some (behind, rest) := by
  induction hn : cs.length using Nat.strong_induction_on generalizing cs k rest with
  | _ n ih =>
  subst hn
  cases cs with
  | nil =>
    rw [List.nil_append, readBody_quote] at h
    obtain ⟨rfl, rfl⟩ := Prod.mk.inj (Option.some.inj h)
    exact Or.inl ⟨rfl, by simp⟩
  | cons c cs =>
    rw [List.cons_append] at h
    by_cases hquote : c = '"'
    · subst hquote
      rw [readBody_quote] at h
      obtain ⟨rfl, rfl⟩ := Prod.mk.inj (Option.some.inj h)
      exact Or.inr (Or.inl (Nat.succ_pos _))
    by_cases hescape : c = '\\'
    · subst hescape
      rw [readBody_escape] at h
      obtain ⟨⟨x, r⟩, hesc, h⟩ := Option.bind_eq_some_iff.mp h
      obtain ⟨⟨k₁, r₁⟩, hread, heq⟩ := Option.map_eq_some_iff.mp h
      obtain ⟨rfl, rfl⟩ := Prod.mk.inj heq
      obtain ⟨e, used, hused, hnone, hone⟩ := readEscape_used hesc
      cases cs with
      | nil =>
        obtain ⟨rfl, rfl⟩ := List.cons.inj hused
        obtain ⟨rfl, rfl⟩ := hone rfl
        exact Or.inr (Or.inr ⟨[], [], k₁, rfl, Nat.le_refl _, rfl, hread⟩)
      | cons e' cs =>
        obtain ⟨rfl, hbehind⟩ := List.cons.inj hused
        obtain ⟨cs, rfl, rfl⟩ := split_before_quote hbehind hnone
        have hlt : cs.length < ('\\' :: e' :: (used ++ cs)).length := by
          simp only [List.length_cons, List.length_append]
          omega
        rcases ih cs.length hlt hread rfl with
          ⟨rfl, -⟩ | hshort | ⟨before, k', behind, rfl, hle, rfl, htail⟩
        · exact Or.inr (Or.inl (by simp only [List.length_cons, List.length_append]; omega))
        · exact Or.inr (Or.inl (by simp only [List.length_cons, List.length_append]; omega))
        · refine Or.inr (Or.inr ⟨'\\' :: e' :: (used ++ before), x :: k', behind, ?_, ?_, rfl, htail⟩)
          · simp
          · simp
            omega
    · rw [readBody_char c _ hquote hescape] at h
      split at h
      next hc =>
        obtain ⟨⟨k₁, r₁⟩, hread, heq⟩ := Option.map_eq_some_iff.mp h
        obtain ⟨rfl, rfl⟩ := Prod.mk.inj heq
        rcases ih cs.length (Nat.lt_succ_self _) hread rfl with
          ⟨rfl, hplain⟩ | hshort | ⟨before, k', behind, rfl, hle, rfl, htail⟩
        · exact Or.inl ⟨rfl, List.forall_mem_cons.mpr ⟨⟨hc, hquote, hescape⟩, hplain⟩⟩
        · exact Or.inr (Or.inl (Nat.succ_lt_succ hshort))
        · exact Or.inr (Or.inr ⟨c :: before, c :: k', behind, rfl, Nat.succ_le_succ hle, rfl, htail⟩)
      · contradiction

def readDigits (cs : List Char) : Option (List Char × List Char) :=
  if cs.takeWhile Char.isDigit = [] then none
  else some (cs.takeWhile Char.isDigit, cs.dropWhile Char.isDigit)

/-- The digits before the point, which have no leading zero. -/
def readInt (cs : List Char) : Option (List Char × List Char) :=
  (readDigits cs).filter fun r => r.1 = ['0'] ∨ r.1.head? ≠ some '0'

def readFraction : List Char → Option (List Char × List Char)
  | '.' :: cs => (readDigits cs).map fun r => ('.' :: r.1, r.2)
  | cs => some ([], cs)

def readExponent : List Char → Option (List Char × List Char)
  | [] => some ([], [])
  | e :: cs =>
    if e = 'e' ∨ e = 'E' then
      match cs with
      | '+' :: cs => (readDigits cs).map fun r => (e :: '+' :: r.1, r.2)
      | '-' :: cs => (readDigits cs).map fun r => (e :: '-' :: r.1, r.2)
      | cs => (readDigits cs).map fun r => (e :: r.1, r.2)
    else some ([], e :: cs)

def readUnsigned (cs : List Char) : Option (List Char × List Char) := do
  let (int, cs) ← readInt cs
  let (fraction, cs) ← readFraction cs
  let (exponent, cs) ← readExponent cs
  some (int ++ fraction ++ exponent, cs)

def readNumber : List Char → Option (Value × List Char)
  | '-' :: cs => (readUnsigned cs).map fun r => (.number ('-' :: r.1), r.2)
  | cs => (readUnsigned cs).map fun r => (.number r.1, r.2)

def readScalar (cs : List Char) : Option (Value × List Char) :=
  if ['n', 'u', 'l', 'l'] <+: cs then some (.null, cs.drop 4)
  else if ['t', 'r', 'u', 'e'] <+: cs then some (.bool true, cs.drop 4)
  else if ['f', 'a', 'l', 's', 'e'] <+: cs then some (.bool false, cs.drop 5)
  else readNumber cs

/-- A character after white space. -/
def expect (c : Char) (cs : List Char) : Option (List Char) :=
  match skipWs cs with
  | [] => none
  | d :: cs => if d = c then some cs else none

/-- Items with commas between them, up to a closing bracket. -/
def readItems {α : Type} (item : List Char → Option (α × List Char)) (close : Char) :
    ℕ → List Char → Option (List α × List Char)
  | 0, _ => none
  | n + 1, cs =>
    (item cs).bind fun r =>
      match expect ',' r.2 with
      | some cs => (readItems item close n cs).map fun s => (r.1 :: s.1, s.2)
      | none => (expect close r.2).map fun cs => ([r.1], cs)

def readMember (value : List Char → Option (Value × List Char)) (cs : List Char) :
    Option ((List Char × Value) × List Char) :=
  (expect '"' cs).bind fun cs => (readBody cs).bind fun key =>
    (expect ':' key.2).bind fun cs => (value cs).map fun r => ((key.1, r.1), r.2)

def readValue : ℕ → List Char → Option (Value × List Char)
  | 0, _ => none
  | n + 1, cs =>
    match expect '"' cs, expect '[' cs, expect '{' cs with
    | some cs, _, _ => (readBody cs).map fun r => (.string r.1, r.2)
    | _, some cs, _ =>
      match expect ']' cs with
      | some cs => some (.array [], cs)
      | none => (readItems (readValue n) ']' n cs).map fun r => (.array r.1, r.2)
    | _, _, some cs =>
      match expect '}' cs with
      | some cs => some (.object [], cs)
      | none => (readItems (readMember (readValue n)) '}' n cs).map fun r => (.object r.1, r.2)
    | none, none, none => readScalar (skipWs cs)

/-- The value of a text. -/
def parse (cs : List Char) : Option Value :=
  (readValue (cs.length + 1) cs).bind fun r => if skipWs r.2 = [] then some r.1 else none

theorem expect_self {c : Char} (h : isWs c = false) (cs : List Char) :
    expect c (c :: cs) = some cs := by
  rw [expect, skipWs, List.dropWhile_cons_of_neg (by simp [h])]
  exact if_pos rfl

theorem expect_ne {c d : Char} (h : isWs d = false) (hne : d ≠ c) (cs : List Char) :
    expect c (d :: cs) = none := by
  rw [expect, skipWs, List.dropWhile_cons_of_neg (by simp [h])]
  exact if_neg hne

/-- A natural number in front of a bracket or a comma. -/
theorem readNumber_digits {ds : List Char} {c : Char} (hne : ds ≠ [])
    (hdigits : ∀ d ∈ ds, d.isDigit = true) (hzero : ds = ['0'] ∨ ds.head? ≠ some '0')
    (hc : c = ',' ∨ c = '}') (rest : List Char) :
    readNumber (ds ++ c :: rest) = some (.number ds, c :: rest) := by
  have hcdigit : c.isDigit = false := by rcases hc with rfl | rfl <;> decide
  have htake : (ds ++ c :: rest).takeWhile Char.isDigit = ds := by
    rw [List.takeWhile_append_of_pos hdigits, List.takeWhile_cons_of_neg (by simp [hcdigit]),
      List.append_nil]
  have hdrop : (ds ++ c :: rest).dropWhile Char.isDigit = c :: rest := by
    rw [List.dropWhile_append_of_pos hdigits, List.dropWhile_cons_of_neg (by simp [hcdigit])]
  have hint : readInt (ds ++ c :: rest) = some (ds, c :: rest) := by
    rw [readInt, readDigits, htake, hdrop, if_neg hne]
    simp [hzero]
  have hunsigned : readUnsigned (ds ++ c :: rest) = some (ds, c :: rest) := by
    rw [readUnsigned, hint]
    rcases hc with rfl | rfl <;> simp [readFraction, readExponent]
  cases ds with
  | nil => contradiction
  | cons d ds =>
    have hd : d ≠ '-' := by
      rintro rfl
      exact absurd (hdigits _ List.mem_cons_self) (by decide)
    rw [readNumber]
    · rw [hunsigned]
      rfl
    · intro cs heq
      exact hd (List.cons.inj heq).1

theorem readValue_string {s : List Char} (h : ∀ c ∈ s, Plain c) (n : ℕ) (rest : List Char) :
    readValue (n + 1) ('"' :: (s ++ '"' :: rest)) = some (.string s, rest) := by
  rw [readValue, expect_self (by decide)]
  dsimp only
  rw [readBody_plain h]
  rfl

theorem readValue_digits {ds : List Char} {c : Char} (hne : ds ≠ [])
    (hdigits : ∀ d ∈ ds, d.isDigit = true) (hzero : ds = ['0'] ∨ ds.head? ≠ some '0')
    (hc : c = ',' ∨ c = '}') (n : ℕ) (rest : List Char) :
    readValue (n + 1) (ds ++ c :: rest) = some (.number ds, c :: rest) := by
  have hnumber := readNumber_digits hne hdigits hzero hc rest
  cases ds with
  | nil => contradiction
  | cons d ds =>
    have hd := hdigits d List.mem_cons_self
    have hother (c : Char) (hc : c.isDigit = false) : d ≠ c := by
      rintro rfl
      rw [hd] at hc
      contradiction
    have hws : isWs d = false := by
      simp [isWs, hother ' ' (by decide), hother '\t' (by decide), hother '\n' (by decide),
        hother '\r' (by decide)]
    rw [List.cons_append] at hnumber ⊢
    rw [readValue, expect_ne hws (hother _ (by decide)), expect_ne hws (hother _ (by decide)),
      expect_ne hws (hother _ (by decide))]
    dsimp only
    rw [skipWs, List.dropWhile_cons_of_neg (by simp [hws]), readScalar,
      if_neg fun h => hother 'n' (by decide) (List.cons_prefix_cons.mp h).1.symm,
      if_neg fun h => hother 't' (by decide) (List.cons_prefix_cons.mp h).1.symm,
      if_neg fun h => hother 'f' (by decide) (List.cons_prefix_cons.mp h).1.symm]
    exact hnumber

theorem readMember_quote (value : List Char → Option (Value × List Char)) (cs : List Char) :
    readMember value ('"' :: cs) =
      (readBody cs).bind fun key => (expect ':' key.2).bind fun cs =>
        (value cs).map fun r => ((key.1, r.1), r.2) := by
  rw [readMember, expect_self (by decide), Option.bind_some]

theorem readMember_plain {k : List Char} (h : ∀ c ∈ k, Plain c)
    {value : List Char → Option (Value × List Char)} {cs rest : List Char} {v : Value}
    (hv : value cs = some (v, rest)) :
    readMember value ('"' :: (k ++ '"' :: ':' :: cs)) = some ((k, v), rest) := by
  rw [readMember_quote, readBody_plain h, Option.bind_some, expect_self (by decide),
    Option.bind_some, hv]
  rfl

section Items

variable {α : Type} {item : List Char → Option (α × List Char)} {close : Char}
variable {cs rest : List Char} {x : α}

/-- The first item that is read is the first one of the list. -/
theorem readItems_eq_some {n : ℕ} {xs : List α} (h : readItems item close n cs = some (xs, rest)) :
    ∃ x r xs', xs = x :: xs' ∧ item cs = some (x, r) := by
  cases n with
  | zero => contradiction
  | succ n =>
    rw [readItems] at h
    obtain ⟨⟨x, r⟩, hitem, hnext⟩ := Option.bind_eq_some_iff.mp h
    split at hnext
    · obtain ⟨more, -, heq⟩ := Option.map_eq_some_iff.mp hnext
      exact ⟨x, r, more.1, (Prod.mk.inj heq).1.symm, hitem⟩
    · obtain ⟨more, -, heq⟩ := Option.map_eq_some_iff.mp hnext
      exact ⟨x, r, [], (Prod.mk.inj heq).1.symm, hitem⟩

theorem readItems_comma (h : item cs = some (x, ',' :: rest)) (n : ℕ) :
    readItems item close (n + 1) cs = (readItems item close n rest).map fun r => (x :: r.1, r.2) := by
  rw [readItems, h, Option.bind_some, expect_self (by decide)]

theorem readItems_close (h : item cs = some (x, close :: rest)) (hws : isWs close = false)
    (hclose : close ≠ ',') (n : ℕ) : readItems item close (n + 1) cs = some ([x], rest) := by
  rw [readItems, h, Option.bind_some, expect_ne hws hclose]
  dsimp only
  rw [expect_self hws]
  rfl

end Items

theorem readValue_object (n : ℕ) (cs : List Char) :
    readValue (n + 1) ('{' :: '"' :: cs) =
      (readItems (readMember (readValue n)) '}' n ('"' :: cs)).map fun r => (.object r.1, r.2) := by
  rw [readValue, expect_ne (by decide) (by decide), expect_ne (by decide) (by decide),
    expect_self (by decide)]
  dsimp only
  rw [expect_ne (by decide) (by decide)]

end Reader

end VmodWasm.Lib.Json
