import VmodWasm.CalloutFraming
import VmodWasm.Lib.Loops

/-!
The scanners of proxy_wasm_http.c as they run: loops over an index into the text,
with early returns and with sums that must not wrap around. Each one ends, agrees
with the function on lists that the rest of the development uses, and accepts
exactly the texts of its grammar.
-/
namespace VmodWasm.TextScanners

open ByteStrings HttpText HeaderFields CalloutFraming Lib.Loops

/-- How a scanner ends. `wrapped`: a sum did not fit into its type. -/
inductive Scan (α : Type) where
  | wrapped
  | rejected
  | accepted (a : α)
  deriving DecidableEq

def Scan.ofOption {α : Type} : Option α → Scan α
  | none => .rejected
  | some a => .accepted a

def Scan.map {α β : Type} (f : α → β) : Scan α → Scan β
  | .wrapped => .wrapped
  | .rejected => .rejected
  | .accepted a => .accepted (f a)

theorem Scan.ofOption_eq_accepted_iff {α : Type} {o : Option α} {a : α} :
    Scan.ofOption o = .accepted a ↔ o = some a := by
  cases o <;> simp [Scan.ofOption]

theorem Scan.ofOption_ne_wrapped {α : Type} (o : Option α) : Scan.ofOption o ≠ .wrapped := by
  cases o <;> simp [Scan.ofOption]

def IsDigits (s : Bytes) : Prop := s ≠ [] ∧ ∀ c ∈ s, 0x30 ≤ c ∧ c ≤ 0x39

theorem digit_le {c : UInt8} (h : ¬ (c < 0x30 ∨ 0x39 < c)) : c.toNat - 0x30 ≤ 9 := by
  obtain ⟨-, hhigh⟩ := not_or.mp h
  have := UInt8.le_iff_toNat_le.mp (UInt8.not_lt.mp hhigh)
  have : (0x39 : UInt8).toNat = 57 := rfl
  omega

theorem digitsValue_cons (value : ℕ) (c : UInt8) (l : Bytes) :
    digitsValue value (c :: l) = digitsValue (value * 10 + (c.toNat - 0x30)) l := by
  rw [digitsValue, List.foldl_cons, ← digitsValue, Nat.mul_comm]

section Sizes

/-- The variables of `pw_http_parse_size`. -/
structure SizeState where
  i : ℕ
  value : ℕ := 0
  digits : Bool := false

/-- What stands behind the loop. -/
def SizeState.finish (st : SizeState) : Scan ℕ :=
  if st.digits then .accepted st.value else .rejected

def sizeTurn (s : Bytes) (st : SizeState) : Option (SizeState ⊕ Scan ℕ) :=
  match s[st.i]? with
  | none => some (.inr st.finish)
  | some c =>
    if isBlank c then
      (skip s isBlank st.i).map fun i => .inr (if i ≠ s.length then .rejected else st.finish)
    else if c < 0x30 ∨ 0x39 < c then some (.inr .rejected)
    else if (sizeMax - (c.toNat - 0x30)) / 10 < st.value then some (.inr .rejected)
    else if sizeMax < st.value * 10 + (c.toNat - 0x30) then some (.inr .wrapped)
    else some (.inl ⟨st.i + 1, st.value * 10 + (c.toNat - 0x30), true⟩)

def pwHttpParseSize (s : Bytes) : Option (Scan ℕ) :=
  (skip s isBlank 0).bind fun i => loop (sizeTurn s) (s.length + 1) { i := i }

theorem finish_eq (st : SizeState) :
    st.finish = Scan.ofOption (if st.digits then some st.value else none) := by
  unfold SizeState.finish
  cases st.digits <;> rfl

theorem sizeTurn_keeps (s : Bytes) (st : SizeState) :
    Keeps (fun _ => True) (fun st => s.length - st.i)
      (fun st => Scan.ofOption (sizeLoop st.value st.digits (s.drop st.i))) st (sizeTurn s st) := by
  unfold sizeTurn Keeps
  dsimp only
  split
  next hc =>
    rw [drop_of_none hc, finish_eq]
    exact Or.inl rfl
  next c hc =>
    obtain ⟨hlt, hdrop⟩ := drop_of_some hc
    rw [hdrop, sizeLoop]
    by_cases hblank : isBlank c = true
    · refine Or.inl ?_
      rw [if_pos hblank, if_pos hblank, skip_eq, ← hdrop, Option.map_some, finish_eq]
      have hall := skip_all_iff s isBlank hlt.le
      by_cases hend : (s.drop st.i).all isBlank = true
      · rw [if_pos hend, if_neg (not_not_intro (hall.mpr hend))]
      · rw [if_neg hend, if_pos (mt hall.mp hend)]
        rfl
    · rw [if_neg hblank, if_neg hblank]
      by_cases hdigit : c < 0x30 ∨ 0x39 < c
      · rw [if_pos hdigit, if_pos hdigit]
        exact Or.inl rfl
      · rw [if_neg hdigit, if_neg hdigit]
        by_cases hbig : (sizeMax - (c.toNat - 0x30)) / 10 < st.value
        · rw [if_pos hbig, if_pos hbig]
          exact Or.inl rfl
        · -- the division leaves room for the digit, whichever it is
          have hd : c.toNat - 0x30 ≤ 9 := digit_le hdigit
          have hfit : ¬ sizeMax < st.value * 10 + (c.toNat - 0x30) := by
            unfold sizeMax at *
            omega
          rw [if_neg hbig, if_neg hbig, if_neg hfit]
          exact Or.inr ⟨_, rfl, trivial, by dsimp only; omega, rfl⟩

theorem pwHttpParseSize_eq (s : Bytes) :
    pwHttpParseSize s = some (Scan.ofOption (HttpText.pwHttpParseSize s)) := by
  rw [pwHttpParseSize, skip_eq, Option.bind_some,
    loop_eq (fun st _ => sizeTurn_keeps s st) _ _ trivial (by dsimp only; omega)]
  rw [HttpText.pwHttpParseSize, drop_skip]
  rfl

/-- Digits between blanks, which stand for a number. -/
def SizeText (s : Bytes) (n : ℕ) : Prop :=
  ∃ lead digits tail, s = lead ++ digits ++ tail ∧ (∀ c ∈ lead, isBlank c = true) ∧
    IsDigits digits ∧ (∀ c ∈ tail, isBlank c = true) ∧ digitsValue 0 digits = n

theorem sizeLoop_text (s : Bytes) (value : ℕ) (digits : Bool) (hvalue : value ≤ sizeMax) (n : ℕ)
    (h : sizeLoop value digits s = some n) :
    ∃ ds tail, s = ds ++ tail ∧ (∀ c ∈ ds, 0x30 ≤ c ∧ c ≤ 0x39) ∧ (digits = true ∨ ds ≠ []) ∧
      (∀ c ∈ tail, isBlank c = true) ∧ digitsValue value ds = n ∧ n ≤ sizeMax := by
  induction s generalizing value digits with
  | nil =>
    rw [sizeLoop] at h
    split at h
    next hdigits =>
      obtain rfl := Option.some.inj h
      exact ⟨[], [], rfl, by simp, Or.inl hdigits, by simp, rfl, hvalue⟩
    next => contradiction
  | cons c s ih =>
    rw [sizeLoop] at h
    split at h
    next =>
      -- only blanks follow
      split at h
      next hall =>
        split at h
        next hdigits =>
          obtain rfl := Option.some.inj h
          exact ⟨[], c :: s, rfl, by simp, Or.inl hdigits, List.all_eq_true.mp hall, rfl, hvalue⟩
        next => contradiction
      next => contradiction
    next =>
      split at h
      · contradiction
      next hdigit =>
        split at h
        · contradiction
        next hbig =>
          have hd : c.toNat - 0x30 ≤ 9 := digit_le hdigit
          have hfit : value * 10 + (c.toNat - 0x30) ≤ sizeMax := by
            unfold sizeMax at *
            omega
          obtain ⟨ds, tail, rfl, hds, -, htail, hsum, hn⟩ := ih _ true hfit h
          obtain ⟨hlow, hhigh⟩ := not_or.mp hdigit
          refine ⟨c :: ds, tail, rfl, ?_, Or.inr (List.cons_ne_nil c ds), htail, ?_, hn⟩
          · exact List.forall_mem_cons.mpr ⟨⟨UInt8.not_lt.mp hlow, UInt8.not_lt.mp hhigh⟩, hds⟩
          · rw [digitsValue_cons, hsum]

theorem parseSize_eq_some_iff (s : Bytes) (n : ℕ) :
    HttpText.pwHttpParseSize s = some n ↔ SizeText s n ∧ n ≤ sizeMax := by
  constructor
  · intro h
    obtain ⟨ds, tail, hsplit, hds, hsome, htail, hvalue, hn⟩ :=
      sizeLoop_text _ 0 false (Nat.zero_le _) n h
    have hne : ds ≠ [] := hsome.resolve_left Bool.false_ne_true
    refine ⟨⟨s.takeWhile isBlank, ds, tail, ?_, fun c hc => List.mem_takeWhile_imp hc, ⟨hne, hds⟩,
      htail, hvalue⟩, hn⟩
    rw [List.append_assoc, ← hsplit, List.takeWhile_append_dropWhile]
  · rintro ⟨⟨lead, ds, tail, rfl, hlead, ⟨hne, hds⟩, htail, rfl⟩, hn⟩
    have hdrop : (lead ++ ds ++ tail).dropWhile isBlank = ds ++ tail := by
      obtain ⟨c, ds', rfl⟩ := List.exists_cons_of_ne_nil hne
      rw [List.append_assoc, List.dropWhile_append_of_pos hlead, List.cons_append,
        List.dropWhile_cons_of_neg]
      rw [not_isBlank_digit (hds c List.mem_cons_self).1]
      exact Bool.false_ne_true
    rw [HttpText.pwHttpParseSize, hdrop]
    exact sizeLoop_digits ds tail 0 false hds (Or.inr hne) htail hn

/-- The size scanner ends without a sum that wraps around, and accepts exactly the
digits between blanks whose value is a `size_t`. -/
theorem parseSize_scans (s : Bytes) :
    ∃ r, pwHttpParseSize s = some r ∧ r ≠ .wrapped ∧
      ∀ n, r = .accepted n ↔ SizeText s n ∧ n ≤ sizeMax := by
  refine ⟨_, pwHttpParseSize_eq s, Scan.ofOption_ne_wrapped _, fun n => ?_⟩
  rw [Scan.ofOption_eq_accepted_iff]
  exact parseSize_eq_some_iff s n

end Sizes

section Upstreams

/-- What an `unsigned long` holds at least. -/
def ulongMax : ℕ := 2 ^ 32 - 1

/-- The variables of `pw_http_parse_port`. -/
structure PortState where
  i : ℕ := 0
  value : ℕ := 0

def portTurn (s : Bytes) (st : PortState) : Option (PortState ⊕ Scan ℕ) :=
  match s[st.i]? with
  | none => some (.inr (if st.value = 0 then .rejected else .accepted (st.value % 2 ^ 16)))
  | some c =>
    if c < 0x30 ∨ 0x39 < c then some (.inr .rejected)
    else
      let value := st.value * 10 + (c.toNat - 0x30)
      if ulongMax < value then some (.inr .wrapped)
      else if 65535 < value then some (.inr .rejected)
      else some (.inl ⟨st.i + 1, value⟩)

def pwHttpParsePort (s : Bytes) : Option (Scan ℕ) :=
  if s.isEmpty then some .rejected else loop (portTurn s) (s.length + 1) {}

def pwHttpHasLineCtl (s : Bytes) : Option Bool :=
  loop (anyTurn s fun c => c == 0x00 || c == 0x0d || c == 0x0a) (s.length + 1) 0

def pwHttpHostOk (s : Bytes) : Option Bool :=
  if s.isEmpty then some false
  else (loop (anyTurn s fun c => c ≤ 0x20 || 0x7f ≤ c || c == 0x2f) (s.length + 1) 0).map (!·)

def pwHttpParseUpstream (upstream : Bytes) (hostSz : ℕ) : Option (Scan (Bytes × ℕ)) :=
  if upstream.length = 0 ∨ hostSz ≤ upstream.length then some .rejected
  else
    (pwHttpHasLineCtl upstream).bind fun ctl =>
      if ctl then some .rejected
      else
        match upstream.idxOf? 0x3a with
        | some hlen =>
          if hlen = 0 ∨ hostSz ≤ hlen then some .rejected
          else
            (pwHttpHostOk (upstream.take hlen)).bind fun ok =>
              if !ok then some .rejected
              else
                (pwHttpParsePort (upstream.drop (hlen + 1))).map
                  (Scan.map fun port => (upstream.take hlen, port))
        | none =>
          (pwHttpHostOk upstream).map fun ok =>
            if !ok then .rejected else .accepted (upstream, 80)

/-- The end of the port loop. -/
def portResult (value : ℕ) : Option ℕ := if value = 0 then none else some value

theorem portTurn_keeps (s : Bytes) (st : PortState) (hst : st.value ≤ 65535) :
    Keeps (fun st => st.value ≤ 65535) (fun st => s.length - st.i)
      (fun st => Scan.ofOption ((portLoop st.value (s.drop st.i)).bind portResult)) st
      (portTurn s st) := by
  unfold portTurn Keeps
  dsimp only
  split
  next hc =>
    refine Or.inl ?_
    rw [drop_of_none hc, portLoop, Option.bind_some, portResult, Nat.mod_eq_of_lt (by omega)]
    split <;> rfl
  next c hc =>
    obtain ⟨hlt, hdrop⟩ := drop_of_some hc
    rw [hdrop, portLoop]
    by_cases hdigit : c < 0x30 ∨ 0x39 < c
    · rw [if_pos hdigit, if_pos hdigit]
      exact Or.inl rfl
    · have hd : c.toNat - 0x30 ≤ 9 := digit_le hdigit
      have hfit : ¬ ulongMax < st.value * 10 + (c.toNat - 0x30) := by
        unfold ulongMax
        omega
      rw [if_neg hdigit, if_neg hdigit, if_neg hfit]
      by_cases hbig : 65535 < st.value * 10 + (c.toNat - 0x30)
      · rw [if_pos hbig, if_pos hbig]
        exact Or.inl rfl
      · rw [if_neg hbig, if_neg hbig]
        exact Or.inr ⟨_, rfl, Nat.le_of_not_lt hbig, by dsimp only; omega, rfl⟩

theorem pwHttpParsePort_eq (s : Bytes) :
    pwHttpParsePort s = some (Scan.ofOption (HttpText.pwHttpParsePort s)) := by
  unfold pwHttpParsePort HttpText.pwHttpParsePort
  split
  · rfl
  · rw [loop_eq (portTurn_keeps s) _ _ (Nat.zero_le _) (by dsimp only; omega)]
    dsimp only
    rw [List.drop_zero]
    cases portLoop 0 s <;> rfl

theorem pwHttpHasLineCtl_eq (s : Bytes) :
    pwHttpHasLineCtl s = some (HttpText.pwHttpHasLineCtl s) :=
  loop_any_eq s _

theorem pwHttpHostOk_eq (s : Bytes) : pwHttpHostOk s = some (HttpText.pwHttpHostOk s) := by
  unfold pwHttpHostOk HttpText.pwHttpHostOk
  cases hs : s.isEmpty with
  | true => rfl
  | false =>
    rw [loop_any_eq]
    simp [List.all_eq_not_any_not]

theorem pwHttpParseUpstream_eq (upstream : Bytes) (hostSz : ℕ) :
    pwHttpParseUpstream upstream hostSz =
      some (Scan.ofOption (HttpText.pwHttpParseUpstream upstream hostSz)) := by
  unfold pwHttpParseUpstream HttpText.pwHttpParseUpstream
  simp only [pwHttpHasLineCtl_eq, pwHttpHostOk_eq, pwHttpParsePort_eq, Option.bind_some,
    Option.map_some]
  by_cases hlen : upstream.length = 0 ∨ hostSz ≤ upstream.length
  · rw [if_pos hlen, if_pos hlen]
    rfl
  · rw [if_neg hlen, if_neg hlen]
    cases HttpText.pwHttpHasLineCtl upstream with
    | true => rfl
    | false =>
      cases upstream.idxOf? 0x3a with
      | none =>
        dsimp only
        cases HttpText.pwHttpHostOk upstream <;> rfl
      | some hlen =>
        dsimp only
        by_cases hhost : hlen = 0 ∨ hostSz ≤ hlen
        · simp only [if_pos hhost]
          rfl
        · simp only [if_neg hhost]
          cases HttpText.pwHttpHostOk (upstream.take hlen) with
          | false => rfl
          | true => cases HttpText.pwHttpParsePort (upstream.drop (hlen + 1)) <;> rfl

/-- A name of visible bytes, without the slash and the colon. -/
def HostName (host : Bytes) : Prop :=
  host ≠ [] ∧ ∀ c ∈ host, 0x21 ≤ c ∧ c ≤ 0x7e ∧ c ≠ 0x2f ∧ c ≠ 0x3a

/-- A host, alone or with a port. -/
def UpstreamText (s host : Bytes) (port : ℕ) : Prop :=
  HostName host ∧ (s = host ∧ port = 80 ∨
    ∃ digits, s = host ++ 0x3a :: digits ∧ IsDigits digits ∧ digitsValue 0 digits = port ∧
      1 ≤ port ∧ port ≤ 65535)

theorem visible_iff (c : UInt8) :
    (c ≤ 0x20 || 0x7f ≤ c || c == 0x2f) = false ↔ 0x21 ≤ c ∧ c ≤ 0x7e ∧ c ≠ 0x2f := by
  have hlow : ¬ c ≤ 0x20 ↔ 0x21 ≤ c := by
    simp only [UInt8.le_iff_toNat_le, UInt8.reduceToNat]
    omega
  have hhigh : ¬ 0x7f ≤ c ↔ c ≤ 0x7e := by
    simp only [UInt8.le_iff_toNat_le, UInt8.reduceToNat]
    omega
  simp only [Bool.or_eq_false_iff, decide_eq_false_iff_not, beq_eq_false_iff_ne, hlow, hhigh,
    and_assoc]

theorem hostName_iff (host : Bytes) :
    HostName host ↔ HttpText.pwHttpHostOk host = true ∧ 0x3a ∉ host := by
  have hbytes : HttpText.pwHttpHostOk host = true ↔
      host ≠ [] ∧ ∀ c ∈ host, 0x21 ≤ c ∧ c ≤ 0x7e ∧ c ≠ 0x2f := by
    simp only [HttpText.pwHttpHostOk, Bool.and_eq_true, List.all_eq_true, visible_iff,
      Bool.not_eq_true', List.isEmpty_eq_false_iff]
  rw [hbytes]
  constructor
  · rintro ⟨hne, hall⟩
    refine ⟨⟨hne, fun c hc => ?_⟩, fun hmem => (hall _ hmem).2.2.2 rfl⟩
    obtain ⟨hlow, hhigh, hslash, -⟩ := hall c hc
    exact ⟨hlow, hhigh, hslash⟩
  · rintro ⟨⟨hne, hall⟩, hcolon⟩
    refine ⟨hne, fun c hc => ?_⟩
    obtain ⟨hlow, hhigh, hslash⟩ := hall c hc
    exact ⟨hlow, hhigh, hslash, ne_of_mem_of_not_mem hc hcolon⟩

theorem portLoop_eq_some_iff (s : Bytes) (value n : ℕ) (hvalue : value ≤ 65535) :
    portLoop value s = some n ↔
      (∀ c ∈ s, 0x30 ≤ c ∧ c ≤ 0x39) ∧ digitsValue value s = n ∧ n ≤ 65535 := by
  induction s generalizing value with
  | nil =>
    constructor
    · intro h
      obtain rfl := Option.some.inj h
      exact ⟨by simp, rfl, hvalue⟩
    · rintro ⟨-, rfl, -⟩
      rfl
  | cons c s ih =>
    rw [portLoop, digitsValue_cons, List.forall_mem_cons]
    by_cases hdigit : c < 0x30 ∨ 0x39 < c
    · rw [if_pos hdigit]
      refine ⟨fun h => absurd h (by simp), ?_⟩
      rintro ⟨⟨⟨hlow, hhigh⟩, -⟩, -⟩
      exact absurd hdigit (not_or.mpr ⟨UInt8.not_lt.mpr hlow, UInt8.not_lt.mpr hhigh⟩)
    · obtain ⟨hlow, hhigh⟩ := not_or.mp hdigit
      rw [if_neg hdigit]
      dsimp only
      by_cases hbig : 65535 < value * 10 + (c.toNat - 0x30)
      · rw [if_pos hbig]
        refine ⟨fun h => absurd h (by simp), ?_⟩
        rintro ⟨-, rfl, hn⟩
        have := le_digitsValue s (value * 10 + (c.toNat - 0x30))
        omega
      · rw [if_neg hbig, ih _ (Nat.le_of_not_lt hbig)]
        simp only [UInt8.not_lt.mp hlow, UInt8.not_lt.mp hhigh, true_and]

theorem parsePort_eq_some_iff (s : Bytes) (port : ℕ) :
    HttpText.pwHttpParsePort s = some port ↔
      IsDigits s ∧ digitsValue 0 s = port ∧ 1 ≤ port ∧ port ≤ 65535 := by
  have hport : HttpText.pwHttpParsePort s = some port ↔
      s ≠ [] ∧ portLoop 0 s = some port ∧ port ≠ 0 := by
    unfold HttpText.pwHttpParsePort
    cases s with
    | nil => simp
    | cons c s =>
      rw [if_neg (by simp)]
      cases portLoop 0 (c :: s) with
      | none => simp
      | some value =>
        by_cases hzero : value = 0
        · simp only [hzero, if_true, reduceCtorEq, Option.some.injEq, false_iff]
          rintro ⟨-, rfl, hne⟩
          exact hne rfl
        · simp only [if_neg hzero, Option.some.injEq, ne_eq, reduceCtorEq, not_false_eq_true,
            true_and]
          exact ⟨fun h => ⟨h, h ▸ hzero⟩, fun h => h.1⟩
  rw [hport, portLoop_eq_some_iff s 0 port (by omega), IsDigits, ← Nat.one_le_iff_ne_zero]
  tauto

theorem parseUpstream_text (s host : Bytes) (port : ℕ)
    (h : HttpText.pwHttpParseUpstream s 256 = some (host, port)) : UpstreamText s host port := by
  obtain ⟨-, ⟨hcolon, hok⟩, htext⟩ := pwHttpParseUpstream_cases h
  refine ⟨(hostName_iff host).mpr ⟨hok, hcolon⟩, ?_⟩
  rcases htext with ⟨rfl, rfl⟩ | ⟨digits, rfl, hport⟩
  · exact Or.inl ⟨rfl, rfl⟩
  · exact Or.inr ⟨digits, rfl, (parsePort_eq_some_iff digits port).mp hport⟩

/-- Bytes from `!` on end no line. -/
theorem hasLineCtl_eq_false {s : Bytes} (h : ∀ c ∈ s, 0x21 ≤ c) :
    HttpText.pwHttpHasLineCtl s = false := by
  rw [HttpText.pwHttpHasLineCtl, List.any_eq_false]
  intro c hc hctl
  have hlow := h c hc
  simp only [Bool.or_eq_true, beq_iff_eq] at hctl
  rcases hctl with (rfl | rfl) | rfl <;> exact absurd hlow (by decide)

theorem parseUpstream_of_text (s host : Bytes) (port : ℕ) (hlen : s.length ≤ 255)
    (h : UpstreamText s host port) : HttpText.pwHttpParseUpstream s 256 = some (host, port) := by
  obtain ⟨hname, htext⟩ := h
  have hvisible (c : UInt8) (hc : c ∈ host) : 0x21 ≤ c := (hname.2 c hc).1
  have hpos : 0 < host.length := List.length_pos_iff.mpr hname.1
  obtain ⟨hok, hcolon⟩ := (hostName_iff host).mp hname
  unfold HttpText.pwHttpParseUpstream
  rcases htext with ⟨rfl, rfl⟩ | ⟨digits, rfl, hdigits, hport⟩
  · rw [if_neg (by omega), hasLineCtl_eq_false hvisible, if_neg Bool.false_ne_true,
      List.idxOf?_eq_none_iff.mpr hcolon, hok]
    rfl
  · have hctl : HttpText.pwHttpHasLineCtl (host ++ 0x3a :: digits) = false := by
      refine hasLineCtl_eq_false fun c hc => ?_
      rcases List.mem_append.mp hc with hc | hc
      · exact hvisible c hc
      · rcases List.mem_cons.mp hc with rfl | hc
        · decide
        · exact UInt8.le_trans (by decide) (hdigits.2 c hc).1
    have hdrop : (host ++ 0x3a :: digits).drop (host.length + 1) = digits := by
      rw [← List.drop_drop, List.drop_left, List.drop_one, List.tail_cons]
    have hfits : ¬ (host.length = 0 ∨ 256 ≤ host.length) := by
      rw [List.length_append] at hlen
      omega
    rw [if_neg (by rw [List.length_append] at *; omega), hctl, if_neg Bool.false_ne_true,
      idxOf?_append_cons hcolon]
    dsimp only
    rw [if_neg hfits, List.take_left, hok, hdrop,
      (parsePort_eq_some_iff digits port).mpr ⟨hdigits, hport⟩]
    rfl

/-- The upstream scanner ends without a sum that wraps around, and accepts exactly a
host, alone or with a port; the port is 80 if there is none. -/
theorem parseUpstream_scans (s : Bytes) (hlen : s.length ≤ 255) :
    ∃ r, pwHttpParseUpstream s 256 = some r ∧ r ≠ .wrapped ∧
      ∀ host port, r = .accepted (host, port) ↔ UpstreamText s host port := by
  refine ⟨_, pwHttpParseUpstream_eq s 256, Scan.ofOption_ne_wrapped _, fun host port => ?_⟩
  rw [Scan.ofOption_eq_accepted_iff]
  exact ⟨parseUpstream_text s host port, parseUpstream_of_text s host port hlen⟩

theorem cacheUpstream_scans :
    pwHttpParseUpstream (ascii "cache:0080") 256 = some (.accepted (ascii "cache", 80)) ∧
    ∃ r, pwHttpParseUpstream (ascii "cache:0080") 256 = some r ∧ r ≠ .wrapped ∧
      ∀ host port, r = .accepted (host, port) ↔ UpstreamText (ascii "cache:0080") host port :=
  ⟨by decide +kernel, parseUpstream_scans _ (by decide +kernel)⟩

end Upstreams

section Tokens

/-- `strncasecmp(a, b, n) == 0`; the comparison ends at a NUL. -/
def strncasecmpEq : ℕ → Bytes → Bytes → Bool
  | 0, _, _ => true
  | n + 1, x :: xs, y :: ys => toLower x == toLower y && (x == 0 || strncasecmpEq n xs ys)
  | _ + 1, _, _ => false

/-- One turn of the outer loop of `pw_http_value_has_token`, with the three inner ones. -/
def tokenTurn (value token : Bytes) (i : ℕ) : Option (ℕ ⊕ Bool) :=
  if i < value.length then
    (skip value (fun c => isBlank c || c == 0x2c) i).bind fun start =>
      (skip value (· != 0x2c) start).bind fun i =>
        (trimEnd value isBlank start i).map fun stop =>
          if stop - start = token.length ∧ strncasecmpEq token.length (value.drop start) token then
            .inr true
          else .inl i
  else some (.inr false)

def pwHttpValueHasToken (value : Bytes) (token : CString) : Option Bool :=
  loop (tokenTurn value token.1) (value.length + 1) 0

theorem strncasecmpEq_eq (a b : Bytes) (hb : 0 ∉ b) (hlen : b.length ≤ a.length) :
    strncasecmpEq b.length a b = caseEq (a.take b.length) b := by
  induction b generalizing a with
  | nil => rfl
  | cons y b ih =>
    cases a with
    | nil => simp at hlen
    | cons x a =>
      rw [List.mem_cons, not_or] at hb
      have hrest := ih a hb.2 (Nat.le_of_succ_le_succ hlen)
      have hzero : toLower x = toLower y → x ≠ 0 := by
        rintro heq rfl
        exact hb.1 ((toLower_eq_iff (by decide)).mp heq.symm).symm
      rw [List.length_cons, strncasecmpEq, hrest, List.take_succ_cons]
      simp only [caseEq, List.map_cons, List.cons_beq_cons]
      by_cases heq : toLower x = toLower y
      · simp [heq, hzero heq]
      · rw [beq_false_of_ne heq, Bool.false_and, Bool.false_and]

/-- An element at the front of what is left, compared byte by byte. -/
theorem compare_iff {trimmed rest token : Bytes} (htoken : 0 ∉ token) (hpre : trimmed <+: rest) :
    (trimmed.length = token.length ∧ strncasecmpEq token.length rest token = true) ↔
      caseEq trimmed token = true := by
  have hcompare (hlen : trimmed.length = token.length) :
      strncasecmpEq token.length rest token = caseEq trimmed token := by
    rw [strncasecmpEq_eq rest token htoken (hlen ▸ hpre.length_le), ← hlen,
      ← List.prefix_iff_eq_take.mp hpre]
  constructor
  · rintro ⟨hlen, heq⟩
    rwa [hcompare hlen] at heq
  · intro heq
    have hlen := caseEq_length _ _ heq
    exact ⟨hlen, (hcompare hlen).trans heq⟩

/-- Where the loops of a turn leave off, in terms of what is left of the value. -/
theorem tokenTurn_eq (value token : Bytes) (htoken : 0 ∉ token) (i : ℕ) (hi : i < value.length)
    (rest : Bytes) (hrest : (value.drop i).dropWhile (fun c => isBlank c || c == 0x2c) = rest) :
    ∃ j, j ≤ value.length ∧ value.drop j = rest.dropWhile (· != 0x2c) ∧ tokenTurn value token i =
      some (if caseEq (trimBlanks (rest.takeWhile (· != 0x2c))) token then .inr true
        else .inl j) := by
  obtain ⟨start, hstart⟩ : ∃ start, start =
      i + ((value.drop i).takeWhile fun c => isBlank c || c == 0x2c).length := ⟨_, rfl⟩
  have hdrop : value.drop start = rest := by rw [hstart, drop_skip, hrest]
  obtain ⟨element, helement⟩ : ∃ element, element = rest.takeWhile (· != 0x2c) := ⟨_, rfl⟩
  have hpre : element <+: rest := helement ▸ List.takeWhile_prefix _
  have hbound : start ≤ value.length := by
    have hle := (List.takeWhile_prefix (l := value.drop i)
      fun c => isBlank c || c == 0x2c).length_le
    rw [List.length_drop] at hle
    omega
  have hle := hpre.length_le
  rw [← hdrop, List.length_drop] at hle
  have htrim : (element.rdropWhile isBlank) = trimBlanks element := by
    rw [helement]
    exact trim_element (value.drop i) rest hrest
  refine ⟨start + element.length, by omega, ?_, ?_⟩
  · rw [helement, ← hdrop, drop_skip]
  · rw [tokenTurn, if_pos hi, skip_eq, Option.bind_some, ← hstart, skip_eq, Option.bind_some, hdrop,
      ← helement, trimEnd_eq _ _ _ _ (Nat.le_add_right ..) (by omega), hdrop,
      Nat.add_sub_cancel_left, ← List.prefix_iff_eq_take.mp hpre, htrim, Option.map_some,
      Nat.add_sub_cancel_left]
    have hfront : trimBlanks element <+: rest := by
      rw [← htrim]
      exact (List.rdropWhile_prefix isBlank element).trans hpre
    simp only [compare_iff htoken hfront]

theorem tokenTurn_keeps (value token : Bytes) (htoken : 0 ∉ token) (hne : token ≠ []) (i : ℕ)
    (hi : i ≤ value.length) :
    Keeps (· ≤ value.length) (fun i => value.length - i)
      (fun i => decide (ListsToken (value.drop i) token)) i (tokenTurn value token i) := by
  unfold Keeps
  dsimp only
  rcases Nat.lt_or_ge i value.length with hlt | hge
  · obtain ⟨rest, hrest⟩ : ∃ rest,
        (value.drop i).dropWhile (fun c => isBlank c || c == 0x2c) = rest := ⟨_, rfl⟩
    obtain ⟨j, hj, hdrop, hturn⟩ := tokenTurn_eq value token htoken i hlt rest hrest
    have hlists := listsToken_turn token hne (value.drop i) rest hrest
    rw [hturn]
    by_cases hfound : caseEq (trimBlanks (rest.takeWhile (· != 0x2c))) token = true
    · refine Or.inl ?_
      rw [if_pos hfound, decide_eq_true (hlists.mpr (Or.inl hfound))]
    · rw [if_neg hfound]
      refine Or.inr ⟨j, rfl, hj, ?_, ?_⟩
      · -- the two inner loops together have moved on
        have hshort := element_shortens (value.drop i) rest (by simp; omega) hrest
        rw [← hdrop, List.length_drop, List.length_drop] at hshort
        exact hshort
      · rw [hdrop]
        exact decide_eq_decide.mpr (hlists.trans (or_iff_right hfound)).symm
  · refine Or.inl ?_
    rw [tokenTurn, if_neg (by omega), List.drop_eq_nil_of_le hge,
      decide_eq_false (not_listsToken_nil token hne)]

theorem pwHttpValueHasToken_eq (value : Bytes) (token : CString) (hne : token.1 ≠ []) :
    pwHttpValueHasToken value token = some (HttpText.pwHttpValueHasToken value token.1) := by
  rw [pwHttpValueHasToken, loop_eq (tokenTurn_keeps value token.1 token.2 hne) _ _ (Nat.zero_le _)
    (by omega)]
  have hlist := tokenLoop_iff token.1 hne (value.length + 1) value (by omega)
  rw [List.drop_zero, HttpText.pwHttpValueHasToken, Option.some.injEq, ← Bool.coe_iff_coe,
    decide_eq_true_iff, hlist]

/-- The token scan ends, and finds exactly the tokens that the value lists. -/
theorem valueHasToken_scans (value : Bytes) (token : CString) (hne : token.1 ≠ []) :
    ∃ found, pwHttpValueHasToken value token = some found ∧
      (found = true ↔ ∃ element ∈ value.splitOn 0x2c, caseEq (trimBlanks element) token.1 = true) := by
  refine ⟨_, pwHttpValueHasToken_eq value token hne, ?_⟩
  exact tokenLoop_iff token.1 hne (value.length + 1) value (by omega)

def chunkedToken : CString := ⟨ascii "chunked", by decide +kernel⟩

theorem chunkedToken_scans :
    pwHttpValueHasToken (ascii "gzip,, \tChunked \t,") chunkedToken = some true ∧
    ∃ found, pwHttpValueHasToken (ascii "gzip,, \tChunked \t,") chunkedToken = some found ∧
      (found = true ↔ ∃ element ∈ (ascii "gzip,, \tChunked \t,").splitOn 0x2c,
        caseEq (trimBlanks element) chunkedToken.1 = true) :=
  ⟨by decide +kernel, valueHasToken_scans _ chunkedToken (by decide +kernel)⟩

end Tokens

end VmodWasm.TextScanners
