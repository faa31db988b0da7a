import VmodWasm.ByteStrings

/-!
The text checks and parsers of proxy_wasm_http.c: what may stand in a host,
a method, a path or a header, how an upstream name is split into host and
port, and how a response header is found. A parser returns `none` where the
source returns -1 (or 0, for a header that is not found).
-/
namespace VmodWasm.HttpText

open ByteStrings

/-- The punctuation of an HTTP token: `!#$%&'*+-.^_` with backtick, bar, tilde. -/
def tokenPunct : Bytes :=
  [0x21, 0x23, 0x24, 0x25, 0x26, 0x27, 0x2a, 0x2b, 0x2d, 0x2e, 0x5e, 0x5f, 0x60, 0x7c, 0x7e]

def pwHttpIsTokenChar (c : UInt8) : Bool :=
  (0x30 ≤ c && c ≤ 0x39) || (0x41 ≤ c && c ≤ 0x5a) || (0x61 ≤ c && c ≤ 0x7a) ||
    tokenPunct.contains c

def pwHttpHasLineCtl (s : Bytes) : Bool :=
  s.any fun c => c == 0x00 || c == 0x0d || c == 0x0a

def pwHttpHostOk (s : Bytes) : Bool :=
  !s.isEmpty && s.all fun c => !(c ≤ 0x20 || 0x7f ≤ c || c == 0x2f)

def pwHttpMethodOk (s : Bytes) : Bool :=
  !s.isEmpty && s.all pwHttpIsTokenChar

def pwHttpPathOk (s : Bytes) : Bool :=
  !s.isEmpty && s.all fun c => !(c ≤ 0x20 || 0x7f ≤ c)

def pwHttpHeaderNameOk (s : Bytes) : Bool :=
  !s.isEmpty && s.all pwHttpIsTokenChar

def pwHttpHeaderValueOk (s : Bytes) : Bool :=
  s.all fun c => !(c == 0x00 || c == 0x0d || c == 0x0a || c == 0x7f) &&
    !(c < 0x20 && c != 0x09)

def intMax : ℕ := 2 ^ 31 - 1

/-- `pw_http_append_header` into a buffer of `dstSz` bytes already holding `dst`. -/
def pwHttpAppendHeader (dst : Bytes) (dstSz : ℕ) (key value : Bytes) : Option Bytes :=
  if !pwHttpHeaderNameOk key || !pwHttpHeaderValueOk value then none
  else if intMax < key.length ∨ intMax < value.length then none
  else if dstSz ≤ dst.length then none
  else
    let line := key ++ ascii ": " ++ value ++ crlf
    if dstSz - dst.length ≤ line.length then none else some (dst ++ line)

/-- The digit loop of `pw_http_parse_port`, which gives up past 65535. -/
def portLoop (value : ℕ) : Bytes → Option ℕ
  | [] => some value
  | c :: cs =>
    if c < 0x30 ∨ 0x39 < c then none
    else
      let value' := value * 10 + (c.toNat - 0x30)
      if 65535 < value' then none else portLoop value' cs

def pwHttpParsePort (s : Bytes) : Option ℕ :=
  if s.isEmpty then none
  else
    match portLoop 0 s with
    | none => none
    | some value => if value = 0 then none else some value

/-- `pw_http_parse_upstream` with a host buffer of `hostSz` bytes. -/
def pwHttpParseUpstream (upstream : Bytes) (hostSz : ℕ) : Option (Bytes × ℕ) :=
  if upstream.length = 0 ∨ hostSz ≤ upstream.length then none
  else if pwHttpHasLineCtl upstream then none
  else
    match upstream.idxOf? 0x3a with
    | some hlen =>
      if hlen = 0 ∨ hostSz ≤ hlen then none
      else if !pwHttpHostOk (upstream.take hlen) then none
      else
        match pwHttpParsePort (upstream.drop (hlen + 1)) with
        | none => none
        | some port => some (upstream.take hlen, port)
    | none =>
      if !pwHttpHostOk upstream then none else some (upstream, 80)

def sizeMax : ℕ := 2 ^ 64 - 1

/-- The digit loop of `pw_http_parse_size`; blanks may only close the value. -/
def sizeLoop (value : ℕ) (digits : Bool) : Bytes → Option ℕ
  | [] => if digits then some value else none
  | c :: cs =>
    if isBlank c then
      if (c :: cs).all isBlank then (if digits then some value else none) else none
    else if c < 0x30 ∨ 0x39 < c then none
    else if (sizeMax - (c.toNat - 0x30)) / 10 < value then none
    else sizeLoop (value * 10 + (c.toNat - 0x30)) true cs

def pwHttpParseSize (s : Bytes) : Option ℕ := sizeLoop 0 false (s.dropWhile isBlank)

/-- Drop blanks at both ends. -/
def trimBlanks (s : Bytes) : Bytes :=
  ((s.dropWhile isBlank).reverse.dropWhile isBlank).reverse

/-- The line loop of `pw_http_find_header_value`, at offset `p` of the buffer.
Every turn consumes at least two bytes, so the buffer's length is enough fuel. -/
def findHeaderLoop (buf : Bytes) (stop : ℕ) (name : Bytes) : ℕ → ℕ → Option Bytes
  | 0, _ => none
  | fuel + 1, p =>
    if stop ≤ p then none
    else
      match strstr (buf.drop p) crlf with
      | none => none
      | some len =>
        if stop < p + len ∨ len = 0 then none
        else
          let line := (buf.drop p).take len
          match line.idxOf? 0x3a with
          | some colon =>
            if colon = name.length ∧ caseEq (line.take colon) name then
              some (trimBlanks (line.drop (colon + 1)))
            else findHeaderLoop buf stop name fuel (p + len + 2)
          | none => findHeaderLoop buf stop name fuel (p + len + 2)

/-- `pw_http_find_header_value`: skip the status line, then look for the name. -/
def pwHttpFindHeaderValue (buf : Bytes) (headersLen : ℕ) (name : Bytes) : Option Bytes :=
  match strstr buf crlf with
  | none => none
  | some len =>
    if headersLen < len then none
    else findHeaderLoop buf headersLen name buf.length (len + 2)

/-- The element loop of `pw_http_value_has_token`. Every turn that finds an
element consumes a byte, so the value's length is enough fuel. -/
def tokenLoop (token : Bytes) : ℕ → Bytes → Bool
  | 0, _ => false
  | fuel + 1, value =>
    if value.isEmpty then false
    else
      let rest := value.dropWhile fun c => isBlank c || c == 0x2c
      let element := rest.takeWhile (· != 0x2c)
      let trimmed := (element.reverse.dropWhile isBlank).reverse
      if trimmed.length = token.length ∧ caseEq trimmed token then true
      else tokenLoop token fuel (rest.dropWhile (· != 0x2c))

def pwHttpValueHasToken (value token : Bytes) : Bool :=
  tokenLoop token (value.length + 1) value

/-- A port that parses is a port number. -/
theorem portLoop_le (s : Bytes) (value port : ℕ) (hv : value ≤ 65535)
    (h : portLoop value s = some port) : port ≤ 65535 := by
  induction s generalizing value with
  | nil => exact Option.some.inj h ▸ hv
  | cons c cs ih =>
    simp only [portLoop] at h
    split at h
    · contradiction
    · split at h
      · contradiction
      · exact ih _ (by omega) h

theorem pwHttpParsePort_le (s : Bytes) (port : ℕ) (h : pwHttpParsePort s = some port) :
    port ≤ 65535 := by
  unfold pwHttpParsePort at h
  split at h
  · contradiction
  · split at h
    · contradiction
    · rename_i value hloop
      split at h
      · contradiction
      · exact Option.some.inj h ▸ portLoop_le s 0 value (by omega) hloop

theorem idxOf?_append_cons {l rest : Bytes} {c : UInt8} (h : c ∉ l) :
    (l ++ c :: rest).idxOf? c = some l.length := by
  refine List.idxOf?_eq_some_iff.mpr ⟨by simp, by simp, fun j hj heq => h ?_⟩
  rw [List.getElem_append_left hj] at heq
  exact heq ▸ List.getElem_mem hj

/-- A byte that is found splits the text at its first place. -/
theorem idxOf?_split {l : Bytes} {c : UInt8} {n : ℕ} (h : l.idxOf? c = some n) :
    l = l.take n ++ c :: l.drop (n + 1) ∧ c ∉ l.take n := by
  obtain ⟨hlt, hget, hbefore⟩ := List.idxOf?_eq_some_iff.mp h
  constructor
  · conv_lhs => rw [← List.take_append_drop n l, List.drop_eq_getElem_cons hlt, hget]
  · intro hmem
    obtain ⟨i, hi, hc⟩ := List.getElem_of_mem hmem
    rw [List.getElem_take] at hc
    rw [List.length_take] at hi
    exact hbefore i (by omega) hc

/-- An accepted upstream is a host, alone or with a port behind a colon. -/
theorem pwHttpParseUpstream_cases {upstream host : Bytes} {hostSz port : ℕ}
    (h : pwHttpParseUpstream upstream hostSz = some (host, port)) :
    (0 < upstream.length ∧ upstream.length < hostSz) ∧
    (0x3a ∉ host ∧ pwHttpHostOk host = true) ∧
    ((upstream = host ∧ port = 80) ∨
      ∃ digits, upstream = host ++ 0x3a :: digits ∧ pwHttpParsePort digits = some port) := by
  unfold pwHttpParseUpstream at h
  split at h
  · contradiction
  refine ⟨by omega, ?_⟩
  split at h
  · contradiction
  split at h
  next hlen hidx =>
    split at h
    · contradiction
    split at h
    · contradiction
    next hok =>
      split at h
      · contradiction
      next value hport =>
        obtain ⟨rfl, rfl⟩ := Prod.mk.inj (Option.some.inj h)
        obtain ⟨hsplit, hcolon⟩ := idxOf?_split hidx
        exact ⟨⟨hcolon, by simpa using hok⟩, Or.inr ⟨_, hsplit, hport⟩⟩
  next hidx =>
    split at h
    · contradiction
    next hok =>
      obtain ⟨rfl, rfl⟩ := Prod.mk.inj (Option.some.inj h)
      exact ⟨⟨List.idxOf?_eq_none_iff.mp hidx, by simpa using hok⟩, Or.inl ⟨rfl, rfl⟩⟩

/-- The host buffer is never overrun and the port fits in 16 bits. -/
theorem pwHttpParseUpstream_bounds (upstream host : Bytes) (hostSz port : ℕ)
    (h : pwHttpParseUpstream upstream hostSz = some (host, port)) :
    host.length < hostSz ∧ port ≤ 65535 := by
  obtain ⟨⟨-, hlen⟩, -, ⟨rfl, rfl⟩ | ⟨digits, rfl, hport⟩⟩ := pwHttpParseUpstream_cases h
  · exact ⟨hlen, by omega⟩
  · rw [List.length_append] at hlen
    exact ⟨by omega, pwHttpParsePort_le digits port hport⟩

/-- An accepted host has no colon and passes the host check. -/
theorem pwHttpParseUpstream_host (upstream host : Bytes) (hostSz port : ℕ)
    (h : pwHttpParseUpstream upstream hostSz = some (host, port)) :
    0x3a ∉ host ∧ pwHttpHostOk host = true :=
  (pwHttpParseUpstream_cases h).2.1

/-- The colon ends the host. -/
theorem hostPort_inj (host host' : Bytes) (port port' : ℕ) (hcolon : 0x3a ∉ host)
    (hcolon' : 0x3a ∉ host') (h : host ++ 0x3a :: decimal port = host' ++ 0x3a :: decimal port') :
    host = host' ∧ port = port' := by
  have hsplit (host : Bytes) (port : ℕ) (hcolon : 0x3a ∉ host) :
      (host ++ 0x3a :: decimal port).takeWhile (· ≠ 0x3a) = host := by
    rw [List.takeWhile_append_of_pos]
    · simp
    · intro c hc
      simpa using ne_of_mem_of_not_mem hc hcolon
  have hhost : host = host' := by rw [← hsplit host port hcolon, h, hsplit host' port' hcolon']
  rw [hhost, List.append_cancel_left_eq, List.cons.injEq] at h
  exact ⟨hhost, decimal_injective h.2⟩

end VmodWasm.HttpText
