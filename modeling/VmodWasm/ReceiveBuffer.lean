import VmodWasm.ResponseReading

/-!
The receive buffer of `pw_proxy_http_call`: an allocation of 256 KiB and one
byte with arbitrary contents, written through `response_buf + response_len`.
Every store here is checked against the allocation and every subtraction
against its operands, so that a run without `none` is a run without an
underflow or an access outside the buffer. The reading of HttpCall is what such
a run leaves in the buffer, and with it a response framed by Content-Length is
stored byte for byte.
-/
namespace VmodWasm.ReceiveBuffer

open ByteStrings ByteSearch HttpText HeaderFields ProxyContext GuestMemory HttpCall ResponseReading
open Lib.KeyedList

/-- A subtraction of `size_t` values that must not wrap. -/
def checkedSub (a b : ℕ) : Option ℕ := if b ≤ a then some (a - b) else none

/-- Overwrite bytes of the allocation. -/
def storeAt (buffer : Bytes) (off : ℕ) (bytes : Bytes) : Option Bytes :=
  if off + bytes.length ≤ buffer.length then
    some (buffer.take off ++ bytes ++ buffer.drop (off + bytes.length))
  else none

/-- The allocation, `response_len`, and what the socket still holds. -/
structure Receiver where
  buffer : Bytes
  len : ℕ
  unread : Bytes

/-- The bytes of a successful read go behind the data and a NUL behind them. -/
def Receiver.append (s : Receiver) (got : Bytes) : Option Receiver :=
  match storeAt s.buffer s.len got with
  | none => none
  | some buffer =>
    let len := s.len + got.length
    if maxResponse < len then none
    else
      match storeAt buffer len [0] with
      | none => none
      | some buffer => some ⟨buffer, len, s.unread.drop got.length⟩

/-- Phase 1 on the buffer. -/
def recvHead : List ℕ → Receiver → Option (Receiver × Option ℕ × List ℕ)
  | [], s => some (s, none, [])
  | k :: ks, s =>
    if maxResponse ≤ s.len then some (s, none, k :: ks)
    else
      match checkedSub maxResponse s.len with
      | none => none
      | some want =>
        let got := s.unread.take (min k want)
        if got = [] then some (s, none, ks)
        else
          match s.append got with
          | none => none
          | some s =>
            match strstr s.buffer (crlf ++ crlf) with
            | some i => some (s, some i, ks)
            | none => recvHead ks s

/-- Phase 2 on the buffer. -/
def recvBody : List ℕ → Receiver → ℕ → Option (Receiver × ℕ)
  | _, s, 0 => some (s, 0)
  | [], s, need + 1 => some (s, need + 1)
  | k :: ks, s, need + 1 =>
    match checkedSub maxResponse s.len with
    | none => none
    | some room =>
      if room = 0 then some (s, need + 1)
      else
        let got := s.unread.take (min k (min (need + 1) room))
        if got = [] then some (s, need + 1)
        else
          match s.append got, checkedSub (need + 1) got.length with
          | some s, some need => recvBody ks s need
          | _, _ => none

structure Received where
  state : Receiver
  complete : Bool
  reusable : Bool
  status : ProxyStatus

/-- A header lookup that asks for a token in the value it finds. -/
def headerLists (buffer : Bytes) (headerBytes : ℕ) (name token : Bytes) : Bool :=
  match pwHttpFindHeaderValue buffer headerBytes name with
  | some value => pwHttpValueHasToken value token
  | none => false

/-- The body of a response that gives its length, on the buffer. -/
def recvCounted (s : Receiver) (headerBytes contentLength : ℕ) (sizes : List ℕ) (reuse : Bool) :
    Option Received :=
  match checkedSub maxResponse headerBytes, checkedSub s.len headerBytes with
  | some most, some bodyHave =>
    if most < contentLength then some ⟨s, false, false, .internal⟩
    else if contentLength < bodyHave then
      match storeAt s.buffer (headerBytes + contentLength) [0] with
      | none => none
      | some buffer => some ⟨⟨buffer, headerBytes + contentLength, s.unread⟩, true, false, .ok⟩
    else
      match checkedSub contentLength bodyHave with
      | none => none
      | some bodyNeed =>
        match recvBody sizes s bodyNeed with
        | none => none
        | some (s, missing) =>
          if missing = 0 then some ⟨s, true, reuse, .ok⟩ else some ⟨s, false, false, .internal⟩
  | _, _ => none

/-- The reading of the response, on a buffer as `malloc` returns it. -/
def receive (env : CallEnv) (exempt : Bool) (buffer : Bytes) : Option Received :=
  match recvHead env.sizes ⟨buffer, 0, env.stream⟩ with
  | none => none
  | some (s, none, _) => some ⟨s, false, false, .parseFailure⟩
  | some (s, some i, sizes) =>
    let headerBytes := i + 4
    let http11 := decide (8 ≤ s.len) && (ascii "HTTP/1.1").isPrefixOf s.buffer
    if headerLists s.buffer headerBytes (ascii "Transfer-Encoding") (ascii "chunked") then
      some ⟨s, false, false, .unimplemented⟩
    else
      let connClose := headerLists s.buffer headerBytes (ascii "Connection") (ascii "close")
      match pwHttpFindHeaderValue s.buffer headerBytes (ascii "Content-Length") with
      | some value =>
        match pwHttpParseSize value with
        | none => some ⟨s, false, false, .parseFailure⟩
        | some contentLength =>
          recvCounted s headerBytes contentLength sizes (http11 && !connClose && exempt)
      | none =>
        if s.len = headerBytes then some ⟨s, true, false, .ok⟩
        else some ⟨s, false, false, .parseFailure⟩

theorem checkedSub_of_le {a b : ℕ} (h : b ≤ a) : checkedSub a b = some (a - b) := by
  rw [checkedSub, if_pos h]

theorem storeAt_append (data rest bytes : Bytes) (h : bytes.length ≤ rest.length) :
    storeAt (data ++ rest) data.length bytes =
      some (data ++ bytes ++ rest.drop bytes.length) := by
  rw [storeAt, if_pos (by rw [List.length_append]; omega), List.take_left,
    List.drop_length_add_append]

/-- A store behind `off` bytes leaves them as they are. -/
theorem storeAt_keeps (buffer bytes : Bytes) (off : ℕ) (h : off + bytes.length ≤ buffer.length) :
    ∃ buffer', storeAt buffer off bytes = some buffer' ∧ buffer'.take off = buffer.take off := by
  refine ⟨_, if_pos h, ?_⟩
  rw [List.append_assoc, List.take_append_of_le_length (by rw [List.length_take]; omega),
    List.take_take, Nat.min_self]

/-- The buffer holds these bytes and the socket those. -/
structure Holds (s : Receiver) (buf stream : Bytes) : Prop where
  data : ∃ rest, s.buffer = buf ++ rest
  size : s.buffer.length = maxResponse + 1
  len : s.len = buf.length
  unread : s.unread = stream
  bound : buf.length ≤ maxResponse

/-- The data is followed by a NUL. -/
def Terminated (s : Receiver) (buf : Bytes) : Prop := ∃ rest, s.buffer = buf ++ 0 :: rest

theorem append_holds (s : Receiver) (buf stream got : Bytes) (h : Holds s buf stream)
    (hfits : buf.length + got.length ≤ maxResponse) :
    ∃ s', s.append got = some s' ∧ Holds s' (buf ++ got) (stream.drop got.length) ∧
      Terminated s' (buf ++ got) := by
  obtain ⟨rest, hdata⟩ := h.data
  have hsize := h.size
  rw [hdata, List.length_append] at hsize
  have hgot : storeAt s.buffer s.len got = some (buf ++ got ++ rest.drop got.length) := by
    rw [hdata, h.len]
    exact storeAt_append buf rest got (by omega)
  obtain ⟨c, tail, htail⟩ := List.exists_cons_of_length_pos
    (show 0 < (rest.drop got.length).length by rw [List.length_drop]; omega)
  have hnul : storeAt (buf ++ got ++ rest.drop got.length) (s.len + got.length) [0] =
      some (buf ++ got ++ [0] ++ tail) := by
    rw [h.len, ← List.length_append, htail]
    exact storeAt_append (buf ++ got) (c :: tail) [0] (by simp)
  have htaillen := congrArg List.length htail
  rw [List.length_drop, List.length_cons] at htaillen
  refine ⟨⟨buf ++ got ++ [0] ++ tail, s.len + got.length, s.unread.drop got.length⟩, ?_,
    ⟨⟨[0] ++ tail, by simp only [List.append_assoc]⟩, ?_, ?_, ?_, ?_⟩, ⟨tail, by simp⟩⟩
  · rw [Receiver.append, hgot]
    dsimp only
    rw [if_neg (by rw [h.len]; omega), hnul]
  · simp only [List.length_append, List.length_singleton]
    omega
  · rw [List.length_append, h.len]
  · rw [h.unread]
  · rw [List.length_append]
    exact hfits

theorem Terminated.strstr {s : Receiver} {buf : Bytes} (h : Terminated s buf) (pat : Bytes) :
    strstr s.buffer pat = strstr buf pat := by
  obtain ⟨rest, hrest⟩ := h
  rw [ByteStrings.strstr, hrest, cstr_append_nul, ByteStrings.strstr]

theorem Terminated.lookup {s : Receiver} {buf : Bytes} (h : Terminated s buf) (name : Bytes)
    (i : ℕ) (hend : ByteStrings.strstr buf (crlf ++ crlf) = some i) :
    pwHttpFindHeaderValue s.buffer (i + 4) name =
      (valuesOf name (headerFields (buf.take i))).head? := by
  have hle := (strstr_split buf _ i (by simp [crlf]) hend)
  rw [pwHttpFindHeaderValue_eq s.buffer name i (by rw [h.strstr, hend])]
  obtain ⟨rest, hrest⟩ := h
  obtain ⟨_, _, _, hi⟩ := hle
  rw [List.length_take] at hi
  rw [hrest, List.take_append_of_le_length (by omega)]

/-- Phase 1 on the buffer is phase 1 on lists, and never leaves the buffer. -/
theorem recvHead_holds (sizes : List ℕ) (stream buf : Bytes) (s : Receiver)
    (h : Holds s buf stream) :
    ∃ s', recvHead sizes s =
        some (s', (readHead sizes stream buf).2.1, (readHead sizes stream buf).2.2.1) ∧
      Holds s' (readHead sizes stream buf).1 (readHead sizes stream buf).2.2.2 ∧
      ((readHead sizes stream buf).2.1 ≠ none → Terminated s' (readHead sizes stream buf).1) := by
  fun_induction readHead sizes stream buf generalizing s with
  | case1 stream buf => exact ⟨s, rfl, h, fun hne => absurd rfl hne⟩
  | case2 k ks stream buf hfull =>
    refine ⟨s, ?_, h, fun hne => absurd rfl hne⟩
    rw [recvHead, if_pos (by rw [h.len]; exact hfull)]
  | case3 k ks stream buf hfull got hgot =>
    refine ⟨s, ?_, h, fun hne => absurd rfl hne⟩
    rw [recvHead, if_neg (by rw [h.len]; exact hfull), h.len, h.unread,
      checkedSub_of_le h.bound]
    dsimp only
    rw [if_pos hgot]
  | case4 k ks stream buf hfull got hgot i hi =>
    have hlen : buf.length + got.length ≤ maxResponse := by
      simp only [got, List.length_take]
      omega
    obtain ⟨s', happend, hholds, hterm⟩ := append_holds s buf stream got h hlen
    refine ⟨s', ?_, hholds, fun _ => hterm⟩
    rw [recvHead, if_neg (by rw [h.len]; exact hfull), h.len, h.unread,
      checkedSub_of_le h.bound]
    dsimp only
    rw [if_neg hgot, happend]
    dsimp only
    rw [hterm.strstr, hi]
  | case5 k ks stream buf hfull got hgot hnone ih =>
    have hlen : buf.length + got.length ≤ maxResponse := by
      simp only [got, List.length_take]
      omega
    obtain ⟨s', happend, hholds, hterm⟩ := append_holds s buf stream got h hlen
    obtain ⟨s'', hrecv, hholds', hterm'⟩ := ih s' hholds
    refine ⟨s'', ?_, hholds', hterm'⟩
    rw [recvHead, if_neg (by rw [h.len]; exact hfull), h.len, h.unread,
      checkedSub_of_le h.bound]
    dsimp only
    rw [if_neg hgot, happend]
    dsimp only
    rw [hterm.strstr, hnone]
    exact hrecv

/-- Phase 2 on the buffer is phase 2 on lists. -/
theorem recvBody_holds (sizes : List ℕ) (stream buf : Bytes) (need : ℕ) (s : Receiver)
    (h : Holds s buf stream) :
    ∃ s', recvBody sizes s need = some (s', (readBody sizes stream buf need).2) ∧
      Holds s' (readBody sizes stream buf need).1 s'.unread ∧
      (readBody sizes stream buf need).1 ++ s'.unread = buf ++ stream := by
  have hself : Holds s buf s.unread ∧ buf ++ s.unread = buf ++ stream := by
    rw [h.unread]
    exact ⟨h, rfl⟩
  fun_induction readBody sizes stream buf need generalizing s with
  | case1 sizes stream buf => exact ⟨s, by rw [recvBody], hself.1, hself.2⟩
  | case2 stream buf need => exact ⟨s, rfl, hself.1, hself.2⟩
  | case3 k ks stream buf need room hroom =>
    refine ⟨s, ?_, hself.1, hself.2⟩
    rw [recvBody, h.len, checkedSub_of_le h.bound]
    dsimp only
    rw [if_pos hroom]
  | case4 k ks stream buf need room hroom got hgot =>
    refine ⟨s, ?_, hself.1, hself.2⟩
    rw [recvBody, h.len, checkedSub_of_le h.bound, h.unread]
    dsimp only
    rw [if_neg hroom, if_pos hgot]
  | case5 k ks stream buf need room hroom got hgot ih =>
    have hgotlen : got.length ≤ need + 1 ∧ buf.length + got.length ≤ maxResponse := by
      have hbound := h.bound
      simp only [got, List.length_take]
      omega
    obtain ⟨s', happend, hholds, _⟩ := append_holds s buf stream got h hgotlen.2
    obtain ⟨s'', hrecv, hholds', hkeep⟩ := ih s' hholds (by rw [hholds.unread]; exact ⟨hholds, rfl⟩)
    refine ⟨s'', ?_, hholds', ?_⟩
    · rw [recvBody, h.len, checkedSub_of_le h.bound, h.unread]
      dsimp only
      rw [if_neg hroom, if_neg hgot, happend, checkedSub_of_le hgotlen.1]
      exact hrecv
    · rw [hkeep, List.append_assoc, List.append_cancel_left_eq]
      exact (List.prefix_append_drop (List.take_prefix _ _)).symm

theorem Holds.contents {s : Receiver} {buf stream : Bytes} (h : Holds s buf stream) :
    s.buffer.take s.len = buf := by
  obtain ⟨rest, hdata⟩ := h.data
  rw [hdata, h.len, List.take_left]

theorem Terminated.headerLists {s : Receiver} {buf : Bytes} (h : Terminated s buf)
    (name token : Bytes) (i : ℕ) (hend : ByteStrings.strstr buf (crlf ++ crlf) = some i) :
    headerLists s.buffer (i + 4) name token =
      firstLists name token (headerFields (buf.take i)) :=
  congrArg (fun found : Option Bytes => match found with
    | some value => pwHttpValueHasToken value token
    | none => false) (h.lookup name i hend)

theorem Holds.startsWith {s : Receiver} {buf stream : Bytes} (h : Holds s buf stream)
    (pat : Bytes) :
    (decide (pat.length ≤ s.len) && pat.isPrefixOf s.buffer) = pat.isPrefixOf buf := by
  obtain ⟨rest, hdata⟩ := h.data
  rw [Bool.eq_iff_iff, Bool.and_eq_true, decide_eq_true_eq, List.isPrefixOf_iff_prefix,
    List.isPrefixOf_iff_prefix, h.len, hdata]
  constructor
  · rintro ⟨hlen, hpre⟩
    exact List.prefix_of_prefix_length_le hpre (List.prefix_append _ _) hlen
  · intro hpre
    exact ⟨hpre.length_le, hpre.trans (List.prefix_append _ _)⟩

/-- What a reading on the buffer has to do with one on lists: the same data and
verdict, the data in the bound, and for a connection to be reused nothing else
taken off the socket. -/
structure Agrees (r : Received) (read : ResponseRead) (stream : Bytes) : Prop where
  bound : r.state.len ≤ maxResponse
  read_eq : read = ⟨r.state.buffer.take r.state.len, r.complete, r.reusable, r.status⟩
  taken : r.reusable = true → r.state.buffer.take r.state.len ++ r.state.unread = stream

theorem Holds.agrees {s : Receiver} {buf rest : Bytes} (h : Holds s buf rest) (stream : Bytes)
    (complete : Bool) (status : ProxyStatus) :
    Agrees ⟨s, complete, false, status⟩ ⟨buf, complete, false, status⟩ stream := by
  refine ⟨?_, by rw [h.contents], fun hreuse => by simp at hreuse⟩
  dsimp only
  rw [h.len]
  exact h.bound

theorem recvCounted_agrees (s : Receiver) (buf rest : Bytes) (i size : ℕ) (sizes : List ℕ)
    (reuse : Bool) (h : Holds s buf rest) (hi : i + 4 ≤ buf.length) :
    ∃ r, recvCounted s (i + 4) size sizes reuse = some r ∧
      Agrees r (readCounted buf i sizes rest size reuse) (buf ++ rest) := by
  have hbound := h.bound
  rw [recvCounted, readCounted, h.len, checkedSub_of_le (by omega), checkedSub_of_le hi]
  dsimp only
  by_cases hcap : maxResponse - (i + 4) < size
  · rw [if_pos hcap, if_pos hcap]
    exact ⟨_, rfl, h.agrees _ _ _⟩
  rw [if_neg hcap, if_neg hcap]
  by_cases hmore : size < buf.length - (i + 4)
  · -- the data is cut off behind the body
    obtain ⟨buffer, hstore, htake⟩ := storeAt_keeps s.buffer [0] (i + 4 + size)
      (by rw [h.size, List.length_singleton]; omega)
    rw [if_pos hmore, if_pos hmore, hstore]
    refine ⟨_, rfl, by dsimp only; omega, ?_, fun hreuse => by simp at hreuse⟩
    dsimp only
    rw [htake, ← h.contents, List.take_take, h.len, Nat.min_eq_left (by omega)]
  · rw [if_neg hmore, if_neg hmore, checkedSub_of_le (by omega)]
    dsimp only
    obtain ⟨s', hbody, hholds, hkeep⟩ :=
      recvBody_holds sizes rest buf (size - (buf.length - (i + 4))) s h
    rw [hbody]
    dsimp only
    by_cases hmissing : (readBody sizes rest buf (size - (buf.length - (i + 4)))).2 = 0
    · rw [if_pos hmissing, if_pos hmissing]
      refine ⟨_, rfl, ?_, by rw [hholds.contents], fun _ => by rw [hholds.contents, hkeep]⟩
      dsimp only
      rw [hholds.len]
      exact hholds.bound
    · rw [if_neg hmissing, if_neg hmissing]
      exact ⟨_, rfl, hholds.agrees _ _ _⟩

/-- The reading on a buffer of 256 KiB and one byte, whatever it contains,
makes no access outside it and no subtraction that wraps; its data and its
verdict are those of `readResponse`. -/
theorem receive_agrees (env : CallEnv) (exempt : Bool) (buffer : Bytes)
    (hsize : buffer.length = maxResponse + 1) :
    ∃ r, receive env exempt buffer = some r ∧ Agrees r (readResponse env exempt) env.stream := by
  have hspec := readHead_spec env.sizes env.stream [] (by simp) rfl
  obtain ⟨s, hrecv, hholds, hterm⟩ := recvHead_holds env.sizes env.stream []
    ⟨buffer, 0, env.stream⟩ ⟨⟨buffer, rfl⟩, hsize, rfl, rfl, by simp⟩
  rcases hread : readHead env.sizes env.stream [] with ⟨buf, found, sizes, rest⟩
  rw [hread] at hspec hrecv hholds hterm
  obtain ⟨hkeep, _, hend⟩ := hspec
  dsimp only [List.nil_append] at hkeep hrecv hholds hterm hend
  cases found with
  | none =>
    refine ⟨⟨s, false, false, .parseFailure⟩, by rw [receive, hrecv], ?_⟩
    rw [readResponse, hread]
    exact hholds.agrees _ _ _
  | some i =>
    have hterm := hterm (by simp)
    have hi : i + 4 ≤ buf.length := by
      obtain ⟨tail, hbuf, _, hi⟩ := strstr_split buf _ i (by simp [crlf]) hend
      have hbuflen := congrArg List.length hbuf
      simp only [List.length_append, length_crlf, hi] at hbuflen
      omega
    rw [readResponse_eq env exempt buf rest i sizes hread hend, receive, hrecv]
    dsimp only
    rw [hterm.headerLists _ _ i hend, hterm.headerLists _ _ i hend, hterm.lookup _ i hend,
      readFramed, ← hholds.startsWith (ascii "HTTP/1.1"), ← hkeep]
    by_cases hchunked : firstLists (ascii "Transfer-Encoding") (ascii "chunked")
        (headerFields (buf.take i)) = true
    · rw [if_pos hchunked, if_pos hchunked]
      exact ⟨_, rfl, hholds.agrees _ _ _⟩
    rw [if_neg hchunked, if_neg hchunked]
    rcases (valuesOf (ascii "Content-Length") (headerFields (buf.take i))).head? with _ | value
    · dsimp only
      rw [hholds.len]
      by_cases hexact : buf.length = i + 4
      · rw [if_pos hexact, if_pos hexact]
        exact ⟨_, rfl, hholds.agrees _ _ _⟩
      · rw [if_neg hexact, if_neg hexact]
        exact ⟨_, rfl, hholds.agrees _ _ _⟩
    · dsimp only
      rcases pwHttpParseSize value with _ | size
      · exact ⟨_, rfl, hholds.agrees _ _ _⟩
      · exact recvCounted_agrees s buf rest i size sizes _ hholds hi

section ContentLength

/-- A stream framed by its first Content-Length field: a header block up to the
first empty line, without NUL, whose first Transfer-Encoding field does not
list `chunked`, and a length that fits the buffer. -/
structure ContentLengthFramed (head body : Bytes) (size : ℕ) : Prop where
  first : findSub (crlf ++ crlf) (head ++ (crlf ++ crlf) ++ body) = some head.length
  noNul : 0 ∉ head
  notChunked : ∀ value,
    (valuesOf (ascii "Transfer-Encoding") (headerFields head)).head? = some value →
      ¬ ListsToken value (ascii "chunked")
  length : ∃ value, (valuesOf (ascii "Content-Length") (headerFields head)).head? = some value ∧
    pwHttpParseSize value = some size
  fits : head.length + 4 + size ≤ maxResponse

/-- The entry for a message with this header block and this body. -/
def messageEntry (token : ℕ) (head body : Bytes) : HttpCallEntry :=
  ⟨token, head ++ (crlf ++ crlf) ++ body, body, if 0 < head.length then countHeaders head else 0⟩

variable {head body : Bytes} {size : ℕ} (h : ContentLengthFramed head body size)

include h

theorem ContentLengthFramed.strstr_eq :
    strstr (head ++ (crlf ++ crlf) ++ body) (crlf ++ crlf) = some head.length := by
  have hnul : 0 ∉ head ++ (crlf ++ crlf) := by
    rw [List.mem_append]
    rintro (hmem | hmem)
    · exact h.noNul hmem
    · simp [crlf] at hmem
  have hcut : head ++ (crlf ++ crlf) ++ cstr body <+: head ++ (crlf ++ crlf) ++ body :=
    (List.prefix_append_right_inj _).mpr (List.takeWhile_prefix _)
  rw [strstr, cstr_append _ _ hnul, List.prefix_iff_eq_take.mp hcut,
    findSub_take _ _ _ _ (by simp [crlf])]
  refine ⟨h.first, ?_⟩
  simp only [List.length_append, length_crlf]
  omega

omit h in
theorem take_header : (head ++ (crlf ++ crlf) ++ body).take head.length = head := by
  rw [List.append_assoc, List.take_left]

omit h in
theorem take_message :
    (head ++ (crlf ++ crlf) ++ body).take (head.length + 4 + size) =
      head ++ (crlf ++ crlf) ++ body.take size := by
  have hlen : head.length + 4 = (head ++ (crlf ++ crlf)).length := by
    simp only [List.length_append, length_crlf]
  rw [hlen, List.take_length_add_append]

theorem ContentLengthFramed.not_chunked :
    firstLists (ascii "Transfer-Encoding") (ascii "chunked") (headerFields head) = false := by
  rw [firstLists]
  rcases hvalue : (valuesOf (ascii "Transfer-Encoding") (headerFields head)).head? with _ | value
  · rfl
  · rw [Bool.eq_false_iff]
    intro hlists
    exact h.notChunked value hvalue
      ((tokenLoop_iff _ (by simp [ascii]) _ _ (by omega)).mp hlists)

theorem ContentLengthFramed.answer_eq :
    answerOf (head ++ (crlf ++ crlf) ++ body) =
      if body.length < size then .error .internal
      else .ok (head ++ (crlf ++ crlf) ++ body.take size) := by
  obtain ⟨value, hvalue, hsize⟩ := h.length
  have hfits := h.fits
  rw [answerOf, h.strstr_eq]
  dsimp only
  rw [if_neg (by omega), take_header, h.not_chunked, if_neg (by decide), hvalue]
  dsimp only
  rw [hsize]
  dsimp only
  rw [take_message]
  have hlen : (head ++ (crlf ++ crlf) ++ body).length = head.length + 4 + body.length := by
    simp only [List.length_append, length_crlf]
  by_cases hshort : body.length < size
  · rw [if_pos (by omega), if_pos hshort]
  · rw [if_neg (by omega), if_neg hshort]

theorem ContentLengthFramed.framed : ¬ UnframedBody (head ++ (crlf ++ crlf) ++ body) := by
  rintro ⟨i, hend, _, _, _, hnone⟩
  obtain ⟨value, hvalue, _⟩ := h.length
  rw [h.strstr_eq, Option.some.injEq] at hend
  rw [← hend, take_header, hvalue] at hnone
  contradiction

/-- The stored response has the header block and the body it came with. -/
theorem ContentLengthFramed.parseResponse_eq (token : ℕ) :
    parseResponse token (head ++ (crlf ++ crlf) ++ body.take size) =
      messageEntry token head (body.take size) := by
  have hend : findSub (crlf ++ crlf) (head ++ (crlf ++ crlf) ++ body.take size) =
      some head.length := by
    rw [← take_message, findSub_take _ _ _ _ (by simp [crlf])]
    refine ⟨h.first, ?_⟩
    simp only [List.length_append, length_crlf]
    omega
  have hdrop : (head ++ (crlf ++ crlf) ++ body.take size).drop (head.length + 4) =
      body.take size := by
    have hlen : head.length + 4 = (head ++ (crlf ++ crlf)).length := by
      simp only [List.length_append, length_crlf]
    rw [hlen, List.drop_left]
  rw [parseResponse, hend]
  dsimp only
  rw [hdrop, take_header, messageEntry]

omit h in
theorem storeResponse_ok (env : CallEnv) (ctx : ProxyCtx) (mem raw : Bytes) (tokenPtr : UInt32)
    (halloc : env.entryAlloc = true)
    (hwrite : pwWriteU32 ctx.memoryValid mem tokenPtr (u32 (ctx.httpCallNextToken + 1)) ≠ none) :
    (storeResponse env ctx mem tokenPtr raw).status = .ok ∧
      (storeResponse env ctx mem tokenPtr raw).ctx =
        { ctx with
          httpCallNextToken := u32 (ctx.httpCallNextToken + 1)
          httpCalls := insertKeyed HttpCallEntry.tokenId
            (parseResponse (u32 (ctx.httpCallNextToken + 1)) raw) ctx.httpCalls } := by
  obtain ⟨mem', hmem⟩ := Option.ne_none_iff_exists'.mp hwrite
  simp only [storeResponse, halloc, Bool.not_true, Bool.false_eq_true, if_false, hmem, and_self]

end ContentLength

/-- The world lets the call through: connected, sent, memory for the response. -/
structure Served (env : CallEnv) : Prop where
  connected : env.connected = true
  requestSent : env.requestSent = true
  bodySent : env.bodySent = true
  responseAlloc : env.responseAlloc = true
  entryAlloc : env.entryAlloc = true

/-- A response framed by Content-Length is stored byte for byte if it arrives
whole and not at all otherwise, whatever the reads are; and the reading keeps
to the buffer. -/
theorem contentLength_response (head body : Bytes) (size : ℕ)
    (h : ContentLengthFramed head body size) (hasPool : Bool) (env : CallEnv) (ctx : ProxyCtx)
    (mem : Bytes) (args : HttpCallArgs) (p : Prepared) (hserved : Served env)
    (hstream : env.stream = head ++ (crlf ++ crlf) ++ body)
    (hcovers : Covers env.sizes env.stream)
    (hlimit : ¬ (0 < ctx.httpCallMax ∧ ctx.httpCallMax ≤ ctx.httpCallCount))
    (hp : prepare hasPool (countCall ctx) mem args = .ok p)
    (hwrite : pwWriteU32 ctx.memoryValid mem args.tokenPtr (u32 (ctx.httpCallNextToken + 1)) ≠
      none) :
    (size ≤ body.length →
      (pwProxyHttpCall hasPool env ctx mem args).status = .ok ∧
      (pwProxyHttpCall hasPool env ctx mem args).ctx.httpCalls =
        insertKeyed HttpCallEntry.tokenId
          (messageEntry (u32 (ctx.httpCallNextToken + 1)) head (body.take size)) ctx.httpCalls ∧
      ((∀ e ∈ ctx.httpCalls, e.tokenId ≠ u32 (ctx.httpCallNextToken + 1)) →
        delivered (pwProxyHttpCall hasPool env ctx mem args) =
          some (messageEntry (u32 (ctx.httpCallNextToken + 1)) head (body.take size)))) ∧
    (body.length < size →
      (pwProxyHttpCall hasPool env ctx mem args).status ≠ .ok ∧
      (pwProxyHttpCall hasPool env ctx mem args).ctx.httpCalls = ctx.httpCalls) ∧
    ∀ buffer : Bytes, buffer.length = maxResponse + 1 →
      ∃ r, receive env p.exempt buffer = some r ∧
        Agrees r (readResponse env p.exempt) env.stream := by
  have hcall := pwProxyHttpCall_prepared hasPool env ctx mem args p hlimit hp
  have hanswer : (exchange hasPool env p).2 =
      if body.length < size then .error .internal
      else .ok (head ++ (crlf ++ crlf) ++ body.take size) := by
    rw [exchange_result, readResponse_answer env _ hcovers (hstream ▸ h.framed), hstream,
      h.answer_eq]
    simp [sends, hserved.connected, hserved.requestSent, hserved.bodySent, hserved.responseAlloc]
  rw [hanswer] at hcall
  refine ⟨fun hwhole => ?_, fun hshort => ?_, fun buffer hsize => receive_agrees env _ buffer hsize⟩
  · rw [if_neg (by omega), afterExchange] at hcall
    rw [Prod.mk.injEq, Prod.mk.injEq] at hcall
    obtain ⟨hstatus, hctx⟩ := storeResponse_ok env (countCall ctx) mem
      (head ++ (crlf ++ crlf) ++ body.take size) args.tokenPtr hserved.entryAlloc hwrite
    have hcalls : (pwProxyHttpCall hasPool env ctx mem args).ctx.httpCalls =
        insertKeyed HttpCallEntry.tokenId
          (messageEntry (u32 (ctx.httpCallNextToken + 1)) head (body.take size))
          ctx.httpCalls := by
      rw [hcall.2.2, hctx, ← h.parseResponse_eq]
      rfl
    refine ⟨by rw [hcall.1, hstatus], hcalls, fun hfresh => ?_⟩
    rw [delivered, hcall.1, if_pos hstatus, hcalls, hcall.2.2, hctx]
    exact find?_insertKeyed HttpCallEntry.tokenId
      (messageEntry (u32 (ctx.httpCallNextToken + 1)) head (body.take size)) ctx.httpCalls hfresh
  · rw [if_pos hshort, afterExchange, Prod.mk.injEq, Prod.mk.injEq] at hcall
    rw [hcall.1, hcall.2.2]
    exact ⟨by simp, rfl⟩

def exampleHead : Bytes := ascii "HTTP/1.1 200 OK" ++ crlf ++ ascii "Content-Length: 2"

/-- Two bytes announced, three sent, in reads of 30 and 11 bytes. -/
def exampleEnv : CallEnv :=
  { stream := exampleHead ++ (crlf ++ crlf) ++ ascii "hi!", sizes := [30, 11] }

theorem contentLength_response_hi :
    ContentLengthFramed exampleHead (ascii "hi!") 2 ∧
    (plainCall exampleEnv).status = .ok ∧
    delivered (plainCall exampleEnv) =
      some (messageEntry (u32 (plainCtx.httpCallNextToken + 1)) exampleHead
        ((ascii "hi!").take 2)) := by
  have h : ContentLengthFramed exampleHead (ascii "hi!") 2 :=
    ⟨by decide +kernel, by decide, by decide +kernel, ⟨ascii "2", by decide +kernel⟩, by decide⟩
  have hp := prepare_plain false (countCall plainCtx) (ascii "a") [0, 0, 0] (ascii "a") 80 0 false
    rfl rfl rfl
  have hstored := (contentLength_response exampleHead (ascii "hi!") 2 h false exampleEnv plainCtx
    (ascii "a" ++ [0, 0, 0]) (plainArgs (ascii "a") 0) _ ⟨rfl, rfl, rfl, rfl, rfl⟩ rfl
    ⟨by decide, by decide⟩ (by decide) hp (by decide)).1 (by decide)
  exact ⟨h, hstored.1, hstored.2.2 (by decide)⟩

end VmodWasm.ReceiveBuffer
