import VmodWasm.HttpPool
import VmodWasm.ResponseReading
import VmodWasm.Lib.Blocks

/-!
A callout of an engine without a connection pool, down to its system calls. Sockets
are blocks, opened by `socket` and freed by `close`, and every connect, write and read
goes to one that is open. What the kernel answers is an argument: the addresses of the
host and what becomes of the connect to each, how much a write takes, which calls are
interrupted. Over all that the callout is the one of HttpCall.
-/
namespace VmodWasm.DirectCallout

open ByteStrings ByteSearch GuestMemory HttpText ProxyContext HttpCall HttpPool ResponseReading
  Lib.Blocks Lib.KeyedList

/-- What a non-blocking `connect` returns. -/
inductive ConnectAnswer where
  | connected | inProgress | failed
  deriving DecidableEq

/-- An address of the host, and what the kernel answers if it is tried: whether there
is a socket, the answer to `connect`, whether `poll` finds it writable in time, and
`SO_ERROR`. -/
structure Candidate where
  addr : SockAddr
  socket : Bool := true
  connect : ConnectAnswer := .connected
  writable : Bool := true
  soError : ℕ := 0

def Candidate.reached (c : Candidate) : Bool :=
  match c.connect with
  | .connected => true
  | .inProgress => c.writable && c.soError == 0
  | .failed => false

/-- `pw_http_connect` after the host is resolved: the socket, and the addresses that a
connect was tried to. -/
def pwHttpConnect (exempt : Bool) : List Candidate → Mem SockAddr (Option ℕ × List SockAddr)
  | [] => pure (none, [])
  | c :: cs =>
    if !exempt && vwasmHttpAddrIsPrivate c.addr then pwHttpConnect exempt cs
    else if !c.socket then pwHttpConnect exempt cs
    else do
      let fd ← malloc c.addr
      if c.reached then pure (some fd, [c.addr])
      else do
        free fd
        let r ← pwHttpConnect exempt cs
        pure (r.1, c.addr :: r.2)

/-- What a `write` returns, a number of bytes or one of two errors. -/
inductive WriteAnswer where
  | wrote (n : ℕ)
  | interrupted
  | failed
  deriving DecidableEq

/-- `pw_http_write_all`: the bytes that were sent, whether all were, and the answers
that are left. The kernel has no answers left when the connection is gone. -/
def pwHttpWriteAll (fd : ℕ) : List WriteAnswer → Bytes →
    Mem SockAddr (Bytes × Bool × List WriteAnswer)
  | ws, [] => pure ([], true, ws)
  | [], _ :: _ => pure ([], false, [])
  | w :: ws, b :: bs => do
    let _ ← load fd
    match w with
    | .interrupted => pwHttpWriteAll fd ws (b :: bs)
    | .failed => pure ([], false, ws)
    | .wrote 0 => pure ([], false, ws)
    | .wrote (n + 1) => do
      let r ← pwHttpWriteAll fd ws ((b :: bs).drop (n + 1))
      pure ((b :: bs).take (n + 1) ++ r.1, r.2)

/-- What happens in one call of `pw_http_read_some`: how often it is interrupted, and
then an error or a number of bytes. -/
structure ReadCall where
  interrupts : ℕ := 0
  got : Option ℕ

def ReadCall.size (c : ReadCall) : ℕ := c.got.getD 0

def pwHttpReadSome (fd : ℕ) (got : Option ℕ) : ℕ → Mem SockAddr (Option ℕ)
  | 0 => do
    let _ ← load fd
    pure got
  | interrupts + 1 => do
    let _ ← load fd
    pwHttpReadSome fd got interrupts

/-- Phase 1 of the reading. -/
def readHead (fd : ℕ) : List ReadCall → Bytes → Bytes →
    Mem SockAddr (Bytes × Option ℕ × List ReadCall × Bytes)
  | [], stream, buf => pure (buf, none, [], stream)
  | c :: cs, stream, buf =>
    if maxResponse ≤ buf.length then pure (buf, none, c :: cs, stream)
    else do
      let n ← pwHttpReadSome fd c.got c.interrupts
      let got := stream.take (min (n.getD 0) (maxResponse - buf.length))
      if got = [] then pure (buf, none, cs, stream)
      else
        match strstr (buf ++ got) (crlf ++ crlf) with
        | some i => pure (buf ++ got, some i, cs, stream.drop got.length)
        | none => readHead fd cs (stream.drop got.length) (buf ++ got)

/-- Phase 2 of the reading. -/
def readBody (fd : ℕ) : List ReadCall → Bytes → Bytes → ℕ → Mem SockAddr (Bytes × ℕ)
  | _, _, buf, 0 => pure (buf, 0)
  | [], _, buf, need + 1 => pure (buf, need + 1)
  | c :: cs, stream, buf, need + 1 =>
    let room := maxResponse - buf.length
    if room = 0 then pure (buf, need + 1)
    else do
      let n ← pwHttpReadSome fd c.got c.interrupts
      let got := stream.take (min (n.getD 0) (min (need + 1) room))
      if got = [] then pure (buf, need + 1)
      else readBody fd cs (stream.drop got.length) (buf ++ got) (need + 1 - got.length)

/-- The body of a response that gives its length. -/
def readCounted (fd : ℕ) (buf : Bytes) (headerBytes : ℕ) (reads : List ReadCall) (stream : Bytes)
    (contentLength : ℕ) (reuse : Bool) : Mem SockAddr ResponseRead :=
  if maxResponse - headerBytes < contentLength then pure ⟨buf, false, false, .internal⟩
  else if contentLength < buf.length - headerBytes then
    pure ⟨buf.take (headerBytes + contentLength), true, false, .ok⟩
  else do
    let (full, missing) ←
      readBody fd reads stream buf (contentLength - (buf.length - headerBytes))
    if missing = 0 then pure ⟨full, true, reuse, .ok⟩
    else pure ⟨full, false, false, .internal⟩

def listsToken (buf : Bytes) (headerBytes : ℕ) (name token : Bytes) : Bool :=
  match pwHttpFindHeaderValue buf headerBytes name with
  | some value => pwHttpValueHasToken value token
  | none => false

/-- The reading once the header block is there. -/
def readAfterHead (fd : ℕ) (buf : Bytes) (i : ℕ) (reads : List ReadCall) (stream : Bytes)
    (exempt : Bool) : Mem SockAddr ResponseRead :=
  let headerBytes := i + 4
  if listsToken buf headerBytes (ascii "Transfer-Encoding") (ascii "chunked") then
    pure ⟨buf, false, false, .unimplemented⟩
  else
    match pwHttpFindHeaderValue buf headerBytes (ascii "Content-Length") with
    | some value =>
      match pwHttpParseSize value with
      | none => pure ⟨buf, false, false, .parseFailure⟩
      | some contentLength =>
        readCounted fd buf headerBytes reads stream contentLength
          ((ascii "HTTP/1.1").isPrefixOf buf &&
            !listsToken buf headerBytes (ascii "Connection") (ascii "close") && exempt)
    | none =>
      if buf.length = headerBytes then pure ⟨buf, true, false, .ok⟩
      else pure ⟨buf, false, false, .parseFailure⟩

def readResponse (fd : ℕ) (reads : List ReadCall) (stream : Bytes) (exempt : Bool) :
    Mem SockAddr ResponseRead := do
  let (buf, found, reads, stream) ← readHead fd reads stream []
  match found with
  | none => pure ⟨buf, false, false, .parseFailure⟩
  | some i => readAfterHead fd buf i reads stream exempt

/-- What the kernel, the resolver and the upstream do in one callout. -/
structure Kernel where
  candidates : Option (List Candidate)
  writes : List WriteAnswer := []
  reads : List ReadCall := []
  stream : Bytes := []
  responseAlloc : Bool := true
  entryAlloc : Bool := true

/-- The environment of HttpCall, given whether the host was reached and what of the
request was sent. -/
def Kernel.callEnv (k : Kernel) (connected requestSent bodySent : Bool) : CallEnv where
  connected := connected
  requestSent := requestSent
  bodySent := bodySent
  responseAlloc := k.responseAlloc
  stream := k.stream
  sizes := k.reads.map ReadCall.size
  entryAlloc := k.entryAlloc

/-- What a callout leaves: its answer, the addresses it tried, the bytes it sent. -/
structure Exchanged where
  answer : Except ProxyStatus Bytes
  tried : List SockAddr := []
  sent : Bytes := []

/-- The part behind the request: read the response and close. -/
def receive (k : Kernel) (p : Prepared) (fd : ℕ) : Mem SockAddr (Except ProxyStatus Bytes) :=
  if !k.responseAlloc then do
    free fd
    pure (.error .internal)
  else do
    let r ← readResponse fd k.reads k.stream p.exempt
    free fd
    pure (answer r)

/-- Send the body, if there is one, and go on. -/
def sendBody (k : Kernel) (p : Prepared) (fd : ℕ) (writes : List WriteAnswer) :
    Mem SockAddr (Except ProxyStatus Bytes × Bytes) := do
  let w ← pwHttpWriteAll fd writes p.body
  if !w.2.1 then do
    free fd
    pure (.error .internal, w.1)
  else do
    let answer ← receive k p fd
    pure (answer, w.1)

/-- The callout on a socket, which is closed on every path. -/
def converse (k : Kernel) (p : Prepared) (fd : ℕ) :
    Mem SockAddr (Except ProxyStatus Bytes × Bytes) := do
  let w ← pwHttpWriteAll fd k.writes p.request
  if !w.2.1 then do
    free fd
    pure (.error .internal, w.1)
  else do
    let r ← sendBody k p fd w.2.2
    pure (r.1, w.1 ++ r.2)

/-- Connect, send, read and close. -/
def exchangeDirect (k : Kernel) (p : Prepared) : Mem SockAddr Exchanged :=
  match k.candidates with
  | none => pure { answer := .error .internal }
  | some cs => do
    let (fd, tried) ← pwHttpConnect p.exempt cs
    match fd with
    | none => pure { answer := .error .internal, tried := tried }
    | some fd => do
      let (answer, sent) ← converse k p fd
      pure ⟨answer, tried, sent⟩

section Specs

variable {fd : ℕ} {a : SockAddr}

theorem pwHttpConnect_spec (exempt : Bool) (cs : List Candidate) :
    Triple 0 (pwHttpConnect exempt cs) fun r P' =>
      (∀ addr ∈ r.2, exempt = true ∨ vwasmHttpAddrIsPrivate addr = false) ∧
      match r.1 with
      | none => P' = 0
      | some fd => ∃ addr ∈ r.2, P' = {(fd, addr)} := by
  induction cs with
  | nil => exact Triple.pure ⟨fun _ h => absurd h List.not_mem_nil, rfl⟩
  | cons c cs ih =>
    unfold pwHttpConnect
    split
    next => exact ih
    next hallowed =>
    split
    next => exact ih
    next =>
    have hc : exempt = true ∨ vwasmHttpAddrIsPrivate c.addr = false := by
      cases exempt with
      | true => exact Or.inl rfl
      | false => exact Or.inr (by simpa using hallowed)
    refine Triple.malloc_bind fun fd => ?_
    split
    · refine Triple.pure ⟨fun addr haddr => ?_, c.addr, List.mem_singleton_self _, add_zero _⟩
      rw [List.mem_singleton.mp haddr]
      exact hc
    · refine Triple.free_bind (Triple.seq ih ?_)
      rintro ⟨found, tried⟩ P' ⟨htried, hfound⟩
      refine Triple.pure ⟨fun addr haddr => ?_, ?_⟩
      · rcases List.mem_cons.mp haddr with rfl | haddr
        · exact hc
        · exact htried addr haddr
      · cases found with
        | none => exact hfound
        | some fd' =>
          obtain ⟨addr, haddr, hP⟩ := hfound
          exact ⟨addr, List.mem_cons_of_mem _ haddr, hP⟩

/-- What was sent is a first part of the data, and the function reports whether it is
all of it, however the kernel cuts and interrupts the writes. -/
theorem pwHttpWriteAll_spec (ws : List WriteAnswer) (data : Bytes) :
    Triple {(fd, a)} (pwHttpWriteAll fd ws data) fun r P' =>
      r.1 <+: data ∧ (r.2.1 = true ↔ r.1 = data) ∧ P' = {(fd, a)} := by
  induction ws generalizing data with
  | nil =>
    cases data with
    | nil => exact Triple.pure ⟨List.nil_prefix, by simp, rfl⟩
    | cons b bs => exact Triple.pure ⟨List.nil_prefix, by simp, rfl⟩
  | cons w ws ih =>
    cases data with
    | nil => exact Triple.pure ⟨List.nil_prefix, by simp, rfl⟩
    | cons b bs =>
      unfold pwHttpWriteAll
      rw [← add_zero {(fd, a)}]
      refine Triple.load_bind ?_
      rw [add_zero]
      split
      · exact ih (b :: bs)
      · exact Triple.pure ⟨List.nil_prefix, by simp, rfl⟩
      · exact Triple.pure ⟨List.nil_prefix, by simp, rfl⟩
      next n =>
        refine Triple.seq (ih ((b :: bs).drop (n + 1))) ?_
        rintro ⟨sent, ok, rest⟩ P' ⟨hsent, hok, rfl⟩
        refine Triple.pure ⟨?_, ?_, rfl⟩
        · obtain ⟨tail, htail⟩ := hsent
          refine ⟨tail, ?_⟩
          rw [List.append_assoc, htail, List.take_append_drop]
        · rw [hok]
          dsimp only
          constructor
          · intro h
            rw [h, List.take_append_drop]
          · intro h
            have hsplit := List.take_append_drop (n + 1) (b :: bs)
            exact List.append_cancel_left (h.trans hsplit.symm)

theorem pwHttpReadSome_spec (got : Option ℕ) (interrupts : ℕ) :
    Triple {(fd, a)} (pwHttpReadSome fd got interrupts) fun r P' => r = got ∧ P' = {(fd, a)} := by
  induction interrupts with
  | zero =>
    rw [pwHttpReadSome, ← add_zero {(fd, a)}]
    exact Triple.load_bind (Triple.pure ⟨rfl, rfl⟩)
  | succ interrupts ih =>
    rw [pwHttpReadSome, ← add_zero {(fd, a)}]
    refine Triple.load_bind ?_
    rw [add_zero]
    exact ih

/-- The reading does not see interrupts. -/
theorem readHead_spec (reads : List ReadCall) (stream buf : Bytes) :
    Triple {(fd, a)} (readHead fd reads stream buf) fun r P' =>
      HttpCall.readHead (reads.map ReadCall.size) stream buf =
        (r.1, r.2.1, r.2.2.1.map ReadCall.size, r.2.2.2) ∧ P' = {(fd, a)} := by
  induction reads generalizing stream buf with
  | nil => exact Triple.pure ⟨rfl, rfl⟩
  | cons c cs ih =>
    rw [List.map_cons]
    unfold readHead HttpCall.readHead
    split
    · exact Triple.pure ⟨rfl, rfl⟩
    · refine Triple.seq (pwHttpReadSome_spec c.got c.interrupts) ?_
      rintro _ _ ⟨rfl, rfl⟩
      dsimp only [ReadCall.size]
      generalize stream.take (min (c.got.getD 0) (maxResponse - buf.length)) = got
      by_cases hnil : got = []
      · simp only [if_pos hnil]
        exact Triple.pure ⟨rfl, rfl⟩
      · simp only [if_neg hnil]
        cases strstr (buf ++ got) (crlf ++ crlf) with
        | some i => exact Triple.pure ⟨rfl, rfl⟩
        | none => exact ih _ _

theorem readBody_spec (reads : List ReadCall) (stream buf : Bytes) (need : ℕ) :
    Triple {(fd, a)} (readBody fd reads stream buf need) fun r P' =>
      HttpCall.readBody (reads.map ReadCall.size) stream buf need = r ∧ P' = {(fd, a)} := by
  induction reads generalizing stream buf need with
  | nil => cases need <;> exact Triple.pure ⟨rfl, rfl⟩
  | cons c cs ih =>
    cases need with
    | zero => exact Triple.pure ⟨rfl, rfl⟩
    | succ need =>
      rw [List.map_cons]
      unfold readBody HttpCall.readBody
      dsimp only
      split
      · exact Triple.pure ⟨rfl, rfl⟩
      · refine Triple.seq (pwHttpReadSome_spec c.got c.interrupts) ?_
        rintro _ _ ⟨rfl, rfl⟩
        dsimp only [ReadCall.size]
        by_cases hnil :
            stream.take (min (c.got.getD 0) (min (need + 1) (maxResponse - buf.length))) = []
        · rw [if_pos hnil]
          exact Triple.pure ⟨if_pos hnil, rfl⟩
        · rw [if_neg hnil]
          refine (ih _ _ _).mono fun r P' hr => ?_
          exact ⟨(if_neg hnil).trans hr.1, hr.2⟩

theorem readCounted_spec (buf : Bytes) (i : ℕ) (reads : List ReadCall) (stream : Bytes)
    (contentLength : ℕ) (reuse : Bool) :
    Triple {(fd, a)} (readCounted fd buf (i + 4) reads stream contentLength reuse) fun r P' =>
      r = ResponseReading.readCounted buf i (reads.map ReadCall.size) stream contentLength reuse ∧
        P' = {(fd, a)} := by
  unfold readCounted ResponseReading.readCounted
  split
  · exact Triple.pure ⟨rfl, rfl⟩
  · split
    · exact Triple.pure ⟨rfl, rfl⟩
    · refine Triple.seq (readBody_spec reads stream buf _) ?_
      rintro ⟨full, missing⟩ P' ⟨hbody, rfl⟩
      rw [hbody]
      dsimp only
      split
      · exact Triple.pure ⟨rfl, rfl⟩
      · exact Triple.pure ⟨rfl, rfl⟩

theorem readResponse_afterHead {env : CallEnv} (exempt : Bool) {buf rest : Bytes} {i : ℕ}
    {sizes : List ℕ}
    (hhead : HttpCall.readHead env.sizes env.stream [] = (buf, some i, sizes, rest)) :
    HttpCall.readResponse env exempt =
      if listsToken buf (i + 4) (ascii "Transfer-Encoding") (ascii "chunked") then
        ⟨buf, false, false, .unimplemented⟩
      else
        match pwHttpFindHeaderValue buf (i + 4) (ascii "Content-Length") with
        | some value =>
          match pwHttpParseSize value with
          | none => ⟨buf, false, false, .parseFailure⟩
          | some size =>
            ResponseReading.readCounted buf i sizes rest size
              ((ascii "HTTP/1.1").isPrefixOf buf &&
                !listsToken buf (i + 4) (ascii "Connection") (ascii "close") && exempt)
        | none =>
          if buf.length = i + 4 then ⟨buf, true, false, .ok⟩
          else ⟨buf, false, false, .parseFailure⟩ := by
  unfold HttpCall.readResponse
  rw [hhead]
  rfl

theorem readResponse_spec (k : Kernel) (exempt connected requestSent bodySent : Bool) :
    Triple {(fd, a)} (readResponse fd k.reads k.stream exempt) fun r P' =>
      r = HttpCall.readResponse (k.callEnv connected requestSent bodySent) exempt ∧
        P' = {(fd, a)} := by
  unfold readResponse
  refine Triple.seq (readHead_spec k.reads k.stream []) ?_
  rintro ⟨buf, found, reads, stream⟩ P' ⟨hhead, rfl⟩
  change HttpCall.readHead (k.callEnv connected requestSent bodySent).sizes
    (k.callEnv connected requestSent bodySent).stream [] = _ at hhead
  cases found with
  | none =>
    unfold HttpCall.readResponse
    rw [hhead]
    exact Triple.pure ⟨rfl, rfl⟩
  | some i =>
    rw [readResponse_afterHead exempt hhead]
    dsimp only [readAfterHead]
    cases listsToken buf (i + 4) (ascii "Transfer-Encoding") (ascii "chunked") with
    | true => exact Triple.pure ⟨rfl, rfl⟩
    | false =>
      simp only [Bool.false_eq_true, if_false]
      cases pwHttpFindHeaderValue buf (i + 4) (ascii "Content-Length") with
      | none =>
        dsimp only
        split
        · exact Triple.pure ⟨rfl, rfl⟩
        · exact Triple.pure ⟨rfl, rfl⟩
      | some value =>
        dsimp only
        cases pwHttpParseSize value with
        | none => exact Triple.pure ⟨rfl, rfl⟩
        | some size => exact readCounted_spec buf i reads stream size _

/-- Frees the socket that a callout is done with. -/
theorem close_spec {A : Type} {Q : A → Multiset (ℕ × SockAddr) → Prop} {r : A} (hq : Q r 0) :
    Triple {(fd, a)} (do free fd; pure r) Q := by
  rw [← add_zero {(fd, a)}]
  exact Triple.free_bind (Triple.pure hq)

/-- The socket is closed with or without a buffer for the response, and the answer is
that of an exchange that has sent everything. -/
theorem receive_spec (k : Kernel) (p : Prepared) :
    Triple {(fd, a)} (receive k p fd) fun r P' =>
      r = (exchange false (k.callEnv true true true) p).2 ∧ P' = 0 := by
  have hanswer := exchange_result false (k.callEnv true true true) p
  unfold receive
  cases halloc : k.responseAlloc with
  | false =>
    refine close_spec ⟨?_, rfl⟩
    rw [hanswer, if_neg (by simp [sends, Kernel.callEnv, halloc])]
  | true =>
    refine Triple.seq (readResponse_spec k p.exempt true true true) ?_
    rintro _ _ ⟨rfl, rfl⟩
    refine close_spec ⟨?_, rfl⟩
    rw [hanswer, if_pos (by simp [sends, Kernel.callEnv, halloc])]

/-- What the callout on one socket leaves. -/
structure Conversed (k : Kernel) (p : Prepared) (r : Except ProxyStatus Bytes × Bytes) : Prop where
  answer : ∃ requestSent bodySent, r.1 = (exchange false (k.callEnv true requestSent bodySent) p).2
  sent : r.2 <+: p.request ++ p.body
  all : (∃ raw, r.1 = .ok raw) → r.2 = p.request ++ p.body

theorem sendBody_spec (k : Kernel) (p : Prepared) (ws : List WriteAnswer) :
    Triple {(fd, a)} (sendBody k p fd ws) fun r P' => P' = 0 ∧
      (∃ bodySent, r.1 = (exchange false (k.callEnv true true bodySent) p).2) ∧
      r.2 <+: p.body ∧ ((∃ raw, r.1 = .ok raw) → r.2 = p.body) := by
  unfold sendBody
  refine Triple.seq (pwHttpWriteAll_spec ws p.body) ?_
  rintro ⟨sent, ok, rest⟩ P' ⟨hsent, hok, rfl⟩
  dsimp only at hok hsent ⊢
  cases ok with
  | false =>
    have hne : p.body ≠ [] := by
      intro hnil
      rw [hnil] at hsent hok
      exact absurd (hok.mpr (List.prefix_nil.mp hsent)) Bool.false_ne_true
    refine close_spec ⟨rfl, ⟨false, ?_⟩, hsent, fun hraw => ?_⟩
    · rw [exchange_result, if_neg (by simp [sends, Kernel.callEnv, hne])]
    · obtain ⟨raw, hraw⟩ := hraw
      contradiction
  | true =>
    refine Triple.seq (receive_spec k p) ?_
    rintro _ _ ⟨rfl, rfl⟩
    exact Triple.pure ⟨rfl, ⟨true, rfl⟩, hsent, fun _ => hok.mp rfl⟩

/-- The socket is closed on every path, and the answer is that of an exchange in which
the request and the body were sent if all their bytes were. -/
theorem converse_spec (k : Kernel) (p : Prepared) :
    Triple {(fd, a)} (converse k p fd) fun r P' => P' = 0 ∧ Conversed k p r := by
  unfold converse
  refine Triple.seq (pwHttpWriteAll_spec k.writes p.request) ?_
  rintro ⟨sent, ok, rest⟩ P' ⟨hsent, hok, rfl⟩
  dsimp only at hok hsent ⊢
  cases ok with
  | false =>
    refine close_spec ⟨rfl, ⟨false, true, ?_⟩, hsent.trans (List.prefix_append ..), fun hraw => ?_⟩
    · rw [exchange_result, if_neg (by simp [sends, Kernel.callEnv])]
    · obtain ⟨raw, hraw⟩ := hraw
      contradiction
  | true =>
    obtain rfl := hok.mp rfl
    refine Triple.seq (sendBody_spec k p rest) ?_
    rintro ⟨answer, body⟩ P' ⟨rfl, ⟨bodySent, hanswer⟩, hbody, hall⟩
    refine Triple.pure ⟨rfl, ⟨true, bodySent, hanswer⟩, ?_, fun hraw => ?_⟩
    · exact (List.prefix_append_right_inj _).mpr hbody
    · exact congrArg (p.request ++ ·) (hall hraw)

/-- What a callout may leave: the answer of an exchange, private addresses tried only
with an exemption, and a first part of the request sent, all of it for a response. -/
structure Exchanged.Sound (k : Kernel) (p : Prepared) (r : Exchanged) : Prop where
  answer : ∃ connected requestSent bodySent,
    r.answer = (exchange false (k.callEnv connected requestSent bodySent) p).2
  tried : ∀ addr ∈ r.tried, p.exempt = true ∨ vwasmHttpAddrIsPrivate addr = false
  sent : r.sent <+: p.request ++ p.body
  all : (∃ raw, r.answer = .ok raw) → r.sent = p.request ++ p.body

theorem sound_unreached (k : Kernel) (p : Prepared) {tried : List SockAddr}
    (htried : ∀ addr ∈ tried, p.exempt = true ∨ vwasmHttpAddrIsPrivate addr = false) :
    Exchanged.Sound k p { answer := .error .internal, tried := tried } where
  answer := ⟨false, true, true, rfl⟩
  tried := htried
  sent := List.nil_prefix
  all hraw := by
    obtain ⟨raw, hraw⟩ := hraw
    contradiction

theorem exchangeDirect_spec (k : Kernel) (p : Prepared) :
    Triple 0 (exchangeDirect k p) fun r P' => P' = 0 ∧ r.Sound k p := by
  unfold exchangeDirect
  cases k.candidates with
  | none => exact Triple.pure ⟨rfl, sound_unreached k p fun _ h => absurd h List.not_mem_nil⟩
  | some cs =>
    refine Triple.seq (pwHttpConnect_spec p.exempt cs) ?_
    rintro ⟨found, tried⟩ P' ⟨htried, hfound⟩
    cases found with
    | none =>
      obtain rfl : P' = 0 := hfound
      exact Triple.pure ⟨rfl, sound_unreached k p htried⟩
    | some fd =>
      obtain ⟨addr, -, rfl⟩ := hfound
      refine Triple.seq (converse_spec k p) ?_
      rintro ⟨answer, sent⟩ P' ⟨rfl, ⟨requestSent, bodySent, hanswer⟩, hsent, hall⟩
      exact Triple.pure ⟨rfl, ⟨true, requestSent, bodySent, hanswer⟩, htried, hsent, hall⟩

end Specs

/-- `pw_proxy_http_call` of an engine without a pool, with the addresses it tried and
the bytes it sent. -/
structure DirectResult where
  status : ProxyStatus
  mem : Bytes
  ctx : ProxyCtx
  tried : List SockAddr := []
  sent : Bytes := []

def pwProxyHttpCall (k : Kernel) (ctx : ProxyCtx) (mem : Bytes) (args : HttpCallArgs) :
    Mem SockAddr DirectResult :=
  if 0 < ctx.httpCallMax ∧ ctx.httpCallMax ≤ ctx.httpCallCount then
    pure ⟨.badArgument, mem, ctx, [], []⟩
  else
    let ctx := countCall ctx
    match prepare false ctx mem args with
    | .error status => pure ⟨status, mem, ctx, [], []⟩
    | .ok p => do
      let r ← exchangeDirect k p
      match r.answer with
      | .error status => pure ⟨status, mem, ctx, r.tried, r.sent⟩
      | .ok raw =>
        let stored := storeResponse (k.callEnv true true true) ctx mem args.tokenPtr raw
        pure ⟨stored.status, stored.mem, stored.ctx, r.tried, r.sent⟩

/-- What a callout leaves to the module. -/
def outcome (r : HttpCallResult) : ProxyStatus × Bytes × ProxyCtx := (r.status, r.mem, r.ctx)

/-- The callout of HttpCall, private addresses tried only with an allowlist, and a
first part of the request sent, all of it if a response is stored. -/
structure DirectResult.Sound (k : Kernel) (ctx : ProxyCtx) (mem : Bytes) (args : HttpCallArgs)
    (r : DirectResult) : Prop where
  call : ∃ connected requestSent bodySent, (r.status, r.mem, r.ctx) = outcome
    (HttpCall.pwProxyHttpCall false (k.callEnv connected requestSent bodySent) ctx mem args)
  tried : ctx.allowedUpstreams = [] → ∀ addr ∈ r.tried, vwasmHttpAddrIsPrivate addr = false
  sent : ∀ p, prepare false (countCall ctx) mem args = .ok p →
    r.sent <+: p.request ++ p.body ∧
      (r.ctx.httpCalls ≠ ctx.httpCalls → r.sent = p.request ++ p.body)

section Sound

variable {k : Kernel} {ctx : ProxyCtx} {mem : Bytes} {args : HttpCallArgs}

/-- A callout that is refused before it connects. -/
theorem sound_refused {status : ProxyStatus} {ctx' : ProxyCtx}
    (hcall : (status, mem, ctx') =
      outcome (HttpCall.pwProxyHttpCall false (k.callEnv true true true) ctx mem args))
    (hcalls : ctx'.httpCalls = ctx.httpCalls) :
    DirectResult.Sound k ctx mem args ⟨status, mem, ctx', [], []⟩ where
  call := ⟨true, true, true, hcall⟩
  tried _ _ h := absurd h List.not_mem_nil
  sent _ _ := ⟨List.nil_prefix, fun hne => absurd hcalls hne⟩

/-- A callout that has come to its exchange. -/
theorem sound_exchanged {p : Prepared} {r : Exchanged}
    (hlimit : ¬ (0 < ctx.httpCallMax ∧ ctx.httpCallMax ≤ ctx.httpCallCount))
    (hp : prepare false (countCall ctx) mem args = .ok p) (hr : r.Sound k p)
    {left : ProxyStatus × Bytes × ProxyCtx}
    (hleft : left = afterExchange (k.callEnv true true true) (countCall ctx) mem args.tokenPtr
      r.answer) :
    DirectResult.Sound k ctx mem args ⟨left.1, left.2.1, left.2.2, r.tried, r.sent⟩ where
  call := by
    obtain ⟨connected, requestSent, bodySent, hanswer⟩ := hr.answer
    refine ⟨connected, requestSent, bodySent, hleft.trans ?_⟩
    rw [hanswer]
    exact (pwProxyHttpCall_prepared false (k.callEnv connected requestSent bodySent) ctx mem args p
      hlimit hp).symm
  tried hempty addr haddr := by
    obtain ⟨-, -, -, hallow, -⟩ := prepare_ok false _ mem args p hp
    have hnone : (countCall ctx).allowedUpstreams = [] := hempty
    rw [checkAllowlist, if_pos hnone] at hallow
    rcases hr.tried addr haddr with hexempt | hpublic
    · rw [hexempt] at hallow
      contradiction
    · exact hpublic
  sent p' hp' := by
    obtain rfl := Except.ok.inj (hp.symm.trans hp')
    refine ⟨hr.sent, fun hne => hr.all ?_⟩
    cases hanswer : r.answer with
    | ok raw => exact ⟨raw, rfl⟩
    | error status =>
      rw [hleft, hanswer] at hne
      exact absurd rfl hne

end Sound

end VmodWasm.DirectCallout
