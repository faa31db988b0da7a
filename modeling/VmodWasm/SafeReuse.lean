import VmodWasm.ReceiveBuffer

/-!
When `pw_proxy_http_call` hands its connection back for reuse. The decision
reads the first field of each name; the next response on the connection is
safe if all fields of the header block agree with it. Where a later
Transfer-Encoding, Connection or Content-Length field says something else, the
connection goes back with a response whose end is in doubt.
-/
namespace VmodWasm.SafeReuse

open ByteStrings ByteSearch HttpText HeaderFields ProxyContext HttpCall ResponseReading
open ReceiveBuffer

/-- The response is unambiguously framed by all its fields, and exactly its
bytes have been taken off the connection. -/
structure SafelyFramed (stream : Bytes) (taken : ℕ) (head : Bytes) (size : ℕ) : Prop where
  block : findSub (crlf ++ crlf) stream = some head.length ∧ head <+: stream
  version : ascii "HTTP/1.1" <+: head
  notChunked : ∀ value ∈ valuesOf (ascii "Transfer-Encoding") (headerFields head),
    ¬ ListsToken value (ascii "chunked")
  hasLength : valuesOf (ascii "Content-Length") (headerFields head) ≠ []
  length : ∀ value ∈ valuesOf (ascii "Content-Length") (headerFields head),
    pwHttpParseSize value = some size
  keptOpen : ∀ value ∈ valuesOf (ascii "Connection") (headerFields head),
    ¬ ListsToken value (ascii "close")
  consumed : taken = head.length + 4 + size

/-- Every call that hands its connection back for reuse has read one response
that all its fields frame, and no byte more or less. -/
def ReusesSafely (stream : Bytes) : Prop :=
  ∀ (hasPool : Bool) (env : CallEnv) (ctx : ProxyCtx) (mem : Bytes) (args : HttpCallArgs)
    (buffer : Bytes), env.stream = stream → buffer.length = maxResponse + 1 →
    .connReleased true ∈ (pwProxyHttpCall hasPool env ctx mem args).events →
    ∃ r head size, receive env true buffer = some r ∧
      SafelyFramed stream (stream.length - r.state.unread.length) head size

/-- What the first fields of a header block ending at `i` let the call do. -/
structure FirstFieldsAllow (stream : Bytes) (i size : ℕ) : Prop where
  block : strstr stream (crlf ++ crlf) = some i
  version : ascii "HTTP/1.1" <+: stream
  notChunked : firstLists (ascii "Transfer-Encoding") (ascii "chunked")
    (headerFields (stream.take i)) = false
  keptOpen : firstLists (ascii "Connection") (ascii "close") (headerFields (stream.take i)) = false
  length : ∃ value, (valuesOf (ascii "Content-Length") (headerFields (stream.take i))).head? =
    some value ∧ pwHttpParseSize value = some size
  fits : i + 4 + size ≤ maxResponse
  arrives : i + 4 + size ≤ stream.length

/-- A later field of one of the three names contradicts the first. -/
def LaterFieldConflicts (fields : List (Bytes × Bytes)) (size : ℕ) : Prop :=
  (∃ value ∈ (valuesOf (ascii "Transfer-Encoding") fields).tail,
    ListsToken value (ascii "chunked")) ∨
  (∃ value ∈ (valuesOf (ascii "Connection") fields).tail, ListsToken value (ascii "close")) ∨
  ∃ value ∈ (valuesOf (ascii "Content-Length") fields).tail, pwHttpParseSize value ≠ some size

section Decision

variable (env : CallEnv) (exempt : Bool)

theorem readCounted_reusable (buf rest : Bytes) (i size : ℕ) (sizes : List ℕ) (reuse : Bool)
    (hin : i + 4 ≤ buf.length) (hbound : buf.length ≤ maxResponse)
    (h : (readCounted buf i sizes rest size reuse).reusable = true) :
    reuse = true ∧ i + 4 + size ≤ maxResponse ∧ i + 4 + size ≤ buf.length + rest.length ∧
      (readCounted buf i sizes rest size reuse).buf.length = i + 4 + size := by
  rw [readCounted] at h ⊢
  by_cases hcap : maxResponse - (i + 4) < size
  · rw [if_pos hcap] at h
    simp at h
  rw [if_neg hcap] at h ⊢
  by_cases hmore : size < buf.length - (i + 4)
  · rw [if_pos hmore] at h
    simp at h
  rw [if_neg hmore] at h ⊢
  obtain ⟨m, hneed, hlen, hread⟩ :=
    readBody_spec sizes rest buf (size - (buf.length - (i + 4)))
  rw [hread] at h ⊢
  dsimp only at h ⊢
  by_cases hmissing : size - (buf.length - (i + 4)) - m = 0
  · rw [if_pos hmissing] at h ⊢
    refine ⟨h, by omega, by omega, ?_⟩
    dsimp only
    rw [List.length_append, List.length_take_of_le hlen]
    omega
  · rw [if_neg hmissing] at h
    simp at h

/-- A connection is reused only if the first fields allow it and the response
has been read to its end. -/
theorem readResponse_reusable (h : (readResponse env exempt).reusable = true) :
    exempt = true ∧ ∃ i size, FirstFieldsAllow env.stream i size ∧
      (readResponse env exempt).buf.length = i + 4 + size := by
  obtain ⟨n, sizes, hread, hmax, hlen⟩ := readHead_take env.sizes env.stream
  rcases hfound : strstr (env.stream.take n) (crlf ++ crlf) with _ | i
  · rw [readResponse, hread, hfound] at h
    simp at h
  · obtain ⟨hend, hin⟩ := (strstr_take _ _ _ _ (by simp [crlf])).mp hfound
    rw [List.length_append, length_crlf] at hin
    rw [hfound] at hread
    rw [readResponse_eq env exempt _ _ i sizes hread hfound, List.take_take,
      Nat.min_eq_left (by omega), readFramed] at h ⊢
    by_cases hchunked : firstLists (ascii "Transfer-Encoding") (ascii "chunked")
        (headerFields (env.stream.take i)) = true
    · rw [if_pos hchunked] at h
      simp at h
    rw [if_neg hchunked] at h ⊢
    rcases hvalue : (valuesOf (ascii "Content-Length") (headerFields (env.stream.take i))).head?
      with _ | value
    · rw [hvalue] at h
      dsimp only at h
      by_cases hexact : (env.stream.take n).length = i + 4
      · rw [if_pos hexact] at h
        simp at h
      · rw [if_neg hexact] at h
        simp at h
    · rw [hvalue] at h
      dsimp only at h ⊢
      rcases hsize : pwHttpParseSize value with _ | size
      · rw [hsize] at h
        simp at h
      · rw [hsize] at h
        dsimp only at h ⊢
        have hbuf : (env.stream.take n).length = n := List.length_take_of_le hlen
        obtain ⟨hreuse, hfits, harrives, hbuflen⟩ := readCounted_reusable _ _ _ _ _ _
          (by omega) (by omega) h
        rw [Bool.and_eq_true, Bool.and_eq_true, List.isPrefixOf_iff_prefix] at hreuse
        obtain ⟨⟨hversion, hopen⟩, hexempt⟩ := hreuse
        rw [hbuf, List.length_drop] at harrives
        refine ⟨hexempt, i, size, ⟨hend, hversion.trans (List.take_prefix _ _),
          by simpa using hchunked, by simpa using hopen, ⟨value, hvalue, hsize⟩, hfits,
          by omega⟩, hbuflen⟩

theorem connReleased_exchange (hasPool : Bool) (p : Prepared)
    (h : .connReleased true ∈ (exchange hasPool env p).1) :
    (readResponse env p.exempt).reusable = true := by
  rcases exchange_cases hasPool env p with ⟨-, rest, heq, hrest⟩ | ⟨-, heq⟩
  · rw [heq, List.mem_cons] at h
    rcases h with h | h
    · simp at h
    · have hmem := hrest _ h
      simp at hmem
  · rw [heq] at h
    cases hasPool with
    | false => simp at h
    | true => cases hcomplete : (readResponse env p.exempt).complete <;> simp_all

theorem connReleased_call (hasPool : Bool) (ctx : ProxyCtx) (mem : Bytes) (args : HttpCallArgs)
    (h : .connReleased true ∈ (pwProxyHttpCall hasPool env ctx mem args).events) :
    (readResponse env true).reusable = true := by
  have hreuse : ∃ p : Prepared, (readResponse env p.exempt).reusable = true := by
    rcases pwProxyHttpCall_cases hasPool env ctx mem args _ rfl with
      ⟨_, _, hr⟩ | ⟨_, ⟨_, _, hr⟩ | ⟨p, _, ⟨events, _, hx, hr⟩ | ⟨events, _, _, hx, _, hr⟩⟩⟩
    · rw [hr] at h
      simp at h
    · rw [hr] at h
      simp at h
    all_goals
      rw [hr] at h
      refine ⟨p, connReleased_exchange env hasPool p ?_⟩
      rw [hx]
      simpa using h
  obtain ⟨p, hp⟩ := hreuse
  rw [(readResponse_reusable env _ hp).1] at hp
  exact hp

end Decision

/-- The version stands in the header block: it has no CR, where the block ends. -/
theorem version_in_block (stream : Bytes) (i : ℕ) (hend : strstr stream (crlf ++ crlf) = some i)
    (h : ascii "HTTP/1.1" <+: stream) : ascii "HTTP/1.1" <+: stream.take i := by
  obtain ⟨rest, hstream, _, hi⟩ := strstr_split stream _ i (by simp [crlf]) hend
  refine List.prefix_take_iff.mpr ⟨h, ?_⟩
  by_contra hlt
  have hcr : stream[i]? = some 0x0d := by
    rw [hstream, List.append_assoc, List.getElem?_append_right (by omega), hi, Nat.sub_self]
    rfl
  obtain ⟨tail, htail⟩ := h
  rw [← htail, List.getElem?_append_left (by omega)] at hcr
  have hmem := List.mem_of_getElem? hcr
  revert hmem
  decide

theorem findSub_of_strstr (l pat : Bytes) (i : ℕ) (hpat : pat ≠ []) (h : strstr l pat = some i) :
    findSub pat l = some i := by
  have hcut : cstr l <+: l := List.takeWhile_prefix _
  rw [strstr, List.prefix_iff_eq_take.mp hcut, findSub_take _ _ _ _ hpat] at h
  exact h.1

theorem forall_of_first {values : List Bytes} {P : Bytes → Prop}
    (hfirst : ∀ value, values.head? = some value → P value)
    (hlater : ∀ value ∈ values.tail, P value) : ∀ value ∈ values, P value := by
  intro value hmem
  cases values with
  | nil => simp at hmem
  | cons first later =>
    rcases List.mem_cons.mp hmem with rfl | hmem
    · exact hfirst value rfl
    · exact hlater value hmem

theorem firstLists_eq_false (name token : Bytes) (htoken : token ≠ [])
    (fields : List (Bytes × Bytes)) (h : firstLists name token fields = false) (value : Bytes)
    (hvalue : (valuesOf name fields).head? = some value) : ¬ ListsToken value token := by
  intro hlists
  rw [firstLists, hvalue] at h
  dsimp only at h
  rw [pwHttpValueHasToken, (tokenLoop_iff token htoken _ _ (by omega)).mpr hlists] at h
  contradiction

/-- First fields that allow it, and no later one against it, make a safe reuse. -/
theorem FirstFieldsAllow.safelyFramed {stream : Bytes} {i size : ℕ}
    (h : FirstFieldsAllow stream i size)
    (hlater : ¬ LaterFieldConflicts (headerFields (stream.take i)) size) :
    SafelyFramed stream (i + 4 + size) (stream.take i) size := by
  obtain ⟨value, hvalue, hsize⟩ := h.length
  obtain ⟨_, _, _, hi⟩ := strstr_split stream _ i (by simp [crlf]) h.block
  simp only [LaterFieldConflicts, not_or, not_exists, not_and] at hlater
  obtain ⟨hchunked, hclose, hlength⟩ := hlater
  refine ⟨⟨?_, List.take_prefix _ _⟩, version_in_block stream i h.block h.version, ?_, ?_, ?_, ?_,
    by rw [hi]⟩
  · rw [hi]
    exact findSub_of_strstr _ _ i (by simp [crlf]) h.block
  · exact forall_of_first (firstLists_eq_false _ _ (by simp [ascii]) _ h.notChunked) hchunked
  · intro hnil
    rw [hnil] at hvalue
    contradiction
  · refine forall_of_first (fun first hfirst => ?_) (fun v hv => not_not.mp (hlength v hv))
    rw [hvalue, Option.some.injEq] at hfirst
    rw [← hfirst, hsize]
  · exact forall_of_first (firstLists_eq_false _ _ (by simp [ascii]) _ h.keptOpen) hclose

/-- A response that all its fields frame has no later field against the first. -/
theorem SafelyFramed.not_conflicts {stream head : Bytes} {taken i size size' : ℕ}
    (h : SafelyFramed stream taken head size') (hallow : FirstFieldsAllow stream i size) :
    ¬ LaterFieldConflicts (headerFields (stream.take i)) size := by
  have hblock := findSub_of_strstr _ _ i (by simp [crlf]) hallow.block
  have hhead : head = stream.take i := by
    rw [h.block.1, Option.some.injEq] at hblock
    rw [← hblock]
    exact List.prefix_iff_eq_take.mp h.block.2
  obtain ⟨value, hvalue, hsize⟩ := hallow.length
  rw [← hhead] at hvalue ⊢
  have hsame : size' = size := by
    have hmem := h.length value (List.mem_of_mem_head? hvalue)
    rw [hsize, Option.some.injEq] at hmem
    exact hmem.symm
  subst hsame
  rintro (⟨v, hv, hlists⟩ | ⟨v, hv, hlists⟩ | ⟨v, hv, hne⟩)
  · exact h.notChunked v (List.mem_of_mem_tail hv) hlists
  · exact h.keptOpen v (List.mem_of_mem_tail hv) hlists
  · exact hne (h.length v (List.mem_of_mem_tail hv))

section Reuse

/-- A context whose allowlist names the upstream `a:80`. -/
def exemptCtx : ProxyCtx := { memoryValid := true, allowedUpstreams := [ascii "a:80"] }

def exemptCall (env : CallEnv) : HttpCallResult :=
  pwProxyHttpCall true env exemptCtx (ascii "a" ++ [0, 0, 0]) (plainArgs (ascii "a") 0)

theorem exchange_releases (env : CallEnv) (hserved : Served env) (p : Prepared) :
    .connReleased (readResponse env p.exempt).reusable ∈ (exchange true env p).1 := by
  have hsends : sends env p = true := by
    simp [sends, hserved.connected, hserved.requestSent, hserved.bodySent, hserved.responseAlloc]
  rcases exchange_cases true env p with ⟨hno, -⟩ | ⟨-, heq⟩
  · simp [hsends] at hno
  · simp [heq]

theorem exemptCall_releases (env : CallEnv) (hserved : Served env)
    (hreuse : (readResponse env true).reusable = true) :
    .connReleased true ∈ (exemptCall env).events := by
  have hp := prepare_plain true (countCall exemptCtx) (ascii "a") [0, 0, 0] (ascii "a") 80 0 true
    rfl rfl rfl
  have hevents := pwProxyHttpCall_prepared_events true env exemptCtx _ _ _ (by decide) hp
  have hreleased := exchange_releases env hserved _ |> hevents.subset
  rw [hreuse] at hreleased
  exact hreleased

/-- Read the header block first and then the body: the connection is reused. -/
theorem FirstFieldsAllow.reused {stream : Bytes} {i size : ℕ} (h : FirstFieldsAllow stream i size) :
    (readResponse { stream := stream, sizes := [i + 4, stream.length] } true).reusable = true := by
  have hfits := h.fits
  have harrives := h.arrives
  obtain ⟨value, hvalue, hsize⟩ := h.length
  have hread := readHead_first stream (i + 4) i [stream.length] h.block (by omega) (by omega)
    (by omega)
  have hend := (strstr_take stream (crlf ++ crlf) (i + 4) i (by simp [crlf])).mpr
    ⟨h.block, by simp [crlf]⟩
  have hbuf : (stream.take (i + 4)).length = i + 4 := List.length_take_of_le (by omega)
  have hcovers : Covers [stream.length] (stream.drop (i + 4)) := by
    refine ⟨fun k hk => ?_, by simp⟩
    rw [List.mem_singleton.mp hk]
    omega
  have hbody := readBody_after stream (i + 4) (i + 4 + size) [stream.length] (by omega) (by omega)
    hfits (Or.inl hcovers)
  rw [Nat.add_sub_cancel_left] at hbody
  have hversion : (ascii "HTTP/1.1").isPrefixOf (stream.take (i + 4)) = true := by
    rw [List.isPrefixOf_iff_prefix]
    exact (version_in_block stream i h.block h.version).trans
      (List.take_prefix_take_left (by omega))
  rw [readResponse_eq _ true _ _ i _ hread hend, List.take_take, Nat.min_eq_left (by omega),
    readFramed, h.notChunked, if_neg (by decide), hvalue]
  dsimp only
  rw [hsize]
  dsimp only
  rw [readCounted, hbuf, if_neg (by omega), if_neg (by omega), Nat.sub_self, Nat.sub_zero, hbody]
  dsimp only
  rw [if_pos (by omega), hversion, h.keptOpen]
  rfl

end Reuse

/-- The connection is reused safely unless the first fields allow it and a
later one contradicts them. -/
theorem reusesSafely_iff (stream : Bytes) :
    ReusesSafely stream ↔
      ¬ ∃ i size, FirstFieldsAllow stream i size ∧
        LaterFieldConflicts (headerFields (stream.take i)) size := by
  constructor
  · rintro hsafe ⟨i, size, hallow, hconflict⟩
    obtain ⟨r, head, size', _, hframed⟩ := hsafe true
      { stream := stream, sizes := [i + 4, stream.length] } exemptCtx (ascii "a" ++ [0, 0, 0])
      (plainArgs (ascii "a") 0) (List.replicate (maxResponse + 1) 0) rfl List.length_replicate
      (exemptCall_releases _ ⟨rfl, rfl, rfl, rfl, rfl⟩ hallow.reused)
    exact hframed.not_conflicts hallow hconflict
  · intro hnone hasPool env ctx mem args buffer hstream hsize hreleased
    have hreuse := connReleased_call env hasPool ctx mem args hreleased
    obtain ⟨_, i, size, hallow, hlen⟩ := readResponse_reusable env true hreuse
    obtain ⟨r, hr, hagrees⟩ := receive_agrees env true buffer hsize
    subst hstream
    refine ⟨r, env.stream.take i, size, hr, ?_⟩
    have hread := hagrees.read_eq
    have htaken := congrArg List.length (hagrees.taken (by rw [hread] at hreuse; exact hreuse))
    rw [hread] at hlen
    dsimp only at hlen
    rw [List.length_append, hlen] at htaken
    rw [← htaken, Nat.add_sub_cancel]
    exact hallow.safelyFramed fun hconflict => hnone ⟨i, size, hallow, hconflict⟩

/-- A response that gives two lengths. -/
def conflictingLengths : Bytes :=
  ascii "HTTP/1.1 200 OK" ++ crlf ++ ascii "Content-Length: 2" ++ crlf ++
    ascii "Content-Length: 40" ++ crlf ++ crlf ++ ascii "hi"

/-- The connection goes back for reuse after two bytes of a body that may be
forty bytes long. -/
theorem conflictingLengths_reused :
    .connReleased true ∈
      (exemptCall { stream := conflictingLengths, sizes := [58, 2] }).events ∧
    valuesOf (ascii "Content-Length") (headerFields (conflictingLengths.take 54)) =
      [ascii "2", ascii "40"] ∧
    ¬ ReusesSafely conflictingLengths := by
  have hallow : FirstFieldsAllow conflictingLengths 54 2 :=
    ⟨by decide +kernel, by decide +kernel, by decide +kernel, by decide +kernel,
      ⟨ascii "2", by decide +kernel⟩, by decide, by decide⟩
  have hconflict : LaterFieldConflicts (headerFields (conflictingLengths.take 54)) 2 :=
    Or.inr (Or.inr ⟨ascii "40", by decide +kernel, by decide⟩)
  have hreleased : .connReleased true ∈
      (exemptCall { stream := conflictingLengths, sizes := [58, 2] }).events := by
    decide +kernel
  refine ⟨hreleased, by decide +kernel, fun hsafe => ?_⟩
  obtain ⟨_, _, _, _, hframed⟩ := hsafe true
    { stream := conflictingLengths, sizes := [58, 2] } exemptCtx (ascii "a" ++ [0, 0, 0])
    (plainArgs (ascii "a") 0) (List.replicate (maxResponse + 1) 0) rfl List.length_replicate
    hreleased
  exact hframed.not_conflicts hallow hconflict

end VmodWasm.SafeReuse
