import VmodWasm.HeaderFields
import VmodWasm.HttpCall

/-!
How `pw_proxy_http_call` reads a response. The two read loops are compared
with `answerOf`, a function of the bytes alone: whatever the reads cut off a
stream, the answer is that one, except where bytes follow a header block that
does not frame them. Below the loops stands the receive buffer: a fixed array
of 256 KiB and one byte, in which every store and every subtraction is checked.
-/
namespace VmodWasm.ResponseReading

open ByteStrings ByteSearch HttpText HeaderFields ProxyContext HttpCall Lib.KeyedList

/-- A way to cut the stream into successful reads: none is empty, and together
they reach its end. -/
structure Covers (sizes : List ℕ) (stream : Bytes) : Prop where
  positive : ∀ k ∈ sizes, 0 < k
  enough : stream.length ≤ sizes.sum

/-- After a read the rest is still covered, unless the read got all it wanted. -/
theorem Covers.next {k : ℕ} {ks : List ℕ} {stream : Bytes} (want : ℕ)
    (h : Covers (k :: ks) stream) :
    Covers ks (stream.drop (stream.take (min k want)).length) ∨
      (stream.take (min k want)).length = want := by
  have henough := h.enough
  rw [List.sum_cons] at henough
  rw [List.length_take]
  by_cases hwant : k ≤ want ∨ stream.length < want
  · left
    refine ⟨fun j hj => h.positive j (List.mem_cons_of_mem _ hj), ?_⟩
    rw [List.length_drop]
    omega
  · right
    omega

/-- A read of at least one byte comes back empty only at the end of the stream. -/
theorem Covers.ended {k : ℕ} {ks : List ℕ} {stream : Bytes} (want : ℕ)
    (h : Covers (k :: ks) stream) (hwant : 0 < want) (hgot : stream.take (min k want) = []) :
    stream = [] := by
  have hk := h.positive k List.mem_cons_self
  rcases List.take_eq_nil_iff.mp hgot with hmin | hnil
  · omega
  · exact hnil

section ReadHead

variable (sizes : List ℕ) (stream buf : Bytes)

/-- Phase 1 keeps every byte in order, stays inside the buffer, and answers
with the first end of a header block it holds. -/
theorem readHead_spec (hle : buf.length ≤ maxResponse) (hnone : strstr buf (crlf ++ crlf) = none) :
    (readHead sizes stream buf).1 ++ (readHead sizes stream buf).2.2.2 = buf ++ stream ∧
      (readHead sizes stream buf).1.length ≤ maxResponse ∧
      strstr (readHead sizes stream buf).1 (crlf ++ crlf) = (readHead sizes stream buf).2.1 := by
  fun_induction readHead sizes stream buf with
  | case1 stream buf => exact ⟨rfl, hle, hnone⟩
  | case2 k ks stream buf hfull => exact ⟨rfl, hle, hnone⟩
  | case3 k ks stream buf hfull got hgot => exact ⟨rfl, hle, hnone⟩
  | case4 k ks stream buf hfull got hgot i hi =>
    refine ⟨?_, ?_, hi⟩
    · rw [List.append_assoc, List.append_cancel_left_eq]
      exact List.prefix_append_drop (List.take_prefix _ _) |>.symm
    · have hlen : got.length ≤ maxResponse - buf.length := by
        simp only [got, List.length_take]
        omega
      simp only [List.length_append]
      omega
  | case5 k ks stream buf hfull got hgot hnone' ih =>
    have hlen : got.length ≤ maxResponse - buf.length := by
      simp only [got, List.length_take]
      omega
    obtain ⟨hkeep, hle', hfound⟩ := ih (by simp only [List.length_append]; omega) hnone'
    refine ⟨?_, hle', hfound⟩
    rw [hkeep, List.append_assoc, List.append_cancel_left_eq]
    exact List.prefix_append_drop (List.take_prefix _ _) |>.symm

theorem readHead_full (hfull : maxResponse ≤ buf.length) :
    (readHead sizes stream buf).1 = buf := by
  cases sizes with
  | nil => rfl
  | cons k ks => rw [readHead, if_pos hfull]

/-- Phase 1 gives up only at the end of the stream or with a full buffer. -/
theorem readHead_covers (hcovers : Covers sizes stream) :
    (Covers (readHead sizes stream buf).2.2.1 (readHead sizes stream buf).2.2.2 ∨
        maxResponse ≤ (readHead sizes stream buf).1.length) ∧
      ((readHead sizes stream buf).2.1 = none →
        maxResponse ≤ (readHead sizes stream buf).1.length ∨
          (readHead sizes stream buf).2.2.2 = []) := by
  fun_induction readHead sizes stream buf with
  | case1 stream buf =>
    refine ⟨Or.inl hcovers, fun _ => Or.inr ?_⟩
    exact List.length_eq_zero_iff.mp (Nat.le_zero.mp hcovers.enough)
  | case2 k ks stream buf hfull => exact ⟨Or.inr hfull, fun _ => Or.inl hfull⟩
  | case3 k ks stream buf hfull got hgot =>
    have hnil := hcovers.ended (maxResponse - buf.length) (by omega) hgot
    subst hnil
    refine ⟨Or.inl ⟨fun j hj => hcovers.positive j (List.mem_cons_of_mem _ hj), by simp⟩, ?_⟩
    exact fun _ => Or.inr rfl
  | case4 k ks stream buf hfull got hgot i hi =>
    refine ⟨?_, fun h => by simp at h⟩
    rcases hcovers.next (maxResponse - buf.length) with hnext | hfilled
    · exact Or.inl hnext
    · right
      simp only [List.length_append, got]
      omega
  | case5 k ks stream buf hfull got hgot hnone' ih =>
    rcases hcovers.next (maxResponse - buf.length) with hnext | hfilled
    · exact ih hnext
    · have hle : maxResponse ≤ (buf ++ got).length := by
        simp only [List.length_append, got]
        omega
      rw [readHead_full _ _ _ hle]
      exact ⟨Or.inr hle, fun _ => Or.inl hle⟩

/-- Phase 1 from an empty buffer: it takes some number of bytes off the stream. -/
theorem readHead_take :
    ∃ n sizes', readHead sizes stream [] =
        (stream.take n, strstr (stream.take n) (crlf ++ crlf), sizes', stream.drop n) ∧
      n ≤ maxResponse ∧ n ≤ stream.length := by
  have hspec := readHead_spec sizes stream [] (by simp) rfl
  rcases hread : readHead sizes stream [] with ⟨buf, found, sizes', rest⟩
  rw [hread] at hspec
  obtain ⟨hkeep, hle, hfound⟩ := hspec
  dsimp only [List.nil_append] at hkeep hle hfound
  subst hkeep hfound
  exact ⟨buf.length, sizes', by rw [List.take_left, List.drop_left], hle, by simp⟩

theorem readHead_found (i : ℕ) (hcovers : Covers sizes stream)
    (hend : strstr stream (crlf ++ crlf) = some i) (hfits : i + 4 ≤ maxResponse) :
    ∃ n sizes', readHead sizes stream [] = (stream.take n, some i, sizes', stream.drop n) ∧
      i + 4 ≤ n ∧ n ≤ maxResponse ∧ n ≤ stream.length ∧
      (Covers sizes' (stream.drop n) ∨ maxResponse ≤ n) := by
  obtain ⟨n, sizes', hread, hmax, hlen⟩ := readHead_take sizes stream
  have hcov := readHead_covers sizes stream [] hcovers
  rw [hread] at hcov
  dsimp only at hcov
  rw [List.length_take_of_le hlen] at hcov
  have hn : i + 4 ≤ n := by
    have hbound := findSub_end_le _ _ _ (by simp [crlf]) hend
    have hcstr : (cstr stream).length ≤ stream.length := (List.takeWhile_prefix _).length_le
    have hpat : (crlf ++ crlf).length = 4 := rfl
    by_contra hlt
    have hnone : strstr (stream.take n) (crlf ++ crlf) = none := by
      rw [Option.eq_none_iff_forall_ne_some]
      intro j hj
      obtain ⟨hj, hjn⟩ := (strstr_take _ _ _ _ (by simp [crlf])).mp hj
      rw [hend, Option.some.injEq] at hj
      omega
    rcases hcov.2 hnone with hfull | hrest
    · omega
    · rw [List.drop_eq_nil_iff] at hrest
      omega
  have hfound := (strstr_take stream (crlf ++ crlf) n i (by simp [crlf])).mpr ⟨hend, hn⟩
  exact ⟨n, sizes', by rw [hread, hfound], hn, hmax, hlen, hcov.1⟩

theorem readHead_missing (hend : ∀ i, strstr stream (crlf ++ crlf) = some i → maxResponse < i + 4) :
    (readHead sizes stream []).2.1 = none := by
  obtain ⟨n, sizes', hread, hmax, _⟩ := readHead_take sizes stream
  rw [hread, Option.eq_none_iff_forall_ne_some]
  intro i hi
  obtain ⟨hi, hn⟩ := (strstr_take _ _ _ _ (by simp [crlf])).mp hi
  have hpat : (crlf ++ crlf).length = 4 := rfl
  have := hend i hi
  omega

end ReadHead

section ReadBody

variable (sizes : List ℕ) (stream buf : Bytes) (need : ℕ)

omit sizes buf need in
theorem take_after (got : Bytes) (h : got <+: stream) (m : ℕ) :
    stream.take (got.length + m) = got ++ (stream.drop got.length).take m := by
  obtain ⟨rest, rfl⟩ := h
  rw [List.take_length_add_append, List.drop_left]

/-- Phase 2 appends some number of the bytes it needs. -/
theorem readBody_spec :
    ∃ m ≤ need, m ≤ stream.length ∧
      readBody sizes stream buf need = (buf ++ stream.take m, need - m) := by
  fun_induction readBody sizes stream buf need with
  | case1 sizes stream buf => exact ⟨0, by omega, by omega, by simp⟩
  | case2 stream buf need => exact ⟨0, by omega, by omega, by simp⟩
  | case3 k ks stream buf need room hroom => exact ⟨0, by omega, by omega, by simp⟩
  | case4 k ks stream buf need room hroom got hgot => exact ⟨0, by omega, by omega, by simp⟩
  | case5 k ks stream buf need room hroom got hgot ih =>
    obtain ⟨m, hneed, hlen, hread⟩ := ih
    have hgotlen : got.length ≤ need + 1 ∧ got.length ≤ stream.length := by
      simp only [got, List.length_take]
      omega
    rw [List.length_drop] at hlen
    refine ⟨got.length + m, by omega, by omega, ?_⟩
    rw [hread, List.append_assoc, ← take_after stream got (List.take_prefix _ _),
      Nat.sub_sub]

/-- With every byte on offer and room for the body, phase 2 reads all of it
that the stream has. -/
theorem readBody_covers (hcovers : Covers sizes stream) (hroom : buf.length + need ≤ maxResponse) :
    readBody sizes stream buf need = (buf ++ stream.take need, need - stream.length) := by
  fun_induction readBody sizes stream buf need with
  | case1 sizes stream buf => simp
  | case2 stream buf need =>
    obtain rfl := List.length_eq_zero_iff.mp (Nat.le_zero.mp hcovers.enough)
    simp
  | case3 k ks stream buf need room hfull => omega
  | case4 k ks stream buf need room hfull got hgot =>
    obtain rfl := hcovers.ended (min (need + 1) room) (by omega) hgot
    simp
  | case5 k ks stream buf need room hfull got hgot ih =>
    have hgotlen : got.length ≤ need + 1 ∧ got.length ≤ stream.length := by
      simp only [got, List.length_take]
      omega
    obtain ⟨rest, hrest⟩ : ∃ rest, need + 1 = got.length + rest :=
      ⟨need + 1 - got.length, by omega⟩
    have htake : stream.take (need + 1) = got ++ (stream.drop got.length).take rest := by
      rw [hrest]
      exact take_after stream got (List.take_prefix _ _) rest
    have hleft : need + 1 - got.length = rest := by omega
    rw [hleft] at ih ⊢
    rw [htake, ← List.append_assoc]
    rcases hcovers.next (min (need + 1) room) with hnext | hfilled
    · rw [ih hnext (by simp only [List.length_append]; omega), List.length_drop]
      congr 1
      omega
    · -- the read got all that is needed
      have hgot' : got.length = min (need + 1) room := hfilled
      obtain rfl : rest = 0 := by omega
      rw [readBody, List.take_zero, List.append_nil]
      congr 1
      omega

end ReadBody

section Answer

/-- The first field of the name, if there is one, lists the token. -/
def firstLists (name token : Bytes) (fields : List (Bytes × Bytes)) : Bool :=
  match (valuesOf name fields).head? with
  | some value => pwHttpValueHasToken value token
  | none => false

/-- The body of a response that gives its length. -/
def readCounted (buf : Bytes) (i : ℕ) (sizes : List ℕ) (rest : Bytes) (size : ℕ)
    (reuse : Bool) : ResponseRead :=
  if maxResponse - (i + 4) < size then ⟨buf, false, false, .internal⟩
  else if size < buf.length - (i + 4) then ⟨buf.take (i + 4 + size), true, false, .ok⟩
  else
    let (full, missing) := readBody sizes rest buf (size - (buf.length - (i + 4)))
    if missing = 0 then ⟨full, true, reuse, .ok⟩ else ⟨full, false, false, .internal⟩

/-- The rest of the reading once the header block's fields are known. -/
def readFramed (buf : Bytes) (i : ℕ) (sizes : List ℕ) (rest : Bytes)
    (fields : List (Bytes × Bytes)) (exempt : Bool) : ResponseRead :=
  if firstLists (ascii "Transfer-Encoding") (ascii "chunked") fields then
    ⟨buf, false, false, .unimplemented⟩
  else
    match (valuesOf (ascii "Content-Length") fields).head? with
    | some value =>
      match pwHttpParseSize value with
      | none => ⟨buf, false, false, .parseFailure⟩
      | some size =>
        readCounted buf i sizes rest size ((ascii "HTTP/1.1").isPrefixOf buf &&
          !firstLists (ascii "Connection") (ascii "close") fields && exempt)
    | none =>
      if buf.length = i + 4 then ⟨buf, true, false, .ok⟩
      else ⟨buf, false, false, .parseFailure⟩

theorem readResponse_eq (env : CallEnv) (exempt : Bool) (buf rest : Bytes) (i : ℕ)
    (sizes : List ℕ) (hread : readHead env.sizes env.stream [] = (buf, some i, sizes, rest))
    (hend : strstr buf (crlf ++ crlf) = some i) :
    readResponse env exempt = readFramed buf i sizes rest (headerFields (buf.take i)) exempt := by
  unfold readResponse
  rw [hread]
  dsimp only
  simp only [pwHttpFindHeaderValue_eq buf _ i hend]
  rfl

/-- What the caller makes of a reading: an error or the bytes of the response. -/
def answer (r : ResponseRead) : Except ProxyStatus Bytes :=
  if !r.complete || r.buf.isEmpty then .error r.status else .ok r.buf

/-- The answer to a stream, as a function of its bytes. -/
def answerOf (stream : Bytes) : Except ProxyStatus Bytes :=
  match strstr stream (crlf ++ crlf) with
  | none => .error .parseFailure
  | some i =>
    if maxResponse < i + 4 then .error .parseFailure
    else
      let fields := headerFields (stream.take i)
      if firstLists (ascii "Transfer-Encoding") (ascii "chunked") fields then
        .error .unimplemented
      else
        match (valuesOf (ascii "Content-Length") fields).head? with
        | none => .ok (stream.take (i + 4))
        | some value =>
          match pwHttpParseSize value with
          | none => .error .parseFailure
          | some size =>
            if maxResponse < i + 4 + size ∨ stream.length < i + 4 + size then .error .internal
            else .ok (stream.take (i + 4 + size))

/-- Bytes follow a header block that is neither chunked nor gives a length. -/
def UnframedBody (stream : Bytes) : Prop :=
  ∃ i, strstr stream (crlf ++ crlf) = some i ∧ i + 4 < maxResponse ∧ i + 4 < stream.length ∧
    firstLists (ascii "Transfer-Encoding") (ascii "chunked") (headerFields (stream.take i)) =
      false ∧
    (valuesOf (ascii "Content-Length") (headerFields (stream.take i))).head? = none

theorem answer_ok (buf : Bytes) (reusable : Bool) (hne : buf ≠ []) :
    answer ⟨buf, true, reusable, .ok⟩ = .ok buf := by
  simp [answer, hne]

theorem answer_error (buf : Bytes) (reusable : Bool) (status : ProxyStatus) :
    answer ⟨buf, false, reusable, status⟩ = .error status := by
  simp [answer]

/-- Phase 2 after phase 1 took `n` bytes, for a message of `total` bytes. -/
theorem readBody_after (stream : Bytes) (n total : ℕ) (sizes : List ℕ) (hlen : n ≤ stream.length)
    (hn : n ≤ total) (htotal : total ≤ maxResponse)
    (hcovers : Covers sizes (stream.drop n) ∨ maxResponse ≤ n) :
    readBody sizes (stream.drop n) (stream.take n) (total - n) =
      (stream.take total, total - stream.length) := by
  have hjoin : stream.take n ++ (stream.drop n).take (total - n) = stream.take total := by
    rw [← List.take_add, Nat.add_sub_cancel' hn]
  rcases hcovers with hcovers | hfull
  · rw [readBody_covers _ _ _ _ hcovers (by rw [List.length_take_of_le hlen]; omega), hjoin,
      List.length_drop]
    congr 1
    omega
  · have hzero : total - n = 0 := by omega
    rw [hzero, List.take_zero, List.append_nil] at hjoin
    rw [hzero, readBody, hjoin]
    congr 1
    omega

section Taken

-- phase 1 took `n` bytes of a stream whose header block ends at `i + 4`
variable (stream : Bytes) (n i : ℕ) (sizes : List ℕ) (hin : i + 4 ≤ n) (hmax : n ≤ maxResponse)
  (hlen : n ≤ stream.length) (hcovers : Covers sizes (stream.drop n) ∨ maxResponse ≤ n)

include hin hlen

theorem take_ne_nil (m : ℕ) (hm : i + 4 ≤ m) : stream.take m ≠ [] := by
  intro h
  have := congrArg List.length h
  rw [List.length_take, List.length_nil] at this
  omega

include hcovers hmax

theorem readCounted_answer (size : ℕ) (reuse : Bool) :
    answer (readCounted (stream.take n) i sizes (stream.drop n) size reuse) =
      if maxResponse < i + 4 + size ∨ stream.length < i + 4 + size then .error .internal
      else .ok (stream.take (i + 4 + size)) := by
  have hne := take_ne_nil stream n i hin hlen
  rw [readCounted, List.length_take_of_le hlen]
  by_cases hcap : maxResponse < i + 4 + size
  · rw [if_pos (by omega), if_pos (Or.inl hcap), answer_error]
  · rw [if_neg (by omega)]
    by_cases hmore : size < n - (i + 4)
    · rw [if_pos hmore, if_neg (by omega), List.take_take, Nat.min_eq_left (by omega),
        answer_ok _ _ (hne _ (by omega))]
    · rw [if_neg hmore, show size - (n - (i + 4)) = i + 4 + size - n by omega,
        readBody_after stream n (i + 4 + size) sizes hlen (by omega) (by omega) hcovers]
      dsimp only
      by_cases hshort : stream.length < i + 4 + size
      · rw [if_neg (by omega), if_pos (Or.inr hshort), answer_error]
      · rw [if_pos (by omega), if_neg (by omega), answer_ok _ _ (hne _ (by omega))]

theorem readFramed_answer (exempt : Bool) (hend : strstr stream (crlf ++ crlf) = some i)
    (hframed : UnframedBody stream → n = i + 4) :
    answer (readFramed (stream.take n) i sizes (stream.drop n) (headerFields (stream.take i))
      exempt) = answerOf stream := by
  rw [answerOf, hend]
  dsimp only
  rw [if_neg (by omega), readFramed, List.length_take_of_le hlen]
  by_cases hchunked : firstLists (ascii "Transfer-Encoding") (ascii "chunked")
      (headerFields (stream.take i)) = true
  · rw [if_pos hchunked, if_pos hchunked, answer_error]
  rw [if_neg hchunked, if_neg hchunked]
  rcases hlength : (valuesOf (ascii "Content-Length") (headerFields (stream.take i))).head?
    with _ | value
  · have hexact : n = i + 4 := by
      by_contra hmore
      exact hmore (hframed ⟨i, hend, by omega, by omega, by simpa using hchunked, hlength⟩)
    dsimp only
    rw [if_pos hexact, answer_ok _ _ (take_ne_nil stream n i hin hlen n hin), hexact]
  · dsimp only
    rcases pwHttpParseSize value with _ | size
    · exact answer_error _ _ _
    · exact readCounted_answer stream n i sizes hin hmax hlen hcovers size _

end Taken

/-- However the reads cut the stream, the answer is that of its bytes. -/
theorem readResponse_answer (env : CallEnv) (exempt : Bool)
    (hcovers : Covers env.sizes env.stream) (hframed : ¬ UnframedBody env.stream) :
    answer (readResponse env exempt) = answerOf env.stream := by
  by_cases hend : ∃ i, strstr env.stream (crlf ++ crlf) = some i ∧ i + 4 ≤ maxResponse
  · obtain ⟨i, hend, hfits⟩ := hend
    obtain ⟨n, sizes, hread, hin, hmax, hlen, hcov⟩ :=
      readHead_found env.sizes env.stream i hcovers hend hfits
    have hend' := (strstr_take env.stream (crlf ++ crlf) n i (by simp [crlf])).mpr ⟨hend, hin⟩
    rw [readResponse_eq env exempt _ _ i sizes hread hend', List.take_take,
      Nat.min_eq_left (by omega)]
    exact readFramed_answer env.stream n i sizes hin hmax hlen hcov exempt hend
      (fun h => absurd h hframed)
  · have hmissing (i : ℕ) (hi : strstr env.stream (crlf ++ crlf) = some i) :
        maxResponse < i + 4 := by
      by_contra hle
      exact hend ⟨i, hi, by omega⟩
    have hnone := readHead_missing env.sizes env.stream hmissing
    rcases hread : readHead env.sizes env.stream [] with ⟨buf, found, sizes, rest⟩
    rw [hread] at hnone
    dsimp only at hnone
    subst hnone
    have hresponse : readResponse env exempt = ⟨buf, false, false, .parseFailure⟩ := by
      rw [readResponse, hread]
    rw [hresponse, answer_error, answerOf]
    rcases hfound : strstr env.stream (crlf ++ crlf) with _ | i
    · rfl
    · dsimp only
      rw [if_pos (hmissing i hfound)]

end Answer

section Segmentation

theorem exchange_result (hasPool : Bool) (env : CallEnv) (p : Prepared) :
    (exchange hasPool env p).2 =
      if sends env p then answer (readResponse env p.exempt) else .error .internal := by
  rcases exchange_cases hasPool env p with ⟨hsends, rest, heq, -⟩ | ⟨hsends, heq⟩
  · rw [heq, hsends]
    rfl
  · rw [heq, hsends]
    rfl

/-- What an exchange leaves for the module: a status, its memory, its context. -/
def afterExchange (env : CallEnv) (ctx : ProxyCtx) (mem : Bytes) (tokenPtr : UInt32) :
    Except ProxyStatus Bytes → ProxyStatus × Bytes × ProxyCtx
  | .error status => (status, mem, ctx)
  | .ok raw =>
    let r := storeResponse env ctx mem tokenPtr raw
    (r.status, r.mem, r.ctx)

/-- A call that passes its checks comes to what its exchange leaves. -/
theorem pwProxyHttpCall_prepared (hasPool : Bool) (env : CallEnv) (ctx : ProxyCtx) (mem : Bytes)
    (args : HttpCallArgs) (p : Prepared)
    (hlimit : ¬ (0 < ctx.httpCallMax ∧ ctx.httpCallMax ≤ ctx.httpCallCount))
    (hp : prepare hasPool (countCall ctx) mem args = .ok p) :
    ((pwProxyHttpCall hasPool env ctx mem args).status,
        (pwProxyHttpCall hasPool env ctx mem args).mem,
        (pwProxyHttpCall hasPool env ctx mem args).ctx) =
      afterExchange env (countCall ctx) mem args.tokenPtr (exchange hasPool env p).2 := by
  rw [pwProxyHttpCall, if_neg hlimit]
  dsimp only
  rw [hp]
  dsimp only
  rcases exchange hasPool env p with ⟨events, status | raw⟩
  · rfl
  · rfl

theorem pwProxyHttpCall_prepared_events (hasPool : Bool) (env : CallEnv) (ctx : ProxyCtx)
    (mem : Bytes) (args : HttpCallArgs) (p : Prepared)
    (hlimit : ¬ (0 < ctx.httpCallMax ∧ ctx.httpCallMax ≤ ctx.httpCallCount))
    (hp : prepare hasPool (countCall ctx) mem args = .ok p) :
    (exchange hasPool env p).1 <+: (pwProxyHttpCall hasPool env ctx mem args).events := by
  rw [pwProxyHttpCall, if_neg hlimit]
  dsimp only
  rw [hp]
  dsimp only
  rcases exchange hasPool env p with ⟨events, status | raw⟩
  · exact List.prefix_append _ _
  · exact List.prefix_append _ _

/-- A callout depends on the upstream only through the result of the exchange. -/
theorem pwProxyHttpCall_congr (hasPool : Bool) (env env' : CallEnv) (ctx : ProxyCtx) (mem : Bytes)
    (args : HttpCallArgs) (halloc : env.entryAlloc = env'.entryAlloc)
    (hexchange : ∀ p, (exchange hasPool env p).2 = (exchange hasPool env' p).2) :
    (pwProxyHttpCall hasPool env ctx mem args).status =
        (pwProxyHttpCall hasPool env' ctx mem args).status ∧
      (pwProxyHttpCall hasPool env ctx mem args).ctx =
        (pwProxyHttpCall hasPool env' ctx mem args).ctx := by
  by_cases hlimit : 0 < ctx.httpCallMax ∧ ctx.httpCallMax ≤ ctx.httpCallCount
  · rw [pwProxyHttpCall, pwProxyHttpCall, if_pos hlimit, if_pos hlimit]
    exact ⟨rfl, rfl⟩
  · rcases hp : prepare hasPool (countCall ctx) mem args with status | p
    · rw [pwProxyHttpCall, pwProxyHttpCall, if_neg hlimit, if_neg hlimit]
      dsimp only
      rw [hp]
      exact ⟨rfl, rfl⟩
    · have hstore (result : Except ProxyStatus Bytes) :
          afterExchange env (countCall ctx) mem args.tokenPtr result =
            afterExchange env' (countCall ctx) mem args.tokenPtr result := by
        cases result with
        | error status => rfl
        | ok raw => simp only [afterExchange, storeResponse, halloc]
      have hcall := pwProxyHttpCall_prepared hasPool env ctx mem args p hlimit hp
      rw [hexchange, hstore, ← pwProxyHttpCall_prepared hasPool env' ctx mem args p hlimit hp,
        Prod.mk.injEq, Prod.mk.injEq] at hcall
      exact ⟨hcall.1, hcall.2.2⟩

/-- The response a callout that returned OK left under its token. -/
def delivered (r : HttpCallResult) : Option HttpCallEntry :=
  if r.status = .ok then r.ctx.httpCalls.find? (fun e => e.tokenId = r.ctx.httpCallNextToken)
  else none

/-- Any two ways of cutting the stream into reads give a call the same status
and, when it is OK, the same header block and body. -/
def SegmentationIndependent (stream : Bytes) : Prop :=
  ∀ (hasPool : Bool) (env : CallEnv) (ctx : ProxyCtx) (mem : Bytes) (args : HttpCallArgs)
    (sizes sizes' : List ℕ), Covers sizes stream → Covers sizes' stream →
    (pwProxyHttpCall hasPool { env with stream := stream, sizes := sizes } ctx mem args).status =
      (pwProxyHttpCall hasPool { env with stream := stream, sizes := sizes' } ctx mem args).status ∧
    delivered (pwProxyHttpCall hasPool { env with stream := stream, sizes := sizes } ctx mem args) =
      delivered (pwProxyHttpCall hasPool { env with stream := stream, sizes := sizes' } ctx mem args)

theorem readHead_first (stream : Bytes) (k i : ℕ) (ks : List ℕ)
    (hend : strstr stream (crlf ++ crlf) = some i) (hi : i + 4 ≤ k) (hmax : k ≤ maxResponse)
    (hlen : k ≤ stream.length) :
    readHead (k :: ks) stream [] = (stream.take k, some i, ks, stream.drop k) := by
  have hfound := (strstr_take stream (crlf ++ crlf) k i (by simp [crlf])).mpr ⟨hend, hi⟩
  have hmin : min k (maxResponse - ([] : Bytes).length) = k := by
    rw [List.length_nil]
    omega
  have hne : stream.take k ≠ [] := by
    intro h
    rw [h] at hfound
    contradiction
  rw [readHead, if_neg (by rw [List.length_nil]; omega)]
  dsimp only
  rw [hmin, if_neg hne, List.nil_append, hfound, List.length_take_of_le hlen]

/-- A callout to the host `a` from a context without limits. -/
def plainCtx : ProxyCtx := { memoryValid := true }

def plainCall (env : CallEnv) : HttpCallResult :=
  pwProxyHttpCall false env plainCtx (ascii "a" ++ [0, 0, 0]) (plainArgs (ascii "a") 0)

theorem plainCall_status (stream : Bytes) (sizes : List ℕ) :
    (plainCall { stream := stream, sizes := sizes }).status =
      match answer (readResponse { stream := stream, sizes := sizes } false) with
      | .error status => status
      | .ok _ => .ok := by
  have hp := prepare_plain false (countCall plainCtx) (ascii "a") [0, 0, 0] (ascii "a") 80 0 false
    rfl rfl rfl
  have hcall := pwProxyHttpCall_prepared false { stream := stream, sizes := sizes } plainCtx
    (ascii "a" ++ [0, 0, 0]) (plainArgs (ascii "a") 0) _ (by decide) hp
  rw [exchange_result] at hcall
  rw [plainCall, (Prod.mk.inj hcall).1]
  rcases answer (readResponse { stream := stream, sizes := sizes } false) with status | raw
  · rfl
  · rfl

/-- The outcome of a callout does not depend on how its reads cut the stream,
except where bytes follow a header block that does not frame them. -/
theorem segmentationIndependent_iff (stream : Bytes) :
    SegmentationIndependent stream ↔ ¬ UnframedBody stream := by
  constructor
  · rintro hindependent ⟨i, hend, hmax, hlen, hchunked, hlength⟩
    have hcovers (k : ℕ) (hk : 0 < k) : Covers [k, stream.length] stream := by
      refine ⟨fun j hj => ?_, by simp⟩
      rcases List.mem_pair.mp hj with rfl | rfl <;> omega
    have hcall := (hindependent false {} plainCtx (ascii "a" ++ [0, 0, 0])
      (plainArgs (ascii "a") 0) _ _ (hcovers (i + 4) (by omega)) (hcovers (i + 5) (by omega))).1
    have hstatus (k : ℕ) (hk : i + 4 ≤ k) (hkmax : k ≤ maxResponse) (hklen : k ≤ stream.length) :
        answer (readResponse { stream := stream, sizes := [k, stream.length] } false) =
          if k = i + 4 then .ok (stream.take k) else .error .parseFailure := by
      have hread := readHead_first stream k i [stream.length] hend hk hkmax hklen
      have hend' := (strstr_take stream (crlf ++ crlf) k i (by simp [crlf])).mpr ⟨hend, hk⟩
      have hne : stream.take k ≠ [] := by
        intro h
        rw [h] at hend'
        contradiction
      rw [readResponse_eq _ false _ _ i _ hread hend', List.take_take, Nat.min_eq_left (by omega),
        readFramed, hchunked, if_neg (by decide), hlength, List.length_take_of_le hklen]
      dsimp only
      by_cases hexact : k = i + 4
      · rw [if_pos hexact, if_pos hexact, answer_ok _ _ hne]
      · rw [if_neg hexact, if_neg hexact, answer_error]
    -- the header block alone is a complete response, one byte more is a malformed one
    have halone := plainCall_status stream [i + 4, stream.length]
    have hmore := plainCall_status stream [i + 5, stream.length]
    rw [hstatus _ (by omega) (by omega) (by omega), if_pos rfl] at halone
    rw [hstatus _ (by omega) (by omega) (by omega), if_neg (by omega)] at hmore
    have hsame := halone.symm.trans (hcall.trans hmore)
    contradiction
  · intro hframed hasPool env ctx mem args sizes sizes' hcovers hcovers'
    have hanswer (p : Prepared) :
        (exchange hasPool { env with stream := stream, sizes := sizes } p).2 =
          (exchange hasPool { env with stream := stream, sizes := sizes' } p).2 := by
      rw [exchange_result, exchange_result, readResponse_answer _ _ hcovers hframed,
        readResponse_answer _ _ hcovers' hframed]
      rfl
    obtain ⟨hstatus, hctx⟩ := pwProxyHttpCall_congr hasPool
      { env with stream := stream, sizes := sizes } { env with stream := stream, sizes := sizes' }
      ctx mem args rfl hanswer
    exact ⟨hstatus, by rw [delivered, delivered, hstatus, hctx]⟩

/-- A response whose body ends with the connection. -/
def closeDelimited : Bytes := ascii "HTTP/1.1 200 OK" ++ crlf ++ crlf ++ ascii "hi"

/-- Read with the header block first it is a response without a body; read in
one piece it is malformed. -/
theorem closeDelimited_depends_on_reads :
    Covers [19, 2] closeDelimited ∧ Covers [21] closeDelimited ∧
    (plainCall { stream := closeDelimited, sizes := [19, 2] }).status = .ok ∧
    (delivered (plainCall { stream := closeDelimited, sizes := [19, 2] })).map (·.body) =
      some [] ∧
    (plainCall { stream := closeDelimited, sizes := [21] }).status = .parseFailure ∧
    ¬ SegmentationIndependent closeDelimited := by
  have hcovers : Covers [19, 2] closeDelimited := ⟨by decide, by decide⟩
  have hcovers' : Covers [21] closeDelimited := ⟨by decide, by decide⟩
  have hok : (plainCall { stream := closeDelimited, sizes := [19, 2] }).status = .ok := by
    decide +kernel
  have hfail : (plainCall { stream := closeDelimited, sizes := [21] }).status = .parseFailure := by
    decide +kernel
  refine ⟨hcovers, hcovers', hok, by decide +kernel, hfail, fun hindependent => ?_⟩
  have hsame := (hindependent false {} plainCtx (ascii "a" ++ [0, 0, 0]) (plainArgs (ascii "a") 0)
    _ _ hcovers hcovers').1
  have hsame' := hok.symm.trans (hsame.trans hfail)
  contradiction

end Segmentation

end VmodWasm.ResponseReading
