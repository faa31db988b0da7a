import VmodWasm.ByteSearch
import VmodWasm.HelperBodies
import VmodWasm.PairMaps

/-!
The request that a callout sends. Its head is printed from the pairs of a header
map that the guest has serialized: `:method` and `:path` go into the first line,
other pseudo-headers are left out, and every other pair becomes a line of its
own. The checks on the way let nothing through that could end a line.
-/
namespace VmodWasm.CalloutRequests

open ByteStrings ByteSearch GuestMemory HttpText ProxyContext HttpCall HelperBodies

/-- The pairs of the map a guest has passed; a size of 0 stands for no map. -/
def mapPairs (mem : Bytes) (ptr size : UInt32) : Option Fields :=
  if size = 0 then some [] else (PairMaps.readPairs (pwMemRegion mem ptr size)).map (·.1)

/-- Pairs that become headers. -/
def forwarded (p : Bytes × Bytes) : Bool := !p.1.isEmpty && p.1.head? != some 0x3a

/-- The value of the last pair with the name. -/
def lastValue (name fallback : Bytes) (ps : Fields) : Bytes :=
  ((ps.filter fun p => p.1 == name).getLast?.map (·.2)).getD fallback

def requestLine (ps : Fields) : Bytes :=
  lastValue (ascii ":method") (ascii "GET") ps ++ ascii " " ++
    lastValue (ascii ":path") (ascii "/") ps ++ ascii " HTTP/1.1"

def fieldLine (p : Bytes × Bytes) : Bytes := p.1 ++ ascii ": " ++ p.2

/-- The lines a request is meant to have, up to the empty one. -/
def requestLines (ps : Fields) (host : Bytes) (bodySize : ℕ) (keepAlive : Bool) : List Bytes :=
  [requestLine ps, ascii "Host: " ++ host] ++
    (if 0 < bodySize then [ascii "Content-Length: " ++ decimal bodySize] else []) ++
    [if keepAlive then ascii "Connection: keep-alive" else ascii "Connection: close"] ++
    (ps.filter forwarded).map fieldLine

section Decoding

def addPairs (ps : Fields) (head : RequestHead) : Option RequestHead :=
  ps.foldlM (fun head p => head.addPair p.1 p.2) head

theorem takeString_drop (hdr : Bytes) (off n : ℕ) :
    PairMaps.takeString n (hdr.drop off) =
      if hdr.length - off < n + 1 then none
      else if hdr.getD (off + n) 0 ≠ 0 then none
      else some ((hdr.drop off).take n, hdr.drop (off + (n + 1))) := by
  rw [PairMaps.takeString, List.getElem?_drop, List.drop_drop]
  by_cases hshort : hdr.length - off < n + 1
  · rw [if_pos hshort, List.getElem?_eq_none (by omega), if_neg (by simp)]
  · have hlt : off + n < hdr.length := by omega
    rw [if_neg hshort, List.getElem?_eq_getElem hlt, List.getD_eq_getElem?_getD,
      List.getElem?_eq_getElem hlt, Option.getD_some]
    by_cases hnul : hdr[off + n] = 0
    · rw [if_pos (congrArg some hnul), if_neg (not_not.mpr hnul)]
    · rw [if_neg fun h => hnul (Option.some.inj h), if_pos hnul]

/-- The loop takes the strings one pair at a time, and puts each pair into the
head before it looks at the next. -/
theorem decodeWith_eq (word : ℕ → ℕ) (hdr : Bytes) (n hi off : ℕ) (head : RequestHead) :
    decodeWith word hdr n hi off head =
      (PairMaps.takeStrings
          ((List.range' hi n).map fun i => (word (4 + i * 8), word (4 + i * 8 + 4)))
          (hdr.drop off)).bind
        fun r => addPairs r.1 head := by
  induction n generalizing hi off head with
  | zero => rfl
  | succ n ih =>
    rw [List.range'_succ, List.map_cons, PairMaps.takeStrings, decodeWith]
    generalize word (4 + hi * 8) = ks
    generalize word (4 + hi * 8 + 4) = vs
    simp only [takeString_drop]
    split
    · rfl
    · split
      · rfl
      · simp only [Option.bind_eq_bind, Option.bind_some, takeString_drop]
        split
        · rfl
        · split
          · rfl
          · simp only [Option.bind_some, Option.bind_assoc, Option.pure_def, addPairs,
              List.foldlM_cons, Option.bind_eq_bind]
            cases head.addPair ((hdr.drop off).take ks)
                ((hdr.drop (off + (ks + 1))).take vs) with
            | none => simp
            | some head' => simpa [addPairs] using ih _ _ head'

theorem decodeHeaderMap_ok {valid : Bool} {mem : Bytes} {ptr size : UInt32} {head : RequestHead}
    (h : decodeHeaderMap valid mem ptr size = some head) :
    ∃ ps, mapPairs mem ptr size = some ps ∧ addPairs ps {} = some head := by
  unfold decodeHeaderMap at h
  unfold mapPairs
  by_cases hsize : size = 0
  · rw [if_pos hsize] at h ⊢
    exact ⟨[], rfl, h⟩
  · rw [if_neg hsize] at h ⊢
    split at h
    · contradiction
    · dsimp only at h
      split at h
      · contradiction
      · split at h
        · contradiction
        next hroom =>
          rw [decodePairs_eq, decodeWith_eq, ← List.range_eq_range'] at h
          obtain ⟨r, hr, hadd⟩ := Option.bind_eq_some_iff.mp h
          refine ⟨r.1, ?_, hadd⟩
          unfold PairMaps.readPairs
          dsimp only
          rw [if_neg hroom]
          exact Option.map_eq_some_iff.mpr ⟨r, hr, rfl⟩

end Decoding

section Head

theorem lastValue_cons (name fallback : Bytes) (p : Bytes × Bytes) (ps : Fields) :
    lastValue name fallback (p :: ps) =
      lastValue name (if p.1 = name then p.2 else fallback) ps := by
  unfold lastValue
  by_cases hp : p.1 = name
  · rw [if_pos hp, List.filter_cons_of_pos (by simpa using hp), List.getLast?_cons]
    cases (ps.filter fun p => p.1 == name).getLast? <;> rfl
  · rw [if_neg hp, List.filter_cons_of_neg (by simpa using hp)]

/-- What may stand in a header line. -/
def fieldOk (p : Bytes × Bytes) : Prop :=
  pwHttpHeaderNameOk p.1 = true ∧ pwHttpHeaderValueOk p.2 = true

theorem pwHttpAppendHeader_ok {dst key value dst' : Bytes} {dstSz : ℕ}
    (h : pwHttpAppendHeader dst dstSz key value = some dst') :
    fieldOk (key, value) ∧ dst' = dst ++ (fieldLine (key, value) ++ crlf) := by
  unfold pwHttpAppendHeader at h
  split at h
  · contradiction
  next htexts =>
    split at h
    · contradiction
    · split at h
      · contradiction
      · dsimp only at h
        split at h
        · contradiction
        · simp only [Bool.or_eq_true, Bool.not_eq_true', not_or, Bool.not_eq_false] at htexts
          exact ⟨htexts, (Option.some.inj h).symm⟩

/-- One pair changes one part of the head. -/
theorem addPair_spec {head head' : RequestHead} {p : Bytes × Bytes}
    (h : head.addPair p.1 p.2 = some head') :
    head'.method = (if p.1 = ascii ":method" then p.2 else head.method) ∧
      head'.path = (if p.1 = ascii ":path" then p.2 else head.path) ∧
      head'.extra = head.extra ++ (if forwarded p then fieldLine p ++ crlf else []) ∧
      (forwarded p = true → fieldOk p) := by
  have hplain : forwarded p = true ↔ 0 < p.1.length ∧ p.1.head? ≠ some 0x3a := by
    simp [forwarded, List.length_pos_iff]
  have hpseudo (name : String) (hname : (ascii name).head? = some 0x3a) (hp : p.1 = ascii name) :
      ¬ forwarded p = true := fun h => (hplain.mp h).2 (hp ▸ hname)
  unfold RequestHead.addPair at h
  by_cases hmethod : p.1 = ascii ":method"
  · have hpath : ¬ p.1 = ascii ":path" := hmethod ▸ by decide +kernel
    have hnot := hpseudo ":method" (by decide +kernel) hmethod
    rw [if_pos hmethod, Option.some.injEq] at h
    subst h
    rw [if_pos hmethod, if_neg hpath, if_neg hnot, List.append_nil]
    exact ⟨rfl, rfl, rfl, fun hf => absurd hf hnot⟩
  rw [if_neg hmethod] at h
  rw [if_neg hmethod]
  by_cases hpath : p.1 = ascii ":path"
  · have hnot := hpseudo ":path" (by decide +kernel) hpath
    rw [if_pos hpath, Option.some.injEq] at h
    subst h
    rw [if_pos hpath, if_neg hnot, List.append_nil]
    exact ⟨rfl, rfl, rfl, fun hf => absurd hf hnot⟩
  rw [if_neg hpath] at h
  rw [if_neg hpath]
  by_cases hf : forwarded p = true
  · rw [if_pos (hplain.mp hf)] at h
    obtain ⟨extra, hextra, rfl⟩ := Option.map_eq_some_iff.mp h
    obtain ⟨hok, rfl⟩ := pwHttpAppendHeader_ok hextra
    rw [if_pos hf]
    exact ⟨rfl, rfl, rfl, fun _ => hok⟩
  · rw [if_neg fun hp => hf (hplain.mpr hp), Option.some.injEq] at h
    subst h
    rw [if_neg hf, List.append_nil]
    exact ⟨rfl, rfl, rfl, fun h => absurd h hf⟩

/-- The head that all pairs make: the last method and path, and a line for every
other header. -/
theorem addPairs_spec {ps : Fields} {head head' : RequestHead}
    (h : addPairs ps head = some head') :
    head'.method = lastValue (ascii ":method") head.method ps ∧
      head'.path = lastValue (ascii ":path") head.path ps ∧
      head'.extra = head.extra ++ ((ps.filter forwarded).map fieldLine).flatMap (· ++ crlf) ∧
      ∀ p ∈ ps, forwarded p = true → fieldOk p := by
  induction ps generalizing head with
  | nil =>
    obtain rfl := Option.some.inj h
    exact ⟨rfl, rfl, (List.append_nil _).symm, by simp⟩
  | cons p ps ih =>
    rw [addPairs, List.foldlM_cons] at h
    obtain ⟨next, hnext, hrest⟩ := Option.bind_eq_some_iff.mp h
    obtain ⟨hmethod, hpath, hextra, hok⟩ := addPair_spec hnext
    obtain ⟨hmethod', hpath', hextra', hok'⟩ := ih hrest
    refine ⟨?_, ?_, ?_, List.forall_mem_cons.mpr ⟨hok, hok'⟩⟩
    · rw [lastValue_cons, ← hmethod, hmethod']
    · rw [lastValue_cons, ← hpath, hpath']
    · rw [hextra', hextra, List.append_assoc]
      by_cases hf : forwarded p = true
      · rw [if_pos hf, List.filter_cons_of_pos hf, List.map_cons, List.flatMap_cons]
      · rw [if_neg hf, List.filter_cons_of_neg hf, List.nil_append]

end Head

section Texts

/-- Bytes that end a line, or that some reader could take for the end of one. -/
def lineEnds : Bytes := [0x00, 0x0a, 0x0d]

def Clean (line : Bytes) : Prop := ∀ c ∈ line, c ∉ lineEnds

theorem Clean.append {a b : Bytes} (ha : Clean a) (hb : Clean b) : Clean (a ++ b) := fun c hc =>
  (List.mem_append.mp hc).elim (ha c) (hb c)

theorem clean_nil : Clean [] := fun _ hc => absurd hc List.not_mem_nil

/-- A text all of whose bytes pass a test that no line end passes. -/
theorem clean_of_all {s : Bytes} {test : UInt8 → Bool} (htest : ∀ c ∈ lineEnds, test c = false)
    (h : s.all test = true) : Clean s := fun c hc hend => by
  have hpass := List.all_eq_true.mp h c hc
  rw [htest c hend] at hpass
  exact Bool.false_ne_true hpass

theorem clean_ascii (s : String) (h : (ascii s).all (fun c => !lineEnds.contains c) = true) :
    Clean (ascii s) := clean_of_all (by decide +kernel) h

theorem mem_decimal {n : ℕ} {c : UInt8} (h : c ∈ decimal n) : 0x30 ≤ c ∧ c ≤ 0x39 := by
  obtain ⟨d, hd, rfl⟩ := List.mem_map.mp h
  have hdigit := Nat.isDigit_of_mem_toDigits (by omega) (by omega) hd
  simp only [Char.isDigit, Bool.and_eq_true, decide_eq_true_eq, UInt32.le_iff_toNat_le] at hdigit
  have hval : d.toNat = d.val.toNat := rfl
  have hzero : '0'.val.toNat = 48 := rfl
  have hnine : '9'.val.toNat = 57 := rfl
  rw [UInt8.le_iff_toNat_le, UInt8.le_iff_toNat_le, UInt8.toNat_ofNat',
    Nat.mod_eq_of_lt (by omega)]
  have hlow : (0x30 : UInt8).toNat = 48 := rfl
  have hhigh : (0x39 : UInt8).toNat = 57 := rfl
  omega

theorem clean_decimal (n : ℕ) : Clean (decimal n) := by
  have hends : ∀ c ∈ lineEnds, ¬ 0x30 ≤ c := by decide +kernel
  exact fun c hc hend => hends c hend (mem_decimal hc).1

theorem splitCrlf_closed (lines : List Bytes) (h : ∀ line ∈ lines, Clean line) :
    splitCrlf (lines.flatMap (· ++ crlf)) = lines ++ [[]] := by
  induction lines with
  | nil => rfl
  | cons line lines ih =>
    obtain ⟨hline, hlines⟩ := List.forall_mem_cons.mp h
    have hfree : findSub crlf line = none :=
      findSub_crlf_of_notMem fun hmem => hline _ hmem (by decide)
    rw [List.flatMap_cons, splitCrlf_line line _ hfree, ih hlines, List.cons_append]

end Texts

section Request

theorem buildRequest_eq (head : RequestHead) (host : Bytes) (bodySize : ℕ) (keepAlive : Bool)
    (ps : Fields) (h : addPairs ps {} = some head) :
    buildRequest head host bodySize keepAlive =
      (requestLines ps host bodySize keepAlive ++ [[]]).flatMap (· ++ crlf) := by
  obtain ⟨hmethod, hpath, hextra, -⟩ := addPairs_spec h
  have hlength : (if 0 < bodySize then ascii "Content-Length: " ++ decimal bodySize ++ crlf
      else []) = (if 0 < bodySize then [ascii "Content-Length: " ++ decimal bodySize]
        else []).flatMap (· ++ crlf) := by
    split <;> simp
  rw [buildRequest, hmethod, hpath, hextra, hlength]
  simp only [requestLines, requestLine, List.flatMap_append, List.flatMap_cons, List.flatMap_nil,
    List.append_nil, List.nil_append, List.append_assoc]

/-- What the checks have let through. -/
structure RequestOk (ps : Fields) (host : Bytes) : Prop where
  method : pwHttpMethodOk (lastValue (ascii ":method") (ascii "GET") ps) = true
  path : pwHttpPathOk (lastValue (ascii ":path") (ascii "/") ps) = true
  host : pwHttpHostOk host = true
  fields : ∀ p ∈ ps, forwarded p = true → fieldOk p

theorem prepare_request (hasPool : Bool) (ctx : ProxyCtx) (mem : Bytes) (args : HttpCallArgs)
    (p : Prepared) (h : prepare hasPool ctx mem args = .ok p) :
    ∃ ps, mapPairs mem args.headersPtr args.headersSize = some ps ∧ RequestOk ps p.host ∧
      p.request = (requestLines ps p.host args.bodySize.toNat (hasPool && p.exempt) ++
        [[]]).flatMap (· ++ crlf) ∧
      p.body.length = args.bodySize.toNat := by
  obtain ⟨upstream, head, -, hparse, -, hdecode, hmethod, hpath, hbody, hrequest, hregion, -⟩ :=
    prepare_spec hasPool ctx mem args p h
  obtain ⟨ps, hpairs, hadd⟩ := decodeHeaderMap_ok hdecode
  obtain ⟨hmethod', hpath', -, hfields⟩ := addPairs_spec hadd
  refine ⟨ps, hpairs, ⟨hmethod' ▸ hmethod, hpath' ▸ hpath, ?_, hfields⟩, ?_, ?_⟩
  · exact (pwHttpParseUpstream_host upstream p.host 256 p.port hparse).2
  · rw [hrequest, buildRequest_eq _ _ _ _ ps hadd]
  · rw [hregion]
    rcases hbody with hzero | hvalid
    · rw [hzero]
      simp [pwMemRegion]
    · exact pwMemRegion_length _ _ _ _ hvalid

section Checked

variable {ps : Fields} {host : Bytes} (hok : RequestOk ps host)

include hok

theorem RequestOk.clean_texts :
    Clean (lastValue (ascii ":method") (ascii "GET") ps) ∧
      Clean (lastValue (ascii ":path") (ascii "/") ps) ∧ Clean host := by
  have hmethod := hok.method
  have hpath := hok.path
  have hhost := hok.host
  rw [pwHttpMethodOk, Bool.and_eq_true] at hmethod
  rw [pwHttpPathOk, Bool.and_eq_true] at hpath
  rw [pwHttpHostOk, Bool.and_eq_true] at hhost
  exact ⟨clean_of_all (by decide +kernel) hmethod.2, clean_of_all (by decide +kernel) hpath.2,
    clean_of_all (by decide +kernel) hhost.2⟩

theorem RequestOk.clean_fieldLine {p : Bytes × Bytes} (hp : p ∈ ps.filter forwarded) :
    Clean (fieldLine p) := by
  obtain ⟨hmem, hforwarded⟩ := List.mem_filter.mp hp
  obtain ⟨hname, hvalue⟩ := hok.fields p hmem hforwarded
  rw [pwHttpHeaderNameOk, Bool.and_eq_true] at hname
  have hsep := clean_ascii ": " (by decide +kernel)
  exact ((clean_of_all (by decide +kernel) hname.2).append hsep).append
    (clean_of_all (by decide +kernel) hvalue)

/-- No line of a request that has passed the checks holds a line end. -/
theorem RequestOk.clean_lines (bodySize : ℕ) (keepAlive : Bool) :
    ∀ line ∈ requestLines ps host bodySize keepAlive, Clean line := by
  obtain ⟨hmethod, hpath, hhost⟩ := hok.clean_texts
  intro line hline
  simp only [requestLines, List.mem_append, List.mem_cons, List.not_mem_nil, or_false,
    List.mem_map] at hline
  rcases hline with (((rfl | rfl) | hlength) | rfl) | ⟨p, hp, rfl⟩
  · exact ((hmethod.append (clean_ascii " " (by decide +kernel))).append hpath).append
      (clean_ascii " HTTP/1.1" (by decide +kernel))
  · exact (clean_ascii "Host: " (by decide +kernel)).append hhost
  · split at hlength
    · obtain rfl := List.mem_singleton.mp hlength
      exact (clean_ascii "Content-Length: " (by decide +kernel)).append (clean_decimal bodySize)
    · contradiction
  · split
    · exact clean_ascii "Connection: keep-alive" (by decide +kernel)
    · exact clean_ascii "Connection: close" (by decide +kernel)
  · exact hok.clean_fieldLine hp

theorem RequestOk.clean_request (bodySize : ℕ) (keepAlive : Bool) :
    ∀ line ∈ requestLines ps host bodySize keepAlive ++ [[]], Clean line := by
  intro line hline
  rcases List.mem_append.mp hline with hline | hline
  · exact hok.clean_lines bodySize keepAlive line hline
  · exact List.mem_singleton.mp hline ▸ clean_nil

/-- Neither the method nor the path brings a space into the first line. -/
theorem RequestOk.count_space : (requestLine ps).count 0x20 = 2 := by
  have hmethod := hok.method
  have hpath := hok.path
  rw [pwHttpMethodOk, Bool.and_eq_true, List.all_eq_true] at hmethod
  rw [pwHttpPathOk, Bool.and_eq_true, List.all_eq_true] at hpath
  have hnoMethod : (lastValue (ascii ":method") (ascii "GET") ps).count 0x20 = 0 :=
    List.count_eq_zero.mpr fun hmem => absurd (hmethod.2 _ hmem) (by decide)
  have hnoPath : (lastValue (ascii ":path") (ascii "/") ps).count 0x20 = 0 :=
    List.count_eq_zero.mpr fun hmem => absurd (hpath.2 _ hmem) (by decide)
  have hsep : (ascii " ").count 0x20 = 1 := by decide +kernel
  have hversion : (ascii " HTTP/1.1").count 0x20 = 1 := by decide +kernel
  rw [requestLine, List.count_append, List.count_append, List.count_append, hnoMethod, hnoPath,
    hsep, hversion]

end Checked

/-- A request that is sent has exactly the lines it is meant to have, the empty
line behind them, and nothing after that. -/
theorem request_lines (hasPool : Bool) (ctx : ProxyCtx) (mem : Bytes) (args : HttpCallArgs)
    (p : Prepared) (h : prepare hasPool ctx mem args = .ok p) :
    ∃ ps, mapPairs mem args.headersPtr args.headersSize = some ps ∧
      splitCrlf p.request =
        requestLines ps p.host args.bodySize.toNat (hasPool && p.exempt) ++ [[], []] ∧
      (requestLine ps).count 0x20 = 2 ∧
      ∀ line ∈ requestLines ps p.host args.bodySize.toNat (hasPool && p.exempt), Clean line := by
  obtain ⟨ps, hpairs, hok, hrequest, -⟩ := prepare_request hasPool ctx mem args p h
  refine ⟨ps, hpairs, ?_, hok.count_space, hok.clean_lines _ _⟩
  rw [hrequest, splitCrlf_closed _ (hok.clean_request _ _), List.append_assoc]
  rfl

deriving instance DecidableEq for Prepared

/-- A guest's memory with the upstream, the body and a header map. -/
def postMemory : Bytes :=
  ascii "ahi" ++ PairMaps.encodePairs [(ascii ":method", ascii "POST"), (ascii "X", ascii "1")]

def postArgs : HttpCallArgs where
  upstreamPtr := 0
  upstreamSize := 1
  headersPtr := 3
  headersSize := UInt32.ofNat (postMemory.length - 3)
  bodyPtr := 1
  bodySize := 2
  timeoutMs := 0
  tokenPtr := 0

def postCall : Prepared where
  host := ascii "a"
  port := 80
  timeoutMs := 5000
  exempt := false
  request :=
    buildRequest { method := ascii "POST", extra := ascii "X: 1" ++ crlf } (ascii "a") 2 false
  body := ascii "hi"

theorem prepare_post :
    prepare false { memoryValid := true } postMemory postArgs = .ok postCall := by
  decide +kernel

theorem postCall_lines :
    ∃ ps, mapPairs postMemory postArgs.headersPtr postArgs.headersSize = some ps ∧
      splitCrlf postCall.request =
        requestLines ps postCall.host postArgs.bodySize.toNat (false && postCall.exempt) ++
          [[], []] ∧
      (requestLine ps).count 0x20 = 2 ∧
      ∀ line ∈ requestLines ps postCall.host postArgs.bodySize.toNat (false && postCall.exempt),
        Clean line :=
  request_lines false { memoryValid := true } postMemory postArgs postCall prepare_post

end Request

end VmodWasm.CalloutRequests
