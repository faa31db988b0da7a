import VmodWasm.CalloutRequests

/-!
The decoder for the header map of a callout, with all that it does to the guest's
buffer. The lengths in the buffer are the guest's; each is compared with the rest
of the buffer, a difference in `size_t`, before a byte is read at its end.
-/
namespace VmodWasm.CalloutDecoding

open ByteStrings GuestMemory HttpText ProxyContext HttpCall HelperBodies PairMaps CalloutRequests

/-- A subtraction, or a read of `len` bytes. -/
inductive Touch where
  | sub (a b : ℕ)
  | read (start len : ℕ)
  deriving DecidableEq

/-- The subtraction does not underflow; the bytes are in the buffer. -/
def Touch.Safe (size : ℕ) : Touch → Prop
  | .sub a b => b ≤ a
  | .read start len => ∀ j < len, start + j < size

/-- `a - b` in `size_t`. -/
def sizeSub (a b : ℕ) : ℕ := (a + 2 ^ 64 - b) % 2 ^ 64

section Model

variable (word : ℕ → ℕ) (sub : ℕ → ℕ → ℕ) (hdr : Bytes)

/-- The loop over the pairs: `n` pairs left, pair `hi` next, its key at `off`;
`word` reads the table of lengths, and `sub` subtracts. -/
def touchPairs : ℕ → ℕ → ℕ → RequestHead → Except ProxyStatus RequestHead × List Touch
  | 0, _, _, head => (.ok head, [])
  | n + 1, hi, off, head =>
    let ks := word (4 + hi * 8)
    let vs := word (4 + hi * 8 + 4)
    let sizes := [.read (4 + hi * 8) 4, .read (4 + hi * 8 + 4) 4, .sub hdr.length off]
    if sub hdr.length off < ks + 1 then (.error .badArgument, sizes)
    else if hdr.getD (off + ks) 0 ≠ 0 then
      (.error .badArgument, sizes ++ [.read (off + ks) 1])
    else
      let voff := off + (ks + 1)
      let key := sizes ++ [.read (off + ks) 1, .sub hdr.length voff]
      if sub hdr.length voff < vs + 1 then (.error .badArgument, key)
      else if hdr.getD (voff + vs) 0 ≠ 0 then
        (.error .badArgument, key ++ [.read (voff + vs) 1])
      else
        let pair := key ++ [.read (voff + vs) 1, .read off ks, .read voff vs]
        match head.addPair ((hdr.drop off).take ks) ((hdr.drop voff).take vs) with
        | none => (.error .badArgument, pair)
        | some head =>
          let r := touchPairs n (hi + 1) (voff + (vs + 1)) head
          (r.1, pair ++ r.2)

end Model

/-- The decoder, for a map of `size > 0` bytes. -/
def touchHeaderMap (valid : Bool) (mem : Bytes) (ptr size : UInt32) :
    Except ProxyStatus RequestHead × List Touch :=
  if size < 4 ∨ pwValidateRegion valid mem ptr size = false then (.error .badArgument, [])
  else
    let hdr := pwMemRegion mem ptr size
    let numPairs := readU32 hdr 0
    let count := [.read 0 4]
    if 64 < numPairs then (.error .badArgument, count)
    else if hdr.length < 4 + numPairs * 8 then (.error .badArgument, count)
    else
      let r := touchPairs (readU32 hdr) sizeSub hdr numPairs 0 (4 + numPairs * 8) {}
      (r.1, count ++ r.2)

/-- How much of the header area the lines of pairs take. -/
def areaUsed (ps : Fields) : ℕ :=
  ((ps.filter forwarded).map fun p => (fieldLine p ++ crlf).length).sum

/-- The buffer begins with the encoding of pairs that may all go into the head of a
request: at most 64, those that become headers valid, and their lines, with a NUL
behind them, in 4096 bytes. -/
structure Accepts (hdr : Bytes) (ps : Fields) : Prop where
  encoded : ∃ rest, hdr = encodePairs ps ++ rest
  few : ps.length ≤ 64
  fields : ∀ p ∈ ps, forwarded p = true → fieldOk p
  area : areaUsed ps < 4096

section Loop

/-- A decoder that gives up reports `PROXY_BAD_ARGUMENT`. -/
def orBadArgument (head : Option RequestHead) : Except ProxyStatus RequestHead :=
  match head with
  | none => .error .badArgument
  | some head => .ok head

theorem sizeSub_eq {a b : ℕ} (hle : b ≤ a) (ha : a < 2 ^ 64) : sizeSub a b = a - b := by
  rw [sizeSub]
  omega

theorem read_safe {size start len : ℕ} (h : start + len ≤ size) :
    Touch.Safe size (.read start len) := by
  intro j hj
  omega

/-- A result, with touches before those that lead to it. -/
theorem touched_prepend {α : Type} {r : α × List Touch} {x : α} {front : List Touch} {size : ℕ}
    (hresult : r.1 = x) (hfront : ∀ t ∈ front, t.Safe size) (hsafe : ∀ t ∈ r.2, t.Safe size) :
    (r.1, front ++ r.2).1 = x ∧ ∀ t ∈ (r.1, front ++ r.2).2, t.Safe size :=
  ⟨hresult, List.forall_mem_append.mpr ⟨hfront, hsafe⟩⟩

section Pair

variable {hdr : Bytes} {hi off ks vs : ℕ}

/-- The lengths of pair `hi` are in the table. -/
theorem sizes_safe (htable : 4 + (hi + 1) * 8 ≤ hdr.length) (hoff : off ≤ hdr.length) :
    ∀ t ∈ [Touch.read (4 + hi * 8) 4, .read (4 + hi * 8 + 4) 4, .sub hdr.length off],
      t.Safe hdr.length := by
  intro t ht
  simp only [List.mem_cons, List.not_mem_nil, or_false] at ht
  rcases ht with rfl | rfl | rfl
  · exact read_safe (by omega)
  · exact read_safe (by omega)
  · exact hoff

theorem keyEnd_safe (hkey : off + (ks + 1) ≤ hdr.length) :
    ∀ t ∈ [Touch.read (off + ks) 1, .sub hdr.length (off + (ks + 1))], t.Safe hdr.length := by
  intro t ht
  simp only [List.mem_cons, List.not_mem_nil, or_false] at ht
  rcases ht with rfl | rfl
  · exact read_safe (by omega)
  · exact hkey

/-- The end of the value, and then the pair as a whole. -/
theorem pair_safe (hvalue : off + (ks + 1) + (vs + 1) ≤ hdr.length) :
    ∀ t ∈ [Touch.read (off + (ks + 1) + vs) 1, .read off ks, .read (off + (ks + 1)) vs],
      t.Safe hdr.length := by
  intro t ht
  simp only [List.mem_cons, List.not_mem_nil, or_false] at ht
  rcases ht with rfl | rfl | rfl
  · exact read_safe (by omega)
  · exact read_safe (by omega)
  · exact read_safe (by omega)

end Pair

/-- The offset never passes the end of the buffer, so the loop is the plain one. -/
theorem touchPairs_spec (word : ℕ → ℕ) (hdr : Bytes) (hsmall : hdr.length < 2 ^ 64) (n hi off : ℕ)
    (head : RequestHead) (htable : 4 + (hi + n) * 8 ≤ hdr.length) (hoff : off ≤ hdr.length) :
    (touchPairs word sizeSub hdr n hi off head).1 =
        orBadArgument (decodeWith word hdr n hi off head) ∧
      ∀ t ∈ (touchPairs word sizeSub hdr n hi off head).2, t.Safe hdr.length := by
  induction n generalizing hi off head with
  | zero => exact ⟨rfl, by simp [touchPairs]⟩
  | succ n ih =>
    have hsizes := sizes_safe (show 4 + (hi + 1) * 8 ≤ hdr.length by omega) hoff
    rw [touchPairs, decodeWith]
    generalize word (4 + hi * 8) = ks
    generalize word (4 + hi * 8 + 4) = vs
    dsimp only
    rw [sizeSub_eq hoff hsmall]
    split
    next => exact ⟨rfl, hsizes⟩
    next hkey =>
      -- the end of the key is in the buffer
      have hvoff : off + (ks + 1) ≤ hdr.length := by omega
      have hkeyEnd := keyEnd_safe hvoff
      split
      next =>
        refine ⟨rfl, List.forall_mem_append.mpr ⟨hsizes, ?_⟩⟩
        exact fun t ht => hkeyEnd t (List.mem_cons.mpr (Or.inl (List.mem_singleton.mp ht)))
      next =>
        have hkeys := List.forall_mem_append.mpr ⟨hsizes, hkeyEnd⟩
        rw [sizeSub_eq hvoff hsmall]
        split
        next => exact ⟨rfl, hkeys⟩
        next hvalue =>
          -- and so is the end of the value
          have hend : off + (ks + 1) + (vs + 1) ≤ hdr.length := by omega
          have hpair := pair_safe hend
          split
          next =>
            refine ⟨rfl, List.forall_mem_append.mpr ⟨hkeys, ?_⟩⟩
            exact fun t ht => hpair t (List.mem_cons.mpr (Or.inl (List.mem_singleton.mp ht)))
          next =>
            have hall := List.forall_mem_append.mpr ⟨hkeys, hpair⟩
            cases head.addPair ((hdr.drop off).take ks)
                ((hdr.drop (off + (ks + 1))).take vs) with
            | none => exact ⟨rfl, hall⟩
            | some head' =>
              obtain ⟨hresult, hsafe⟩ := ih (hi + 1) (off + (ks + 1) + (vs + 1)) head'
                (by omega) hend
              exact touched_prepend hresult hall hsafe

end Loop

section Area

theorem pwHttpAppendHeader_isSome_iff (dst key value : Bytes) :
    (pwHttpAppendHeader dst 4096 key value).isSome = true ↔
      fieldOk (key, value) ∧ dst.length + (fieldLine (key, value) ++ crlf).length < 4096 := by
  have hline : (fieldLine (key, value) ++ crlf).length = key.length + 2 + value.length + 2 := by
    have hsep : (ascii ": ").length = 2 := by decide +kernel
    simp only [fieldLine, List.length_append, hsep]
    rfl
  have hint : intMax = 2 ^ 31 - 1 := rfl
  unfold pwHttpAppendHeader
  split
  next htexts =>
    apply iff_of_false (by simp)
    intro h
    simp only [Bool.or_eq_true, Bool.not_eq_true'] at htexts
    rcases htexts with hname | hvalue
    · exact absurd h.1.1 (by rw [hname]; exact Bool.false_ne_true)
    · exact absurd h.1.2 (by rw [hvalue]; exact Bool.false_ne_true)
  next htexts =>
    simp only [Bool.or_eq_true, Bool.not_eq_true', not_or, Bool.not_eq_false] at htexts
    split
    next hlong =>
      apply iff_of_false (by simp)
      intro h
      omega
    next =>
      split
      next hfull =>
        apply iff_of_false (by simp)
        intro h
        omega
      next =>
        have hsame : key ++ ascii ": " ++ value ++ crlf = fieldLine (key, value) ++ crlf := rfl
        dsimp only
        rw [hsame]
        split
        next =>
          apply iff_of_false (by simp)
          intro h
          omega
        next =>
          apply iff_of_true (by simp)
          exact ⟨htexts, by omega⟩

/-- Only a pair that becomes a header can be refused. -/
theorem addPair_isSome_iff (head : RequestHead) (p : Bytes × Bytes) :
    (head.addPair p.1 p.2).isSome = true ↔ (forwarded p = true →
      fieldOk p ∧ head.extra.length + (fieldLine p ++ crlf).length < 4096) := by
  have hplain : forwarded p = true ↔ 0 < p.1.length ∧ p.1.head? ≠ some 0x3a := by
    simp [forwarded, List.length_pos_iff]
  have hpseudo (name : String) (hname : (ascii name).head? = some 0x3a) (hp : p.1 = ascii name) :
      ¬ forwarded p = true := fun h => (hplain.mp h).2 (hp ▸ hname)
  unfold RequestHead.addPair
  split
  next hmethod =>
    apply iff_of_true rfl
    intro hf
    exact absurd hf (hpseudo ":method" (by decide +kernel) hmethod)
  next =>
    split
    next hpath =>
      apply iff_of_true rfl
      intro hf
      exact absurd hf (hpseudo ":path" (by decide +kernel) hpath)
    next =>
      split
      next hname =>
        rw [Option.isSome_map, pwHttpAppendHeader_isSome_iff, imp_iff_right (hplain.mpr hname)]
      next hname =>
        apply iff_of_true rfl
        intro hf
        exact absurd (hplain.mp hf) hname

theorem areaUsed_cons (p : Bytes × Bytes) (ps : Fields) :
    areaUsed (p :: ps) =
      (if forwarded p then (fieldLine p ++ crlf).length else 0) + areaUsed ps := by
  unfold areaUsed
  split <;> simp [*]

/-- The pairs go into a head if each header is valid and they fit together. -/
theorem addPairs_isSome_iff (ps : Fields) (head : RequestHead) (hextra : head.extra.length < 4096) :
    (addPairs ps head).isSome = true ↔
      (∀ p ∈ ps, forwarded p = true → fieldOk p) ∧ head.extra.length + areaUsed ps < 4096 := by
  induction ps generalizing head with
  | nil =>
    apply iff_of_true rfl
    refine ⟨by simp, ?_⟩
    simpa [areaUsed] using hextra
  | cons p ps ih =>
    have hsome := addPair_isSome_iff head p
    rw [addPairs, List.foldlM_cons, Option.bind_eq_bind, List.forall_mem_cons, areaUsed_cons]
    cases hnext : head.addPair p.1 p.2 with
    | none =>
      rw [hnext] at hsome
      apply iff_of_false (by simp)
      intro h
      refine absurd (hsome.mpr fun hf => ⟨h.1.1 hf, ?_⟩) (by simp)
      have harea := h.2
      rw [if_pos hf] at harea
      omega
    | some next =>
      obtain ⟨-, -, hextra', hok⟩ := addPair_spec hnext
      rw [hnext] at hsome
      have hlen : next.extra.length =
          head.extra.length + if forwarded p then (fieldLine p ++ crlf).length else 0 := by
        rw [hextra', List.length_append]
        split <;> rfl
      have hroom : next.extra.length < 4096 := by
        rw [hlen]
        split
        next hf => exact (hsome.mp rfl hf).2
        next => exact hextra
      rw [Option.bind_some, ← addPairs, ih next hroom, hlen, and_iff_right hok, Nat.add_assoc]

end Area

section Decoder

variable (valid : Bool) (mem : Bytes) (ptr size : UInt32)

/-- What the decoder computes, and that it stays within bounds. -/
theorem touchHeaderMap_decodes (hsize : size ≠ 0) :
    (touchHeaderMap valid mem ptr size).1 = orBadArgument (decodeHeaderMap valid mem ptr size) ∧
      ∀ t ∈ (touchHeaderMap valid mem ptr size).2, t.Safe size.toNat := by
  unfold touchHeaderMap decodeHeaderMap
  rw [if_neg hsize]
  split
  next => exact ⟨rfl, by simp⟩
  next hregion =>
    have hfour : 4 ≤ size.toNat := Nat.not_lt.mp fun h => hregion (Or.inl h)
    have hvalid : pwValidateRegion valid mem ptr size = true := by
      simpa using fun h => hregion (Or.inr h)
    have hlen := pwMemRegion_length valid mem ptr size hvalid
    have hlt := size.toNat_lt
    have hcount : ∀ t ∈ [Touch.read 0 4], t.Safe size.toNat := by
      simpa using read_safe (by omega)
    simp only [decodePairs_eq]
    generalize readU32 (pwMemRegion mem ptr size) = word
    generalize word 0 = numPairs
    rw [hlen]
    split
    next => exact ⟨rfl, hcount⟩
    next =>
      split
      next => exact ⟨rfl, hcount⟩
      next hroom =>
        obtain ⟨hresult, hsafe⟩ := touchPairs_spec word (pwMemRegion mem ptr size) (by omega)
          numPairs 0 (4 + numPairs * 8) {} (by omega) (by omega)
        rw [hlen] at hsafe
        exact touched_prepend hresult hcount hsafe

/-- Up to 64 pairs are read from the buffer and put into the head. -/
theorem decodeHeaderMap_eq (hfour : ¬ size < 4)
    (hvalid : pwValidateRegion valid mem ptr size = true) :
    decodeHeaderMap valid mem ptr size =
      if 64 < readU32 (pwMemRegion mem ptr size) 0 then none
      else (readPairs (pwMemRegion mem ptr size)).bind fun r => addPairs r.1 {} := by
  have hsize : size ≠ 0 := fun h => hfour (by rw [h]; decide)
  have hregion : ¬ (size < 4 ∨ pwValidateRegion valid mem ptr size = false) := by
    simp [hfour, hvalid]
  unfold decodeHeaderMap readPairs
  simp only [if_neg hsize, if_neg hregion, decodePairs_eq, decodeWith_eq, lengthTable,
    ← List.range_eq_range']
  split
  next => rfl
  next => split <;> rfl

theorem decodeHeaderMap_eq_some_iff (hsize : size ≠ 0)
    (hvalid : pwValidateRegion valid mem ptr size = true) (head : RequestHead) :
    decodeHeaderMap valid mem ptr size = some head ↔
      ∃ ps, (∃ rest, pwMemRegion mem ptr size = encodePairs ps ++ rest) ∧ ps.length ≤ 64 ∧
        addPairs ps {} = some head := by
  have hlen := pwMemRegion_length valid mem ptr size hvalid
  have hsmall : (pwMemRegion mem ptr size).length < 2 ^ 32 := hlen ▸ size.toNat_lt
  have hread := readPairs_eq_some_iff (pwMemRegion mem ptr size) hsmall
  -- the first word of an encoding is the number of its pairs
  have hcount (ps : Fields) (rest : Bytes)
      (h : pwMemRegion mem ptr size = encodePairs ps ++ rest) :
      4 ≤ size.toNat ∧ readU32 (pwMemRegion mem ptr size) 0 = ps.length := by
    have htotal := congrArg List.length h
    rw [List.length_append, length_encodePairs] at htotal
    refine ⟨by omega, ?_⟩
    rw [h, List.length_append] at hsmall
    rw [h, readU32_count_append ps rest (by omega)]
  by_cases hfour : size < 4
  · have hshort : size.toNat < 4 := hfour
    apply iff_of_false
    · simp [decodeHeaderMap, hsize, hfour]
    · intro h
      obtain ⟨ps, ⟨rest, hencoded⟩, -⟩ := h
      have hlong := (hcount ps rest hencoded).1
      omega
  · rw [decodeHeaderMap_eq valid mem ptr size hfour hvalid]
    constructor
    · intro h
      split at h
      next => contradiction
      next hfew =>
        obtain ⟨⟨ps, rest⟩, hpairs, hadd⟩ := Option.bind_eq_some_iff.mp h
        have hencoded := (hread ps rest).mp hpairs
        have hps := (hcount ps rest hencoded).2
        exact ⟨ps, ⟨rest, hencoded⟩, by omega, hadd⟩
    · intro h
      obtain ⟨ps, ⟨rest, hencoded⟩, hfew, hadd⟩ := h
      have hps := (hcount ps rest hencoded).2
      rw [if_neg (by omega), (hread ps rest).mpr hencoded]
      exact hadd

end Decoder

/-- The decoder refuses a buffer exactly if it does not begin with the encoding of
pairs that are accepted. Otherwise it puts these pairs into the head, in their
order. It never leaves the buffer. -/
theorem touchHeaderMap_spec (valid : Bool) (mem : Bytes) (ptr size : UInt32) (hsize : size ≠ 0)
    (hvalid : pwValidateRegion valid mem ptr size = true) :
    ((touchHeaderMap valid mem ptr size).1 = .error .badArgument ↔
        ¬ ∃ ps, Accepts (pwMemRegion mem ptr size) ps) ∧
      (∀ ps, Accepts (pwMemRegion mem ptr size) ps →
        ∃ head, addPairs ps {} = some head ∧
          (touchHeaderMap valid mem ptr size).1 = .ok head) ∧
      ∀ t ∈ (touchHeaderMap valid mem ptr size).2, t.Safe size.toNat := by
  obtain ⟨hresult, hsafe⟩ := touchHeaderMap_decodes valid mem ptr size hsize
  have hsome := decodeHeaderMap_eq_some_iff valid mem ptr size hsize hvalid
  have harea (ps : Fields) := addPairs_isSome_iff ps {} (by decide)
  have haccepted (ps : Fields) (h : Accepts (pwMemRegion mem ptr size) ps) :
      ∃ head, addPairs ps {} = some head ∧
        (touchHeaderMap valid mem ptr size).1 = .ok head := by
    obtain ⟨head, hadd⟩ := Option.isSome_iff_exists.mp
      ((harea ps).mpr ⟨h.fields, by simpa using h.area⟩)
    refine ⟨head, hadd, ?_⟩
    rw [hresult, (hsome head).mpr ⟨ps, h.encoded, h.few, hadd⟩]
    rfl
  refine ⟨?_, haccepted, hsafe⟩
  constructor
  · intro herror h
    obtain ⟨ps, hps⟩ := h
    obtain ⟨head, -, hok⟩ := haccepted ps hps
    rw [herror] at hok
    contradiction
  · intro hnone
    cases hdecoded : decodeHeaderMap valid mem ptr size with
    | none => rw [hresult, hdecoded]; rfl
    | some head =>
      obtain ⟨ps, hencoded, hfew, hadd⟩ := (hsome head).mp hdecoded
      obtain ⟨hfields, hroom⟩ := (harea ps).mp (by rw [hadd]; rfl)
      exact absurd ⟨ps, hencoded, hfew, hfields, by simpa using hroom⟩ hnone

theorem postMemory_decodes :
    (∃ head, (touchHeaderMap true postMemory postArgs.headersPtr postArgs.headersSize).1 =
        .ok head) ∧
      ∀ t ∈ (touchHeaderMap true postMemory postArgs.headersPtr postArgs.headersSize).2,
        t.Safe postArgs.headersSize.toNat := by
  have hspec := touchHeaderMap_spec true postMemory postArgs.headersPtr postArgs.headersSize
    (by decide +kernel) (by decide +kernel)
  refine ⟨?_, hspec.2.2⟩
  obtain ⟨head, -, hok⟩ := hspec.2.1 [(ascii ":method", ascii "POST"), (ascii "X", ascii "1")]
    ⟨⟨[], by decide +kernel⟩, by decide, by unfold fieldOk; decide +kernel, by decide +kernel⟩
  exact ⟨head, hok⟩

end VmodWasm.CalloutDecoding
