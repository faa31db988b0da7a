import VmodWasm.ByteStrings

/-!
Serialized maps as Proxy-Wasm has them: the number of pairs, the lengths of all
keys and values, then the keys and values themselves, each with a NUL behind it.
-/
namespace VmodWasm.PairMaps

open ByteStrings

def pairLengths (p : Bytes × Bytes) : Bytes := u32Bytes p.1.length ++ u32Bytes p.2.length

def pairStrings (p : Bytes × Bytes) : Bytes := p.1 ++ 0 :: (p.2 ++ [0])

def encodePairs (ps : List (Bytes × Bytes)) : Bytes :=
  u32Bytes ps.length ++ (ps.flatMap pairLengths ++ ps.flatMap pairStrings)

/-- A string of `n` bytes and its NUL, and what comes after it. -/
def takeString (n : ℕ) (b : Bytes) : Option (Bytes × Bytes) :=
  if b[n]? = some 0 then some (b.take n, b.drop (n + 1)) else none

/-- The strings of the given lengths, and what comes after them. -/
def takeStrings : List (ℕ × ℕ) → Bytes → Option (List (Bytes × Bytes) × Bytes)
  | [], b => some ([], b)
  | (ks, vs) :: lengths, b => do
    let (k, b) ← takeString ks b
    let (v, b) ← takeString vs b
    let (ps, b) ← takeStrings lengths b
    return ((k, v) :: ps, b)

def lengthTable (b : Bytes) (n : ℕ) : List (ℕ × ℕ) :=
  (List.range n).map fun i => (readU32 b (4 + i * 8), readU32 b (4 + i * 8 + 4))

/-- The pairs of a map, and what comes after it. -/
def readPairs (b : Bytes) : Option (List (Bytes × Bytes) × Bytes) :=
  let n := readU32 b 0
  if b.length < 4 + n * 8 then none else takeStrings (lengthTable b n) (b.drop (4 + n * 8))

/-- Read a whole map, with nothing after it. -/
def decodePairs (b : Bytes) : Option (List (Bytes × Bytes)) :=
  (readPairs b).bind fun r => if r.2 = [] then some r.1 else none

theorem readU32_drop (b : Bytes) (off n : ℕ) : readU32 b (off + n) = readU32 (b.drop off) n := by
  simp [readU32, List.getD_eq_getElem?_getD, List.getElem?_drop, Nat.add_assoc]

theorem readU32_u32Bytes (n : ℕ) (hn : n < 2 ^ 32) (rest : Bytes) :
    readU32 (u32Bytes n ++ rest) 0 = n := by
  simp [readU32, u32Bytes, UInt8.toNat_ofNat']
  omega

theorem length_pairLengths (p : Bytes × Bytes) : (pairLengths p).length = 8 := rfl

theorem length_flatMap_pairLengths (ps : List (Bytes × Bytes)) :
    (ps.flatMap pairLengths).length = ps.length * 8 := by
  simp [List.length_flatMap, length_pairLengths]

theorem length_pairStrings (p : Bytes × Bytes) :
    (pairStrings p).length = p.1.length + 1 + (p.2.length + 1) := by
  simp only [pairStrings, List.length_append, List.length_cons, List.length_nil]
  omega

theorem drop_encodePairs (ps : List (Bytes × Bytes)) (i : ℕ) (hi : i ≤ ps.length) :
    (encodePairs ps).drop (4 + i * 8) =
      (ps.drop i).flatMap pairLengths ++ ps.flatMap pairStrings := by
  have hfour : (u32Bytes ps.length).length = 4 := rfl
  rw [encodePairs, ← List.drop_drop, List.drop_append, hfour, Nat.sub_self, List.drop_zero,
    List.drop_of_length_le (Nat.le_of_eq hfour), List.nil_append]
  have hsplit : ps.flatMap pairLengths =
      (ps.take i).flatMap pairLengths ++ (ps.drop i).flatMap pairLengths := by
    rw [← List.flatMap_append, List.take_append_drop]
  have hlen : ((ps.take i).flatMap pairLengths).length = i * 8 := by
    rw [length_flatMap_pairLengths, List.length_take, Nat.min_eq_left hi]
  rw [hsplit, List.append_assoc, List.drop_append, hlen, Nat.sub_self, List.drop_zero,
    List.drop_of_length_le (Nat.le_of_eq hlen), List.nil_append]

theorem length_encodePairs (ps : List (Bytes × Bytes)) :
    (encodePairs ps).length = 4 + ps.length * 8 + (ps.flatMap pairStrings).length := by
  have hfour : (u32Bytes ps.length).length = 4 := rfl
  rw [encodePairs, List.length_append, List.length_append, length_flatMap_pairLengths, hfour,
    Nat.add_assoc]

theorem length_pairStrings_le (ps : List (Bytes × Bytes)) (p : Bytes × Bytes) (hp : p ∈ ps) :
    (pairStrings p).length ≤ (ps.flatMap pairStrings).length := by
  obtain ⟨before, after, rfl⟩ := List.append_of_mem hp
  simp only [List.flatMap_append, List.flatMap_cons, List.length_append]
  omega

section Small

variable (ps : List (Bytes × Bytes)) (hsmall : (encodePairs ps).length < 2 ^ 32)

include hsmall

theorem readU32_count : readU32 (encodePairs ps) 0 = ps.length := by
  rw [length_encodePairs] at hsmall
  exact readU32_u32Bytes ps.length (by omega) _

/-- The table holds the lengths of the pairs. -/
theorem readU32_lengths (i : ℕ) (p : Bytes × Bytes) (hp : ps[i]? = some p) :
    readU32 (encodePairs ps) (4 + i * 8) = p.1.length ∧
      readU32 (encodePairs ps) (4 + i * 8 + 4) = p.2.length := by
  obtain ⟨hi, hget⟩ := List.getElem?_eq_some_iff.mp hp
  have hle := length_pairStrings_le ps p (List.mem_of_getElem? hp)
  rw [length_encodePairs] at hsmall
  rw [length_pairStrings] at hle
  have hdrop : (encodePairs ps).drop (4 + i * 8) = u32Bytes p.1.length ++ (u32Bytes p.2.length ++
      ((ps.drop (i + 1)).flatMap pairLengths ++ ps.flatMap pairStrings)) := by
    rw [drop_encodePairs ps i (by omega), List.drop_eq_getElem_cons hi, hget, List.flatMap_cons,
      pairLengths, List.append_assoc, List.append_assoc]
  constructor
  · rw [← Nat.add_zero (4 + i * 8), readU32_drop, hdrop]
    exact readU32_u32Bytes _ (by omega) _
  · rw [readU32_drop, hdrop, ← Nat.add_zero 4, readU32_drop]
    exact readU32_u32Bytes _ (by omega) _

theorem lengthTable_encodePairs :
    lengthTable (encodePairs ps) ps.length = ps.map fun p => (p.1.length, p.2.length) := by
  apply List.ext_getElem?
  intro i
  simp only [lengthTable, List.getElem?_map]
  by_cases hi : i < ps.length
  · have hlengths := readU32_lengths ps hsmall i ps[i] (List.getElem?_eq_getElem hi)
    rw [List.getElem?_eq_getElem hi, List.getElem?_range hi]
    simp only [Option.map_some, hlengths.1, hlengths.2]
  · rw [List.getElem?_eq_none (by rw [List.length_range]; omega), List.getElem?_eq_none (by omega)]
    rfl

end Small

theorem takeString_append (s rest : Bytes) :
    takeString s.length (s ++ 0 :: rest) = some (s, rest) := by
  simp [takeString, List.drop_append]

theorem takeStrings_pairStrings (ps : List (Bytes × Bytes)) (rest : Bytes) :
    takeStrings (ps.map fun p => (p.1.length, p.2.length)) (ps.flatMap pairStrings ++ rest) =
      some (ps, rest) := by
  induction ps with
  | nil => rfl
  | cons p ps ih =>
    have hcut : (p :: ps).flatMap pairStrings ++ rest =
        p.1 ++ 0 :: (p.2 ++ 0 :: (ps.flatMap pairStrings ++ rest)) := by
      simp [pairStrings]
    rw [List.map_cons, hcut, takeStrings, takeString_append]
    simp [takeString_append, ih]

theorem readU32_append (a b : Bytes) (off : ℕ) (h : off + 4 ≤ a.length) :
    readU32 (a ++ b) off = readU32 a off := by
  have hget (i : ℕ) (hi : i < a.length) : (a ++ b).getD i 0 = a.getD i 0 := by
    rw [List.getD_eq_getElem?_getD, List.getElem?_append_left hi, ← List.getD_eq_getElem?_getD]
  simp only [readU32]
  rw [hget _ (by omega), hget _ (by omega), hget _ (by omega), hget _ (by omega)]

theorem readU32_count_append (ps : List (Bytes × Bytes)) (rest : Bytes)
    (hsmall : (encodePairs ps).length < 2 ^ 32) :
    readU32 (encodePairs ps ++ rest) 0 = ps.length := by
  have hlen := length_encodePairs ps
  rw [readU32_append _ _ _ (by omega), readU32_count ps hsmall]

/-- The pairs of a map of less than 4 GiB are read, with anything behind it. -/
theorem readPairs_encodePairs (ps : List (Bytes × Bytes)) (rest : Bytes)
    (hsmall : (encodePairs ps).length < 2 ^ 32) :
    readPairs (encodePairs ps ++ rest) = some (ps, rest) := by
  have hlen := length_encodePairs ps
  have hcount := readU32_count_append ps rest hsmall
  have htable : lengthTable (encodePairs ps ++ rest) ps.length =
      lengthTable (encodePairs ps) ps.length := by
    refine List.map_congr_left fun i hi => ?_
    have hi := List.mem_range.mp hi
    rw [readU32_append _ _ _ (by omega), readU32_append _ _ _ (by omega)]
  have hstrings := drop_encodePairs ps ps.length (Nat.le_refl _)
  rw [List.drop_length, List.flatMap_nil, List.nil_append] at hstrings
  unfold readPairs
  simp only [hcount]
  rw [if_neg (by rw [List.length_append]; omega), htable, lengthTable_encodePairs ps hsmall,
    List.drop_append_of_le_length (by omega), hstrings, takeStrings_pairStrings]

/-- A map of less than 4 GiB is read back. -/
theorem decodePairs_encodePairs (ps : List (Bytes × Bytes))
    (hsmall : (encodePairs ps).length < 2 ^ 32) : decodePairs (encodePairs ps) = some ps := by
  have hread := readPairs_encodePairs ps [] hsmall
  rw [List.append_nil] at hread
  simp only [decodePairs, hread, Option.bind_some, if_true]

section Canonical

theorem takeString_eq_some {n : ℕ} {b s rest : Bytes} (h : takeString n b = some (s, rest)) :
    s.length = n ∧ b = s ++ 0 :: rest := by
  unfold takeString at h
  split at h
  next hnul =>
    obtain ⟨hlt, hget⟩ := List.getElem?_eq_some_iff.mp hnul
    simp only [Option.some.injEq, Prod.mk.injEq] at h
    obtain ⟨rfl, rfl⟩ := h
    refine ⟨List.length_take_of_le hlt.le, ?_⟩
    rw [← hget, ← List.drop_eq_getElem_cons hlt, List.take_append_drop]
  next => contradiction

theorem takeStrings_eq_some {lengths : List (ℕ × ℕ)} {b rest : Bytes}
    {ps : List (Bytes × Bytes)} (h : takeStrings lengths b = some (ps, rest)) :
    lengths = ps.map (fun p => (p.1.length, p.2.length)) ∧
      b = ps.flatMap pairStrings ++ rest := by
  induction lengths generalizing b ps with
  | nil =>
    cases h
    exact ⟨rfl, rfl⟩
  | cons l lengths ih =>
    simp only [takeStrings, Option.bind_eq_bind, Option.bind_eq_some_iff, Option.pure_def,
      Option.some.injEq, Prod.mk.injEq] at h
    obtain ⟨⟨k, b₁⟩, hkey, ⟨v, b₂⟩, hvalue, ⟨ps', b₃⟩, hrest, rfl, rfl⟩ := h
    obtain ⟨hk, rfl⟩ := takeString_eq_some hkey
    obtain ⟨hv, rfl⟩ := takeString_eq_some hvalue
    obtain ⟨hlengths, rfl⟩ := ih hrest
    refine ⟨?_, by simp [pairStrings]⟩
    rw [List.map_cons, ← hlengths, hk, hv]

theorem u32Bytes_readU32 (b : Bytes) (off : ℕ) (h : off + 4 ≤ b.length) :
    u32Bytes (readU32 b off) = (b.drop off).take 4 := by
  have hcons (i : ℕ) (hi : i < b.length) : b.drop i = b.getD i 0 :: b.drop (i + 1) := by
    rw [List.getD_eq_getElem?_getD, List.getElem?_eq_getElem hi, Option.getD_some,
      List.drop_eq_getElem_cons hi]
  rw [hcons off (by omega), hcons (off + 1) (by omega), hcons (off + 2) (by omega),
    hcons (off + 3) (by omega)]
  simp only [List.take_succ_cons, List.take_zero, u32Bytes, readU32, List.cons.injEq,
    ← UInt8.toNat_inj, UInt8.toNat_ofNat', and_true]
  have h0 := (b.getD off 0).toNat_lt
  have h1 := (b.getD (off + 1) 0).toNat_lt
  have h2 := (b.getD (off + 2) 0).toNat_lt
  have h3 := (b.getD (off + 3) 0).toNat_lt
  omega

/-- A table of lengths is what it is read as. -/
theorem flatMap_lengthTable (b : Bytes) (n : ℕ) (h : 4 + n * 8 ≤ b.length) :
    (lengthTable b n).flatMap (fun l => u32Bytes l.1 ++ u32Bytes l.2) =
      (b.drop 4).take (n * 8) := by
  induction n with
  | zero => rfl
  | succ n ih =>
    have hinit : lengthTable b (n + 1) =
        lengthTable b n ++ [(readU32 b (4 + n * 8), readU32 b (4 + n * 8 + 4))] := by
      simp [lengthTable, List.range_succ]
    have hnext : (b.drop 4).take ((n + 1) * 8) =
        (b.drop 4).take (n * 8) ++ ((b.drop (4 + n * 8)).take 4 ++
          (b.drop (4 + n * 8 + 4)).take 4) := by
      rw [show (n + 1) * 8 = n * 8 + (4 + 4) by omega, List.take_add, List.drop_drop, List.take_add,
        List.drop_drop]
    rw [hinit, List.flatMap_append, ih (by omega), hnext, List.flatMap_singleton,
      u32Bytes_readU32 _ _ (by omega), u32Bytes_readU32 _ _ (by omega)]

/-- A buffer is read as a map exactly if it begins with the map's encoding. -/
theorem readPairs_eq_some_iff (b : Bytes) (hsmall : b.length < 2 ^ 32)
    (ps : List (Bytes × Bytes)) (rest : Bytes) :
    readPairs b = some (ps, rest) ↔ b = encodePairs ps ++ rest := by
  constructor
  · intro h
    unfold readPairs at h
    dsimp only at h
    split at h
    next => contradiction
    next htable =>
      obtain ⟨hlengths, hstrings⟩ := takeStrings_eq_some h
      have hcount : readU32 b 0 = ps.length := by
        have hlen := congrArg List.length hlengths
        simpa [lengthTable] using hlen
      have hlow := flatMap_lengthTable b (readU32 b 0) (by omega)
      rw [hlengths, List.flatMap_map] at hlow
      have hfront := u32Bytes_readU32 b 0 (by omega)
      rw [List.drop_zero] at hfront
      rw [encodePairs, ← hcount, hfront]
      change b = b.take 4 ++ (ps.flatMap (fun p => u32Bytes p.1.length ++ u32Bytes p.2.length) ++
        ps.flatMap pairStrings) ++ rest
      rw [hlow, List.append_assoc, List.append_assoc, ← hstrings, ← List.drop_drop,
        List.take_append_drop, List.take_append_drop]
  · intro h
    rw [h, List.length_append] at hsmall
    rw [h]
    exact readPairs_encodePairs ps rest (by omega)

end Canonical

end VmodWasm.PairMaps
