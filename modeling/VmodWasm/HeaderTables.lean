import Mathlib.Data.List.TakeWhile
import VmodWasm.ByteSearch
import VmodWasm.Lib.SequentialWrites
import VmodWasm.PairMaps
import VmodWasm.CheckedHelpers

/-!
Header tables of Varnish and their serialization by
`pw_proxy_get_header_map_pairs`. The function walks over the lines three times:
to add up the size of its buffer, to write the table of lengths, and to write the
strings. Each walk takes the lines apart anew.
-/
namespace VmodWasm.HeaderTables

open ByteStrings ByteSearch PairMaps CheckedHelpers Lib.CheckedMemory Lib.SequentialWrites

/-- A C string, without its NUL. -/
abbrev CStr := { s : Bytes // 0 ∉ s }

def toCStr (s : Bytes) : CStr := ⟨cstr s, nul_notMem_cstr s⟩

/-- `struct http`: the fields of the first line that are read, and the entries
from `HTTP_HDR_FIRST` on, each a line or `NULL`. -/
structure HttpTable where
  method : Option CStr := none
  url : Option CStr := none
  status : Option CStr := none
  entries : List (Option CStr) := []

inductive HeaderMap where
  | request | response
  deriving DecidableEq, Repr

def colon : UInt8 := 0x3a

def strchr (s : Bytes) (c : UInt8) : Option ℕ := s.findIdx? (· == c)

/-- The value of the first `Host:` line. -/
def authority (t : HttpTable) : Option Bytes :=
  t.entries.findSome? fun
    | none => none
    | some line =>
      if caseEq (line.1.take 5) (ascii "Host:") then some ((line.1.drop 5).dropWhile isBlank)
      else none

def pseudoPair (name : String) (value : Option Bytes) : List (Bytes × Bytes) :=
  (value.map fun v => (ascii name, v)).toList

/-- `pseudo_keys` and `pseudo_vals`. -/
def pseudoPairs (map : HeaderMap) (t : HttpTable) : List (Bytes × Bytes) :=
  match map with
  | .request =>
    pseudoPair ":method" (t.method.map (·.1)) ++ pseudoPair ":path" (t.url.map (·.1)) ++
      pseudoPair ":authority" (authority t)
  | .response => pseudoPair ":status" (t.status.map (·.1))

section Walks

/-- The first walk. -/
def entrySize : Option CStr → ℕ
  | none => 2
  | some line =>
    match strchr line.1 colon with
    | none => line.1.length + 1 + 1
    | some keyLen => keyLen + 1 + ((line.1.drop (keyLen + 1)).dropWhile isBlank).length + 1

/-- The second walk: two `memcpy`s of four bytes. -/
def entryLengths : Option CStr → List Bytes
  | none => [u32Bytes 0, u32Bytes 0]
  | some line =>
    match strchr line.1 colon with
    | none => [u32Bytes line.1.length, u32Bytes 0]
    | some keyLen =>
      [u32Bytes keyLen, u32Bytes ((line.1.drop (keyLen + 1)).dropWhile isBlank).length]

/-- The third walk: the copies and the NULs. -/
def entryStrings : Option CStr → List Bytes
  | none => [[0], [0]]
  | some line =>
    match strchr line.1 colon with
    | none => [line.1, [0], [0]]
    | some keyLen =>
      [line.1.take keyLen, [0], (line.1.drop (keyLen + 1)).dropWhile isBlank, [0]]

end Walks

def pairSize (p : Bytes × Bytes) : ℕ := p.1.length + 1 + p.2.length + 1

def lengthChunks (p : Bytes × Bytes) : List Bytes := [u32Bytes p.1.length, u32Bytes p.2.length]

def stringChunks (p : Bytes × Bytes) : List Bytes := [p.1, [0], p.2, [0]]

variable (map : HeaderMap) (t : HttpTable)

def numHeaders : ℕ := u32 (t.entries.length + (pseudoPairs map t).length)

/-- `total_size`, with which the buffer is allocated. -/
def totalSize : ℕ :=
  4 + numHeaders map t * 8 + ((pseudoPairs map t).map pairSize).sum + (t.entries.map entrySize).sum

/-- The writes into the buffer; the result is the last offset. -/
def buildHeaderPairs : Checked ℕ := do
  let offset ← emitAll u32 0 [u32Bytes (numHeaders map t)]
  let offset ← emitAll u32 offset ((pseudoPairs map t).flatMap lengthChunks)
  let offset ← emitAll u32 offset (t.entries.flatMap entryLengths)
  let offset ← emitAll u32 offset ((pseudoPairs map t).flatMap stringChunks)
  emitAll u32 offset (t.entries.flatMap entryStrings)

/-- What an entry stands for: the name up to the first colon, and the value
behind it without leading blanks. -/
def entryPair (entry : Option CStr) : Bytes × Bytes :=
  let line := (entry.map (·.1)).getD []
  (line.takeWhile (· ≠ colon), ((line.dropWhile (· ≠ colon)).drop 1).dropWhile isBlank)

def tablePairs : List (Bytes × Bytes) := pseudoPairs map t ++ t.entries.map entryPair

section Lines

theorem strchr_none {s : Bytes} {c : UInt8} (h : strchr s c = none) :
    s.takeWhile (· ≠ c) = s ∧ s.dropWhile (· ≠ c) = [] := by
  have hne : ∀ x ∈ s, decide (x ≠ c) = true := by
    simpa [strchr, List.findIdx?_eq_none_iff] using h
  exact ⟨List.takeWhile_eq_self_iff.mpr hne, List.dropWhile_eq_nil_iff.mpr hne⟩

theorem strchr_some {s : Bytes} {c : UInt8} {i : ℕ} (h : strchr s c = some i) :
    s.takeWhile (· ≠ c) = s.take i ∧ (s.dropWhile (· ≠ c)).drop 1 = s.drop (i + 1) := by
  induction s generalizing i with
  | nil => simp [strchr] at h
  | cons x s ih =>
    rw [strchr, List.findIdx?_cons] at h
    by_cases hx : x = c
    · simp only [hx, beq_self_eq_true, if_true, Option.some.injEq] at h
      simp [← h, hx]
    · simp only [beq_iff_eq, hx, if_false, Option.map_eq_some_iff] at h
      obtain ⟨j, hj, rfl⟩ := h
      obtain ⟨htake, hdrop⟩ := ih hj
      simp [hx, ← htake, ← hdrop]

theorem entryPair_colonless {line : CStr} (h : strchr line.1 colon = none) :
    entryPair (some line) = (line.1, []) := by
  obtain ⟨htake, hdrop⟩ := strchr_none h
  simp only [entryPair, Option.map_some, Option.getD_some, htake, hdrop]
  rfl

theorem entryPair_colon {line : CStr} {i : ℕ} (h : strchr line.1 colon = some i) :
    entryPair (some line) = (line.1.take i, (line.1.drop (i + 1)).dropWhile isBlank) := by
  obtain ⟨htake, hdrop⟩ := strchr_some h
  simp only [entryPair, Option.map_some, Option.getD_some, htake, hdrop]

theorem strchr_lt {s : Bytes} {c : UInt8} {i : ℕ} (h : strchr s c = some i) : i < s.length :=
  (List.findIdx?_eq_some_iff_getElem.mp h).1

theorem nul_notMem_entryPair (entry : Option CStr) :
    0 ∉ (entryPair entry).1 ∧ 0 ∉ (entryPair entry).2 := by
  have hline : 0 ∉ (entry.map (·.1)).getD [] := by
    cases entry with
    | none => simp
    | some line => exact line.2
  refine ⟨fun h => hline ((List.takeWhile_sublist _).mem h), fun h => hline ?_⟩
  have hdrop := List.mem_of_mem_drop ((List.dropWhile_sublist _).mem h)
  exact (List.dropWhile_sublist _).mem hdrop

theorem colon_notMem_entryPair (entry : Option CStr) : colon ∉ (entryPair entry).1 := by
  intro h
  simpa using List.mem_takeWhile_imp h

theorem nul_notMem_authority (t : HttpTable) {v : Bytes} (hv : authority t = some v) : 0 ∉ v := by
  obtain ⟨entry, -, hentry⟩ := List.exists_of_findSome?_eq_some hv
  cases entry with
  | none => simp at hentry
  | some line =>
    simp only [Option.ite_none_right_eq_some, Option.some.injEq] at hentry
    obtain ⟨-, rfl⟩ := hentry
    exact fun h => line.2 (List.mem_of_mem_drop ((List.dropWhile_sublist _).mem h))

/-- A name that is short and has a colon, and no NUL. -/
def PseudoName (name : Bytes) : Prop :=
  0 < name.length ∧ name.length < 255 ∧ 0 ∉ name ∧ colon ∈ name

theorem pseudoPairs_ok (map : HeaderMap) (t : HttpTable) (p : Bytes × Bytes)
    (hp : p ∈ pseudoPairs map t) : PseudoName p.1 ∧ 0 ∉ p.2 := by
  have hpair (name : String) (value : Option Bytes) (hname : PseudoName (ascii name))
      (hvalue : ∀ v, value = some v → 0 ∉ v) (hmem : p ∈ pseudoPair name value) :
      PseudoName p.1 ∧ 0 ∉ p.2 := by
    simp only [pseudoPair, Option.mem_toList, Option.map_eq_some_iff] at hmem
    obtain ⟨v, hv, rfl⟩ := hmem
    exact ⟨hname, hvalue v hv⟩
  have hslot (slot : Option CStr) (v : Bytes) (hv : slot.map (·.1) = some v) : 0 ∉ v := by
    obtain ⟨line, -, rfl⟩ := Option.map_eq_some_iff.mp hv
    exact line.2
  unfold PseudoName at hpair
  cases map with
  | response => exact hpair ":status" _ (by decide +kernel) (hslot t.status) hp
  | request =>
    simp only [pseudoPairs, List.mem_append] at hp
    rcases hp with (hp | hp) | hp
    · exact hpair ":method" _ (by decide +kernel) (hslot t.method) hp
    · exact hpair ":path" _ (by decide +kernel) (hslot t.url) hp
    · exact hpair ":authority" _ (by decide +kernel) (fun v hv => nul_notMem_authority t hv) hp

/-- The three walks see the same pair in an entry. -/
theorem walks_agree (entry : Option CStr) :
    entrySize entry = pairSize (entryPair entry) ∧
      (entryLengths entry).flatten = pairLengths (entryPair entry) ∧
      (entryStrings entry).flatten = pairStrings (entryPair entry) := by
  cases entry with
  | none => exact ⟨rfl, rfl, rfl⟩
  | some line =>
    cases h : strchr line.1 colon with
    | none =>
      rw [entryPair_colonless h]
      simp [entrySize, entryLengths, entryStrings, h, pairSize, pairLengths, pairStrings]
    | some i =>
      have hi : (line.1.take i).length = i := List.length_take_of_le (strchr_lt h).le
      rw [entryPair_colon h]
      simp [entrySize, entryLengths, entryStrings, h, pairSize, pairLengths, pairStrings, hi]

end Lines

theorem flatten_flatMap {α : Type} (l : List α) (f : α → List Bytes) :
    (l.flatMap f).flatten = l.flatMap fun a => (f a).flatten := by
  induction l with
  | nil => rfl
  | cons a l ih => simp [ih]

section Serialize

/-- The chunks of all writes, one behind the other. -/
def headerChunks : List Bytes :=
  [u32Bytes (numHeaders map t)] ++ (pseudoPairs map t).flatMap lengthChunks ++
    t.entries.flatMap entryLengths ++ (pseudoPairs map t).flatMap stringChunks ++
    t.entries.flatMap entryStrings

theorem buildHeaderPairs_eq : buildHeaderPairs map t = emitAll u32 0 (headerChunks map t) := by
  simp only [buildHeaderPairs, headerChunks, emitAll, List.foldlM_append, bind_assoc]

theorem sum_pairSize (ps : List (Bytes × Bytes)) :
    (ps.map pairSize).sum = (ps.flatMap pairStrings).length := by
  rw [List.length_flatMap]
  refine congrArg List.sum (List.map_congr_left fun p _ => ?_)
  rw [length_pairStrings, pairSize]
  omega

theorem totalSize_eq (hnum : numHeaders map t = (tablePairs map t).length) :
    totalSize map t = (encodePairs (tablePairs map t)).length := by
  have hentries : (t.entries.map entrySize).sum = ((t.entries.map entryPair).map pairSize).sum := by
    rw [List.map_map]
    exact congrArg List.sum (List.map_congr_left fun entry _ => (walks_agree entry).1)
  rw [totalSize, hnum, hentries, length_encodePairs, Nat.add_assoc, ← List.sum_append,
    ← List.map_append, sum_pairSize]
  rfl

theorem flatten_headerChunks (hnum : numHeaders map t = (tablePairs map t).length) :
    (headerChunks map t).flatten = encodePairs (tablePairs map t) := by
  have hlengths : t.entries.flatMap (fun entry => (entryLengths entry).flatten) =
      (t.entries.map entryPair).flatMap pairLengths := by
    rw [List.flatMap_map]
    exact List.flatMap_congr fun entry _ => (walks_agree entry).2.1
  have hstrings : t.entries.flatMap (fun entry => (entryStrings entry).flatten) =
      (t.entries.map entryPair).flatMap pairStrings := by
    rw [List.flatMap_map]
    exact List.flatMap_congr fun entry _ => (walks_agree entry).2.2
  simp only [headerChunks, List.flatten_append, flatten_flatMap, hlengths, hstrings, hnum,
    encodePairs, tablePairs, List.flatMap_append, List.append_assoc]
  rfl

/-- Every header takes two bytes at least, so a size below 4 GiB bounds their
number. -/
theorem numHeaders_eq (hsize : totalSize map t < 2 ^ 32) :
    numHeaders map t = (tablePairs map t).length := by
  have htwo (ps : List (Bytes × Bytes)) : ps.length ≤ (ps.map pairSize).sum := by
    induction ps with
    | nil => exact Nat.le_refl _
    | cons p ps ih =>
      simp only [List.length_cons, List.map_cons, List.sum_cons, pairSize]
      omega
  have hentries : t.entries.length ≤ (t.entries.map entrySize).sum := by
    have hmap : t.entries.map entrySize = (t.entries.map entryPair).map pairSize := by
      rw [List.map_map]
      exact List.map_congr_left fun entry _ => (walks_agree entry).1
    rw [hmap, ← List.length_map (f := entryPair)]
    exact htwo _
  have hpseudo := htwo (pseudoPairs map t)
  rw [totalSize] at hsize
  rw [numHeaders, u32_of_lt (by omega), tablePairs, List.length_append, List.length_map,
    Nat.add_comm]

/-- The chunks of a map fill a buffer of its size. -/
theorem sat_fill (ps : List (Bytes × Bytes)) (chunks : List Bytes)
    (hchunks : chunks.flatten = encodePairs ps) (hsmall : (encodePairs ps).length < 2 ^ 32)
    (h : Heap) (hlen : h.bytes.length = (encodePairs ps).length) (Q : ℕ → Heap → Prop) :
    Sat (emitAll u32 0 chunks) Q h ↔
      Q (encodePairs ps).length { h with bytes := encodePairs ps } := by
  have hwrap (n : ℕ) (hn : n ≤ h.bytes.length) : u32 n = n := u32_of_lt (by omega)
  have hsplice : splice h.bytes 0 (encodePairs ps) = encodePairs ps := by
    simp [splice, ← hlen]
  rw [sat_emitAll chunks 0 Q h hwrap (by rw [hchunks, hlen]; omega), hchunks, Nat.zero_add, hsplice]

/-- The bytes built from a header table have the size that was allocated, and
they are read back as its pseudo-headers and its entries. -/
theorem buildHeaderPairs_decodes (hsize : totalSize map t < 2 ^ 32) (fresh : Bytes)
    (hfresh : fresh.length = totalSize map t) :
    Sat (buildHeaderPairs map t)
      (fun offset h => offset = totalSize map t ∧ h.bytes.length = totalSize map t ∧
        decodePairs h.bytes = some (pseudoPairs map t ++ t.entries.map entryPair))
      ⟨fresh, false⟩ := by
  have hnum := numHeaders_eq map t hsize
  have htotal := totalSize_eq map t hnum
  rw [htotal] at hsize
  rw [buildHeaderPairs_eq, sat_fill (tablePairs map t) _ (flatten_headerChunks map t hnum) hsize
    ⟨fresh, false⟩ (hfresh.trans htotal)]
  exact ⟨htotal.symm, htotal.symm, decodePairs_encodePairs _ hsize⟩

/-- A request with a line without colon, one with two colons and a `NULL`. -/
def oddRequest : HttpTable where
  method := some (toCStr (ascii "GET"))
  url := some (toCStr (ascii "/"))
  entries := [some (toCStr (ascii "Host: a")), none,
    some (toCStr (ascii "odd")), some (toCStr (ascii "X: \t1:2"))]

theorem oddRequest_decodes :
    Sat (buildHeaderPairs .request oddRequest)
      (fun offset h => offset = totalSize .request oddRequest ∧
        h.bytes.length = totalSize .request oddRequest ∧
        decodePairs h.bytes = some (pseudoPairs .request oddRequest ++
          oddRequest.entries.map entryPair))
      ⟨List.replicate (totalSize .request oddRequest) 0, false⟩ :=
  buildHeaderPairs_decodes .request oddRequest (by decide +kernel) _ (List.length_replicate ..)

end Serialize

section Plain

/-- Trailers and the header fields of a callout response are taken apart before
they are serialized. -/
def buildPairs (ps : List (Bytes × Bytes)) : Checked ℕ := do
  let offset ← emitAll u32 0 [u32Bytes ps.length]
  let offset ← emitAll u32 offset (ps.flatMap lengthChunks)
  emitAll u32 offset (ps.flatMap stringChunks)

def pairsSize (ps : List (Bytes × Bytes)) : ℕ := 4 + ps.length * 8 + (ps.map pairSize).sum

/-- The chunks of all writes, one behind the other. -/
def plainChunks (ps : List (Bytes × Bytes)) : List Bytes :=
  [u32Bytes ps.length] ++ ps.flatMap lengthChunks ++ ps.flatMap stringChunks

theorem buildPairs_eq (ps : List (Bytes × Bytes)) :
    buildPairs ps = emitAll u32 0 (plainChunks ps) := by
  simp only [buildPairs, plainChunks, emitAll, List.foldlM_append, bind_assoc]

theorem flatten_plainChunks (ps : List (Bytes × Bytes)) :
    (plainChunks ps).flatten = encodePairs ps := by
  simp only [plainChunks, List.flatten_append, flatten_flatMap, List.append_assoc, encodePairs]
  rfl

theorem pairsSize_eq (ps : List (Bytes × Bytes)) : pairsSize ps = (encodePairs ps).length := by
  rw [pairsSize, length_encodePairs, sum_pairSize]

theorem buildPairs_decodes (ps : List (Bytes × Bytes)) (hsize : pairsSize ps < 2 ^ 32)
    (fresh : Bytes) (hfresh : fresh.length = pairsSize ps) :
    Sat (buildPairs ps)
      (fun offset h => offset = pairsSize ps ∧ h.bytes.length = pairsSize ps ∧
        decodePairs h.bytes = some ps) ⟨fresh, false⟩ := by
  have htotal := pairsSize_eq ps
  rw [htotal] at hsize
  rw [buildPairs_eq, sat_fill ps _ (flatten_plainChunks ps) hsize ⟨fresh, false⟩
    (hfresh.trans htotal)]
  exact ⟨htotal.symm, htotal.symm, decodePairs_encodePairs ps hsize⟩

end Plain

end VmodWasm.HeaderTables
