import Mathlib.Data.List.DropRight
import VmodWasm.ByteSearch
import VmodWasm.HeaderMapPairs
import VmodWasm.HeaderTables

/-!
A guest that reads a header map with `proxy_get_header_map_pairs` and writes the
same bytes back with `proxy_set_header_map_pairs`. The writer clears the entries
of the table and prints a line for every pair that is short enough, in a buffer
of 4352 bytes.
-/
namespace VmodWasm.HeaderRewrites

open ByteStrings ByteSearch PairMaps GuestMemory ProxyContext HelperBodies HeaderMapPairs
  HeaderTables CheckedHelpers Lib.CheckedMemory

/-- `snprintf(hdr_line, sizeof(hdr_line), "%.*s: %.*s", ...)`. -/
def headerLine (p : Bytes × Bytes) : CStr := toCStr ((p.1 ++ ascii ": " ++ p.2).take 4351)

/-- The table after the pairs have been put into it. -/
def rewritten (t : HttpTable) (put : Pairs) : HttpTable :=
  { t with entries := put.map fun p => some (headerLine p) }

/-- Strings cut at their first NUL, as `%.*s` prints them. -/
def cutPair (p : Bytes × Bytes) : Bytes × Bytes := (cstr p.1, cstr p.2)

def usedPairs (ps : Pairs) : Pairs := (ps.filter fun p => Used p.1.length p.2.length).map cutPair

section Loop

/-- Where the strings of pair `i` begin. -/
def stringOffset (ps : Pairs) (i : ℕ) : ℕ :=
  4 + ps.length * 8 + ((ps.take i).flatMap pairStrings).length

theorem flatMap_pairStrings (ps : Pairs) (i : ℕ) :
    ps.flatMap pairStrings =
      (ps.take i).flatMap pairStrings ++ (ps.drop i).flatMap pairStrings := by
  rw [← List.flatMap_append, List.take_append_drop]

theorem drop_stringOffset (ps : Pairs) (i : ℕ) :
    (encodePairs ps).drop (stringOffset ps i) = (ps.drop i).flatMap pairStrings := by
  have hall := drop_encodePairs ps ps.length (Nat.le_refl _)
  rw [List.drop_length, List.flatMap_nil, List.nil_append] at hall
  rw [stringOffset, ← List.drop_drop, hall, flatMap_pairStrings ps i, List.drop_append,
    Nat.sub_self, List.drop_zero, List.drop_of_length_le (Nat.le_refl _), List.nil_append]

theorem stringOffset_succ (ps : Pairs) (i : ℕ) (p : Bytes × Bytes) (hp : ps[i]? = some p) :
    stringOffset ps (i + 1) = stringOffset ps i + p.1.length + 1 + p.2.length + 1 := by
  rw [stringOffset, List.take_add_one, hp, List.flatMap_append, List.length_append, stringOffset]
  simp only [Option.toList_some, List.flatMap_cons, List.flatMap_nil, List.append_nil,
    length_pairStrings]
  omega

theorem stringOffset_le (ps : Pairs) (i : ℕ) : stringOffset ps i ≤ (encodePairs ps).length := by
  rw [length_encodePairs, stringOffset, flatMap_pairStrings ps i, List.length_append]
  omega

theorem drop_eq_cons (ps : Pairs) (i : ℕ) (p : Bytes × Bytes) (hp : ps[i]? = some p) :
    ps.drop i = p :: ps.drop (i + 1) := by
  obtain ⟨hi, rfl⟩ := List.getElem?_eq_some_iff.mp hp
  exact List.drop_eq_getElem_cons hi

/-- The strings of a pair stand at its offset. -/
theorem drop_stringOffset_eq (ps : Pairs) (i : ℕ) (p : Bytes × Bytes) (hp : ps[i]? = some p) :
    (encodePairs ps).drop (stringOffset ps i) =
      p.1 ++ 0 :: (p.2 ++ 0 :: (ps.drop (i + 1)).flatMap pairStrings) := by
  rw [drop_stringOffset, drop_eq_cons ps i p hp, List.flatMap_cons, pairStrings]
  simp only [List.append_assoc, List.cons_append, List.nil_append]

theorem usedPairs_cons (p : Bytes × Bytes) (ps : Pairs) :
    usedPairs (p :: ps) =
      (if Used p.1.length p.2.length then [cutPair p] else []) ++ usedPairs ps := by
  unfold usedPairs
  split <;> simp [*]

/-- The loop over a map that is in memory puts the pairs that are used. -/
theorem sat_setPairsAt_encoded (ps : Pairs) (data : ℕ) (h : Heap)
    (hsmall : (encodePairs ps).length < 2 ^ 32)
    (hin : data + (encodePairs ps).length ≤ h.bytes.length)
    (hregion : (h.bytes.drop data).take (encodePairs ps).length = encodePairs ps) (n i : ℕ)
    (hn : i + n = ps.length) (put : Pairs) (Q : ProxyStatus × Pairs → Heap → Prop) :
    Sat (setPairsAt (.headers fun _ => true) data (encodePairs ps).length n i (stringOffset ps i)
        put) Q h ↔ Q (.ok, put ++ usedPairs (ps.drop i)) h := by
  induction n generalizing i put with
  | zero =>
    have hdone : ps.drop i = [] := List.drop_of_length_le (by omega)
    simp [setPairsAt, hdone, usedPairs]
  | succ n ih =>
    obtain ⟨p, hp⟩ : ∃ p, ps[i]? = some p := ⟨_, List.getElem?_eq_getElem (by omega)⟩
    have hsucc := stringOffset_succ ps i p hp
    have hle := stringOffset_le ps (i + 1)
    have htable : 4 + ps.length * 8 ≤ (encodePairs ps).length := by
      rw [length_encodePairs]
      omega
    obtain ⟨hks, hvs⟩ := readU32_lengths ps hsmall i p hp
    rw [← hregion, ← readU32_region _ _ _ _ (by omega)] at hks hvs
    have hkey : (h.bytes.drop (data + stringOffset ps i)).take p.1.length = p.1 := by
      rw [take_drop_region _ _ (encodePairs ps).length _ _ (by omega), hregion,
        drop_stringOffset_eq ps i p hp, List.take_left]
    have hvalue : (h.bytes.drop (data + (stringOffset ps i + p.1.length + 1))).take p.2.length =
        p.2 := by
      rw [take_drop_region _ _ (encodePairs ps).length _ _ (by omega), hregion, Nat.add_assoc,
        ← List.drop_drop, drop_stringOffset_eq ps i p hp, ← List.drop_drop, List.drop_left,
        List.drop_one, List.tail_cons, List.take_left]
    have hvoff : u32 (stringOffset ps i + p.1.length + 1) = stringOffset ps i + p.1.length + 1 :=
      u32_of_lt (by omega)
    have hnext : u32 (stringOffset ps i + p.1.length + 1 + p.2.length + 1) =
        stringOffset ps (i + 1) := by
      rw [hsucc]
      exact u32_of_lt (by omega)
    have hreads := pairReads_of_inRange (.headers fun _ => true) h.bytes i
      (data + stringOffset ps i) p.1.length (data + (stringOffset ps i + p.1.length + 1))
      p.2.length put (Or.inr (by omega)) (Or.inr (by omega))
    rw [sat_setPairsAt_succ _ _ _ _ _ _ _ _ _ _ hks hvs, drop_eq_cons ps i p hp, usedPairs_cons,
      and_iff_right (by omega)]
    simp only [hvoff, hnext, Nat.not_lt.mpr hle, if_false]
    by_cases hused : Used p.1.length p.2.length
    · rw [if_pos hused, if_pos hused, and_iff_right hreads]
      simp only [pairPut, hkey, hvalue, if_true]
      rw [ih (i + 1) (by omega), List.append_assoc]
      rfl
    · rw [if_neg hused, if_neg hused, ih (i + 1) (by omega), List.nil_append]

end Loop

/-- Given a map of at most 256 pairs, the function puts the pairs that are used. -/
theorem sat_pwProxySetHeaderMapPairs (side : GuestSide) (ptr size : UInt32) (h : Heap) (ps : Pairs)
    (hmany : ps.length ≤ 256) (hvalid : pwValidateRegion side.valid h.bytes ptr size = true)
    (hregion : pwMemRegion h.bytes ptr size = encodePairs ps)
    (Q : ProxyStatus × Pairs → Heap → Prop) :
    Sat (pwProxySetHeaderMapPairs side (some (.headers fun _ => true)) ptr size) Q h ↔
      Q (.ok, usedPairs ps) h := by
  have hlen : (encodePairs ps).length = size.toNat := by
    rw [← hregion, pwMemRegion_length side.valid h.bytes ptr size hvalid]
  have htotal := length_encodePairs ps
  have hsmall : (encodePairs ps).length < 2 ^ 32 := hlen ▸ size.toNat_lt
  have hin := ((pwValidateRegion_eq_true _ _ _ _).mp hvalid).2
  have hfour : ¬ size < 4 := by
    rw [UInt32.lt_iff_toNat_lt]
    simp
    omega
  have hread : readU32 h.bytes ptr.toNat = ps.length := by
    have hbase := readU32_region h.bytes ptr.toNat size.toNat 0 (by omega)
    rw [Nat.add_zero] at hbase
    rw [hbase, ← readU32_count ps hsmall, ← hregion]
    rfl
  have hloop := sat_setPairsAt_encoded ps ptr.toNat h hsmall (by omega)
    (by rw [hlen]; exact hregion) ps.length 0 (by omega) [] Q
  unfold pwProxySetHeaderMapPairs
  simp only [if_neg hfour, sat_bind, sat_validateRegion, hvalid, not_true, false_implies,
    and_true, forall_const, if_true, sat_loadU32, hread, Nat.not_lt.mpr hmany, if_false]
  rw [if_neg (show ¬ size.toNat < 4 + ps.length * 8 by omega)]
  rw [stringOffset, hlen] at hloop
  simp only [List.take_zero, List.flatMap_nil, List.length_nil, Nat.add_zero, List.nil_append,
    List.drop_zero] at hloop
  rw [hloop]
  exact and_iff_right (by omega)

section Lines

theorem dropWhile_take {value : Bytes} (h : value.dropWhile isBlank = value) (n : ℕ) :
    (value.take n).dropWhile isBlank = value.take n := by
  cases value with
  | nil => simp
  | cons c value =>
    have hc : isBlank c = false := by
      by_contra hblank
      rw [List.dropWhile_cons, if_pos (by simpa using hblank)] at h
      have hlen := congrArg List.length h
      have hle := (List.dropWhile_sublist isBlank (l := value)).length_le
      rw [List.length_cons] at hlen
      omega
    cases n with
    | zero => rfl
    | succ n => rw [List.take_succ_cons, List.dropWhile_cons, hc, if_neg Bool.false_ne_true]

/-- The line of a pair, in which only the value can be cut. -/
theorem headerLine_eq (p : Bytes × Bytes) (hkey : 0 ∉ p.1) (hvalue : 0 ∉ p.2)
    (hshort : p.1.length < 256) :
    (headerLine p).1 = p.1 ++ ascii ": " ++ p.2.take (4349 - p.1.length) := by
  have hsep : (ascii ": ").length = 2 := by decide +kernel
  have hnul : 0 ∉ (p.1 ++ ascii ": " ++ p.2).take 4351 := by
    intro hmem
    have hmem := List.mem_of_mem_take hmem
    simp only [List.mem_append, hkey, hvalue, or_false, false_or] at hmem
    exact absurd hmem (by decide +kernel)
  refine (cstr_eq_self hnul).trans ?_
  rw [List.take_append, List.length_append, hsep,
    List.take_of_length_le (by rw [List.length_append]; omega),
    show 4351 - (p.1.length + 2) = 4349 - p.1.length by omega]

/-- The line of a pair is read back as the pair, with the value cut to what the
buffer holds. -/
theorem entryPair_headerLine (p : Bytes × Bytes) (hkey : 0 ∉ p.1) (hvalue : 0 ∉ p.2)
    (hcolon : colon ∉ p.1) (hshort : p.1.length < 256) (hblank : p.2.dropWhile isBlank = p.2) :
    entryPair (some (headerLine p)) = (p.1, p.2.take (4349 - p.1.length)) := by
  have hsep : ascii ": " = [colon, 0x20] := by decide +kernel
  have hne : ∀ c ∈ p.1, decide (c ≠ colon) = true :=
    fun c hc => decide_eq_true fun heq => hcolon (heq ▸ hc)
  simp only [entryPair, Option.map_some, Option.getD_some, headerLine_eq p hkey hvalue hshort]
  rw [hsep, List.append_assoc, List.takeWhile_append_of_pos hne, List.dropWhile_append_of_pos hne]
  simp [isBlank, dropWhile_take hblank]

theorem dropWhile_entryPair (entry : Option CStr) :
    (entryPair entry).2.dropWhile isBlank = (entryPair entry).2 :=
  List.dropWhile_idempotent isBlank _

end Lines

/-- An entry of the form that HTTP has: a name that is not too long, a colon, a
value that is not too long. -/
structure WellFormed (entry : Option CStr) : Prop where
  hasColon : ∃ line, entry = some line ∧ colon ∈ line.1
  nonempty : (entryPair entry).1 ≠ []
  shortName : (entryPair entry).1.length < 256
  shortValue : (entryPair entry).2.length < 4096

theorem usedPairs_tablePairs (map : HeaderMap) (t : HttpTable)
    (hwell : ∀ e ∈ t.entries, WellFormed e) :
    usedPairs (tablePairs map t) =
      (pseudoPairs map t).filter (fun p => p.2.length < 4096) ++ t.entries.map entryPair := by
  have hcut (ps : Pairs) (hps : ∀ p ∈ ps, 0 ∉ p.1 ∧ 0 ∉ p.2) : ps.map cutPair = ps := by
    refine (List.map_congr_left fun p hp => ?_).trans ps.map_id
    rw [cutPair, cstr_eq_self (hps p hp).1, cstr_eq_self (hps p hp).2]
    rfl
  have hpseudo : (pseudoPairs map t).filter (fun p => Used p.1.length p.2.length) =
      (pseudoPairs map t).filter fun p => p.2.length < 4096 := by
    refine List.filter_congr fun p hp => ?_
    obtain ⟨⟨hpos, hshort, -⟩, -⟩ := pseudoPairs_ok map t p hp
    simp [Used, hpos, hshort.trans (show 255 < 256 by decide)]
  have hentries : (t.entries.map entryPair).filter (fun p => Used p.1.length p.2.length) =
      t.entries.map entryPair := by
    refine List.filter_eq_self.mpr fun p hp => ?_
    obtain ⟨e, he, rfl⟩ := List.mem_map.mp hp
    have h := hwell e he
    exact decide_eq_true ⟨List.length_pos_iff.mpr h.nonempty, h.shortName, h.shortValue⟩
  rw [usedPairs, tablePairs, List.filter_append, hpseudo, hentries]
  refine hcut _ fun p hp => ?_
  rcases List.mem_append.mp hp with hp | hp
  · obtain ⟨⟨-, -, hkey, -⟩, hvalue⟩ := pseudoPairs_ok map t p (List.mem_of_mem_filter hp)
    exact ⟨hkey, hvalue⟩
  · obtain ⟨e, -, rfl⟩ := List.mem_map.mp hp
    exact nul_notMem_entryPair e

theorem length_pseudoPairs_le (map : HeaderMap) (t : HttpTable) :
    (pseudoPairs map t).length ≤ 3 := by
  have hone (name : String) (value : Option Bytes) : (pseudoPair name value).length ≤ 1 := by
    cases value <;> simp [pseudoPair]
  cases map with
  | response => exact (hone _ _).trans (by omega)
  | request =>
    have hmethod := hone ":method" (t.method.map (·.1))
    have hpath := hone ":path" (t.url.map (·.1))
    have hauthority := hone ":authority" (authority t)
    simp only [pseudoPairs, List.length_append]
    omega

/-- The entry that a well-formed entry is rewritten to is the same unless name and
value both have the greatest length. -/
theorem rewriteEntry_iff (e : Option CStr) (h : WellFormed e) :
    entryPair (some (headerLine (entryPair e))) = entryPair e ↔
      ¬ ((entryPair e).1.length = 255 ∧ (entryPair e).2.length = 4095) := by
  obtain ⟨hkey, hvalue⟩ := nul_notMem_entryPair e
  have hname := h.shortName
  have hlen := h.shortValue
  rw [entryPair_headerLine _ hkey hvalue (colon_notMem_entryPair e) hname (dropWhile_entryPair e),
    Prod.ext_iff]
  simp only [true_and, List.take_eq_self_iff]
  omega

/-- Writing back what was read leaves the entries alone exactly if no
pseudo-header is short enough to become a header, and no entry is cut. -/
theorem rewrite_same_iff (map : HeaderMap) (t : HttpTable) (hwell : ∀ e ∈ t.entries, WellFormed e)
    (hcount : t.entries.length ≤ 250) (hsize : totalSize map t < 2 ^ 32) (fresh : Bytes)
    (hfresh : fresh.length = totalSize map t) (side : GuestSide) (mem : Bytes) (ptr size : UInt32)
    (hvalid : pwValidateRegion side.valid mem ptr size = true)
    (hget : Sat (buildHeaderPairs map t)
      (fun offset h => h.bytes.take offset = pwMemRegion mem ptr size) ⟨fresh, false⟩) :
    Sat (pwProxySetHeaderMapPairs side (some (.headers fun _ => true)) ptr size)
      (fun r _ => r.1 = .ok ∧ (rewritten t r.2).entries.map entryPair = t.entries.map entryPair)
      ⟨mem, false⟩ ↔
    (∀ p ∈ pseudoPairs map t, 4096 ≤ p.2.length) ∧
      ∀ e ∈ t.entries, ¬ ((entryPair e).1.length = 255 ∧ (entryPair e).2.length = 4095) := by
  have hnum := numHeaders_eq map t hsize
  have htotal := totalSize_eq map t hnum
  have hregion : pwMemRegion mem ptr size = encodePairs (tablePairs map t) := by
    rw [buildHeaderPairs_eq, sat_fill (tablePairs map t) _ (flatten_headerChunks map t hnum)
      (htotal ▸ hsize) ⟨fresh, false⟩ (hfresh.trans htotal), List.take_length] at hget
    exact hget.symm
  have hmany : (tablePairs map t).length ≤ 256 := by
    have hthree := length_pseudoPairs_le map t
    rw [tablePairs, List.length_append, List.length_map]
    omega
  have hpseudo : (pseudoPairs map t).filter (fun p => p.2.length < 4096) = [] ↔
      ∀ p ∈ pseudoPairs map t, 4096 ≤ p.2.length := by
    simp [List.filter_eq_nil_iff]
  have hentries : (t.entries.map entryPair).map (fun p => entryPair (some (headerLine p))) =
        t.entries.map entryPair ↔
      ∀ e ∈ t.entries, ¬ ((entryPair e).1.length = 255 ∧ (entryPair e).2.length = 4095) := by
    rw [List.map_map, List.map_inj_left]
    exact forall₂_congr fun e he => rewriteEntry_iff e (hwell e he)
  rw [sat_pwProxySetHeaderMapPairs side ptr size ⟨mem, false⟩ _ hmany hvalid hregion,
    usedPairs_tablePairs map t hwell, ← hpseudo, ← hentries]
  simp only [rewritten, List.map_append, List.map_map, true_and]
  constructor
  · intro h
    have hlen := congrArg List.length h
    simp only [List.length_append, List.length_map] at hlen
    have hnone := List.eq_nil_of_length_eq_zero (by omega :
      ((pseudoPairs map t).filter fun p => p.2.length < 4096).length = 0)
    refine ⟨hnone, ?_⟩
    rw [hnone] at h
    exact h
  · rintro ⟨hnone, h⟩
    rw [hnone]
    exact h

/-- A table with one header, and without a first line. -/
def plainTable : HttpTable where
  entries := [some (toCStr (ascii "A: b"))]

theorem plainTable_wellFormed : ∀ e ∈ plainTable.entries, WellFormed e := by
  intro e he
  rw [List.mem_singleton.mp he]
  exact ⟨⟨_, rfl, by decide +kernel⟩, by decide +kernel, by decide +kernel, by decide +kernel⟩

theorem plainTable_same :
    Sat (pwProxySetHeaderMapPairs ⟨true, none⟩ (some (.headers fun _ => true)) 0
        (UInt32.ofNat (encodePairs (tablePairs .response plainTable)).length))
      (fun r _ => r.1 = .ok ∧
        (rewritten plainTable r.2).entries.map entryPair = plainTable.entries.map entryPair)
      ⟨encodePairs (tablePairs .response plainTable), false⟩ :=
  (rewrite_same_iff .response plainTable plainTable_wellFormed (by decide) (by decide +kernel)
    (List.replicate (totalSize .response plainTable) 0) (List.length_replicate ..) ⟨true, none⟩
    _ _ _ (by decide +kernel) (by decide +kernel)).mpr ⟨by decide +kernel, by decide +kernel⟩

/-- A request with a method. -/
def getRequest : HttpTable where
  method := some (toCStr (ascii "GET"))
  entries := [some (toCStr (ascii "A: b"))]

/-- The bytes read from it bring its method back as a header line. -/
theorem getRequest_changed :
    Sat (buildHeaderPairs .request getRequest)
      (fun offset h => h.bytes.take offset = encodePairs (tablePairs .request getRequest))
      ⟨List.replicate (totalSize .request getRequest) 0, false⟩ ∧
    Sat (pwProxySetHeaderMapPairs ⟨true, none⟩ (some (.headers fun _ => true)) 0
        (UInt32.ofNat (encodePairs (tablePairs .request getRequest)).length))
      (fun r _ => r.1 = .ok ∧ (rewritten getRequest r.2).entries.map (·.map (·.1)) =
        [some (ascii ":method: GET"), some (ascii "A: b")])
      ⟨encodePairs (tablePairs .request getRequest), false⟩ := by
  constructor <;> decide +kernel

end VmodWasm.HeaderRewrites
