import Mathlib.Data.List.TakeWhile
import VmodWasm.ByteStrings

/-!
What a substring search finds. `findSub` is the first occurrence of a pattern,
so its answer on a cut-off text, or on a text with something appended, is
decided by where that first occurrence ends. `splitCrlf` cuts a text into its
lines.
-/
namespace VmodWasm.ByteSearch

open ByteStrings

theorem findSub_eq_some_iff (pat l : Bytes) (i : ℕ) :
    findSub pat l = some i ↔ pat <+: l.drop i ∧ ∀ j < i, ¬ pat <+: l.drop j := by
  induction l generalizing i with
  | nil =>
    simp only [findSub, List.drop_nil, List.prefix_nil]
    by_cases hpat : pat = []
    · rw [if_pos hpat, Option.some.injEq]
      refine ⟨fun h => ⟨hpat, fun j hj => by omega⟩, fun h => ?_⟩
      by_contra hi
      exact h.2 0 (by omega) hpat
    · simp [hpat]
  | cons c cs ih =>
    simp only [findSub]
    by_cases hpat : pat <+: c :: cs
    · rw [if_pos (List.isPrefixOf_iff_prefix.mpr hpat)]
      refine ⟨fun h => ?_, fun h => ?_⟩
      · obtain rfl := Option.some.inj h
        exact ⟨hpat, fun j hj => by omega⟩
      · by_contra hi
        have hpos : 0 < i := by
          rw [Option.some.injEq] at hi
          omega
        exact h.2 0 hpos hpat
    · rw [if_neg (fun h => hpat (List.isPrefixOf_iff_prefix.mp h))]
      cases i with
      | zero => simp [hpat]
      | succ i =>
        rw [Option.map_eq_some_iff]
        refine ⟨?_, ?_⟩
        · rintro ⟨k, hk, hki⟩
          obtain rfl : k = i := by omega
          obtain ⟨hfound, hfirst⟩ := (ih k).mp hk
          refine ⟨hfound, fun j hj => ?_⟩
          cases j with
          | zero => exact hpat
          | succ j => exact hfirst j (by omega)
        · rintro ⟨hfound, hfirst⟩
          exact ⟨i, (ih i).mpr ⟨hfound, fun j hj => hfirst (j + 1) (by omega)⟩, rfl⟩

theorem findSub_end_le (pat l : Bytes) (i : ℕ) (hpat : pat ≠ []) (h : findSub pat l = some i) :
    i + pat.length ≤ l.length := by
  have hlen := ((findSub_eq_some_iff _ _ _).mp h).1.length_le
  have hpos := List.length_pos_iff.mpr hpat
  rw [List.length_drop] at hlen
  omega

theorem prefix_drop_take (pat l : Bytes) (n j : ℕ) (hpat : pat ≠ []) :
    pat <+: (l.take n).drop j ↔ pat <+: l.drop j ∧ j + pat.length ≤ n := by
  have hpos := List.length_pos_iff.mpr hpat
  rw [List.drop_take, List.prefix_take_iff]
  constructor
  · rintro ⟨h, hle⟩
    exact ⟨h, by omega⟩
  · rintro ⟨h, hle⟩
    exact ⟨h, by omega⟩

/-- In a text cut after `n` bytes the first occurrence is found if it ends there. -/
theorem findSub_take (pat l : Bytes) (n i : ℕ) (hpat : pat ≠ []) :
    findSub pat (l.take n) = some i ↔ findSub pat l = some i ∧ i + pat.length ≤ n := by
  simp only [findSub_eq_some_iff, prefix_drop_take pat l n _ hpat]
  constructor
  · rintro ⟨⟨hfound, hle⟩, hfirst⟩
    exact ⟨⟨hfound, fun j hj hocc => hfirst j hj ⟨hocc, by omega⟩⟩, hle⟩
  · rintro ⟨⟨hfound, hfirst⟩, hle⟩
    exact ⟨⟨hfound, hle⟩, fun j hj hocc => hfirst j hj hocc.1⟩

theorem cstr_take (l : Bytes) (n : ℕ) : cstr (l.take n) = (cstr l).take n :=
  List.take_takeWhile.symm

theorem cstr_append (l rest : Bytes) (h : 0 ∉ l) : cstr (l ++ rest) = l ++ cstr rest := by
  refine List.takeWhile_append_of_pos fun c hc => ?_
  have hne : c ≠ 0 := fun h0 => h (h0 ▸ hc)
  simp [hne]

/-- What stands behind the terminating NUL is not part of the string. -/
theorem cstr_append_nul (l rest : Bytes) : cstr (l ++ 0 :: rest) = cstr l := by
  induction l with
  | nil => simp [cstr]
  | cons c cs ih =>
    have ih' : (cs ++ 0 :: rest).takeWhile (· ≠ 0) = cs.takeWhile (· ≠ 0) := ih
    simp only [cstr, List.cons_append, List.takeWhile_cons, ih']

theorem nul_notMem_cstr (l : Bytes) : 0 ∉ cstr l := by
  intro h
  simpa using List.mem_takeWhile_imp h

theorem cstr_eq_self {s : Bytes} (h : 0 ∉ s) : cstr s = s :=
  List.takeWhile_eq_self_iff.mpr fun _ hc => decide_eq_true fun heq => h (heq ▸ hc)

theorem length_cstr_le (s : Bytes) : (cstr s).length ≤ s.length :=
  (List.takeWhile_sublist _).length_le

theorem length_cstr_lt {s : Bytes} (h : 0 ∈ s) : (cstr s).length < s.length := by
  refine Nat.lt_of_le_of_ne (List.takeWhile_prefix _).length_le fun heq => nul_notMem_cstr s ?_
  have hself : cstr s = s := (List.takeWhile_prefix _).eq_of_length heq
  rwa [hself]

theorem cstrMatches_iff (stored key : Bytes) : cstrMatches stored key = true ↔ cstr stored = key := by
  have hcstr : cstr stored = stored.take (cstr stored).length :=
    List.prefix_iff_eq_take.mp (List.takeWhile_prefix _)
  rw [cstrMatches, Bool.and_eq_true, beq_iff_eq, beq_iff_eq]
  constructor
  · rintro ⟨hlen, htake⟩
    rw [hcstr, hlen, htake]
  · rintro rfl
    exact ⟨rfl, hcstr.symm⟩

theorem strstr_take (l pat : Bytes) (n i : ℕ) (hpat : pat ≠ []) :
    strstr (l.take n) pat = some i ↔ strstr l pat = some i ∧ i + pat.length ≤ n := by
  rw [strstr, cstr_take, findSub_take _ _ _ _ hpat, strstr]

/-- The text up to the end of an occurrence has no NUL, and what follows does not matter. -/
theorem strstr_split (l pat : Bytes) (i : ℕ) (hpat : pat ≠ []) (h : strstr l pat = some i) :
    ∃ rest, l = l.take i ++ pat ++ rest ∧ 0 ∉ l.take i ++ pat ∧ (l.take i).length = i := by
  have hle := findSub_end_le pat (cstr l) i hpat h
  obtain ⟨more, hmore⟩ := ((findSub_eq_some_iff _ _ _).mp h).1
  obtain ⟨tail, htail⟩ : cstr l <+: l := List.takeWhile_prefix _
  have htake : l.take i = (cstr l).take i := by
    rw [← htail, List.take_append_of_le_length (by omega)]
    rw [htail]
  refine ⟨more ++ tail, ?_, ?_, ?_⟩
  · rw [htake, List.append_assoc, ← List.append_assoc pat, hmore, ← List.append_assoc,
      List.take_append_drop, htail]
  · intro hmem
    apply nul_notMem_cstr l
    rw [← List.take_append_drop i (cstr l), ← hmore, ← List.append_assoc]
    exact List.mem_append_left _ (htake ▸ hmem)
  · rw [htake, List.length_take]
    omega

theorem length_crlf : crlf.length = 2 := rfl

/-- The lines of a text, without their CRLFs. -/
def splitCrlf : Bytes → List Bytes
  | [] => [[]]
  | [c] => [[c]]
  | c :: d :: rest =>
    if c = 0x0d ∧ d = 0x0a then [] :: splitCrlf rest
    else (splitCrlf (d :: rest)).modifyHead (c :: ·)

theorem splitCrlf_ne_nil (l : Bytes) : splitCrlf l ≠ [] := by
  fun_induction splitCrlf l <;> simp_all

/-- Every line closed by its CRLF again gives the text with a CRLF behind it. -/
theorem splitCrlf_join (l : Bytes) : (splitCrlf l).flatMap (· ++ crlf) = l ++ crlf := by
  fun_induction splitCrlf l with
  | case1 => rfl
  | case2 c => rfl
  | case3 c d rest hcd ih =>
    obtain ⟨rfl, rfl⟩ := hcd
    rw [List.flatMap_cons, ih]
    rfl
  | case4 c d rest hcd ih =>
    obtain ⟨line, lines, hsplit⟩ := List.exists_cons_of_ne_nil (splitCrlf_ne_nil (d :: rest))
    rw [hsplit] at ih ⊢
    simpa using ih

theorem crlf_prefix_cons (c : UInt8) (l : Bytes) :
    crlf <+: c :: l ↔ c = 0x0d ∧ l.head? = some 0x0a := by
  rw [crlf, List.cons_prefix_cons]
  cases l with
  | nil => simp
  | cons d l => simp [List.cons_prefix_cons, eq_comm]

theorem findSub_crlf_cons (c : UInt8) (l : Bytes) :
    findSub crlf (c :: l) = none ↔
      ¬ (c = 0x0d ∧ l.head? = some 0x0a) ∧ findSub crlf l = none := by
  rw [findSub, ← crlf_prefix_cons, ← List.isPrefixOf_iff_prefix]
  by_cases h : crlf.isPrefixOf (c :: l) = true
  · simp [h]
  · simp [h]

/-- No line holds a line end. -/
theorem splitCrlf_free (l line : Bytes) (h : line ∈ splitCrlf l) : findSub crlf line = none := by
  fun_induction splitCrlf l generalizing line with
  | case1 =>
    obtain rfl := List.mem_singleton.mp h
    rfl
  | case2 c =>
    obtain rfl := List.mem_singleton.mp h
    rw [findSub_crlf_cons]
    exact ⟨by simp, rfl⟩
  | case3 c d rest hcd ih =>
    rcases List.mem_cons.mp h with rfl | h
    · rfl
    · exact ih line h
  | case4 c d rest hcd ih =>
    obtain ⟨first, lines, hsplit⟩ := List.exists_cons_of_ne_nil (splitCrlf_ne_nil (d :: rest))
    have hjoin := splitCrlf_join (d :: rest)
    rw [hsplit] at h ih hjoin
    rcases List.mem_cons.mp h with rfl | h
    · rw [findSub_crlf_cons]
      refine ⟨fun hc => hcd ⟨hc.1, ?_⟩, ih first List.mem_cons_self⟩
      -- the first line starts with `d`, the byte after `c`
      cases first with
      | nil => simp at hc
      | cons e first =>
        simp only [List.flatMap_cons, List.cons_append, List.cons.injEq] at hjoin
        rw [← hjoin.1]
        simpa using hc.2
    · exact ih line (List.mem_cons_of_mem _ h)

/-- The line end that closes a line is the first one found. -/
theorem findSub_crlf_line (line rest : Bytes) (h : findSub crlf line = none) :
    findSub crlf (line ++ crlf ++ rest) = some line.length := by
  induction line with
  | nil => rfl
  | cons c cs ih =>
    rw [findSub_crlf_cons] at h
    have hnot : ¬ crlf <+: c :: (cs ++ crlf ++ rest) := by
      rw [crlf_prefix_cons]
      intro hc
      apply h.1
      cases cs with
      | nil => simp [crlf] at hc
      | cons d cs => exact hc
    rw [List.cons_append, List.cons_append, findSub,
      if_neg (fun hp => hnot (List.isPrefixOf_iff_prefix.mp hp)), ih h.2]
    rfl

theorem splitCrlf_of_none (l : Bytes) (h : findSub crlf l = none) : splitCrlf l = [l] := by
  fun_induction splitCrlf l with
  | case1 => rfl
  | case2 c => rfl
  | case3 c d rest hcd ih =>
    rw [findSub_crlf_cons] at h
    exact absurd ⟨hcd.1, congrArg some hcd.2⟩ h.1
  | case4 c d rest hcd ih =>
    rw [findSub_crlf_cons] at h
    rw [ih h.2]
    rfl

/-- The first line ends at the first line end. -/
theorem splitCrlf_of_some (l : Bytes) (i : ℕ) (h : findSub crlf l = some i) :
    splitCrlf l = l.take i :: splitCrlf (l.drop (i + 2)) := by
  fun_induction splitCrlf l generalizing i with
  | case1 => simp [findSub, crlf] at h
  | case2 c => simp [findSub, crlf] at h
  | case3 c d rest hcd ih =>
    obtain ⟨rfl, rfl⟩ := hcd
    have hpos : crlf.isPrefixOf (0x0d :: 0x0a :: rest) = true := by simp [crlf]
    rw [findSub, if_pos hpos, Option.some.injEq] at h
    rw [← h]
    rfl
  | case4 c d rest hcd ih =>
    have hnot : ¬ crlf.isPrefixOf (c :: d :: rest) = true := by
      rw [List.isPrefixOf_iff_prefix, crlf_prefix_cons]
      exact fun hc => hcd ⟨hc.1, Option.some.inj hc.2⟩
    rw [findSub, if_neg hnot, Option.map_eq_some_iff] at h
    obtain ⟨j, hj, rfl⟩ := h
    rw [ih j hj]
    rfl

theorem findSub_crlf_of_notMem {l : Bytes} (h : 0x0d ∉ l) : findSub crlf l = none := by
  induction l with
  | nil => rfl
  | cons c l ih =>
    rw [List.mem_cons, not_or] at h
    rw [findSub_crlf_cons]
    exact ⟨fun hc => h.1 hc.1.symm, ih h.2⟩

theorem splitCrlf_line (line rest : Bytes) (h : findSub crlf line = none) :
    splitCrlf (line ++ crlf ++ rest) = line :: splitCrlf rest := by
  have hlen : (line ++ crlf).length = line.length + 2 := by rw [List.length_append, length_crlf]
  rw [splitCrlf_of_some _ _ (findSub_crlf_line line rest h), ← hlen, List.drop_left,
    List.append_assoc, List.take_left]

theorem strstr_crlf_line (line rest : Bytes) (hnul : 0 ∉ line) (h : findSub crlf line = none) :
    strstr (line ++ crlf ++ rest) crlf = some line.length := by
  have hnul' : 0 ∉ line ++ crlf := by
    rw [List.mem_append]
    rintro (hmem | hmem)
    · exact hnul hmem
    · simp [crlf] at hmem
  rw [strstr, cstr_append _ _ hnul']
  exact findSub_crlf_line line (cstr rest) h

end VmodWasm.ByteSearch
