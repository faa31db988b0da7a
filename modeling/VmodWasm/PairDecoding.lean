import VmodWasm.HeaderMapPairs

/-!
Which pairs `pw_proxy_set_header_map_pairs` takes out of a guest's buffer. The
walk over the pairs is compared with the same walk in unbounded integers: that
one cannot leave the buffer, nor come back to bytes it has passed.
-/
namespace VmodWasm.PairDecoding

open ByteStrings ProxyContext GuestMemory HeaderMapPairs CheckedHelpers Lib.CheckedMemory

/-- Where pair `index` has its key and its value in the buffer. -/
structure PairSpan where
  index : ℕ
  key : ℕ
  keySize : ℕ
  value : ℕ
  valueSize : ℕ
  deriving DecidableEq, Repr

section Walk

variable (wrap : ℕ → ℕ) (mem : Bytes) (data size : ℕ)

/-- `key_size` of pair `i`. -/
def keySizeAt (i : ℕ) : ℕ := readU32 mem (data + (4 + i * 8))

def valueSizeAt (i : ℕ) : ℕ := readU32 mem (data + (4 + i * 8 + 4))

/-- The pairs to apply, in sums that `wrap` takes back into their range: `n` pairs
left, pair `i` next, its key at `offset`. -/
def walkPairs : ℕ → ℕ → ℕ → List PairSpan
  | 0, _, _ => []
  | n + 1, i, offset =>
    let ks := keySizeAt mem data i
    let vs := valueSizeAt mem data i
    if size < wrap (offset + ks + 1 + vs + 1) then []
    else
      let voff := wrap (offset + ks + 1)
      let next := wrap (voff + vs + 1)
      (if Used ks vs then [⟨i, offset, ks, voff, vs⟩] else []) ++ walkPairs n (i + 1) next

/-- The walk comes to a pair that it applies. -/
def Applies : ℕ → ℕ → ℕ → Prop
  | 0, _, _ => False
  | n + 1, i, offset =>
    let ks := keySizeAt mem data i
    let vs := valueSizeAt mem data i
    wrap (offset + ks + 1 + vs + 1) ≤ size ∧
      (Used ks vs ∨ Applies n (i + 1) (wrap (wrap (offset + ks + 1) + vs + 1)))

/-- The walk comes to a pair that ends behind 4 GiB. The sum wraps to a place
inside the buffer, and from there on a pair is applied. -/
def Strays : ℕ → ℕ → ℕ → Prop
  | 0, _, _ => False
  | n + 1, i, offset =>
    let sum := offset + keySizeAt mem data i + 1 + valueSizeAt mem data i + 1
    if sum < 2 ^ 32 then sum ≤ size ∧ Strays n (i + 1) sum
    else Applies u32 mem data size (n + 1) i offset

end Walk

section Buffer

variable (mem : Bytes) (data size : ℕ)

def pairCount : ℕ := readU32 mem data

/-- The pairs that the function applies. -/
def appliedSpans : List PairSpan :=
  if 256 < pairCount mem data then []
  else if size < 4 + pairCount mem data * 8 then []
  else walkPairs u32 mem data size (pairCount mem data) 0 (4 + pairCount mem data * 8)

/-- The pairs of the buffer, in unbounded integers. -/
def decodedSpans : List PairSpan :=
  walkPairs id mem data size (pairCount mem data) 0 (4 + pairCount mem data * 8)

def spanPair (s : PairSpan) : Bytes × Bytes :=
  ((mem.drop (data + s.key)).take s.keySize, (mem.drop (data + s.value)).take s.valueSize)

/-- The key and the value are in the buffer, behind the table. -/
def Inside (s : PairSpan) : Prop :=
  4 + pairCount mem data * 8 ≤ s.key ∧ s.key + s.keySize ≤ size ∧
    4 + pairCount mem data * 8 ≤ s.value ∧ s.value + s.valueSize ≤ size

/-- The bytes of a pair come before those of the other. -/
def Before (s s' : PairSpan) : Prop :=
  s.key + s.keySize ≤ s'.key ∧ s.value + s.valueSize ≤ s'.key ∧
    s.key + s.keySize ≤ s'.value ∧ s.value + s.valueSize ≤ s'.value

/-- The right pairs are applied, from separate places in the buffer. -/
structure AppliedRight : Prop where
  pairs : (appliedSpans mem data size).map (spanPair mem data) =
    (decodedSpans mem data size).map (spanPair mem data)
  inside : ∀ s ∈ appliedSpans mem data size, Inside mem data size s
  apart : (appliedSpans mem data size).Pairwise fun s s' => Before s s' ∨ Before s' s

/-- Up to 256 pairs, and the walk does not stray; or there is nothing to apply in
the first place. -/
def DecodesRight : Prop :=
  if 256 < pairCount mem data then
    ¬ Applies id mem data size (pairCount mem data) 0 (4 + pairCount mem data * 8)
  else
    size < 4 + pairCount mem data * 8 ∨
      ¬ Strays mem data size (pairCount mem data) 0 (4 + pairCount mem data * 8)

end Buffer

section Spans

variable (mem : Bytes) (data size : ℕ)

theorem walkPairs_ne_nil_iff (wrap : ℕ → ℕ) (n i offset : ℕ) :
    walkPairs wrap mem data size n i offset ≠ [] ↔
      Applies wrap mem data size n i offset := by
  induction n generalizing i offset with
  | zero => simp [walkPairs, Applies]
  | succ n ih =>
    rw [walkPairs, Applies]
    dsimp only
    split
    next hlarge =>
      apply iff_of_false (by simp)
      intro h
      omega
    next hfits =>
      rw [and_iff_right (by omega), ← ih]
      by_cases hused : Used (keySizeAt mem data i) (valueSizeAt mem data i)
      · simp [hused]
      · simp [hused]

/-- A pair that does not fit ends the walk in unbounded integers. -/
theorem walkPairs_id_stop (n i offset : ℕ)
    (h : size < offset + keySizeAt mem data i + 1 + valueSizeAt mem data i + 1) :
    walkPairs id mem data size (n + 1) i offset = [] := by
  rw [walkPairs]
  exact if_pos h

/-- The pairs in unbounded integers come one behind the other. -/
theorem walkPairs_id_spec (n i offset : ℕ) :
    (∀ s ∈ walkPairs id mem data size n i offset,
        offset ≤ s.key ∧ s.key + s.keySize < s.value ∧ s.value + s.valueSize < size) ∧
      (walkPairs id mem data size n i offset).Pairwise
        fun s s' => s.value + s.valueSize < s'.key := by
  induction n generalizing i offset with
  | zero => simp [walkPairs]
  | succ n ih =>
    rw [walkPairs]
    dsimp only [id]
    split
    next => simp
    next hfits =>
      obtain ⟨hplace, happart⟩ := ih (i + 1)
        (offset + keySizeAt mem data i + 1 + valueSizeAt mem data i + 1)
      have hlater : ∀ s ∈ walkPairs id mem data size n (i + 1)
          (offset + keySizeAt mem data i + 1 + valueSizeAt mem data i + 1),
          offset ≤ s.key ∧ s.key + s.keySize < s.value ∧ s.value + s.valueSize < size := by
        intro s hs
        have hs := hplace s hs
        exact ⟨by omega, hs.2⟩
      split
      next hused =>
        rw [List.singleton_append, List.forall_mem_cons, List.pairwise_cons]
        refine ⟨⟨⟨Nat.le_refl _, by dsimp only; omega, by dsimp only; omega⟩, hlater⟩, ?_, happart⟩
        intro s hs
        have hs := (hplace s hs).1
        dsimp only
        omega
      next => exact ⟨hlater, happart⟩

/-- The walk of the code begins like the one in unbounded integers, and is the
same unless it strays. -/
theorem walkPairs_agree (hsize : size < 2 ^ 32) (n i offset : ℕ) :
    walkPairs id mem data size n i offset <+: walkPairs u32 mem data size n i offset ∧
      (walkPairs u32 mem data size n i offset = walkPairs id mem data size n i offset ↔
        ¬ Strays mem data size n i offset) := by
  induction n generalizing i offset with
  | zero => simp [walkPairs, Strays]
  | succ n ih =>
    rw [Strays]
    by_cases hsmall : offset + keySizeAt mem data i + 1 + valueSizeAt mem data i + 1 < 2 ^ 32
    · obtain ⟨hbegins, hsame⟩ := ih (i + 1)
        (offset + keySizeAt mem data i + 1 + valueSizeAt mem data i + 1)
      have hsum := u32_of_lt hsmall
      have hvoff : u32 (offset + keySizeAt mem data i + 1) = offset + keySizeAt mem data i + 1 :=
        u32_of_lt (by omega)
      rw [walkPairs, walkPairs]
      dsimp only [id]
      rw [if_pos hsmall, hsum, hvoff, hsum]
      split
      next hlarge =>
        refine ⟨List.prefix_refl _, iff_of_true rfl ?_⟩
        intro h
        omega
      next hfits =>
        have hle : offset + keySizeAt mem data i + 1 + valueSizeAt mem data i + 1 ≤ size := by
          omega
        rw [and_iff_right hle, List.append_cancel_left_eq]
        exact ⟨(List.prefix_append_right_inj _).mpr hbegins, hsame⟩
    · -- the unbounded sum is behind the buffer, whatever its size
      have hstop : walkPairs id mem data size (n + 1) i offset = [] :=
        walkPairs_id_stop mem data size n i offset (by omega)
      rw [hstop, if_neg hsmall, ← walkPairs_ne_nil_iff, not_not]
      exact ⟨List.nil_prefix, Iff.rfl⟩

end Spans

section Code

/-- The pairs put into a map one after the other. -/
def putSpans (target : PairTarget) (mem : Bytes) (data : ℕ) :
    List PairSpan → Pairs → ProxyStatus × Pairs
  | [], put => (.ok, put)
  | s :: spans, put =>
    match pairPut target mem s.index (data + s.key) s.keySize (data + s.value) s.valueSize put with
    | none => (.internal, put)
    | some put => putSpans target mem data spans put

/-- The loop puts the pairs of the walk in `uint32_t` into the map. -/
theorem setPairsAt_walk (target : PairTarget) (data size : ℕ) (h : Heap) (n i offset : ℕ)
    (put : Pairs)
    (hrun : Sat (setPairsAt target data size n i offset put) (fun _ _ => True) h) :
    Sat (setPairsAt target data size n i offset put) (fun r _ => r =
      putSpans target h.bytes data (walkPairs u32 h.bytes data size n i offset) put) h := by
  induction n generalizing i offset put with
  | zero =>
    rw [setPairsAt, sat_pure]
    rfl
  | succ n ih =>
    obtain ⟨ks, hks⟩ : ∃ ks, keySizeAt h.bytes data i = ks := ⟨_, rfl⟩
    obtain ⟨vs, hvs⟩ : ∃ vs, valueSizeAt h.bytes data i = vs := ⟨_, rfl⟩
    rw [sat_setPairsAt_succ _ _ _ _ _ _ _ _ _ _ hks hvs] at hrun ⊢
    rw [walkPairs, hks, hvs]
    refine ⟨hrun.1, ?_⟩
    have hrun := hrun.2
    dsimp only at hrun ⊢
    by_cases hlarge : size < u32 (offset + ks + 1 + vs + 1)
    · rw [if_pos hlarge, if_pos hlarge]
      rfl
    · rw [if_neg hlarge] at hrun
      rw [if_neg hlarge, if_neg hlarge]
      by_cases hused : Used ks vs
      · rw [if_pos hused] at hrun
        rw [if_pos hused, if_pos hused, List.singleton_append, putSpans]
        refine ⟨hrun.1, ?_⟩
        have hrun := hrun.2
        dsimp only
        cases hput : pairPut target h.bytes i (data + offset) ks
          (data + u32 (offset + ks + 1)) vs put with
        | none => rfl
        | some put' =>
          rw [hput] at hrun
          exact ih (i + 1) _ put' hrun
      · rw [if_neg hused] at hrun
        rw [if_neg hused, if_neg hused, List.nil_append]
        exact ih (i + 1) _ put hrun

/-- A buffer in the guest's memory is applied as `appliedSpans` says. -/
theorem pwProxySetHeaderMapPairs_applied (side : GuestSide) (target : PairTarget)
    (ptr size : UInt32) (h : Heap) (hfour : 4 ≤ size.toNat)
    (hvalid : pwValidateRegion side.valid h.bytes ptr size = true)
    (hrun : Sat (pwProxySetHeaderMapPairs side (some target) ptr size) (fun _ _ => True) h) :
    Sat (pwProxySetHeaderMapPairs side (some target) ptr size) (fun r _ => r.2 =
      (putSpans target h.bytes ptr.toNat (appliedSpans h.bytes ptr.toNat size.toNat) []).2) h := by
  have hsize : ¬ size < 4 := Nat.not_lt.mpr hfour
  have hin := ((pwValidateRegion_eq_true _ _ _ _).mp hvalid).2
  have hcount : ptr.toNat + 4 ≤ h.bytes.length := by omega
  unfold pwProxySetHeaderMapPairs at hrun ⊢
  simp only [if_neg hsize, sat_bind, sat_validateRegion, hvalid, not_true, false_implies, and_true,
    forall_const, if_true, sat_loadU32, hcount, true_and] at hrun ⊢
  rw [appliedSpans, pairCount]
  generalize readU32 h.bytes ptr.toNat = numPairs at hrun ⊢
  by_cases hmany : 256 < numPairs
  · simp [hmany, putSpans]
  · by_cases hshort : size.toNat < 4 + numPairs * 8
    · simp [hmany, hshort, putSpans]
    · rw [if_neg hmany, if_neg hshort] at hrun
      rw [if_neg hmany, if_neg hmany, if_neg hshort, if_neg hshort]
      refine (setPairsAt_walk target _ _ h _ _ _ [] hrun).mono fun r _ hr => ?_
      rw [hr]

end Code

section Buffer

variable (mem : Bytes) (data size : ℕ)

/-- Behind the buffer's end there is no pair. -/
theorem walkPairs_id_of_lt (n i offset : ℕ) (h : size < offset) :
    walkPairs id mem data size n i offset = [] := by
  cases n with
  | zero => rfl
  | succ n => exact walkPairs_id_stop mem data size n i offset (by omega)

theorem appliedSpans_eq_iff (hsize : size < 2 ^ 32) :
    appliedSpans mem data size = decodedSpans mem data size ↔ DecodesRight mem data size := by
  rw [appliedSpans, decodedSpans, DecodesRight]
  split
  next => rw [← walkPairs_ne_nil_iff, not_not, eq_comm]
  next =>
    split
    next hshort =>
      rw [walkPairs_id_of_lt mem data size _ _ _ hshort]
      exact iff_of_true rfl (Or.inl hshort)
    next hlong =>
      rw [or_iff_right hlong]
      exact (walkPairs_agree mem data size hsize _ _ _).2

/-- A list that is as long as the other's beginning is the same list. -/
theorem appliedSpans_length_iff (hsize : size < 2 ^ 32) :
    (appliedSpans mem data size).length = (decodedSpans mem data size).length ↔
      appliedSpans mem data size = decodedSpans mem data size := by
  refine ⟨fun hlen => ?_, congrArg List.length⟩
  rw [appliedSpans, decodedSpans] at hlen ⊢
  split at hlen
  next hmany =>
    rw [if_pos hmany]
    exact (List.length_eq_zero_iff.mp hlen.symm).symm
  next hfew =>
    rw [if_neg hfew]
    split at hlen
    next hshort =>
      rw [if_pos hshort]
      exact (List.length_eq_zero_iff.mp hlen.symm).symm
    next hlong =>
      rw [if_neg hlong]
      exact ((walkPairs_agree mem data size hsize _ _ _).1.eq_of_length hlen.symm).symm

theorem decodedSpans_inside (s : PairSpan) (hs : s ∈ decodedSpans mem data size) :
    Inside mem data size s := by
  have hplace := (walkPairs_id_spec mem data size _ _ _).1 s hs
  exact ⟨hplace.1, by omega, by omega, by omega⟩

theorem decodedSpans_apart :
    (decodedSpans mem data size).Pairwise fun s s' => Before s s' ∨ Before s' s := by
  obtain ⟨hplace, happart⟩ := walkPairs_id_spec mem data size (pairCount mem data) 0
    (4 + pairCount mem data * 8)
  refine happart.imp_of_mem ?_
  intro s s' hs hs' hlt
  have hs := hplace s hs
  have hs' := hplace s' hs'
  exact Or.inl ⟨by omega, by omega, by omega, by omega⟩

end Buffer

/-- The pairs of a buffer are applied as they are encoded exactly if the walk does
not stray. -/
theorem appliedRight_iff (mem : Bytes) (data : ℕ) (size : UInt32) :
    AppliedRight mem data size.toNat ↔ DecodesRight mem data size.toNat := by
  have hsize : size.toNat < 2 ^ 32 := size.toNat_lt
  rw [← appliedSpans_eq_iff mem data size.toNat hsize]
  constructor
  · intro hright
    have hlen := congrArg List.length hright.pairs
    rw [List.length_map, List.length_map] at hlen
    exact (appliedSpans_length_iff mem data size.toNat hsize).mp hlen
  · intro hsame
    refine ⟨by rw [hsame], ?_, ?_⟩
    · intro s hs
      rw [hsame] at hs
      exact decodedSpans_inside mem data size.toNat s hs
    · rw [hsame]
      exact decodedSpans_apart mem data size.toNat

/-- Two pairs, the first of which ends at 4 GiB. -/
def wrappingMap : Bytes :=
  u32Bytes 2 ++ u32Bytes (2 ^ 32 - 22) ++ u32Bytes 0 ++ u32Bytes 1 ++ u32Bytes 1

/-- The second pair is taken from the front of the buffer, where the count is. -/
theorem wrappingMap_strays :
    (appliedSpans wrappingMap 0 20).map (spanPair wrappingMap 0) = [([2], [0])] ∧
      decodedSpans wrappingMap 0 20 = [] := by
  decide +kernel

end VmodWasm.PairDecoding
