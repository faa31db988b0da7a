import VmodWasm.HelperBodies

/-!
`pw_proxy_set_header_map_pairs`. The pairs stand behind a table of their
lengths, and the loop walks over them with an offset and a size test in
`uint32_t`. A pair is used only if its key and value are short; a pair that is
passed over may still move the offset anywhere inside the buffer.
-/
namespace VmodWasm.HeaderMapPairs

open ByteStrings GuestMemory ProxyContext Lib.CheckedMemory CheckedHelpers

abbrev Pairs := List (Bytes × Bytes)

/-- The map the pairs go into: a trailer map, with the allocations for each
pair, or a header map, with the copies to the workspace. -/
inductive PairTarget where
  | trailers (nameAlloc valueAlloc : ℕ → Bool)
  | headers (copied : ℕ → Bool)

def maxTrailers : ℕ := 32

/-- One used pair: `pw_trailer_add` copies both strings, a header line is
printed from them up to their first NUL. `none` ends the function. -/
def putPair (target : PairTarget) (i keyAddr ks valAddr vs : ℕ) (put : Pairs) :
    Checked (Option Pairs) :=
  match target with
  | .trailers nameAlloc valueAlloc => do
    if maxTrailers ≤ put.length then return some put
    else if nameAlloc i = false then return some put
    else
      let key ← load keyAddr ks
      if valueAlloc i = false then return some put
      else
        let value ← load valAddr vs
        return some (put ++ [(key, value)])
  | .headers copied => do
    let key ← loadStr keyAddr ks
    let value ← loadStr valAddr vs
    if copied i then return some (put ++ [(key, value)]) else return none

/-- The pair loop: `n` pairs left, pair `i` next, its key at `offset`. It
returns the status and the pairs put into the map. -/
def setPairsAt (target : PairTarget) (data dataSize : ℕ) :
    ℕ → ℕ → ℕ → Pairs → Checked (ProxyStatus × Pairs)
  | 0, _, _, put => return (.ok, put)
  | n + 1, i, offset, put => do
    let ks ← loadU32 (data + (4 + i * 8))
    let vs ← loadU32 (data + (4 + i * 8 + 4))
    if dataSize < u32 (offset + ks + 1 + vs + 1) then return (.ok, put)
    else
      let voff := u32 (offset + ks + 1)
      let next := u32 (voff + vs + 1)
      if 0 < ks ∧ ks < 256 ∧ vs < 4096 then
        match ← putPair target i (data + offset) ks (data + voff) vs put with
        | none => return (.internal, put)
        | some put => setPairsAt target data dataSize n (i + 1) next put
      else setPairsAt target data dataSize n (i + 1) next put

/-- `target` is `none` for a map the context does not have. -/
def pwProxySetHeaderMapPairs (side : GuestSide) (target : Option PairTarget)
    (dataPtr dataSize : UInt32) : Checked (ProxyStatus × Pairs) := do
  if dataSize < 4 then return (.badArgument, [])
  else if ← validateRegion side dataPtr dataSize then
    let numPairs ← loadU32 dataPtr.toNat
    if 256 < numPairs then return (.badArgument, [])
    else if dataSize.toNat < 4 + numPairs * 8 then return (.badArgument, [])
    else
      match target with
      | none => return (.badArgument, [])
      | some target =>
        setPairsAt target dataPtr.toNat dataSize.toNat numPairs 0 (4 + numPairs * 8) []
  else return (.badArgument, [])

section Walk

variable (target : PairTarget) (mem : Bytes) (data dataSize : ℕ)

/-- The bytes up to the first NUL, of at most `len`, are inside. -/
def StrInRange (addr len : ℕ) : Prop := 0 ∈ (mem.drop addr).take len ∨ InRange mem.length addr len

/-- What putting a pair into its map reads is inside. -/
def PairReads (i keyAddr ks valAddr vs : ℕ) (put : Pairs) : Prop :=
  match target with
  | .trailers nameAlloc valueAlloc =>
    maxTrailers ≤ put.length ∨ nameAlloc i = false ∨
      (InRange mem.length keyAddr ks ∧ (valueAlloc i = false ∨ InRange mem.length valAddr vs))
  | .headers _ => StrInRange mem keyAddr ks ∧ StrInRange mem valAddr vs

/-- What `putPair` returns. -/
def pairPut (i keyAddr ks valAddr vs : ℕ) (put : Pairs) : Option Pairs :=
  let key := (mem.drop keyAddr).take ks
  let value := (mem.drop valAddr).take vs
  match target with
  | .trailers nameAlloc valueAlloc =>
    if maxTrailers ≤ put.length ∨ nameAlloc i = false ∨ valueAlloc i = false then some put
    else some (put ++ [(key, value)])
  | .headers copied =>
    if copied i then some (put ++ [(key.takeWhile (· ≠ 0), value.takeWhile (· ≠ 0))]) else none

theorem sat_putPair (h : Heap) (i keyAddr ks valAddr vs : ℕ) (put : Pairs)
    (Q : Option Pairs → Heap → Prop) :
    Sat (putPair target i keyAddr ks valAddr vs put) Q h ↔
      PairReads target h.bytes i keyAddr ks valAddr vs put ∧
        Q (pairPut target h.bytes i keyAddr ks valAddr vs put) h := by
  cases target with
  | trailers nameAlloc valueAlloc =>
    simp only [putPair, PairReads, pairPut]
    by_cases hfull : maxTrailers ≤ put.length
    · simp [hfull]
    · cases nameAlloc i
      · simp
      · cases valueAlloc i
        · simp [hfull]
        · simp [hfull, and_assoc]
  | headers copied =>
    simp only [putPair, PairReads, pairPut, StrInRange]
    cases copied i <;> simp [and_assoc]

theorem pairReads_of_inRange (i keyAddr ks valAddr vs : ℕ) (put : Pairs)
    (hkey : InRange mem.length keyAddr ks) (hvalue : InRange mem.length valAddr vs) :
    PairReads target mem i keyAddr ks valAddr vs put := by
  cases target with
  | trailers nameAlloc valueAlloc => exact Or.inr (Or.inr ⟨hkey, Or.inr hvalue⟩)
  | headers copied => exact ⟨Or.inr hkey, Or.inr hvalue⟩

def Used (ks vs : ℕ) : Prop := 0 < ks ∧ ks < 256 ∧ vs < 4096

instance (ks vs : ℕ) : Decidable (Used ks vs) :=
  inferInstanceAs (Decidable (0 < ks ∧ ks < 256 ∧ vs < 4096))

/-- One turn of the loop, with the lengths that it reads. -/
theorem sat_setPairsAt_succ (h : Heap) (n i offset ks vs : ℕ) (put : Pairs)
    (hks : readU32 h.bytes (data + (4 + i * 8)) = ks)
    (hvs : readU32 h.bytes (data + (4 + i * 8 + 4)) = vs)
    (Q : ProxyStatus × Pairs → Heap → Prop) :
    Sat (setPairsAt target data dataSize (n + 1) i offset put) Q h ↔
      (data + (4 + i * 8) + 4 ≤ h.bytes.length ∧ data + (4 + i * 8 + 4) + 4 ≤ h.bytes.length) ∧
        let voff := u32 (offset + ks + 1)
        let next := u32 (voff + vs + 1)
        if dataSize < u32 (offset + ks + 1 + vs + 1) then Q (.ok, put) h
        else if Used ks vs then
          PairReads target h.bytes i (data + offset) ks (data + voff) vs put ∧
            match pairPut target h.bytes i (data + offset) ks (data + voff) vs put with
            | none => Q (.internal, put) h
            | some put' => Sat (setPairsAt target data dataSize n (i + 1) next put') Q h
        else Sat (setPairsAt target data dataSize n (i + 1) next put) Q h := by
  rw [setPairsAt]
  simp only [sat_bind, sat_loadU32, hks, hvs, and_assoc]
  refine and_congr_right fun _ => and_congr_right fun _ => ?_
  split
  next => exact sat_pure ..
  next =>
    split
    next hused =>
      rw [if_pos (show Used ks vs from hused), sat_bind, sat_putPair]
      refine and_congr_right fun _ => ?_
      split
      next => exact sat_pure ..
      next => exact Iff.rfl
    next hpassed => rw [if_neg (show ¬ Used ks vs from hpassed)]

/-- What a loop that stays inside comes to. It may stop before any pair; a pair that is
not used is passed over; a used one is put into the map, or the loop ends there. -/
theorem setPairsAt_rule (h : Heap) (R : ℕ → ℕ → Pairs → ProxyStatus × Pairs → Prop)
    (hstop : ∀ n i put, R n i put (.ok, put))
    (hskip : ∀ n i put r, R n (i + 1) put r → R (n + 1) i put r)
    (hused : ∀ n i put keyAddr ks valAddr vs, Used ks vs →
      PairReads target h.bytes i keyAddr ks valAddr vs put →
      match pairPut target h.bytes i keyAddr ks valAddr vs put with
      | none => R (n + 1) i put (.internal, put)
      | some put' => ∀ r, R n (i + 1) put' r → R (n + 1) i put r)
    (n i offset : ℕ) (put : Pairs)
    (hrun : Sat (setPairsAt target data dataSize n i offset put) (fun _ _ => True) h) :
    Sat (setPairsAt target data dataSize n i offset put) (fun r _ => R n i put r) h := by
  induction n generalizing i offset put with
  | zero =>
    rw [setPairsAt, sat_pure]
    exact hstop 0 i put
  | succ n ih =>
    rw [sat_setPairsAt_succ _ _ _ _ _ _ _ _ _ _ rfl rfl] at hrun ⊢
    generalize readU32 h.bytes (data + (4 + i * 8)) = ks at hrun ⊢
    generalize readU32 h.bytes (data + (4 + i * 8 + 4)) = vs at hrun ⊢
    refine ⟨hrun.1, ?_⟩
    have hrun := hrun.2
    dsimp only at hrun ⊢
    by_cases hlarge : dataSize < u32 (offset + ks + 1 + vs + 1)
    · rw [if_pos hlarge]
      exact hstop (n + 1) i put
    · rw [if_neg hlarge] at hrun ⊢
      by_cases huse : Used ks vs
      · rw [if_pos huse] at hrun ⊢
        obtain ⟨hreads, hrun⟩ := hrun
        have hnext := hused n i put _ ks _ vs huse hreads
        refine ⟨hreads, ?_⟩
        cases hput : pairPut target h.bytes i (data + offset) ks
          (data + u32 (offset + ks + 1)) vs put with
        | none =>
          rw [hput] at hnext
          exact hnext
        | some put' =>
          rw [hput] at hrun hnext
          exact (ih (i + 1) _ put' hrun).mono fun r _ hr => hnext r hr
      · rw [if_neg huse] at hrun ⊢
        exact (ih (i + 1) _ put hrun).mono fun r _ hr => hskip n i put r hr

/-- The sum in the size test does not fit in 32 bits. -/
def PairWraps (offset ks vs : ℕ) : Prop := 2 ^ 32 ≤ offset + ks + 1 + vs + 1

/-- Some pair that the loop comes to is used, its end wraps around 2^32, and
reading it leaves the memory. The loop ends at the first pair that fails its
test, and at a header line it cannot copy. -/
def PairOverruns : ℕ → ℕ → ℕ → Pairs → Prop
  | 0, _, _, _ => False
  | n + 1, i, offset, put =>
    let ks := readU32 mem (data + (4 + i * 8))
    let vs := readU32 mem (data + (4 + i * 8 + 4))
    let voff := u32 (offset + ks + 1)
    let next := u32 (voff + vs + 1)
    u32 (offset + ks + 1 + vs + 1) ≤ dataSize ∧
      ((Used ks vs ∧
          ((PairWraps offset ks vs ∧
              ¬ PairReads target mem i (data + offset) ks (data + voff) vs put) ∨
            ∃ put', pairPut target mem i (data + offset) ks (data + voff) vs put = some put' ∧
              PairOverruns n (i + 1) next put')) ∨
        (¬ Used ks vs ∧ PairOverruns n (i + 1) next put))

/-- The loop over a buffer inside the memory stays inside unless a pair
overruns; it changes nothing and refuses nothing. -/
theorem sat_setPairsAt (h : Heap) (hin : data + dataSize ≤ h.bytes.length) (n i offset : ℕ)
    (put : Pairs) (htable : 4 + (i + n) * 8 ≤ dataSize) (hoffset : offset ≤ dataSize)
    (Q : ProxyStatus × Pairs → Heap → Prop) (hQ : ∀ r, Q r h) :
    Sat (setPairsAt target data dataSize n i offset put) Q h ↔
      ¬ PairOverruns target h.bytes data dataSize n i offset put := by
  induction n generalizing i offset put with
  | zero => simp [setPairsAt, PairOverruns, hQ]
  | succ n ih =>
    rw [PairOverruns, sat_setPairsAt_succ _ _ _ _ _ _ _ _ _ _ rfl rfl]
    generalize readU32 h.bytes (data + (4 + i * 8)) = ks
    generalize readU32 h.bytes (data + (4 + i * 8 + 4)) = vs
    rw [and_iff_right (by omega)]
    by_cases hfits : dataSize < u32 (offset + ks + 1 + vs + 1)
    · simp [hfits, hQ, Nat.not_le.mpr hfits]
    · have hsum : u32 (offset + ks + 1 + vs + 1) ≤ dataSize := Nat.not_lt.mp hfits
      have hnext : u32 (u32 (offset + ks + 1) + vs + 1) ≤ dataSize := by
        simp only [u32] at hsum ⊢
        omega
      have hrest (put) := ih (i + 1) (u32 (u32 (offset + ks + 1) + vs + 1)) put (by omega) hnext
      by_cases hused : Used ks vs
      · -- a sum that does not wrap has passed the test at its full value
        have hsafe : PairWraps offset ks vs ∨ PairReads target h.bytes i (data + offset) ks
            (data + u32 (offset + ks + 1)) vs put := by
          refine or_iff_not_imp_left.mpr fun hno => ?_
          rw [PairWraps, Nat.not_le] at hno
          have hvoff : u32 (offset + ks + 1) = offset + ks + 1 := u32_of_lt (by omega)
          rw [u32_of_lt (by omega)] at hsum
          rw [hvoff]
          exact pairReads_of_inRange target h.bytes i _ ks _ vs put (Or.inr (by omega))
            (Or.inr (by omega))
        simp only [if_neg hfits, if_pos hused]
        rcases hput : pairPut target h.bytes i (data + offset) ks
          (data + u32 (offset + ks + 1)) vs put with _ | put'
        · simp [hused, hsum, hQ, hsafe]
        · simp [hused, hsum, hrest, hsafe]
      · simp [hfits, hused, hsum, hrest]

/-- The longest used pair does not wrap in a buffer that ends well below 4 GiB. -/
theorem not_pairOverruns (hsmall : dataSize + 4352 < 2 ^ 32) (n i offset : ℕ) (put : Pairs)
    (hoffset : offset ≤ dataSize) : ¬ PairOverruns target mem data dataSize n i offset put := by
  induction n generalizing i offset put with
  | zero => exact id
  | succ n ih =>
    rw [PairOverruns]
    generalize readU32 mem (data + (4 + i * 8)) = ks
    generalize readU32 mem (data + (4 + i * 8 + 4)) = vs
    rintro ⟨hsum, hrest⟩
    have hnext : u32 (u32 (offset + ks + 1) + vs + 1) ≤ dataSize := by
      simp only [u32] at hsum ⊢
      omega
    rcases hrest with ⟨⟨-, hks, hvs⟩, ⟨hwraps, -⟩ | ⟨put', -, hlater⟩⟩ | ⟨-, hlater⟩
    · rw [PairWraps] at hwraps
      omega
    · exact ih (i + 1) _ put' hnext hlater
    · exact ih (i + 1) _ put hnext hlater

end Walk

/-- The function comes to its loop, and a pair overruns. -/
def SetPairsOverruns (side : GuestSide) (target : Option PairTarget) (dataPtr dataSize : UInt32)
    (mem : Bytes) : Prop :=
  4 ≤ dataSize.toNat ∧ pwValidateRegion side.valid mem dataPtr dataSize = true ∧
    readU32 mem dataPtr.toNat ≤ 256 ∧ 4 + readU32 mem dataPtr.toNat * 8 ≤ dataSize.toNat ∧
    ∃ t, target = some t ∧ PairOverruns t mem dataPtr.toNat dataSize.toNat
      (readU32 mem dataPtr.toNat) 0 (4 + readU32 mem dataPtr.toNat * 8) []

theorem pwProxySetHeaderMapPairs_bounded_iff (side : GuestSide) (target : Option PairTarget)
    (dataPtr dataSize : UInt32) (mem : Bytes) :
    Bounded (pwProxySetHeaderMapPairs side target dataPtr dataSize) (·.1 ≠ .ok) mem ↔
      ¬ SetPairsOverruns side target dataPtr dataSize mem := by
  unfold Bounded pwProxySetHeaderMapPairs SetPairsOverruns
  by_cases hsmall : dataSize < 4
  · have hfour : ¬ 4 ≤ dataSize.toNat := Nat.not_le.mpr hsmall
    simp [hsmall, hfour]
  · by_cases hregion : pwValidateRegion side.valid mem dataPtr dataSize = true
    · have hin : dataPtr.toNat + dataSize.toNat ≤ mem.length :=
        ((pwValidateRegion_eq_true _ _ _ _).mp hregion).2
      have hfour : 4 ≤ dataSize.toNat := Nat.not_lt.mp hsmall
      have hfirst : dataPtr.toNat + 4 ≤ mem.length := by omega
      simp only [if_neg hsmall, sat_bind, sat_validateRegion, hregion, not_true, false_implies,
        and_true, forall_const, if_true, sat_loadU32, hfirst, hfour, true_and]
      generalize readU32 mem dataPtr.toNat = numPairs
      by_cases hmany : 256 < numPairs
      · simp [hmany, Nat.not_le.mpr hmany]
      · by_cases htable : dataSize.toNat < 4 + numPairs * 8
        · simp [hmany, htable, Nat.not_le.mpr htable]
        · rcases target with _ | target
          · simp [hmany, htable]
          · have hloop := sat_setPairsAt target dataPtr.toNat dataSize.toNat ⟨mem, false⟩ hin
              numPairs 0 (4 + numPairs * 8) [] (by omega) (by omega)
              (fun r h => h.refused = true → r.1 ≠ .ok) (by simp)
            simp only [if_neg hmany, if_neg htable, hloop]
            simp [Nat.not_lt.mp hmany, Nat.not_lt.mp htable]
    · simp [hsmall, hregion]

end VmodWasm.HeaderMapPairs
