import VmodWasm.Allowlist
import VmodWasm.ChainSpec

/-!
The text of an allowlist. `vwasm_engine_set_allowed_upstreams` goes over the
configuration string twice, first to count its entries and then to copy them,
each time cutting a copy of the string at its commas. The counter has 32 bits.
An entry is compared with the upstream of a call in its canonical form, which
determines host and port.
-/
namespace VmodWasm.AllowlistText

open ByteStrings HttpText ProxyContext HttpCall Execute Allowlist ChainSpec Lib.Tokens

variable {σ : Type}

def isComma (c : UInt8) : Bool := c == 0x2c

/-- The pieces between commas, without blanks around them, as far as anything is
left of them. -/
def pieces (s : Bytes) : List Bytes :=
  ((s.splitOn 0x2c).map trimBlanks).filter fun piece => !piece.isEmpty

/-- The allocations of the function: two copies of the string, the list, and the
copy of each entry. -/
structure ListEnv where
  countCopy : Bool := true
  list : Bool := true
  fillCopy : Bool := true
  entry : ℕ → Bool := fun _ => true

/-- The loop over the tokens of a copy of the string. -/
def overTokens {β : Type} (s : Bytes) (more : β → Bool) (f : β → Bytes → β) (b : β) : β :=
  foldTokens 0 isComma more f (s.length + 1) (s ++ [0]) 0 b

/-- One turn of the first loop; `count` is a `uint32_t`. -/
def countToken (count : ℕ) (tok : Bytes) : ℕ :=
  if tok.dropWhile isBlank = [] then count else u32 (count + 1)

def countEntries (s : Bytes) : ℕ := overTokens s (fun _ => true) countToken 0

/-- The copy of a token, cut off at its trailing blanks. -/
def trimEnd (tok : Bytes) : Bytes := (tok.reverse.dropWhile isBlank).reverse

/-- One turn of the second loop, with the entries so far. A copy that cannot be
allocated ends the function. -/
def fillToken (entry : ℕ → Bool) : Option (List Bytes) → Bytes → Option (List Bytes)
  | none, _ => none
  | some entries, tok =>
    if tok.dropWhile isBlank = [] then some entries
    else if entry entries.length then some (entries ++ [trimEnd (tok.dropWhile isBlank)])
    else none

def fillEntries (s : Bytes) (count : ℕ) (entry : ℕ → Bool) : Option (List Bytes) :=
  overTokens s (fun entries => entries.any fun entries => entries.length < count)
    (fillToken entry) (some [])

/-- The list that `vwasm_engine_set_allowed_upstreams` installs; where it gives
up, the old list is gone already. -/
def installedList (list : Option Bytes) (env : ListEnv) : List Bytes :=
  match list with
  | none => []
  | some s =>
    if s = [] ∨ env.countCopy = false then []
    else
      let count := countEntries s
      if count = 0 ∨ env.list = false ∨ env.fillCopy = false then []
      else (fillEntries s count env.entry).getD []

def vwasmEngineSetAllowedUpstreams (engine : Engine σ) (list : Option Bytes) (env : ListEnv) :
    Engine σ :=
  { engine with allowedUpstreams := installedList list env }

section Loops

theorem overTokens_eq {β : Type} (s : CString) (more : β → Bool) (f : β → Bytes → β) (b : β) :
    overTokens s.1 more f b =
      (runsOf isComma s.1).foldl (fun b tok => if more b then f b tok else b) b := by
  obtain ⟨runs, hruns⟩ := exists_maximalRuns isComma s.1
  rw [← hruns.eq_runsOf]
  exact foldTokens_eq more f (by decide) hruns s.2 [] (s.1.length + 1) (Nat.lt_succ_self _) b

/-- The entry of a token, if any. -/
def entryOf (tok : Bytes) : List Bytes :=
  if tok.dropWhile isBlank = [] then [] else [trimBlanks tok]

theorem trimBlanks_eq_nil_iff (tok : Bytes) : trimBlanks tok = [] ↔ tok.dropWhile isBlank = [] := by
  rw [trimBlanks, List.reverse_eq_nil_iff]
  constructor
  · intro h
    by_contra hne
    -- the first letter that is no blank stays
    have hhead := List.head_dropWhile_not isBlank hne
    have hblank := List.dropWhile_eq_nil_iff.mp h _ (List.mem_reverse.mpr (List.head_mem hne))
    exact absurd hblank (by simp [hhead])
  · intro h
    rw [h, List.reverse_nil, List.dropWhile_nil]

/-- Empty tokens leave nothing behind, so that runs of commas do not matter. -/
theorem pieces_eq (s : Bytes) : pieces s = (runsOf isComma s).flatMap entryOf := by
  rw [pieces, runsOf, List.splitOn_eq_splitOnP]
  change _ = ((s.splitOnP (· == 0x2c)).filter _).flatMap entryOf
  induction s.splitOnP (· == 0x2c) with
  | nil => rfl
  | cons tok toks ih =>
    rw [List.map_cons, List.filter_cons, ih, List.filter_cons]
    by_cases hblank : tok.dropWhile isBlank = []
    · have htrim := (trimBlanks_eq_nil_iff tok).mpr hblank
      cases tok <;> simp [htrim, entryOf, hblank]
    · have htrim := mt (trimBlanks_eq_nil_iff tok).mp hblank
      have htok : tok ≠ [] := fun h => hblank (by simp [h])
      simp [htrim, htok, entryOf, hblank]

theorem foldl_countToken (toks : List Bytes) (n : ℕ) :
    toks.foldl countToken (u32 n) = u32 (n + (toks.flatMap entryOf).length) := by
  induction toks generalizing n with
  | nil => rfl
  | cons tok toks ih =>
    rw [List.foldl_cons, List.flatMap_cons, List.length_append, countToken, entryOf]
    by_cases hblank : tok.dropWhile isBlank = []
    · rw [if_pos hblank, if_pos hblank, ih, List.length_nil, Nat.zero_add]
    · have hstep : u32 (u32 n + 1) = u32 (n + 1) := Nat.mod_add_mod n (2 ^ 32) 1
      rw [if_neg hblank, if_neg hblank, hstep, ih, List.length_singleton, Nat.add_assoc]

theorem countEntries_eq (s : CString) : countEntries s.1 = u32 (pieces s.1).length := by
  rw [countEntries, overTokens_eq, pieces_eq]
  simp only [if_true]
  rw [show 0 = u32 0 from rfl, foldl_countToken, Nat.zero_add]

/-- The entries so far are at most `count`; the loop appends those of the rest. -/
theorem foldl_fillToken (count : ℕ) (toks entries : List Bytes) (hle : entries.length ≤ count) :
    toks.foldl (fun entries tok => if entries.any fun entries => entries.length < count then
        fillToken (fun _ => true) entries tok else entries) (some entries) =
      some ((entries ++ toks.flatMap entryOf).take count) := by
  induction toks generalizing entries with
  | nil => rw [List.flatMap_nil, List.append_nil, List.take_of_length_le hle, List.foldl_nil]
  | cons tok toks ih =>
    rw [List.foldl_cons, List.flatMap_cons, ← List.append_assoc, Option.any_some, entryOf]
    by_cases hroom : entries.length < count
    · rw [if_pos (decide_eq_true hroom), fillToken]
      by_cases hblank : tok.dropWhile isBlank = []
      · rw [if_pos hblank, if_pos hblank, ih entries hle, List.append_nil]
      · have hle' : (entries ++ [trimBlanks tok]).length ≤ count := by
          rw [List.length_append, List.length_singleton]
          omega
        rw [if_neg hblank, if_neg hblank, if_pos rfl]
        exact ih (entries ++ [trimBlanks tok]) hle'
    · have hlen : entries.length = count := by omega
      rw [if_neg (by simpa using hroom), ih entries hle, List.append_assoc,
        List.take_left' hlen, List.take_left' hlen]

/-- The second loop stops at the count of the first. -/
theorem fillEntries_eq (s : CString) (count : ℕ) :
    fillEntries s.1 count (fun _ => true) = some ((pieces s.1).take count) := by
  rw [fillEntries, overTokens_eq, pieces_eq, foldl_fillToken count _ _ (Nat.zero_le _),
    List.nil_append]

end Loops

/-- Without a failing allocation, the list is cut off at the wrapped count. -/
theorem installedList_eq (s : CString) :
    installedList (some s.1) {} = (pieces s.1).take (u32 (pieces s.1).length) := by
  by_cases hnil : s.1 = []
  · simp [installedList, hnil, pieces, trimBlanks]
  · by_cases hcount : u32 (pieces s.1).length = 0
    · simp [installedList, countEntries_eq, hcount]
    · simp [installedList, countEntries_eq, fillEntries_eq, hnil, hcount]

theorem installedList_eq_pieces_iff (s : CString) :
    installedList (some s.1) {} = pieces s.1 ↔ (pieces s.1).length < 2 ^ 32 := by
  rw [installedList_eq, List.take_eq_self_iff]
  constructor
  · intro h
    exact lt_of_le_of_lt h (u32_lt _)
  · intro h
    rw [u32_of_lt h]

/-- An admitted call is exempt exactly when its upstream is listed. -/
theorem prepare_exempt_iff (hasPool : Bool) (ctx : ProxyCtx) (mem : Bytes) (args : HttpCallArgs)
    (p : Prepared) (h : prepare hasPool ctx mem args = .ok p) :
    p.exempt = true ↔ upstreamName p.host p.port ∈ ctx.allowedUpstreams := by
  obtain ⟨upstream, _, _, hparse, hlist, _⟩ := prepare_spec hasPool ctx mem args p h
  rw [checkAllowlist, upstreamCheck_eq_name upstream p.host p.port hparse] at hlist
  split_ifs at hlist with hempty hmem
  · simp [hempty, ← Option.some.inj hlist]
  · simp [hmem, ← Option.some.inj hlist]

/-- The list is what the text says, in both senses: its entries, and the calls it
exempts from the address filter. -/
structure Installs (engine : Engine σ) (s : Bytes) : Prop where
  entries : engine.allowedUpstreams = pieces s
  exempt : ∀ hasPool ctx mem args p, ctx.allowedUpstreams = engine.allowedUpstreams →
    prepare hasPool ctx mem args = .ok p →
    (p.exempt = true ↔ upstreamName p.host p.port ∈ pieces s)
  distinct : ∀ hasPool ctx mem args p hasPool' ctx' mem' args' p',
    prepare hasPool ctx mem args = .ok p → prepare hasPool' ctx' mem' args' = .ok p' →
    upstreamName p.host p.port = upstreamName p'.host p'.port →
    p.host = p'.host ∧ p.port = p'.port

/-- The configured list is installed unless the counter of its entries wraps. -/
theorem setAllowedUpstreams_installs_iff (engine : Engine σ) (s : CString) :
    Installs (vwasmEngineSetAllowedUpstreams engine (some s.1) {}) s.1 ↔
      (pieces s.1).length < 2 ^ 32 := by
  rw [← installedList_eq_pieces_iff]
  constructor
  · intro h
    exact h.entries
  · intro hentries
    refine ⟨hentries, ?_, ?_⟩
    · intro hasPool ctx mem args p hctx hp
      rw [prepare_exempt_iff hasPool ctx mem args p hp, hctx, ← hentries]
      rfl
    · intro hasPool ctx mem args p hasPool' ctx' mem' args' p' hp hp' hname
      obtain ⟨upstream, _, _, hparse, _⟩ := prepare_spec hasPool ctx mem args p hp
      obtain ⟨upstream', _, _, hparse', _⟩ := prepare_spec hasPool' ctx' mem' args' p' hp'
      exact hostPort_inj _ _ _ _ (pwHttpParseUpstream_host _ _ _ _ hparse).1
        (pwHttpParseUpstream_host _ _ _ _ hparse').1 hname

/-- One entry, `n` times. -/
def repeatedEntry (n : ℕ) : Bytes := (List.replicate n (ascii "a,")).flatten

theorem pieces_entry (rest : Bytes) :
    pieces (ascii "a," ++ rest) = ascii "a" :: pieces rest := by
  have hsplit : (ascii "a," ++ rest).splitOn 0x2c = ascii "a" :: rest.splitOn 0x2c := by
    rw [show ascii "a," = ascii "a" ++ [0x2c] from rfl, List.append_assoc, List.singleton_append,
      List.splitOn_eq_splitOnP, List.splitOn_eq_splitOnP]
    exact List.splitOnP_append_cons_of_forall_mem (by decide +kernel) 0x2c (by decide) rest
  rw [pieces, hsplit, List.map_cons, List.filter_cons_of_pos rfl]
  rfl

theorem pieces_repeatedEntry (n : ℕ) :
    pieces (repeatedEntry n) = List.replicate n (ascii "a") := by
  induction n with
  | zero => rfl
  | succ n ih =>
    rw [repeatedEntry, List.replicate_succ, List.flatten_cons, pieces_entry, List.replicate_succ]
    exact congrArg _ ih

theorem repeatedEntry_plain (n : ℕ) : 0 ∉ repeatedEntry n := by
  intro hmem
  obtain ⟨entry, hentry, hzero⟩ := List.mem_flatten.mp hmem
  rw [(List.mem_replicate.mp hentry).2] at hzero
  exact absurd hzero (by decide)

theorem installedList_repeatedEntry (n : ℕ) :
    installedList (some (repeatedEntry n)) {} = (pieces (repeatedEntry n)).take (u32 n) := by
  have h := installedList_eq ⟨repeatedEntry n, repeatedEntry_plain n⟩
  rwa [pieces_repeatedEntry, List.length_replicate, ← pieces_repeatedEntry] at h

theorem setAllowedUpstreams_wrapped (engine : Engine σ) :
    (vwasmEngineSetAllowedUpstreams engine (some (repeatedEntry (2 ^ 32))) {}).allowedUpstreams =
      [] := by
  rw [vwasmEngineSetAllowedUpstreams, installedList_repeatedEntry, u32, Nat.mod_self,
    List.take_zero]

/-- With `2 ^ 32` entries the counter is back at zero, and the list stays empty:
every upstream is allowed. -/
theorem repeatedEntry_allowsAll :
    (vwasmEngineSetAllowedUpstreams ({ modules := [] } : Engine Unit)
        (some (repeatedEntry (2 ^ 32))) {}).allowedUpstreams = [] ∧
      ¬ Installs (vwasmEngineSetAllowedUpstreams ({ modules := [] } : Engine Unit)
        (some (repeatedEntry (2 ^ 32))) {}) (repeatedEntry (2 ^ 32)) := by
  refine ⟨setAllowedUpstreams_wrapped _, ?_⟩
  intro h
  have hlen := congrArg List.length h.entries
  rw [setAllowedUpstreams_wrapped _, pieces_repeatedEntry, List.length_replicate] at hlen
  contradiction

end VmodWasm.AllowlistText
