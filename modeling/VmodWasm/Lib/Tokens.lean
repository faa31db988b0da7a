import Mathlib.Data.List.TakeWhile

/-!
Tokens of a text, as `strtok_r` cuts them out of a buffer. The tokens are the
maximal runs of letters that are no separators. The tokenizer works in place:
a token is a position in the buffer, and the separator behind it is overwritten
by the terminator, so that the token can be read from its position later on.
-/
namespace VmodWasm.Lib.Tokens

variable {α : Type}

/-- The text is these runs, in order, each without separators and not empty, with
gaps of separators around them; a run ends with the text or at a separator. -/
inductive MaximalRuns (sep : α → Bool) : List α → List (List α) → Prop
  | nil (gap : List α) : (∀ c ∈ gap, sep c = true) → MaximalRuns sep gap []
  | last (gap run : List α) : (∀ c ∈ gap, sep c = true) → run ≠ [] → (∀ c ∈ run, sep c = false) →
      MaximalRuns sep (gap ++ run) [run]
  | cons (gap run : List α) (c : α) (rest : List α) (runs : List (List α)) :
      (∀ c ∈ gap, sep c = true) → run ≠ [] → (∀ c ∈ run, sep c = false) → sep c = true →
      MaximalRuns sep rest runs → MaximalRuns sep (gap ++ run ++ c :: rest) (run :: runs)

/-- The runs by splitting: what stands between two separators, if it is not empty. -/
def runsOf (sep : α → Bool) (text : List α) : List (List α) :=
  (text.splitOnP sep).filter fun run => !run.isEmpty

section Runs

variable {sep : α → Bool}

theorem MaximalRuns.cons_sep {c : α} {text : List α} {runs : List (List α)}
    (h : MaximalRuns sep text runs) (hc : sep c = true) : MaximalRuns sep (c :: text) runs := by
  have hgap (gap : List α) (hgap : ∀ c ∈ gap, sep c = true) : ∀ d ∈ c :: gap, sep d = true :=
    List.forall_mem_cons.mpr ⟨hc, hgap⟩
  cases h with
  | nil _ h => exact .nil _ (hgap text h)
  | last gap run h hne hrun => exact .last (c :: gap) run (hgap gap h) hne hrun
  | cons gap run d rest runs h hne hrun hd hrest =>
    exact .cons (c :: gap) run d rest runs (hgap gap h) hne hrun hd hrest

/-- A letter in front begins a run of its own or belongs to the first one. -/
theorem MaximalRuns.cons_letter {c : α} {text : List α} {runs : List (List α)}
    (h : MaximalRuns sep text runs) (hc : sep c = false) :
    ∃ runs', MaximalRuns sep (c :: text) runs' := by
  have hsingle : ∀ d ∈ [c], sep d = false := by simpa using hc
  have hlonger (run : List α) (hrun : ∀ d ∈ run, sep d = false) : ∀ d ∈ c :: run, sep d = false :=
    List.forall_mem_cons.mpr ⟨hc, hrun⟩
  have hnogap : ∀ d ∈ ([] : List α), sep d = true := by simp
  cases h with
  | nil _ hgap =>
    cases text with
    | nil => exact ⟨_, .last [] [c] hnogap (by simp) hsingle⟩
    | cons d gap =>
      rw [List.forall_mem_cons] at hgap
      exact ⟨_, .cons [] [c] d gap [] hnogap (by simp) hsingle hgap.1 (.nil gap hgap.2)⟩
  | last gap run hgap hne hrun =>
    cases gap with
    | nil => exact ⟨_, .last [] (c :: run) hnogap (by simp) (hlonger run hrun)⟩
    | cons d gap =>
      rw [List.forall_mem_cons] at hgap
      exact ⟨_, .cons [] [c] d (gap ++ run) _ hnogap (by simp) hsingle hgap.1
        (.last gap run hgap.2 hne hrun)⟩
  | cons gap run e rest runs hgap hne hrun he hrest =>
    cases gap with
    | nil => exact ⟨_, .cons [] (c :: run) e rest runs hnogap (by simp) (hlonger run hrun) he hrest⟩
    | cons d gap =>
      rw [List.forall_mem_cons] at hgap
      exact ⟨_, .cons [] [c] d (gap ++ run ++ e :: rest) _ hnogap (by simp) hsingle hgap.1
        (.cons gap run e rest runs hgap.2 hne hrun he hrest)⟩

theorem exists_maximalRuns (sep : α → Bool) (text : List α) : ∃ runs, MaximalRuns sep text runs := by
  induction text with
  | nil => exact ⟨[], .nil [] (by simp)⟩
  | cons c text ih =>
    obtain ⟨runs, hruns⟩ := ih
    cases hc : sep c with
    | true => exact ⟨runs, hruns.cons_sep hc⟩
    | false => exact hruns.cons_letter hc

theorem runsOf_gap (gap text : List α) (hgap : ∀ c ∈ gap, sep c = true) :
    runsOf sep (gap ++ text) = runsOf sep text := by
  induction gap with
  | nil => rfl
  | cons c gap ih =>
    rw [List.forall_mem_cons] at hgap
    rw [← ih hgap.2, runsOf, List.cons_append, List.splitOnP_cons_eq_if_modifyHead, if_pos hgap.1,
      List.filter_cons_of_neg (by simp), runsOf]

theorem MaximalRuns.eq_runsOf {text : List α} {runs : List (List α)}
    (h : MaximalRuns sep text runs) : runs = runsOf sep text := by
  induction h with
  | nil gap hgap =>
    have hnil := runsOf_gap gap [] hgap
    rw [List.append_nil] at hnil
    rw [hnil]
    simp [runsOf]
  | last gap run hgap hne hrun =>
    rw [runsOf_gap gap run hgap, runsOf, List.splitOnP_eq_singleton hrun]
    simp [hne]
  | cons gap run c rest runs hgap hne hrun hc _ ih =>
    rw [List.append_assoc, runsOf_gap gap _ hgap, runsOf,
      List.splitOnP_append_cons_of_forall_mem hrun c hc, ih]
    simp [runsOf, hne]

/-- A text has one list of maximal runs. -/
theorem maximalRuns_iff (text : List α) (runs : List (List α)) :
    MaximalRuns sep text runs ↔ runs = runsOf sep text := by
  constructor
  · exact MaximalRuns.eq_runsOf
  · rintro rfl
    obtain ⟨runs, hruns⟩ := exists_maximalRuns sep text
    rwa [← hruns.eq_runsOf]

end Runs

section Buffer

variable [DecidableEq α] (stop : α) (sep : α → Bool)

/-- The position behind the letters from `i` on that satisfy `p`. -/
def skipWhile (p : α → Bool) (buf : List α) (i : ℕ) : ℕ :=
  i + ((buf.drop i).takeWhile p).length

/-- The string at a position, up to the terminator. -/
def textAt (buf : List α) (i : ℕ) : List α := (buf.drop i).takeWhile (· ≠ stop)

/-- The next token from a position on: where it starts, the buffer with its
terminator, and where to look for the one after it. -/
def nextToken (buf : List α) (i : ℕ) : Option (ℕ × List α × ℕ) :=
  let start := skipWhile sep buf i
  if buf.getD start stop = stop then none
  else
    let fin := skipWhile (fun c => !sep c && c ≠ stop) buf start
    if buf.getD fin stop = stop then some (start, buf, fin)
    else some (start, buf.set fin stop, fin + 1)

omit [DecidableEq α] in
theorem skipWhile_eq (p : α → Bool) (done run rest : List α) (hrun : ∀ c ∈ run, p c = true)
    (hrest : ∀ c ∈ rest.head?, p c = false) :
    skipWhile p (done ++ (run ++ rest)) done.length = (done ++ run).length := by
  have hnone : rest.takeWhile p = [] := by
    cases rest with
    | nil => rfl
    | cons c rest => simp [hrest c (by simp)]
  rw [skipWhile, List.drop_left, List.takeWhile_append_of_pos hrun, hnone, List.append_nil,
    List.length_append]

omit [DecidableEq α] in
theorem getD_length (done : List α) (c : α) (rest : List α) :
    (done ++ c :: rest).getD done.length stop = c := by
  simp

theorem textAt_eq (done run rest : List α) (hrun : stop ∉ run) :
    textAt stop (done ++ (run ++ stop :: rest)) done.length = run := by
  rw [textAt, List.drop_left, List.takeWhile_append_of_pos]
  · simp
  · intro c hc
    simpa using ne_of_mem_of_not_mem hc hrun

variable {stop sep}

theorem nextToken_nil (hstop : sep stop = false) (done gap : List α)
    (hgap : ∀ c ∈ gap, sep c = true) :
    nextToken stop sep (done ++ (gap ++ [stop])) done.length = none := by
  rw [nextToken, skipWhile_eq sep done gap [stop] hgap (by simpa using hstop),
    ← List.append_assoc, getD_length, if_pos rfl]

/-- The token that comes first: its run, then the terminator or a separator. -/
theorem nextToken_run (hstop : sep stop = false) (done gap run : List α) (c : α) (rest : List α)
    (hgap : ∀ c ∈ gap, sep c = true) (hne : run ≠ []) (hrun : ∀ c ∈ run, sep c = false)
    (hplain : stop ∉ run) (hc : c = stop ∨ sep c = true) :
    nextToken stop sep (done ++ (gap ++ run ++ c :: rest)) done.length =
      some ((done ++ gap).length,
        if c = stop then (done ++ (gap ++ run ++ c :: rest), (done ++ gap ++ run).length)
        else (done ++ (gap ++ run ++ stop :: rest), (done ++ gap ++ run).length + 1)) := by
  obtain ⟨d, run', rfl⟩ := List.exists_cons_of_ne_nil hne
  have hd : sep d = false := hrun d List.mem_cons_self
  have hd' : d ≠ stop := fun h => hplain (h ▸ List.mem_cons_self)
  have hstart : skipWhile sep (done ++ (gap ++ (d :: run') ++ c :: rest)) done.length =
      (done ++ gap).length := by
    rw [List.append_assoc gap]
    exact skipWhile_eq sep done gap (d :: run' ++ c :: rest) hgap (by simpa using hd)
  have hfin : skipWhile (fun c => !sep c && c ≠ stop)
      (done ++ (gap ++ (d :: run') ++ c :: rest)) (done ++ gap).length =
        (done ++ gap ++ d :: run').length := by
    rw [List.append_assoc gap, ← List.append_assoc]
    refine skipWhile_eq _ (done ++ gap) (d :: run') (c :: rest) ?_ ?_
    · intro e he
      simpa [hrun e he] using ne_of_mem_of_not_mem he hplain
    · rcases hc with rfl | hc
      · simp
      · simp [hc]
  have hfirst : (done ++ (gap ++ (d :: run') ++ c :: rest)).getD (done ++ gap).length stop = d := by
    rw [List.append_assoc gap, ← List.append_assoc, List.cons_append, getD_length]
  have hlast : (done ++ (gap ++ (d :: run') ++ c :: rest)).getD (done ++ gap ++ d :: run').length
      stop = c := by
    rw [← List.append_assoc, ← List.append_assoc, getD_length]
  rw [nextToken, hstart, hfirst, if_neg hd', hfin]
  dsimp only
  rw [hlast]
  split
  · rfl
  · congr 3
    rw [← List.append_assoc, ← List.append_assoc, List.set_append_right _ _ (Nat.le_refl _),
      Nat.sub_self, List.set_cons_zero, ← List.append_assoc, ← List.append_assoc]

/-- The last token: what is behind it is the end of the text. -/
theorem nextToken_last (hstop : sep stop = false) (done gap run : List α)
    (hgap : ∀ c ∈ gap, sep c = true) (hne : run ≠ []) (hrun : ∀ c ∈ run, sep c = false)
    (hplain : stop ∉ run) :
    nextToken stop sep (done ++ (gap ++ run ++ [stop])) done.length =
      some ((done ++ gap).length, done ++ gap ++ run ++ [stop], (done ++ gap ++ run).length) := by
  rw [nextToken_run hstop done gap run stop [] hgap hne hrun hplain (Or.inl rfl), if_pos rfl,
    ← List.append_assoc, ← List.append_assoc]

/-- Another token: the separator behind it has become the terminator, and the
text behind that is as it was. -/
theorem nextToken_cons (hstop : sep stop = false) (done gap run : List α) (c : α) (rest : List α)
    (hgap : ∀ c ∈ gap, sep c = true) (hne : run ≠ []) (hrun : ∀ c ∈ run, sep c = false)
    (hplain : stop ∉ run) (hc : sep c = true) :
    nextToken stop sep (done ++ (gap ++ run ++ c :: rest ++ [stop])) done.length =
      some ((done ++ gap).length, done ++ gap ++ run ++ [stop] ++ (rest ++ [stop]),
        (done ++ gap ++ run ++ [stop]).length) := by
  have hsep : c ≠ stop := by
    rintro rfl
    rw [hstop] at hc
    contradiction
  rw [List.append_assoc (gap ++ run), List.cons_append,
    nextToken_run hstop done gap run c (rest ++ [stop]) hgap hne hrun hplain (Or.inr hc),
    if_neg hsep]
  simp [Nat.add_assoc]

end Buffer

section Fold

variable [DecidableEq α] {β : Type} (stop : α) (sep : α → Bool) (more : β → Bool)
  (f : β → List α → β)

/-- The loop over the tokens from a position on, each read as it is found; the
loop goes on as long as there is a token and `more` says so. -/
def foldTokens : ℕ → List α → ℕ → β → β
  | 0, _, _, b => b
  | fuel + 1, buf, i, b =>
    match nextToken stop sep buf i with
    | none => b
    | some (start, buf, i) =>
      if more b then foldTokens fuel buf i (f b (textAt stop buf start)) else b

variable {stop sep}

theorem foldTokens_end (hstop : sep stop = false) (fuel : ℕ) (done : List α) (b : β) :
    foldTokens stop sep more f fuel (done ++ [stop]) done.length b = b := by
  cases fuel with
  | zero => rfl
  | succ fuel =>
    have hnone := nextToken_nil hstop done [] (by simp)
    rw [List.nil_append] at hnone
    rw [foldTokens, hnone]

/-- The loop goes over the runs of the text; a turn consumes a letter, so the
length of the text is enough fuel. -/
theorem foldTokens_eq (hstop : sep stop = false) {text : List α} {runs : List (List α)}
    (h : MaximalRuns sep text runs) (hplain : stop ∉ text) (done : List α) (fuel : ℕ)
    (hfuel : text.length < fuel) (b : β) :
    foldTokens stop sep more f fuel (done ++ (text ++ [stop])) done.length b =
      runs.foldl (fun b run => if more b then f b run else b) b := by
  have hstuck (b : β) (hb : more b = false) (runs : List (List α)) :
      runs.foldl (fun b run => if more b then f b run else b) b = b := by
    induction runs with
    | nil => rfl
    | cons run runs ih => rwa [List.foldl_cons, if_neg (by simp [hb])]
  induction h generalizing done fuel b with
  | nil gap hgap =>
    obtain ⟨fuel, rfl⟩ := Nat.exists_eq_add_one_of_ne_zero (Nat.ne_zero_of_lt hfuel)
    rw [foldTokens, nextToken_nil hstop done gap hgap, List.foldl_nil]
  | last gap run hgap hne hrun =>
    obtain ⟨fuel, rfl⟩ := Nat.exists_eq_add_one_of_ne_zero (Nat.ne_zero_of_lt hfuel)
    have hplain : stop ∉ run := fun h => hplain (List.mem_append_right _ h)
    rw [foldTokens, nextToken_last hstop done gap run hgap hne hrun hplain]
    dsimp only
    rw [foldTokens_end more f hstop, List.append_assoc _ run, textAt_eq stop _ run [] hplain]
    rfl
  | cons gap run c rest runs hgap hne hrun hc hrest ih =>
    obtain ⟨fuel, rfl⟩ := Nat.exists_eq_add_one_of_ne_zero (Nat.ne_zero_of_lt hfuel)
    simp only [List.mem_append, List.mem_cons, not_or] at hplain
    have hshort : rest.length < fuel := by
      simp only [List.length_append, List.length_cons] at hfuel
      omega
    rw [foldTokens, nextToken_cons hstop done gap run c rest hgap hne hrun hplain.1.2 hc]
    dsimp only
    have htext : textAt stop (done ++ gap ++ run ++ [stop] ++ (rest ++ [stop])) (done ++ gap).length =
        run := by
      rw [List.append_assoc, List.append_assoc (done ++ gap)]
      exact textAt_eq stop (done ++ gap) run (rest ++ [stop]) hplain.1.2
    rw [htext, ih hplain.2.2 (done ++ gap ++ run ++ [stop]) fuel hshort, List.foldl_cons]
    split
    · rfl
    next hmore => exact (hstuck b (by simpa using hmore) runs).symm

end Fold

end VmodWasm.Lib.Tokens
