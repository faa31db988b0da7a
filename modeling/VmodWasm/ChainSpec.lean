import VmodWasm.FilterChain
import VmodWasm.Lib.Tokens

/-!
Chain specifications. The VMOD functions parse a copy of the specification in
place: a name is a position in the copy, ended by a NUL written over the
separator behind it, and is read when its module runs. The names are the
maximal runs of letters other than the separators, as many as the array of
the parser has room for.
-/
namespace VmodWasm.ChainSpec

open ByteStrings Execute FilterChain Lib.Tokens

variable {σ : Type}

/-- The parser loop at position `p` of the copy, with room for `n` more names:
where the names start, and the copy it leaves. -/
def chainLoopAt : ℕ → Bytes → ℕ → List ℕ × Bytes
  | 0, buf, _ => ([], buf)
  | n + 1, buf, p =>
    if buf.getD p 0 = 0 then ([], buf)
    else
      match nextToken 0 isChainSep buf p with
      | none => ([], buf)
      | some (start, buf, p) =>
        let r := chainLoopAt n buf p
        (start :: r.1, r.2)

/-- The names that the chain reads from the copy. -/
def chainModulesAt (spec : Bytes) : List Bytes :=
  let r := chainLoopAt 64 (spec ++ [0]) 0
  r.1.map (textAt 0 r.2)

/-- What is written behind a position leaves the string in front of it alone. -/
theorem textAt_of_prefix (done run buf : Bytes) (hrun : 0 ∉ run)
    (h : done ++ run ++ [0] <+: buf) : textAt 0 buf done.length = run := by
  obtain ⟨rest, rfl⟩ := h
  rw [List.append_assoc, List.append_assoc, List.singleton_append]
  exact textAt_eq 0 done run rest hrun

theorem chainLoopAt_end (n : ℕ) (done : Bytes) :
    chainLoopAt n (done ++ [0]) done.length = ([], done ++ [0]) := by
  cases n with
  | zero => rfl
  | succ n => rw [chainLoopAt, if_pos (getD_length 0 done 0 [])]

/-- The loop keeps what is in front of its position and finds the runs behind it. -/
theorem chainLoopAt_runs (n : ℕ) (done text : Bytes) (runs : List Bytes)
    (h : MaximalRuns isChainSep text runs) (hnul : 0 ∉ text) :
    done <+: (chainLoopAt n (done ++ (text ++ [0])) done.length).2 ∧
      (chainLoopAt n (done ++ (text ++ [0])) done.length).1.map
        (textAt 0 (chainLoopAt n (done ++ (text ++ [0])) done.length).2) = runs.take n := by
  have hstop : isChainSep 0 = false := by decide
  induction n generalizing done text runs with
  | zero => exact ⟨List.prefix_append .., rfl⟩
  | succ n ih =>
    have hmore (hne : text ≠ []) : (done ++ (text ++ [0])).getD done.length 0 ≠ 0 := by
      obtain ⟨c, text', rfl⟩ := List.exists_cons_of_ne_nil hne
      rw [List.cons_append, getD_length]
      exact fun hc => hnul (hc ▸ List.mem_cons_self)
    rw [chainLoopAt]
    cases h with
    | nil _ hgap =>
      rw [nextToken_nil hstop done text hgap, ite_self]
      exact ⟨List.prefix_append .., rfl⟩
    | last gap run hgap hne hrun =>
      have hplain : 0 ∉ run := fun h => hnul (List.mem_append_right _ h)
      rw [if_neg (hmore (by simp [hne])), nextToken_last hstop done gap run hgap hne hrun hplain]
      dsimp only
      rw [chainLoopAt_end]
      refine ⟨⟨gap ++ run ++ [0], by simp⟩, ?_⟩
      rw [List.map_singleton, textAt_of_prefix (done ++ gap) run _ hplain List.prefix_rfl]
      simp
    | cons gap run c rest runs hgap hne hrun hc hrest =>
      simp only [List.mem_append, List.mem_cons, not_or] at hnul
      obtain ⟨hkeep, hnames⟩ := ih (done ++ gap ++ run ++ [0]) rest runs hrest hnul.2.2
      rw [if_neg (hmore (by simp)),
        nextToken_cons hstop done gap run c rest hgap hne hrun hnul.1.2 hc]
      dsimp only
      refine ⟨List.IsPrefix.trans ⟨gap ++ run ++ [0], by simp⟩ hkeep, ?_⟩
      rw [List.map_cons, hnames, textAt_of_prefix (done ++ gap) run _ hnul.1.2 hkeep,
        List.take_succ_cons]

/-- The parser finds the runs of the specification, up to its room. -/
theorem chainModulesAt_eq (spec : CString) (runs : List Bytes)
    (h : MaximalRuns isChainSep spec.1 runs) : chainModulesAt spec.1 = runs.take 64 :=
  (chainLoopAt_runs 64 [] spec.1 runs h spec.2).2

/-- In place or not, the parser finds the same names. -/
theorem chainModules_inPlace (spec : CString) : chainModules spec.1 = chainModulesAt spec.1 := by
  obtain ⟨runs, hruns⟩ := exists_maximalRuns isChainSep spec.1
  have hnames : chainNames spec.1 = runsOf isChainSep spec.1 := by
    unfold chainNames runsOf
    refine List.filter_congr fun run _ => ?_
    cases run <;> rfl
  rw [chainModulesAt_eq spec runs hruns, hruns.eq_runsOf, ← hnames]
  exact chainLoop_eq_take 64 spec.1

section Execution

variable (engine : Engine σ) (phase : Phase) (envs : ℕ → ExecEnv)

/-- A chain that no module ends early has run all its modules. -/
theorem runChain_executed (i : ℕ) (names : List Bytes) (w : σ)
    (h : ∀ x ∈ (runChain engine phase envs i names w).1, x.2.exit.ret = 0) :
    (runChain engine phase envs i names w).1.map Prod.fst = names := by
  induction names generalizing i w with
  | nil => rfl
  | cons name names ih =>
    rw [runChain] at h ⊢
    dsimp only at h ⊢
    split at h
    next hret => exact absurd (h _ List.mem_cons_self) hret
    next hret =>
      rw [if_neg hret, List.map_cons, ih]
      intro x hx
      exact h x (List.mem_cons_of_mem _ hx)

theorem vwasmFilterChain_executed (modules : List Bytes) (w : σ)
    (h : ∀ x ∈ (vwasmFilterChain engine phase envs modules w).1, x.2.exit.ret = 0) :
    (vwasmFilterChain engine phase envs modules w).1.map Prod.fst = modules := by
  unfold vwasmFilterChain at h ⊢
  by_cases hnil : modules = []
  · rw [if_pos hnil, hnil]
    rfl
  · rw [if_neg hnil] at h ⊢
    exact runChain_executed engine phase envs 0 modules w h

/-- In a chain that no module ends early, the modules run are the names of the
specification exactly when it has no names, or it could be copied and has at
most 64. -/
theorem vmodFilterChain_executed_iff (copied : Bool) (spec : CString) (names : List Bytes) (w : σ)
    (hnames : MaximalRuns isChainSep spec.1 names)
    (hpass : ∀ x ∈ (vmodFilterChain engine phase envs copied spec.1 w).2.1, x.2.exit.ret = 0) :
    (vmodFilterChain engine phase envs copied spec.1 w).2.1.map Prod.fst = names ↔
      names = [] ∨ copied = true ∧ names.length ≤ 64 := by
  unfold vmodFilterChain at hpass ⊢
  by_cases hrefused : spec.1 = [] ∨ copied = false
  · rw [if_pos hrefused]
    constructor
    · intro h
      exact Or.inl h.symm
    · rintro (rfl | ⟨hcopied, -⟩)
      · rfl
      · rcases hrefused with hempty | hnot
        · rw [hnames.eq_runsOf, hempty]
          simp [runsOf]
        · rw [hcopied] at hnot
          contradiction
  · rw [if_neg hrefused] at hpass ⊢
    rw [not_or, Bool.not_eq_false] at hrefused
    dsimp only at hpass ⊢
    rw [vwasmFilterChain_executed engine phase envs _ w hpass, chainModules_inPlace,
      chainModulesAt_eq spec names hnames, List.take_eq_self_iff]
    constructor
    · intro hlen
      exact Or.inr ⟨hrefused.2, hlen⟩
    · rintro (rfl | ⟨-, hlen⟩)
      · exact Nat.zero_le _
      · exact hlen

end Execution

/-- A module that lets every request pass, and one that fails on every request. -/
def guardedEngine : Engine Unit where
  modules := [(ascii "a", scriptedGuest [.requestHeaders] fun _ => .done (.returned 0, ())),
    (ascii "b", scriptedGuest [.requestHeaders] fun _ => .done (.trapped, ()))]

def shortSpec : CString := ⟨ascii " a||a\t", by decide⟩

theorem shortSpec_executed :
    (vmodFilterChain guardedEngine .request (fun _ => {}) true shortSpec.1 ()).2.1.map Prod.fst =
      [ascii "a", ascii "a"] := by
  refine (vmodFilterChain_executed_iff guardedEngine .request (fun _ => {}) true shortSpec
    [ascii "a", ascii "a"] () ?_ ?_).mpr (Or.inr ⟨rfl, by decide⟩)
  · rw [maximalRuns_iff]
    decide
  · decide +kernel

/-- 64 times the first module, then the second. -/
def longSpec : CString := ⟨(List.replicate 64 (ascii "a|")).flatten ++ ascii "b", by decide⟩

/-- The second module, which alone would refuse the request, does not run. -/
theorem longSpec_cut :
    MaximalRuns isChainSep longSpec.1 (List.replicate 64 (ascii "a") ++ [ascii "b"]) ∧
    (∀ x ∈ (vmodFilterChain guardedEngine .request (fun _ => {}) true longSpec.1 ()).2.1,
      x.2.exit.ret = 0) ∧
    (vmodFilterChain guardedEngine .request (fun _ => {}) true longSpec.1 ()).2.1.map Prod.fst =
      List.replicate 64 (ascii "a") ∧
    (vmodFilterChain guardedEngine .request (fun _ => {}) true longSpec.1 ()).1 = 0 ∧
    (vmodFilterChain guardedEngine .request (fun _ => {}) true (ascii "b") ()).1 = -1 := by
  refine ⟨?_, by decide +kernel, by decide +kernel, by decide +kernel, by decide +kernel⟩
  rw [maximalRuns_iff]
  decide +kernel

end VmodWasm.ChainSpec
