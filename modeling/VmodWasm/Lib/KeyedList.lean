import Mathlib.Data.List.Basic
import Mathlib.Data.List.Pairwise

/-!
Ordered containers keyed by natural numbers, as ascending lists. Iteration
that reads the successor of an element before its body runs (the usual
"safe" loop over a tree that the body may change) is modelled with its fuel.
The main rule says what such a loop visits when bodies only append larger
keys: everything but what the last visited body appended.
-/
namespace VmodWasm.Lib.KeyedList

variable {α S : Type} (key : α → ℕ)

def Ascending (l : List α) : Prop := l.Pairwise (fun a b => key a < key b)

/-- Ordered insertion; an element with the same key stays and wins. -/
def insertKeyed (a : α) : List α → List α
  | [] => [a]
  | b :: l =>
    if key a < key b then a :: b :: l
    else if key b < key a then b :: insertKeyed a l
    else b :: l

def removeKeyed (k : ℕ) (l : List α) : List α := l.filter (fun b => key b ≠ k)

/-- The successor of a key in the container. -/
def nextKeyed (k : ℕ) (l : List α) : Option α := l.find? (fun b => k < key b)

theorem insertKeyed_last (a : α) (l : List α) (h : ∀ b ∈ l, key b < key a) :
    insertKeyed key a l = l ++ [a] := by
  induction l with
  | nil => rfl
  | cons b l ih =>
    have hb : key b < key a := h b (List.mem_cons_self ..)
    have hnot : ¬ key a < key b := by omega
    rw [insertKeyed, if_neg hnot, if_pos hb,
      ih (fun c hc => h c (List.mem_cons_of_mem _ hc)), List.cons_append]

/-- An element of a new key can be found under it. -/
theorem find?_insertKeyed (a : α) (l : List α) (h : ∀ b ∈ l, key b ≠ key a) :
    (insertKeyed key a l).find? (fun b => key b = key a) = some a := by
  induction l with
  | nil => simp [insertKeyed]
  | cons b l ih =>
    have hb : key b ≠ key a := h b List.mem_cons_self
    by_cases hlt : key a < key b
    · rw [insertKeyed, if_pos hlt]
      simp
    · have hgt : key b < key a := by omega
      rw [insertKeyed, if_neg hlt, if_pos hgt, List.find?_cons_of_neg (by simpa using hb)]
      exact ih fun c hc => h c (List.mem_cons_of_mem _ hc)

theorem removeKeyed_last (a : α) (l : List α) (h : ∀ b ∈ l, key b < key a) :
    removeKeyed key (key a) (l ++ [a]) = l := by
  have hkeep : l.filter (fun b => key b ≠ key a) = l := by
    apply List.filter_eq_self.mpr
    intro b hb
    have := h b hb
    simp only [ne_eq, decide_eq_true_eq]
    omega
  simp only [removeKeyed, List.filter_append, hkeep]
  simp

theorem ascending_append_last (a : α) (l : List α) (hl : Ascending key l)
    (h : ∀ b ∈ l, key b < key a) : Ascending key (l ++ [a]) := by
  apply List.pairwise_append.mpr
  refine ⟨hl, List.pairwise_singleton _ _, ?_⟩
  intro b hb c hc
  rw [List.mem_singleton.mp hc]
  exact h b hb

/-- In an ascending container the successor is the next list element. -/
theorem nextKeyed_split (pre post : List α) (x : α)
    (h : Ascending key (pre ++ x :: post)) :
    nextKeyed key (key x) (pre ++ x :: post) = post.head? := by
  obtain ⟨_, hx, hcross⟩ := List.pairwise_append.mp h
  obtain ⟨hxpost, _⟩ := List.pairwise_cons.mp hx
  have hpre : pre.find? (fun b => key x < key b) = none := by
    apply List.find?_eq_none.mpr
    intro b hb
    have := hcross b hb x (List.mem_cons_self ..)
    simp only [decide_eq_true_eq]
    omega
  rw [nextKeyed, List.find?_append, hpre, Option.none_or, List.find?_cons]
  simp only [Nat.lt_irrefl, decide_false]
  cases post with
  | nil => rfl
  | cons y post =>
    have hy : key x < key y := hxpost y (List.mem_cons_self ..)
    simp [hy]

/-- Safe iteration from `x`, returning the visited elements in order. The
loop ends when `stop` holds after a body or when the saved successor is
missing; out of fuel it ends as well, which a large enough fuel excludes. -/
def foreachSafe (contents : S → List α) (body : α → S → S) (stop : S → Bool) :
    ℕ → Option α → S → List α × S
  | _, none, s => ([], s)
  | 0, some _, s => ([], s)
  | fuel + 1, some x, s =>
    let y := nextKeyed key (key x) (contents s)
    let s' := body x s
    if stop s' then ([x], s')
    else
      let rest := foreachSafe contents body stop fuel y s'
      (x :: rest.1, rest.2)

/-- What every body keeps, the loop keeps. -/
theorem foreachSafe_invariant (contents : S → List α) (body : α → S → S) (stop : S → Bool)
    (I : S → Prop) (hbody : ∀ x s, I s → I (body x s)) (fuel : ℕ) (x : Option α) (s : S)
    (hs : I s) : I (foreachSafe key contents body stop fuel x s).2 := by
  induction fuel generalizing x s with
  | zero => cases x <;> exact hs
  | succ fuel ih =>
    cases x with
    | none => exact hs
    | some x =>
      rw [foreachSafe]
      split
      · exact hbody x s hs
      · exact ih _ _ (hbody x s hs)

/-- Where each body adds the record of its element, the loop adds the records
of the visited elements in order. -/
theorem foreachSafe_trace {β : Type} (contents : S → List α) (body : α → S → S) (stop : S → Bool)
    (trace : S → List β) (record : α → β)
    (hbody : ∀ x s, trace (body x s) = trace s ++ [record x]) (fuel : ℕ) (x : Option α) (s : S) :
    trace (foreachSafe key contents body stop fuel x s).2 =
      trace s ++ (foreachSafe key contents body stop fuel x s).1.map record := by
  induction fuel generalizing x s with
  | zero => cases x <;> simp [foreachSafe]
  | succ fuel ih =>
    cases x with
    | none => simp [foreachSafe]
    | some x =>
      rw [foreachSafe]
      split
      · exact hbody x s
      · dsimp only
        rw [ih, hbody, List.map_cons, List.append_assoc, List.singleton_append]

section Visits

variable (contents : S → List α) (body : α → S → S) (stop : S → Bool)
variable (I Escaped : S → Prop) (bound : ℕ)

/-- The loop keeps the invariant, visits in order without gaps, and, unless
it was stopped, the last visit began when nothing was left behind it. Bodies
may also leave the invariant for good. -/
theorem foreachSafe_visits
    (hasc : ∀ s, I s → Ascending key (contents s))
    (hlt : ∀ s, I s → ∀ x ∈ contents s, key x < bound)
    (hesc : ∀ x s, Escaped s → Escaped (body x s))
    (hbody : ∀ x s, I s → x ∈ contents s →
      Escaped (body x s) ∨ I (body x s) ∧ ∃ new, contents (body x s) = contents s ++ new)
    (fuel : ℕ) (pre post : List α) (x : α) (s : S)
    (hI : I s) (hsplit : contents s = pre ++ x :: post) (hfuel : bound ≤ fuel + key x) :
    ∃ visited t, foreachSafe key contents body stop fuel (some x) s = (visited, t) ∧
      (Escaped t ∨ I t ∧ (∃ rest, contents t = pre ++ visited ++ rest) ∧
        (stop t = true ∨ ∃ us z u, visited = us ++ [z] ∧ I u ∧
          contents u = pre ++ visited ∧ t = body z u)) := by
  induction fuel generalizing pre post x s with
  | zero =>
    have hx : key x < bound := hlt s hI x (by rw [hsplit]; simp)
    omega
  | succ fuel ih =>
    have hmem : x ∈ contents s := by rw [hsplit]; simp
    rcases hbody x s hI hmem with hescaped | ⟨hI', new, hnew⟩
    · have hend : Escaped (foreachSafe key contents body stop (fuel + 1) (some x) s).2 := by
        rw [foreachSafe]
        split
        · exact hescaped
        · exact foreachSafe_invariant key contents body stop Escaped hesc fuel _ _ hescaped
      exact ⟨_, _, rfl, Or.inl hend⟩
    have hnext : nextKeyed key (key x) (contents s) = post.head? := by
      rw [hsplit]
      exact nextKeyed_split key pre post x (hsplit ▸ hasc s hI)
    by_cases hstop : stop (body x s) = true
    · refine ⟨[x], body x s, by simp [foreachSafe, hstop], Or.inr ⟨hI', ⟨post ++ new, ?_⟩,
        Or.inl hstop⟩⟩
      rw [hnew, hsplit]
      simp
    · cases post with
      | nil =>
        -- the saved successor is missing: this was the last visit
        refine ⟨[x], body x s, ?_, Or.inr ⟨hI', ⟨new, ?_⟩,
          Or.inr ⟨[], x, s, rfl, hI, ?_, rfl⟩⟩⟩
        · simp [foreachSafe, hstop, hnext]
        · rw [hnew, hsplit]
        · rw [hsplit]
      | cons y post =>
        have hasc' := hasc s hI
        rw [hsplit] at hasc'
        have hxy : key x < key y :=
          (List.pairwise_cons.mp (List.pairwise_append.mp hasc').2.1).1 y (List.mem_cons_self ..)
        have hsplit' : contents (body x s) = (pre ++ [x]) ++ y :: (post ++ new) := by
          rw [hnew, hsplit]
          simp
        obtain ⟨visited, t, hrun, hend⟩ :=
          ih (pre ++ [x]) (post ++ new) y (body x s) hI' hsplit' (by omega)
        refine ⟨x :: visited, t, by simp [foreachSafe, hstop, hnext, hrun], ?_⟩
        rcases hend with hescaped | ⟨hIt, ⟨rest, hrest⟩, hs | ⟨us, z, u, hv, hIu, hu, ht⟩⟩
        · exact Or.inl hescaped
        · exact Or.inr ⟨hIt, ⟨rest, by rw [hrest]; simp⟩, Or.inl hs⟩
        · refine Or.inr ⟨hIt, ⟨rest, by rw [hrest]; simp⟩,
            Or.inr ⟨x :: us, z, u, by rw [hv]; rfl, hIu, ?_, ht⟩⟩
          rw [hu]
          simp

end Visits

end VmodWasm.Lib.KeyedList
