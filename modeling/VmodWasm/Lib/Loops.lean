import Mathlib.Data.List.DropRight
import Mathlib.Data.List.TakeWhile

/-!
Loops with early exits, run for a bounded number of turns. A turn goes on with a
new state or leaves with a result; it has no outcome if a loop inside it has not
ended or a read was out of bounds. A loop whose turns lower a measure and keep
what the state stands for ends, with that as its result. Then three loops over the
indices of a list.
-/
namespace VmodWasm.Lib.Loops

variable {S R α : Type}

def loop (turn : S → Option (S ⊕ R)) : ℕ → S → Option R
  | 0, _ => none
  | n + 1, s =>
    (turn s).bind fun next =>
      match next with
      | .inl s => loop turn n s
      | .inr r => some r

/-- What a turn of a loop with result `f` may do. -/
def Keeps (I : S → Prop) (m : S → ℕ) (f : S → R) (s : S) (next : Option (S ⊕ R)) : Prop :=
  next = some (.inr (f s)) ∨ ∃ s', next = some (.inl s') ∧ I s' ∧ m s' < m s ∧ f s' = f s

theorem loop_eq {turn : S → Option (S ⊕ R)} {I : S → Prop} {m : S → ℕ} {f : S → R}
    (hturn : ∀ s, I s → Keeps I m f s (turn s)) (n : ℕ) (s : S) (hs : I s) (hn : m s < n) :
    loop turn n s = some (f s) := by
  induction n generalizing s with
  | zero => contradiction
  | succ n ih =>
    rw [loop]
    rcases hturn s hs with hdone | ⟨s', hnext, hs', hlt, hf⟩
    · rw [hdone]
      rfl
    · rw [hnext, ← hf]
      exact ih s' hs' (by omega)

section Indices

variable {l : List α} {p : α → Bool} {i : ℕ} {c : α}

theorem drop_of_some (h : l[i]? = some c) : i < l.length ∧ l.drop i = c :: l.drop (i + 1) := by
  obtain ⟨hlt, rfl⟩ := List.getElem?_eq_some_iff.mp h
  exact ⟨hlt, List.drop_eq_getElem_cons hlt⟩

theorem drop_of_none (h : l[i]? = none) : l.drop i = [] :=
  List.drop_eq_nil_of_le (List.getElem?_eq_none_iff.mp h)

variable (l p)

/-- Go up from `i` while the element there passes. -/
def skipTurn (i : ℕ) : Option (ℕ ⊕ ℕ) :=
  match l[i]? with
  | some c => if p c then some (.inl (i + 1)) else some (.inr i)
  | none => some (.inr i)

def skip (i : ℕ) : Option ℕ := loop (skipTurn l p) (l.length + 1) i

theorem skip_eq (i : ℕ) : skip l p i = some (i + ((l.drop i).takeWhile p).length) := by
  refine loop_eq (I := fun _ => True) (m := fun i => l.length - i)
    (f := fun i => i + ((l.drop i).takeWhile p).length) (fun i _ => ?_) _ i trivial (by omega)
  unfold skipTurn Keeps
  dsimp only
  split
  next c hc =>
    obtain ⟨hlt, hdrop⟩ := drop_of_some hc
    cases hp : p c with
    | true =>
      refine Or.inr ⟨i + 1, rfl, trivial, by omega, ?_⟩
      rw [hdrop, List.takeWhile_cons_of_pos hp, List.length_cons]
      omega
    | false =>
      refine Or.inl ?_
      rw [hdrop, List.takeWhile_cons_of_neg (by rw [hp]; exact Bool.false_ne_true)]
      rfl
  next hc =>
    refine Or.inl ?_
    rw [drop_of_none hc]
    rfl

/-- What is left behind the elements that were skipped. -/
theorem drop_skip (i : ℕ) :
    l.drop (i + ((l.drop i).takeWhile p).length) = (l.drop i).dropWhile p := by
  have hsplit := List.takeWhile_append_dropWhile (p := p) (l := l.drop i)
  have hdrop := congrArg (List.drop ((l.drop i).takeWhile p).length) hsplit
  rw [List.drop_left, List.drop_drop] at hdrop
  exact hdrop.symm

/-- Everything from `i` on was skipped. -/
theorem skip_all_iff (hi : i ≤ l.length) :
    i + ((l.drop i).takeWhile p).length = l.length ↔ (l.drop i).all p = true := by
  have hlen : (l.drop i).length = l.length - i := List.length_drop
  rw [List.all_eq_true, ← List.takeWhile_eq_self_iff]
  constructor
  · intro h
    exact (List.takeWhile_prefix p).eq_of_length (by omega)
  · intro h
    rw [h]
    omega

/-- Look for an element that passes. -/
def anyTurn (i : ℕ) : Option (ℕ ⊕ Bool) :=
  match l[i]? with
  | some c => if p c then some (.inr true) else some (.inl (i + 1))
  | none => some (.inr false)

theorem loop_any_eq : loop (anyTurn l p) (l.length + 1) 0 = some (l.any p) := by
  refine loop_eq (I := fun _ => True) (m := fun i => l.length - i)
    (f := fun i => (l.drop i).any p) (fun i _ => ?_) _ 0 trivial (by omega)
  unfold anyTurn Keeps
  dsimp only
  split
  next c hc =>
    obtain ⟨hlt, hdrop⟩ := drop_of_some hc
    cases hp : p c with
    | true =>
      refine Or.inl ?_
      rw [hdrop, List.any_cons, hp]
      rfl
    | false =>
      refine Or.inr ⟨i + 1, rfl, trivial, by omega, ?_⟩
      rw [hdrop, List.any_cons, hp, Bool.false_or]
  next hc =>
    refine Or.inl ?_
    rw [drop_of_none hc]
    rfl

/-- Go down from `stop` to `start` while the element before passes. -/
def trimTurn (start stop : ℕ) : Option (ℕ ⊕ ℕ) :=
  if start < stop then
    match l[stop - 1]? with
    | some c => if p c then some (.inl (stop - 1)) else some (.inr stop)
    | none => none
  else some (.inr stop)

def trimEnd (start stop : ℕ) : Option ℕ := loop (trimTurn l p start) (l.length + 1) stop

theorem trimEnd_eq (start stop : ℕ) (hstart : start ≤ stop) (hstop : stop ≤ l.length) :
    trimEnd l p start stop =
      some (start + (((l.drop start).take (stop - start)).rdropWhile p).length) := by
  refine loop_eq (I := fun stop => start ≤ stop ∧ stop ≤ l.length) (m := fun stop => stop)
    (f := fun stop => start + (((l.drop start).take (stop - start)).rdropWhile p).length)
    (fun stop hs => ?_) _ stop ⟨hstart, hstop⟩ (by omega)
  obtain ⟨hstart, hstop⟩ := hs
  unfold trimTurn Keeps
  dsimp only
  split
  next hlt =>
    have hget : l[stop - 1]? = some (l.get ⟨stop - 1, by omega⟩) :=
      List.getElem?_eq_getElem (by omega)
    have hsnoc : (l.drop start).take (stop - start) =
        (l.drop start).take (stop - 1 - start) ++ [l.get ⟨stop - 1, by omega⟩] := by
      have hsucc : stop - start = stop - 1 - start + 1 := by omega
      have hindex : start + (stop - 1 - start) = stop - 1 := by omega
      rw [hsucc, List.take_add_one, List.getElem?_drop, hindex, hget]
      rfl
    rw [hget]
    dsimp only
    cases hp : p (l.get ⟨stop - 1, by omega⟩) with
    | true =>
      refine Or.inr ⟨stop - 1, rfl, ⟨by omega, by omega⟩, by omega, ?_⟩
      rw [hsnoc, List.rdropWhile_concat_pos _ _ _ hp]
    | false =>
      refine Or.inl ?_
      rw [hsnoc, List.rdropWhile_concat_neg _ _ _ (by rw [hp]; exact Bool.false_ne_true), ← hsnoc,
        List.length_take, List.length_drop]
      have hlen : start + min (stop - start) (l.length - start) = stop := by omega
      rw [hlen]
      rfl
  next hge =>
    obtain rfl : stop = start := by omega
    refine Or.inl ?_
    simp

end Indices

end VmodWasm.Lib.Loops
