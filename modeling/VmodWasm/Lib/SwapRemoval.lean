import Mathlib.Data.List.Basic

/-!
Removal from an array by moving the last element into the hole. The elements
that are left are those that should be left, and the moved one may have lost its
place among them.
-/
namespace VmodWasm.Lib.SwapRemoval

variable {α : Type}

def swapRemove (l : List α) (i : ℕ) : List α :=
  match l.getLast? with
  | none => []
  | some y => (if i < l.length - 1 then l.set i y else l).dropLast

/-- The last element before the others. -/
def lastFirst (l : List α) : List α := l.getLast?.toList ++ l.dropLast

@[simp]
theorem lastFirst_nil : lastFirst ([] : List α) = [] := rfl

@[simp]
theorem lastFirst_concat (l : List α) (y : α) : lastFirst (l ++ [y]) = y :: l := by
  simp [lastFirst]

/-- What stands behind the hole is rotated by one. -/
theorem swapRemove_append (a : List α) (x : α) (b : List α) :
    swapRemove (a ++ x :: b) a.length = a ++ lastFirst b := by
  rcases List.eq_nil_or_concat' b with rfl | ⟨m, y, rfl⟩
  · simp [swapRemove]
  · have hlast : (a ++ x :: (m ++ [y])).getLast? = some y := by
      rw [← List.cons_append, ← List.append_assoc, List.getLast?_concat]
    have hlt : a.length < (a ++ x :: (m ++ [y])).length - 1 := by
      simp only [List.length_append, List.length_cons]
      omega
    have hset : (a ++ x :: (m ++ [y])).set a.length y = (a ++ y :: m) ++ [y] := by
      rw [List.set_append_right _ _ (Nat.le_refl _), Nat.sub_self]
      simp
    rw [swapRemove, hlast]
    simp only [if_pos hlt, hset, List.dropLast_concat, lastFirst_concat]

theorem length_swapRemove (l : List α) (i : ℕ) : (swapRemove l i).length = l.length - 1 := by
  rw [swapRemove]
  cases hlast : l.getLast? with
  | none => simp [List.getLast?_eq_none_iff.mp hlast]
  | some y =>
    dsimp only
    split <;> simp

theorem perm_lastFirst (l : List α) : (lastFirst l).Perm l := by
  rcases List.eq_nil_or_concat' l with rfl | ⟨m, y, rfl⟩
  · exact List.Perm.refl _
  · rw [lastFirst_concat]
    exact List.perm_append_singleton y m |>.symm

theorem cons_eq_concat_iff (y : α) (l : List α) : y :: l = l ++ [y] ↔ ∀ e ∈ l, e = y := by
  induction l with
  | nil => simp
  | cons x l ih =>
    rw [List.cons_append, List.cons.injEq, List.forall_mem_cons]
    constructor
    · intro h
      obtain ⟨rfl, hrest⟩ := h
      exact ⟨rfl, ih.mp hrest⟩
    · intro h
      obtain ⟨rfl, hall⟩ := h
      exact ⟨rfl, ih.mpr hall⟩

/-- The elements of a kind keep their order exactly if the moved one is not among
them, or cannot be told from those it passes. -/
theorem filter_lastFirst_eq_iff (p : α → Bool) (l : List α) :
    (lastFirst l).filter p = l.filter p ↔
      ∀ y, l.getLast? = some y → p y = true → ∀ e ∈ l, p e = true → e = y := by
  rcases List.eq_nil_or_concat' l with rfl | ⟨m, y, rfl⟩
  · simp
  · rw [lastFirst_concat, List.getLast?_concat]
    simp only [Option.some.injEq, forall_eq']
    cases hp : p y with
    | false => simp [hp]
    | true =>
      have hcons := cons_eq_concat_iff y (m.filter p)
      simp only [List.mem_filter, and_imp] at hcons
      simp only [List.filter_cons, List.filter_append, hp, if_true, List.filter_nil, true_implies,
        List.mem_append, List.mem_singleton]
      rw [hcons]
      constructor
      · intro hall e he hpe
        rcases he with he | he
        · exact hall e he hpe
        · exact he
      · intro hall e he hpe
        exact hall e (Or.inl he) hpe

end VmodWasm.Lib.SwapRemoval
