import Mathlib.Data.List.Basic

/-!
A ledger of resources that are taken and dropped. Taking numbers a resource by
its position; a drop names the number and the resource it was told to drop. A
ledger is balanced with respect to the numbers still held when every other
resource has been dropped exactly once.
-/
namespace VmodWasm.Lib.ResourceLedger

structure Ledger (R : Type) where
  taken : List R := []
  drops : List (ℕ × R) := []

namespace Ledger

variable {R : Type}

def take (l : Ledger R) (r : R) : Ledger R := { l with taken := l.taken ++ [r] }

def drop (l : Ledger R) (i : ℕ) (r : R) : Ledger R := { l with drops := l.drops ++ [(i, r)] }

/-- What was dropped under a number, in order. -/
def dropsOf (l : Ledger R) (i : ℕ) : List R := (l.drops.filter fun d => d.1 = i).map Prod.snd

@[simp] theorem dropsOf_drop_self (l : Ledger R) (i : ℕ) (r : R) :
    (l.drop i r).dropsOf i = l.dropsOf i ++ [r] := by
  simp [dropsOf, drop]

theorem dropsOf_drop_ne (l : Ledger R) (i j : ℕ) (r : R) (h : i ≠ j) :
    (l.drop i r).dropsOf j = l.dropsOf j := by
  simp [dropsOf, drop, h]

/-- `Held` are the numbers not yet dropped. -/
structure Balanced (l : Ledger R) (Held : ℕ → Prop) : Prop where
  held : ∀ i, Held i → i < l.taken.length ∧ l.dropsOf i = []
  once : ∀ i r, l.taken[i]? = some r → ¬ Held i → l.dropsOf i = [r]
  fresh : ∀ i, l.taken.length ≤ i → l.dropsOf i = []

theorem balanced_empty : Balanced ({} : Ledger R) fun _ => False where
  held _ h := h.elim
  once _ _ h := by simp at h
  fresh _ _ := rfl

theorem Balanced.congr {l : Ledger R} {H H' : ℕ → Prop} (h : Balanced l H)
    (heq : ∀ i, H i ↔ H' i) : Balanced l H' := by
  have : H = H' := funext fun i => propext (heq i)
  exact this ▸ h

/-- A new resource is held under the next number. -/
theorem Balanced.take {l : Ledger R} {H : ℕ → Prop} (h : Balanced l H) (r : R) :
    Balanced (l.take r) fun i => H i ∨ i = l.taken.length := by
  have hlen : (l.take r).taken.length = l.taken.length + 1 := by simp [Ledger.take]
  constructor
  · rintro i (hi | hi)
    · obtain ⟨hlt, hnone⟩ := h.held i hi
      exact ⟨by omega, hnone⟩
    · exact ⟨by omega, h.fresh i (by omega)⟩
  · intro i r' hr' hnot
    push Not at hnot
    refine h.once i r' ?_ hnot.1
    simp only [Ledger.take] at hr'
    have hi : i < l.taken.length := by
      have hlt := (List.getElem?_eq_some_iff.mp hr').1
      rw [List.length_append, List.length_singleton] at hlt
      omega
    rwa [List.getElem?_append_left hi] at hr'
  · intro i hi
    exact h.fresh i (by omega)

/-- A held resource is dropped as what it was taken. -/
theorem Balanced.drop {l : Ledger R} {H : ℕ → Prop} (h : Balanced l H) (i : ℕ) (r : R)
    (hi : H i) (hr : l.taken[i]? = some r) :
    Balanced (l.drop i r) fun j => H j ∧ j ≠ i := by
  constructor
  · rintro j ⟨hj, hne⟩
    rw [dropsOf_drop_ne l i j r (Ne.symm hne)]
    exact h.held j hj
  · intro j r' hr' hnot
    by_cases hji : j = i
    · subst hji
      have hrr : r = r' := Option.some.inj (hr.symm.trans hr')
      rw [dropsOf_drop_self, (h.held j hi).2, hrr]
      rfl
    · rw [dropsOf_drop_ne l i j r (Ne.symm hji)]
      exact h.once j r' hr' fun hj => hnot ⟨hj, hji⟩
  · intro j hj
    have hlt : i < l.taken.length := (h.held i hi).1
    have hge : l.taken.length ≤ j := hj
    rw [dropsOf_drop_ne l i j r (by omega)]
    exact h.fresh j hj

/-- Nothing is ever dropped twice. -/
theorem Balanced.length_dropsOf_le {l : Ledger R} {H : ℕ → Prop} (h : Balanced l H) (i : ℕ) :
    (l.dropsOf i).length ≤ 1 := by
  by_cases hi : H i
  · simp [(h.held i hi).2]
  · cases hr : l.taken[i]? with
    | none => simp [h.fresh i (List.getElem?_eq_none_iff.mp hr)]
    | some r => simp [h.once i r hr hi]

end Ledger

end VmodWasm.Lib.ResourceLedger
