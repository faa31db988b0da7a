import Mathlib.Data.Set.Card
import Mathlib.Logic.Function.Basic

/-!
Counting the parties whose state has a property, in a system of any number of
parties of which one moves at a time. A party that moves enters the count,
leaves it or does not matter to it. A sum over all parties changes by what it
changes for the party that moves.
-/
namespace VmodWasm.Lib.Tally

variable {T P : Type}

/-- Exactly `n` parties are in a state with property `p`. -/
structure Counts (p : P → Prop) (f : T → P) (n : ℕ) : Prop where
  finite : {t | p (f t)}.Finite
  card : {t | p (f t)}.ncard = n

variable {p : P → Prop} {f : T → P} {n : ℕ} {t : T} {v : P}

theorem counts_zero (h : ∀ t, ¬ p (f t)) : Counts p f 0 := by
  have hempty : {t | p (f t)} = ∅ := Set.eq_empty_iff_forall_notMem.mpr h
  exact ⟨hempty ▸ Set.finite_empty, hempty ▸ Set.ncard_empty T⟩

namespace Counts

variable [DecidableEq T]

theorem keep (h : Counts p f n) (hsame : p v ↔ p (f t)) : Counts p (Function.update f t v) n := by
  have hset : {u | p (Function.update f t v u)} = {u | p (f u)} := by
    ext u
    by_cases hu : u = t
    · simp only [Set.mem_ofPred_eq, hu, Function.update_self, hsame]
    · simp only [Set.mem_ofPred_eq, Function.update_of_ne hu]
  exact ⟨hset ▸ h.finite, hset ▸ h.card⟩

theorem enter (h : Counts p f n) (hold : ¬ p (f t)) (hnew : p v) :
    Counts p (Function.update f t v) (n + 1) := by
  have hset : {u | p (Function.update f t v u)} = insert t {u | p (f u)} := by
    ext u
    by_cases hu : u = t
    · simp only [Set.mem_ofPred_eq, Set.mem_insert_iff, hu, Function.update_self, hnew, true_or]
    · simp only [Set.mem_ofPred_eq, Set.mem_insert_iff, Function.update_of_ne hu, hu, false_or]
  have hout : t ∉ {u | p (f u)} := hold
  constructor
  · exact hset ▸ h.finite.insert t
  · rw [hset, Set.ncard_insert_of_notMem hout h.finite, h.card]

theorem leave (h : Counts p f n) (hold : p (f t)) (hnew : ¬ p v) :
    ∃ m, n = m + 1 ∧ Counts p (Function.update f t v) m := by
  have hset : {u | p (Function.update f t v u)} = {u | p (f u)} \ {t} := by
    ext u
    by_cases hu : u = t
    · simp only [Set.mem_ofPred_eq, Set.mem_sdiff, Set.mem_singleton_iff, hu, Function.update_self,
        hnew, not_true_eq_false, and_false]
    · simp only [Set.mem_ofPred_eq, Set.mem_sdiff, Set.mem_singleton_iff, Function.update_of_ne hu,
        hu, not_false_eq_true, and_true]
  have hcard : ({u | p (f u)} \ {t}).ncard + 1 = {u | p (f u)}.ncard :=
    Set.ncard_sdiff_singleton_add_one hold h.finite
  refine ⟨({u | p (f u)} \ {t}).ncard, by rw [hcard, h.card], ?_, ?_⟩
  · rw [hset]
    exact h.finite.subset Set.sdiff_subset
  · rw [hset]

end Counts

theorem sum_map_set (g : P → ℕ) {l : List P} {i : ℕ} {a : P} (h : l[i]? = some a) (b : P) :
    ((l.set i b).map g).sum + g a = (l.map g).sum + g b := by
  induction l generalizing i with
  | nil => simp at h
  | cons x l ih =>
    cases i with
    | zero =>
      obtain rfl : x = a := by simpa using h
      simp only [List.set_cons_zero, List.map_cons, List.sum_cons]
      omega
    | succ i =>
      have hrest := ih (i := i) (by simpa using h)
      simp only [List.set_cons_succ, List.map_cons, List.sum_cons]
      omega

end VmodWasm.Lib.Tally
