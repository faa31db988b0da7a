import Mathlib.Data.Multiset.AddSub
import Mathlib.Data.Multiset.Count

/-!
Tokens on their way from an issuer to a taker: a token waits, is carried by a
taker, and then has been delivered or is lost. However tokens move, each is in
one of these places; so every token waits, is carried or has been delivered,
once, exactly when none is lost.
-/
namespace VmodWasm.Lib.Custody

variable {T : Type} [DecidableEq T]

structure Ledger (T : Type) where
  waiting : Multiset T
  carried : Multiset T
  delivered : Multiset T
  lost : Multiset T
  issued : Multiset T

inductive Move : Ledger T → Ledger T → Prop
  | issue (l : Ledger T) (t : T) (hnew : t ∉ l.issued) :
      Move l { l with waiting := t ::ₘ l.waiting, issued := t ::ₘ l.issued }
  | take (l : Ledger T) (t : T) (waiting : Multiset T) (h : l.waiting = t ::ₘ waiting) :
      Move l { l with waiting := waiting, carried := t ::ₘ l.carried }
  | deliver (l : Ledger T) (t : T) (carried : Multiset T) (h : l.carried = t ::ₘ carried) :
      Move l { l with carried := carried, delivered := t ::ₘ l.delivered }
  | lose (l : Ledger T) (t : T) (carried : Multiset T) (h : l.carried = t ::ₘ carried) :
      Move l { l with carried := carried, lost := t ::ₘ l.lost }

/-- Nothing appears or disappears, and no token is issued twice. -/
structure Inv (l : Ledger T) : Prop where
  total : l.waiting + l.carried + l.delivered + l.lost = l.issued
  nodup : l.issued.Nodup

omit [DecidableEq T] in
theorem Inv.move {l l' : Ledger T} (h : Inv l) (hmove : Move l l') : Inv l' := by
  obtain ⟨total, nodup⟩ := h
  cases hmove with
  | issue t hnew =>
    refine ⟨?_, Multiset.nodup_cons.mpr ⟨hnew, nodup⟩⟩
    simp only [Multiset.cons_add, total]
  | take t waiting hw =>
    refine ⟨?_, nodup⟩
    rw [← total, hw]
    simp only [Multiset.cons_add, Multiset.add_cons]
  | deliver t carried hc =>
    refine ⟨?_, nodup⟩
    rw [← total, hc]
    simp only [Multiset.cons_add, Multiset.add_cons]
  | lose t carried hc =>
    refine ⟨?_, nodup⟩
    rw [← total, hc]
    simp only [Multiset.cons_add, Multiset.add_cons]

/-- Every issued token waits, is carried, or has been delivered, and only once. -/
def Accounted (l : Ledger T) : Prop :=
  ∀ t ∈ l.issued, l.waiting.count t + l.carried.count t + l.delivered.count t = 1

theorem accounted_iff (l : Ledger T) (h : Inv l) : Accounted l ↔ l.lost = 0 := by
  have hcount (t : T) (ht : t ∈ l.issued) :
      l.waiting.count t + l.carried.count t + l.delivered.count t + l.lost.count t = 1 := by
    rw [← Multiset.count_add, ← Multiset.count_add, ← Multiset.count_add, h.total,
      Multiset.count_eq_one_of_mem h.nodup ht]
  constructor
  · intro hall
    by_contra hlost
    obtain ⟨t, ht⟩ := Multiset.exists_mem_of_ne_zero hlost
    have hissued : t ∈ l.issued := by
      rw [← h.total]
      exact Multiset.mem_add.mpr (Or.inr ht)
    have hpos := Multiset.count_pos.mpr ht
    have hone := hcount t hissued
    have hacc := hall t hissued
    omega
  · intro hlost t ht
    have hone := hcount t ht
    rw [hlost, Multiset.count_zero] at hone
    exact hone

end VmodWasm.Lib.Custody
