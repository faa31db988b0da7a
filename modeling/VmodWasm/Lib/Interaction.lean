import Mathlib.Data.List.Basic

/-!
Interactive programs. A program is a finite tree: it ends in a result, or it
issues a call and continues with whatever reply the host gives. The tree is
the most general client of a host interface, so a statement about every tree
is a statement about every client. The host is a state-passing handler, and
the two rules below lift a fact about one handled call to a whole run.
-/
namespace VmodWasm.Lib.Interaction

inductive Prog (C R A : Type) where
  | done (a : A)
  | call (c : C) (k : R → Prog C R A)

variable {C R A S : Type}

/-- Run a program against a handler, threading the host's state. -/
def interp (handle : C → S → R × S) : Prog C R A → S → A × S
  | .done a, s => (a, s)
  | .call c k, s => interp handle (k (handle c s).1) (handle c s).2

@[simp] theorem interp_done (handle : C → S → R × S) (a : A) (s : S) :
    interp handle (.done a) s = (a, s) := rfl

theorem interp_call (handle : C → S → R × S) (c : C) (k : R → Prog C R A) (s : S) :
    interp handle (.call c k) s =
      interp handle (k (handle c s).1) (handle c s).2 := rfl

/-- A property kept by every handled call is kept by every run. -/
theorem interp_invariant (handle : C → S → R × S) (I : S → Prop)
    (hcall : ∀ c s, I s → I (handle c s).2) (p : Prog C R A) (s : S) (hs : I s) :
    I (interp handle p s).2 := by
  induction p generalizing s with
  | done a => exact hs
  | call c k ih => exact ih (handle c s).1 (handle c s).2 (hcall c s hs)

/-- A reflexive and transitive relation that every handled call respects
relates the state before a run to the state after it. -/
theorem interp_rel (handle : C → S → R × S) (Q : S → S → Prop)
    (hrefl : ∀ s, Q s s) (htrans : ∀ a b c, Q a b → Q b c → Q a c)
    (hcall : ∀ c s, Q s (handle c s).2) (p : Prog C R A) (s : S) :
    Q s (interp handle p s).2 := by
  induction p generalizing s with
  | done a => exact hrefl s
  | call c k ih =>
    exact htrans _ _ _ (hcall c s) (ih (handle c s).1 (handle c s).2)

end VmodWasm.Lib.Interaction
