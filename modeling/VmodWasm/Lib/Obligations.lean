import VmodWasm.Lib.Interaction

/-!
Obligations of interactive programs. Replies are the environment's, within what
is possible, and a program is judged by its calls, each in the state that the
calls before it have left. `Throughout` says that every call of every run is in
order, and what then holds of the result; `Possibly` says that some run comes to
a call of a certain kind. The rules of both are equivalences, so that a
statement about a program unfolds into statements about its calls.
-/
namespace VmodWasm.Lib.Obligations

open Interaction

variable {C R A B S : Type}

def bind (p : Prog C R A) (f : A → Prog C R B) : Prog C R B :=
  match p with
  | .done a => f a
  | .call c k => .call c fun r => bind (k r) f

instance : Monad (Prog C R) where
  pure := .done
  bind := bind

/-- One call, with its reply as the result. -/
def perform (c : C) : Prog C R R := .call c .done

/-- Which replies a call can get, what is in order, and how states go on. -/
structure Rules (C R S : Type) where
  possible : C → R → Prop
  ok : S → C → R → Prop
  next : S → C → R → S

variable (ρ : Rules C R S)

/-- Every call of every run is in order, and results meet `Q`. -/
def Throughout (Q : A → S → Prop) : Prog C R A → S → Prop
  | .done a, s => Q a s
  | .call c k, s => ∀ r, ρ.possible c r → ρ.ok s c r ∧ Throughout Q (k r) (ρ.next s c r)

@[simp] theorem throughout_pure (Q : A → S → Prop) (a : A) (s : S) :
    Throughout ρ Q (pure a) s ↔ Q a s := Iff.rfl

@[simp] theorem throughout_perform (Q : R → S → Prop) (c : C) (s : S) :
    Throughout ρ Q (perform c) s ↔
      ∀ r, ρ.possible c r → ρ.ok s c r ∧ Q r (ρ.next s c r) := Iff.rfl

@[simp] theorem throughout_bind (Q : B → S → Prop) (p : Prog C R A) (f : A → Prog C R B) (s : S) :
    Throughout ρ Q (p >>= f) s ↔ Throughout ρ (fun a s' => Throughout ρ Q (f a) s') p s := by
  induction p generalizing s with
  | done a => exact Iff.rfl
  | call c k ih => exact forall₂_congr fun r _ => and_congr_right fun _ => ih r _

theorem Throughout.mono {Q Q' : A → S → Prop} {p : Prog C R A} {s : S} (h : Throughout ρ Q p s)
    (hQ : ∀ a s', Q a s' → Q' a s') : Throughout ρ Q' p s := by
  induction p generalizing s with
  | done a => exact hQ a s h
  | call c k ih => exact fun r hr => ⟨(h r hr).1, ih r (h r hr).2⟩

/-- Some run comes to a call that meets `V`, or ends with a result that meets `Q`. -/
def Possibly (V : S → C → Prop) (Q : A → S → Prop) : Prog C R A → S → Prop
  | .done a, s => Q a s
  | .call c k, s => V s c ∨ ∃ r, ρ.possible c r ∧ Possibly V Q (k r) (ρ.next s c r)

@[simp] theorem possibly_pure (V : S → C → Prop) (Q : A → S → Prop) (a : A) (s : S) :
    Possibly ρ V Q (pure a) s ↔ Q a s := Iff.rfl

theorem possibly_perform (V : S → C → Prop) (Q : R → S → Prop) (c : C) (s : S) :
    Possibly ρ V Q (perform c) s ↔ V s c ∨ ∃ r, ρ.possible c r ∧ Q r (ρ.next s c r) := Iff.rfl

@[simp] theorem possibly_bind (V : S → C → Prop) (Q : B → S → Prop) (p : Prog C R A)
    (f : A → Prog C R B) (s : S) :
    Possibly ρ V Q (p >>= f) s ↔ Possibly ρ V (fun a s' => Possibly ρ V Q (f a) s') p s := by
  induction p generalizing s with
  | done a => exact Iff.rfl
  | call c k ih =>
    exact or_congr_right (exists_congr fun r => and_congr_right fun _ => ih r _)

theorem Possibly.mono {V V' : S → C → Prop} {Q Q' : A → S → Prop} {p : Prog C R A} {s : S}
    (h : Possibly ρ V Q p s) (hV : ∀ s' c, V s' c → V' s' c) (hQ : ∀ a s', Q a s' → Q' a s') :
    Possibly ρ V' Q' p s := by
  induction p generalizing s with
  | done a => exact hQ a s h
  | call c k ih =>
    rcases h with h | ⟨r, hr, h⟩
    · exact Or.inl (hV s c h)
    · exact Or.inr ⟨r, hr, ih r h⟩

/-- A program that is in order throughout comes to no call that is not. -/
theorem Throughout.not_possibly {Q : A → S → Prop} {p : Prog C R A} {s : S}
    (h : Throughout ρ Q p s) :
    ¬ Possibly ρ (fun s' c => ∃ r, ρ.possible c r ∧ ¬ ρ.ok s' c r) (fun a s' => ¬ Q a s') p s := by
  induction p generalizing s with
  | done a => exact fun hne => hne h
  | call c k ih =>
    rintro (⟨r, hr, hnot⟩ | ⟨r, hr, hrest⟩)
    · exact hnot (h r hr).1
    · exact ih r (h r hr).2 hrest

end VmodWasm.Lib.Obligations
