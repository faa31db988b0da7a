import Mathlib.Logic.Function.Basic
import VmodWasm.Lib.Transition

/-!
Slots that are claimed by parties and carry a flag. A claim is safe when it
only takes slots whose flag is down. A system all of whose steps are claims,
drops and nothing else, under some abstraction of its states, never gives a
slot to two parties.
-/
namespace VmodWasm.Lib.SlotClaims

open Transition

variable {T I : Type} [DecidableEq T] [DecidableEq I]

structure Claims (T I : Type) where
  owner : T → Option I
  taken : I → Bool

/-- One slot, one owner; an owned slot has its flag up. -/
structure Exclusive (c : Claims T I) : Prop where
  unique : ∀ t u i, c.owner t = some i → c.owner u = some i → t = u
  flagged : ∀ t i, c.owner t = some i → c.taken i = true

def Keep (c c' : Claims T I) : Prop := c'.owner = c.owner ∧ c'.taken = c.taken

/-- Party `t` takes a slot whose flag is down. -/
def Claim (c c' : Claims T I) (t : T) (i : I) : Prop :=
  c.taken i = false ∧ c'.owner = Function.update c.owner t (some i) ∧
    c'.taken = Function.update c.taken i true

/-- Party `t` gives its slot back. -/
def Drop (c c' : Claims T I) (t : T) (i : I) : Prop :=
  c.owner t = some i ∧ c'.owner = Function.update c.owner t none ∧
    c'.taken = Function.update c.taken i false

def Move (c c' : Claims T I) : Prop :=
  Keep c c' ∨ (∃ t i, Claim c c' t i) ∨ ∃ t i, Drop c c' t i

theorem Exclusive.claim {c c' : Claims T I} {t : T} {i : I} (h : Exclusive c)
    (hclaim : Claim c c' t i) : Exclusive c' := by
  obtain ⟨hfree, howner, htaken⟩ := hclaim
  have hnone : ∀ u, c.owner u ≠ some i := by
    intro u hu
    rw [h.flagged u i hu] at hfree
    contradiction
  constructor
  · intro u v j hu hv
    rw [howner] at hu hv
    by_cases hut : u = t <;> by_cases hvt : v = t
    · rw [hut, hvt]
    · rw [hut, Function.update_self] at hu
      rw [Function.update_of_ne hvt, ← hu] at hv
      exact absurd hv (hnone v)
    · rw [hvt, Function.update_self] at hv
      rw [Function.update_of_ne hut, ← hv] at hu
      exact absurd hu (hnone u)
    · rw [Function.update_of_ne hut] at hu
      rw [Function.update_of_ne hvt] at hv
      exact h.unique u v j hu hv
  · intro u j hu
    rw [htaken]
    by_cases hji : j = i
    · rw [hji, Function.update_self]
    · rw [Function.update_of_ne hji]
      rw [howner] at hu
      by_cases hut : u = t
      · rw [hut, Function.update_self, Option.some.injEq] at hu
        exact absurd hu.symm hji
      · rw [Function.update_of_ne hut] at hu
        exact h.flagged u j hu

theorem Exclusive.drop {c c' : Claims T I} {t : T} {i : I} (h : Exclusive c)
    (hdrop : Drop c c' t i) : Exclusive c' := by
  obtain ⟨hown, howner, htaken⟩ := hdrop
  have hold : ∀ u j, c'.owner u = some j → u ≠ t ∧ c.owner u = some j := by
    intro u j hu
    rw [howner] at hu
    by_cases hut : u = t
    · rw [hut, Function.update_self] at hu
      contradiction
    · rw [Function.update_of_ne hut] at hu
      exact ⟨hut, hu⟩
  constructor
  · intro u v j hu hv
    exact h.unique u v j (hold u j hu).2 (hold v j hv).2
  · intro u j hu
    obtain ⟨hut, hu⟩ := hold u j hu
    have hji : j ≠ i := fun hji => hut (h.unique u t i (hji ▸ hu) hown)
    rw [htaken, Function.update_of_ne hji]
    exact h.flagged u j hu

theorem Exclusive.move {c c' : Claims T I} (h : Exclusive c) (hmove : Move c c') :
    Exclusive c' := by
  rcases hmove with ⟨howner, htaken⟩ | ⟨t, i, hclaim⟩ | ⟨t, i, hdrop⟩
  · exact ⟨by rw [howner]; exact h.unique, by rw [howner, htaken]; exact h.flagged⟩
  · exact h.claim hclaim
  · exact h.drop hdrop

/-- Every flag that is up has an owner. -/
def Accounted (c : Claims T I) : Prop := ∀ i, c.taken i = true → ∃ t, c.owner t = some i

theorem Accounted.claim {c c' : Claims T I} {t : T} {i : I} (h : Accounted c)
    (hidle : c.owner t = none) (hclaim : Claim c c' t i) : Accounted c' := by
  obtain ⟨-, howner, htaken⟩ := hclaim
  intro j hj
  by_cases hji : j = i
  · exact ⟨t, by rw [howner, Function.update_self, hji]⟩
  · rw [htaken, Function.update_of_ne hji] at hj
    obtain ⟨u, hu⟩ := h j hj
    have hut : u ≠ t := by
      intro hut
      rw [hut, hidle] at hu
      contradiction
    exact ⟨u, by rw [howner, Function.update_of_ne hut, hu]⟩

theorem Accounted.drop {c c' : Claims T I} {t : T} {i : I} (h : Accounted c)
    (hdrop : Drop c c' t i) : Accounted c' := by
  obtain ⟨hown, howner, htaken⟩ := hdrop
  intro j hj
  rw [htaken] at hj
  have hji : j ≠ i := by
    intro hji
    rw [hji, Function.update_self] at hj
    contradiction
  rw [Function.update_of_ne hji] at hj
  obtain ⟨u, hu⟩ := h j hj
  have hut : u ≠ t := by
    intro hut
    rw [hut, hown, Option.some.injEq] at hu
    exact hji hu.symm
  exact ⟨u, by rw [howner, Function.update_of_ne hut, hu]⟩

/-- A move in which only a party without a slot takes one. -/
def Exchange (c c' : Claims T I) : Prop :=
  Keep c c' ∨ (∃ t i, c.owner t = none ∧ Claim c c' t i) ∨ ∃ t i, Drop c c' t i

theorem Exchange.move {c c' : Claims T I} (h : Exchange c c') : Move c c' := by
  rcases h with hkeep | ⟨t, i, -, hclaim⟩ | hdrop
  · exact Or.inl hkeep
  · exact Or.inr (Or.inl ⟨t, i, hclaim⟩)
  · exact Or.inr (Or.inr hdrop)

theorem Accounted.exchange {c c' : Claims T I} (h : Accounted c) (hmove : Exchange c c') :
    Accounted c' := by
  rcases hmove with ⟨howner, htaken⟩ | ⟨t, i, hidle, hclaim⟩ | ⟨t, i, hdrop⟩
  · intro i hi
    rw [htaken] at hi
    rw [howner]
    exact h i hi
  · exact h.claim hidle hclaim
  · exact h.drop hdrop

/-- A system that simulates safe moves keeps its slots exclusive in every run. -/
theorem exclusive_of_run {S L : Type} {step : S → L → S → Prop} (claims : S → Claims T I)
    (hsim : ∀ s l s', step s l s' → Move (claims s) (claims s')) {s s' : S} {ls : List L}
    (hrun : Run step s ls s') (hs : Exclusive (claims s)) : Exclusive (claims s') :=
  hrun.invariant (fun s => Exclusive (claims s))
    (fun s l s' hstep h => h.move (hsim s l s' hstep)) hs

end VmodWasm.Lib.SlotClaims
