import Mathlib.Data.List.Basic

/-!
Labelled transition systems given by a step relation. A run lists the labels
of its steps. A condition on steps is imposed by restricting the relation, so
a run all of whose steps meet the condition is a run of the restricted one.
-/
namespace VmodWasm.Lib.Transition

variable {S L : Type}

inductive Run (step : S → L → S → Prop) : S → List L → S → Prop
  | nil (s : S) : Run step s [] s
  | cons {s s' s'' : S} {l : L} {ls : List L} :
      step s l s' → Run step s' ls s'' → Run step s (l :: ls) s''

/-- Only the steps that meet a condition on the state before them. -/
def Guarded (guard : S → L → Prop) (step : S → L → S → Prop) : S → L → S → Prop :=
  fun s l s' => guard s l ∧ step s l s'

namespace Run

variable {step : S → L → S → Prop}

/-- What holds initially and is kept by each step holds after every run. -/
theorem invariant (I : S → Prop) (hstep : ∀ s l s', step s l s' → I s → I s')
    {s s' : S} {ls : List L} (hrun : Run step s ls s') (hs : I s) : I s' := by
  induction hrun with
  | nil s => exact hs
  | cons h _ ih => exact ih (hstep _ _ _ h hs)

theorem mono {step' : S → L → S → Prop} (h : ∀ s l s', step s l s' → step' s l s') {s s' : S}
    {ls : List L} (hrun : Run step s ls s') : Run step' s ls s' := by
  induction hrun with
  | nil s => exact Run.nil s
  | cons hstep _ ih => exact Run.cons (h _ _ _ hstep) ih

theorem append {s s' s'' : S} {ls ls' : List L} (hrun : Run step s ls s')
    (hrun' : Run step s' ls' s'') : Run step s (ls ++ ls') s'' := by
  induction hrun with
  | nil s => exact hrun'
  | cons h _ ih => exact Run.cons h (ih hrun')

/-- Conditions that agree on every step allow the same runs. -/
theorem guarded_congr {guard guard' : S → L → Prop} (h : ∀ s l, guard s l ↔ guard' s l)
    (s s' : S) (ls : List L) :
    Run (Guarded guard step) s ls s' ↔ Run (Guarded guard' step) s ls s' := by
  have hsame : guard = guard' := funext fun s => funext fun l => propext (h s l)
  rw [hsame]

end Run

/-- Only the steps to states with a property. -/
def Reaching (P : S → Prop) (step : S → L → S → Prop) : S → L → S → Prop :=
  fun s l s' => step s l s' ∧ P s'

/-- A guard is exact for a property if guarded steps keep an invariant that
implies it and other steps break it at once. Then the runs with the property are
the guarded ones. -/
theorem Run.reaching_iff_guarded {step : S → L → S → Prop} {I P : S → Prop} {guard : S → L → Prop}
    (hkeep : ∀ s l s', I s → guard s l → step s l s' → I s') (hP : ∀ s, I s → P s)
    (hexact : ∀ s l s', I s → ¬ guard s l → step s l s' → ¬ P s') {s s' : S} {ls : List L}
    (hs : I s) : Run (Reaching P step) s ls s' ↔ Run (Guarded guard step) s ls s' := by
  constructor
  · intro hrun
    induction hrun with
    | nil s => exact Run.nil s
    | cons h _ ih =>
      have hguard := not_not.mp fun hnot => hexact _ _ _ hs hnot h.1 h.2
      exact Run.cons ⟨hguard, h.1⟩ (ih (hkeep _ _ _ hs hguard h.1))
  · intro hrun
    induction hrun with
    | nil s => exact Run.nil s
    | cons h _ ih =>
      have hnext := hkeep _ _ _ hs h.1 h.2
      exact Run.cons ⟨h.2, hP _ hnext⟩ (ih hnext)

/-- Execute a list of labels with a partial step function. -/
def exec (next : S → L → Option S) : S → List L → Option S
  | s, [] => some s
  | s, l :: ls => (next s l).bind fun s' => exec next s' ls

/-- A step function that first checks a condition. -/
def checked (guard : S → L → Bool) (next : S → L → Option S) (s : S) (l : L) : Option S :=
  if guard s l then next s l else none

theorem Run.of_exec {next : S → L → Option S} {s s' : S} {ls : List L}
    (h : exec next s ls = some s') : Run (fun s l s' => next s l = some s') s ls s' := by
  induction ls generalizing s with
  | nil =>
    injection h with h
    subst h
    exact Run.nil s
  | cons l ls ih =>
    obtain ⟨u, hu, hrest⟩ := Option.bind_eq_some_iff.mp h
    exact Run.cons hu (ih hrest)

theorem Run.of_checked {guard : S → L → Bool} {next : S → L → Option S} {s s' : S} {ls : List L}
    (h : exec (checked guard next) s ls = some s') :
    Run (Guarded (fun s l => guard s l = true) fun s l s' => next s l = some s') s ls s' := by
  induction ls generalizing s with
  | nil =>
    injection h with h
    subst h
    exact Run.nil s
  | cons l ls ih =>
    obtain ⟨u, hu, hrest⟩ := Option.bind_eq_some_iff.mp h
    unfold checked at hu
    split at hu
    next hguard => exact Run.cons ⟨hguard, hu⟩ (ih hrest)
    next => contradiction

end VmodWasm.Lib.Transition
