import Mathlib.Data.List.Basic
import Mathlib.Data.List.Infix
import Mathlib.Data.List.Induction

/-!
Machines that answer: a step takes a label to an answer and a new state. What
such a machine does over a history is compared with another one by a relation
on states that steps keep, as long as the labels are in order for the state of
the second machine.
-/
namespace VmodWasm.Lib.Mealy

variable {S T L A : Type}

/-- The state after a history. -/
def after (step : S → L → A × S) (s : S) (ls : List L) : S := ls.foldl (fun s l => (step s l).2) s

/-- What the machine answers to `l` after a history. -/
def answer (step : S → L → A × S) (s : S) (ls : List L) (l : L) : A := (step (after step s ls) l).1

variable (step : S → L → A × S)

theorem after_snoc (s : S) (ls : List L) (l : L) :
    after step s (ls ++ [l]) = (step (after step s ls) l).2 := by
  simp [after]

theorem after_append (s : S) (ls ls' : List L) :
    after step s (ls ++ ls') = after step (after step s ls) ls' := by
  simp [after]

/-- What the steps of a history keep holds after it. -/
theorem after_keeps (I : S → Prop) (s : S) (h : I s) (ls : List L)
    (hstep : ∀ s, ∀ l ∈ ls, I s → I (step s l).2) : I (after step s ls) := by
  induction ls generalizing s with
  | nil => exact h
  | cons l ls ih =>
    exact ih _ (hstep s l List.mem_cons_self h) fun s' l' hl' =>
      hstep s' l' (List.mem_cons_of_mem l hl')

/-- What steps keep holds after every history. -/
theorem after_invariant (I : S → Prop) (hstep : ∀ s l, I s → I (step s l).2) (s : S) (h : I s)
    (ls : List L) : I (after step s ls) :=
  after_keeps step I s h ls fun s l _ => hstep s l

/-- The labels of a history with what the machine answers to them. -/
def transcript : S → List L → List (L × A)
  | _, [] => []
  | s, l :: ls => (l, (step s l).1) :: transcript (step s l).2 ls

theorem transcript_snoc (s : S) (ls : List L) (l : L) :
    transcript step s (ls ++ [l]) = transcript step s ls ++ [(l, answer step s ls l)] := by
  induction ls generalizing s with
  | nil => rfl
  | cons m ls ih =>
    rw [List.cons_append, transcript, ih]
    rfl

/-- The labels of a history are in order, each for the state it finds. -/
def InOrder (Ok : S → L → Prop) (s : S) (ls : List L) : Prop :=
  ∀ pre l, pre ++ [l] <+: ls → Ok (after step s pre) l

theorem InOrder.nil {Ok : S → L → Prop} {s : S} : InOrder step Ok s [] := fun _ _ h => by
  simp at h

theorem InOrder.cons {Ok : S → L → Prop} {s : S} {l : L} {ls : List L} (hl : Ok s l)
    (h : InOrder step Ok (step s l).2 ls) : InOrder step Ok s (l :: ls) := by
  intro pre l' hpre
  cases pre with
  | nil =>
    obtain ⟨rfl, -⟩ := List.cons_prefix_cons.mp hpre
    exact hl
  | cons m pre =>
    obtain ⟨rfl, hrest⟩ := List.cons_prefix_cons.mp hpre
    exact h pre l' hrest

theorem InOrder.left {Ok : S → L → Prop} {s : S} {ls ls' : List L}
    (h : InOrder step Ok s (ls ++ ls')) : InOrder step Ok s ls :=
  fun pre l hpre => h pre l (hpre.trans (List.prefix_append ..))

theorem InOrder.last {Ok : S → L → Prop} {s : S} {ls : List L} {l : L}
    (h : InOrder step Ok s (ls ++ [l])) : Ok (after step s ls) l :=
  h ls l List.prefix_rfl

/-- A relation that steps keep holds after every history that is in order. -/
theorem after_related (step' : T → L → A × T) (R : S → T → Prop) (Ok : T → L → Prop)
    (hstep : ∀ s t l, R s t → Ok t l → R (step s l).2 (step' t l).2) (s : S) (t : T) (h : R s t)
    (ls : List L) (hls : InOrder step' Ok t ls) : R (after step s ls) (after step' t ls) := by
  induction ls using List.reverseRecOn with
  | nil => exact h
  | append_singleton ls l ih =>
    rw [after_snoc, after_snoc]
    exact hstep _ _ l (ih hls.left) hls.last

section Counting

variable (P : S → L → Prop) [∀ s l, Decidable (P s l)]

/-- The number of steps of a history at which `P` holds. -/
def countSteps : S → List L → ℕ
  | _, [] => 0
  | s, l :: ls => (if P s l then 1 else 0) + countSteps (step s l).2 ls

theorem countSteps_snoc (s : S) (ls : List L) (l : L) :
    countSteps step P s (ls ++ [l]) =
      countSteps step P s ls + if P (after step s ls) l then 1 else 0 := by
  induction ls generalizing s with
  | nil => exact Nat.add_comm _ 0
  | cons m ls ih =>
    rw [List.cons_append, countSteps, countSteps, ih, Nat.add_assoc]
    rfl

/-- A count passes through every number below it. -/
theorem exists_countSteps_eq (s : S) (ls : List L) (n : ℕ) (h : n ≤ countSteps step P s ls) :
    ∃ pre, pre <+: ls ∧ countSteps step P s pre = n := by
  induction ls using List.reverseRecOn with
  | nil => exact ⟨[], List.prefix_rfl, (Nat.le_zero.mp h).symm⟩
  | append_singleton ls l ih =>
    rcases Nat.lt_or_ge (countSteps step P s ls) n with hlt | hge
    · refine ⟨ls ++ [l], List.prefix_rfl, ?_⟩
      have hone : (if P (after step s ls) l then 1 else 0) ≤ 1 := by split <;> omega
      rw [countSteps_snoc] at h ⊢
      omega
    · obtain ⟨pre, hpre, hcount⟩ := ih hge
      exact ⟨pre, hpre.trans (List.prefix_append ..), hcount⟩

theorem countSteps_le_of_prefix (s : S) (pre ls : List L) (h : pre <+: ls) :
    countSteps step P s pre ≤ countSteps step P s ls := by
  obtain ⟨rest, rfl⟩ := h
  induction rest using List.reverseRecOn with
  | nil => rw [List.append_nil]
  | append_singleton rest l ih =>
    rw [← List.append_assoc, countSteps_snoc]
    omega

end Counting

end VmodWasm.Lib.Mealy
