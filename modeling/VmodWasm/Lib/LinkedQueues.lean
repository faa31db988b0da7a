import Mathlib.Data.List.Nodup
import Mathlib.Logic.Function.Basic

/-!
Queues as singly linked lists in a heap, with a pointer to the first and one to
the last node. Appending links a new node behind the last one, taking out frees
the first one. Both go through pointers and fail at one that points to nothing.
A queue is well linked if its nodes form a chain from the first to the last;
then the operations do not fail and are those on lists, and they touch no other
nodes than their own.
-/
namespace VmodWasm.Lib.LinkedQueues

variable {A V : Type} [DecidableEq A]

structure Node (A V : Type) where
  value : V
  next : Option A

abbrev Heap (A V : Type) := A → Option (Node A V)

structure Ends (A : Type) where
  head : Option A := none
  tail : Option A := none
  deriving DecidableEq

/-- Put the node `a` at the end. -/
def append (h : Heap A V) (e : Ends A) (a : A) (v : V) : Option (Heap A V × Ends A) :=
  let h := Function.update h a (some ⟨v, none⟩)
  match e.tail with
  | none => some (h, ⟨some a, some a⟩)
  | some t =>
    (h t).map fun n => (Function.update h t (some { n with next := some a }), ⟨e.head, some a⟩)

/-- Take out the first node and free it. -/
def pop (h : Heap A V) (e : Ends A) : Option (V × Heap A V × Ends A) :=
  e.head.bind fun a => (h a).map fun n =>
    (n.value, Function.update h a none, ⟨n.next, if n.next = none then none else e.tail⟩)

/-- From `p` the links lead through these nodes, which hold these values. -/
inductive Chain (h : Heap A V) : Option A → List A → List V → Prop
  | nil : Chain h none [] []
  | cons {a : A} {v : V} {next : Option A} {as : List A} {vs : List V} :
      h a = some ⟨v, next⟩ → Chain h next as vs → Chain h (some a) (a :: as) (v :: vs)

/-- The nodes of a queue and their values, in order. -/
structure Linked (h : Heap A V) (e : Ends A) (as : List A) (vs : List V) : Prop where
  chain : Chain h e.head as vs
  last : e.tail = as.getLast?
  nodup : as.Nodup

variable {h h' : Heap A V} {p : Option A} {e : Ends A} {a t : A} {as : List A} {v : V} {vs : List V}

omit [DecidableEq A] in
theorem Chain.allocated (hc : Chain h p as vs) : ∀ b ∈ as, h b ≠ none := by
  induction hc with
  | nil => simp
  | cons ha _ ih =>
    intro b hb
    rcases List.mem_cons.mp hb with rfl | hb
    · simp [ha]
    · exact ih b hb

omit [DecidableEq A] in
/-- A chain does not see what happens to other nodes. -/
theorem Chain.frame (hc : Chain h p as vs) (hsame : ∀ b ∈ as, h' b = h b) : Chain h' p as vs := by
  induction hc with
  | nil => exact .nil
  | cons ha _ ih =>
    refine .cons ((hsame _ List.mem_cons_self).trans ha) (ih fun b hb => ?_)
    exact hsame b (List.mem_cons_of_mem _ hb)

omit [DecidableEq A] in
theorem Linked.frame (hl : Linked h e as vs) (hsame : ∀ b ∈ as, h' b = h b) : Linked h' e as vs :=
  ⟨hl.chain.frame hsame, hl.last, hl.nodup⟩

omit [DecidableEq A] in
theorem Linked.head_eq (hl : Linked h e as vs) : e.head = as.head? := by
  obtain ⟨hc, -, -⟩ := hl
  generalize e.head = p at *
  cases hc <;> rfl

omit [DecidableEq A] in
theorem Linked.length_eq (hl : Linked h e as vs) : as.length = vs.length := by
  obtain ⟨hc, -, -⟩ := hl
  generalize e.head = p at hc
  induction hc with
  | nil => rfl
  | cons _ _ ih => rw [List.length_cons, ih, List.length_cons]

omit [DecidableEq A] in
theorem Linked.exists_cons (hl : Linked h e as (v :: vs)) : ∃ a as', as = a :: as' := by
  refine List.exists_cons_of_length_pos ?_
  rw [hl.length_eq]
  exact Nat.succ_pos _

omit [DecidableEq A] in
/-- The last pointer is set if the first one is, and only then. -/
theorem Linked.tail_eq_none_iff (hl : Linked h e as vs) : e.tail = none ↔ e.head = none := by
  rw [hl.last, hl.head_eq, List.getLast?_eq_none_iff, List.head?_eq_none_iff]

/-- The last node of a chain gets a successor. -/
theorem Chain.snoc (hc : Chain h p as vs) (hnodup : as.Nodup) (ha : h a = none)
    (hlast : as.getLast? = some t) (v : V) :
    ∃ n, h t = some n ∧
      Chain (Function.update (Function.update h a (some ⟨v, none⟩)) t
        (some { n with next := some a })) p (as ++ [a]) (vs ++ [v]) := by
  induction hc with
  | nil => contradiction
  | @cons b w next bs ws hb hrest ih =>
    have hne (c : A) (hc : h c ≠ none) : c ≠ a := by
      rintro rfl
      exact hc ha
    obtain ⟨hbs, hnodup⟩ := List.nodup_cons.mp hnodup
    cases hrest with
    | nil =>
      obtain rfl : b = t := by simpa using hlast
      refine ⟨_, hb, .cons (Function.update_self ..) (.cons ?_ .nil)⟩
      rw [Function.update_of_ne (Ne.symm (hne b (by simp [hb]))), Function.update_self]
    | @cons c x next' cs xs hcell hrest' =>
      rw [List.getLast?_cons_cons] at hlast
      obtain ⟨n, hn, hchain⟩ := ih hnodup hlast
      refine ⟨n, hn, .cons ?_ hchain⟩
      have hbt : b ≠ t := by
        rintro rfl
        exact hbs (List.mem_of_getLast? hlast)
      rw [Function.update_of_ne hbt, Function.update_of_ne (hne b (by simp [hb])), hb]

/-- Appending a new node to a linked queue. -/
theorem Linked.append (hl : Linked h e as vs) (ha : h a = none) (v : V) :
    ∃ h' e', LinkedQueues.append h e a v = some (h', e') ∧ Linked h' e' (as ++ [a]) (vs ++ [v]) ∧
      ∀ b, b ≠ a → b ∉ as → h' b = h b := by
  have hnew : a ∉ as := fun hmem => hl.chain.allocated a hmem ha
  have hnodup : (as ++ [a]).Nodup := by
    rw [List.nodup_append]
    refine ⟨hl.nodup, List.nodup_singleton a, ?_⟩
    intro b hb c hc heq
    rw [List.mem_singleton.mp hc] at heq
    exact hnew (heq ▸ hb)
  rcases htail : e.tail with _ | t
  · obtain rfl : as = [] := List.getLast?_eq_none_iff.mp (hl.last.symm.trans htail)
    obtain rfl : vs = [] := List.length_eq_zero_iff.mp hl.length_eq.symm
    refine ⟨_, ⟨some a, some a⟩, by rw [LinkedQueues.append, htail],
      ⟨.cons (Function.update_self ..) .nil, rfl, hnodup⟩, ?_⟩
    intro b hb _
    exact Function.update_of_ne hb ..
  · have hlast := hl.last.symm.trans htail
    obtain ⟨n, hn, hchain⟩ := hl.chain.snoc hl.nodup ha hlast v
    have hta : t ≠ a := by
      rintro rfl
      rw [ha] at hn
      contradiction
    refine ⟨_, ⟨e.head, some a⟩, ?_, ⟨hchain, ?_, hnodup⟩, ?_⟩
    · rw [LinkedQueues.append, htail]
      dsimp only
      rw [Function.update_of_ne hta, hn]
      rfl
    · rw [List.getLast?_concat]
    · intro b hb hout
      have hbt : b ≠ t := by
        rintro rfl
        exact hout (List.mem_of_getLast? hlast)
      rw [Function.update_of_ne hbt, Function.update_of_ne hb]

/-- Taking out the first node of a linked queue. -/
theorem Linked.pop (hl : Linked h e (a :: as) (v :: vs)) :
    ∃ h' e', LinkedQueues.pop h e = some (v, h', e') ∧ Linked h' e' as vs ∧
      ∀ b, b ≠ a → h' b = h b := by
  obtain ⟨hc, hlast, hnodup⟩ := hl
  obtain ⟨hout, hnodup⟩ := List.nodup_cons.mp hnodup
  obtain ⟨head, tail⟩ := e
  cases hc with
  | @cons _ _ next _ _ ha hrest =>
    have hother (b : A) (hb : b ≠ a) : Function.update h a none b = h b :=
      Function.update_of_ne hb ..
    refine ⟨_, _, by simp only [LinkedQueues.pop, Option.bind_some, ha, Option.map_some]; rfl,
      ⟨?_, ?_, hnodup⟩, hother⟩
    · refine hrest.frame fun b hb => hother b ?_
      rintro rfl
      exact hout hb
    · cases hrest with
      | nil => rfl
      | cons _ _ =>
        rw [if_neg (by simp)]
        exact hlast

end VmodWasm.Lib.LinkedQueues
