import Mathlib.Algebra.Order.Group.Multiset
import Mathlib.Tactic.Abel
import VmodWasm.Lib.SwapRemoval

/-!
Blocks of allocated memory. Every allocation has a number of its own, whatever
address it gets, so that the second free of a block is told apart from the free
of a later block at the same address. Programs over blocks are partial: they
have no result if they free or read a block that is not allocated. `Owns` says
which blocks there are beside those of others, and `Triple` is the specification
of a program by the blocks that it has before and after.
-/
namespace VmodWasm.Lib.Blocks

open SwapRemoval

variable {V A B R W : Type}

structure Heap (V : Type) where
  block : ℕ → Option V
  next : ℕ

namespace Heap

def empty : Heap V := ⟨fun _ => none, 0⟩

def put (h : Heap V) (v : V) : Heap V := ⟨Function.update h.block h.next (some v), h.next + 1⟩

def drop (h : Heap V) (i : ℕ) : Heap V := { h with block := Function.update h.block i none }

end Heap

abbrev Mem (V A : Type) := StateT (Heap V) Option A

def malloc (v : V) : Mem V ℕ := fun h => some (h.next, h.put v)

def load (i : ℕ) : Mem V V := fun h => (h.block i).map fun v => (v, h)

def free (i : ℕ) : Mem V Unit := fun h => (h.block i).map fun _ => ((), h.drop i)

/-- `free`, which does nothing for a null pointer. -/
def freeOpt : Option ℕ → Mem V Unit
  | none => pure ()
  | some i => free i

def forEach (f : R → Mem V Unit) : List R → Mem V Unit
  | [] => pure ()
  | r :: rs => do
    f r
    forEach f rs

/-- The place of the first record that passes a test. -/
def search (test : R → Mem V Bool) : List R → Mem V (Option ℕ)
  | [] => pure none
  | r :: rs => do
    let found ← test r
    if found then pure (some 0)
    else do
      let i ← search test rs
      pure (i.map (· + 1))

/-- The blocks of the heap are those of `base` and, apart from them, `bs`. -/
structure Owns (base : ℕ → Option V) (h : Heap V) (bs : Multiset (ℕ × V)) : Prop where
  fresh : ∀ i, h.next ≤ i → h.block i = none
  nodup : (bs.map Prod.fst).Nodup
  apart : ∀ b ∈ bs, base b.1 = none
  live : ∀ b ∈ bs, h.block b.1 = some b.2
  rest : ∀ i, (∀ b ∈ bs, b.1 ≠ i) → h.block i = base i

section Owns

variable {base : ℕ → Option V} {h : Heap V} {bs : Multiset (ℕ × V)}

theorem owns_zero (hfresh : ∀ i, h.next ≤ i → h.block i = none) : Owns h.block h 0 where
  fresh := hfresh
  nodup := Multiset.nodup_zero
  apart _ hb := absurd hb (Multiset.notMem_zero _)
  live _ hb := absurd hb (Multiset.notMem_zero _)
  rest _ _ := rfl

/-- Without blocks of its own a program has left the heap as it was. -/
theorem Owns.block_eq (ho : Owns base h 0) : h.block = base :=
  funext fun i => ho.rest i fun _ hb => absurd hb (Multiset.notMem_zero _)

theorem Owns.lt_next (ho : Owns base h bs) {b : ℕ × V} (hb : b ∈ bs) : b.1 < h.next := by
  by_contra hge
  have hnone := ho.fresh b.1 (Nat.le_of_not_lt hge)
  rw [ho.live b hb] at hnone
  contradiction

theorem Owns.malloc (ho : Owns base h bs) (v : V) :
    Owns base (h.put v) ((h.next, v) ::ₘ bs) := by
  have hne (b : ℕ × V) (hb : b ∈ bs) : b.1 ≠ h.next := (ho.lt_next hb).ne
  constructor
  · intro i hi
    dsimp only [Heap.put] at hi ⊢
    rw [Function.update_of_ne (by omega)]
    exact ho.fresh i (by omega)
  · rw [Multiset.map_cons, Multiset.nodup_cons]
    refine ⟨fun hmem => ?_, ho.nodup⟩
    obtain ⟨b, hb, heq⟩ := Multiset.mem_map.mp hmem
    exact hne b hb heq
  · intro b hb
    rcases Multiset.mem_cons.mp hb with rfl | hb
    · have hsame := ho.rest h.next hne
      rw [ho.fresh h.next (Nat.le_refl _)] at hsame
      exact hsame.symm
    · exact ho.apart b hb
  · intro b hb
    rcases Multiset.mem_cons.mp hb with rfl | hb
    · exact Function.update_self ..
    · exact (Function.update_of_ne (hne b hb) ..).trans (ho.live b hb)
  · intro i hi
    have hnext : i ≠ h.next := (hi _ (Multiset.mem_cons_self _ _)).symm
    dsimp only [Heap.put]
    rw [Function.update_of_ne hnext]
    exact ho.rest i fun b hb => hi b (Multiset.mem_cons_of_mem hb)

theorem Owns.free {i : ℕ} {v : V} (ho : Owns base h ((i, v) ::ₘ bs)) :
    Owns base (h.drop i) bs := by
  have hnodup := ho.nodup
  rw [Multiset.map_cons, Multiset.nodup_cons] at hnodup
  have hne (b : ℕ × V) (hb : b ∈ bs) : b.1 ≠ i := by
    intro heq
    have hmem := Multiset.mem_map_of_mem Prod.fst hb
    rw [heq] at hmem
    exact hnodup.1 hmem
  refine ⟨?_, hnodup.2, ?_, ?_, ?_⟩
  · intro j hj
    dsimp only [Heap.drop]
    by_cases hji : j = i
    · rw [hji, Function.update_self]
    · rw [Function.update_of_ne hji]
      exact ho.fresh j hj
  · exact fun b hb => ho.apart b (Multiset.mem_cons_of_mem hb)
  · intro b hb
    exact (Function.update_of_ne (hne b hb) ..).trans (ho.live b (Multiset.mem_cons_of_mem hb))
  · intro j hj
    dsimp only [Heap.drop]
    by_cases hji : j = i
    · rw [hji, Function.update_self]
      exact (ho.apart _ (Multiset.mem_cons_self (i, v) bs)).symm
    · rw [Function.update_of_ne hji]
      refine ho.rest j fun b hb => ?_
      rcases Multiset.mem_cons.mp hb with rfl | hb
      · exact Ne.symm hji
      · exact hj b hb

/-- What is not owned any more is gone. -/
theorem Owns.dead {F : Multiset (ℕ × V)} {h' : Heap V} (ho : Owns base h (bs + F))
    (ho' : Owns base h' F) {b : ℕ × V} (hb : b ∈ bs) : h'.block b.1 = none := by
  have hnodup := ho.nodup
  rw [Multiset.map_add, Multiset.nodup_add] at hnodup
  have hout (f : ℕ × V) (hf : f ∈ F) : f.1 ≠ b.1 := by
    intro heq
    have hmem := Multiset.mem_map_of_mem Prod.fst hf
    rw [heq] at hmem
    exact Multiset.disjoint_left.mp hnodup.2.2 (Multiset.mem_map_of_mem Prod.fst hb) hmem
  rw [ho'.rest b.1 hout]
  exact ho.apart b (Multiset.mem_add.mpr (Or.inl hb))

end Owns

/-- From a heap that has the blocks `P` the program comes to an end, with a result
and blocks that are in `Q`. Whatever else there is, `F` and the blocks of others,
is left alone. -/
def Triple (P : Multiset (ℕ × V)) (m : Mem V A) (Q : A → Multiset (ℕ × V) → Prop) : Prop :=
  ∀ base h F, Owns base h (P + F) → ∃ a h' P', m h = some (a, h') ∧ Owns base h' (P' + F) ∧ Q a P'

section Rules

variable {P F : Multiset (ℕ × V)} {Q Q' : A → Multiset (ℕ × V) → Prop}

theorem Triple.pure {a : A} (hq : Q a P) : Triple P (Pure.pure a) Q :=
  fun _ h _ ho => ⟨a, h, P, rfl, ho, hq⟩

theorem Triple.mono {m : Mem V A} (hm : Triple P m Q) (hq : ∀ a P', Q a P' → Q' a P') :
    Triple P m Q' := by
  intro base h F ho
  obtain ⟨a, h', P', hrun, ho', hqa⟩ := hm base h F ho
  exact ⟨a, h', P', hrun, ho', hq a P' hqa⟩

/-- A program that needs `P` may be followed by one that needs more. -/
theorem Triple.bind {m : Mem V B} {f : B → Mem V A} {R : B → Multiset (ℕ × V) → Prop}
    (hm : Triple P m R) (hf : ∀ b P', R b P' → Triple (P' + F) (f b) Q) :
    Triple (P + F) (m >>= f) Q := by
  intro base h G ho
  rw [add_assoc] at ho
  obtain ⟨b, h₁, P₁, hrun, ho₁, hr⟩ := hm base h (F + G) ho
  rw [← add_assoc] at ho₁
  obtain ⟨a, h₂, P₂, hrun₂, ho₂, hq⟩ := hf b P₁ hr base h₁ G ho₁
  refine ⟨a, h₂, P₂, ?_, ho₂, hq⟩
  change (m h).bind (fun r => f r.1 r.2) = _
  rw [hrun]
  exact hrun₂

theorem Triple.seq {m : Mem V B} {f : B → Mem V A} {R : B → Multiset (ℕ × V) → Prop}
    (hm : Triple P m R) (hf : ∀ b P', R b P' → Triple P' (f b) Q) : Triple P (m >>= f) Q := by
  rw [← add_zero P]
  refine Triple.bind hm fun b P' hr => ?_
  rw [add_zero]
  exact hf b P' hr

/-- The first program needs a part of the blocks there are. -/
theorem Triple.part {m : Mem V B} {f : B → Mem V A} {R : B → Multiset (ℕ × V) → Prop}
    {G : Multiset (ℕ × V)} (hm : Triple P m R) (hG : G = P + F)
    (hf : ∀ b P', R b P' → Triple (P' + F) (f b) Q) : Triple G (m >>= f) Q := by
  rw [hG]
  exact Triple.bind hm hf

/-- Programs that only read can be run with more blocks. -/
theorem Triple.reads {m : Mem V A} {a : A} {G : Multiset (ℕ × V)}
    (hm : Triple P m fun b P' => b = a ∧ P' = P) (hG : G = P + F) :
    Triple G m fun b P' => b = a ∧ P' = G := by
  subst hG
  intro base h G ho
  rw [add_assoc] at ho
  obtain ⟨b, h', P', hrun, ho', rfl, rfl⟩ := hm base h (F + G) ho
  rw [← add_assoc] at ho'
  exact ⟨b, h', _, hrun, ho', rfl, rfl⟩

/-- Programs that free all they are given can be run with more blocks. -/
theorem Triple.frees {m : Mem V A} (hm : Triple P m fun _ P' => P' = 0) :
    Triple (P + F) m fun _ P' => P' = F := by
  intro base h G ho
  rw [add_assoc] at ho
  obtain ⟨a, h', _, hrun, ho', rfl⟩ := hm base h (F + G) ho
  rw [zero_add] at ho'
  exact ⟨a, h', F, hrun, ho', rfl⟩

theorem Triple.malloc (v : V) : Triple 0 (malloc v) fun i P' => P' = {(i, v)} := by
  intro base h F ho
  rw [zero_add] at ho
  exact ⟨h.next, _, _, rfl, ho.malloc v, rfl⟩

theorem Triple.load (i : ℕ) (v : V) :
    Triple {(i, v)} (load i) fun a P' => a = v ∧ P' = {(i, v)} := by
  intro base h F ho
  have hlive : h.block i = some v := ho.live (i, v) (Multiset.mem_cons_self _ _)
  refine ⟨v, h, _, ?_, ho, rfl, rfl⟩
  change (h.block i).map _ = _
  rw [hlive]
  rfl

theorem Triple.free (i : ℕ) (v : V) : Triple {(i, v)} (free i) fun _ P' => P' = 0 := by
  intro base h F ho
  have hlive : h.block i = some v := ho.live (i, v) (Multiset.mem_cons_self _ _)
  refine ⟨(), _, 0, ?_, (zero_add F).symm ▸ Owns.free ho, rfl⟩
  change (h.block i).map _ = _
  rw [hlive]
  rfl

theorem Triple.malloc_bind {v : V} {f : ℕ → Mem V A} (hf : ∀ i, Triple ({(i, v)} + P) (f i) Q) :
    Triple P (Blocks.malloc v >>= f) Q := by
  rw [← zero_add P]
  refine Triple.bind (Triple.malloc v) ?_
  rintro i _ rfl
  exact hf i

theorem Triple.load_bind {i : ℕ} {v : V} {f : V → Mem V A} (hf : Triple ({(i, v)} + P) (f v) Q) :
    Triple ({(i, v)} + P) (Blocks.load i >>= f) Q := by
  refine Triple.bind (Triple.load i v) ?_
  rintro _ _ ⟨rfl, rfl⟩
  exact hf

theorem Triple.load_mem {i : ℕ} {v : V} {f : V → Mem V A} (hmem : (i, v) ∈ P)
    (hf : Triple P (f v) Q) : Triple P (Blocks.load i >>= f) Q := by
  obtain ⟨F, rfl⟩ := Multiset.exists_cons_of_mem hmem
  exact Triple.load_bind hf

/-- A program that frees all it is given may be followed by one that needs the rest. -/
theorem Triple.frees_bind {m : Mem V B} {f : B → Mem V A} (hm : Triple P m fun _ P' => P' = 0)
    (hf : ∀ b, Triple F (f b) Q) : Triple (P + F) (m >>= f) Q := by
  refine Triple.bind hm ?_
  rintro b _ rfl
  rw [zero_add]
  exact hf b

theorem Triple.free_bind {i : ℕ} {v : V} {f : Unit → Mem V A} (hf : Triple P (f ()) Q) :
    Triple ({(i, v)} + P) (Blocks.free i >>= f) Q :=
  Triple.frees_bind (Triple.free i v) fun _ => hf

end Rules

/-- What a program has allocated from a heap without blocks of its own. -/
theorem Triple.result {m : Mem V A} {Q : A → Multiset (ℕ × V) → Prop} (hm : Triple 0 m Q)
    {h h' : Heap V} {a : A} (hfresh : ∀ i, h.next ≤ i → h.block i = none)
    (hrun : m h = some (a, h')) : ∃ P, Owns h.block h' P ∧ Q a P := by
  obtain ⟨a', h'', P, hrun', ho, hq⟩ := hm h.block h 0 (owns_zero hfresh)
  obtain ⟨rfl, rfl⟩ := Prod.mk.inj (Option.some.inj (hrun.symm.trans hrun'))
  rw [add_zero] at ho
  exact ⟨P, ho, hq⟩

/-- A program that frees all there is leaves the blocks of others. -/
theorem Triple.result_frees {m : Mem V A} {P : Multiset (ℕ × V)} {base : ℕ → Option V}
    {h : Heap V} (hm : Triple P m fun _ P' => P' = 0) (ho : Owns base h P) :
    ∃ a h', m h = some (a, h') ∧ h'.block = base := by
  rw [← add_zero P] at ho
  obtain ⟨a, h', _, hrun, ho', rfl⟩ := hm base h 0 ho
  exact ⟨a, h', hrun, ho'.block_eq⟩

/-- A pointer that is null or has a block with the value. -/
inductive Cell : Option ℕ → Option V → Multiset (ℕ × V) → Prop
  | null : Cell none none 0
  | block (i : ℕ) (v : V) : Cell (some i) (some v) {(i, v)}

theorem Triple.freeOpt {i : Option ℕ} {v : Option V} {P : Multiset (ℕ × V)} (hc : Cell i v P) :
    Triple P (freeOpt i) fun _ P' => P' = 0 := by
  cases hc with
  | null => exact Triple.pure rfl
  | block i v => exact Triple.free i v

theorem Cell.isSome_iff {i : Option ℕ} {v : Option V} {P : Multiset (ℕ × V)} (hc : Cell i v P) :
    i.isSome = true ↔ P ≠ 0 := by
  cases hc with
  | null => simp
  | block i v => simp

/-- The block of a pointer that may be null. -/
def opt (v : V) : Option ℕ → Multiset (ℕ × V)
  | none => 0
  | some i => {(i, v)}

theorem opt_cell (v : V) (i : Option ℕ) : Cell i (i.map fun _ => v) (opt v i) := by
  cases i with
  | none => exact Cell.null
  | some i => exact Cell.block i v

theorem Triple.freeOpt_bind {v : V} {i : Option ℕ} {f : Unit → Mem V A} {P : Multiset (ℕ × V)}
    {Q : A → Multiset (ℕ × V) → Prop} (hf : Triple P (f ()) Q) :
    Triple (opt v i + P) (Blocks.freeOpt i >>= f) Q :=
  Triple.frees_bind (Triple.freeOpt (opt_cell v i)) fun _ => hf

section Buffers

variable {D : Type} {i : Option ℕ} {data : List D} {P : Multiset (ℕ × List D)}

/-- Buffers of no bytes are null pointers. -/
def nonempty (data : List D) : Option (List D) := if data = [] then none else some data

def readOpt : Option ℕ → Mem (List D) (List D)
  | none => pure []
  | some i => load i

theorem Cell.unfilled (h : data = []) : Cell none (nonempty data) 0 := by
  rw [nonempty, if_pos h]
  exact Cell.null

theorem Cell.filled (i : ℕ) (h : data ≠ []) : Cell (some i) (nonempty data) {(i, data)} := by
  rw [nonempty, if_neg h]
  exact Cell.block i data

theorem Cell.buffer_cases (hc : Cell i (nonempty data) P) :
    (i = none ∧ data = [] ∧ P = 0) ∨ ∃ j, i = some j ∧ data ≠ [] ∧ P = {(j, data)} := by
  generalize hvalue : nonempty data = value at hc
  unfold nonempty at hvalue
  cases hc with
  | null =>
    split at hvalue
    next hnil => exact Or.inl ⟨rfl, hnil, rfl⟩
    next => contradiction
  | block j b =>
    split at hvalue
    next => contradiction
    next hne =>
      injection hvalue with hvalue
      exact Or.inr ⟨j, rfl, hne, by rw [hvalue]⟩

theorem Cell.eq_opt (hc : Cell i (nonempty data) P) : P = opt data i := by
  obtain ⟨rfl, -, rfl⟩ | ⟨j, rfl, -, rfl⟩ := hc.buffer_cases <;> rfl

theorem readOpt_spec (hc : Cell i (nonempty data) P) :
    Triple P (readOpt i) fun a P' => a = data ∧ P' = P := by
  obtain ⟨rfl, rfl, rfl⟩ | ⟨j, rfl, -, rfl⟩ := hc.buffer_cases
  · exact Triple.pure ⟨rfl, rfl⟩
  · exact Triple.load j data

theorem Cell.isSome_eq (hc : Cell i (nonempty data) P) : i.isSome = !data.isEmpty := by
  obtain ⟨rfl, rfl, -⟩ | ⟨j, rfl, hne, -⟩ := hc.buffer_cases
  · rfl
  · rw [List.isEmpty_eq_false_iff.mpr hne]
    rfl

end Buffers

/-- Only the share of a record changes with the record. -/
theorem sum_map_set (f : R → Multiset (ℕ × V)) {rs : List R} {i : ℕ} {r : R}
    (hi : rs[i]? = some r) :
    ∃ F, (rs.map f).sum = f r + F ∧ ∀ r', ((rs.set i r').map f).sum = f r' + F := by
  induction rs generalizing i with
  | nil => contradiction
  | cons r₀ rs ih =>
    cases i with
    | zero =>
      injection hi with hi
      subst hi
      exact ⟨(rs.map f).sum, rfl, fun _ => rfl⟩
    | succ i =>
      obtain ⟨F, hsum, hset⟩ := ih hi
      refine ⟨f r₀ + F, ?_, fun r' => ?_⟩
      · rw [List.map_cons, List.sum_cons, hsum]
        exact add_left_comm ..
      · rw [List.set_cons_succ, List.map_cons, List.sum_cons, hset]
        exact add_left_comm ..

/-- Records that show a list of values, each by blocks of its own. -/
inductive Listed (Row : R → W → Multiset (ℕ × V) → Prop) :
    List R → List W → Multiset (ℕ × V) → Prop
  | nil : Listed Row [] [] 0
  | cons {r : R} {w : W} {P P' : Multiset (ℕ × V)} {rs : List R} {ws : List W} :
      Row r w P → Listed Row rs ws P' → Listed Row (r :: rs) (w :: ws) (P + P')

section Listed

variable {Row : R → W → Multiset (ℕ × V) → Prop} {rs : List R} {ws : List W}
variable {P C : Multiset (ℕ × V)} {i : ℕ} {r : R}

theorem listed_singleton {w : W} (h : Row r w P) : Listed Row [r] [w] P := by
  have hone := Listed.cons h Listed.nil
  rwa [add_zero] at hone

theorem Listed.length_eq (h : Listed Row rs ws P) : rs.length = ws.length := by
  induction h with
  | nil => rfl
  | cons _ _ ih => rw [List.length_cons, List.length_cons, ih]

theorem Listed.isEmpty_iff (hrow : ∀ r w P, Row r w P → P ≠ 0) (h : Listed Row rs ws P) :
    rs.isEmpty = true ↔ P = 0 := by
  cases h with
  | nil => simp
  | cons hr _ =>
    have hne := hrow _ _ _ hr
    simp only [List.isEmpty_cons, Bool.false_eq_true, false_iff]
    exact fun hsum => hne (Multiset.le_zero.mp (hsum ▸ Multiset.le_add_right _ _))

theorem Listed.append {a b : List R} {wa wb : List W} {Pa Pb : Multiset (ℕ × V)}
    (ha : Listed Row a wa Pa) (hb : Listed Row b wb Pb) :
    Listed Row (a ++ b) (wa ++ wb) (Pa + Pb) := by
  induction ha with
  | nil => rwa [List.nil_append, List.nil_append, zero_add]
  | cons hr _ ih =>
    rw [List.cons_append, List.cons_append, add_assoc]
    exact Listed.cons hr ih

theorem Listed.of_append {a b : List R} (h : Listed Row (a ++ b) ws P) :
    ∃ wa wb Pa Pb, ws = wa ++ wb ∧ P = Pa + Pb ∧ Listed Row a wa Pa ∧ Listed Row b wb Pb := by
  induction a generalizing ws P with
  | nil => exact ⟨[], ws, 0, P, rfl, (zero_add P).symm, Listed.nil, h⟩
  | cons r a ih =>
    cases h with
    | @cons _ w P _ _ ws hr hrest =>
      obtain ⟨wa, wb, Pa, Pb, rfl, rfl, ha, hb⟩ := ih hrest
      exact ⟨w :: wa, wb, P + Pa, Pb, rfl, (add_assoc ..).symm, Listed.cons hr ha, hb⟩

theorem Listed.lastFirst (h : Listed Row rs ws P) :
    Listed Row (lastFirst rs) (lastFirst ws) P := by
  rcases List.eq_nil_or_concat' rs with rfl | ⟨a, r, rfl⟩
  · cases h
    exact Listed.nil
  · obtain ⟨wa, wb, Pa, Pb, rfl, rfl, ha, hb⟩ := h.of_append
    cases hb with
    | @cons _ w P _ _ ws hr hnil =>
      cases hnil
      rw [lastFirst_concat, lastFirst_concat, add_zero, add_comm]
      exact Listed.cons hr ha

/-- One record is exchanged for another; the others keep their blocks. -/
theorem Listed.set (h : Listed Row rs ws P) (hi : rs[i]? = some r) :
    ∃ w Pr F, ws[i]? = some w ∧ P = Pr + F ∧ Row r w Pr ∧
      ∀ r' w' P', Row r' w' P' → Listed Row (rs.set i r') (ws.set i w') (P' + F) := by
  induction h generalizing i with
  | nil => contradiction
  | @cons r₀ w P₀ P' rs ws hr hrest ih =>
    cases i with
    | zero =>
      injection hi with hi
      subst hi
      exact ⟨w, P₀, P', rfl, rfl, hr, fun _ _ _ hr' => Listed.cons hr' hrest⟩
    | succ i =>
      obtain ⟨w', Pr, F, hw, rfl, hrow, hset⟩ := ih hi
      refine ⟨w', Pr, P₀ + F, hw, add_left_comm .., hrow, fun r' w'' P'' hr' => ?_⟩
      rw [add_left_comm]
      exact Listed.cons hr (hset r' w'' P'' hr')

/-- A search that leaves the blocks alone is one in the list of values. -/
theorem Triple.search {test : R → Mem V Bool} {p : W → Bool}
    (htest : ∀ r w P, Row r w P → Triple P (test r) fun b P' => b = p w ∧ P' = P)
    (h : Listed Row rs ws P) :
    Triple P (search test rs) fun r P' => r = ws.findIdx? p ∧ P' = P := by
  induction h with
  | nil => exact Triple.pure ⟨rfl, rfl⟩
  | @cons r w Pr P' rs ws hrow _ ih =>
    rw [List.findIdx?_cons]
    refine Triple.bind (htest r w Pr hrow) ?_
    rintro _ _ ⟨rfl, rfl⟩
    split
    · exact Triple.pure ⟨rfl, rfl⟩
    · rw [add_comm _ P']
      refine Triple.bind ih ?_
      rintro _ _ ⟨rfl, rfl⟩
      exact Triple.pure ⟨rfl, rfl⟩

/-- A place in the list of values is one in the list of records. -/
theorem Listed.exists_of_findIdx? (h : Listed Row rs ws P) {p : W → Bool}
    (hi : ws.findIdx? p = some i) : ∃ r, rs[i]? = some r := by
  have hlt : i < rs.length := by
    rw [h.length_eq]
    exact (List.findIdx?_eq_some_iff_getElem.mp hi).1
  exact ⟨rs[i], List.getElem?_eq_getElem hlt⟩

/-- A loop that frees what each record has frees everything. -/
theorem Triple.forEach {f : R → Mem V Unit}
    (hf : ∀ r w P, Row r w P → Triple P (f r) fun _ P' => P' = 0) (h : Listed Row rs ws P) :
    Triple P (forEach f rs) fun _ P' => P' = 0 := by
  induction h with
  | nil => exact Triple.pure rfl
  | cons hr _ ih => exact Triple.frees_bind (hf _ _ _ hr) fun _ => ih

/-- The same with blocks that all turns of the loop use. -/
theorem Triple.forEach_sum {f : R → Mem V Unit} {g g' : R → Multiset (ℕ × V)}
    (hf : ∀ r, Triple (g r + C) (f r) fun _ P' => P' = g' r + C)
    (rs : List R) : Triple ((rs.map g).sum + C) (Blocks.forEach f rs)
      fun _ P' => P' = (rs.map g').sum + C := by
  induction rs with
  | nil => exact Triple.pure rfl
  | cons r rs ih =>
    rw [List.map_cons, List.sum_cons, add_right_comm]
    refine Triple.bind (hf r) ?_
    rintro _ _ rfl
    rw [add_right_comm, add_assoc, add_comm (g' r)]
    -- the other records keep what the first one has left
    intro base h F ho
    rw [add_assoc] at ho
    obtain ⟨a, h', _, hrun, ho', rfl⟩ := ih base h (g' r + F) ho
    refine ⟨a, h', _, hrun, ?_, rfl⟩
    rw [List.map_cons, List.sum_cons]
    rwa [show g' r + (rs.map g').sum + C + F = (rs.map g').sum + C + (g' r + F) by abel]

theorem Triple.forEach_free {f : R → Mem V Unit} {g : R → Multiset (ℕ × V)}
    (hf : ∀ r, Triple (g r + C) (f r) fun _ P' => P' = C) (rs : List R) :
    Triple ((rs.map g).sum + C) (Blocks.forEach f rs) fun _ P' => P' = C := by
  induction rs with
  | nil => exact Triple.pure (zero_add C)
  | cons r rs ih =>
    rw [List.map_cons, List.sum_cons, add_right_comm]
    refine Triple.bind (hf r) ?_
    rintro _ _ rfl
    rwa [add_comm]

/-- The record that is taken out leaves with its blocks. -/
theorem Listed.swapRemove (h : Listed Row rs ws P) (hi : rs[i]? = some r) :
    ∃ w Pr P', P = Pr + P' ∧ Row r w Pr ∧ Listed Row (swapRemove rs i) (swapRemove ws i) P' := by
  obtain ⟨a, b, rfl, rfl⟩ : ∃ a b, rs = a ++ r :: b ∧ a.length = i := by
    have hlt := (List.getElem?_eq_some_iff.mp hi).1
    refine ⟨rs.take i, rs.drop (i + 1), ?_, by rw [List.length_take]; omega⟩
    rw [← (List.getElem?_eq_some_iff.mp hi).2, ← List.drop_eq_getElem_cons hlt,
      List.take_append_drop]
  obtain ⟨wa, wb, Pa, Pb, rfl, rfl, ha, hb⟩ := h.of_append
  cases hb with
  | @cons _ w Pr P' _ wb hr hb =>
    refine ⟨w, Pr, Pa + P', by abel, hr, ?_⟩
    rw [swapRemove_append, ha.length_eq, swapRemove_append]
    exact ha.append hb.lastFirst

end Listed

/-- What frees the blocks `P` cannot be run once they are gone, unless there are
none. -/
def Strict (P : Multiset (ℕ × V)) (m : Mem V Unit) : Prop :=
  ∀ h, (∀ b ∈ P, h.block b.1 = none) → (P = 0 → m h = some ((), h)) ∧ (P ≠ 0 → m h = none)

section Strict

variable {P P' : Multiset (ℕ × V)}

theorem strict_pure : Strict (0 : Multiset (ℕ × V)) (Pure.pure ()) :=
  fun _ _ => ⟨fun _ => rfl, fun hne => absurd rfl hne⟩

theorem strict_free (i : ℕ) (v : V) : Strict {(i, v)} (free i) := by
  intro h hdead
  refine ⟨fun hzero => absurd hzero (Multiset.singleton_ne_zero _), fun _ => ?_⟩
  change (h.block i).map _ = none
  rw [hdead (i, v) (Multiset.mem_singleton_self _)]
  rfl

theorem strict_freeOpt {i : Option ℕ} {v : Option V} (hc : Cell i v P) : Strict P (freeOpt i) := by
  cases hc with
  | null => exact strict_pure
  | block i v => exact strict_free i v

theorem Strict.bind {m m' : Mem V Unit} (hm : Strict P m) (hm' : Strict P' m') :
    Strict (P + P') (m >>= fun _ => m') := by
  intro h hdead
  obtain ⟨hzero, hne⟩ := hm h fun b hb => hdead b (Multiset.mem_add.mpr (Or.inl hb))
  obtain ⟨hzero', hne'⟩ := hm' h fun b hb => hdead b (Multiset.mem_add.mpr (Or.inr hb))
  have hrun (r : Option (Unit × Heap V)) (hr : m h = r) :
      (m >>= fun _ => m') h = r.bind fun r => m' r.2 := by
    rw [← hr]
    rfl
  by_cases hP : P = 0
  · subst hP
    rw [zero_add, hrun _ (hzero rfl)]
    exact ⟨hzero', hne'⟩
  · rw [hrun _ (hne hP)]
    refine ⟨fun hsum => absurd ?_ hP, fun _ => rfl⟩
    exact Multiset.le_zero.mp (hsum ▸ Multiset.le_add_right P P')

theorem strict_forEach {Row : R → W → Multiset (ℕ × V) → Prop} {f : R → Mem V Unit}
    (hf : ∀ r w P, Row r w P → Strict P (f r)) {rs : List R} {ws : List W}
    (h : Listed Row rs ws P) : Strict P (forEach f rs) := by
  induction h with
  | nil => exact strict_pure
  | cons hr _ ih => exact (hf _ _ _ hr).bind ih

end Strict

end VmodWasm.Lib.Blocks
