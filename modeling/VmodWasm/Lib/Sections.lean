import VmodWasm.Lib.Blocks
import VmodWasm.Lib.Mealy
import VmodWasm.Lib.Transition

/-!
An object in memory that many activations use, one section of code at a time. A
section may change the object and the blocks the activation keeps for itself
between two sections; one of the sections of a call is where it takes effect, and
says so in a log. If every section is right for the object alone then so is every
interleaving of sections: none reads or frees what is gone, and the log is what a
machine answers to the same calls one after the other.
-/
namespace VmodWasm.Lib.Sections

open Blocks Mealy Transition

variable {V S T R L C A : Type}

/-- What a section leaves: the object, the call that took effect, the activation. -/
structure Outcome (S R C A : Type) where
  object : S
  effect : Option (C × A) := none
  activation : R

structure System (S R C A : Type) where
  object : S
  activations : List R
  log : List (C × A) := []

/-- The section that activation `t` comes to with the label `l`, run as a whole. -/
def turn (sections : S → R → L → Option (Mem V (Outcome S R C A)))
    (s : System S R C A × Heap V) (l : ℕ × L) : Option (System S R C A × Heap V) :=
  s.1.activations[l.1]?.bind fun r => (sections s.1.object r l.2).bind fun m =>
    (m s.2).map fun (o, h) =>
      (⟨o.object, s.1.activations.set l.1 o.activation, s.1.log ++ o.effect.toList⟩, h)

def step (sections : S → R → L → Option (Mem V (Outcome S R C A)))
    (s : System S R C A × Heap V) (l : ℕ × L) (s' : System S R C A × Heap V) : Prop :=
  turn sections s l = some s'

/-- What a section leaves of an object that showed `t`: the machine has made the step
that the section says took effect. -/
inductive Leaves (call : T → C → A × T) (Shows : S → T → Multiset (ℕ × V) → Prop)
    (owned : R → Multiset (ℕ × V)) (Ok : R → Prop) (t : T) :
    Outcome S R C A → Multiset (ℕ × V) → Prop
  | silent {s : S} {r : R} {P : Multiset (ℕ × V)} (hshows : Shows s t P) (hok : Ok r) :
      Leaves call Shows owned Ok t ⟨s, none, r⟩ (P + owned r)
  | effect {s : S} {c : C} {a : A} {r : R} {P : Multiset (ℕ × V)} (hanswer : a = (call t c).1)
      (hshows : Shows s (call t c).2 P) (hok : Ok r) :
      Leaves call Shows owned Ok t ⟨s, some (c, a), r⟩ (P + owned r)

/-- The sections are right for the object and the blocks of their activation. -/
def Correct (call : T → C → A × T) (Shows : S → T → Multiset (ℕ × V) → Prop)
    (owned : R → Multiset (ℕ × V)) (Ok : R → Prop)
    (sections : S → R → L → Option (Mem V (Outcome S R C A))) : Prop :=
  ∀ s t P r l m, Shows s t P → Ok r → sections s r l = some m →
    Triple (P + owned r) m (Leaves call Shows owned Ok t)

/-- The heap is the object and what the activations keep; the log is the
transcript of a machine in the state the object shows. -/
structure Inv (call : T → C → A × T) (Shows : S → T → Multiset (ℕ × V) → Prop)
    (owned : R → Multiset (ℕ × V)) (Ok : R → Prop) (t₀ : T) (base : ℕ → Option V)
    (s : System S R C A × Heap V) : Prop where
  owns : ∃ P, Shows s.1.object (after call t₀ (s.1.log.map Prod.fst)) P ∧
    Owns base s.2 (P + (s.1.activations.map owned).sum)
  ok : ∀ r ∈ s.1.activations, Ok r
  log : s.1.log = transcript call t₀ (s.1.log.map Prod.fst)

variable {call : T → C → A × T} {Shows : S → T → Multiset (ℕ × V) → Prop}
  {owned : R → Multiset (ℕ × V)} {Ok : R → Prop} {t₀ : T} {base : ℕ → Option V}
  {sections : S → R → L → Option (Mem V (Outcome S R C A))}

section Leaves

variable {s : S} {t t' : T} {c : C} {a : A} {r : R} {P : Multiset (ℕ × V)}

theorem Leaves.answers (hcall : call t c = (a, t')) (hshows : Shows s t' P) (hok : Ok r) :
    Leaves call Shows owned Ok t ⟨s, some (c, a), r⟩ (P + owned r) :=
  Leaves.effect (by rw [hcall]) (by rw [hcall]; exact hshows) hok

/-- The activation keeps nothing. -/
theorem Leaves.returns (hcall : call t c = (a, t')) (hshows : Shows s t' P) (hok : Ok r)
    (hr : owned r = 0) : Leaves call Shows owned Ok t ⟨s, some (c, a), r⟩ P := by
  rw [← add_zero P, ← hr]
  exact Leaves.answers hcall hshows hok

theorem Leaves.idle (hshows : Shows s t P) (hok : Ok r) (hr : owned r = 0) :
    Leaves call Shows owned Ok t ⟨s, none, r⟩ P := by
  rw [← add_zero P, ← hr]
  exact Leaves.silent hshows hok

end Leaves

/-- A section that can be entered comes to its end, and what it leaves is in order. -/
theorem Inv.turn (hcorrect : Correct call Shows owned Ok sections)
    {s : System S R C A} {h : Heap V} (hinv : Inv call Shows owned Ok t₀ base (s, h)) {t : ℕ}
    {r : R} {l : L} {m : Mem V (Outcome S R C A)} (ht : s.activations[t]? = some r)
    (hm : sections s.object r l = some m) :
    ∃ o h', m h = some (o, h') ∧ Inv call Shows owned Ok t₀ base
      (⟨o.object, s.activations.set t o.activation, s.log ++ o.effect.toList⟩, h') := by
  obtain ⟨P, hshows, ho⟩ := hinv.owns
  -- the other activations are the frame
  obtain ⟨F, hsum, hset⟩ := sum_map_set owned ht
  have hr := hinv.ok r (List.mem_of_getElem? ht)
  dsimp only at ho
  rw [hsum, ← add_assoc] at ho
  obtain ⟨o, h', P', hrun, ho', hleaves⟩ := hcorrect _ _ _ _ _ _ hshows hr hm base h F ho
  have hacts (r' : R) (hok : Ok r') : ∀ r'' ∈ s.activations.set t r', Ok r'' := by
    intro r'' hr''
    rcases List.mem_or_eq_of_mem_set hr'' with hmem | rfl
    · exact hinv.ok r'' hmem
    · exact hok
  refine ⟨o, h', hrun, ?_⟩
  cases hleaves with
  | @silent s' r' Ps hshows' hok =>
    rw [add_assoc, ← hset] at ho'
    rw [Option.toList_none, List.append_nil]
    exact ⟨⟨Ps, hshows', ho'⟩, hacts r' hok, hinv.log⟩
  | @effect s' c a r' Ps hanswer hshows' hok =>
    rw [add_assoc, ← hset] at ho'
    have hlog := hinv.log
    dsimp only at hlog
    refine ⟨⟨Ps, ?_, ho'⟩, hacts r' hok, ?_⟩ <;> dsimp only <;>
      rw [Option.toList_some, List.map_append, List.map_singleton]
    · rw [after_snoc]
      exact hshows'
    · rw [transcript_snoc, ← hlog, hanswer]
      rfl

/-- What holds of one section holds of every interleaving. -/
theorem Inv.run (hcorrect : Correct call Shows owned Ok sections)
    {s s' : System S R C A × Heap V} {ls : List (ℕ × L)} (hrun : Run (step sections) s ls s')
    (hinv : Inv call Shows owned Ok t₀ base s) : Inv call Shows owned Ok t₀ base s' := by
  refine hrun.invariant (Inv call Shows owned Ok t₀ base) ?_ hinv
  intro s l s' hstep hinv
  obtain ⟨r, ht, hstep⟩ := Option.bind_eq_some_iff.mp hstep
  obtain ⟨m, hm, hstep⟩ := Option.bind_eq_some_iff.mp hstep
  obtain ⟨o, hend, rfl⟩ := Option.map_eq_some_iff.mp hstep
  obtain ⟨o', h', hend', hinv'⟩ := hinv.turn hcorrect ht hm
  obtain rfl := Option.some.inj (hend.symm.trans hend')
  exact hinv'

/-- An object with activations that have not started. -/
def start (object : S) (idle : R) (n : ℕ) : System S R C A :=
  { object := object, activations := List.replicate n idle }

theorem sum_owned_eq_zero {rs : List R} (h : ∀ r ∈ rs, owned r = 0) : (rs.map owned).sum = 0 := by
  induction rs with
  | nil => rfl
  | cons r rs ih =>
    rw [List.map_cons, List.sum_cons, h r List.mem_cons_self, zero_add]
    exact ih fun r' hr' => h r' (List.mem_cons_of_mem r hr')

theorem inv_start {idle : R} {s₀ : S} {P : Multiset (ℕ × V)} {h : Heap V} (hshows : Shows s₀ t₀ P)
    (ho : Owns base h P) (hidle : owned idle = 0) (hok : Ok idle) (n : ℕ) :
    Inv call Shows owned Ok t₀ base (start s₀ idle n, h) where
  owns := by
    refine ⟨P, hshows, ?_⟩
    have hnone : ((start s₀ idle n : System S R C A).activations.map owned).sum = 0 :=
      sum_owned_eq_zero fun r hr => by rw [List.eq_of_mem_replicate hr, hidle]
    dsimp only
    rwa [hnone, add_zero]
  ok r hr := by
    rw [List.eq_of_mem_replicate hr]
    exact hok
  log := rfl

/-- Over every interleaving the sections that can be entered come to their end, the log
is what the machine answers, and once all activations have returned the object can be
destroyed and leaves no block. -/
theorem interleaving (hcorrect : Correct call Shows owned Ok sections) (idle : R)
    (hidle : owned idle = 0) (hok : Ok idle) {new : Mem V (Option S)} {destroy : S → Mem V Unit}
    (hnew : Triple 0 new fun r P => ∀ s, r = some s → Shows s t₀ P)
    (hdestroy : ∀ s t P, Shows s t P → Triple P (destroy s) fun _ P' => P' = 0)
    {h₀ h₁ h : Heap V} (hfresh : ∀ i, h₀.next ≤ i → h₀.block i = none) {s₀ : S}
    (hmade : new h₀ = some (some s₀, h₁)) {n : ℕ} {ls : List (ℕ × L)} {s : System S R C A}
    (hrun : Run (step sections) (start s₀ idle n, h₁) ls (s, h)) :
    (∀ (t : ℕ) r l m, s.activations[t]? = some r → sections s.object r l = some m →
      (m h).isSome = true) ∧
    s.log = transcript call t₀ (s.log.map Prod.fst) ∧
    ((∀ r ∈ s.activations, r = idle) →
      ∃ h', destroy s.object h = some ((), h') ∧ h'.block = h₀.block) := by
  obtain ⟨P, ho, hshows⟩ := hnew.result hfresh hmade
  have hinv := Inv.run hcorrect hrun (inv_start (hshows s₀ rfl) ho hidle hok n)
  refine ⟨fun t r l m ht hm => ?_, hinv.log, fun hdone => ?_⟩
  · obtain ⟨o, h', hend, -⟩ := hinv.turn hcorrect ht hm
    rw [hend]
    rfl
  · obtain ⟨P, hshows', ho'⟩ := hinv.owns
    dsimp only at ho'
    rw [sum_owned_eq_zero fun r hr => by rw [hdone r hr, hidle], add_zero] at ho'
    obtain ⟨_, h', hend⟩ := (hdestroy _ _ _ hshows').result_frees ho'
    exact ⟨h', hend⟩

end VmodWasm.Lib.Sections
