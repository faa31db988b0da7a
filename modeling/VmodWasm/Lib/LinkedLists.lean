import VmodWasm.Lib.LinkedQueues

/-!
Singly linked lists with one pointer, to the first node. A walk goes along the
links until it meets a node that passes a test. Taking a node out goes along the
places that hold a pointer: the one to the first node, and the one in each node.
Both fail at a pointer that leads nowhere and after a bounded number of steps.
-/
namespace VmodWasm.Lib.LinkedLists

open LinkedQueues

variable {A V : Type}

/-- The first node from `p` on whose value passes the test. -/
def search (h : Heap A V) (test : V → Bool) : ℕ → Option A → Option (Option A)
  | _, none => some none
  | 0, some _ => none
  | n + 1, some a =>
    (h a).bind fun node => if test node.value then some (some a) else search h test n node.next

/-- A place that holds a pointer. -/
inductive Slot (A : Type) where
  | head
  | next (a : A)

def Slot.read (h : Heap A V) (head : Option A) : Slot A → Option (Option A)
  | .head => some head
  | .next a => (h a).map Node.next

variable [DecidableEq A]

def Slot.write (h : Heap A V) (head : Option A) (p : Option A) : Slot A → Heap A V × Option A
  | .head => (h, p)
  | .next a => (Function.update h a ((h a).map fun node => { node with next := p }), head)

/-- Link the node `a` in at the front. -/
def link (h : Heap A V) (head : Option A) (a : A) : Heap A V × Option A :=
  Slot.head.write ((Slot.next a).write h head head).1 head (some a)

/-- Take the node `a` out, looking for it from the place `pp` on. -/
def unlink (h : Heap A V) (head : Option A) (a : A) : ℕ → Slot A → Option (Heap A V × Option A)
  | 0, _ => none
  | n + 1, pp =>
    (pp.read h head).bind fun p =>
      match p with
      | none => some (h, head)
      | some b =>
        if b = a then
          (h a).map fun node =>
            let r := pp.write h head node.next
            (Slot.next a).write r.1 r.2 none
        else unlink h head a n (.next b)

/-- From `p` the links lead through these nodes. -/
def Path (h : Heap A V) (p : Option A) (l : List (A × V)) : Prop :=
  Chain h p (l.map Prod.fst) (l.map Prod.snd)

variable {h h' : Heap A V} {p head : Option A} {a : A} {v : V} {l : List (A × V)} {n : ℕ}

omit [DecidableEq A] in
theorem path_nil_iff : Path h p [] ↔ p = none := by
  constructor
  · intro hp
    cases hp
    rfl
  · rintro rfl
    exact .nil

omit [DecidableEq A] in
theorem path_cons_iff :
    Path h p ((a, v) :: l) ↔ p = some a ∧ ∃ next, h a = some ⟨v, next⟩ ∧ Path h next l := by
  constructor
  · intro hp
    cases hp with
    | cons ha hrest => exact ⟨rfl, _, ha, hrest⟩
  · rintro ⟨rfl, next, ha, hrest⟩
    exact .cons ha hrest

omit [DecidableEq A] in
theorem Path.frame (hp : Path h p l) (hsame : ∀ b ∈ l.map Prod.fst, h' b = h b) : Path h' p l :=
  Chain.frame hp hsame

omit [DecidableEq A] in
theorem Path.value (hp : Path h p l) (hmem : (a, v) ∈ l) : ∃ next, h a = some ⟨v, next⟩ := by
  induction l generalizing p with
  | nil => contradiction
  | cons x l ih =>
    obtain ⟨-, next, hx, hrest⟩ := path_cons_iff.mp hp
    rcases List.mem_cons.mp hmem with rfl | hmem
    · exact ⟨next, hx⟩
    · exact ih hrest hmem

omit [DecidableEq A] in
theorem Path.search (hp : Path h p l) (test : V → Bool) (hn : l.length ≤ n) :
    LinkedLists.search h test n p = some ((l.find? fun x => test x.2).map Prod.fst) := by
  induction l generalizing p n with
  | nil =>
    obtain rfl := path_nil_iff.mp hp
    cases n <;> rfl
  | cons x l ih =>
    obtain ⟨a, v⟩ := x
    obtain ⟨rfl, next, ha, hrest⟩ := path_cons_iff.mp hp
    obtain ⟨m, rfl⟩ : ∃ m, n = m + 1 := ⟨n - 1, by rw [List.length_cons] at hn; omega⟩
    rw [List.length_cons] at hn
    simp only [LinkedLists.search, ha, Option.bind_some, List.find?_cons]
    cases test v with
    | true => rfl
    | false => exact ih hrest (by omega)

/-- A new node, linked in at the front. -/
theorem Path.link (hp : Path h head l) (ha : h a = none) (v : V) :
    LinkedLists.link (Function.update h a (some ⟨v, none⟩)) head a =
        (Function.update h a (some ⟨v, head⟩), some a) ∧
      Path (Function.update h a (some ⟨v, head⟩)) (some a) ((a, v) :: l) := by
  constructor
  · simp only [LinkedLists.link, Slot.write, Function.update_self, Option.map_some,
      Function.update_idem]
  · refine path_cons_iff.mpr ⟨rfl, head, Function.update_self .., hp.frame fun b hb => ?_⟩
    refine Function.update_of_ne ?_ ..
    rintro rfl
    exact Chain.allocated hp b hb ha

theorem filter_ne (hout : a ∉ l.map Prod.fst) : (l.filter fun x => x.1 ≠ a) = l := by
  refine List.filter_eq_self.mpr fun x hx => decide_eq_true ?_
  rintro rfl
  exact hout (List.mem_map_of_mem hx)

/-- A change of a link keeps the values. -/
theorem value_update {node : Node A V} (ha : h a = some node) (p : Option A) (c : A) :
    (Function.update h a (some { node with next := p }) c).map Node.value =
      (h c).map Node.value := by
  by_cases hc : c = a
  · rw [hc, Function.update_self, ha]
    rfl
  · rw [Function.update_of_ne hc]

/-- The walk looks at the places behind the node `b`. -/
theorem Path.unlink_next (head : Option A) (a : A) {b : A} {w : V} (hp : Path h p ((b, w) :: l))
    (hnodup : (((b, w) :: l).map Prod.fst).Nodup) (hn : l.length < n) :
    ∃ h', unlink h head a n (.next b) = some (h', head) ∧
      Path h' p ((b, w) :: l.filter fun x => x.1 ≠ a) ∧
      (∀ c, c ∉ ((b, w) :: l).map Prod.fst → h' c = h c) ∧
      ∀ c, (h' c).map Node.value = (h c).map Node.value := by
  induction l generalizing b w p n with
  | nil =>
    obtain ⟨m, rfl⟩ : ∃ m, n = m + 1 := ⟨n - 1, by omega⟩
    obtain ⟨-, next, hb, hrest⟩ := path_cons_iff.mp hp
    obtain rfl := path_nil_iff.mp hrest
    refine ⟨h, ?_, hp, fun _ _ => rfl, fun _ => rfl⟩
    simp [unlink, Slot.read, hb]
  | cons x l ih =>
    obtain ⟨m, rfl⟩ : ∃ m, n = m + 1 := ⟨n - 1, by omega⟩
    obtain ⟨c, u⟩ := x
    obtain ⟨rfl, next, hb, hrest⟩ := path_cons_iff.mp hp
    obtain ⟨rfl, next', hc, hrest'⟩ := path_cons_iff.mp hrest
    obtain ⟨hbout, hnodup'⟩ := List.nodup_cons.mp hnodup
    obtain ⟨hcout, -⟩ := List.nodup_cons.mp hnodup'
    have hbc : b ≠ c := fun heq => hbout (heq ▸ List.mem_cons_self)
    by_cases hca : c = a
    · subst hca
      -- the pointer in `b` now skips the node
      have hout : b ∉ l.map Prod.fst := fun hmem => hbout (List.mem_cons_of_mem _ hmem)
      refine ⟨Function.update (Function.update h b (some ⟨w, next'⟩)) c (some ⟨u, none⟩),
        ?_, ?_, ?_, ?_⟩
      · simp [unlink, Slot.read, Slot.write, hb, hc, hbc.symm]
      · rw [List.filter_cons_of_neg (by simp), filter_ne hcout]
        refine path_cons_iff.mpr ⟨rfl, next', ?_, hrest'.frame fun d hd => ?_⟩
        · rw [Function.update_of_ne hbc, Function.update_self]
        · rw [Function.update_of_ne (ne_of_mem_of_not_mem hd hcout),
            Function.update_of_ne (ne_of_mem_of_not_mem hd hout)]
      · intro d hd
        simp only [List.map_cons, List.mem_cons, not_or] at hd
        rw [Function.update_of_ne hd.2.1, Function.update_of_ne hd.1]
      · have hc' : Function.update h b (some ⟨w, next'⟩) c = some ⟨u, next'⟩ := by
          rw [Function.update_of_ne hbc.symm, hc]
        exact fun d => (value_update hc' none d).trans (value_update hb next' d)
    · obtain ⟨h', hunlink, hpath, hsame, hvalues⟩ := ih hrest hnodup' (Nat.lt_of_succ_lt_succ hn)
      refine ⟨h', ?_, ?_, fun d hd => hsame d fun hmem => hd (List.mem_cons_of_mem _ hmem),
        hvalues⟩
      · rw [unlink, Slot.read, hb]
        simpa [hca] using hunlink
      · rw [List.filter_cons_of_pos (by simpa using hca)]
        exact path_cons_iff.mpr ⟨rfl, some c, (hsame b hbout).trans hb, hpath⟩

/-- Taking out a node, or looking for one that is not there. -/
theorem Path.unlink (hp : Path h head l) (hnodup : (l.map Prod.fst).Nodup) (hn : l.length < n)
    (a : A) :
    ∃ h' head', LinkedLists.unlink h head a n .head = some (h', head') ∧
      Path h' head' (l.filter fun x => x.1 ≠ a) ∧ (∀ c, c ∉ l.map Prod.fst → h' c = h c) ∧
      ∀ c, (h' c).map Node.value = (h c).map Node.value := by
  obtain ⟨m, rfl⟩ : ∃ m, n = m + 1 := ⟨n - 1, by omega⟩
  cases l with
  | nil =>
    obtain rfl := path_nil_iff.mp hp
    exact ⟨h, none, rfl, hp, fun _ _ => rfl, fun _ => rfl⟩
  | cons x l =>
    obtain ⟨b, w⟩ := x
    obtain ⟨rfl, next, hb, hrest⟩ := path_cons_iff.mp hp
    obtain ⟨hbout, -⟩ := List.nodup_cons.mp hnodup
    by_cases hba : b = a
    · subst hba
      refine ⟨Function.update h b (some ⟨w, none⟩), next, ?_, ?_, ?_, ?_⟩
      · simp [LinkedLists.unlink, Slot.read, Slot.write, hb]
      · rw [List.filter_cons_of_neg (by simp), filter_ne hbout]
        exact hrest.frame fun d hd => Function.update_of_ne (ne_of_mem_of_not_mem hd hbout) ..
      · intro d hd
        refine Function.update_of_ne ?_ ..
        rintro rfl
        exact hd List.mem_cons_self
      · exact value_update hb none
    · obtain ⟨h', hunlink, hpath, hsame, hvalues⟩ :=
        hp.unlink_next (some b) a hnodup (Nat.lt_of_succ_lt_succ hn)
      refine ⟨h', some b, ?_, ?_, hsame, hvalues⟩
      · rw [LinkedLists.unlink, Slot.read]
        simpa [hba] using hunlink
      · rwa [List.filter_cons_of_pos (by simpa using hba)]

end VmodWasm.Lib.LinkedLists
