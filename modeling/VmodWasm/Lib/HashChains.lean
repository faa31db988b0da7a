import Mathlib.Data.List.Forall2
import Mathlib.Logic.Function.Basic

/-!
Hash tables with chaining. A table maps each bucket to its chain; an element
carries its key, is looked for in the chain of the key's bucket, and is put at
the head of a chain. Such a table is a map from keys to elements: pushing and
changing an element is an update at its key, and as long as only new keys are
pushed a key has at most one element, in its own bucket.
-/
namespace VmodWasm.Lib.HashChains

variable {K B E : Type} [DecidableEq K] [DecidableEq B]

/-- Apply `f` to the first element that satisfies `p`. -/
def modifyFirst (p : E → Bool) (f : E → E) : List E → List E
  | [] => []
  | e :: es => if p e then f e :: es else e :: modifyFirst p f es

omit [DecidableEq K] [DecidableEq B] in
theorem modifyFirst_append (p : E → Bool) (f : E → E) (before behind : List E) (e : E)
    (hbefore : ∀ d ∈ before, p d = false) (he : p e = true) :
    modifyFirst p f (before ++ e :: behind) = before ++ f e :: behind := by
  induction before with
  | nil => simp [modifyFirst, he]
  | cons d before ih =>
    obtain ⟨hd, hbefore⟩ := List.forall_mem_cons.mp hbefore
    simp [modifyFirst, hd, ih hbefore]

omit [DecidableEq K] [DecidableEq B] in
theorem modifyFirst_split (p : E → Bool) (f : E → E) (es : List E) (e : E)
    (h : es.find? p = some e) :
    ∃ before behind, es = before ++ e :: behind ∧
      modifyFirst p f es = before ++ f e :: behind := by
  obtain ⟨he, before, behind, rfl, hbefore⟩ := List.find?_eq_some_iff_append.mp h
  exact ⟨before, behind, rfl, modifyFirst_append p f before behind e (by simpa using hbefore) he⟩

omit [DecidableEq K] [DecidableEq B] in
/-- The first element that satisfies `p`, by its place. -/
theorem modifyFirst_eq_set (p : E → Bool) (f : E → E) {es : List E} {i : ℕ} {e : E}
    (hi : es.findIdx? p = some i) (he : es[i]? = some e) :
    es.find? p = some e ∧ modifyFirst p f es = es.set i (f e) := by
  induction es generalizing i with
  | nil => contradiction
  | cons d es ih =>
    rw [List.findIdx?_cons] at hi
    rw [List.find?_cons, modifyFirst]
    cases hd : p d with
    | true =>
      rw [hd, if_pos rfl] at hi
      injection hi with hi
      subst hi
      injection he with he
      subst he
      exact ⟨rfl, rfl⟩
    | false =>
      rw [hd, if_neg Bool.false_ne_true] at hi
      obtain ⟨j, hj, rfl⟩ := Option.map_eq_some_iff.mp hi
      obtain ⟨hfind, hset⟩ := ih hj he
      rw [if_neg Bool.false_ne_true, hset]
      exact ⟨hfind, rfl⟩

omit [DecidableEq K] [DecidableEq B] in
theorem find?_eq_none_of_findIdx? {p : E → Bool} {es : List E} (h : es.findIdx? p = none) :
    es.find? p = none := by
  refine List.find?_eq_none.mpr fun e he => ?_
  rw [List.findIdx?_eq_none_iff.mp h e he]
  exact Bool.false_ne_true

section Pointwise

variable {F : Type} {R R' : E → F → Prop} {p : E → Bool} {q : F → Bool} {es : List E} {fs : List F}

omit [DecidableEq K] [DecidableEq B] in
/-- Looking for corresponding elements in corresponding chains. -/
theorem forall₂_find? (h : List.Forall₂ R es fs) (hp : ∀ e f, R e f → p e = q f) :
    Option.Rel R (es.find? p) (fs.find? q) := by
  induction h with
  | nil => exact .none
  | @cons e f es fs hr _ ih =>
    rw [List.find?_cons, List.find?_cons, ← hp e f hr]
    cases p e with
    | true => exact .some hr
    | false => exact ih

omit [DecidableEq K] [DecidableEq B] in
/-- Changing the first ones that correspond, where no other one matches. -/
theorem forall₂_modifyFirst {u : E → E} {v : F → F} {e₀ : E} {f₀ : F} (h : List.Forall₂ R es fs)
    (hp : ∀ e f, R e f → p e = q f) (hfind : es.find? p = some e₀) (hfind' : fs.find? q = some f₀)
    (hone : es.Pairwise fun e e' => p e = true → p e' = false)
    (hothers : ∀ e f, R e f → p e = false → R' e f) (hfirst : R' (u e₀) (v f₀)) :
    List.Forall₂ R' (modifyFirst p u es) (modifyFirst q v fs) := by
  induction h with
  | nil => contradiction
  | @cons e f es fs hr hrest ih =>
    obtain ⟨hhead, htail⟩ := List.pairwise_cons.mp hone
    rw [modifyFirst, modifyFirst, ← hp e f hr]
    cases he : p e with
    | true =>
      rw [List.find?_cons_of_pos he, Option.some.injEq] at hfind
      rw [List.find?_cons_of_pos (hp e f hr ▸ he), Option.some.injEq] at hfind'
      subst hfind hfind'
      refine .cons hfirst ?_
      have hmem : ∀ e' ∈ es, p e' = false := fun e' he' => hhead e' he' he
      clear ih htail hhead hone
      induction hrest with
      | nil => exact .nil
      | @cons e' f' es fs hr' _ ih =>
        exact .cons (hothers e' f' hr' (hmem e' List.mem_cons_self))
          (ih fun e'' he'' => hmem e'' (List.mem_cons_of_mem _ he''))
    | false =>
      rw [List.find?_cons_of_neg (by simp [he])] at hfind
      rw [List.find?_cons_of_neg (by simp [← hp e f hr, he])] at hfind'
      exact .cons (hothers e f hr he) (ih hfind hfind' htail)

end Pointwise

omit [DecidableEq K] [DecidableEq B] in
/-- An element put in front of a chain is the last one in the order of age. -/
theorem getElem?_reverse_cons (e : E) (es : List E) (i : ℕ) :
    (e :: es).reverse[i]? = if i = es.length then some e else es.reverse[i]? := by
  rw [List.reverse_cons, List.getElem?_append, List.length_reverse]
  rcases Nat.lt_trichotomy i es.length with hlt | rfl | hgt
  · rw [if_pos hlt, if_neg (Nat.ne_of_lt hlt)]
  · simp
  · rw [if_neg (Nat.lt_asymm hgt), if_neg (Nat.ne_of_gt hgt),
      List.getElem?_eq_none (by rw [List.length_singleton]; omega),
      List.getElem?_eq_none (by rw [List.length_reverse]; omega)]

omit [DecidableEq K] [DecidableEq B] in
theorem getElem?_reverse_replace (newer older : List E) (e e' : E) (i : ℕ) :
    (newer ++ e' :: older).reverse[i]? =
      if i = older.length then some e' else (newer ++ e :: older).reverse[i]? := by
  have hset : (newer ++ e' :: older).reverse =
      (newer ++ e :: older).reverse.set older.length e' := by simp
  rw [hset]
  by_cases hi : i = older.length
  · rw [if_pos hi, hi, List.getElem?_set_self (by simp)]
  · rw [if_neg hi, List.getElem?_set_ne (Ne.symm hi)]

variable (hash : K → B) (key : E → K)

def find (t : B → List E) (k : K) : Option E := (t (hash k)).find? fun e => key e = k

def push (t : B → List E) (k : K) (e : E) : B → List E :=
  Function.update t (hash k) (e :: t (hash k))

def modify (t : B → List E) (k : K) (f : E → E) : B → List E :=
  Function.update t (hash k) (modifyFirst (fun e => key e = k) f (t (hash k)))

theorem find_push (t : B → List E) (k : K) (e : E) (he : key e = k) :
    find hash key (push hash t k e) = Function.update (find hash key t) k (some e) := by
  funext k'
  by_cases hk : k' = k
  · subst hk
    simp [find, push, he]
  · rw [Function.update_of_ne hk]
    by_cases hb : hash k' = hash k
    · simp [find, push, hb, he, Ne.symm hk]
    · simp [find, push, Function.update_of_ne hb]

theorem find?_modifyFirst_self (k : K) (f : E → E) (hf : ∀ e, key (f e) = key e) (es : List E) :
    (modifyFirst (fun e => key e = k) f es).find? (fun e => key e = k) =
      (es.find? fun e => key e = k).map f := by
  induction es with
  | nil => rfl
  | cons e es ih =>
    by_cases he : key e = k
    · simp [modifyFirst, he, hf]
    · simp [modifyFirst, he, ih]

theorem find?_modifyFirst_of_ne (k k' : K) (hk : k' ≠ k) (f : E → E)
    (hf : ∀ e, key (f e) = key e) (es : List E) :
    (modifyFirst (fun e => key e = k) f es).find? (fun e => key e = k') =
      es.find? fun e => key e = k' := by
  induction es with
  | nil => rfl
  | cons e es ih =>
    by_cases he : key e = k
    · simp [modifyFirst, he, hf, Ne.symm hk]
    · by_cases he' : key e = k'
      · simp [modifyFirst, he', hk]
      · simp [modifyFirst, he, he', ih]

theorem find_modify (t : B → List E) (k : K) (f : E → E) (hf : ∀ e, key (f e) = key e) :
    find hash key (modify hash key t k f) =
      Function.update (find hash key t) k ((find hash key t k).map f) := by
  funext k'
  by_cases hk : k' = k
  · subst hk
    simp [find, modify, find?_modifyFirst_self key k' f hf]
  · rw [Function.update_of_ne hk]
    by_cases hb : hash k' = hash k
    · simp [find, modify, hb, find?_modifyFirst_of_ne key k k' hk f hf]
    · simp [find, modify, Function.update_of_ne hb]

omit [DecidableEq K] in
theorem map_modifyFirst (p : E → Bool) (f : E → E) (hf : ∀ e, key (f e) = key e) (es : List E) :
    (modifyFirst p f es).map key = es.map key := by
  induction es with
  | nil => rfl
  | cons e es ih =>
    by_cases he : p e = true
    · simp [modifyFirst, he, hf]
    · simp [modifyFirst, he, ih]

omit [DecidableEq K] in
theorem mem_push (t : B → List E) (k : K) (e d : E) (b : B) (h : d ∈ push hash t k e b) :
    (b = hash k ∧ d = e) ∨ d ∈ t b := by
  by_cases hb : b = hash k
  · subst hb
    rw [push, Function.update_self, List.mem_cons] at h
    exact h.imp (fun hd => ⟨rfl, hd⟩) id
  · rw [push, Function.update_of_ne hb] at h
    exact Or.inr h

omit [DecidableEq K] [DecidableEq B] in
theorem mem_modifyFirst (p : E → Bool) (f : E → E) (d : E) (es : List E)
    (h : d ∈ modifyFirst p f es) : d ∈ es ∨ ∃ e ∈ es, d = f e := by
  induction es with
  | nil => exact Or.inl h
  | cons e es ih =>
    rw [modifyFirst] at h
    split at h
    · rcases List.mem_cons.mp h with rfl | h
      · exact Or.inr ⟨e, List.mem_cons_self, rfl⟩
      · exact Or.inl (List.mem_cons_of_mem _ h)
    · rcases List.mem_cons.mp h with rfl | h
      · exact Or.inl List.mem_cons_self
      · rcases ih h with h | ⟨e', he', hd⟩
        · exact Or.inl (List.mem_cons_of_mem _ h)
        · exact Or.inr ⟨e', List.mem_cons_of_mem _ he', hd⟩

theorem mem_modify (t : B → List E) (k : K) (f : E → E) (d : E) (b : B)
    (h : d ∈ modify hash key t k f b) : d ∈ t b ∨ ∃ e ∈ t b, d = f e := by
  by_cases hb : b = hash k
  · subst hb
    rw [modify, Function.update_self] at h
    exact mem_modifyFirst _ f d _ h
  · rw [modify, Function.update_of_ne hb] at h
    exact Or.inl h

/-- Every element is in the chain of its key, and has the key for itself. -/
structure WellPlaced (t : B → List E) : Prop where
  home : ∀ b, ∀ e ∈ t b, hash (key e) = b
  single : ∀ b, ((t b).map key).Nodup

theorem WellPlaced.push {t : B → List E} (h : WellPlaced hash key t) (k : K) (e : E)
    (he : key e = k) (hnew : find hash key t k = none) :
    WellPlaced hash key (push hash t k e) where
  home b d hd := by
    rcases mem_push hash t k e d b hd with ⟨rfl, rfl⟩ | hd
    · rw [he]
    · exact h.home b d hd
  single b := by
    by_cases hb : b = hash k
    · subst hb
      rw [HashChains.push, Function.update_self, List.map_cons, List.nodup_cons]
      refine ⟨?_, h.single _⟩
      rw [he, List.mem_map]
      rintro ⟨d, hd, hkey⟩
      exact List.find?_eq_none.mp hnew d hd (by simpa using hkey)
    · rw [HashChains.push, Function.update_of_ne hb]
      exact h.single b

theorem WellPlaced.modify {t : B → List E} (h : WellPlaced hash key t) (k : K) (f : E → E)
    (hf : ∀ e, key (f e) = key e) : WellPlaced hash key (modify hash key t k f) where
  home b d hd := by
    rcases mem_modify hash key t k f d b hd with hd | ⟨e, he, rfl⟩
    · exact h.home b d hd
    · rw [hf]
      exact h.home b e he
  single b := by
    by_cases hb : b = hash k
    · subst hb
      rw [HashChains.modify, Function.update_self, map_modifyFirst key _ f hf]
      exact h.single _
    · rw [HashChains.modify, Function.update_of_ne hb]
      exact h.single b

/-- Where elements are well placed, the elements of a key are the one found. -/
theorem WellPlaced.filter_eq {t : B → List E} (h : WellPlaced hash key t) (k : K) (b : B) :
    (t b).filter (fun e => key e = k) =
      if b = hash k then (find hash key t k).toList else [] := by
  by_cases hb : b = hash k
  · subst hb
    rw [if_pos rfl, find]
    have hsingle := h.single (hash k)
    generalize t (hash k) = es at hsingle ⊢
    induction es with
    | nil => rfl
    | cons e es ih =>
      rw [List.map_cons, List.nodup_cons] at hsingle
      by_cases he : key e = k
      · have hrest : es.filter (fun d => key d = k) = [] := by
          rw [List.filter_eq_nil_iff]
          intro d hd hkey
          exact hsingle.1 (List.mem_map.mpr ⟨d, hd, by rw [he]; simpa using hkey⟩)
        simp [he, hrest]
      · simp [he, ih hsingle.2]
  · rw [if_neg hb, List.filter_eq_nil_iff]
    intro e he hkey
    have hhome := h.home b e he
    rw [show key e = k by simpa using hkey] at hhome
    exact hb hhome.symm

end VmodWasm.Lib.HashChains
