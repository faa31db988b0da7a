import Mathlib.Data.List.Induction
import Mathlib.Data.List.Nodup

/-!
A table of state machines, one for each key, with a bound on its size. An event
goes to the machine of its key; the first event of a key creates the machine if
there is still room. The table is compared with independent machines: a key
that found room has exactly one machine, which has seen the events of its key
and no others.
-/
namespace VmodWasm.Lib.KeyedMachines

/-- A kind of machine that carries its key. -/
structure Kind (K S E : Type) where
  key : S → K
  fresh : K → S
  step : S → E → S
  key_fresh : ∀ k, key (fresh k) = k
  key_step : ∀ s e, key (step s e) = key s

variable {K S E : Type} [DecidableEq K] (kind : Kind K S E) (cap : ℕ)

/-- Find the machine of a key, or make one at the end of the table. -/
def findOrCreate (t : List S) (k : K) : Option ℕ × List S :=
  match t.findIdx? fun s => kind.key s = k with
  | some i => (some i, t)
  | none => if cap ≤ t.length then (none, t) else (some t.length, t ++ [kind.fresh k])

def dispatch (t : List S) (ev : K × E) : List S :=
  match findOrCreate kind cap t ev.1 with
  | (some i, t) => t.modify i fun s => kind.step s ev.2
  | (none, t) => t

def runTable (evs : List (K × E)) : List S := evs.foldl (dispatch kind cap) []

/-- The machines of a key. -/
def machinesOf (t : List S) (k : K) : List S := t.filter fun s => kind.key s = k

/-- The keys of a history in the order of their first events. -/
def firstKeys (evs : List (K × E)) : List K :=
  evs.foldl (fun ks ev => if ev.1 ∈ ks then ks else ks ++ [ev.1]) []

def ownEvents (k : K) (evs : List (K × E)) : List E :=
  (evs.filter fun ev => ev.1 = k).map Prod.snd

/-- The machine of a key on its own. -/
def ownMachine (k : K) (evs : List (K × E)) : S := (ownEvents k evs).foldl kind.step (kind.fresh k)

/-- A search ends at a machine of the key, gives up, or makes a new machine. -/
theorem findOrCreate_cases (t : List S) (k : K) :
    (∃ i, ∃ s ∈ machinesOf kind t k, findOrCreate kind cap t k = (some i, t) ∧ t[i]? = some s) ∨
    findOrCreate kind cap t k = (none, t) ∧ machinesOf kind t k = [] ∨
    findOrCreate kind cap t k = (some t.length, t ++ [kind.fresh k]) ∧
      machinesOf kind t k = [] := by
  unfold findOrCreate
  cases hfind : t.findIdx? fun s => kind.key s = k with
  | some i =>
    obtain ⟨hi, hkey, _⟩ := List.findIdx?_eq_some_iff_getElem.mp hfind
    refine Or.inl ⟨i, t[i], ?_, rfl, List.getElem?_eq_getElem hi⟩
    exact List.mem_filter.mpr ⟨List.getElem_mem hi, hkey⟩
  | none =>
    have hnone : machinesOf kind t k = [] := by
      rw [machinesOf, List.filter_eq_nil_iff]
      intro s hs
      simpa using List.findIdx?_eq_none_iff.mp hfind s hs
    dsimp only
    split
    · exact Or.inr (Or.inl ⟨rfl, hnone⟩)
    · exact Or.inr (Or.inr ⟨rfl, hnone⟩)

theorem firstKeys_snoc (evs : List (K × E)) (k : K) (e : E) :
    firstKeys (evs ++ [(k, e)]) =
      if k ∈ firstKeys evs then firstKeys evs else firstKeys evs ++ [k] := by
  rw [firstKeys, List.foldl_append]
  rfl

theorem mem_firstKeys (k : K) (evs : List (K × E)) :
    k ∈ firstKeys evs ↔ k ∈ evs.map Prod.fst := by
  induction evs using List.reverseRecOn with
  | nil => simp [firstKeys]
  | append_singleton evs ev ih =>
    obtain ⟨k', e⟩ := ev
    rw [firstKeys_snoc, List.map_append, List.mem_append, ← ih]
    by_cases hk' : k' ∈ firstKeys evs
    · simpa [if_pos hk'] using fun h : k = k' => h ▸ hk'
    · simp [if_neg hk']

theorem ownEvents_eq_nil (k : K) (evs : List (K × E)) (h : k ∉ firstKeys evs) :
    ownEvents k evs = [] := by
  rw [mem_firstKeys] at h
  rw [ownEvents, List.map_eq_nil_iff, List.filter_eq_nil_iff]
  intro ev hev
  simpa using fun hk : ev.1 = k => h (hk ▸ List.mem_map_of_mem hev)

theorem firstKeys_nodup (evs : List (K × E)) : (firstKeys evs).Nodup := by
  induction evs using List.reverseRecOn with
  | nil => exact List.nodup_nil
  | append_singleton evs ev ih =>
    obtain ⟨k, e⟩ := ev
    rw [firstKeys_snoc]
    split
    next => exact ih
    next hk =>
      refine List.nodup_append.mpr ⟨ih, List.nodup_singleton k, ?_⟩
      intro a ha b hb hab
      exact hk (List.mem_singleton.mp hb ▸ hab ▸ ha)

theorem ownMachine_snoc (k k' : K) (e : E) (evs : List (K × E)) :
    ownMachine kind k' (evs ++ [(k, e)]) =
      if k' = k then kind.step (ownMachine kind k evs) e else ownMachine kind k' evs := by
  split
  next h => simp [h, ownMachine, ownEvents]
  next h => simp [ownMachine, ownEvents, Ne.symm h]

omit [DecidableEq K] in
theorem key_foldl (es : List E) (s : S) : kind.key (es.foldl kind.step s) = kind.key s := by
  induction es generalizing s with
  | nil => rfl
  | cons e es ih => rw [List.foldl_cons, ih, kind.key_step]

@[simp] theorem key_ownMachine (k : K) (evs : List (K × E)) :
    kind.key (ownMachine kind k evs) = k := by
  rw [ownMachine, key_foldl, kind.key_fresh]

theorem modify_at (pre : List S) (s : S) (post : List S) (g : S → S) :
    (pre ++ s :: post).modify pre.length g = pre ++ g s :: post := by
  induction pre with
  | nil => rfl
  | cons a pre ih => simpa using ih

/-- One event on a table that holds one machine for each of its keys. -/
theorem dispatch_map (ks : List K) (f : K → S) (hkey : ∀ k, kind.key (f k) = k) (hks : ks.Nodup)
    (k : K) (e : E) :
    dispatch kind cap (ks.map f) (k, e) =
      if k ∈ ks then ks.map fun k' => if k' = k then kind.step (f k) e else f k'
      else if cap ≤ ks.length then ks.map f
      else ks.map f ++ [kind.step (kind.fresh k) e] := by
  have hfind : (ks.map f).findIdx? (fun s => kind.key s = k) = ks.findIdx? (· = k) := by
    simp [List.findIdx?_map, Function.comp_def, hkey]
  unfold dispatch findOrCreate
  rw [hfind]
  by_cases hk : k ∈ ks
  · rw [if_pos hk]
    obtain ⟨pre, post, rfl⟩ := List.append_of_mem hk
    have hpre : k ∉ pre := fun h => (List.nodup_append.mp hks).2.2 k h k (by simp) rfl
    have hpost : k ∉ post := (List.nodup_cons.mp (List.nodup_append.mp hks).2.1).1
    have hidx : (pre ++ k :: post).findIdx? (· = k) = some pre.length := by
      rw [List.findIdx?_eq_some_iff_getElem]
      refine ⟨by simp, by simp, ?_⟩
      intro j hj
      rw [List.getElem_append_left hj]
      simpa using fun h : pre[j] = k => hpre (h ▸ List.getElem_mem hj)
    have hmap (l : List K) (hl : k ∉ l) :
        l.map (fun k' => if k' = k then kind.step (f k) e else f k') = l.map f :=
      List.map_congr_left fun k' hk' => if_neg fun h : k' = k => hl (h ▸ hk')
    simp only [hidx, List.map_append, List.map_cons, hmap pre hpre, hmap post hpost, if_true]
    simpa using modify_at (pre.map f) (f k) (post.map f) fun s => kind.step s e
  · rw [if_neg hk]
    have hidx : ks.findIdx? (· = k) = none := by
      rw [List.findIdx?_eq_none_iff]
      intro x hx
      simpa using fun h : x = k => hk (h ▸ hx)
    simp only [hidx, List.length_map]
    by_cases hfull : cap ≤ ks.length
    · simp only [if_pos hfull]
    · simp only [if_neg hfull]
      simpa using modify_at (ks.map f) (kind.fresh k) [] fun s => kind.step s e

/-- The table holds the machines of the first keys, each on its own. -/
theorem runTable_eq (evs : List (K × E)) :
    runTable kind cap evs = ((firstKeys evs).take cap).map fun k => ownMachine kind k evs := by
  induction evs using List.reverseRecOn with
  | nil => simp [runTable, firstKeys]
  | append_singleton evs ev ih =>
    obtain ⟨k, e⟩ := ev
    have hnodup := firstKeys_nodup evs
    have hstep : runTable kind cap (evs ++ [(k, e)]) =
        dispatch kind cap (runTable kind cap evs) (k, e) := by
      simp [runTable]
    have hother (l : List K) (hl : k ∉ l) :
        l.map (fun k' => ownMachine kind k' (evs ++ [(k, e)])) =
          l.map fun k' => ownMachine kind k' evs := by
      apply List.map_congr_left
      intro k' hk'
      rw [ownMachine_snoc, if_neg fun h : k' = k => hl (h ▸ hk')]
    rw [hstep, ih, dispatch_map kind cap _ _ (fun k => key_ownMachine kind k evs)
      (hnodup.sublist (List.take_sublist ..)), firstKeys_snoc]
    by_cases htake : k ∈ (firstKeys evs).take cap
    · rw [if_pos htake, if_pos (List.mem_of_mem_take htake)]
      simp only [ownMachine_snoc]
    · rw [if_neg htake]
      by_cases hfirst : k ∈ firstKeys evs
      · -- the key came too late, so the table was full then and is full now
        have hfull : cap ≤ (firstKeys evs).length := by
          by_contra hlt
          exact htake (by rwa [List.take_of_length_le (by omega)])
        rw [if_pos (by rw [List.length_take]; omega), if_pos hfirst, hother _ htake]
      · rw [if_neg hfirst, List.length_take]
        by_cases hroom : cap ≤ (firstKeys evs).length
        · rw [if_pos (by omega), List.take_append_of_le_length hroom, hother _ htake]
        · rw [if_neg (by omega), List.take_of_length_le (by omega),
            List.take_of_length_le (by rw [List.length_append, List.length_singleton]; omega),
            List.map_append, hother _ hfirst]
          have hnone : ownEvents k evs = [] := ownEvents_eq_nil k evs hfirst
          rw [List.map_singleton, ownMachine_snoc, if_pos rfl, ownMachine, hnone, List.foldl_nil]

/-- Keys may be renamed. -/
theorem firstKeys_map {K' : Type} [DecidableEq K'] (f : K → K') (hf : Function.Injective f)
    (evs : List (K × E)) :
    firstKeys (evs.map fun ev => (f ev.1, ev.2)) = (firstKeys evs).map f := by
  induction evs using List.reverseRecOn with
  | nil => rfl
  | append_singleton evs ev ih =>
    rw [List.map_append, List.map_singleton, firstKeys_snoc, firstKeys_snoc, ih]
    by_cases hev : ev.1 ∈ firstKeys evs
    · rw [if_pos hev, if_pos (List.mem_map_of_mem hev)]
    · rw [if_neg hev, if_neg (by rwa [List.mem_map_of_injective hf]), List.map_append,
        List.map_singleton]

theorem ownEvents_map {K' : Type} [DecidableEq K'] (f : K → K') (hf : Function.Injective f)
    (k : K) (evs : List (K × E)) :
    ownEvents (f k) (evs.map fun ev => (f ev.1, ev.2)) = ownEvents k evs := by
  simp only [ownEvents, List.filter_map, List.map_map, Function.comp_def, hf.eq_iff]

/-- A key that found room has exactly one machine, its own; another has none. -/
theorem machinesOf_runTable (evs : List (K × E)) (k : K) :
    machinesOf kind (runTable kind cap evs) k =
      if k ∈ (firstKeys evs).take cap then [ownMachine kind k evs] else [] := by
  have hnodup := (firstKeys_nodup evs).sublist (List.take_sublist cap _)
  have hfilter : ((firstKeys evs).take cap).filter (· = k) =
      if k ∈ (firstKeys evs).take cap then [k] else [] := by
    rw [List.filter_eq, hnodup.count]
    split <;> rfl
  rw [runTable_eq, machinesOf, List.filter_map]
  simp only [Function.comp_def, key_ownMachine, hfilter]
  split <;> rfl

end VmodWasm.Lib.KeyedMachines
