import VmodWasm.Lib.LinkedLists
import VmodWasm.Lib.Mealy

/-!
The registry of VCLs and their engines. The load of a VCL makes an engine and
links a node for the VCL into a global list; the private record of the VCL, if
it has one, points to the node. A load that finds the VCL registered, or for
which Varnish refuses the delivery processor, takes everything back. A discard
finds the node by the private record or else by the VCL.
-/
namespace VmodWasm.VclRegistry

open Lib.LinkedQueues Lib.LinkedLists Lib.Mealy

variable {H P : Type} [DecidableEq H] [DecidableEq P]

/-- `struct vmod_wasm_vcl`, without `next`. Engines are numbered as they are made. -/
structure VclNode (H : Type) where
  vcl : H
  engine : ℕ

/-- The list `vwasm_vcls`, the nodes in memory and the contents of the private
records. `nodes` counts the nodes there have been; `destroyed` lists the engines in
the order in which they were destroyed. `fault` is up when the code has followed a
pointer to no node. -/
structure Registry (H P : Type) where
  heap : Heap ℕ (VclNode H) := fun _ => none
  vcls : Option ℕ := none
  priv : P → Option ℕ := fun _ => none
  nodes : ℕ := 0
  engines : ℕ := 0
  destroyed : List ℕ := []
  fault : Bool := false

def vmodWasmFindVclLocked (s : Registry H P) (vcl : H) : Option (Option ℕ) :=
  search s.heap (fun vwv => vwv.vcl = vcl) s.nodes s.vcls

def vmodWasmUnlinkVclLocked (s : Registry H P) (node : ℕ) : Option (Registry H P) :=
  (unlink s.heap s.vcls node (s.nodes + 1) .head).map fun r => { s with heap := r.1, vcls := r.2 }

/-- `none` inside is NULL. -/
def vmodWasmGetEngine (s : Registry H P) : Option H → Option (Option ℕ)
  | none => some none
  | some vcl =>
    (vmodWasmFindVclLocked s vcl).bind fun found =>
      match found with
      | none => some none
      | some vwv => (s.heap vwv).map fun node => some node.value.engine

/-- `priv->priv` is cleared if it points to the node. -/
def clearPriv (s : Registry H P) (priv : Option P) (vwv : ℕ) : Registry H P :=
  match priv with
  | none => s
  | some p => if s.priv p = some vwv then { s with priv := Function.update s.priv p none } else s

/-- `vwasm_engine_destroy` on the engine of the node, and `free`. -/
def destroyNode (s : Registry H P) (vwv : ℕ) : Option (Registry H P) :=
  (s.heap vwv).map fun node =>
    { s with
      heap := Function.update s.heap vwv none
      destroyed := s.destroyed ++ [node.value.engine] }

/-- What a discard and a load that Varnish refuses do with the node. -/
def release (s : Registry H P) (priv : Option P) (vwv : ℕ) : Option (Registry H P) :=
  (vmodWasmUnlinkVclLocked s vwv).bind fun s => destroyNode (clearPriv s priv vwv) vwv

/-- A new node with a new engine, not linked in yet. -/
def allocated (s : Registry H P) (vcl : H) (vwv : ℕ) : Registry H P :=
  { s with
    heap := Function.update s.heap vwv (some ⟨⟨vcl, s.engines⟩, none⟩)
    nodes := s.nodes + 1
    engines := s.engines + 1 }

def linkVcl (s : Registry H P) (priv : Option P) (vwv : ℕ) : Registry H P :=
  let r := link s.heap s.vcls vwv
  { s with
    heap := r.1
    vcls := r.2
    priv := match priv with
      | none => s.priv
      | some p => Function.update s.priv p (some vwv) }

/-- `node` is the address that `calloc` returns; `engineNew` and `addFilter` say
whether `vwasm_engine_new` and `VRT_AddFilter` succeed. -/
inductive EventKind where
  | load (node : Option ℕ) (engineNew addFilter : Bool)
  | warm
  | cold
  | discard

/-- The result and the registry after an event. -/
def vmodEvent (s : Registry H P) (vcl : H) (priv : Option P) : EventKind → Option (Int × Registry H P)
  | .load none _ _ => some (-1, s)
  | .load (some vwv) engineNew addFilter =>
    if engineNew = false then some (-1, s)
    else
      let s := allocated s vcl vwv
      (vmodWasmFindVclLocked s vcl).bind fun found =>
        match found with
        | some _ => (destroyNode s vwv).map fun s => (-1, s)
        | none =>
          let s := linkVcl s priv vwv
          if addFilter then some (0, s) else (release s priv vwv).map fun s => (-1, s)
  | .discard =>
    let node :=
      match priv.bind s.priv with
      | some vwv => some (some vwv)
      | none => vmodWasmFindVclLocked s vcl
    node.bind fun node =>
      match node with
      | none => some (0, s)
      | some vwv => (release s priv vwv).map fun s => (0, s)
  | .warm => some (0, s)
  | .cold => some (0, s)

structure VclEvent (H : Type) where
  vcl : H
  kind : EventKind

/-- One event; `privOf` gives the private record that the events of a VCL carry. -/
def registryStep (privOf : H → Option P) (s : Registry H P) (e : VclEvent H) :
    Int × Registry H P :=
  (vmodEvent s e.vcl (privOf e.vcl) e.kind).getD (-1, { s with fault := true })

/-- The contract of `calloc`: a node that is not in use. -/
def CallocFree (s : Registry H P) (e : VclEvent H) : Prop :=
  match e.kind with
  | .load (some vwv) _ _ => s.heap vwv = none
  | _ => True

section History

/-- What the events and their results tell: how many engines were made, for each
VCL the engine of its last successful load since its last discard, and the engines
whose load has failed or whose VCL was discarded. -/
structure History (H : Type) where
  made : ℕ := 0
  engine : H → Option ℕ := fun _ => none
  ended : List ℕ := []

def History.record (h : History H) (r : VclEvent H × Int) : History H :=
  match r.1.kind with
  | .load (some _) true _ =>
    if r.2 = 0 then
      { h with made := h.made + 1, engine := Function.update h.engine r.1.vcl (some h.made) }
    else { h with made := h.made + 1, ended := h.ended ++ [h.made] }
  | .discard =>
    { h with
      engine := Function.update h.engine r.1.vcl none
      ended := h.ended ++ (h.engine r.1.vcl).toList }
  | _ => h

/-- Every engine that was made belongs to one VCL or has ended once. -/
structure History.Settled (h : History H) : Prop where
  engine_lt : ∀ v e, h.engine v = some e → e < h.made
  engine_inj : ∀ v w e, h.engine v = some e → h.engine w = some e → v = w
  nodup : h.ended.Nodup
  mem_iff : ∀ e, e ∈ h.ended ↔ e < h.made ∧ ∀ v, h.engine v ≠ some e

omit [DecidableEq H] in
theorem History.settled_init : History.Settled ({} : History H) where
  engine_lt := by simp
  engine_inj := by simp
  nodup := List.nodup_nil
  mem_iff := by simp

/-- A successful load finds no engine of its VCL. -/
def LoadsFresh (h : History H) (r : VclEvent H × Int) : Prop :=
  match r.1.kind with
  | .load _ _ _ => r.2 = 0 → h.engine r.1.vcl = none
  | _ => True

variable {h : History H} {v : H}

theorem update_eq_some_iff {f : H → Option ℕ} {x : Option ℕ} {w : H} {e : ℕ} :
    Function.update f v x w = some e ↔ (w = v ∧ x = some e) ∨ (w ≠ v ∧ f w = some e) := by
  by_cases hw : w = v
  · simp [hw]
  · simp [hw]

theorem History.Settled.load (hs : h.Settled) (hnone : h.engine v = none) :
    History.Settled { h with
      made := h.made + 1, engine := Function.update h.engine v (some h.made) } where
  engine_lt w e he := by
    rcases update_eq_some_iff.mp he with ⟨-, he⟩ | ⟨-, he⟩
    · exact Option.some.inj he ▸ Nat.lt_succ_self _
    · exact Nat.lt_succ_of_lt (hs.engine_lt w e he)
  engine_inj w w' e he he' := by
    -- the new engine has a number that no other VCL's engine has
    have hlt (u : H) (hu : h.engine u = some e) : h.made ≠ e := (hs.engine_lt u e hu).ne'
    rcases update_eq_some_iff.mp he with ⟨hw, hnew⟩ | ⟨-, hold⟩
    · rcases update_eq_some_iff.mp he' with ⟨hw', -⟩ | ⟨-, hold'⟩
      · exact hw.trans hw'.symm
      · exact absurd (Option.some.inj hnew) (hlt w' hold')
    · rcases update_eq_some_iff.mp he' with ⟨-, hnew'⟩ | ⟨-, hold'⟩
      · exact absurd (Option.some.inj hnew') (hlt w hold)
      · exact hs.engine_inj w w' e hold hold'
  nodup := hs.nodup
  mem_iff e := by
    rw [hs.mem_iff]
    constructor
    · rintro ⟨hlt, hnot⟩
      refine ⟨Nat.lt_succ_of_lt hlt, fun w he => ?_⟩
      rcases update_eq_some_iff.mp he with ⟨-, he⟩ | ⟨-, he⟩
      · have := Option.some.inj he
        omega
      · exact hnot w he
    · rintro ⟨hlt, hnot⟩
      have hmade : e ≠ h.made := by
        rintro rfl
        exact hnot v (Function.update_self ..)
      refine ⟨Nat.lt_of_le_of_ne (Nat.le_of_lt_succ hlt) hmade, fun w he => ?_⟩
      refine hnot w (update_eq_some_iff.mpr (Or.inr ⟨?_, he⟩))
      rintro rfl
      rw [hnone] at he
      contradiction

omit [DecidableEq H] in
theorem History.Settled.fail (hs : h.Settled) :
    History.Settled { h with made := h.made + 1, ended := h.ended ++ [h.made] } where
  engine_lt w e he := Nat.lt_succ_of_lt (hs.engine_lt w e he)
  engine_inj := hs.engine_inj
  nodup := by
    refine List.nodup_append.mpr ⟨hs.nodup, List.nodup_singleton _, ?_⟩
    intro e he e' he' heq
    have := ((hs.mem_iff e).mp he).1
    have := List.mem_singleton.mp he'
    omega
  mem_iff e := by
    rw [List.mem_append, List.mem_singleton, hs.mem_iff]
    constructor
    · rintro (⟨hlt, hnot⟩ | rfl)
      · exact ⟨Nat.lt_succ_of_lt hlt, hnot⟩
      · exact ⟨Nat.lt_succ_self _, fun w he => Nat.lt_irrefl _ (hs.engine_lt w _ he)⟩
    · rintro ⟨hlt, hnot⟩
      rcases Nat.lt_succ_iff_lt_or_eq.mp hlt with hlt | rfl
      · exact Or.inl ⟨hlt, hnot⟩
      · exact Or.inr rfl

theorem History.Settled.discard (hs : h.Settled) (v : H) :
    History.Settled { h with
      engine := Function.update h.engine v none, ended := h.ended ++ (h.engine v).toList } where
  engine_lt w e he := by
    rcases update_eq_some_iff.mp he with ⟨-, he⟩ | ⟨-, he⟩
    · contradiction
    · exact hs.engine_lt w e he
  engine_inj w w' e he he' := by
    rcases update_eq_some_iff.mp he with ⟨-, he⟩ | ⟨-, he⟩
    · contradiction
    · rcases update_eq_some_iff.mp he' with ⟨-, he'⟩ | ⟨-, he'⟩
      · contradiction
      · exact hs.engine_inj w w' e he he'
  nodup := by
    refine List.nodup_append.mpr ⟨hs.nodup, ?_, ?_⟩
    · cases h.engine v <;> simp
    · rintro e he e' he' rfl
      exact ((hs.mem_iff e).mp he).2 v (Option.mem_toList.mp he')
  mem_iff e := by
    rw [List.mem_append, Option.mem_toList, hs.mem_iff]
    constructor
    · rintro (⟨hlt, hnot⟩ | he)
      · refine ⟨hlt, fun w he => ?_⟩
        rcases update_eq_some_iff.mp he with ⟨-, he⟩ | ⟨-, he⟩
        · contradiction
        · exact hnot w he
      · refine ⟨hs.engine_lt v e he, fun w he' => ?_⟩
        rcases update_eq_some_iff.mp he' with ⟨-, he'⟩ | ⟨hw, he'⟩
        · contradiction
        · exact hw (hs.engine_inj w v e he' he)
    · rintro ⟨hlt, hnot⟩
      by_cases hv : h.engine v = some e
      · exact Or.inr hv
      · refine Or.inl ⟨hlt, fun w he => hnot w (update_eq_some_iff.mpr (Or.inr ⟨?_, he⟩))⟩
        rintro rfl
        exact hv he

theorem History.Settled.record (hs : h.Settled) (r : VclEvent H × Int) (hfresh : LoadsFresh h r) :
    (h.record r).Settled := by
  unfold History.record
  unfold LoadsFresh at hfresh
  split
  next hkind =>
    split
    next hret =>
      rw [hkind] at hfresh
      exact hs.load (hfresh hret)
    next => exact hs.fail
  next => exact hs.discard r.1.vcl
  next => exact hs

end History

section Events

/-- The nodes of the list: one for each VCL. A private record points to the node of
its VCL, if to any. -/
structure Sound (privOf : H → Option P) (s : Registry H P) (l : List (ℕ × VclNode H)) : Prop where
  path : Path s.heap s.vcls l
  nodup : (l.map Prod.fst).Nodup
  handles : (l.map fun x => x.2.vcl).Nodup
  bound : l.length ≤ s.nodes
  priv : ∀ p a, s.priv p = some a → ∃ n, (a, n) ∈ l ∧ privOf n.vcl = some p
  fault : s.fault = false

variable {privOf : H → Option P} {s : Registry H P} {l : List (ℕ × VclNode H)}

omit [DecidableEq P] in
theorem Sound.find (hs : Sound privOf s l) (vcl : H) :
    (vmodWasmFindVclLocked s vcl = some none ∧ ∀ x ∈ l, x.2.vcl ≠ vcl) ∨
    ∃ a n, (a, n) ∈ l ∧ n.vcl = vcl ∧ vmodWasmFindVclLocked s vcl = some (some a) := by
  have hfind := hs.path.search (fun n => n.vcl = vcl) hs.bound
  cases hx : l.find? fun x => decide (x.2.vcl = vcl) with
  | none =>
    rw [hx] at hfind
    refine Or.inl ⟨hfind, fun x hmem heq => ?_⟩
    exact List.find?_eq_none.mp hx x hmem (decide_eq_true heq)
  | some x =>
    rw [hx] at hfind
    refine Or.inr ⟨x.1, x.2, List.mem_of_find?_eq_some hx, ?_, hfind⟩
    simpa using List.find?_some hx

omit [DecidableEq H] [DecidableEq P] in
theorem Sound.eq_of_fst (hs : Sound privOf s l) {a : ℕ} {n m : VclNode H} (hn : (a, n) ∈ l)
    (hm : (a, m) ∈ l) : n = m := by
  have := List.inj_on_of_nodup_map hs.nodup hn hm rfl
  exact (Prod.mk.inj this).2

omit [DecidableEq H] in
theorem clearPriv_eq (s : Registry H P) (priv : Option P) (a : ℕ) :
    clearPriv s priv a = { s with priv := (clearPriv s priv a).priv } := by
  unfold clearPriv
  repeat' split
  all_goals rfl

omit [DecidableEq H] in
theorem clearPriv_priv {priv : Option P} {a b : ℕ} {p : P}
    (h : (clearPriv s priv a).priv p = some b) : s.priv p = some b ∧ (priv = some p → b ≠ a) := by
  unfold clearPriv at h
  split at h
  · exact ⟨h, by simp⟩
  next q =>
    split at h
    next hq =>
      by_cases hp : p = q
      · simp [hp] at h
      · dsimp only at h
        rw [Function.update_of_ne hp] at h
        exact ⟨h, fun heq => absurd (Option.some.inj heq).symm hp⟩
    next hq =>
      refine ⟨h, fun heq hb => hq ?_⟩
      rw [Option.some.inj heq, h, hb]

omit [DecidableEq H] in
/-- The node is taken out of the list and its engine destroyed. -/
theorem Sound.release (hs : Sound privOf s l) {a : ℕ} {n : VclNode H} (hmem : (a, n) ∈ l) :
    ∃ s', VclRegistry.release s (privOf n.vcl) a = some s' ∧
      Sound privOf s' (l.filter fun x => x.1 ≠ a) ∧ s'.engines = s.engines ∧
      s'.destroyed = s.destroyed ++ [n.engine] := by
  obtain ⟨heap', vcls', hunlink, hpath, -, hvalues⟩ :=
    hs.path.unlink hs.nodup (Nat.lt_succ_of_le hs.bound) a
  obtain ⟨next, hnode⟩ := hs.path.value hmem
  obtain ⟨node, hnode', hvalue⟩ : ∃ node, heap' a = some node ∧ node.value = n := by
    have := hvalues a
    rw [hnode] at this
    exact Option.map_eq_some_iff.mp this
  have hsub : (l.filter fun x => x.1 ≠ a).Sublist l := List.filter_sublist
  refine ⟨{ s with
      heap := Function.update heap' a none
      vcls := vcls'
      priv := (clearPriv { s with heap := heap', vcls := vcls' } (privOf n.vcl) a).priv
      destroyed := s.destroyed ++ [n.engine] }, ?_,
    ⟨?_, hs.nodup.sublist (hsub.map _), hs.handles.sublist (hsub.map _),
      (List.length_filter_le ..).trans hs.bound, ?_, hs.fault⟩, rfl, rfl⟩
  · rw [VclRegistry.release, vmodWasmUnlinkVclLocked, hunlink, Option.map_some, Option.bind_some,
      clearPriv_eq, destroyNode]
    dsimp only
    rw [hnode', Option.map_some, hvalue]
  · refine hpath.frame fun b hb => Function.update_of_ne ?_ ..
    rintro rfl
    simp at hb
  · intro p b hp
    obtain ⟨hold, hne⟩ := clearPriv_priv hp
    obtain ⟨m, hm, hprivOf⟩ := hs.priv p b hold
    refine ⟨m, List.mem_filter.mpr ⟨hm, decide_eq_true ?_⟩, hprivOf⟩
    rintro rfl
    exact hne (hs.eq_of_fst hmem hm ▸ hprivOf) rfl

omit [DecidableEq H] [DecidableEq P] in
theorem Sound.ne_of_free (hs : Sound privOf s l) {a b : ℕ} (hfree : s.heap a = none)
    (hb : b ∈ l.map Prod.fst) : b ≠ a := by
  rintro rfl
  exact Chain.allocated hs.path b hb hfree

omit [DecidableEq H] [DecidableEq P] in
theorem Sound.alloc (hs : Sound privOf s l) {a : ℕ} (hfree : s.heap a = none) (vcl : H) :
    Sound privOf (allocated s vcl a) l where
  path := hs.path.frame fun _ hb => Function.update_of_ne (hs.ne_of_free hfree hb) ..
  nodup := hs.nodup
  handles := hs.handles
  bound := Nat.le_succ_of_le hs.bound
  priv := hs.priv
  fault := hs.fault

omit [DecidableEq H] in
/-- The node of a VCL that is not registered is linked in. -/
theorem Sound.link (hs : Sound privOf s l) {a : ℕ} (hfree : s.heap a = none) {vcl : H}
    (hnew : ∀ x ∈ l, x.2.vcl ≠ vcl) :
    Sound privOf (linkVcl (allocated s vcl a) (privOf vcl) a) ((a, ⟨vcl, s.engines⟩) :: l) := by
  obtain ⟨hlink, hpath⟩ := hs.path.link hfree (⟨vcl, s.engines⟩ : VclNode H)
  have haout : a ∉ l.map Prod.fst := fun hmem => hs.ne_of_free hfree hmem rfl
  unfold linkVcl allocated
  rw [hlink]
  refine ⟨hpath, List.nodup_cons.mpr ⟨haout, hs.nodup⟩, List.nodup_cons.mpr ⟨?_, hs.handles⟩,
    Nat.succ_le_succ hs.bound, ?_, hs.fault⟩
  · intro hmem
    obtain ⟨x, hx, heq⟩ := List.mem_map.mp hmem
    exact hnew x hx heq
  · intro p b hp
    have hold (h : s.priv p = some b) :
        ∃ n, (b, n) ∈ (a, ⟨vcl, s.engines⟩) :: l ∧ privOf n.vcl = some p := by
      obtain ⟨n, hn, hprivOf⟩ := hs.priv p b h
      exact ⟨n, List.mem_cons_of_mem _ hn, hprivOf⟩
    cases hq : privOf vcl with
    | none =>
      simp only [hq] at hp
      exact hold hp
    | some q =>
      simp only [hq] at hp
      by_cases hpq : p = q
      · subst hpq
        rw [Function.update_self] at hp
        obtain rfl := Option.some.inj hp
        exact ⟨_, List.mem_cons_self, hq⟩
      · rw [Function.update_of_ne hpq] at hp
        exact hold hp

/-- The list holds the engines that the history tells of. -/
structure Represents (privOf : H → Option P) (s : Registry H P) (h : History H)
    (l : List (ℕ × VclNode H)) : Prop extends Sound privOf s l where
  made : h.made = s.engines
  ended : h.ended = s.destroyed
  engine : ∀ v e, h.engine v = some e ↔ ∃ a, (a, ⟨v, e⟩) ∈ l

variable {h : History H}

omit [DecidableEq H] [DecidableEq P] in
theorem Represents.engine_eq_none_iff (hr : Represents privOf s h l) (v : H) :
    h.engine v = none ↔ ∀ x ∈ l, x.2.vcl ≠ v := by
  constructor
  · rintro hnone ⟨a, n⟩ hx rfl
    have := (hr.engine n.vcl n.engine).mpr ⟨a, hx⟩
    rw [hnone] at this
    contradiction
  · intro hall
    cases he : h.engine v with
    | none => rfl
    | some e =>
      obtain ⟨a, ha⟩ := (hr.engine v e).mp he
      exact absurd rfl (hall _ ha)

omit [DecidableEq P] in
theorem Represents.getEngine (hr : Represents privOf s h l) (v : H) :
    vmodWasmGetEngine s (some v) = some (h.engine v) := by
  rw [vmodWasmGetEngine]
  rcases hr.toSound.find v with ⟨hfind, hall⟩ | ⟨a, n, hmem, rfl, hfind⟩
  · rw [hfind, (hr.engine_eq_none_iff v).mpr hall]
    rfl
  · obtain ⟨next, hnode⟩ := hr.path.value hmem
    rw [hfind, (hr.engine n.vcl n.engine).mpr ⟨a, hmem⟩, Option.bind_some]
    dsimp only
    rw [hnode]
    rfl

/-- A load succeeds if there is memory, the engine and the delivery processor come
up and the VCL has no engine. -/
def LoadOk (h : History H) (vcl : H) (node : Option ℕ) (engineNew addFilter : Bool) : Prop :=
  node.isSome = true ∧ engineNew = true ∧ addFilter = true ∧ h.engine vcl = none

def ExpectedResult (h : History H) (e : VclEvent H) (ret : Int) : Prop :=
  match e.kind with
  | .load node engineNew addFilter =>
    ret = 0 ∧ LoadOk h e.vcl node engineNew addFilter ∨
      ret = -1 ∧ ¬ LoadOk h e.vcl node engineNew addFilter
  | _ => ret = 0

/-- The step of the registry and the history together. -/
def Follows (privOf : H → Option P) (s : Registry H P) (h : History H) (e : VclEvent H) : Prop :=
  ∃ ret s' l', vmodEvent s e.vcl (privOf e.vcl) e.kind = some (ret, s') ∧
    ExpectedResult h e ret ∧ Represents privOf s' (h.record (e, ret)) l'

theorem Represents.load (hr : Represents privOf s h l) (vcl : H) (vwv : ℕ) (addFilter : Bool)
    (hfree : s.heap vwv = none) : Follows privOf s h ⟨vcl, .load (some vwv) true addFilter⟩ := by
  have halloc := hr.toSound.alloc hfree vcl
  unfold Follows
  simp only [vmodEvent, reduceCtorEq, if_false]
  rcases halloc.find vcl with ⟨hfind, hnew⟩ | ⟨a, n, hmem, rfl, hfind⟩
  · have hlink := hr.toSound.link hfree hnew
    have hnone := (hr.engine_eq_none_iff vcl).mpr hnew
    rw [hfind, Option.bind_some]
    cases addFilter with
    | true =>
      refine ⟨0, _, _, rfl, Or.inl ⟨rfl, rfl, rfl, rfl, hnone⟩, hlink, ?_, hr.ended, ?_⟩
      · exact congrArg (· + 1) hr.made
      · intro v e
        refine update_eq_some_iff.trans ?_
        rw [hr.engine, hr.made]
        constructor
        · rintro (⟨rfl, he⟩ | ⟨-, a, ha⟩)
          · exact ⟨vwv, Option.some.inj he ▸ List.mem_cons_self⟩
          · exact ⟨a, List.mem_cons_of_mem _ ha⟩
        · rintro ⟨a, ha⟩
          rcases List.mem_cons.mp ha with heq | ha
          · obtain ⟨-, hnode⟩ := Prod.mk.inj heq
            obtain ⟨rfl, rfl⟩ := VclNode.mk.inj hnode
            exact Or.inl ⟨rfl, rfl⟩
          · exact Or.inr ⟨hnew _ ha, a, ha⟩
    | false =>
      -- taking the new node out again leaves the list as it was
      obtain ⟨s', hrelease, hsound, hengines, hdestroyed⟩ := hlink.release List.mem_cons_self
      rw [List.filter_cons_of_neg (by simp), filter_ne fun hb => hr.ne_of_free hfree hb rfl]
        at hsound
      refine ⟨-1, s', l, ?_, Or.inr ⟨rfl, fun hok => Bool.false_ne_true hok.2.2.1⟩, hsound, ?_, ?_,
        hr.engine⟩
      · exact congrArg (Option.map _) hrelease
      · exact (congrArg (· + 1) hr.made).trans hengines.symm
      · rw [hdestroyed]
        exact congrArg₂ (fun d e => d ++ [e]) hr.ended hr.made
  · have hnode : (allocated s n.vcl vwv).heap vwv = some ⟨⟨n.vcl, s.engines⟩, none⟩ :=
      Function.update_self ..
    rw [hfind, Option.bind_some, destroyNode, hnode]
    have hsome : h.engine n.vcl ≠ none := by
      rw [(hr.engine n.vcl n.engine).mpr ⟨a, hmem⟩]
      exact Option.some_ne_none _
    refine ⟨-1, _, l, rfl, Or.inr ⟨rfl, fun hok => hsome hok.2.2.2⟩, ⟨?_, hr.nodup, hr.handles,
      Nat.le_succ_of_le hr.bound, hr.priv, hr.fault⟩, ?_, ?_, hr.engine⟩
    · exact halloc.path.frame fun b hb => Function.update_of_ne (hr.ne_of_free hfree hb) ..
    · exact congrArg (· + 1) hr.made
    · exact congrArg₂ (fun d e => d ++ [e]) hr.ended hr.made

/-- A discard finds the node of its VCL, whichever way it looks. -/
theorem Sound.discard (hpriv : ∀ v w p, privOf v = some p → privOf w = some p → v = w)
    (hs : Sound privOf s l) (vcl : H) :
    (vmodEvent s vcl (privOf vcl) .discard = some (0, s) ∧ ∀ x ∈ l, x.2.vcl ≠ vcl) ∨
    ∃ a n, (a, n) ∈ l ∧ n.vcl = vcl ∧ vmodEvent s vcl (privOf vcl) .discard =
      (VclRegistry.release s (privOf vcl) a).map fun s => (0, s) := by
  simp only [vmodEvent]
  cases hp : (privOf vcl).bind s.priv with
  | none =>
    rcases hs.find vcl with ⟨hfind, hall⟩ | ⟨a, n, hmem, hvcl, hfind⟩
    · exact Or.inl ⟨by rw [hfind]; rfl, hall⟩
    · exact Or.inr ⟨a, n, hmem, hvcl, by rw [hfind]; rfl⟩
  | some a =>
    obtain ⟨p, hprivOf, hp⟩ := Option.bind_eq_some_iff.mp hp
    obtain ⟨n, hmem, hprivOf'⟩ := hs.priv p a hp
    exact Or.inr ⟨a, n, hmem, hpriv n.vcl vcl p hprivOf' hprivOf, rfl⟩

theorem Represents.discard (hpriv : ∀ v w p, privOf v = some p → privOf w = some p → v = w)
    (hr : Represents privOf s h l) (vcl : H) : Follows privOf s h ⟨vcl, .discard⟩ := by
  rcases hr.toSound.discard hpriv vcl with ⟨hevent, hall⟩ | ⟨a, n, hmem, rfl, hevent⟩
  · have hnone := (hr.engine_eq_none_iff vcl).mpr hall
    refine ⟨0, s, l, hevent, rfl, hr.toSound, hr.made, ?_, fun v e => ?_⟩
    · rw [History.record]
      dsimp only
      rw [hnone, Option.toList_none, List.append_nil, hr.ended]
    · rw [← hr.engine]
      refine update_eq_some_iff.trans ⟨?_, fun he => Or.inr ⟨?_, he⟩⟩
      · rintro (⟨-, he⟩ | ⟨-, he⟩)
        · contradiction
        · exact he
      · rintro rfl
        rw [hnone] at he
        contradiction
  · have hengine := (hr.engine n.vcl n.engine).mpr ⟨a, hmem⟩
    obtain ⟨s', hrelease, hsound, hengines, hdestroyed⟩ := hr.toSound.release hmem
    refine ⟨0, s', _, ?_, rfl, hsound, hr.made.trans hengines.symm, ?_, fun v e => ?_⟩
    · rw [hevent, hrelease]
      rfl
    · rw [hdestroyed, ← hr.ended, History.record]
      dsimp only
      rw [hengine]
      rfl
    · refine update_eq_some_iff.trans ?_
      rw [hr.engine]
      constructor
      · rintro (⟨-, he⟩ | ⟨hne, b, hb⟩)
        · contradiction
        · refine ⟨b, List.mem_filter.mpr ⟨hb, decide_eq_true ?_⟩⟩
          rintro rfl
          exact hne (congrArg VclNode.vcl (hr.eq_of_fst hb hmem))
      · rintro ⟨b, hb⟩
        obtain ⟨hb, hba⟩ := List.mem_filter.mp hb
        refine Or.inr ⟨?_, b, hb⟩
        rintro rfl
        -- one node for a handle
        have heq := List.inj_on_of_nodup_map hr.handles hb hmem rfl
        exact of_decide_eq_true hba (congrArg Prod.fst heq)

theorem Represents.step (hpriv : ∀ v w p, privOf v = some p → privOf w = some p → v = w)
    (hr : Represents privOf s h l) (e : VclEvent H) (hfree : CallocFree s e) :
    Follows privOf s h e := by
  obtain ⟨vcl, kind⟩ := e
  have hsame (ret : Int) (hevent : vmodEvent s vcl (privOf vcl) kind = some (ret, s))
      (hret : ExpectedResult h ⟨vcl, kind⟩ ret) (hrecord : h.record (⟨vcl, kind⟩, ret) = h) :
      Follows privOf s h ⟨vcl, kind⟩ := ⟨ret, s, l, hevent, hret, hrecord.symm ▸ hr⟩
  cases kind with
  | load node engineNew addFilter =>
    cases node with
    | none => exact hsame (-1) rfl (Or.inr ⟨rfl, fun hok => Bool.false_ne_true hok.1⟩) rfl
    | some vwv =>
      cases engineNew with
      | false => exact hsame (-1) rfl (Or.inr ⟨rfl, fun hok => Bool.false_ne_true hok.2.1⟩) rfl
      | true => exact hr.load vcl vwv addFilter hfree
  | warm => exact hsame 0 rfl rfl rfl
  | cold => exact hsame 0 rfl rfl rfl
  | discard => exact hr.discard hpriv vcl

end Events

section Runs

def registryAfter (privOf : H → Option P) (events : List (VclEvent H)) : Registry H P :=
  after (registryStep privOf) {} events

/-- The history of the events with the results that the code gave. -/
def historyOf (privOf : H → Option P) (events : List (VclEvent H)) : History H :=
  (transcript (registryStep privOf) {} events).foldl History.record {}

/-- The engine that the code gives for a VCL. -/
def engineFor (privOf : H → Option P) (events : List (VclEvent H)) (v : H) : Option (Option ℕ) :=
  vmodWasmGetEngine (registryAfter privOf events) (some v)

/-- Every VCL has the engine of its last successful load until it is discarded,
and every other engine that was made has been destroyed once. -/
structure Isolates (privOf : H → Option P) (events : List (VclEvent H)) : Prop where
  noFault : (registryAfter privOf events).fault = false
  oneNode : ∃ l, Path (registryAfter privOf events).heap (registryAfter privOf events).vcls l ∧
    (l.map fun x => x.2.vcl).Nodup
  engine : ∀ v, engineFor privOf events v = some ((historyOf privOf events).engine v)
  others : ∀ pre e, pre ++ [e] <+: events → ∀ v, v ≠ e.vcl →
    engineFor privOf (pre ++ [e]) v = engineFor privOf pre v
  results : ∀ pre e, pre ++ [e] <+: events →
    ExpectedResult (historyOf privOf pre) e (answer (registryStep privOf) {} pre e)
  ended : (registryAfter privOf events).destroyed = (historyOf privOf events).ended
  once : (registryAfter privOf events).destroyed.Nodup
  destroyed : ∀ engine, engine ∈ (registryAfter privOf events).destroyed ↔
    engine < (registryAfter privOf events).engines ∧
      ∀ v, engineFor privOf events v ≠ some (some engine)

variable {privOf : H → Option P}

theorem historyOf_snoc (events : List (VclEvent H)) (e : VclEvent H) :
    historyOf privOf (events ++ [e]) =
      (historyOf privOf events).record (e, answer (registryStep privOf) {} events e) := by
  rw [historyOf, transcript_snoc, List.foldl_append]
  rfl

theorem History.record_engine_of_ne (h : History H) (e : VclEvent H) (ret : Int) {v : H}
    (hv : v ≠ e.vcl) : (h.record (e, ret)).engine v = h.engine v := by
  unfold History.record
  split
  · split
    · exact Function.update_of_ne hv ..
    · rfl
  · exact Function.update_of_ne hv ..
  · rfl

omit [DecidableEq H] in
theorem ExpectedResult.loadsFresh {h : History H} {e : VclEvent H} {ret : Int}
    (hret : ExpectedResult h e ret) : LoadsFresh h (e, ret) := by
  unfold ExpectedResult at hret
  unfold LoadsFresh
  split
  next hkind =>
    rw [hkind] at hret
    rintro rfl
    rcases hret with ⟨-, hok⟩ | ⟨hzero, -⟩
    · exact hok.2.2.2
    · exact absurd hzero (by decide)
  next => trivial

/-- One event more. -/
theorem Follows.snoc {events : List (VclEvent H)} {e : VclEvent H}
    (hf : Follows privOf (registryAfter privOf events) (historyOf privOf events) e) :
    ExpectedResult (historyOf privOf events) e (answer (registryStep privOf) {} events e) ∧
    ∃ l, Represents privOf (registryAfter privOf (events ++ [e])) (historyOf privOf (events ++ [e]))
      l := by
  obtain ⟨ret, s', l', hevent, hret, hr⟩ := hf
  have hstep : registryStep privOf (registryAfter privOf events) e = (ret, s') := by
    rw [registryStep, hevent, Option.getD_some]
  have hanswer : answer (registryStep privOf) {} events e = ret := congrArg Prod.fst hstep
  have hafter : registryAfter privOf (events ++ [e]) = s' :=
    (after_snoc ..).trans (congrArg Prod.snd hstep)
  rw [historyOf_snoc, hanswer, hafter]
  exact ⟨hret, l', hr⟩

variable (hpriv : ∀ v w p, privOf v = some p → privOf w = some p → v = w)

include hpriv

theorem registry_represents (events : List (VclEvent H))
    (hcalloc : InOrder (registryStep privOf) CallocFree {} events) :
    ∃ l, Represents privOf (registryAfter privOf events) (historyOf privOf events) l := by
  induction events using List.reverseRecOn with
  | nil =>
    refine ⟨[], ⟨path_nil_iff.mpr rfl, List.nodup_nil, List.nodup_nil, Nat.le_refl _, ?_, rfl⟩, rfl,
      rfl, ?_⟩
    · intro p a hp
      contradiction
    · simp [historyOf, transcript]
  | append_singleton events e ih =>
    obtain ⟨l, hr⟩ := ih hcalloc.left
    exact (hr.step hpriv e hcalloc.last).snoc.2

theorem registry_expected (events : List (VclEvent H)) (e : VclEvent H)
    (hcalloc : InOrder (registryStep privOf) CallocFree {} (events ++ [e])) :
    ExpectedResult (historyOf privOf events) e (answer (registryStep privOf) {} events e) := by
  obtain ⟨l, hr⟩ := registry_represents hpriv events hcalloc.left
  exact (hr.step hpriv e hcalloc.last).snoc.1

theorem registry_settled (events : List (VclEvent H))
    (hcalloc : InOrder (registryStep privOf) CallocFree {} events) :
    (historyOf privOf events).Settled := by
  induction events using List.reverseRecOn with
  | nil => exact History.settled_init
  | append_singleton events e ih =>
    rw [historyOf_snoc]
    exact (ih hcalloc.left).record _ (registry_expected hpriv events e hcalloc).loadsFresh

theorem engineFor_eq (events : List (VclEvent H))
    (hcalloc : InOrder (registryStep privOf) CallocFree {} events) (v : H) :
    engineFor privOf events v = some ((historyOf privOf events).engine v) := by
  obtain ⟨l, hr⟩ := registry_represents hpriv events hcalloc
  exact hr.getEngine v

/-- The registry keeps VCLs apart over every sequence of events, if the events of a
VCL carry always the same private record, which no other VCL's events carry, or none. -/
theorem registry_isolates (events : List (VclEvent H))
    (hcalloc : InOrder (registryStep privOf) CallocFree {} events) : Isolates privOf events := by
  obtain ⟨l, hr⟩ := registry_represents hpriv events hcalloc
  have hsettled := registry_settled hpriv events hcalloc
  have hengine := engineFor_eq hpriv events hcalloc
  have hpre (pre : List (VclEvent H)) (h : pre <+: events) :
      InOrder (registryStep privOf) CallocFree {} pre := by
    obtain ⟨rest, rfl⟩ := h
    exact hcalloc.left
  refine ⟨hr.fault, ⟨l, hr.path, hr.handles⟩, hengine, ?_, ?_, hr.ended.symm, ?_, ?_⟩
  · intro pre e h v hv
    have hcalloc' := hpre (pre ++ [e]) h
    rw [engineFor_eq hpriv _ hcalloc', engineFor_eq hpriv _ hcalloc'.left, historyOf_snoc,
      History.record_engine_of_ne _ _ _ hv]
  · intro pre e h
    exact registry_expected hpriv pre e (hpre (pre ++ [e]) h)
  · rw [← hr.ended]
    exact hsettled.nodup
  · intro engine
    rw [← hr.ended, ← hr.made, hsettled.mem_iff]
    simp only [hengine, ne_eq, Option.some.injEq]

omit hpriv

/-- VCL 1 has no private record. -/
def ownPriv (v : ℕ) : Option ℕ := if v = 1 then none else some v

/-- Two VCLs, of which the first one is loaded twice, discarded and loaded again, at
an address that was in use before; its third load is refused by Varnish. -/
def reloads : List (VclEvent ℕ) :=
  [⟨0, .load (some 5) true true⟩, ⟨1, .load (some 6) true true⟩, ⟨0, .load (some 7) true true⟩,
    ⟨0, .discard⟩, ⟨0, .load (some 5) true false⟩, ⟨0, .load (some 5) true true⟩, ⟨1, .discard⟩]

theorem reloads_isolated :
    Isolates ownPriv reloads ∧ (registryAfter ownPriv reloads).destroyed = [2, 0, 3, 1] ∧
      engineFor ownPriv reloads 0 = some (some 4) ∧ engineFor ownPriv reloads 1 = some none := by
  refine ⟨registry_isolates ?_ reloads ?_, by decide, by decide, by decide⟩
  · intro v w p hv hw
    unfold ownPriv at hv hw
    split at hv <;> split at hw <;> simp_all
  · repeat' first | exact InOrder.nil _ | refine InOrder.cons _ ?_ ?_
    all_goals first | exact trivial | exact rfl

end Runs

end VmodWasm.VclRegistry
