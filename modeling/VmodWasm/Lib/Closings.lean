import Mathlib.Data.List.Nodup
import VmodWasm.Lib.Handles

/-!
Handles that are closed once. A log records what each call of close has met:
the handle its descriptor stood for, or nothing. A system whose calls only meet
open handles, each time different ones, closes no handle twice, and the handles
it has opened are open or in the log.
-/
namespace VmodWasm.Lib.Closings

open Handles

variable {P : Type}

/-- The numbers of the handles that calls of close have met. -/
def closedIds (closes : List (Option (Handle P))) : List ℕ :=
  closes.filterMap fun met => met.map Handle.id

/-- Open handles have different numbers. Every close has met an open handle, no two
the same one, and the handles no longer open are those that were met. -/
structure ClosedOnce (system : ℕ → Option (Handle P)) (opened : ℕ)
    (closes : List (Option (Handle P))) : Prop where
  id_lt : ∀ fd h, system fd = some h → h.id < opened
  id_inj : ∀ fd fd' h h', system fd = some h → system fd' = some h' → h.id = h'.id → fd = fd'
  met : ∀ x ∈ closes, x ≠ none
  once : (closedIds closes).Nodup
  closed_lt : ∀ id ∈ closedIds closes, id < opened
  closed_iff : ∀ id < opened,
    id ∈ closedIds closes ↔ ∀ fd h, system fd = some h → h.id ≠ id

variable {system : ℕ → Option (Handle P)} {opened : ℕ} {closes : List (Option (Handle P))}

theorem mem_closedIds_map {fds : List ℕ} {id : ℕ} :
    id ∈ closedIds (fds.map system) ↔ ∃ fd ∈ fds, ∃ h, system fd = some h ∧ h.id = id := by
  simp [closedIds]

theorem closedOnce_empty : ClosedOnce (fun _ => none : ℕ → Option (Handle P)) 0 [] where
  id_lt _ _ hh := by contradiction
  id_inj _ _ _ _ hh := by contradiction
  met _ hx := absurd hx List.not_mem_nil
  once := List.nodup_nil
  closed_lt _ hid := absurd hid List.not_mem_nil
  closed_iff id hid := absurd hid (Nat.not_lt_zero id)

theorem ClosedOnce.close (h : ClosedOnce system opened closes) (fds : List ℕ)
    (hnodup : fds.Nodup) (hopen : ∀ fd ∈ fds, system fd ≠ none) :
    ClosedOnce (fun fd => if fd ∈ fds then none else system fd) opened
      (closes ++ fds.map system) := by
  have happend : closedIds (closes ++ fds.map system) =
      closedIds closes ++ closedIds (fds.map system) := List.filterMap_append
  have hleft (fd : ℕ) (g : Handle P) (hg : (if fd ∈ fds then none else system fd) = some g) :
      system fd = some g ∧ fd ∉ fds := by
    split at hg
    · contradiction
    next hout => exact ⟨hg, hout⟩
  constructor
  · intro fd g hg
    exact h.id_lt fd g (hleft fd g hg).1
  · intro fd fd' g g' hg hg'
    exact h.id_inj fd fd' g g' (hleft fd g hg).1 (hleft fd' g' hg').1
  · intro x hx
    rcases List.mem_append.mp hx with hx | hx
    · exact h.met x hx
    · obtain ⟨fd, hfd, rfl⟩ := List.mem_map.mp hx
      exact hopen fd hfd
  · rw [happend]
    refine List.nodup_append.mpr ⟨h.once, ?_, ?_⟩
    · rw [closedIds, List.filterMap_map]
      refine hnodup.filterMap ?_
      intro fd fd' id hfd hfd'
      simp only [Function.comp_apply, Option.mem_def, Option.map_eq_some_iff] at hfd hfd'
      obtain ⟨g, hg, rfl⟩ := hfd
      obtain ⟨g', hg', hid⟩ := hfd'
      exact h.id_inj fd fd' g g' hg hg' hid.symm
    · intro id hold id' hnew hsame
      obtain ⟨fd, -, g, hg, hid⟩ := mem_closedIds_map.mp hnew
      exact (h.closed_iff id (h.closed_lt id hold)).mp hold fd g hg (hid.trans hsame.symm)
  · intro id hid
    rw [happend] at hid
    rcases List.mem_append.mp hid with hold | hnew
    · exact h.closed_lt id hold
    · obtain ⟨fd, -, g, hg, rfl⟩ := mem_closedIds_map.mp hnew
      exact h.id_lt fd g hg
  · intro id hid
    rw [happend, List.mem_append, h.closed_iff id hid, mem_closedIds_map]
    constructor
    · rintro (hold | ⟨fd, hfd, g, hg, rfl⟩) fd' g' hg' hsame
      · exact hold fd' g' (hleft fd' g' hg').1 hsame
      · obtain ⟨hg', hout⟩ := hleft fd' g' hg'
        rw [h.id_inj fd' fd g' g hg' hg hsame] at hout
        exact hout hfd
    · intro hgone
      by_contra hnot
      push Not at hnot
      obtain ⟨⟨fd, g, hg, hsame⟩, hnew⟩ := hnot
      by_cases hfd : fd ∈ fds
      · exact hnew fd hfd g hg hsame
      · exact hgone fd g (by rw [if_neg hfd, hg]) hsame

theorem ClosedOnce.openHandle (h : ClosedOnce system opened closes) (fd : ℕ) (info : P)
    (hfd : system fd = none) :
    ClosedOnce (Function.update system fd (some ⟨opened, info⟩)) (opened + 1) closes := by
  constructor
  · intro fd' g hg
    rcases update_some _ _ _ _ _ hg with ⟨-, heq⟩ | ⟨-, hg⟩
    · rw [← Option.some.inj heq]
      exact Nat.lt_succ_self _
    · exact Nat.lt_succ_of_lt (h.id_lt fd' g hg)
  · intro fd₁ fd₂ g₁ g₂ hg₁ hg₂ hid
    rcases update_some _ _ _ _ _ hg₁ with ⟨hfd₁, heq₁⟩ | ⟨-, hg₁⟩ <;>
      rcases update_some _ _ _ _ _ hg₂ with ⟨hfd₂, heq₂⟩ | ⟨-, hg₂⟩
    · rw [hfd₁, hfd₂]
    · rw [← Option.some.inj heq₁] at hid
      exact absurd hid (Nat.ne_of_gt (h.id_lt fd₂ g₂ hg₂))
    · rw [← Option.some.inj heq₂] at hid
      exact absurd hid (Nat.ne_of_lt (h.id_lt fd₁ g₁ hg₁))
    · exact h.id_inj fd₁ fd₂ g₁ g₂ hg₁ hg₂ hid
  · exact h.met
  · exact h.once
  · intro id hid
    exact Nat.lt_succ_of_lt (h.closed_lt id hid)
  · intro id hid
    rcases Nat.lt_succ_iff_lt_or_eq.mp hid with hlt | rfl
    · rw [h.closed_iff id hlt]
      constructor
      · intro hgone fd' g hg
        rcases update_some _ _ _ _ _ hg with ⟨-, heq⟩ | ⟨-, hg⟩
        · rw [← Option.some.inj heq]
          exact Nat.ne_of_gt hlt
        · exact hgone fd' g hg
      · intro hgone fd' g hg
        have hne : fd' ≠ fd := by
          rintro rfl
          rw [hfd] at hg
          contradiction
        exact hgone fd' g ((Function.update_of_ne hne _ _).trans hg)
    · refine iff_of_false (fun hid => Nat.lt_irrefl _ (h.closed_lt _ hid)) ?_
      intro hgone
      exact hgone fd _ (Function.update_self ..) rfl

end VmodWasm.Lib.Closings
