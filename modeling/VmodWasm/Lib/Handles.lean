import Mathlib.Data.List.Basic
import Mathlib.Logic.Function.Basic
import Mathlib.Logic.Relation

/-!
Handles kept in places for reuse. The system numbers what it opens and gives
it a descriptor, which it may use again once the handle is closed. A place
remembers a descriptor and whether a caller has it; idle places may be handed
out again or closed. Some callers must be given a handle of their own, of which
a condition holds: the invariant says that such a handle is opened for the
call, is held by it as long as it is open, and is never handed over again.
-/
namespace VmodWasm.Lib.Handles

/-- An open object; numbers are never used twice, descriptors are. -/
structure Handle (P : Type) where
  id : ℕ
  info : P

/-- A handle given to a caller, with the number of handles opened before the
call, and whether the caller takes handles that others had. -/
structure Handing (P : Type) where
  handle : Handle P
  since : ℕ
  shares : Bool

@[ext]
structure Table (R T P : Type) where
  place : R → Option (ℕ × Bool)
  system : ℕ → Option (Handle P)
  opened : ℕ
  held : T → Option (Bool × R)
  log : List (Handing P)

variable {R T P : Type}

namespace Table

/-- Open a handle and close it again. -/
def abandon (s : Table R T P) : Table R T P := { s with opened := s.opened + 1 }

/-- Close the handles of some descriptors and forget them. -/
def close (s : Table R T P) (fds : List ℕ) : Table R T P :=
  { s with
    place := fun r => (s.place r).filter fun x => x.1 ∉ fds
    system := fun fd => if fd ∈ fds then none else s.system fd }

variable [DecidableEq R] [DecidableEq T]

/-- Give the handle in a place to a caller. -/
def claim (s : Table R T P) (t : T) (r : R) (fd : ℕ) (h : Handle P) : Table R T P :=
  { s with
    place := Function.update s.place r (some (fd, true))
    held := Function.update s.held t (some (true, r))
    log := s.log ++ [⟨h, s.opened, true⟩] }

/-- Open a handle and give it to a caller, in an empty place. -/
def openAt (s : Table R T P) (t : T) (r : R) (fd : ℕ) (info : P) (shares : Bool) : Table R T P :=
  { place := Function.update s.place r (some (fd, true))
    system := Function.update s.system fd (some ⟨s.opened, info⟩)
    opened := s.opened + 1
    held := Function.update s.held t (some (shares, r))
    log := s.log ++ [⟨⟨s.opened, info⟩, s.opened, shares⟩] }

/-- A caller gives its handle back: closed, or idle in its place. -/
def drop (s : Table R T P) (t : T) (r : R) (fd : ℕ) : Table R T P :=
  { s with
    place := Function.update s.place r none
    system := Function.update s.system fd none
    held := Function.update s.held t none }

def keep (s : Table R T P) (t : T) (r : R) (fd : ℕ) : Table R T P :=
  { s with
    place := Function.update s.place r (some (fd, false))
    held := Function.update s.held t none }

end Table

variable (Admits : P → Prop) (Keeps : Bool → Prop)

/-- What may happen to a table. A caller that does not share is given a handle
of which `Admits` holds, and not one from a place; `Keeps` are the callers that
may leave a handle there. -/
inductive Move [DecidableEq R] [DecidableEq T] : Table R T P → Table R T P → Prop
  | close (s : Table R T P) (fds : List ℕ)
      (hidle : ∀ r fd busy, s.place r = some (fd, busy) → fd ∈ fds → busy = false) :
      Move s (s.close fds)
  | claim (s : Table R T P) (t : T) (r : R) (fd : ℕ) (h : Handle P)
      (hfree : s.held t = none) (hplace : s.place r = some (fd, false))
      (hopen : s.system fd = some h) : Move s (s.claim t r fd h)
  | openAt (s : Table R T P) (t : T) (r : R) (fd : ℕ) (info : P) (shares : Bool)
      (hfree : s.held t = none) (hplace : s.place r = none) (hfd : s.system fd = none)
      (hinfo : shares = false → Admits info) : Move s (s.openAt t r fd info shares)
  | abandon (s : Table R T P) : Move s s.abandon
  | drop (s : Table R T P) (t : T) (r : R) (fd : ℕ) (shares : Bool)
      (hheld : s.held t = some (shares, r)) (hplace : s.place r = some (fd, true)) :
      Move s (s.drop t r fd)
  | keep (s : Table R T P) (t : T) (r : R) (fd : ℕ) (shares : Bool) (hkeeps : Keeps shares)
      (hheld : s.held t = some (shares, r)) (hplace : s.place r = some (fd, true)) :
      Move s (s.keep t r fd)

/-- A handle of one's own: opened for the call, admitted, and not in any other
hand-over. -/
def OwnHandles (log : List (Handing P)) : Prop :=
  ∀ before after (h : Handing P), log = before ++ h :: after → h.shares = false →
    Admits h.handle.info ∧ h.handle.id = h.since ∧
      ∀ g ∈ before ++ after, g.handle.id ≠ h.handle.id

/-- Open handles have different numbers; a place has an open handle, which no other
place has; a caller's place is in use and nobody else's. -/
structure Base (s : Table R T P) : Prop where
  id_lt : ∀ fd h, s.system fd = some h → h.id < s.opened
  id_inj : ∀ fd fd' h h', s.system fd = some h → s.system fd' = some h' → h.id = h'.id → fd = fd'
  place_open : ∀ r fd busy, s.place r = some (fd, busy) → s.system fd ≠ none
  place_inj : ∀ r r' fd busy busy', s.place r = some (fd, busy) →
    s.place r' = some (fd, busy') → r = r'
  held_busy : ∀ t shares r, s.held t = some (shares, r) → ∃ fd, s.place r = some (fd, true)
  held_inj : ∀ t t' shares shares' r, s.held t = some (shares, r) →
    s.held t' = some (shares', r) → t = t'
  log_lt : ∀ h ∈ s.log, h.handle.id < s.opened

structure Inv (s : Table R T P) : Prop extends Base s where
  confined : ∀ h ∈ s.log, h.shares = false → ∀ fd g, s.system fd = some g →
    g.id = h.handle.id → ∃ t r, s.held t = some (false, r) ∧ s.place r = some (fd, true)
  own : OwnHandles Admits s.log

variable {Admits} {Keeps}

theorem OwnHandles.snoc {log : List (Handing P)} {e : Handing P} (hlog : OwnHandles Admits log)
    (hold : ∀ h ∈ log, h.shares = false → e.handle.id ≠ h.handle.id)
    (hnew : e.shares = false → Admits e.handle.info ∧ e.handle.id = e.since ∧
      ∀ g ∈ log, g.handle.id ≠ e.handle.id) : OwnHandles Admits (log ++ [e]) := by
  intro before after h hsplit hshares
  rcases List.eq_nil_or_concat after with rfl | ⟨after, e', rfl⟩
  · obtain ⟨rfl, hlast⟩ := List.append_inj' hsplit rfl
    obtain rfl : e = h := by simpa using hlast
    simpa using hnew hshares
  · rw [List.concat_eq_append, ← List.cons_append, ← List.append_assoc] at hsplit
    obtain ⟨rfl, hlast⟩ := List.append_inj' hsplit rfl
    obtain rfl : e = e' := by simpa using hlast
    obtain ⟨hadmits, hsince, hothers⟩ := hlog before after h rfl hshares
    refine ⟨hadmits, hsince, fun g hg => ?_⟩
    rw [List.concat_eq_append, ← List.append_assoc] at hg
    rcases List.mem_append.mp hg with hg | hg
    · exact hothers g hg
    · rw [List.mem_singleton.mp hg]
      exact hold h (by simp) hshares

theorem update_some [DecidableEq R] {β : Type} (f : R → Option β) (a x : R) (o : Option β) (y : β)
    (h : Function.update f a o x = some y) : (x = a ∧ o = some y) ∨ (x ≠ a ∧ f x = some y) := by
  by_cases hx : x = a
  · subst hx
    rw [Function.update_self] at h
    exact Or.inl ⟨rfl, h⟩
  · rw [Function.update_of_ne hx] at h
    exact Or.inr ⟨hx, h⟩

/-- A store of the same descriptor leaves every place its descriptor. -/
theorem update_flag [DecidableEq R] (place : R → Option (ℕ × Bool)) (r r' : R) (fd fd' : ℕ)
    (old new busy : Bool) (hplace : place r = some (fd, old))
    (h : Function.update place r (some (fd, new)) r' = some (fd', busy)) :
    ∃ busy', place r' = some (fd', busy') := by
  rcases update_some _ _ _ _ _ h with ⟨rfl, heq⟩ | ⟨_, h⟩
  · obtain ⟨rfl, _⟩ : fd = fd' ∧ new = busy := by simpa using heq
    exact ⟨old, hplace⟩
  · exact ⟨busy, h⟩

theorem close_place {s : Table R T P} {fds : List ℕ} {r : R} {fd : ℕ} {busy : Bool} :
    (s.close fds).place r = some (fd, busy) ↔ s.place r = some (fd, busy) ∧ fd ∉ fds := by
  simp [Table.close, Option.filter_eq_some_iff]

theorem close_system {s : Table R T P} {fds : List ℕ} {fd : ℕ} {h : Handle P} :
    (s.close fds).system fd = some h ↔ s.system fd = some h ∧ fd ∉ fds := by
  by_cases hfd : fd ∈ fds <;> simp [Table.close, hfd]

/-- Handles that are idle in some place can be closed. -/
theorem Base.closeIdle [DecidableEq R] [DecidableEq T] {s : Table R T P} (hs : Base s)
    (fds : List ℕ) (hidle : ∀ fd ∈ fds, ∃ r, s.place r = some (fd, false)) :
    Move Admits Keeps s (s.close fds) := by
  refine Move.close s fds fun r fd busy hplace hfd => ?_
  obtain ⟨r', hr'⟩ := hidle fd hfd
  obtain rfl := hs.place_inj r r' fd busy false hplace hr'
  rw [hplace] at hr'
  simpa using hr'

theorem Base.close {s : Table R T P} (hs : Base s) (fds : List ℕ)
    (hidle : ∀ r fd busy, s.place r = some (fd, busy) → fd ∈ fds → busy = false) :
    Base (s.close fds) where
  id_lt fd h hh := hs.id_lt fd h (close_system.mp hh).1
  id_inj fd fd' h h' hh hh' := hs.id_inj fd fd' h h' (close_system.mp hh).1 (close_system.mp hh').1
  place_open r fd busy hr := by
    obtain ⟨hr, hfd⟩ := close_place.mp hr
    obtain ⟨h, hh⟩ := Option.ne_none_iff_exists'.mp (hs.place_open r fd busy hr)
    rw [close_system.mpr ⟨hh, hfd⟩]
    simp
  place_inj r r' fd busy busy' hr hr' :=
    hs.place_inj r r' fd busy busy' (close_place.mp hr).1 (close_place.mp hr').1
  held_busy t shares r ht := by
    obtain ⟨fd, hr⟩ := hs.held_busy t shares r ht
    exact ⟨fd, close_place.mpr ⟨hr, fun hfd => by simpa using hidle r fd true hr hfd⟩⟩
  held_inj := hs.held_inj
  log_lt := hs.log_lt

/-- A caller's place is in use, so an idle place is nobody's. -/
theorem Base.place_ne {s : Table R T P} (hs : Base s) {t : T} {shares : Bool} {r r' : R}
    {fd : ℕ} (hheld : s.held t = some (shares, r)) (hidle : s.place r' = some (fd, false)) :
    r ≠ r' := by
  rintro rfl
  obtain ⟨fd', hbusy⟩ := hs.held_busy t shares r hheld
  rw [hidle] at hbusy
  simp at hbusy

/-- A caller with a handle is not one that is about to get one. -/
theorem Base.not_new {s : Table R T P} (hs : Base s) {t t' : T} {r r' : R} {shares : Bool}
    (hfree : s.held t = none) (hplace : s.place r = none) (ht' : s.held t' = some (shares, r')) :
    r' ≠ r ∧ t' ≠ t := by
  refine ⟨?_, ?_⟩
  · rintro rfl
    obtain ⟨fd', hbusy⟩ := hs.held_busy t' shares r' ht'
    rw [hplace] at hbusy
    contradiction
  · rintro rfl
    rw [hfree] at ht'
    contradiction

/-- A caller that has a handle is another than one whose handle has another
descriptor. -/
theorem holder_ne {s : Table R T P} {t t' : T} {r r' : R} {fd fd' : ℕ} {shares shares' : Bool}
    (hheld : s.held t = some (shares, r)) (hplace : s.place r = some (fd, true))
    (ht' : s.held t' = some (shares', r')) (hr' : s.place r' = some (fd', true)) (hfd : fd' ≠ fd) :
    r' ≠ r ∧ t' ≠ t := by
  have hne : r' ≠ r := by
    rintro rfl
    rw [hplace] at hr'
    exact hfd (by simpa using hr'.symm)
  refine ⟨hne, ?_⟩
  rintro rfl
  rw [hheld] at ht'
  exact hne (by simpa using (congrArg (Option.map Prod.snd) ht').symm)

theorem Base.abandon {s : Table R T P} (hs : Base s) : Base s.abandon where
  id_lt fd h hh := Nat.lt_succ_of_lt (hs.id_lt fd h hh)
  id_inj := hs.id_inj
  place_open := hs.place_open
  place_inj := hs.place_inj
  held_busy := hs.held_busy
  held_inj := hs.held_inj
  log_lt h hh := Nat.lt_succ_of_lt (hs.log_lt h hh)

section Moves

variable [DecidableEq R] [DecidableEq T] {s : Table R T P}

theorem Base.claim (hs : Base s) (t : T) (r : R) (fd : ℕ) (h : Handle P)
    (hplace : s.place r = some (fd, false)) (hopen : s.system fd = some h) :
    Base (s.claim t r fd h) := by
  constructor
  · exact hs.id_lt
  · exact hs.id_inj
  · intro r' fd' busy hr'
    obtain ⟨busy', hr'⟩ := update_flag _ _ _ _ _ _ _ _ hplace hr'
    exact hs.place_open r' fd' busy' hr'
  · intro r₁ r₂ fd' busy₁ busy₂ hr₁ hr₂
    obtain ⟨busy₁', hr₁⟩ := update_flag _ _ _ _ _ _ _ _ hplace hr₁
    obtain ⟨busy₂', hr₂⟩ := update_flag _ _ _ _ _ _ _ _ hplace hr₂
    exact hs.place_inj r₁ r₂ fd' busy₁' busy₂' hr₁ hr₂
  · intro t' shares r' ht'
    rcases update_some _ _ _ _ _ ht' with ⟨rfl, heq⟩ | ⟨_, ht'⟩
    · obtain ⟨rfl, rfl⟩ : true = shares ∧ r = r' := by simpa using heq
      exact ⟨fd, Function.update_self ..⟩
    · -- the places of other callers stay as they are
      have hother : (s.claim t r fd h).place r' = s.place r' :=
        Function.update_of_ne (hs.place_ne ht' hplace) _ _
      rw [hother]
      exact hs.held_busy t' shares r' ht'
  · intro t₁ t₂ shares₁ shares₂ r' ht₁ ht₂
    rcases update_some _ _ _ _ _ ht₁ with ⟨h₁, heq₁⟩ | ⟨_, ht₁⟩ <;>
      rcases update_some _ _ _ _ _ ht₂ with ⟨h₂, heq₂⟩ | ⟨_, ht₂⟩
    · rw [h₁, h₂]
    · obtain ⟨_, rfl⟩ : true = shares₁ ∧ r = r' := by simpa using heq₁
      exact absurd rfl (hs.place_ne ht₂ hplace)
    · obtain ⟨_, rfl⟩ : true = shares₂ ∧ r = r' := by simpa using heq₂
      exact absurd rfl (hs.place_ne ht₁ hplace)
    · exact hs.held_inj t₁ t₂ shares₁ shares₂ r' ht₁ ht₂
  · intro e he
    rcases List.mem_append.mp he with he | he
    · exact hs.log_lt e he
    · rw [List.mem_singleton.mp he]
      exact hs.id_lt fd h hopen

theorem Base.openAt (hs : Base s) (t : T) (r : R) (fd : ℕ) (info : P) (shares : Bool)
    (hfree : s.held t = none) (hplace : s.place r = none) (hfd : s.system fd = none) :
    Base (s.openAt t r fd info shares) := by
  have hold (r' : R) (busy : Bool) (hr' : s.place r' = some (fd, busy)) : False :=
    hs.place_open r' fd busy hr' hfd
  have hother (t' : T) (shares' : Bool) (r' : R) (ht' : s.held t' = some (shares', r')) :
      r' ≠ r ∧ t' ≠ t := hs.not_new hfree hplace ht'
  constructor
  · intro fd' h hh
    rcases update_some _ _ _ _ _ hh with ⟨_, heq⟩ | ⟨_, hh⟩
    · obtain rfl := Option.some.inj heq
      exact Nat.lt_succ_self _
    · exact Nat.lt_succ_of_lt (hs.id_lt fd' h hh)
  · intro fd₁ fd₂ h₁ h₂ hh₁ hh₂ hid
    rcases update_some _ _ _ _ _ hh₁ with ⟨hfd₁, heq₁⟩ | ⟨_, hh₁⟩ <;>
      rcases update_some _ _ _ _ _ hh₂ with ⟨hfd₂, heq₂⟩ | ⟨_, hh₂⟩
    · rw [hfd₁, hfd₂]
    · obtain rfl := Option.some.inj heq₁
      exact absurd hid (Nat.ne_of_gt (hs.id_lt fd₂ h₂ hh₂))
    · obtain rfl := Option.some.inj heq₂
      exact absurd hid (Nat.ne_of_lt (hs.id_lt fd₁ h₁ hh₁))
    · exact hs.id_inj fd₁ fd₂ h₁ h₂ hh₁ hh₂ hid
  · intro r' fd' busy hr'
    by_cases hfd' : fd' = fd
    · subst hfd'
      simp [Table.openAt]
    · rcases update_some _ _ _ _ _ hr' with ⟨_, heq⟩ | ⟨_, hr'⟩
      · exact absurd (by simpa using congrArg (Option.map Prod.fst) heq.symm) hfd'
      · simpa [Table.openAt, Function.update_of_ne hfd'] using hs.place_open r' fd' busy hr'
  · intro r₁ r₂ fd' busy₁ busy₂ hr₁ hr₂
    rcases update_some _ _ _ _ _ hr₁ with ⟨h₁, heq₁⟩ | ⟨_, hr₁⟩ <;>
      rcases update_some _ _ _ _ _ hr₂ with ⟨h₂, heq₂⟩ | ⟨_, hr₂⟩
    · rw [h₁, h₂]
    · obtain ⟨rfl, _⟩ : fd = fd' ∧ true = busy₁ := by simpa using heq₁
      exact (hold r₂ busy₂ hr₂).elim
    · obtain ⟨rfl, _⟩ : fd = fd' ∧ true = busy₂ := by simpa using heq₂
      exact (hold r₁ busy₁ hr₁).elim
    · exact hs.place_inj r₁ r₂ fd' busy₁ busy₂ hr₁ hr₂
  · intro t' shares' r' ht'
    rcases update_some _ _ _ _ _ ht' with ⟨rfl, heq⟩ | ⟨_, ht'⟩
    · obtain ⟨_, rfl⟩ : shares = shares' ∧ r = r' := by simpa using heq
      exact ⟨fd, Function.update_self ..⟩
    · obtain ⟨fd', hbusy⟩ := hs.held_busy t' shares' r' ht'
      exact ⟨fd', (Function.update_of_ne (hother t' shares' r' ht').1 _ _).trans hbusy⟩
  · intro t₁ t₂ shares₁ shares₂ r' ht₁ ht₂
    rcases update_some _ _ _ _ _ ht₁ with ⟨h₁, heq₁⟩ | ⟨_, ht₁⟩ <;>
      rcases update_some _ _ _ _ _ ht₂ with ⟨h₂, heq₂⟩ | ⟨_, ht₂⟩
    · rw [h₁, h₂]
    · obtain ⟨_, rfl⟩ : shares = shares₁ ∧ r = r' := by simpa using heq₁
      exact absurd rfl (hother t₂ shares₂ r ht₂).1
    · obtain ⟨_, rfl⟩ : shares = shares₂ ∧ r = r' := by simpa using heq₂
      exact absurd rfl (hother t₁ shares₁ r ht₁).1
    · exact hs.held_inj t₁ t₂ shares₁ shares₂ r' ht₁ ht₂
  · intro e he
    rcases List.mem_append.mp he with he | he
    · exact Nat.lt_succ_of_lt (hs.log_lt e he)
    · rw [List.mem_singleton.mp he]
      exact Nat.lt_succ_self _

omit [DecidableEq R] in
/-- What a caller's leaving does to the others: nothing. -/
theorem Base.others (hs : Base s) (t : T) (r : R) (shares : Bool)
    (hheld : s.held t = some (shares, r)) (t' : T) (shares' : Bool) (r' : R)
    (ht' : Function.update s.held t none t' = some (shares', r')) :
    s.held t' = some (shares', r') ∧ r' ≠ r := by
  rcases update_some _ _ _ _ _ ht' with ⟨_, heq⟩ | ⟨hne, ht'⟩
  · contradiction
  · refine ⟨ht', ?_⟩
    rintro rfl
    exact hne (hs.held_inj t' t shares' shares r' ht' hheld)

theorem drop_system {t : T} {r : R} {fd fd' : ℕ} {h : Handle P}
    (hh : (s.drop t r fd).system fd' = some h) : fd' ≠ fd ∧ s.system fd' = some h := by
  rcases update_some _ _ _ _ _ hh with ⟨_, heq⟩ | hh
  · contradiction
  · exact hh

theorem Base.drop (hs : Base s) (t : T) (r : R) (fd : ℕ) (shares : Bool)
    (hheld : s.held t = some (shares, r)) (hplace : s.place r = some (fd, true)) :
    Base (s.drop t r fd) := by
  have hothers := hs.others t r shares hheld
  have hplaces (r' : R) (fd' : ℕ) (busy : Bool)
      (hr' : (s.drop t r fd).place r' = some (fd', busy)) :
      s.place r' = some (fd', busy) ∧ fd' ≠ fd := by
    rcases update_some _ _ _ _ _ hr' with ⟨_, heq⟩ | ⟨hne, hplace'⟩
    · contradiction
    · refine ⟨hplace', fun hfd => hne ?_⟩
      subst hfd
      exact hs.place_inj r' r fd' busy true hplace' hplace
  constructor
  · intro fd' h hh
    exact hs.id_lt fd' h (drop_system hh).2
  · intro fd₁ fd₂ h₁ h₂ hh₁ hh₂
    exact hs.id_inj fd₁ fd₂ h₁ h₂ (drop_system hh₁).2 (drop_system hh₂).2
  · intro r' fd' busy hr'
    obtain ⟨hr', hfd'⟩ := hplaces r' fd' busy hr'
    exact fun h => hs.place_open r' fd' busy hr' ((Function.update_of_ne hfd' _ _).symm.trans h)
  · intro r₁ r₂ fd' busy₁ busy₂ hr₁ hr₂
    exact hs.place_inj r₁ r₂ fd' busy₁ busy₂ (hplaces r₁ fd' busy₁ hr₁).1
      (hplaces r₂ fd' busy₂ hr₂).1
  · intro t' shares' r' ht'
    obtain ⟨ht', hne⟩ := hothers t' shares' r' ht'
    obtain ⟨fd', hbusy⟩ := hs.held_busy t' shares' r' ht'
    exact ⟨fd', (Function.update_of_ne hne _ _).trans hbusy⟩
  · intro t₁ t₂ shares₁ shares₂ r' ht₁ ht₂
    exact hs.held_inj t₁ t₂ shares₁ shares₂ r' (hothers t₁ shares₁ r' ht₁).1
      (hothers t₂ shares₂ r' ht₂).1
  · exact hs.log_lt

theorem Base.keep (hs : Base s) (t : T) (r : R) (fd : ℕ) (shares : Bool)
    (hheld : s.held t = some (shares, r)) (hplace : s.place r = some (fd, true)) :
    Base (s.keep t r fd) := by
  have hothers := hs.others t r shares hheld
  constructor
  · exact hs.id_lt
  · exact hs.id_inj
  · intro r' fd' busy hr'
    obtain ⟨busy', hr'⟩ := update_flag _ _ _ _ _ _ _ _ hplace hr'
    exact hs.place_open r' fd' busy' hr'
  · intro r₁ r₂ fd' busy₁ busy₂ hr₁ hr₂
    obtain ⟨busy₁', hr₁⟩ := update_flag _ _ _ _ _ _ _ _ hplace hr₁
    obtain ⟨busy₂', hr₂⟩ := update_flag _ _ _ _ _ _ _ _ hplace hr₂
    exact hs.place_inj r₁ r₂ fd' busy₁' busy₂' hr₁ hr₂
  · intro t' shares' r' ht'
    obtain ⟨ht', hne⟩ := hothers t' shares' r' ht'
    obtain ⟨fd', hbusy⟩ := hs.held_busy t' shares' r' ht'
    exact ⟨fd', (Function.update_of_ne hne _ _).trans hbusy⟩
  · intro t₁ t₂ shares₁ shares₂ r' ht₁ ht₂
    exact hs.held_inj t₁ t₂ shares₁ shares₂ r' (hothers t₁ shares₁ r' ht₁).1
      (hothers t₂ shares₂ r' ht₂).1
  · exact hs.log_lt

theorem Base.move (hs : Base s) {s' : Table R T P} (h : Move Admits Keeps s s') : Base s' := by
  cases h with
  | close fds hidle => exact hs.close fds hidle
  | claim t r fd h hfree hplace hopen => exact hs.claim t r fd h hplace hopen
  | openAt t r fd info shares hfree hplace hfd _ =>
    exact hs.openAt t r fd info shares hfree hplace hfd
  | abandon => exact hs.abandon
  | drop t r fd shares hheld hplace => exact hs.drop t r fd shares hheld hplace
  | keep t r fd shares _ hheld hplace => exact hs.keep t r fd shares hheld hplace

theorem Base.moves (hs : Base s) {s' : Table R T P}
    (h : Relation.ReflTransGen (Move Admits Keeps) s s') : Base s' := by
  induction h with
  | refl => exact hs
  | tail _ hmove ih => exact ih.move hmove

theorem Inv.claim (hs : Inv Admits s) (t : T) (r : R) (fd : ℕ) (h : Handle P)
    (hfree : s.held t = none) (hplace : s.place r = some (fd, false))
    (hopen : s.system fd = some h) : Inv Admits (s.claim t r fd h) := by
  have hown (e : Handing P) (he : e ∈ s.log) (hshares : e.shares = false) :
      h.id ≠ e.handle.id := by
    intro hid
    obtain ⟨t', r', ht', hr'⟩ := hs.confined e he hshares fd h hopen hid
    exact hs.place_ne ht' hplace (hs.place_inj r' r fd true false hr' hplace)
  refine ⟨hs.toBase.claim t r fd h hplace hopen, ?_, ?_⟩
  · intro e he hshares fd' g hg hid
    rcases List.mem_append.mp he with he | he
    · obtain ⟨t', r', ht', hr'⟩ := hs.confined e he hshares fd' g hg hid
      have hne : t' ≠ t := by
        rintro rfl
        rw [hfree] at ht'
        contradiction
      exact ⟨t', r', (Function.update_of_ne hne _ _).trans ht',
        (Function.update_of_ne (hs.place_ne ht' hplace) _ _).trans hr'⟩
    · rw [List.mem_singleton.mp he] at hshares
      contradiction
  · exact hs.own.snoc hown (fun hshares => by contradiction)

theorem Inv.openAt (hs : Inv Admits s) (t : T) (r : R) (fd : ℕ) (info : P) (shares : Bool)
    (hfree : s.held t = none) (hplace : s.place r = none) (hfd : s.system fd = none)
    (hinfo : shares = false → Admits info) : Inv Admits (s.openAt t r fd info shares) := by
  refine ⟨hs.toBase.openAt t r fd info shares hfree hplace hfd, ?_, ?_⟩
  · intro e he hshares fd' g hg hid
    rcases List.mem_append.mp he with he | he
    · rcases update_some _ _ _ _ _ hg with ⟨_, heq⟩ | ⟨_, hg⟩
      · obtain rfl := Option.some.inj heq
        exact absurd hid (Nat.ne_of_gt (hs.log_lt e he))
      · obtain ⟨t', r', ht', hr'⟩ := hs.confined e he hshares fd' g hg hid
        obtain ⟨hr, ht⟩ := hs.not_new hfree hplace ht'
        exact ⟨t', r', (Function.update_of_ne ht _ _).trans ht',
          (Function.update_of_ne hr _ _).trans hr'⟩
    · obtain rfl := List.mem_singleton.mp he
      dsimp only at hshares hid
      subst hshares
      rcases update_some _ _ _ _ _ hg with ⟨rfl, _⟩ | ⟨_, hg⟩
      · exact ⟨t, r, Function.update_self .., Function.update_self ..⟩
      · exact absurd hid (Nat.ne_of_lt (hs.id_lt fd' g hg))
  · refine hs.own.snoc (fun e he _ => Nat.ne_of_gt (hs.log_lt e he)) fun hshares => ?_
    exact ⟨hinfo hshares, rfl, fun g hg => Nat.ne_of_lt (hs.log_lt g hg)⟩

theorem Inv.drop (hs : Inv Admits s) (t : T) (r : R) (fd : ℕ) (shares : Bool)
    (hheld : s.held t = some (shares, r)) (hplace : s.place r = some (fd, true)) :
    Inv Admits (s.drop t r fd) := by
  refine ⟨hs.toBase.drop t r fd shares hheld hplace, ?_, hs.own⟩
  intro e he hshares fd' g hg hid
  obtain ⟨hfd', hg⟩ := drop_system hg
  obtain ⟨t', r', ht', hr'⟩ := hs.confined e he hshares fd' g hg hid
  obtain ⟨hne, hne'⟩ := holder_ne hheld hplace ht' hr' hfd'
  exact ⟨t', r', (Function.update_of_ne hne' _ _).trans ht',
    (Function.update_of_ne hne _ _).trans hr'⟩

theorem Inv.keep (hs : Inv Admits s) (t : T) (r : R) (fd : ℕ) (hheld : s.held t = some (true, r))
    (hplace : s.place r = some (fd, true)) : Inv Admits (s.keep t r fd) := by
  refine ⟨hs.toBase.keep t r fd true hheld hplace, ?_, hs.own⟩
  intro e he hshares fd' g hg hid
  -- the caller that leaves shares, so the handle is another's
  obtain ⟨t', r', ht', hr'⟩ := hs.confined e he hshares fd' g hg hid
  have hne' : t' ≠ t := by
    rintro rfl
    rw [hheld] at ht'
    simp at ht'
  have hne : r' ≠ r := by
    rintro rfl
    exact hne' (hs.held_inj t' t false true r' ht' hheld)
  exact ⟨t', r', (Function.update_of_ne hne' _ _).trans ht',
    (Function.update_of_ne hne _ _).trans hr'⟩

/-- What a table keeps through any number of moves, if only callers that share
leave handles behind. -/
theorem Inv.moves (hs : Inv Admits s) {s' : Table R T P}
    (h : Relation.ReflTransGen (Move Admits (· = true)) s s') : Inv Admits s' := by
  induction h with
  | refl => exact hs
  | tail _ hmove ih =>
    cases hmove with
    | close fds hidle =>
      refine ⟨ih.toBase.close fds hidle, ?_, ih.own⟩
      intro e he hshares fd g hg hid
      obtain ⟨hg, hfd⟩ := close_system.mp hg
      obtain ⟨t, r, ht, hr⟩ := ih.confined e he hshares fd g hg hid
      exact ⟨t, r, ht, close_place.mpr ⟨hr, hfd⟩⟩
    | claim t r fd h hfree hplace hopen => exact ih.claim t r fd h hfree hplace hopen
    | openAt t r fd info shares hfree hplace hfd hinfo =>
      exact ih.openAt t r fd info shares hfree hplace hfd hinfo
    | abandon => exact ⟨ih.toBase.abandon, ih.confined, ih.own⟩
    | drop t r fd shares hheld hplace => exact ih.drop t r fd shares hheld hplace
    | keep t r fd shares hkeeps hheld hplace =>
      subst hkeeps
      exact ih.keep t r fd hheld hplace

end Moves

section Settled

/-- Every open handle is in a place, and every place in use is a caller's. -/
structure Settled (s : Table R T P) : Prop where
  placed : ∀ fd h, s.system fd = some h → ∃ r busy, s.place r = some (fd, busy)
  owned : ∀ r fd, s.place r = some (fd, true) → ∃ t shares, s.held t = some (shares, r)

theorem Settled.close {s : Table R T P} (h : Settled s) (fds : List ℕ) : Settled (s.close fds) := by
  constructor
  · intro fd g hg
    obtain ⟨hg, hfd⟩ := close_system.mp hg
    obtain ⟨r, busy, hr⟩ := h.placed fd g hg
    exact ⟨r, busy, close_place.mpr ⟨hr, hfd⟩⟩
  · intro r fd hr
    exact h.owned r fd (close_place.mp hr).1

variable [DecidableEq R] [DecidableEq T] {s : Table R T P}

omit [DecidableEq T] in
/-- A store of the same descriptor leaves every handle in its place. -/
theorem Settled.placed_flag (h : Settled s) (r : R) (fd : ℕ) (old new : Bool)
    (hplace : s.place r = some (fd, old)) (fd' : ℕ) (g : Handle P) (hg : s.system fd' = some g) :
    ∃ r' busy, Function.update s.place r (some (fd, new)) r' = some (fd', busy) := by
  obtain ⟨r', busy, hr'⟩ := h.placed fd' g hg
  by_cases hrr : r' = r
  · subst hrr
    obtain ⟨rfl, -⟩ : fd = fd' ∧ old = busy := by simpa [hplace] using hr'
    exact ⟨r', new, Function.update_self ..⟩
  · exact ⟨r', busy, (Function.update_of_ne hrr _ _).trans hr'⟩

omit [DecidableEq R] in
/-- A caller other than `t` keeps what it has when `t` gets or gives back. -/
theorem Settled.owned_other (h : Settled s) (t : T) (r' : R) (fd' : ℕ) (o : Option (Bool × R))
    (hne : ∀ shares, s.held t ≠ some (shares, r')) (hr' : s.place r' = some (fd', true)) :
    ∃ t' shares, Function.update s.held t o t' = some (shares, r') := by
  obtain ⟨t', shares, ht'⟩ := h.owned r' fd' hr'
  have htt : t' ≠ t := by
    rintro rfl
    exact hne shares ht'
  exact ⟨t', shares, (Function.update_of_ne htt _ _).trans ht'⟩

theorem Settled.claim (h : Settled s) (t : T) (r : R) (fd : ℕ) (g : Handle P)
    (hfree : s.held t = none) (hplace : s.place r = some (fd, false)) :
    Settled (s.claim t r fd g) := by
  constructor
  · exact h.placed_flag r fd false true hplace
  · intro r' fd' hr'
    rcases update_some _ _ _ _ _ hr' with ⟨rfl, -⟩ | ⟨-, hr'⟩
    · exact ⟨t, true, Function.update_self ..⟩
    · exact h.owned_other t r' fd' _ (by simp [hfree]) hr'

theorem Settled.openAt (h : Settled s) (t : T) (r : R) (fd : ℕ) (info : P) (shares : Bool)
    (hfree : s.held t = none) (hplace : s.place r = none) :
    Settled (s.openAt t r fd info shares) := by
  constructor
  · intro fd' g hg
    rcases update_some _ _ _ _ _ hg with ⟨rfl, -⟩ | ⟨-, hg⟩
    · exact ⟨r, true, Function.update_self ..⟩
    · obtain ⟨r', busy, hr'⟩ := h.placed fd' g hg
      have hrr : r' ≠ r := by
        rintro rfl
        rw [hplace] at hr'
        contradiction
      exact ⟨r', busy, (Function.update_of_ne hrr _ _).trans hr'⟩
  · intro r' fd' hr'
    rcases update_some _ _ _ _ _ hr' with ⟨rfl, -⟩ | ⟨-, hr'⟩
    · exact ⟨t, shares, Function.update_self ..⟩
    · exact h.owned_other t r' fd' _ (by simp [hfree]) hr'

theorem Settled.drop (h : Settled s) (t : T) (r : R) (fd : ℕ) (shares : Bool)
    (hheld : s.held t = some (shares, r)) (hplace : s.place r = some (fd, true)) :
    Settled (s.drop t r fd) := by
  constructor
  · intro fd' g hg
    obtain ⟨hfd, hg⟩ := drop_system hg
    obtain ⟨r', busy, hr'⟩ := h.placed fd' g hg
    have hrr : r' ≠ r := by
      rintro rfl
      rw [hplace] at hr'
      exact hfd (by simpa using (congrArg (Option.map Prod.fst) hr').symm)
    exact ⟨r', busy, (Function.update_of_ne hrr _ _).trans hr'⟩
  · intro r' fd' hr'
    rcases update_some _ _ _ _ _ hr' with ⟨-, heq⟩ | ⟨hrr, hr'⟩
    · contradiction
    · exact h.owned_other t r' fd' _ (by simpa [hheld] using Ne.symm hrr) hr'

theorem Settled.keep (h : Settled s) (t : T) (r : R) (fd : ℕ) (shares : Bool)
    (hheld : s.held t = some (shares, r)) (hplace : s.place r = some (fd, true)) :
    Settled (s.keep t r fd) := by
  constructor
  · exact h.placed_flag r fd true false hplace
  · intro r' fd' hr'
    rcases update_some _ _ _ _ _ hr' with ⟨-, heq⟩ | ⟨hrr, hr'⟩
    · simp at heq
    · exact h.owned_other t r' fd' _ (by simpa [hheld] using Ne.symm hrr) hr'

theorem Settled.moves (h : Settled s) {s' : Table R T P}
    (hmoves : Relation.ReflTransGen (Move Admits Keeps) s s') : Settled s' := by
  induction hmoves with
  | refl => exact h
  | tail _ hmove ih =>
    cases hmove with
    | close fds hidle => exact ih.close fds
    | claim t r fd g hfree hplace hopen => exact ih.claim t r fd g hfree hplace
    | openAt t r fd info shares hfree hplace hfd _ =>
      exact ih.openAt t r fd info shares hfree hplace
    | abandon => exact ⟨ih.placed, ih.owned⟩
    | drop t r fd shares hheld hplace => exact ih.drop t r fd shares hheld hplace
    | keep t r fd shares _ hheld hplace => exact ih.keep t r fd shares hheld hplace

end Settled

end VmodWasm.Lib.Handles
