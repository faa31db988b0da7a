import Mathlib.Data.List.Basic

/-!
Programs over a byte memory whose every access is checked. A program that
loads or stores a byte behind the end of the memory has no result. A program
marks the heap when one of its own bounds tests refuses an access, and the
mark stays. `Sat` is the weakest precondition of a program; its rules are
equivalences, so that rewriting with them turns a statement about a program
into one about its memory.
-/
namespace VmodWasm.Lib.CheckedMemory

structure Heap where
  bytes : List UInt8
  refused : Bool := false

abbrev Checked := StateT Heap Option

variable {A B : Type}

/-- `len` bytes from `addr` on stay inside a memory of `n` bytes; no byte at
all is inside everywhere. -/
def InRange (n addr len : ℕ) : Prop := len = 0 ∨ addr + len ≤ n

instance (n addr len : ℕ) : Decidable (InRange n addr len) := by
  unfold InRange
  infer_instance

/-- The memory with `data` at `addr`. -/
def splice (bytes : List UInt8) (addr : ℕ) (data : List UInt8) : List UInt8 :=
  bytes.take addr ++ data ++ bytes.drop (addr + data.length)

def size : Checked ℕ := fun h => some (h.bytes.length, h)

def load (addr len : ℕ) : Checked (List UInt8) := fun h =>
  if InRange h.bytes.length addr len then some ((h.bytes.drop addr).take len, h) else none

/-- A load that ends early at a zero byte. -/
def loadStr (addr len : ℕ) : Checked (List UInt8) := fun h =>
  let seen := (h.bytes.drop addr).take len
  if 0 ∈ seen ∨ InRange h.bytes.length addr len then some (seen.takeWhile (· ≠ 0), h) else none

def store (addr : ℕ) (data : List UInt8) : Checked Unit := fun h =>
  if InRange h.bytes.length addr data.length then
    some ((), { h with bytes := splice h.bytes addr data })
  else none

def refuse : Checked Unit := fun h => some ((), { h with refused := true })

/-- Code that runs in between and may leave any memory behind. -/
def interlude (f : List UInt8 → A × List UInt8) : Checked A := fun h =>
  some ((f h.bytes).1, { h with bytes := (f h.bytes).2 })

/-- A program goes on from where its first part has come to. -/
theorem bind_of_run {x : Checked A} {f : A → Checked B} {h h' : Heap} {a : A}
    (hx : x h = some (a, h')) : (x >>= f) h = f a h' := by
  change (x h).bind (fun r => f r.1 r.2) = f a h'
  rw [hx]
  rfl

/-- From heap `h` the program makes no access outside the memory, and it ends
with a result and a heap that meet `Q`. -/
def Sat (x : Checked A) (Q : A → Heap → Prop) (h : Heap) : Prop :=
  ∃ a h', x.run h = some (a, h') ∧ Q a h'

/-- Running the program decides what it satisfies. -/
instance (x : Checked A) (Q : A → Heap → Prop) [∀ a h', Decidable (Q a h')] (h : Heap) :
    Decidable (Sat x Q h) :=
  decidable_of_iff (∃ r ∈ x.run h, Q r.1 r.2)
    ⟨fun ⟨r, hr, hQ⟩ => ⟨r.1, r.2, hr, hQ⟩, fun ⟨a, h', hr, hQ⟩ => ⟨(a, h'), hr, hQ⟩⟩

theorem Sat.mono {x : Checked A} {Q R : A → Heap → Prop} {h : Heap} (hx : Sat x Q h)
    (hQR : ∀ a h', Q a h' → R a h') : Sat x R h := by
  obtain ⟨a, h', hrun, hQ⟩ := hx
  exact ⟨a, h', hrun, hQR a h' hQ⟩

@[simp] theorem sat_pure (a : A) (Q : A → Heap → Prop) (h : Heap) :
    Sat (pure a) Q h ↔ Q a h := by
  simp [Sat]

@[simp] theorem sat_bind (x : Checked A) (f : A → Checked B) (Q : B → Heap → Prop) (h : Heap) :
    Sat (x >>= f) Q h ↔ Sat x (fun a h' => Sat (f a) Q h') h := by
  constructor
  · rintro ⟨b, h', hrun, hQ⟩
    rw [StateT.run_bind] at hrun
    obtain ⟨⟨a, h₁⟩, hx, hf⟩ := Option.bind_eq_some_iff.mp hrun
    exact ⟨a, h₁, hx, b, h', hf, hQ⟩
  · rintro ⟨a, h₁, hx, b, h', hf, hQ⟩
    refine ⟨b, h', ?_, hQ⟩
    rw [StateT.run_bind]
    exact Option.bind_eq_some_iff.mpr ⟨(a, h₁), hx, hf⟩

@[simp] theorem sat_map (f : A → B) (x : Checked A) (Q : B → Heap → Prop) (h : Heap) :
    Sat (f <$> x) Q h ↔ Sat x (fun a => Q (f a)) h := by
  rw [map_eq_pure_bind, sat_bind]
  simp only [sat_pure]

@[simp] theorem sat_ite (c : Prop) [Decidable c] (x y : Checked A) (Q : A → Heap → Prop)
    (h : Heap) : Sat (if c then x else y) Q h ↔ (c → Sat x Q h) ∧ (¬ c → Sat y Q h) := by
  split <;> simp_all

@[simp] theorem sat_size (Q : ℕ → Heap → Prop) (h : Heap) :
    Sat size Q h ↔ Q h.bytes.length h := by
  simp [Sat, size, StateT.run]

@[simp] theorem sat_load (addr len : ℕ) (Q : List UInt8 → Heap → Prop) (h : Heap) :
    Sat (load addr len) Q h ↔
      InRange h.bytes.length addr len ∧ Q ((h.bytes.drop addr).take len) h := by
  simp only [Sat, load, StateT.run]
  split <;> simp_all

@[simp] theorem sat_loadStr (addr len : ℕ) (Q : List UInt8 → Heap → Prop) (h : Heap) :
    Sat (loadStr addr len) Q h ↔
      (0 ∈ (h.bytes.drop addr).take len ∨ InRange h.bytes.length addr len) ∧
        Q (((h.bytes.drop addr).take len).takeWhile (· ≠ 0)) h := by
  simp only [Sat, loadStr, StateT.run]
  split <;> simp_all

@[simp] theorem sat_store (addr : ℕ) (data : List UInt8) (Q : Unit → Heap → Prop) (h : Heap) :
    Sat (store addr data) Q h ↔ InRange h.bytes.length addr data.length ∧
      Q () { h with bytes := splice h.bytes addr data } := by
  simp only [Sat, store, StateT.run]
  split
  next hin => simp [hin, Unique.exists_iff]
  next hout => simp [hout]

@[simp] theorem sat_refuse (Q : Unit → Heap → Prop) (h : Heap) :
    Sat refuse Q h ↔ Q () { h with refused := true } := by
  simp [Sat, refuse, StateT.run, Unique.exists_iff]

@[simp] theorem sat_interlude (f : List UInt8 → A × List UInt8) (Q : A → Heap → Prop) (h : Heap) :
    Sat (interlude f) Q h ↔ Q (f h.bytes).1 { h with bytes := (f h.bytes).2 } := by
  simp [Sat, interlude, StateT.run]

/-- From heap `h` the program ends with the result and the memory `res`, makes
no access outside, and marks a refusal only if its result is a failure `E`. -/
def Computes (x : Checked A) (h : Heap) (res : A × List UInt8) (E : A → Prop) : Prop :=
  Sat x (fun a h' => (a, h'.bytes) = res ∧ (h'.refused = true → h.refused = true ∨ E a)) h

theorem Computes.pure (a : A) (h : Heap) (E : A → Prop) : Computes (pure a) h (a, h.bytes) E := by
  rw [Computes, sat_pure]
  exact ⟨rfl, Or.inl⟩

/-- Failures of the first part must end in failures of the whole. -/
theorem Computes.bind {x : Checked A} {k : A → Checked B} {h : Heap} {a : A} {mem : List UInt8}
    {res : B × List UInt8} {E : A → Prop} {F : B → Prop} (hx : Computes x h (a, mem) E)
    (hk : ∀ r, Computes (k a) ⟨mem, r⟩ res F) (hfail : E a → F res.1) :
    Computes (x >>= k) h res F := by
  rw [Computes, sat_bind]
  refine Sat.mono hx ?_
  rintro a' ⟨mem', r⟩ ⟨heq, hmark₁⟩
  obtain ⟨rfl, rfl⟩ := Prod.mk.inj heq
  refine Sat.mono (hk r) ?_
  rintro b h₂ ⟨hres, hmark₂⟩
  refine ⟨hres, fun hmarked => ?_⟩
  rcases hmark₂ hmarked with hbefore | hF
  · rcases hmark₁ hbefore with hbefore | hE
    · exact Or.inl hbefore
    · have hend := hfail hE
      rw [← hres] at hend
      exact Or.inr hend
  · exact Or.inr hF

/-- Started with no refusal, the program makes no access outside the memory,
and if one of its tests refuses an access its result is an error. -/
def Bounded (x : Checked A) (error : A → Prop) (bytes : List UInt8) : Prop :=
  Sat x (fun a h => h.refused = true → error a) ⟨bytes, false⟩

theorem bounded_map (f : A → B) (x : Checked A) (error : B → Prop) (bytes : List UInt8) :
    Bounded (f <$> x) error bytes ↔ Bounded x (fun a => error (f a)) bytes :=
  sat_map f x _ _

theorem Computes.bounded {x : Checked A} {bytes : List UInt8} {res : A × List UInt8}
    {E : A → Prop} (hx : Computes x ⟨bytes, false⟩ res E) : Bounded x E bytes := by
  refine Sat.mono hx ?_
  rintro a h ⟨-, hmark⟩ hmarked
  rcases hmark hmarked with hfalse | herror
  · exact absurd hfalse (by simp)
  · exact herror

@[simp] theorem length_splice (bytes data : List UInt8) (addr : ℕ)
    (hin : addr + data.length ≤ bytes.length) : (splice bytes addr data).length = bytes.length := by
  simp only [splice, List.length_append, List.length_take, List.length_drop]
  omega

/-- What was stored is there. -/
theorem region_splice (bytes data : List UInt8) (addr : ℕ) (haddr : addr ≤ bytes.length) :
    ((splice bytes addr data).drop addr).take data.length = data := by
  have hlen : (bytes.take addr).length = addr := List.length_take_of_le haddr
  rw [splice, List.append_assoc, List.drop_append_of_le_length (by omega),
    List.drop_of_length_le (by omega), List.nil_append, List.take_left]

/-- Two stretches of a memory that have no byte in common. -/
def Apart (a n b m : ℕ) : Prop := a + n ≤ b ∨ b + m ≤ a

/-- A store changes nothing outside the stretch it writes. -/
theorem region_splice_of_apart (bytes data : List UInt8) (addr a n : ℕ)
    (hin : addr + data.length ≤ bytes.length) (hapart : Apart a n addr data.length) :
    ((splice bytes addr data).drop a).take n = (bytes.drop a).take n := by
  have hlen : (bytes.take addr).length = addr := List.length_take_of_le (by omega)
  apply List.ext_getElem?
  intro i
  simp only [List.getElem?_take, List.getElem?_drop]
  by_cases hi : i < n
  · rw [if_pos hi, if_pos hi, splice]
    rcases hapart with hbefore | hbehind
    · rw [List.append_assoc, List.getElem?_append_left (by omega),
        List.getElem?_take_of_lt (by omega)]
    · rw [List.getElem?_append_right (by rw [List.length_append]; omega), List.length_append, hlen,
        List.getElem?_drop]
      congr 1
      omega
  · rw [if_neg hi, if_neg hi]

end VmodWasm.Lib.CheckedMemory
