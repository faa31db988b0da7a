import VmodWasm.TrailerMaps
import VmodWasm.Lib.Blocks

/-!
The trailer maps with their memory: every entry has a block for its name and one
for its value. The functions here allocate, read and free these blocks as the
source does, and each of them does to the blocks what its counterpart does to the
list of names and values.
-/
namespace VmodWasm.TrailerBlocks

open ByteStrings ProxyContext HeaderFields HeaderMapPairs TrailerMaps Lib.SwapRemoval Lib.Blocks

/-- `struct vwasm_trailer_entry`; a block's closing NUL is no part of its value. -/
structure TrailerNode where
  name : ℕ
  value : ℕ

section Model

def pwTrailerAdd (alloc : EntryAlloc) (ns : List TrailerNode) (name value : Bytes) :
    Mem Bytes (Option (List TrailerNode)) :=
  if ns.length < maxTrailers then
    if alloc.name then do
      let n ← malloc name
      if alloc.value then
        let v ← malloc value
        pure (some (ns ++ [⟨n, v⟩]))
      else
        free n
        pure none
    else pure none
  else pure none

def nameIs (name : Bytes) (n : TrailerNode) : Mem Bytes Bool := do
  let key ← load n.name
  pure (hasName name (key, []))

/-- The index of the first entry of a name. -/
def findTrailer (name : Bytes) : List TrailerNode → Mem Bytes (Option ℕ) := search (nameIs name)

def freeTrailer (n : TrailerNode) : Mem Bytes Unit := do
  free n.name
  free n.value

def pwTrailerRemove (ns : List TrailerNode) (name : Bytes) : Mem Bytes (List TrailerNode) := do
  let found ← findTrailer name ns
  match found.bind fun i => (ns[i]?).map fun n => (i, n) with
  | none => pure ns
  | some (i, n) =>
    freeTrailer n
    pure (swapRemove ns i)

def pwTrailerClear (ns : List TrailerNode) : Mem Bytes (List TrailerNode) := do
  forEach freeTrailer ns
  pure []

def putTrailers (alloc : ℕ → EntryAlloc) : ℕ → Pairs → List TrailerNode →
    Mem Bytes (List TrailerNode)
  | _, [], ns => pure ns
  | i, p :: ps, ns =>
    if Used p.1.length p.2.length then do
      let added ← pwTrailerAdd (alloc i) ns p.1 p.2
      putTrailers alloc (i + 1) ps (added.getD ns)
    else putTrailers alloc (i + 1) ps ns

def trailerCall (alloc : ℕ → EntryAlloc) (ns : List TrailerNode) :
    TrailerCall → Mem Bytes (ProxyStatus × List TrailerNode)
  | .addHeaderMapValue key value =>
    if 256 ≤ key.length ∨ 4096 ≤ value.length then pure (.badArgument, ns)
    else do
      let added ← pwTrailerAdd (alloc 0) ns (cstr key) (cstr value)
      match added with
      | none => pure (.internal, ns)
      | some ns => pure (.ok, ns)
  | .replaceHeaderMapValue key value =>
    if 256 ≤ key.length ∨ 4096 ≤ value.length then pure (.badArgument, ns)
    else do
      let ns ← pwTrailerRemove ns (cstr key)
      let added ← pwTrailerAdd (alloc 0) ns (cstr key) (cstr value)
      pure (.ok, added.getD ns)
  | .removeHeaderMapValue key =>
    if 256 ≤ key.length then pure (.badArgument, ns)
    else do
      let ns ← pwTrailerRemove ns (cstr key)
      pure (.ok, ns)
  | .setHeaderMapPairs pairs =>
    if 256 < pairs.length then pure (.badArgument, ns)
    else do
      let ns ← pwTrailerClear ns
      let ns ← putTrailers alloc 0 pairs ns
      pure (.ok, ns)

end Model

/-- The two blocks of an entry. -/
def TrailerRow (n : TrailerNode) (e : Bytes × Bytes) (P : Multiset (ℕ × Bytes)) : Prop :=
  P = {(n.name, e.1)} + {(n.value, e.2)}

section Specs

variable {ns : List TrailerNode} {tm : TrailerMap} {P : Multiset (ℕ × Bytes)}

theorem pwTrailerAdd_spec (h : Listed TrailerRow ns tm.entries P) (alloc : EntryAlloc)
    (name value : Bytes) :
    Triple P (pwTrailerAdd alloc ns name value) fun r P' =>
      Listed TrailerRow (r.getD ns) ((TrailerMaps.pwTrailerAdd alloc tm name value).getD tm).entries
        P' ∧ r.isSome = (TrailerMaps.pwTrailerAdd alloc tm name value).isSome := by
  obtain ⟨nameAlloc, valueAlloc⟩ := alloc
  unfold pwTrailerAdd TrailerMaps.pwTrailerAdd
  rw [h.length_eq]
  split
  · cases nameAlloc with
    | false => exact Triple.pure ⟨h, rfl⟩
    | true =>
      refine Triple.malloc_bind fun n => ?_
      cases valueAlloc with
      | false => exact Triple.free_bind (Triple.pure ⟨h, rfl⟩)
      | true =>
        refine Triple.malloc_bind fun m => Triple.pure ⟨?_, rfl⟩
        rw [show {(m, value)} + ({(n, name)} + P) = P + ({(n, name)} + {(m, value)}) by abel]
        exact h.append (listed_singleton rfl)
  · exact Triple.pure ⟨h, rfl⟩

theorem findTrailer_spec (name : Bytes) {es : Fields} (h : Listed TrailerRow ns es P) :
    Triple P (findTrailer name ns) fun r P' => r = es.findIdx? (hasName name) ∧ P' = P := by
  refine Triple.search (fun n e P hrow => ?_) h
  obtain rfl : P = {(n.name, e.1)} + {(n.value, e.2)} := hrow
  exact Triple.load_bind (Triple.pure ⟨rfl, rfl⟩)

theorem freeTrailer_spec (n : TrailerNode) (e : Bytes × Bytes) (P : Multiset (ℕ × Bytes))
    (h : TrailerRow n e P) : Triple P (freeTrailer n) fun _ P' => P' = 0 := by
  obtain rfl : P = {(n.name, e.1)} + {(n.value, e.2)} := h
  exact Triple.free_bind (Triple.free n.value e.2)

theorem pwTrailerRemove_spec (h : Listed TrailerRow ns tm.entries P) (name : Bytes) :
    Triple P (pwTrailerRemove ns name) fun ns' P' =>
      Listed TrailerRow ns' (TrailerMaps.pwTrailerRemove tm name).entries P' := by
  refine Triple.seq (findTrailer_spec name h) ?_
  rintro _ _ ⟨rfl, rfl⟩
  unfold TrailerMaps.pwTrailerRemove
  cases hfind : tm.entries.findIdx? (hasName name) with
  | none => exact Triple.pure h
  | some i =>
    obtain ⟨n, hn⟩ := h.exists_of_findIdx? hfind
    simp only [Option.bind_some, hn, Option.map_some]
    obtain ⟨e, Pe, P', rfl, hrow, hrest⟩ := h.swapRemove hn
    exact Triple.frees_bind (freeTrailer_spec _ _ _ hrow) fun _ => Triple.pure hrest

theorem pwTrailerClear_spec {es : Fields} (h : Listed TrailerRow ns es P) :
    Triple P (pwTrailerClear ns) fun ns' P' => ns' = [] ∧ P' = 0 := by
  refine Triple.seq (Triple.forEach freeTrailer_spec h) ?_
  rintro _ _ rfl
  exact Triple.pure ⟨rfl, rfl⟩

theorem putTrailers_spec (alloc : ℕ → EntryAlloc) (pairs : Pairs) (i : ℕ)
    (h : Listed TrailerRow ns tm.entries P) :
    Triple P (putTrailers alloc i pairs ns) fun ns' P' =>
      Listed TrailerRow ns' (TrailerMaps.putTrailers alloc i pairs tm).entries P' := by
  induction pairs generalizing i ns tm P with
  | nil => exact Triple.pure h
  | cons p pairs ih =>
    unfold putTrailers TrailerMaps.putTrailers
    split
    · refine Triple.seq (pwTrailerAdd_spec h (alloc i) p.1 p.2) ?_
      rintro r P' ⟨hadd, -⟩
      exact ih (i + 1) hadd
    · exact ih (i + 1) h

theorem trailerCall_spec (h : Listed TrailerRow ns tm.entries P) (alloc : ℕ → EntryAlloc)
    (call : TrailerCall) :
    Triple P (trailerCall alloc ns call) fun r P' =>
      let res := TrailerMaps.trailerCall alloc tm call
      r.1 = res.1 ∧ Listed TrailerRow r.2 res.2.entries P' := by
  cases call with
  | addHeaderMapValue key value =>
    simp only [trailerCall, TrailerMaps.trailerCall]
    split
    · exact Triple.pure ⟨rfl, h⟩
    · refine Triple.seq (pwTrailerAdd_spec h (alloc 0) (cstr key) (cstr value)) ?_
      rintro r P' ⟨hadd, hsome⟩
      cases hres : TrailerMaps.pwTrailerAdd (alloc 0) tm (cstr key) (cstr value) with
      | none =>
        rw [hres] at hadd hsome
        cases r with
        | none => exact Triple.pure ⟨rfl, hadd⟩
        | some _ => contradiction
      | some tm' =>
        rw [hres] at hadd hsome
        obtain ⟨ns', rfl⟩ := Option.isSome_iff_exists.mp hsome
        exact Triple.pure ⟨rfl, hadd⟩
  | replaceHeaderMapValue key value =>
    simp only [trailerCall, TrailerMaps.trailerCall]
    split
    · exact Triple.pure ⟨rfl, h⟩
    · refine Triple.seq (pwTrailerRemove_spec h (cstr key)) ?_
      intro ns' P' hns'
      refine Triple.seq (pwTrailerAdd_spec hns' (alloc 0) (cstr key) (cstr value)) ?_
      rintro r P'' ⟨hadd, -⟩
      exact Triple.pure ⟨rfl, hadd⟩
  | removeHeaderMapValue key =>
    simp only [trailerCall, TrailerMaps.trailerCall]
    split
    · exact Triple.pure ⟨rfl, h⟩
    · refine Triple.seq (pwTrailerRemove_spec h (cstr key)) ?_
      intro ns' P' hns'
      exact Triple.pure ⟨rfl, hns'⟩
  | setHeaderMapPairs pairs =>
    simp only [trailerCall, TrailerMaps.trailerCall]
    split
    · exact Triple.pure ⟨rfl, h⟩
    · refine Triple.seq (pwTrailerClear_spec h) ?_
      rintro _ _ ⟨rfl, rfl⟩
      have hempty : Listed TrailerRow [] TrailerMaps.pwTrailerClear.entries 0 := Listed.nil
      refine Triple.seq (putTrailers_spec alloc pairs 0 hempty) ?_
      intro ns' P' hns'
      exact Triple.pure ⟨rfl, hns'⟩

end Specs

end VmodWasm.TrailerBlocks
