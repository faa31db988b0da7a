import VmodWasm.ByteStrings

/-!
The linear-memory helpers of proxy_wasm_mem.h. The memory is the one the
guest has at the moment of a host call; `valid` is the context's
`memory_valid` flag, set once the `memory` export has been resolved. Offsets
and lengths are the guest's 32-bit values, and their sum is taken in 64 bits.
-/
namespace VmodWasm.GuestMemory

open ByteStrings

def pwValidateRegion (valid : Bool) (mem : Bytes) (offset len : UInt32) : Bool :=
  valid && decide (offset.toNat + len.toNat ≤ mem.length)

/-- The bytes at `pw_mem_ptr(ctx, offset)`, for a region already validated. -/
def pwMemRegion (mem : Bytes) (offset len : UInt32) : Bytes :=
  (mem.drop offset.toNat).take len.toNat

/-- `pw_read_string` into a buffer of `bufsz` bytes; `none` is its -1. -/
def pwReadString (valid : Bool) (mem : Bytes) (ptr len : UInt32) (bufsz : ℕ) : Option Bytes :=
  if len = 0 then some []
  else if bufsz ≤ len.toNat then none
  else if !pwValidateRegion valid mem ptr len then none
  else some (pwMemRegion mem ptr len)

/-- `pw_write_u32`: the memory with the value stored, or `none` for -1. -/
def pwWriteU32 (valid : Bool) (mem : Bytes) (offset : UInt32) (value : ℕ) : Option Bytes :=
  if pwValidateRegion valid mem offset 4 then
    some (mem.take offset.toNat ++ u32Bytes value ++ mem.drop (offset.toNat + 4))
  else none

/-- The guest's allocator: the pointer it returns, or `none` where the call
fails or traps, and the memory it leaves. -/
abbrev GuestAlloc := Bytes → UInt32 → Option UInt32 × Bytes

/-- `pw_alloc_wasm`, for a context with or without a resolved allocator. -/
def pwAllocWasm (allocator : Option GuestAlloc) (mem : Bytes) (size : UInt32) :
    Option UInt32 × Bytes :=
  match allocator with
  | none => (none, mem)
  | some alloc => alloc mem size

/-- The two stores that end `pw_return_bytes`. -/
def writeResults (valid : Bool) (mem : Bytes) (retData retSize : UInt32) (ptr len : ℕ) :
    Bool × Bytes :=
  match pwWriteU32 valid mem retData ptr with
  | none => (false, mem)
  | some mem =>
    match pwWriteU32 valid mem retSize len with
    | none => (false, mem)
    | some mem => (true, mem)

/-- `pw_return_bytes`: whether it returned 0, and the memory it leaves. -/
def pwReturnBytes (valid : Bool) (allocator : Option GuestAlloc) (mem data : Bytes)
    (retData retSize : UInt32) : Bool × Bytes :=
  if data = [] then writeResults valid mem retData retSize 0 0
  else
    match pwAllocWasm allocator mem (UInt32.ofNat data.length) with
    | (none, mem) => (false, mem)
    | (some ptr, mem) =>
      if !pwValidateRegion valid mem ptr (UInt32.ofNat data.length) then (false, mem)
      else
        writeResults valid (mem.take ptr.toNat ++ data ++ mem.drop (ptr.toNat + data.length))
          retData retSize ptr.toNat data.length

theorem pwMemRegion_length (valid : Bool) (mem : Bytes) (offset len : UInt32)
    (h : pwValidateRegion valid mem offset len = true) :
    (pwMemRegion mem offset len).length = len.toNat := by
  simp only [pwValidateRegion, Bool.and_eq_true, decide_eq_true_eq] at h
  simp only [pwMemRegion, List.length_take, List.length_drop]
  omega

/-- A string that is read is empty, or a valid region that fits in the buffer. -/
theorem pwReadString_cases {valid : Bool} {mem : Bytes} {ptr len : UInt32} {bufsz : ℕ} {s : Bytes}
    (h : pwReadString valid mem ptr len bufsz = some s) :
    (len = 0 ∧ s = []) ∨
    (len.toNat < bufsz ∧ pwValidateRegion valid mem ptr len = true ∧
      s = pwMemRegion mem ptr len) := by
  unfold pwReadString at h
  split at h
  next hlen => exact Or.inl ⟨hlen, (Option.some.inj h).symm⟩
  next =>
    split at h
    · contradiction
    next hfits =>
      split at h
      · contradiction
      next hregion =>
        exact Or.inr ⟨Nat.lt_of_not_le hfits, by simpa using hregion, (Option.some.inj h).symm⟩

/-- Without a resolved memory only the empty string can be read. -/
theorem pwReadString_invalid (mem : Bytes) (ptr len : UInt32) (bufsz : ℕ) (s : Bytes)
    (h : pwReadString false mem ptr len bufsz = some s) : s = [] := by
  rcases pwReadString_cases h with ⟨-, hempty⟩ | ⟨-, hregion, -⟩
  · exact hempty
  · simp [pwValidateRegion] at hregion

theorem pwReadString_length (valid : Bool) (mem : Bytes) (ptr len : UInt32) (bufsz : ℕ)
    (s : Bytes) (h : pwReadString valid mem ptr len bufsz = some s) :
    s.length = len.toNat := by
  rcases pwReadString_cases h with ⟨rfl, rfl⟩ | ⟨-, hregion, rfl⟩
  · rfl
  · exact pwMemRegion_length valid mem ptr len hregion

/-- A string that was read leaves room for the terminator. -/
theorem pwReadString_lt (valid : Bool) (mem : Bytes) (ptr len : UInt32) (bufsz : ℕ) (s : Bytes)
    (hpos : 0 < bufsz) (h : pwReadString valid mem ptr len bufsz = some s) : s.length < bufsz := by
  rcases pwReadString_cases h with ⟨-, rfl⟩ | ⟨hfits, -⟩
  · exact hpos
  · rwa [pwReadString_length valid mem ptr len bufsz s h]

theorem pwWriteU32_eq_some (valid : Bool) (mem mem' : Bytes) (offset : UInt32) (value : ℕ)
    (h : pwWriteU32 valid mem offset value = some mem') :
    pwValidateRegion valid mem offset 4 = true ∧ mem'.length = mem.length := by
  unfold pwWriteU32 at h
  split at h
  next hregion =>
    have hfits := hregion
    simp only [pwValidateRegion, Bool.and_eq_true, decide_eq_true_eq] at hfits
    have hfour : (4 : UInt32).toNat = 4 := rfl
    refine ⟨hregion, ?_⟩
    rw [← Option.some.inj h]
    simp only [List.length_append, List.length_take, List.length_drop, u32Bytes, List.length_cons,
      List.length_nil]
    omega
  next => contradiction

theorem pwWriteU32_eq_none (valid : Bool) (mem : Bytes) (offset : UInt32) (value : ℕ) :
    pwWriteU32 valid mem offset value = none ↔ pwValidateRegion valid mem offset 4 = false := by
  unfold pwWriteU32
  split <;> simp_all

/-- A region is judged by the size of the memory alone. -/
theorem pwValidateRegion_congr (valid : Bool) (mem mem' : Bytes) (offset len : UInt32)
    (h : mem.length = mem'.length) :
    pwValidateRegion valid mem offset len = pwValidateRegion valid mem' offset len := by
  rw [pwValidateRegion, pwValidateRegion, h]

theorem writeResults_iff (valid : Bool) (mem : Bytes) (retData retSize : UInt32) (ptr len : ℕ) :
    (writeResults valid mem retData retSize ptr len).1 = true ↔
      pwValidateRegion valid mem retData 4 = true ∧ pwValidateRegion valid mem retSize 4 = true := by
  unfold writeResults
  rcases hfirst : pwWriteU32 valid mem retData ptr with _ | mem'
  · simp [(pwWriteU32_eq_none valid mem retData ptr).mp hfirst]
  · obtain ⟨hdata, hlen⟩ := pwWriteU32_eq_some valid mem mem' retData ptr hfirst
    rw [hdata, ← pwValidateRegion_congr valid mem' mem retSize 4 hlen]
    dsimp only
    rcases hsecond : pwWriteU32 valid mem' retSize len with _ | mem''
    · simp [(pwWriteU32_eq_none valid mem' retSize len).mp hsecond]
    · simp [(pwWriteU32_eq_some valid mem' mem'' retSize len hsecond).1]

end VmodWasm.GuestMemory
