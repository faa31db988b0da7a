import VmodWasm.GuestMemory
import VmodWasm.Lib.CheckedMemory

/-!
The helpers of proxy_wasm_mem.h access by access, each shown to do what its
plain model does and to stay inside the memory.
-/
namespace VmodWasm.CheckedHelpers

open ByteStrings GuestMemory Lib.CheckedMemory

/-- What a host function knows of its guest: whether the `memory` export was
resolved, and the allocator the guest exports. -/
structure GuestSide where
  valid : Bool
  allocator : Option GuestAlloc

def loadU32 (addr : ℕ) : Checked ℕ := do
  return readU32 (← load addr 4) 0

/-- `pw_validate_region`. -/
def validateRegion (side : GuestSide) (offset len : UInt32) : Checked Bool := do
  let memSize ← size
  if side.valid = true ∧ offset.toNat + len.toNat ≤ memSize then return true
  else
    refuse
    return false

/-- `pw_read_string`. -/
def readString (side : GuestSide) (ptr len : UInt32) (bufsz : ℕ) : Checked (Option Bytes) := do
  if len = 0 then return some []
  else if bufsz ≤ len.toNat then return none
  else if ← validateRegion side ptr len then return some (← load ptr.toNat len.toNat)
  else return none

/-- A region the guest names, which may be empty; the host may read all of it. -/
def readRegion (side : GuestSide) (ptr len : UInt32) : Checked (Option Bytes) := do
  if len = 0 then return some []
  else if ← validateRegion side ptr len then return some (← load ptr.toNat len.toNat)
  else return none

/-- `pw_write_u32`. -/
def writeU32 (side : GuestSide) (offset : UInt32) (value : ℕ) : Checked Bool := do
  if ← validateRegion side offset 4 then
    store offset.toNat (u32Bytes value)
    return true
  else return false

def u64Bytes (n : ℕ) : Bytes := u32Bytes n ++ u32Bytes (n / 2 ^ 32)

/-- The check and the `memcpy` of eight bytes that hand a `uint64_t` back. -/
def writeU64 (side : GuestSide) (offset : UInt32) (value : ℕ) : Checked Bool := do
  if ← validateRegion side offset 8 then
    store offset.toNat (u64Bytes value)
    return true
  else return false

/-- The two stores that end `pw_return_bytes`. -/
def writePair (side : GuestSide) (retData retSize : UInt32) (ptr len : ℕ) : Checked Bool := do
  if ← writeU32 side retData ptr then writeU32 side retSize len else return false

/-- `pw_return_bytes`. The length is a `size_t`, but the allocator and the
region check see only its low 32 bits. -/
def returnBytes (side : GuestSide) (data : Bytes) (retData retSize : UInt32) : Checked Bool := do
  if data = [] then writePair side retData retSize 0 0
  else
    match ← interlude fun mem => pwAllocWasm side.allocator mem (UInt32.ofNat data.length) with
    | none => return false
    | some ptr =>
      if ← validateRegion side ptr (UInt32.ofNat data.length) then
        store ptr.toNat data
        writePair side retData retSize ptr.toNat data.length
      else return false

theorem getD_take_drop (mem : Bytes) (addr len i : ℕ) (hi : i < len) :
    ((mem.drop addr).take len).getD i 0 = mem.getD (addr + i) 0 := by
  simp [List.getD_eq_getElem?_getD, hi]

/-- A word is read off its own four bytes. -/
theorem readU32_word (mem : Bytes) (addr : ℕ) :
    readU32 ((mem.drop addr).take 4) 0 = readU32 mem addr := by
  simp only [readU32]
  rw [getD_take_drop _ _ _ _ (by omega), getD_take_drop _ _ _ _ (by omega),
    getD_take_drop _ _ _ _ (by omega), getD_take_drop _ _ _ _ (by omega)]
  rfl

@[simp] theorem sat_loadU32 (addr : ℕ) (Q : ℕ → Heap → Prop) (h : Heap) :
    Sat (loadU32 addr) Q h ↔ addr + 4 ≤ h.bytes.length ∧ Q (readU32 h.bytes addr) h := by
  simp [loadU32, readU32_word, InRange]

theorem pwValidateRegion_eq_true (valid : Bool) (mem : Bytes) (offset len : UInt32) :
    pwValidateRegion valid mem offset len = true ↔
      valid = true ∧ offset.toNat + len.toNat ≤ mem.length := by
  simp [pwValidateRegion]

@[simp] theorem sat_validateRegion (side : GuestSide) (offset len : UInt32)
    (Q : Bool → Heap → Prop) (h : Heap) :
    Sat (validateRegion side offset len) Q h ↔
      (pwValidateRegion side.valid h.bytes offset len = true → Q true h) ∧
      (¬ pwValidateRegion side.valid h.bytes offset len = true →
        Q false { h with refused := true }) := by
  simp [validateRegion, pwValidateRegion_eq_true]

theorem inRange_of_region (valid : Bool) (mem : Bytes) (offset len : UInt32)
    (h : pwValidateRegion valid mem offset len = true) :
    InRange mem.length offset.toNat len.toNat :=
  Or.inr ((pwValidateRegion_eq_true valid mem offset len).mp h).2

theorem readString_computes (side : GuestSide) (ptr len : UInt32) (bufsz : ℕ) (h : Heap) :
    Computes (readString side ptr len bufsz) h
      (pwReadString side.valid h.bytes ptr len bufsz, h.bytes) (· = none) := by
  unfold readString pwReadString
  by_cases hlen : len = 0
  · simp [Computes, hlen]
  · by_cases hbuf : bufsz ≤ len.toNat
    · simp [Computes, hlen, hbuf]
    · by_cases hregion : pwValidateRegion side.valid h.bytes ptr len = true
      · have hin := inRange_of_region side.valid h.bytes ptr len hregion
        simp [Computes, hlen, hbuf, hregion, hin, pwMemRegion]
      · simp [Computes, hlen, hbuf, hregion]

/-- The plain model of `readRegion`. -/
def regionAt (valid : Bool) (mem : Bytes) (ptr len : UInt32) : Option Bytes :=
  if len ≠ 0 ∧ pwValidateRegion valid mem ptr len = false then none
  else some (pwMemRegion mem ptr len)

theorem readRegion_computes (side : GuestSide) (ptr len : UInt32) (h : Heap) :
    Computes (readRegion side ptr len) h (regionAt side.valid h.bytes ptr len, h.bytes)
      (· = none) := by
  unfold readRegion regionAt
  by_cases hlen : len = 0
  · simp [Computes, hlen, pwMemRegion]
  · by_cases hregion : pwValidateRegion side.valid h.bytes ptr len = true
    · have hin := inRange_of_region side.valid h.bytes ptr len hregion
      simp [Computes, hlen, hregion, hin, pwMemRegion]
    · simp [Computes, hlen, hregion]

@[simp] theorem length_u32Bytes (n : ℕ) : (u32Bytes n).length = 4 := rfl

@[simp] theorem length_u64Bytes (n : ℕ) : (u64Bytes n).length = 8 := rfl

/-- The plain model of `writeU32`. -/
def putU32 (valid : Bool) (mem : Bytes) (offset : UInt32) (value : ℕ) : Bool × Bytes :=
  match pwWriteU32 valid mem offset value with
  | none => (false, mem)
  | some mem => (true, mem)

theorem writeU32_computes (side : GuestSide) (offset : UInt32) (value : ℕ) (h : Heap) :
    Computes (writeU32 side offset value) h (putU32 side.valid h.bytes offset value)
      (· = false) := by
  unfold writeU32 putU32 pwWriteU32
  by_cases hregion : pwValidateRegion side.valid h.bytes offset 4 = true
  · have hin : InRange h.bytes.length offset.toNat 4 :=
      inRange_of_region side.valid h.bytes offset 4 hregion
    simp [Computes, hregion, hin, splice]
  · simp [Computes, hregion]

/-- The plain model of `writeU64`. -/
def putU64 (valid : Bool) (mem : Bytes) (offset : UInt32) (value : ℕ) : Bool × Bytes :=
  if pwValidateRegion valid mem offset 8 then (true, splice mem offset.toNat (u64Bytes value))
  else (false, mem)

theorem writeU64_computes (side : GuestSide) (offset : UInt32) (value : ℕ) (h : Heap) :
    Computes (writeU64 side offset value) h (putU64 side.valid h.bytes offset value)
      (· = false) := by
  unfold writeU64 putU64
  by_cases hregion : pwValidateRegion side.valid h.bytes offset 8 = true
  · have hin : InRange h.bytes.length offset.toNat 8 :=
      inRange_of_region side.valid h.bytes offset 8 hregion
    simp [Computes, hregion, hin]
  · simp [Computes, hregion]

theorem writePair_computes (side : GuestSide) (retData retSize : UInt32) (ptr len : ℕ) (h : Heap) :
    Computes (writePair side retData retSize ptr len) h
      (writeResults side.valid h.bytes retData retSize ptr len) (· = false) := by
  have hfirst := writeU32_computes side retData ptr h
  rcases hput : pwWriteU32 side.valid h.bytes retData ptr with _ | mem
  · simp only [putU32, hput] at hfirst
    simp only [writePair, writeResults, hput]
    exact hfirst.bind (fun r => Computes.pure false ⟨h.bytes, r⟩ _) id
  · simp only [putU32, hput] at hfirst
    simp only [writePair, writeResults, hput]
    exact hfirst.bind (fun r => writeU32_computes side retSize len ⟨mem, r⟩) (by simp)

/-- The copy of `data` that `returnBytes` is about to make ends behind the
memory: the region check has seen a length cut to 32 bits. -/
def CopyOverruns (side : GuestSide) (mem data : Bytes) : Prop :=
  2 ^ 32 ≤ data.length ∧
    ∃ ptr mem', pwAllocWasm side.allocator mem (UInt32.ofNat data.length) = (some ptr, mem') ∧
      pwValidateRegion side.valid mem' ptr (UInt32.ofNat data.length) = true ∧
      mem'.length < ptr.toNat + data.length

theorem returnBytes_computes (side : GuestSide) (data : Bytes) (retData retSize : UInt32) (h : Heap)
    (hfits : ¬ CopyOverruns side h.bytes data) :
    Computes (returnBytes side data retData retSize) h
      (pwReturnBytes side.valid side.allocator h.bytes data retData retSize) (· = false) := by
  unfold returnBytes pwReturnBytes
  by_cases hempty : data = []
  · simp only [hempty, if_true]
    exact writePair_computes side retData retSize 0 0 h
  · simp only [hempty, if_false]
    rcases halloc : pwAllocWasm side.allocator h.bytes (UInt32.ofNat data.length) with ⟨_ | ptr, mem⟩
    · simp [Computes, halloc]
    · by_cases hregion : pwValidateRegion side.valid mem ptr (UInt32.ofNat data.length) = true
      · have hin : InRange mem.length ptr.toNat data.length := by
          by_cases hsmall : data.length < 2 ^ 32
          · have hlen : (UInt32.ofNat data.length).toNat = data.length :=
              UInt32.toNat_ofNat_of_lt' hsmall
            exact hlen ▸ inRange_of_region side.valid mem ptr _ hregion
          · refine Or.inr (Nat.not_lt.mp fun hover => hfits ?_)
            exact ⟨Nat.not_lt.mp hsmall, ptr, mem, halloc, hregion, hover⟩
        have hpair := writePair_computes side retData retSize ptr.toNat data.length
          ⟨splice mem ptr.toNat data, h.refused⟩
        simpa [Computes, halloc, hregion, hin, splice] using hpair
      · simp [Computes, halloc, hregion]

theorem returnBytes_overruns (side : GuestSide) (data : Bytes) (retData retSize : UInt32)
    (Q : Bool → Heap → Prop) (h : Heap) (hover : CopyOverruns side h.bytes data) :
    ¬ Sat (returnBytes side data retData retSize) Q h := by
  obtain ⟨hlong, ptr, mem, halloc, hregion, hend⟩ := hover
  have hempty : data ≠ [] := by
    intro hnil
    simp [hnil] at hlong
  have hout : ¬ InRange mem.length ptr.toNat data.length := by
    unfold InRange
    omega
  simp [returnBytes, hempty, halloc, hregion, hout]

/-- Text Varnish keeps in a workspace, whose size is an `unsigned`, and other
data the host has measured in 32 bits. -/
abbrev Text := { s : Bytes // s.length < 2 ^ 32 }

end VmodWasm.CheckedHelpers
