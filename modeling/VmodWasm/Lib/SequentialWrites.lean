import VmodWasm.Lib.CheckedMemory

/-!
Filling a buffer from the front. Chunks are stored one behind the other at a
running offset, which is kept in a counter that may wrap. As long as the chunks
fit into the buffer and the counter can reach its end, the buffer holds their
concatenation afterwards.
-/
namespace VmodWasm.Lib.SequentialWrites

open CheckedMemory

variable (wrap : ℕ → ℕ)

/-- Store a chunk at the offset and move on. -/
def emit (offset : ℕ) (chunk : List UInt8) : Checked ℕ := do
  store offset chunk
  return wrap (offset + chunk.length)

def emitAll (offset : ℕ) (chunks : List (List UInt8)) : Checked ℕ :=
  chunks.foldlM (emit wrap) offset

variable {wrap}

theorem splice_splice (bytes : List UInt8) (offset : ℕ) (data data' : List UInt8)
    (h : offset + (data ++ data').length ≤ bytes.length) :
    splice (splice bytes offset data) (offset + data.length) data' =
      splice bytes offset (data ++ data') := by
  have hoffset : (bytes.take offset).length = offset := by
    rw [List.length_take]
    simp only [List.length_append] at h
    omega
  have hfront : (bytes.take offset ++ data).length = offset + data.length := by
    rw [List.length_append, hoffset]
  unfold splice
  rw [List.take_append_of_le_length (Nat.le_of_eq hfront.symm),
    List.take_of_length_le (Nat.le_of_eq hfront)]
  rw [List.drop_append, hfront, List.drop_of_length_le (by rw [hfront]; omega), List.nil_append,
    List.drop_drop, List.length_append]
  simp only [List.append_assoc]
  congr 4
  omega

/-- Chunks that fit are stored one behind the other. -/
theorem sat_emitAll (chunks : List (List UInt8)) (offset : ℕ) (Q : ℕ → Heap → Prop) (h : Heap)
    (hwrap : ∀ n ≤ h.bytes.length, wrap n = n)
    (hfits : offset + chunks.flatten.length ≤ h.bytes.length) :
    Sat (emitAll wrap offset chunks) Q h ↔
      Q (offset + chunks.flatten.length)
        { h with bytes := splice h.bytes offset chunks.flatten } := by
  induction chunks generalizing offset h with
  | nil => simp [emitAll, splice]
  | cons chunk chunks ih =>
    simp only [List.flatten_cons, List.length_append] at hfits
    have hin : InRange h.bytes.length offset chunk.length := Or.inr (by omega)
    have hlen : (splice h.bytes offset chunk).length = h.bytes.length :=
      length_splice _ _ _ (by omega)
    have hnext := ih (offset + chunk.length) { h with bytes := splice h.bytes offset chunk }
      (by rwa [hlen]) (by rw [hlen]; omega)
    have hjoin := splice_splice h.bytes offset chunk chunks.flatten
      (by rw [List.length_append]; omega)
    simp only [hjoin] at hnext
    rw [emitAll, List.foldlM_cons, sat_bind, emit, sat_bind, sat_store]
    simp only [hin, true_and, sat_pure, hwrap _ (by omega : offset + chunk.length ≤ _)]
    rw [← emitAll, hnext, List.flatten_cons, List.length_append, Nat.add_assoc]

end VmodWasm.Lib.SequentialWrites
