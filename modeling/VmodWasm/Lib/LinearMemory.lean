import Mathlib.Data.List.Basic

/-!
Linear memories as byte lists: what code can do to them (write a byte, grow by
zeroed pages up to a limit), and the overlay of a saved image on the front of a
memory. An overlay gives the image and nothing else exactly when the memory
holds zeros behind it.
-/
namespace VmodWasm.Lib.LinearMemory

def pageSize : ℕ := 65536

inductive Op where
  | write (offset : ℕ) (value : UInt8)
  | grow (pages : ℕ)

/-- A write out of bounds and a growth past the limit leave the memory alone. -/
def Op.run (limit : ℕ) (mem : List UInt8) : Op → List UInt8
  | .write offset value => mem.set offset value
  | .grow pages =>
    if mem.length + pages * pageSize ≤ limit then mem ++ List.replicate (pages * pageSize) 0
    else mem

def runOps (limit : ℕ) (mem : List UInt8) (ops : List Op) : List UInt8 :=
  ops.foldl (Op.run limit) mem

/-- Only zeros from byte `n` on. -/
def ZeroFrom (n : ℕ) (mem : List UInt8) : Prop := ∀ b ∈ mem.drop n, b = 0

/-- The image, extended by zeros to `size` bytes. -/
def padded (image : List UInt8) (size : ℕ) : List UInt8 :=
  image ++ List.replicate (size - image.length) 0

/-- The image over the front of a memory. -/
def overlay (image mem : List UInt8) : List UInt8 := image ++ mem.drop image.length

theorem length_le_run (limit : ℕ) (mem : List UInt8) (op : Op) :
    mem.length ≤ (op.run limit mem).length := by
  cases op with
  | write offset value => simp [Op.run]
  | grow pages =>
    simp only [Op.run]
    split <;> simp

theorem length_le_runOps (limit : ℕ) (mem : List UInt8) (ops : List Op) :
    mem.length ≤ (runOps limit mem ops).length := by
  induction ops generalizing mem with
  | nil => exact Nat.le_refl _
  | cons op ops ih => exact Nat.le_trans (length_le_run limit mem op) (ih _)

theorem zeroFrom_iff (n : ℕ) (mem : List UInt8) :
    ZeroFrom n mem ↔ mem.drop n = List.replicate (mem.length - n) 0 := by
  rw [List.eq_replicate_iff]
  simp [ZeroFrom]

theorem length_overlay (image mem : List UInt8) (h : image.length ≤ mem.length) :
    (overlay image mem).length = mem.length := by
  simp only [overlay, List.length_append, List.length_drop]
  omega

theorem overlay_eq_padded_iff (image mem : List UInt8) :
    overlay image mem = padded image mem.length ↔ ZeroFrom image.length mem := by
  rw [overlay, padded, List.append_cancel_left_eq, zeroFrom_iff]

/-- Padded images of one image agree byte by byte, whatever their sizes. -/
theorem padded_getD (image : List UInt8) (size k : ℕ) :
    (padded image size).getD k 0 = image.getD k 0 := by
  by_cases hk : k < image.length
  · simp [padded, List.getElem?_append_left hk]
  · have hk : image.length ≤ k := Nat.le_of_not_lt hk
    simp only [padded, List.getD_eq_getElem?_getD, List.getElem?_append_right hk,
      List.getElem?_eq_none hk, List.getElem?_replicate]
    split <;> rfl

/-- A write that cannot leave a non-zero byte from `n` on. -/
def Op.Confined (n : ℕ) : Op → Prop
  | .write offset value => offset < n ∨ value = 0
  | .grow _ => True

theorem zeroFrom_run (limit n : ℕ) (mem : List UInt8) (op : Op) (hop : op.Confined n)
    (h : ZeroFrom n mem) : ZeroFrom n (op.run limit mem) := by
  cases op with
  | write offset value =>
    intro b hb
    simp only [Op.run] at hb
    rcases hop with hlt | hzero
    · rw [List.drop_set_of_lt hlt] at hb
      exact h b hb
    · rw [List.drop_set] at hb
      split at hb
      · exact h b hb
      · rcases List.mem_or_eq_of_mem_set hb with hmem | hb
        · exact h b hmem
        · rw [hb, hzero]
  | grow pages =>
    intro b hb
    simp only [Op.run] at hb
    split at hb
    · rw [List.drop_append] at hb
      rcases List.mem_append.mp hb with hmem | hnew
      · exact h b hmem
      · exact List.eq_of_mem_replicate (List.mem_of_mem_drop hnew)
    · exact h b hb

/-- Confined code keeps a memory zero behind the image. -/
theorem zeroFrom_runOps (limit n : ℕ) (mem : List UInt8) (ops : List Op)
    (hops : ∀ op ∈ ops, op.Confined n) (h : ZeroFrom n mem) :
    ZeroFrom n (runOps limit mem ops) := by
  induction ops generalizing mem with
  | nil => exact h
  | cons op ops ih =>
    have hop := hops op (List.mem_cons_self ..)
    exact ih _ (fun o ho => hops o (List.mem_cons_of_mem _ ho)) (zeroFrom_run limit n mem op hop h)

end VmodWasm.Lib.LinearMemory
