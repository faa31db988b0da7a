import VmodWasm.CheckedHelpers
import VmodWasm.HttpCall

/-!
Host functions as trees of helper calls. Most proxy functions ask the guest's
memory for strings, regions or a serialized header map, do their host work, and
give results back; they end at the first helper that fails. One induction over
the tree covers all of them. The header map is decoded here byte by byte, as
`pw_proxy_http_call` does it.
-/
namespace VmodWasm.HelperBodies

open ByteStrings GuestMemory ProxyContext HttpCall Lib.CheckedMemory CheckedHelpers

/-- The pair loop of `pw_proxy_http_call` over the `size` bytes at `base`. -/
def decodePairsAt (base size : ℕ) : ℕ → ℕ → ℕ → RequestHead → Checked (Option RequestHead)
  | 0, _, _, head => return some head
  | n + 1, hi, off, head => do
    let ks ← loadU32 (base + (4 + hi * 8))
    let vs ← loadU32 (base + (4 + hi * 8 + 4))
    if size - off < ks + 1 then return none
    else
      let keyEnd ← load (base + (off + ks)) 1
      if keyEnd ≠ [0] then return none
      else
        let key ← load (base + off) ks
        let voff := off + (ks + 1)
        if size - voff < vs + 1 then return none
        else
          let valueEnd ← load (base + (voff + vs)) 1
          if valueEnd ≠ [0] then return none
          else
            let value ← load (base + voff) vs
            match head.addPair key value with
            | none => return none
            | some head => decodePairsAt base size n (hi + 1) (voff + (vs + 1)) head

def decodeHeaderMapAt (side : GuestSide) (ptr size : UInt32) : Checked (Option RequestHead) := do
  if size = 0 then return some {}
  else if size < 4 then return none
  else if ← validateRegion side ptr size then
    let numPairs ← loadU32 ptr.toNat
    if 64 < numPairs then return none
    else if size.toNat < 4 + numPairs * 8 then return none
    else decodePairsAt ptr.toNat size.toNat numPairs 0 (4 + numPairs * 8) {}
  else return none

/-- The plain loop of `decodePairs` with the words of its table abstracted, which
keeps their arithmetic out of its equations. -/
def decodeWith (word : ℕ → ℕ) (hdr : Bytes) : ℕ → ℕ → ℕ → RequestHead → Option RequestHead
  | 0, _, _, head => some head
  | n + 1, hi, off, head =>
    let ks := word (4 + hi * 8)
    let vs := word (4 + hi * 8 + 4)
    if hdr.length - off < ks + 1 then none
    else if hdr.getD (off + ks) 0 ≠ 0 then none
    else
      let voff := off + (ks + 1)
      if hdr.length - voff < vs + 1 then none
      else if hdr.getD (voff + vs) 0 ≠ 0 then none
      else
        match head.addPair ((hdr.drop off).take ks) ((hdr.drop voff).take vs) with
        | none => none
        | some head' => decodeWith word hdr n (hi + 1) (voff + (vs + 1)) head'

theorem decodePairs_eq (hdr : Bytes) (n hi off : ℕ) (head : RequestHead) :
    decodePairs hdr n hi off head = decodeWith (readU32 hdr) hdr n hi off head := by
  delta decodePairs decodeWith
  exact rfl

section Decoding

variable (mem : Bytes) (base size : ℕ)

theorem take_drop_region (a n : ℕ) (ha : a + n ≤ size) :
    (mem.drop (base + a)).take n = (((mem.drop base).take size).drop a).take n := by
  rw [List.drop_take, List.drop_drop, List.take_take, Nat.min_eq_left (by omega)]

theorem readU32_region (a : ℕ) (ha : a + 4 ≤ size) :
    readU32 mem (base + a) = readU32 ((mem.drop base).take size) a := by
  simp only [readU32]
  rw [getD_take_drop _ _ _ _ (by omega), getD_take_drop _ _ _ _ (by omega),
    getD_take_drop _ _ _ _ (by omega), getD_take_drop _ _ _ _ (by omega)]
  rfl

/-- The byte at an offset of the region, read as a string of one byte. -/
theorem take_one_region (hin : base + size ≤ mem.length) (a : ℕ) (ha : a < size) :
    (mem.drop (base + a)).take 1 = [((mem.drop base).take size).getD a 0] := by
  have hlt : base + a < mem.length := by omega
  rw [getD_take_drop _ _ _ _ ha, List.drop_eq_getElem_cons hlt, List.take_succ_cons, List.take_zero,
    List.getD_eq_getElem?_getD, List.getElem?_eq_getElem hlt, Option.getD_some]

/-- Over a region inside the memory, with the table of lengths inside the
region, the loop does what its plain model does with a copy of the region. -/
theorem sat_decodePairsAt (h : Heap) (hin : base + size ≤ h.bytes.length) (n hi off : ℕ)
    (head : RequestHead) (htable : 4 + (hi + n) * 8 ≤ size) (hoff : off ≤ size)
    (Q : Option RequestHead → Heap → Prop) :
    Sat (decodePairsAt base size n hi off head) Q h ↔
      Q (decodePairs ((h.bytes.drop base).take size) n hi off head) h := by
  rw [decodePairs_eq]
  have hlen : ((h.bytes.drop base).take size).length = size := by
    rw [List.length_take, List.length_drop]
    omega
  have hone (x : UInt8) : ([x] ≠ [0]) = (x ≠ 0) := by simp
  induction n generalizing hi off head with
  | zero => rw [decodePairsAt, decodeWith, sat_pure]
  | succ n ih =>
    have hks : base + (4 + hi * 8) + 4 ≤ h.bytes.length := by omega
    have hvs : base + (4 + hi * 8 + 4) + 4 ≤ h.bytes.length := by omega
    rw [decodePairsAt, decodeWith]
    simp only [sat_bind, sat_loadU32, hks, hvs, true_and, hlen]
    rw [readU32_region h.bytes base size (4 + hi * 8) (by omega),
      readU32_region h.bytes base size (4 + hi * 8 + 4) (by omega)]
    generalize readU32 ((h.bytes.drop base).take size) (4 + hi * 8) = ks
    generalize readU32 ((h.bytes.drop base).take size) (4 + hi * 8 + 4) = vs
    by_cases hkey : size - off < ks + 1
    · simp only [if_pos hkey, sat_pure]
    · have hkeyEnd : InRange h.bytes.length (base + (off + ks)) 1 := Or.inr (by omega)
      simp only [if_neg hkey, sat_bind, sat_load, hkeyEnd, true_and]
      rw [take_one_region h.bytes base size hin (off + ks) (by omega)]
      simp only [hone]
      by_cases hkeyNul : ((h.bytes.drop base).take size).getD (off + ks) 0 ≠ 0
      · simp only [if_pos hkeyNul, sat_pure]
      · have hkeyIn : InRange h.bytes.length (base + off) ks := Or.inr (by omega)
        simp only [if_neg hkeyNul, sat_bind, sat_load, hkeyIn, true_and]
        by_cases hvalue : size - (off + (ks + 1)) < vs + 1
        · simp only [if_pos hvalue, sat_pure]
        · have hvalueEnd : InRange h.bytes.length (base + (off + (ks + 1) + vs)) 1 :=
            Or.inr (by omega)
          simp only [if_neg hvalue, sat_bind, sat_load, hvalueEnd, true_and]
          rw [take_one_region h.bytes base size hin (off + (ks + 1) + vs) (by omega)]
          simp only [hone]
          by_cases hvalueNul : ((h.bytes.drop base).take size).getD (off + (ks + 1) + vs) 0 ≠ 0
          · simp only [if_pos hvalueNul, sat_pure]
          · have hvalueIn : InRange h.bytes.length (base + (off + (ks + 1))) vs := Or.inr (by omega)
            simp only [if_neg hvalueNul, sat_bind, sat_load, hvalueIn, true_and]
            rw [take_drop_region h.bytes base size off ks (by omega),
              take_drop_region h.bytes base size (off + (ks + 1)) vs (by omega)]
            rcases head.addPair _ _ with _ | head'
            · rw [sat_pure]
            · exact ih (hi + 1) _ head' (by omega) (by omega)

end Decoding

theorem decodeHeaderMapAt_computes (side : GuestSide) (ptr size : UInt32) (h : Heap) :
    Computes (decodeHeaderMapAt side ptr size) h
      (decodeHeaderMap side.valid h.bytes ptr size, h.bytes) (· = none) := by
  unfold decodeHeaderMapAt decodeHeaderMap
  by_cases hsize : size = 0
  · simp [Computes, hsize]
  · by_cases hsmall : size < 4
    · simp [Computes, hsize, hsmall]
    · by_cases hregion : pwValidateRegion side.valid h.bytes ptr size = true
      · have hin : ptr.toNat + size.toNat ≤ h.bytes.length :=
          ((pwValidateRegion_eq_true _ _ _ _).mp hregion).2
        have hfour : 4 ≤ size.toNat := Nat.not_lt.mp hsmall
        have hlen := pwMemRegion_length side.valid h.bytes ptr size hregion
        have hcount : readU32 h.bytes ptr.toNat = readU32 (pwMemRegion h.bytes ptr size) 0 :=
          readU32_region h.bytes ptr.toNat size.toNat 0 hfour
        have hfirst : ptr.toNat + 4 ≤ h.bytes.length := by omega
        rw [Computes, if_neg hsize, if_neg hsmall, if_neg hsize, if_neg (by simp [hsmall, hregion])]
        simp only [sat_bind, sat_validateRegion, hregion, not_true, false_implies, and_true,
          forall_const, if_true, sat_loadU32, hfirst, true_and, hcount, hlen]
        generalize hpairs : readU32 (pwMemRegion h.bytes ptr size) 0 = numPairs
        by_cases hmany : 64 < numPairs
        · simp [hmany]
        · by_cases htable : size.toNat < 4 + numPairs * 8
          · simp [hmany, htable]
          · rw [if_neg hmany, if_neg htable, if_neg hmany, if_neg htable,
              sat_decodePairsAt ptr.toNat size.toNat h hin numPairs 0 _ _ (by omega) (by omega)]
            exact ⟨rfl, Or.inl⟩
      · simp [Computes, hsize, hsmall, hregion]

/-- What a body asks of the guest's memory; an answer it cannot have is
`PROXY_BAD_ARGUMENT`. -/
inductive Ask where
  | string (ptr len : UInt32) (bufsz : ℕ)
  | region (ptr len : UInt32)
  | headerMap (ptr size : UInt32)

@[reducible] def Ask.Answer : Ask → Type
  | .string .. => Bytes
  | .region .. => Bytes
  | .headerMap .. => RequestHead

def Ask.run (side : GuestSide) : (q : Ask) → Checked (Option q.Answer)
  | .string ptr len bufsz => readString side ptr len bufsz
  | .region ptr len => readRegion side ptr len
  | .headerMap ptr size => decodeHeaderMapAt side ptr size

def Ask.plain (valid : Bool) (mem : Bytes) : (q : Ask) → Option q.Answer
  | .string ptr len bufsz => pwReadString valid mem ptr len bufsz
  | .region ptr len => regionAt valid mem ptr len
  | .headerMap ptr size => decodeHeaderMap valid mem ptr size

theorem Ask.run_computes (side : GuestSide) (q : Ask) (h : Heap) :
    Computes (q.run side) h (q.plain side.valid h.bytes, h.bytes) (· = none) := by
  cases q with
  | string ptr len bufsz => exact readString_computes side ptr len bufsz h
  | region ptr len => exact readRegion_computes side ptr len h
  | headerMap ptr size => exact decodeHeaderMapAt_computes side ptr size h

inductive Failure where
  | badArgument | internal
  deriving DecidableEq, Repr

def Failure.status : Failure → ProxyStatus
  | .badArgument => .badArgument
  | .internal => .internal

theorem Failure.status_ne_ok (fail : Failure) : fail.status ≠ .ok := by
  cases fail <;> decide

/-- What a body gives back, with the status it answers if it cannot; bytes are
handed over by `pw_return_bytes`, whose failure is always `PROXY_INTERNAL`. -/
inductive Give where
  | u32 (ptr : UInt32) (value : ℕ) (fail : Failure)
  | u64 (ptr : UInt32) (value : ℕ) (fail : Failure)
  | bytes (data : Text) (retData retSize : UInt32)

def Give.fail : Give → Failure
  | .u32 _ _ fail => fail
  | .u64 _ _ fail => fail
  | .bytes .. => .internal

def Give.run (side : GuestSide) : Give → Checked Bool
  | .u32 ptr value _ => writeU32 side ptr value
  | .u64 ptr value _ => writeU64 side ptr value
  | .bytes data retData retSize => returnBytes side data retData retSize

def Give.plain (side : GuestSide) (mem : Bytes) : Give → Bool × Bytes
  | .u32 ptr value _ => putU32 side.valid mem ptr value
  | .u64 ptr value _ => putU64 side.valid mem ptr value
  | .bytes data retData retSize =>
    pwReturnBytes side.valid side.allocator mem data retData retSize

theorem Give.run_computes (side : GuestSide) (g : Give) (h : Heap) :
    Computes (g.run side) h (g.plain side h.bytes) (· = false) := by
  cases g with
  | u32 ptr value fail => exact writeU32_computes side ptr value h
  | u64 ptr value fail => exact writeU64_computes side ptr value h
  | bytes data retData retSize =>
    exact returnBytes_computes side data.1 retData retSize h
      (fun hover => Nat.not_lt.mpr hover.1 data.2)

/-- What the host does with the answers in between is up to the tree. -/
inductive HelperBody where
  | done (status : ProxyStatus)
  | ask (q : Ask) (next : q.Answer → HelperBody)
  | give (g : Give) (next : HelperBody)

def HelperBody.run (side : GuestSide) : HelperBody → Checked ProxyStatus
  | .done status => return status
  | .ask q next => do
    match ← q.run side with
    | none => return .badArgument
    | some answer => (next answer).run side
  | .give g next => do
    if ← g.run side then next.run side else return g.fail.status

/-- The status a body ends with and the memory it leaves, by the plain models
of the helpers. -/
def HelperBody.eval (side : GuestSide) : HelperBody → Bytes → ProxyStatus × Bytes
  | .done status, mem => (status, mem)
  | .ask q next, mem =>
    match q.plain side.valid mem with
    | none => (.badArgument, mem)
    | some answer => (next answer).eval side mem
  | .give g next, mem =>
    match g.plain side mem with
    | (true, mem) => next.eval side mem
    | (false, mem) => (g.fail.status, mem)

section Equations

variable (side : GuestSide) (mem : Bytes)

@[simp] theorem HelperBody.eval_done (status : ProxyStatus) :
    (HelperBody.done status).eval side mem = (status, mem) := rfl

@[simp] theorem HelperBody.eval_string (ptr len : UInt32) (bufsz : ℕ) (next : Bytes → HelperBody) :
    (HelperBody.ask (.string ptr len bufsz) next).eval side mem =
      match pwReadString side.valid mem ptr len bufsz with
      | none => (.badArgument, mem)
      | some buf => (next buf).eval side mem := by
  simp only [HelperBody.eval, Ask.plain]
  rcases pwReadString side.valid mem ptr len bufsz with _ | buf <;> rfl

@[simp] theorem HelperBody.eval_region (ptr len : UInt32) (next : Bytes → HelperBody) :
    (HelperBody.ask (.region ptr len) next).eval side mem =
      if len ≠ 0 ∧ pwValidateRegion side.valid mem ptr len = false then (.badArgument, mem)
      else (next (pwMemRegion mem ptr len)).eval side mem := by
  simp only [HelperBody.eval, Ask.plain, regionAt]
  by_cases hbad : len ≠ 0 ∧ pwValidateRegion side.valid mem ptr len = false
  · simp only [if_pos hbad]
  · simp only [if_neg hbad]

@[simp] theorem HelperBody.eval_headerMap (ptr size : UInt32) (next : RequestHead → HelperBody) :
    (HelperBody.ask (.headerMap ptr size) next).eval side mem =
      match decodeHeaderMap side.valid mem ptr size with
      | none => (.badArgument, mem)
      | some head => (next head).eval side mem := by
  simp only [HelperBody.eval, Ask.plain]
  rcases decodeHeaderMap side.valid mem ptr size with _ | head <;> rfl

@[simp] theorem HelperBody.eval_u32 (ptr : UInt32) (value : ℕ) (fail : Failure)
    (next : HelperBody) :
    (HelperBody.give (.u32 ptr value fail) next).eval side mem =
      match pwWriteU32 side.valid mem ptr value with
      | none => (fail.status, mem)
      | some mem => next.eval side mem := by
  simp only [HelperBody.eval, Give.plain, putU32]
  rcases pwWriteU32 side.valid mem ptr value with _ | mem' <;> rfl

@[simp] theorem HelperBody.eval_bytes (data : Text) (retData retSize : UInt32)
    (next : HelperBody) :
    (HelperBody.give (.bytes data retData retSize) next).eval side mem =
      match pwReturnBytes side.valid side.allocator mem data retData retSize with
      | (true, mem) => next.eval side mem
      | (false, mem) => (.internal, mem) := rfl

end Equations

/-- Whatever a body does with its helpers, it stays inside the memory, and a
refused access costs it its success. -/
theorem HelperBody.run_computes (side : GuestSide) (body : HelperBody) (h : Heap) :
    Computes (body.run side) h (body.eval side h.bytes) (· ≠ .ok) := by
  induction body generalizing h with
  | done status => exact Computes.pure status h _
  | ask q next ih =>
    have hask := q.run_computes side h
    simp only [run, eval]
    rcases hplain : q.plain side.valid h.bytes with _ | answer
    · rw [hplain] at hask
      exact hask.bind (fun r => Computes.pure _ ⟨h.bytes, r⟩ _) (by simp)
    · rw [hplain] at hask
      exact hask.bind (fun r => ih answer ⟨h.bytes, r⟩) (by simp)
  | give g next ih =>
    have hgive := g.run_computes side h
    simp only [run, eval]
    rcases hplain : g.plain side h.bytes with ⟨_ | _, mem⟩
    · rw [hplain] at hgive
      exact hgive.bind (fun r => Computes.pure _ ⟨mem, r⟩ _) (fun _ => g.fail.status_ne_ok)
    · rw [hplain] at hgive
      exact hgive.bind (fun r => ih ⟨mem, r⟩) (by simp)

end VmodWasm.HelperBodies
