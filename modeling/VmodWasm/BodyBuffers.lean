import VmodWasm.ProxyCalls
import VmodWasm.PairMaps

/-!
The body buffers under edits. A body is a text, and `proxy_set_buffer_bytes`
replaces a stretch of it. However many edits a guest makes, the buffer holds
what the edits make of the body; the guest can read that back as long as it is
shorter than 4 GiB, since lengths are handed over in 32 bits.
-/
namespace VmodWasm.BodyBuffers

open ByteStrings GuestMemory HttpText ProxyContext HttpCall HostCalls CheckedHelpers HelperBodies
open ProxyCalls PairMaps Lib.CheckedMemory

inductive BodyBuffer where
  | request | response
  deriving DecidableEq, Repr

def BodyBuffer.code : BodyBuffer → ℤ
  | .request => 0
  | .response => 1

def BodyBuffer.original (ctx : ProxyCtx) : BodyBuffer → Option Bytes
  | .request => ctx.requestBody
  | .response => ctx.responseBody

/-- What a body buffer holds. -/
def content (ctx : ProxyCtx) (buf : BodyBuffer) : Bytes := bodyBase ctx (buf.original ctx)

theorem bufferData_code (ctx : ProxyCtx) (buf : BodyBuffer) :
    bufferData ctx buf.code = .ok (content ctx buf) := by
  cases buf <;> rfl

section Texts

/-- The text with `len` of its bytes from `start` on replaced by `data`; both are
cut to the text. -/
def spliced (text : Bytes) (start len : ℕ) (data : Bytes) : Bytes :=
  let kept := min start text.length
  let gone := min len (text.length - kept)
  text.take kept ++ data ++ text.drop (kept + gone)

/-- At most `maxSize` bytes of the text from `start` on, or all of them for 0. -/
def slice (text : Bytes) (start maxSize : ℕ) : Bytes :=
  if maxSize = 0 then text.drop start else (text.drop start).take maxSize

theorem sliceBytes_eq (text : Bytes) (start maxSize : UInt32) :
    sliceBytes text start maxSize = slice text start.toNat maxSize.toNat := by
  unfold sliceBytes slice
  dsimp only
  by_cases hstart : start.toNat < text.length
  · rw [if_pos hstart]
    by_cases hmax : maxSize.toNat = 0
    · rw [if_pos hmax, if_neg (by omega)]
    · rw [if_neg hmax]
      split
      next => rfl
      next hshort => exact (List.take_of_length_le (by omega)).symm
  · rw [if_neg hstart, List.drop_of_length_le (by omega), List.take_nil, ite_self]

theorem length_slice_le (text : Bytes) (start maxSize : ℕ) :
    (slice text start maxSize).length ≤ text.length := by
  unfold slice
  split
  · rw [List.length_drop]
    omega
  · rw [List.length_take, List.length_drop]
    omega

end Texts

section Edits

/-- One call of `proxy_set_buffer_bytes`: the guest's memory at the call and its
arguments, and whether the host can allocate. -/
structure BodyEdit where
  env : CallEnv
  mem : Bytes
  start : UInt32
  size : UInt32
  dataPtr : UInt32
  dataSize : UInt32

def BodyEdit.data (e : BodyEdit) : Bytes := pwMemRegion e.mem e.dataPtr e.dataSize

/-- The edit as it is meant. -/
def BodyEdit.apply (e : BodyEdit) (text : Bytes) : Bytes :=
  spliced text e.start.toNat e.size.toNat e.data

/-- The data is not inside the guest's memory. -/
def BodyEdit.Outside (e : BodyEdit) (valid : Bool) : Prop :=
  e.dataSize ≠ 0 ∧ pwValidateRegion valid e.mem e.dataPtr e.dataSize = false

/-- The new length does not fit into a `size_t`. -/
def BodyEdit.Overflows (e : BodyEdit) (text : Bytes) : Prop :=
  let kept := min e.start.toNat text.length
  let gone := min e.size.toNat (text.length - kept)
  sizeMax - kept < e.data.length ∨
    sizeMax - (text.length - (kept + gone)) < kept + e.data.length

/-- The new text cannot be allocated; an empty one needs no allocation. -/
def BodyEdit.NoRoom (e : BodyEdit) (text : Bytes) : Prop :=
  e.Overflows text ∨ (e.apply text ≠ [] ∧ e.env.bodyAlloc = false)

def BodyEdit.Refused (e : BodyEdit) (valid : Bool) (text : Bytes) : Prop :=
  e.Outside valid ∨ e.NoRoom text

instance (e : BodyEdit) (text : Bytes) : Decidable (e.NoRoom text) := by
  unfold BodyEdit.NoRoom BodyEdit.Overflows
  infer_instance

instance (e : BodyEdit) (valid : Bool) (text : Bytes) : Decidable (e.Refused valid text) := by
  unfold BodyEdit.Refused BodyEdit.Outside
  infer_instance

/-- The text after an edit; a refused one changes nothing. -/
def edited (valid : Bool) (text : Bytes) (e : BodyEdit) : Bytes :=
  if e.Refused valid text then text else e.apply text

def setBuffer (buf : BodyBuffer) (ctx : ProxyCtx) (e : BodyEdit) : ProxyStatus × ProxyCtx :=
  HostCalls.pwProxySetBufferBytes e.env ctx e.mem buf.code e.start e.size e.dataPtr e.dataSize

/-- The context after the edits. -/
def editRun (buf : BodyBuffer) (ctx : ProxyCtx) (es : List BodyEdit) : ProxyCtx :=
  es.foldl (fun ctx e => (setBuffer buf ctx e).2) ctx

theorem pwReplaceBytes_eq (e : BodyEdit) (text : Bytes) :
    pwReplaceBytes text e.start e.size e.data e.env.bodyAlloc =
      if e.NoRoom text then none else some (e.apply text) := by
  have hnew : e.apply text = text.take (min e.start.toNat text.length) ++ e.data ++
      text.drop (min e.start.toNat text.length +
        min e.size.toNat (text.length - min e.start.toNat text.length)) := rfl
  unfold pwReplaceBytes
  dsimp only
  rw [List.length_drop, ← hnew]
  by_cases hover : e.Overflows text
  · rw [if_pos (show e.NoRoom text from Or.inl hover)]
    exact if_pos hover
  · refine (if_neg hover).trans ?_
    by_cases halloc : e.apply text ≠ [] ∧ e.env.bodyAlloc = false
    · rw [if_pos halloc, if_pos (show e.NoRoom text from Or.inr halloc)]
    · rw [if_neg halloc, if_neg (show ¬ e.NoRoom text from not_or.mpr ⟨hover, halloc⟩)]

theorem setBuffer_of_outside (buf : BodyBuffer) (ctx : ProxyCtx) (e : BodyEdit)
    (hout : e.Outside ctx.memoryValid) : setBuffer buf ctx e = (.badArgument, ctx) :=
  if_pos hout

theorem setBuffer_of_inside (buf : BodyBuffer) (ctx : ProxyCtx) (e : BodyEdit)
    (hin : ¬ e.Outside ctx.memoryValid) :
    setBuffer buf ctx e =
      if e.NoRoom (content ctx buf) then (.internal, ctx)
      else (.ok, { ctx with modifiedBody := e.apply (content ctx buf), bodyModified := true }) := by
  have hbody : setBuffer buf ctx e =
      setBody e.env ctx (buf.original ctx) e.start e.size e.data := by
    refine (if_neg hin).trans ?_
    cases buf <;> rfl
  have hnew : pwReplaceBytes (bodyBase ctx (buf.original ctx)) e.start e.size e.data
      e.env.bodyAlloc = _ := pwReplaceBytes_eq e (content ctx buf)
  rw [hbody, setBody, hnew]
  by_cases hroom : e.NoRoom (content ctx buf)
  · simp only [if_pos hroom]
  · simp only [if_neg hroom]

/-- What a call does to the context. -/
theorem setBuffer_snd (buf : BodyBuffer) (ctx : ProxyCtx) (e : BodyEdit) :
    (setBuffer buf ctx e).2 =
      if e.Refused ctx.memoryValid (content ctx buf) then ctx
      else { ctx with modifiedBody := e.apply (content ctx buf), bodyModified := true } := by
  by_cases hout : e.Outside ctx.memoryValid
  · have hrefused : e.Refused ctx.memoryValid (content ctx buf) := Or.inl hout
    rw [setBuffer_of_outside buf ctx e hout, if_pos hrefused]
  · rw [setBuffer_of_inside buf ctx e hout]
    by_cases hroom : e.NoRoom (content ctx buf)
    · have hrefused : e.Refused ctx.memoryValid (content ctx buf) := Or.inr hroom
      rw [if_pos hroom, if_pos hrefused]
    · have htaken : ¬ e.Refused ctx.memoryValid (content ctx buf) := not_or.mpr ⟨hout, hroom⟩
      rw [if_neg hroom, if_neg htaken]

theorem setBuffer_memoryValid (buf : BodyBuffer) (ctx : ProxyCtx) (e : BodyEdit) :
    (setBuffer buf ctx e).2.memoryValid = ctx.memoryValid := by
  rw [setBuffer_snd]
  split <;> rfl

/-- One call edits the content of its buffer. -/
theorem content_setBuffer (buf : BodyBuffer) (ctx : ProxyCtx) (e : BodyEdit) :
    content (setBuffer buf ctx e).2 buf = edited ctx.memoryValid (content ctx buf) e := by
  rw [setBuffer_snd, edited]
  split
  · rfl
  · cases buf <;> rfl

/-- So does a run of calls. -/
theorem content_editRun (buf : BodyBuffer) (ctx : ProxyCtx) (es : List BodyEdit) :
    content (editRun buf ctx es) buf =
      es.foldl (edited ctx.memoryValid) (content ctx buf) := by
  induction es generalizing ctx with
  | nil => rfl
  | cons e es ih =>
    have hrest := ih (setBuffer buf ctx e).2
    rw [setBuffer_memoryValid, content_setBuffer] at hrest
    exact hrest

end Edits

section Reading

/-- The bytes a guest finds where its two result words point. -/
def returned (mem : Bytes) (retData retSize : UInt32) : Bytes :=
  (mem.drop (readU32 mem retData.toNat)).take (readU32 mem retSize.toNat)

/-- Two result words inside a guest's memory that do not overlap. -/
structure WordsReady (side : GuestSide) (mem : Bytes) (a b : UInt32) : Prop where
  valid : side.valid = true
  first : a.toNat + 4 ≤ mem.length
  second : b.toNat + 4 ≤ mem.length
  apart : Apart a.toNat 4 b.toNat 4

/-- A guest that can be given `size` bytes: its allocator finds a block for them
inside its memory, which may grow, and clear of the result words. -/
structure GuestReady (side : GuestSide) (mem : Bytes) (size retData retSize : UInt32) : Prop
    extends WordsReady side mem retData retSize where
  block : size ≠ 0 → ∃ ptr mem', pwAllocWasm side.allocator mem size = (some ptr, mem') ∧
    mem.length ≤ mem'.length ∧ ptr.toNat + size.toNat ≤ mem'.length ∧
    Apart ptr.toNat size.toNat retData.toNat 4 ∧ Apart ptr.toNat size.toNat retSize.toNat 4

theorem readU32_lt (mem : Bytes) (off : ℕ) : readU32 mem off < 2 ^ 32 := by
  have h0 := (mem.getD off 0).toNat_lt
  have h1 := (mem.getD (off + 1) 0).toNat_lt
  have h2 := (mem.getD (off + 2) 0).toNat_lt
  have h3 := (mem.getD (off + 3) 0).toNat_lt
  unfold readU32
  omega

theorem readU32_splice (mem : Bytes) (off value : ℕ) (hin : off ≤ mem.length)
    (hvalue : value < 2 ^ 32) : readU32 (splice mem off (u32Bytes value)) off = value := by
  have hword : ((splice mem off (u32Bytes value)).drop off).take 4 = u32Bytes value :=
    region_splice mem (u32Bytes value) off hin
  have hread := readU32_u32Bytes value hvalue []
  rw [← readU32_word, hword]
  rwa [List.append_nil] at hread

theorem readU32_splice_of_apart (mem data : Bytes) (off addr : ℕ)
    (hin : addr + data.length ≤ mem.length) (hapart : Apart off 4 addr data.length) :
    readU32 (splice mem addr data) off = readU32 mem off := by
  rw [← readU32_word, region_splice_of_apart mem data addr off 4 hin hapart, readU32_word]

variable {side : GuestSide} {mem : Bytes}

theorem sat_writeU32_inside (off : UInt32) (value : ℕ) (Q : Bool → Heap → Prop) (h : Heap)
    (hvalid : side.valid = true) (hin : off.toNat + 4 ≤ h.bytes.length) :
    Sat (writeU32 side off value) Q h ↔
      Q true { h with bytes := splice h.bytes off.toNat (u32Bytes value) } := by
  have hregion : pwValidateRegion side.valid h.bytes off 4 = true :=
    (pwValidateRegion_eq_true _ _ _ _).mpr ⟨hvalid, hin⟩
  have hrange : InRange h.bytes.length off.toNat 4 := Or.inr hin
  simp [writeU32, hregion, hrange]

/-- The memory with both result words stored. -/
def withWords (mem : Bytes) (a b : UInt32) (x y : ℕ) : Bytes :=
  splice (splice mem a.toNat (u32Bytes x)) b.toNat (u32Bytes y)

theorem sat_writePair_ready (a b : UInt32) (x y : ℕ) (Q : Bool → Heap → Prop) (h : Heap)
    (hready : WordsReady side h.bytes a b) :
    Sat (writePair side a b x y) Q h ↔ Q true { h with bytes := withWords h.bytes a b x y } := by
  have hlen : (splice h.bytes a.toNat (u32Bytes x)).length = h.bytes.length :=
    length_splice _ _ _ hready.first
  have hsecond : b.toNat + 4 ≤ (splice h.bytes a.toNat (u32Bytes x)).length := by
    rw [hlen]
    exact hready.second
  unfold writePair
  rw [sat_bind, sat_writeU32_inside a x _ h hready.valid hready.first]
  exact sat_writeU32_inside b y Q _ hready.valid hsecond

variable {a b : UInt32} {x y : ℕ}

theorem readU32_withWords (hready : WordsReady side mem a b) (hx : x < 2 ^ 32)
    (hy : y < 2 ^ 32) : readU32 (withWords mem a b x y) a.toNat = x ∧
      readU32 (withWords mem a b x y) b.toNat = y := by
  have hlen : (splice mem a.toNat (u32Bytes x)).length = mem.length :=
    length_splice _ _ _ hready.first
  have hfirst := hready.first
  have hsecond := hready.second
  constructor
  · rw [withWords, readU32_splice_of_apart _ _ _ _ (by rw [hlen]; exact hsecond) hready.apart]
    exact readU32_splice mem a.toNat x (by omega) hx
  · exact readU32_splice _ b.toNat y (by omega) hy

/-- A stretch clear of both words is not touched. -/
theorem region_withWords (hready : WordsReady side mem a b) (p n : ℕ)
    (ha : Apart p n a.toNat 4) (hb : Apart p n b.toNat 4) :
    ((withWords mem a b x y).drop p).take n = (mem.drop p).take n := by
  have hlen : (splice mem a.toNat (u32Bytes x)).length = mem.length :=
    length_splice _ _ _ hready.first
  rw [withWords, region_splice_of_apart _ _ _ _ _ (by rw [hlen]; exact hready.second) hb,
    region_splice_of_apart _ _ _ _ _ hready.first ha]

theorem WordsReady.of_length {mem' : Bytes} (hready : WordsReady side mem a b)
    (hlen : mem.length ≤ mem'.length) : WordsReady side mem' a b where
  valid := hready.valid
  first := Nat.le_trans hready.first hlen
  second := Nat.le_trans hready.second hlen
  apart := hready.apart

/-- A ready guest finds the bytes it is given. -/
theorem returnBytes_returned (data : Bytes) (retData retSize : UInt32)
    (hsmall : data.length < 2 ^ 32)
    (hready : GuestReady side mem (UInt32.ofNat data.length) retData retSize) :
    Sat (returnBytes side data retData retSize)
      (fun ok h => ok = true ∧ returned h.bytes retData retSize = data) ⟨mem, false⟩ := by
  have hsize : (UInt32.ofNat data.length).toNat = data.length := UInt32.toNat_ofNat_of_lt' hsmall
  unfold returnBytes
  by_cases hempty : data = []
  · rw [if_pos hempty, sat_writePair_ready _ _ _ _ _ _ hready.toWordsReady]
    have hwords := readU32_withWords (x := 0) (y := 0) hready.toWordsReady (by omega) (by omega)
    refine ⟨rfl, ?_⟩
    rw [returned, hwords.2, List.take_zero, hempty]
  · have hpos : UInt32.ofNat data.length ≠ 0 := by
      intro hzero
      rw [hzero] at hsize
      exact hempty (List.length_eq_zero_iff.mp hsize.symm)
    obtain ⟨ptr, mem', halloc, hgrown, hblock, hdata, hwidth⟩ := hready.block hpos
    rw [hsize] at hblock hdata hwidth
    have hregion : pwValidateRegion side.valid mem' ptr (UInt32.ofNat data.length) = true :=
      (pwValidateRegion_eq_true _ _ _ _).mpr ⟨hready.valid, by rw [hsize]; exact hblock⟩
    have hlen : (splice mem' ptr.toNat data).length = mem'.length := length_splice _ _ _ hblock
    have hwords := hready.toWordsReady.of_length (hgrown.trans hlen.ge)
    have hrange : InRange mem'.length ptr.toNat data.length := Or.inr hblock
    have hcells := readU32_withWords hwords ptr.toNat_lt hsmall
    have hstretch := region_withWords (x := ptr.toNat) (y := data.length) hwords ptr.toNat
      data.length hdata hwidth
    simp only [if_neg hempty, sat_bind, sat_interlude, halloc, sat_validateRegion, hregion,
      forall_const, not_true_eq_false, false_implies, and_true, if_true, sat_store, hrange,
      true_and]
    rw [sat_writePair_ready _ _ _ _ _ _ hwords]
    refine ⟨rfl, ?_⟩
    rw [returned, hcells.1, hcells.2, hstretch]
    exact region_splice mem' data ptr.toNat (by omega)

theorem sat_pwProxyGetBufferStatus (ctx : ProxyCtx) (buf : BodyBuffer) (retLen retFlags : UInt32)
    (Q : ProxyStatus → Heap → Prop) (hready : WordsReady side mem retLen retFlags) :
    Sat ((pwProxyGetBufferStatus ctx buf.code retLen retFlags).run side) Q ⟨mem, false⟩ ↔
      Q .ok ⟨withWords mem retLen retFlags (content ctx buf).length 0, false⟩ := by
  have hlen : (splice mem retLen.toNat (u32Bytes (content ctx buf).length)).length = mem.length :=
    length_splice _ _ _ hready.first
  have hflags : retFlags.toNat + 4 ≤
      (splice mem retLen.toNat (u32Bytes (content ctx buf).length)).length := by
    rw [hlen]
    exact hready.second
  simp only [pwProxyGetBufferStatus, bufferData_code, HelperBody.run, Give.run, sat_bind]
  rw [sat_writeU32_inside _ _ _ _ hready.valid hready.first, if_pos rfl, sat_bind,
    sat_writeU32_inside _ _ _ _ hready.valid hflags, if_pos rfl, sat_pure]
  rfl

theorem pwProxyGetBufferBytes_code (side : GuestSide) (ctx : ProxyCtx) (buf : BodyBuffer)
    (start maxSize retData retSize : UInt32) :
    pwProxyGetBufferBytes side ctx buf.code start maxSize retData retSize = (do
      if ← returnBytes side (slice (content ctx buf) start.toNat maxSize.toNat) retData retSize
      then return .ok
      else return .internal) := by
  rw [pwProxyGetBufferBytes, bufferData_code, ← sliceBytes_eq]

end Reading

/-- A guest that reads the buffer gets `text`: any slice of it, and its length. -/
structure Reports (ctx : ProxyCtx) (buf : BodyBuffer) (text : Bytes) : Prop where
  content_eq : content ctx buf = text
  bytes : ∀ side mem start maxSize retData retSize,
    GuestReady side mem (UInt32.ofNat (slice text start.toNat maxSize.toNat).length)
      retData retSize →
    Sat (pwProxyGetBufferBytes side ctx buf.code start maxSize retData retSize)
      (fun status h => status = .ok ∧
        returned h.bytes retData retSize = slice text start.toNat maxSize.toNat) ⟨mem, false⟩
  status : ∀ side mem retLen retFlags, WordsReady side mem retLen retFlags →
    Sat ((pwProxyGetBufferStatus ctx buf.code retLen retFlags).run side)
      (fun status h => status = .ok ∧ readU32 h.bytes retLen.toNat = text.length) ⟨mem, false⟩

theorem reports_of_lt (ctx : ProxyCtx) (buf : BodyBuffer) (text : Bytes)
    (htext : content ctx buf = text) (hsmall : text.length < 2 ^ 32) : Reports ctx buf text where
  content_eq := htext
  bytes := by
    intro side mem start maxSize retData retSize hready
    have hslice := length_slice_le text start.toNat maxSize.toNat
    rw [pwProxyGetBufferBytes_code, htext, sat_bind]
    refine Sat.mono (returnBytes_returned _ _ _ (by omega) hready) ?_
    intro ok h hdone
    rw [hdone.1, if_pos rfl, sat_pure]
    exact ⟨rfl, hdone.2⟩
  status := by
    intro side mem retLen retFlags hready
    rw [sat_pwProxyGetBufferStatus ctx buf _ _ _ hready, htext]
    exact ⟨rfl, (readU32_withWords hready hsmall (by omega)).1⟩

/-- A memory of two words, and a guest that has it. -/
theorem twoWords_ready : WordsReady ⟨true, none⟩ (List.replicate 8 0) 0 4 where
  valid := rfl
  first := by decide
  second := by decide
  apart := Or.inl (by decide)

/-- No length of 4 GiB or more can be told. -/
theorem lt_of_reports (ctx : ProxyCtx) (buf : BodyBuffer) (text : Bytes)
    (hreports : Reports ctx buf text) : text.length < 2 ^ 32 := by
  obtain ⟨status, h, -, -, hlen⟩ := hreports.status _ _ _ _ twoWords_ready
  rw [← hlen]
  exact readU32_lt _ _

/-- After any edits the guest reads back what the edits make of the body exactly
when that is shorter than 4 GiB. -/
theorem reports_editRun_iff (buf : BodyBuffer) (ctx : ProxyCtx) (es : List BodyEdit) :
    Reports (editRun buf ctx es) buf
        (es.foldl (edited ctx.memoryValid) (content ctx buf)) ↔
      (es.foldl (edited ctx.memoryValid) (content ctx buf)).length < 2 ^ 32 := by
  constructor
  · intro hreports
    exact lt_of_reports _ _ _ hreports
  · intro hsmall
    exact reports_of_lt _ _ _ (content_editRun buf ctx es) hsmall

section Grown

theorem length_spliced (text : Bytes) (start len : ℕ) (data : Bytes) :
    (spliced text start len data).length = min start text.length + data.length +
      (text.length - (min start text.length + min len (text.length - min start text.length))) := by
  simp only [spliced, List.length_append, List.length_take, List.length_drop]
  omega

/-- A guest that appends one byte to a body of 4 GiB less one byte. -/
def appendByte : BodyEdit where
  env := {}
  mem := [0x61]
  start := 0xffffffff
  size := 0
  dataPtr := 0
  dataSize := 1

/-- The chunk `text` as `vdp_wasm_bytes` shows it. -/
def showing (text : Bytes) : ProxyCtx := { memoryValid := true, responseBody := some text }

theorem appendByte_inside : ¬ appendByte.Outside true := by
  intro hout
  exact absurd hout.2 (by decide)

theorem appendByte_room (text : Bytes) (hlen : text.length = 2 ^ 32 - 1) :
    ¬ appendByte.NoRoom text := by
  have hstart : appendByte.start.toNat = 2 ^ 32 - 1 := rfl
  have hdata : appendByte.data.length = 1 := rfl
  have hmax : sizeMax = 2 ^ 64 - 1 := rfl
  intro hroom
  rcases hroom with hover | halloc
  · simp only [BodyEdit.Overflows, hstart, hdata, hmax, hlen] at hover
    omega
  · exact absurd halloc.2 (by decide)

theorem length_appendByte (text : Bytes) (hlen : text.length = 2 ^ 32 - 1) :
    (appendByte.apply text).length = 2 ^ 32 := by
  have hstart : appendByte.start.toNat = 2 ^ 32 - 1 := rfl
  have hsize : appendByte.size.toNat = 0 := rfl
  have hdata : appendByte.data.length = 1 := rfl
  rw [BodyEdit.apply, length_spliced, hstart, hsize, hdata, hlen]
  omega

/-- The append succeeds, the body is 4 GiB long, and its length is told as 0. -/
theorem grownBody_untold :
    let text : Bytes := List.replicate (2 ^ 32 - 1) 0x61
    let res := setBuffer .response (showing text) appendByte
    res.1 = .ok ∧ (content res.2 .response).length = 2 ^ 32 ∧
      (pwProxyGetBufferStatus res.2 BodyBuffer.response.code 0 4).eval ⟨true, none⟩
        (List.replicate 8 0xff) = (.ok, List.replicate 8 0) := by
  have hlen : (List.replicate (2 ^ 32 - 1) (0x61 : UInt8)).length = 2 ^ 32 - 1 :=
    List.length_replicate
  generalize List.replicate (2 ^ 32 - 1) (0x61 : UInt8) = text at hlen
  have hroom : ¬ appendByte.NoRoom (content (showing text) .response) := appendByte_room text hlen
  have hok : (setBuffer .response (showing text) appendByte).1 = .ok := by
    rw [setBuffer_of_inside .response (showing text) _ appendByte_inside, if_neg hroom]
  have htaken : ¬ appendByte.Refused true text :=
    not_or.mpr ⟨appendByte_inside, appendByte_room text hlen⟩
  have hgrown : (content (setBuffer .response (showing text) appendByte).2 .response).length =
      2 ^ 32 := by
    rw [content_setBuffer, edited]
    exact (congrArg List.length (if_neg htaken)).trans (length_appendByte text hlen)
  refine ⟨hok, hgrown, ?_⟩
  rw [pwProxyGetBufferStatus, bufferData_code]
  dsimp only
  rw [hgrown]
  decide

end Grown

end VmodWasm.BodyBuffers
