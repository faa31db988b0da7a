import VmodWasm.HeaderLines
import VmodWasm.Lib.Interaction

/-!
The raw functions of host_functions.c, which modules import from `env`, and
`vwasm_engine_call`, which runs them. A module passes a buffer and gets the length of a
text back, with as much of the text as the buffer holds. Every access is checked, to the
guest's memory and to the strings and buffers of the host, whose lengths are `int32_t` and
`unsigned` in some places. For guests with less than 2 GiB of memory each call has a plain
effect.
-/
namespace VmodWasm.RawAbi

open ByteStrings ByteSearch ProxyContext HeaderTables HeaderLookup HeaderLines CalloutHeaders
  Lib.CheckedMemory Lib.Interaction

inductive LogTag where
  | debug | vclLog | error
  deriving DecidableEq, Repr

/-- What is reached through `vrt_ctx`: the headers of the request, if there is one, the
address of the client as a string, and the log. -/
structure RawTask where
  http : Option HttpTable := none
  clientIp : Option CStr := none
  vsl : Option (List (LogTag × Bytes)) := none

/-- The allocations of a call, the copy to the workspace, and the room in the table. -/
structure RawEnv where
  nameAlloc : Bool := true
  valueAlloc : Bool := true
  copied : Bool := true
  fits : Bool := true

section Helpers

/-- The conversion to `size_t`. -/
def sizeT (n : Int32) : ℕ := (n.toInt % 2 ^ 64).toNat

/-- `validate_mem_region`. -/
def validateMemRegion (valid : Bool) (ptr len : Int32) : Checked Bool := do
  if valid = false ∨ ptr < 0 ∨ len < 0 then return false
  else return decide (sizeT ptr + sizeT len ≤ (← size))

/-- `read_wasm_string`, without the NUL it adds. -/
def readWasmString (valid : Bool) (ptr len : Int32) (alloc : Bool) : Checked (Option Bytes) := do
  if ← validateMemRegion valid ptr len then
    if alloc then return some (← load (sizeT ptr) (sizeT len)) else return none
  else return none

/-- A `memcpy` from a C string, which has a byte more than its length. -/
def memcpyFrom (addr : ℕ) (str : Bytes) (n : ℕ) : Checked Unit :=
  if n ≤ str.length + 1 then store addr ((str ++ [0]).take n) else fun _ => none

def copyTruncated (valid : Bool) (bufPtr bufLen : Int32) (str : Bytes) : Checked Unit := do
  let slen := Int32.ofNat str.length
  if ← validateMemRegion valid bufPtr bufLen then
    memcpyFrom (sizeT bufPtr) str (sizeT (if slen < bufLen then slen else bufLen))
  else return ()

def writeToWasmBuf (valid : Bool) (bufPtr bufLen : Int32) : Option Bytes → Checked Int32
  | none => return -1
  | some str => do
    if 0 < bufLen then
      copyTruncated valid bufPtr bufLen str
      return Int32.ofNat str.length
    else return Int32.ofNat str.length

/-- The loop of `host_get_request_header` over the lines. -/
def searchHeaders (t : HttpTable) (name : Bytes) : Option Bytes :=
  t.entries.findSome? fun
    | none => none
    | some line =>
      if name.length < line.1.length ∧ line.1[name.length]? = some colon ∧
          caseEq (line.1.take name.length) name = true then
        some ((line.1.drop (name.length + 1)).dropWhile isBlank)
      else none

end Helpers

section Functions

variable (valid : Bool) (env : RawEnv) (task : RawTask)

def hostGetRequestHeader (namePtr nameLen bufPtr bufLen : Int32) : Checked Int32 :=
  match task.http with
  | none => return -1
  | some t => do
    match ← readWasmString valid namePtr nameLen env.nameAlloc with
    | none => return -1
    | some name => writeToWasmBuf valid bufPtr bufLen (searchHeaders t (cstr name))

def hostGetRequestUrl (bufPtr bufLen : Int32) : Checked Int32 :=
  writeToWasmBuf valid bufPtr bufLen ((task.http.bind HttpTable.url).map (·.1))

def hostGetRequestMethod (bufPtr bufLen : Int32) : Checked Int32 :=
  writeToWasmBuf valid bufPtr bufLen ((task.http.bind HttpTable.method).map (·.1))

def hostGetClientIp (bufPtr bufLen : Int32) : Checked Int32 :=
  writeToWasmBuf valid bufPtr bufLen (task.clientIp.map (·.1))

/-- `WS_Alloc` with the length as an `unsigned`, and the `snprintf` of `hdr_len` bytes
into what it gives; a workspace of `ws` bytes has no room for more. -/
def setHeaderLine (ws : ℕ) (t : HttpTable) (name value : Bytes) : Checked (Int32 × RawTask) :=
  let hdrLen := (cstr name).length + 2 + (cstr value).length + 1
  let allocated := hdrLen % 2 ^ 32
  if env.copied = false ∨ ws < allocated then pure (-1, task)
  else if allocated < hdrLen then fun _ => none
  else pure (0, { task with http := some (httpSetHeader env.fits (rawLine name value) t) })

def hostSetResponseHeader (ws : ℕ) (namePtr nameLen valPtr valLen : Int32) :
    Checked (Int32 × RawTask) :=
  match task.http with
  | none => return (-1, task)
  | some t => do
    match ← readWasmString valid namePtr nameLen env.nameAlloc with
    | none => return (-1, task)
    | some name =>
      match ← readWasmString valid valPtr valLen env.valueAlloc with
      | none => return (-1, task)
      | some value => setHeaderLine env task ws t name value

def levelTag (level : Int32) : LogTag :=
  if level = 0 then .debug else if level = 1 then .vclLog else .error

def hostLogMsg (level msgPtr msgLen : Int32) : Checked RawTask :=
  match task.vsl with
  | none => return task
  | some log => do
    match ← readWasmString valid msgPtr msgLen env.nameAlloc with
    | none => return task
    | some msg =>
      return { task with vsl := some (log ++ [(levelTag level, ascii "wasm: " ++ cstr msg)]) }

end Functions

/-- The functions that hand a text over. -/
inductive TextFn where
  | header (namePtr nameLen : Int32)
  | url
  | method
  | clientIp

inductive RawCall where
  | text (f : TextFn) (bufPtr bufLen : Int32)
  | setResponseHeader (namePtr nameLen valPtr valLen : Int32)
  | logMsg (level msgPtr msgLen : Int32)

def TextFn.run (valid : Bool) (env : RawEnv) (task : RawTask) (f : TextFn)
    (bufPtr bufLen : Int32) : Checked Int32 :=
  match f with
  | .header namePtr nameLen => hostGetRequestHeader valid env task namePtr nameLen bufPtr bufLen
  | .url => hostGetRequestUrl valid task bufPtr bufLen
  | .method => hostGetRequestMethod valid task bufPtr bufLen
  | .clientIp => hostGetClientIp valid task bufPtr bufLen

/-- A call: what it returns, if anything, and the task it leaves. -/
def RawCall.run (ws : ℕ) (valid : Bool) (env : RawEnv) (task : RawTask) :
    RawCall → Checked (Option Int32 × RawTask)
  | .text f bufPtr bufLen => do return (some (← f.run valid env task bufPtr bufLen), task)
  | .setResponseHeader namePtr nameLen valPtr valLen => do
    let r ← hostSetResponseHeader valid env task ws namePtr nameLen valPtr valLen
    return (some r.1, r.2)
  | .logMsg level msgPtr msgLen => do
    return (none, ← hostLogMsg valid env task level msgPtr msgLen)

/-- A call with the guest's memory, which the limiter of the store keeps small. -/
structure RawRequest (limit : ℕ) where
  mem : { mem : Bytes // mem.length ≤ limit }
  call : RawCall

structure RawReply where
  mem : Bytes
  code : Option Int32

structure RawState where
  task : RawTask
  calls : ℕ := 0
  faulted : Bool := false

abbrev RawProg (limit : ℕ) (A : Type) := Prog (RawRequest limit) RawReply A

/-- A call that leaves the guest's memory, or a buffer of the host, is a fault. -/
def handleRaw {limit : ℕ} (ws : ℕ) (env : ℕ → RawEnv) (valid : Bool) (r : RawRequest limit)
    (s : RawState) : RawReply × RawState :=
  match (r.call.run ws valid (env s.calls) s.task).run ⟨r.mem.1, false⟩ with
  | none => (⟨r.mem.1, none⟩, { s with faulted := true })
  | some ((code, task), h) => (⟨h.bytes, code⟩, { s with task := task, calls := s.calls + 1 })

/-- A module: its start function, if it has one, whether it exports its memory, and its
functions. Functions end in a trap or an error, or with a result. -/
structure RawModule (limit : ℕ) (σ : Type) where
  initial : σ
  start : Option (RawProg limit (Option σ)) := none
  memory : Bool := true
  func : Bytes → Option (σ → RawProg limit (Option Int32))

section Engine

variable {limit : ℕ} {σ : Type} (ws : ℕ) (env : ℕ → RawEnv) (m : RawModule limit σ)

/-- The instantiation. A start function runs before the memory is looked up. -/
def instantiate (s : RawState) : Option σ × RawState :=
  match m.start with
  | none => (some m.initial, s)
  | some p => interp (handleRaw ws env false) p s

/-- `vwasm_engine_call` for a module that is loaded. -/
def vwasmEngineCall (storeNew : Bool) (funcName : Bytes) (s : RawState) :
    Option Int32 × RawState :=
  if storeNew = false then (none, s)
  else
    match instantiate ws env m s with
    | (none, s) => (none, s)
    | (some g, s) =>
      match m.func funcName with
      | none => (none, s)
      | some f => interp (handleRaw ws env m.memory) (f g) s

end Engine

section Runs

/-- A region inside the guest's memory, as the code tests it. -/
def regionOk (valid : Bool) (mem : Bytes) (ptr len : Int32) : Bool :=
  valid && decide (0 ≤ ptr) && decide (0 ≤ len) && decide (sizeT ptr + sizeT len ≤ mem.length)

/-- The string that is read from a region. -/
def stringAt (valid : Bool) (mem : Bytes) (ptr len : Int32) (alloc : Bool) : Option Bytes :=
  if regionOk valid mem ptr len && alloc then some ((mem.drop (sizeT ptr)).take (sizeT len))
  else none

/-- The memory after a text was handed over. -/
def handedOver (valid : Bool) (mem : Bytes) (bufPtr bufLen : Int32) : Option Bytes → Bytes
  | none => mem
  | some str =>
    if decide (0 < bufLen) && regionOk valid mem bufPtr bufLen then
      splice mem (sizeT bufPtr) (str.take (sizeT bufLen))
    else mem

/-- The length that is returned for a text. -/
def textCode : Option Bytes → Int32
  | none => -1
  | some str => Int32.ofNat str.length

variable {valid : Bool} {ptr len : Int32} {h : Heap}

theorem sizeT_of_nonneg {n : Int32} (hn : 0 ≤ n) : sizeT n = n.toInt.toNat := by
  have hzero : 0 ≤ n.toInt := Int32.le_iff_toInt_le.mp hn
  have hlt := n.toInt_lt
  rw [sizeT, Int.emod_eq_of_lt hzero (by omega)]

theorem sizeT_ofNat {n : ℕ} (hn : n < 2 ^ 31) : sizeT (Int32.ofNat n) = n := by
  have hint : (Int32.ofNat n).toInt = n := Int32.toInt_ofNat_of_lt hn
  have hnonneg : 0 ≤ Int32.ofNat n := by
    rw [Int32.le_iff_toInt_le, hint]
    exact Int.natCast_nonneg n
  rw [sizeT_of_nonneg hnonneg, hint, Int.toNat_natCast]

theorem validateMemRegion_eq :
    validateMemRegion valid ptr len h = some (regionOk valid h.bytes ptr len, h) := by
  unfold validateMemRegion regionOk
  by_cases hargs : valid = false ∨ ptr < 0 ∨ len < 0
  · rw [if_pos hargs]
    have hbad : (valid && decide (0 ≤ ptr) && decide (0 ≤ len)) = false := by
      rcases hargs with rfl | hptr | hlen
      · rfl
      · simp [Int32.not_le.mpr hptr]
      · simp [Int32.not_le.mpr hlen]
    rw [hbad]
    rfl
  · rw [if_neg hargs]
    push Not at hargs
    obtain ⟨hvalid, hptr, hlen⟩ := hargs
    rw [Bool.eq_true_of_not_eq_false hvalid, decide_eq_true (Int32.not_lt.mp hptr),
      decide_eq_true (Int32.not_lt.mp hlen)]
    rfl

theorem readWasmString_eq (alloc : Bool) :
    readWasmString valid ptr len alloc h = some (stringAt valid h.bytes ptr len alloc, h) := by
  unfold readWasmString stringAt
  rw [bind_of_run validateMemRegion_eq]
  cases hok : regionOk valid h.bytes ptr len with
  | false => rfl
  | true =>
    cases alloc with
    | false => rfl
    | true =>
      have hin : InRange h.bytes.length (sizeT ptr) (sizeT len) := by
        simp only [regionOk, Bool.and_eq_true, decide_eq_true_eq] at hok
        exact Or.inr hok.2
      have hload : load (sizeT ptr) (sizeT len) h =
          some ((h.bytes.drop (sizeT ptr)).take (sizeT len), h) := if_pos hin
      exact bind_of_run hload

variable {bufPtr bufLen : Int32} {str : Bytes}

/-- The number of bytes that are copied. -/
theorem sizeT_copyLen (hbuf : 0 ≤ bufLen) (hstr : str.length < 2 ^ 31) :
    sizeT (if Int32.ofNat str.length < bufLen then Int32.ofNat str.length else bufLen) =
      min str.length (sizeT bufLen) := by
  have hslen : (Int32.ofNat str.length).toInt = str.length := Int32.toInt_ofNat_of_lt hstr
  have hlen : sizeT bufLen = bufLen.toInt.toNat := sizeT_of_nonneg hbuf
  have hnonneg : 0 ≤ bufLen.toInt := Int32.le_iff_toInt_le.mp hbuf
  split
  next hlt =>
    rw [Int32.lt_iff_toInt_lt, hslen] at hlt
    rw [sizeT_ofNat hstr]
    omega
  next hge =>
    rw [Int32.lt_iff_toInt_lt, hslen] at hge
    omega

theorem copyTruncated_eq (hbuf : 0 < bufLen) (hstr : str.length < 2 ^ 31) :
    copyTruncated valid bufPtr bufLen str h =
      some ((), { h with bytes := handedOver valid h.bytes bufPtr bufLen (some str) }) := by
  unfold copyTruncated handedOver
  dsimp only
  rw [bind_of_run validateMemRegion_eq, decide_eq_true hbuf, Bool.true_and]
  cases hok : regionOk valid h.bytes bufPtr bufLen with
  | false => rfl
  | true =>
    rw [sizeT_copyLen (Int32.le_of_lt hbuf) hstr, if_pos rfl, if_pos rfl]
    have htake : (str ++ [0]).take (min str.length (sizeT bufLen)) = str.take (sizeT bufLen) := by
      rw [List.take_append_of_le_length (Nat.min_le_left ..), List.take_eq_take_iff]
      omega
    have hlen : (str.take (sizeT bufLen)).length ≤ sizeT bufLen := List.length_take_le ..
    have hin : InRange h.bytes.length (sizeT bufPtr) (str.take (sizeT bufLen)).length := by
      simp only [regionOk, Bool.and_eq_true, decide_eq_true_eq] at hok
      exact Or.inr (by omega)
    unfold memcpyFrom
    rw [if_pos (by omega), htake]
    exact if_pos hin

theorem writeToWasmBuf_eq (v : Option Bytes) (hv : ∀ str, v = some str → str.length < 2 ^ 31) :
    writeToWasmBuf valid bufPtr bufLen v h =
      some (textCode v, { h with bytes := handedOver valid h.bytes bufPtr bufLen v }) := by
  cases v with
  | none => rfl
  | some str =>
    by_cases hbuf : 0 < bufLen
    · rw [writeToWasmBuf, if_pos hbuf]
      exact bind_of_run (copyTruncated_eq hbuf (hv str rfl))
    · rw [writeToWasmBuf, if_neg hbuf, handedOver, decide_eq_false hbuf]
      rfl

/-- The loop finds what `http_GetHdr` finds. -/
theorem searchHeaders_eq (t : HttpTable) (name : Bytes) :
    searchHeaders t name = httpGetHdr t name := by
  unfold searchHeaders httpGetHdr
  congr 1
  funext e
  cases e with
  | none => rfl
  | some line =>
    have hiff : (name.length < line.1.length ∧ line.1[name.length]? = some colon ∧
        caseEq (line.1.take name.length) name = true) ↔ begins name line.1 = true := by
      rw [begins, Bool.and_eq_true, beq_iff_eq]
      constructor
      · intro hraw
        exact ⟨hraw.2.2, hraw.2.1⟩
      · intro hbegins
        obtain ⟨hlt, -⟩ := List.getElem?_eq_some_iff.mp hbegins.2
        exact ⟨hlt, hbegins.2, hbegins.1⟩
    exact if_congr hiff rfl rfl

end Runs

/-- All texts that a call may hand over. -/
def RawTask.texts (task : RawTask) : List CStr :=
  (task.http.toList.flatMap fun t => t.method.toList ++ t.url.toList ++ t.entries.filterMap id) ++
    task.clientIp.toList

/-- The texts of a task are shorter than `int32_t` can tell. -/
def TextsShort (task : RawTask) : Prop := ∀ text ∈ task.texts, text.1.length < 2 ^ 31

instance (task : RawTask) : Decidable (TextsShort task) := inferInstanceAs (Decidable (∀ _ ∈ _, _))

theorem mem_texts {task : RawTask} {text : CStr} : text ∈ task.texts ↔
    (∃ t, task.http = some t ∧
      (t.method = some text ∨ t.url = some text ∨ some text ∈ t.entries)) ∨
    task.clientIp = some text := by
  simp [RawTask.texts]

/-- The text that a function is about, with the name of a header in the memory. -/
def TextFn.value (valid : Bool) (env : RawEnv) (task : RawTask) (mem : Bytes) :
    TextFn → Option Bytes
  | .header namePtr nameLen =>
    task.http.bind fun t => (stringAt valid mem namePtr nameLen env.nameAlloc).bind fun name =>
      httpGetHdr t (cstr name)
  | .url => (task.http.bind HttpTable.url).map (·.1)
  | .method => (task.http.bind HttpTable.method).map (·.1)
  | .clientIp => task.clientIp.map (·.1)

/-- What `host_set_response_header` does with guests whose lines have a length below
`2 ^ 32`. -/
def lineSet (env : RawEnv) (task : RawTask) (ws : ℕ) (t : HttpTable) (name value : Bytes) :
    Int32 × RawTask :=
  if env.copied = false ∨ ws < (cstr name).length + 2 + (cstr value).length + 1 then (-1, task)
  else (0, { task with http := some (httpSetHeader env.fits (rawLine name value) t) })

/-- What a call returns, and the task and the memory it leaves. -/
def RawCall.effect (ws : ℕ) (valid : Bool) (env : RawEnv) (task : RawTask) (mem : Bytes) :
    RawCall → (Option Int32 × RawTask) × Bytes
  | .text f bufPtr bufLen =>
    ((some (textCode (f.value valid env task mem)), task),
      handedOver valid mem bufPtr bufLen (f.value valid env task mem))
  | .setResponseHeader namePtr nameLen valPtr valLen =>
    match task.http, stringAt valid mem namePtr nameLen env.nameAlloc,
      stringAt valid mem valPtr valLen env.valueAlloc with
    | some t, some name, some value =>
      let r := lineSet env task ws t name value
      ((some r.1, r.2), mem)
    | _, _, _ => ((some (-1), task), mem)
  | .logMsg level msgPtr msgLen =>
    match task.vsl, stringAt valid mem msgPtr msgLen env.nameAlloc with
    | some log, some msg =>
      ((none, { task with
        vsl := some (log ++ [(levelTag level, ascii "wasm: " ++ cstr msg)]) }), mem)
    | _, _ => ((none, task), mem)

section Calls

variable {ws : ℕ} {valid : Bool} {env : RawEnv} {task : RawTask} {h : Heap}

theorem length_httpGetHdr_le (t : HttpTable) (name v : Bytes) (hv : httpGetHdr t name = some v) :
    ∃ line, some line ∈ t.entries ∧ v.length ≤ line.1.length := by
  obtain ⟨e, he, hline⟩ := List.exists_of_findSome?_eq_some hv
  cases e with
  | none => contradiction
  | some line =>
    dsimp only at hline
    split at hline
    · obtain rfl := Option.some.inj hline
      refine ⟨line, he, (List.dropWhile_suffix _).length_le.trans ?_⟩
      rw [List.length_drop]
      omega
    · contradiction

theorem TextFn.value_short (hshort : TextsShort task) (mem : Bytes) (f : TextFn) (str : Bytes)
    (hv : f.value valid env task mem = some str) : str.length < 2 ^ 31 := by
  cases f with
  | header namePtr nameLen =>
    obtain ⟨t, ht, hv⟩ := Option.bind_eq_some_iff.mp hv
    obtain ⟨name, -, hv⟩ := Option.bind_eq_some_iff.mp hv
    obtain ⟨line, hline, hle⟩ := length_httpGetHdr_le t _ str hv
    exact hle.trans_lt (hshort line (mem_texts.mpr (.inl ⟨t, ht, .inr (.inr hline)⟩)))
  | url =>
    obtain ⟨text, htext, rfl⟩ := Option.map_eq_some_iff.mp hv
    obtain ⟨t, ht, hurl⟩ := Option.bind_eq_some_iff.mp htext
    exact hshort text (mem_texts.mpr (.inl ⟨t, ht, .inr (.inl hurl)⟩))
  | method =>
    obtain ⟨text, htext, rfl⟩ := Option.map_eq_some_iff.mp hv
    obtain ⟨t, ht, hmethod⟩ := Option.bind_eq_some_iff.mp htext
    exact hshort text (mem_texts.mpr (.inl ⟨t, ht, .inl hmethod⟩))
  | clientIp =>
    obtain ⟨text, htext, rfl⟩ := Option.map_eq_some_iff.mp hv
    exact hshort text (mem_texts.mpr (.inr htext))

theorem TextFn.run_eq (hshort : TextsShort task) (f : TextFn) (bufPtr bufLen : Int32) :
    f.run valid env task bufPtr bufLen h =
      some (textCode (f.value valid env task h.bytes),
        ⟨handedOver valid h.bytes bufPtr bufLen (f.value valid env task h.bytes), h.refused⟩) := by
  have hlen : ∀ str, f.value valid env task h.bytes = some str → str.length < 2 ^ 31 :=
    TextFn.value_short hshort h.bytes f
  cases f with
  | header namePtr nameLen =>
    rw [TextFn.run, hostGetRequestHeader]
    simp only [TextFn.value] at hlen ⊢
    cases ht : task.http with
    | none => rfl
    | some t =>
      rw [ht, Option.bind_some] at hlen
      dsimp only
      rw [bind_of_run (readWasmString_eq env.nameAlloc), Option.bind_some]
      cases hname : stringAt valid h.bytes namePtr nameLen env.nameAlloc with
      | none => rfl
      | some name =>
        rw [hname] at hlen
        dsimp only
        rw [searchHeaders_eq]
        exact writeToWasmBuf_eq _ hlen
  | url => exact writeToWasmBuf_eq _ hlen
  | method => exact writeToWasmBuf_eq _ hlen
  | clientIp => exact writeToWasmBuf_eq _ hlen

theorem length_stringAt {mem : Bytes} {ptr len : Int32} {alloc : Bool} {s : Bytes}
    (hs : stringAt valid mem ptr len alloc = some s) : s.length ≤ mem.length := by
  unfold stringAt at hs
  split at hs
  · obtain rfl := Option.some.inj hs
    rw [List.length_take, List.length_drop]
    omega
  · contradiction

/-- The length of the line does not wrap around. -/
theorem setHeaderLine_eq (t : HttpTable) (name value : Bytes)
    (hlen : (cstr name).length + 2 + (cstr value).length + 1 < 2 ^ 32) :
    setHeaderLine env task ws t name value h = some (lineSet env task ws t name value, h) := by
  unfold setHeaderLine lineSet
  rw [Nat.mod_eq_of_lt hlen]
  split
  · rfl
  · rw [if_neg (Nat.lt_irrefl _)]
    rfl

/-- The call as HeaderLines has it. -/
theorem lineSet_eq {t : HttpTable} (ht : task.http = some t) (name value : Bytes)
    (s : VrtTables) (hs : s.httpReq = some t) (room : Room)
    (hcopied : room.copied 0 = (env.copied &&
      decide ((cstr name).length + 2 + (cstr value).length + 1 ≤ ws)))
    (hfits : room.fits 0 = env.fits) :
    (lineSet env task ws t name value).1.toInt =
        (HeaderLines.hostSetResponseHeader room name value s).1 ∧
      (lineSet env task ws t name value).2.http =
        (HeaderLines.hostSetResponseHeader room name value s).2.httpReq := by
  rw [HeaderLines.hostSetResponseHeader, hs, lineSet]
  dsimp only
  rw [hcopied, hfits]
  by_cases hroom : env.copied = false ∨ ws < (cstr name).length + 2 + (cstr value).length + 1
  · have hno : (env.copied && decide ((cstr name).length + 2 + (cstr value).length + 1 ≤ ws)) =
        false := by
      rcases hroom with hcopy | hsmall
      · rw [hcopy, Bool.false_and]
      · rw [decide_eq_false (Nat.not_le.mpr hsmall), Bool.and_false]
    rw [if_pos hroom, hno]
    exact ⟨rfl, ht.trans hs.symm⟩
  · rw [if_neg hroom]
    push Not at hroom
    rw [Bool.eq_true_of_not_eq_false hroom.1, decide_eq_true hroom.2]
    exact ⟨rfl, rfl⟩

theorem RawCall.run_eq (hshort : TextsShort task) (hmem : h.bytes.length ≤ 2 ^ 31 - 2)
    (c : RawCall) :
    c.run ws valid env task h =
      some ((c.effect ws valid env task h.bytes).1,
        ⟨(c.effect ws valid env task h.bytes).2, h.refused⟩) := by
  cases c with
  | text f bufPtr bufLen => exact bind_of_run (TextFn.run_eq hshort f bufPtr bufLen)
  | setResponseHeader namePtr nameLen valPtr valLen =>
    rw [RawCall.run, hostSetResponseHeader, RawCall.effect]
    cases ht : task.http with
    | none => rfl
    | some t =>
      dsimp only
      rw [bind_assoc, bind_of_run (readWasmString_eq env.nameAlloc)]
      cases hname : stringAt valid h.bytes namePtr nameLen env.nameAlloc with
      | none => rfl
      | some name =>
        dsimp only
        rw [bind_assoc, bind_of_run (readWasmString_eq env.valueAlloc)]
        cases hvalue : stringAt valid h.bytes valPtr valLen env.valueAlloc with
        | none => rfl
        | some value =>
          have hname' := (length_cstr_le name).trans (length_stringAt hname)
          have hvalue' := (length_cstr_le value).trans (length_stringAt hvalue)
          exact bind_of_run (setHeaderLine_eq t name value (by omega))
  | logMsg level msgPtr msgLen =>
    rw [RawCall.run, hostLogMsg, RawCall.effect]
    cases hlog : task.vsl with
    | none => rfl
    | some log =>
      dsimp only
      rw [bind_assoc, bind_of_run (readWasmString_eq env.nameAlloc)]
      cases hmsg : stringAt valid h.bytes msgPtr msgLen env.nameAlloc with
      | none => rfl
      | some msg => rfl

end Calls

end VmodWasm.RawAbi
