import VmodWasm.RawAbi

/-!
Executions of raw modules. The guest is any program over the raw functions, and so is its
start function, which runs before its memory is known. Found here are the memory limit up
to which no call is out of bounds, what an execution may do to the request, and that a
guest which follows the convention for buffers reads every text as it is.
-/
namespace VmodWasm.RawGuests

open ByteStrings ByteSearch HeaderTables HeaderLookup HeaderLines RawAbi
  Lib.CheckedMemory Lib.Interaction

section Safety

variable {ws limit : ℕ} {valid : Bool} {s : RawState}

/-- A task with one line more. -/
theorem textsShort_setHeader {task : RawTask} (hshort : TextsShort task) (fits : Bool)
    (t : HttpTable) (ht : task.http = some t) (line : CStr) (hline : line.1.length < 2 ^ 31) :
    TextsShort { task with http := some (httpSetHeader fits line t) } := by
  intro text htext
  rcases mem_texts.mp htext with ⟨t', ht', hin⟩ | hip
  · obtain rfl := Option.some.inj ht'
    by_cases hnew : fits = true ∧ text = line
    · rw [hnew.2]
      exact hline
    · refine hshort text (mem_texts.mpr (.inl ⟨t, ht, ?_⟩))
      unfold httpSetHeader at hin
      cases fits with
      | false => exact hin
      | true => simpa [show text ≠ line from fun heq => hnew ⟨rfl, heq⟩] using hin
  · exact hshort text (mem_texts.mpr (.inr hip))

theorem length_rawLine (name value : Bytes) :
    (rawLine name value).1.length ≤ (cstr name).length + 2 + (cstr value).length := by
  refine (length_cstr_le _).trans ?_
  rw [List.length_append, List.length_append]
  exact Nat.le_refl _

theorem effect_short (hws : ws < 2 ^ 31) (env : RawEnv) {task : RawTask}
    (hshort : TextsShort task) (mem : Bytes) (c : RawCall) :
    TextsShort (c.effect ws valid env task mem).1.2 := by
  cases c with
  | text f bufPtr bufLen => exact hshort
  | setResponseHeader namePtr nameLen valPtr valLen =>
    rw [RawCall.effect]
    split
    next t name value ht _ _ =>
      dsimp only
      unfold lineSet
      split
      · exact hshort
      next hroom =>
        have hline := length_rawLine name value
        exact textsShort_setHeader hshort env.fits t ht _ (by omega)
    · exact hshort
  | logMsg level msgPtr msgLen =>
    rw [RawCall.effect]
    split
    · exact hshort
    · exact hshort

/-- A call of a guest within the limit. -/
theorem handleRaw_eq (hlimit : limit ≤ 2 ^ 31 - 2) (env : ℕ → RawEnv)
    (hshort : TextsShort s.task) (r : RawRequest limit) :
    handleRaw ws env valid r s =
      (⟨(r.call.effect ws valid (env s.calls) s.task r.mem.1).2,
        (r.call.effect ws valid (env s.calls) s.task r.mem.1).1.1⟩,
        { s with
          task := (r.call.effect ws valid (env s.calls) s.task r.mem.1).1.2
          calls := s.calls + 1 }) := by
  have hrun : (r.call.run ws valid (env s.calls) s.task).run ⟨r.mem.1, false⟩ = some (_, ⟨_, _⟩) :=
    RawCall.run_eq hshort (r.mem.2.trans hlimit) r.call
  unfold handleRaw
  rw [hrun]

/-- The second task has the headers of the first and perhaps more behind them, and its
log goes on where the first one ends. -/
structure Extends (task task' : RawTask) : Prop where
  http : ∃ added : List CStr, task'.http =
    task.http.map fun t => { t with entries := t.entries ++ added.map some }
  clientIp : task'.clientIp = task.clientIp
  vsl : ∃ messages, task'.vsl = task.vsl.map (· ++ messages)

theorem Extends.refl (task : RawTask) : Extends task task where
  http := ⟨[], by simp⟩
  clientIp := rfl
  vsl := ⟨[], by simp⟩

theorem Extends.trans {a b c : RawTask} (hab : Extends a b) (hbc : Extends b c) :
    Extends a c where
  http := by
    obtain ⟨first, hb⟩ := hab.http
    obtain ⟨second, hc⟩ := hbc.http
    refine ⟨first ++ second, ?_⟩
    rw [hc, hb, Option.map_map, List.map_append]
    congr 1
    funext t
    rw [Function.comp_apply, List.append_assoc]
  clientIp := hbc.clientIp.trans hab.clientIp
  vsl := by
    obtain ⟨first, hb⟩ := hab.vsl
    obtain ⟨second, hc⟩ := hbc.vsl
    refine ⟨first ++ second, ?_⟩
    rw [hc, hb, Option.map_map]
    congr 1
    funext log
    rw [Function.comp_apply, List.append_assoc]

theorem effect_extends (env : RawEnv) (task : RawTask) (mem : Bytes) (c : RawCall) :
    Extends task (c.effect ws valid env task mem).1.2 := by
  cases c with
  | text f bufPtr bufLen => exact Extends.refl task
  | setResponseHeader namePtr nameLen valPtr valLen =>
    rw [RawCall.effect]
    split
    next t name value ht _ _ =>
      dsimp only
      unfold lineSet
      split
      · exact Extends.refl task
      · refine ⟨⟨if env.fits then [rawLine name value] else [], ?_⟩, rfl, ⟨[], by simp⟩⟩
        rw [ht, httpSetHeader]
        split <;> simp
    · exact Extends.refl task
  | logMsg level msgPtr msgLen =>
    rw [RawCall.effect]
    split
    next log msg hlog _ => exact ⟨⟨[], by simp⟩, rfl, ⟨_, by rw [hlog]; rfl⟩⟩
    · exact Extends.refl task

/-- What the calls of guests within the limit keep, from the task `task₀` on. -/
structure Kept (task₀ : RawTask) (s : RawState) : Prop where
  short : TextsShort s.task
  extends₀ : Extends task₀ s.task
  safe : s.faulted = false

theorem handleRaw_kept (hlimit : limit ≤ 2 ^ 31 - 2) (hws : ws < 2 ^ 31) (env : ℕ → RawEnv)
    (valid : Bool) {task₀ : RawTask} (r : RawRequest limit) (s : RawState) (hs : Kept task₀ s) :
    Kept task₀ (handleRaw ws env valid r s).2 := by
  rw [handleRaw_eq hlimit env hs.short]
  exact ⟨effect_short hws (env s.calls) hs.short r.mem.1 r.call,
    hs.extends₀.trans (effect_extends (env s.calls) s.task r.mem.1 r.call), hs.safe⟩

theorem vwasmEngineCall_kept {σ : Type} (hlimit : limit ≤ 2 ^ 31 - 2) (hws : ws < 2 ^ 31)
    (env : ℕ → RawEnv) (m : RawModule limit σ) (storeNew : Bool) (funcName : Bytes)
    {task : RawTask} (hs : Kept task s) :
    Kept task (vwasmEngineCall ws env m storeNew funcName s).2 := by
  have hinst : Kept task (instantiate ws env m s).2 := by
    unfold instantiate
    split
    · exact hs
    next p _ => exact interp_invariant _ _ (handleRaw_kept hlimit hws env false) p s hs
  unfold vwasmEngineCall
  split
  · exact hs
  · split
    next s' heq =>
      rw [heq] at hinst
      exact hinst
    next g s' heq =>
      rw [heq] at hinst
      split
      · exact hinst
      next f _ => exact interp_invariant _ _ (handleRaw_kept hlimit hws env m.memory) (f g) s' hinst

theorem kept_start {task : RawTask} (hshort : TextsShort task) : Kept task { task := task } :=
  ⟨hshort, Extends.refl task, rfl⟩

/-- One string as name and value of a header, so long that the length of the line wraps
around. -/
theorem setHeader_faults {mem : Bytes} (hnul : 0 ∉ mem) {len : Int32} (hlen : 0 ≤ len)
    (hfill : sizeT len = mem.length) (hover : 2 ^ 32 ≤ 2 * mem.length + 3)
    (hws : (2 * mem.length + 3) % 2 ^ 32 ≤ ws) (t : HttpTable) :
    (RawCall.setResponseHeader 0 len 0 len).run ws true {} { http := some t } ⟨mem, false⟩ =
      none := by
  have hstring : stringAt true mem 0 len true = some mem := by
    have hzero : sizeT 0 = 0 := by decide
    rw [stringAt, regionOk, hzero, hfill, decide_eq_true hlen, decide_eq_true (Int32.le_refl 0),
      decide_eq_true (by omega), List.drop_zero, List.take_length]
    rfl
  have hread : readWasmString true 0 len true ⟨mem, false⟩ = some (some mem, ⟨mem, false⟩) := by
    rw [readWasmString_eq, hstring]
  have htotal : (cstr mem).length + 2 + (cstr mem).length + 1 = 2 * mem.length + 3 := by
    rw [cstr_eq_self hnul]
    omega
  have hline : setHeaderLine {} { http := some t } ws t mem mem ⟨mem, false⟩ = none := by
    unfold setHeaderLine
    rw [htotal, if_neg (by simpa using hws), if_pos (by omega)]
  rw [RawCall.run, RawAbi.hostSetResponseHeader]
  dsimp only
  rw [bind_assoc, bind_of_run hread]
  dsimp only
  rw [bind_assoc, bind_of_run hread]
  change (setHeaderLine {} { http := some t } ws t mem mem ⟨mem, false⟩).bind _ = none
  rw [hline]
  rfl

end Safety

theorem length_filled {limit n : ℕ} (hn : n ≤ limit) :
    (List.replicate n (0x61 : UInt8)).length ≤ limit :=
  List.length_replicate.trans_le hn

/-- A guest that fills its memory with one letter and sets a header. -/
def fillingModule (limit n : ℕ) (hn : n ≤ limit) : RawModule limit Unit where
  initial := ()
  func _ := some fun _ =>
    .call ⟨⟨List.replicate n 0x61, length_filled hn⟩,
      .setResponseHeader 0 (Int32.ofNat n) 0 (Int32.ofNat n)⟩ fun _ => .done none

theorem fillingModule_faults (limit ws n : ℕ) (hpos : 1 ≤ ws) (hsize : n = 2 ^ 31 - 1)
    (hn : n ≤ limit) :
    (vwasmEngineCall ws (fun _ => {}) (fillingModule limit n hn) true []
      { task := { http := some {} } }).2.faulted = true := by
  have hnonneg : 0 ≤ Int32.ofNat n := by
    rw [hsize]
    decide
  have hmem : (List.replicate n (0x61 : UInt8)).length = n := List.length_replicate
  have hnul : (0 : UInt8) ∉ List.replicate n 0x61 := fun hzero =>
    absurd (List.eq_of_mem_replicate hzero) (by decide)
  have hfill : sizeT (Int32.ofNat n) = (List.replicate n (0x61 : UInt8)).length := by
    rw [sizeT_ofNat (by omega), hmem]
  have hfault := setHeader_faults hnul hnonneg hfill (by omega) (by omega : _ ≤ ws) {}
  change (handleRaw ws (fun _ => {}) true _ _).2.faulted = true
  unfold handleRaw
  rw [show (RawCall.run ws true {} _ _).run _ = none from hfault]

theorem four_le_default : 4 ≤ 16 * 1024 * 1024 := by decide

section Execution

theorem httpGetHdr_append (t : HttpTable) (added : List CStr) (name v : Bytes)
    (hv : httpGetHdr t name = some v) :
    httpGetHdr { t with entries := t.entries ++ added.map some } name = some v := by
  unfold httpGetHdr at hv ⊢
  rw [List.findSome?_append, hv]
  rfl

/-- A text that is there stays as it is. -/
theorem value_extends {valid : Bool} {env : RawEnv} {task task' : RawTask} {mem : Bytes}
    (h : Extends task task') (f : TextFn) (v : Bytes)
    (hv : f.value valid env task mem = some v) : f.value valid env task' mem = some v := by
  obtain ⟨added, hhttp⟩ := h.http
  cases f with
  | header namePtr nameLen =>
    obtain ⟨t, ht, hv⟩ := Option.bind_eq_some_iff.mp hv
    obtain ⟨name, hname, hv⟩ := Option.bind_eq_some_iff.mp hv
    rw [TextFn.value, hhttp, ht, hname]
    exact httpGetHdr_append t added (cstr name) v hv
  | url =>
    rw [← hv, TextFn.value, TextFn.value, hhttp]
    cases task.http <;> rfl
  | method =>
    rw [← hv, TextFn.value, TextFn.value, hhttp]
    cases task.http <;> rfl
  | clientIp => rw [← hv, TextFn.value, TextFn.value, h.clientIp]

/-- A request with one header. -/
def hostTask : RawTask :=
  { http := some {
      url := some (toCStr (ascii "/"))
      entries := [some (toCStr (ascii "Host: a"))] } }

theorem textsShort_hostTask : TextsShort hostTask := by decide +kernel

theorem length_hostb : (ascii "Hostb").length ≤ 65536 := by decide +kernel

/-- A guest that sets another `Host` header. -/
def hostModule : RawModule 65536 Unit where
  initial := ()
  func _ := some fun _ =>
    .call ⟨⟨ascii "Hostb", length_hostb⟩, .setResponseHeader 0 4 4 1⟩ fun r => .done r.code

end Execution

section Protocol

variable {mem str : Bytes} {bufPtr bufLen : Int32}

theorem regionOk_inside (hok : regionOk true mem bufPtr bufLen = true) :
    sizeT bufPtr + sizeT bufLen ≤ mem.length := by
  rw [regionOk, Bool.and_eq_true, decide_eq_true_eq] at hok
  exact hok.2

/-- Nothing is written outside the buffer. -/
theorem handedOver_apart (v : Option Bytes) (a n : ℕ)
    (hapart : Apart a n (sizeT bufPtr) (sizeT bufLen)) :
    ((handedOver true mem bufPtr bufLen v).drop a).take n = (mem.drop a).take n := by
  cases v with
  | none => rfl
  | some str =>
    rw [handedOver]
    split
    next hok =>
      have hin := regionOk_inside ((Bool.and_eq_true _ _).mp hok).2
      have hlen : (str.take (sizeT bufLen)).length ≤ sizeT bufLen := List.length_take_le ..
      refine region_splice_of_apart _ _ _ a n (by omega) ?_
      unfold Apart at hapart ⊢
      omega
    · rfl

/-- The buffer holds the text, or as much of it as there is room for. -/
theorem handedOver_region (str : Bytes) (hok : regionOk true mem bufPtr bufLen = true)
    (hpos : 0 < bufLen) :
    ((handedOver true mem bufPtr bufLen (some str)).drop (sizeT bufPtr)).take
      (min str.length (sizeT bufLen)) = str.take (sizeT bufLen) := by
  have hin := regionOk_inside hok
  have hlen : (str.take (sizeT bufLen)).length = min str.length (sizeT bufLen) := by
    rw [List.length_take, Nat.min_comm]
  rw [handedOver, hok, decide_eq_true hpos, Bool.and_self, if_pos rfl, ← hlen]
  exact region_splice mem _ _ (by omega)

/-- A guest that asks for the length, with an empty buffer, and then for the text. -/
def askThenRead {limit : ℕ} (mem : { mem : Bytes // mem.length ≤ limit }) (f : TextFn)
    (bufPtr : Int32) : RawProg limit (Option Bytes) :=
  .call ⟨mem, .text f 0 0⟩ fun r =>
    match r.code with
    | none => .done none
    | some n =>
      if n < 0 then .done none
      else
        .call ⟨mem, .text f bufPtr n⟩ fun r =>
          .done (some ((r.mem.drop (sizeT bufPtr)).take (sizeT n)))

theorem toInt_textCode (hstr : str.length < 2 ^ 31) :
    (textCode (some str)).toInt = str.length := Int32.toInt_ofNat_of_lt hstr

/-- The buffer of the length that was told. -/
theorem handedOver_told (hstr : str.length < 2 ^ 31)
    (hok : regionOk true mem bufPtr (Int32.ofNat str.length) = true) :
    ((handedOver true mem bufPtr (Int32.ofNat str.length) (some str)).drop (sizeT bufPtr)).take
      str.length = str := by
  have hlen : sizeT (Int32.ofNat str.length) = str.length := sizeT_ofNat hstr
  by_cases hpos : 0 < Int32.ofNat str.length
  · have hregion := handedOver_region str hok hpos
    rw [hlen, Nat.min_self, List.take_length] at hregion
    exact hregion
  · rw [Int32.lt_iff_toInt_lt, Int32.toInt_ofNat_of_lt hstr] at hpos
    have hnil : str = [] := List.length_eq_zero_iff.mp (by
      have hzero : (0 : Int32).toInt = 0 := rfl
      omega)
    rw [hnil]
    rfl

variable {limit : ℕ} (ws : ℕ) {s : RawState}

/-- A text function leaves everything as it is but the buffer. -/
theorem handleRaw_text (hlimit : limit ≤ 2 ^ 31 - 2) (env : ℕ → RawEnv)
    (hshort : TextsShort s.task) (mem : { mem : Bytes // mem.length ≤ limit }) (f : TextFn)
    (bufPtr bufLen : Int32) :
    handleRaw ws env true ⟨mem, .text f bufPtr bufLen⟩ s =
      (⟨handedOver true mem.1 bufPtr bufLen (f.value true (env s.calls) s.task mem.1),
        some (textCode (f.value true (env s.calls) s.task mem.1))⟩,
        { s with calls := s.calls + 1 }) := by
  rw [handleRaw_eq hlimit env hshort]
  rfl

theorem askThenRead_eq (hlimit : limit ≤ 2 ^ 31 - 2) (env : ℕ → RawEnv)
    (hshort : TextsShort s.task) (mem : { mem : Bytes // mem.length ≤ limit }) (f : TextFn)
    (bufPtr : Int32) {v : Option Bytes}
    (hfirst : f.value true (env s.calls) s.task mem.1 = v)
    (hsecond : f.value true (env (s.calls + 1)) s.task mem.1 = v)
    (hroom : ∀ str, v = some str →
      regionOk true mem.1 bufPtr (Int32.ofNat str.length) = true) :
    (interp (handleRaw ws env true) (askThenRead mem f bufPtr) s).1 = v := by
  rw [askThenRead, interp_call, handleRaw_text ws hlimit env hshort, hfirst]
  cases v with
  | none =>
    have hneg : textCode none < 0 := by decide
    dsimp only
    rw [if_pos hneg]
    rfl
  | some str =>
    have hlen := TextFn.value_short hshort mem.1 f str hfirst
    have hnonneg : ¬ textCode (some str) < 0 := by
      rw [Int32.lt_iff_toInt_lt, toInt_textCode hlen]
      exact Int.not_lt.mpr (Int.natCast_nonneg _)
    dsimp only
    rw [if_neg hnonneg, interp_call,
      handleRaw_text ws (s := { s with calls := s.calls + 1 }) hlimit env hshort, interp_done]
    dsimp only
    rw [hsecond, textCode, sizeT_ofNat hlen, handedOver_told hlen (hroom str rfl)]

/-- The raw function and the Proxy-Wasm function look a header up alike. -/
theorem header_value_eq {task : RawTask} {mem name : Bytes} {namePtr nameLen : Int32}
    {t : HttpTable} (ht : task.http = some t)
    (hname : stringAt true mem namePtr nameLen true = some name) (hlen : name.length < 255) :
    (TextFn.header namePtr nameLen).value true {} task mem =
      (pwProxyGetHeaderMapValue { vrtCtx := some { httpReq := some t } } .httpRequestHeaders
        name).toOption := by
  have htold : LengthTold (cstr name) := by
    have hle := length_cstr_le name
    exact (lengthTold_iff (by omega)).mpr (by omega)
  rw [TextFn.value, ht, Option.bind_some, hname, Option.bind_some, pwProxyGetHeaderMapValue,
    if_neg (by omega), pwGetHeaderMap]
  simp only [Option.bind_some, if_pos htold]
  cases httpGetHdr t (cstr name) <;> rfl

theorem length_hostMem : (ascii "Host----").length ≤ 65536 := by decide +kernel

/-- The guest asks for the `Host` header with its name at the start of its memory. -/
def hostMem : { mem : Bytes // mem.length ≤ 65536 } := ⟨ascii "Host----", length_hostMem⟩

end Protocol

end VmodWasm.RawGuests
