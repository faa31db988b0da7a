import VmodWasm.HeaderLines

/-!
What the calls on a header map hand over to Varnish. A line is printed into a
buffer of 4352 bytes, from a name of at most 255 and a value of at most 4095. A
name to look for goes into a buffer of 260 bytes, its length with the colon in
one byte in front.
-/
namespace VmodWasm.HeaderHandOver

open ByteStrings ByteSearch ProxyContext HeaderTables HeaderMapPairs HeaderRewrites HeaderLookup
  CalloutHeaders HeaderLines

/-- A line for `http_SetHeader`, or the name that `http_GetHdr` or `http_Unset`
looks for. -/
inductive Handed where
  | setHeader (line : CStr)
  | getHdr (search : Bytes)
  | unset (search : Bytes)
  deriving DecidableEq

/-- `hdr_search`, if `snprintf` finds room in it. -/
def hdrSearch (key : Bytes) : Option Bytes :=
  let i := (cstr key).length + 1
  if i < 259 then some (UInt8.ofNat i :: (cstr key ++ [colon])) else none

/-- The functions with a name, or with names, of headers among their arguments. -/
inductive HeaderOp where
  | get | add | replace | remove | setPairs
  deriving DecidableEq

/-- What is handed over for a key and a value that have been read, in the order
of the calls; `copied` tells if the workspace takes the line. -/
def handed (copied : Bool) (op : HeaderOp) (key value : Bytes) : List Handed :=
  let line := if copied then [.setHeader (headerLine (cutPair (key, value)))] else []
  let search := (hdrSearch key).toList
  match op with
  | .get => search.map .getHdr
  | .add => line
  | .replace => search.map .unset ++ line
  | .remove => search.map .unset
  | .setPairs => if Used key.length value.length then line else []

def pwProxyRemoveHeaderMapValue (room : Room) (map : HeaderMap) (key : Bytes) (s : VrtTables) :
    ProxyStatus × VrtTables :=
  if 256 ≤ key.length then (.badArgument, s)
  else if (pwGetHeaderMapMutable s map).isNone then (.badArgument, s)
  else if 259 ≤ (cstr key).length + 1 then (.badArgument, s)
  else (.ok, modify s map (httpUnset room.kept (cstr key)))

/-- The lines are exact, and the byte in front of a name tells its length with
the colon. -/
def Exact (key value : Bytes) : Handed → Prop
  | .setHeader line => line.1 = key ++ ascii ": " ++ value
  | .getHdr search | .unset search => search.head?.map UInt8.toNat = some (key.length + 1)

/-- A key and a value without NUL that the size checks admit. -/
structure Admitted (key value : Bytes) : Prop where
  key_nul : 0 ∉ key
  value_nul : 0 ∉ value
  key_pos : 1 ≤ key.length
  key_le : key.length ≤ 255
  value_le : value.length ≤ 4095

/-- The name has a byte to spare where its length is told, and the longest name
does not meet the longest value in a line. -/
def HandsExactly (copied : Bool) (op : HeaderOp) (key value : Bytes) : Prop :=
  match op with
  | .get | .replace | .remove => key.length ≠ 255
  | .add | .setPairs => copied = true → ¬ (key.length = 255 ∧ value.length = 4095)

section Tables

/-- The name in a search, without its length and colon. -/
def searchName (search : Bytes) : Bytes := search.tail.dropLast

/-- What Varnish does to a table with what it is handed. -/
def takeHanded (fits : Bool) (kept : CStr → Bool) (t : HttpTable) : Handed → HttpTable
  | .setHeader line => httpSetHeader fits line t
  | .unset search => httpUnset kept (searchName search) t
  | .getHdr _ => t

theorem hdrSearch_of_short {key : Bytes} (h : key.length < 256) :
    hdrSearch key = some (UInt8.ofNat ((cstr key).length + 1) :: (cstr key ++ [colon])) := by
  have hle := length_cstr_le key
  apply if_pos
  omega

theorem searchName_cons (b : UInt8) (name : Bytes) :
    searchName (b :: (name ++ [colon])) = name := by
  simp [searchName]

theorem modify_modify (s : VrtTables) (map : HeaderMap) (f g : HttpTable → HttpTable) :
    modify (modify s map f) map g = modify s map fun t => g (f t) := by
  obtain ⟨req, resp, beresp⟩ := s
  cases map with
  | request => cases req <;> rfl
  | response => cases resp <;> cases beresp <;> rfl

theorem modify_self (s : VrtTables) (map : HeaderMap) : modify s map (fun t => t) = s := by
  obtain ⟨req, resp, beresp⟩ := s
  cases map with
  | request => cases req <;> rfl
  | response => cases resp <;> cases beresp <;> rfl

theorem modify_of_isNone {s : VrtTables} {map : HeaderMap} (f : HttpTable → HttpTable)
    (h : (pwGetHeaderMapMutable s map).isNone = true) : modify s map f = s := by
  obtain ⟨req, resp, beresp⟩ := s
  cases map with
  | request => cases req <;> simp_all [HeaderLines.modify, pwGetHeaderMapMutable]
  | response =>
    cases resp <;> cases beresp <;> simp_all [HeaderLines.modify, pwGetHeaderMapMutable]

end Tables

section Calls

variable (room : Room) (s : VrtTables) (map : HeaderMap) {key value : Bytes}

/-- The tables after the hand-over of one key and value. -/
def afterHanded (op : HeaderOp) (key value : Bytes) : VrtTables :=
  modify s map fun t =>
    (handed (room.copied 0) op key value).foldl (takeHanded (room.fits 0) room.kept) t

theorem add_handed (hkey : key.length < 256) (hvalue : value.length < 4096) :
    (pwProxyAddHeaderMapValue room map key value s).2 = afterHanded room s map .add key value := by
  have hsize : ¬ (256 ≤ key.length ∨ 4096 ≤ value.length) := by omega
  rw [pwProxyAddHeaderMapValue, if_neg hsize, afterHanded]
  split
  next hnone => exact (modify_of_isNone _ hnone).symm
  next =>
    cases room.copied 0 with
    | false => exact (modify_self s map).symm
    | true => rfl

theorem replace_handed (hkey : key.length < 256) (hvalue : value.length < 4096) :
    (pwProxyReplaceHeaderMapValue room map key value s).2 =
      afterHanded room s map .replace key value := by
  have hsize : ¬ (256 ≤ key.length ∨ 4096 ≤ value.length) := by omega
  rw [pwProxyReplaceHeaderMapValue, if_neg hsize, afterHanded]
  split
  next hnone => exact (modify_of_isNone _ hnone).symm
  next =>
    simp only [handed, hdrSearch_of_short hkey]
    cases room.copied 0 with
    | false => simp [takeHanded, searchName_cons]
    | true => simp [takeHanded, searchName_cons, modify_modify]

theorem remove_handed (hkey : key.length < 256) (value : Bytes) :
    (pwProxyRemoveHeaderMapValue room map key s).2 =
      afterHanded room s map .remove key value := by
  have hle := length_cstr_le key
  have hsize : ¬ 256 ≤ key.length := by omega
  have hroom : ¬ 259 ≤ (cstr key).length + 1 := by omega
  rw [pwProxyRemoveHeaderMapValue, if_neg hsize, if_neg hroom, afterHanded]
  split
  next hnone => exact (modify_of_isNone _ hnone).symm
  next => simp [handed, hdrSearch_of_short hkey, takeHanded, searchName_cons]

/-- One turn of the loop over the pairs. -/
theorem putPairs_handed (i : ℕ) (ps : Pairs) (t : HttpTable) :
    putPairs room i ((key, value) :: ps) t =
      if Used key.length value.length ∧ room.copied i = false then (.internal, t)
      else putPairs room (i + 1) ps
        ((handed (room.copied i) .setPairs key value).foldl
          (takeHanded (room.fits i) room.kept) t) := by
  rw [putPairs]
  by_cases hused : Used key.length value.length
  · cases room.copied i <;> simp [hused, handed, takeHanded]
  · simp [hused, handed]

/-- The lookup is made with what `get` hands over. -/
theorem get_handed (ctx : MapCtx) (mapType : MapType) (t : HttpTable) (hkey : key.length < 256)
    (value : Bytes) (ht : pwGetHeaderMap ctx mapType = some t) :
    ∃ search, handed (room.copied 0) .get key value = [.getHdr search] ∧
      pwProxyGetHeaderMapValue ctx mapType key =
        found (if search.head?.map UInt8.toNat = some ((searchName search).length + 1) then
          httpGetHdr t (searchName search) else ctx.misread) := by
  have hsize : ¬ 256 ≤ key.length := by omega
  refine ⟨_, by rw [handed, hdrSearch_of_short hkey]; rfl, ?_⟩
  cases mapType with
  | httpRequestHeaders | httpResponseHeaders =>
    simp [pwProxyGetHeaderMapValue, hsize, ht, searchName_cons, LengthTold]
  | _ => simp [pwGetHeaderMap] at ht

end Calls

section Limits

variable {key value : Bytes}

theorem headerLine_admitted (h : Admitted key value) :
    (headerLine (cutPair (key, value))).1 =
      key ++ ascii ": " ++ value.take (4349 - key.length) := by
  have hcut : cutPair (key, value) = (key, value) :=
    Prod.ext (cstr_eq_self h.key_nul) (cstr_eq_self h.value_nul)
  rw [hcut]
  exact headerLine_eq (key, value) h.key_nul h.value_nul (Nat.lt_succ_of_le h.key_le)

theorem hdrSearch_admitted (h : Admitted key value) :
    hdrSearch key = some (UInt8.ofNat (key.length + 1) :: (key ++ [colon])) := by
  have hsearch := hdrSearch_of_short (Nat.lt_succ_of_le h.key_le)
  rwa [cstr_eq_self h.key_nul] at hsearch

theorem exact_line_iff (h : Admitted key value) :
    Exact key value (.setHeader (headerLine (cutPair (key, value)))) ↔
      ¬ (key.length = 255 ∧ value.length = 4095) := by
  have hkey := h.key_le
  have hvalue := h.value_le
  rw [Exact, headerLine_admitted h, List.append_cancel_left_eq, List.take_eq_self_iff]
  omega

theorem exact_search_iff (h : Admitted key value) (search : Bytes) :
    ((UInt8.ofNat (key.length + 1) :: search).head?.map UInt8.toNat = some (key.length + 1)) ↔
      key.length ≠ 255 := by
  have hkey := h.key_le
  rw [← lengthTold_iff (by omega), LengthTold, List.head?_cons, Option.map_some, Option.some.injEq]

end Limits

/-- What is handed over is exact, except at the limits of the two buffers. -/
theorem handsExactly_iff (copied : Bool) (op : HeaderOp) (key value : Bytes)
    (h : Admitted key value) :
    (∀ e ∈ handed copied op key value, Exact key value e) ↔
      HandsExactly copied op key value := by
  have hkey := h.key_le
  have hvalue := h.value_le
  have hused : Used key.length value.length := ⟨h.key_pos, by omega, by omega⟩
  have hsearch := hdrSearch_admitted h
  have hline : (∀ e ∈ (if copied then [Handed.setHeader (headerLine (cutPair (key, value)))]
      else []), Exact key value e) ↔
        (copied = true → ¬ (key.length = 255 ∧ value.length = 4095)) := by
    cases copied with
    | false => simp
    | true => simpa using exact_line_iff h
  have hname := exact_search_iff h (key ++ [colon])
  cases op with
  | get =>
    simp only [handed, hsearch, Option.toList_some, List.map_cons, List.map_nil,
      List.forall_mem_singleton]
    exact hname
  | add => exact hline
  | replace =>
    simp only [handed, hsearch, Option.toList_some, List.map_cons, List.map_nil,
      List.forall_mem_append, List.forall_mem_singleton]
    rw [hline]
    constructor
    · intro hboth
      exact hname.mp hboth.1
    · intro hshort
      refine ⟨hname.mpr hshort, ?_⟩
      intro _ hlimits
      exact hshort hlimits.1
  | remove =>
    simp only [handed, hsearch, Option.toList_some, List.map_cons, List.map_nil,
      List.forall_mem_singleton]
    exact hname
  | setPairs =>
    simp only [handed, if_pos hused]
    exact hline

theorem plainHeader_handsExactly :
    Admitted (ascii "A") (ascii "b") ∧
      ∀ e ∈ handed true .replace (ascii "A") (ascii "b"), Exact (ascii "A") (ascii "b") e := by
  have hadmitted : Admitted (ascii "A") (ascii "b") :=
    ⟨by decide +kernel, by decide +kernel, by decide +kernel, by decide +kernel, by decide +kernel⟩
  exact ⟨hadmitted, (handsExactly_iff true .replace _ _ hadmitted).mpr
    (show (ascii "A").length ≠ 255 by decide +kernel)⟩

/-- A name and a value of the longest sizes that are admitted. -/
def longestKey : Bytes := List.replicate 255 0x61

def longestValue : Bytes := List.replicate 4095 0x62

/-- Together, the longest name and value lose the last byte of the line, and the
length in front of the name is 0. -/
theorem longest_inexact :
    Admitted longestKey longestValue ∧
      (∃ line, handed true .add longestKey longestValue = [.setHeader line] ∧
        line.1 = longestKey ++ ascii ": " ++ longestValue.take 4094) ∧
      ∃ name, handed true .get longestKey longestValue = [.getHdr (0 :: name)] := by
  have hkey : longestKey.length = 255 := List.length_replicate
  have hvalue : longestValue.length = 4095 := List.length_replicate
  have hadmitted : Admitted longestKey longestValue :=
    ⟨fun h => absurd (List.eq_of_mem_replicate h) (by decide),
      fun h => absurd (List.eq_of_mem_replicate h) (by decide), by omega, by omega, by omega⟩
  refine ⟨hadmitted, ⟨_, rfl, ?_⟩, longestKey ++ [colon], ?_⟩
  · rw [headerLine_admitted hadmitted, hkey]
  · rw [handed, hdrSearch_admitted hadmitted, hkey]
    rfl

end VmodWasm.HeaderHandOver
