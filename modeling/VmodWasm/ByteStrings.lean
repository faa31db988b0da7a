import Mathlib.Algebra.Group.Nat.Defs
import Mathlib.Data.List.Basic
import Mathlib.Data.List.Infix
import Mathlib.Data.Nat.Digits.Defs

/-!
Byte strings as the C code handles them. A buffer is its list of bytes; a
C string is the part of a buffer before its first NUL. Unsigned 32-bit
counters are natural numbers reduced by `u32` wherever the source wraps.
-/
namespace VmodWasm.ByteStrings

abbrev Bytes := List UInt8

/-- The bytes of a C string. -/
abbrev CString := { s : Bytes // 0 ∉ s }

/-- Names with their values. -/
abbrev Fields := List (Bytes × Bytes)

/-- The bytes of a source string literal. -/
def ascii (s : String) : Bytes := s.toList.map (fun c => UInt8.ofNat c.toNat)

/-- Reduction of a counter to `uint32_t`. -/
def u32 (n : ℕ) : ℕ := n % 2 ^ 32

theorem u32_lt (n : ℕ) : u32 n < 2 ^ 32 := Nat.mod_lt _ (by omega)

theorem u32_of_lt {n : ℕ} (h : n < 2 ^ 32) : u32 n = n := Nat.mod_eq_of_lt h

/-- The digits printed by `%u`. -/
def decimal (n : ℕ) : Bytes := (Nat.toDigits 10 n).map (fun c => UInt8.ofNat c.toNat)

theorem length_decimal_port (port : ℕ) (h : port ≤ 65535) : (decimal port).length ≤ 5 := by
  rw [decimal, List.length_map]
  exact Nat.toDigits_length 10 port 5 (by omega) (by omega)

theorem decimal_injective : Function.Injective decimal := by
  have hchars (n : ℕ) : (decimal n).map (fun b => Char.ofNat b.toNat) = Nat.toDigits 10 n := by
    rw [decimal, List.map_map]
    conv_rhs => rw [← List.map_id (Nat.toDigits 10 n)]
    apply List.map_congr_left
    intro c hc
    have hdigit := Nat.isDigit_of_mem_toDigits (by omega) (by omega) hc
    have hlt : c.toNat < 256 := by
      simp only [Char.isDigit, Bool.and_eq_true, decide_eq_true_eq, UInt32.le_iff_toNat_le]
        at hdigit
      have hval : c.toNat = c.val.toNat := rfl
      have hnine : '9'.val.toNat = 57 := rfl
      omega
    simp [UInt8.toNat_ofNat', Nat.mod_eq_of_lt hlt]
  intro m n h
  have hdigits : Nat.toDigits 10 m = Nat.toDigits 10 n := by rw [← hchars, h, hchars]
  rw [← Nat.ofDigitChars_ten_toDigits (n := m), hdigits, Nat.ofDigitChars_ten_toDigits]

/-- The C string at the start of a NUL-terminated buffer. -/
def cstr (b : Bytes) : Bytes := b.takeWhile (· ≠ 0)

/-- `strlen(stored) == len && memcmp(stored, key, len) == 0`, for a buffer that
holds a terminated string. -/
def cstrMatches (stored key : Bytes) : Bool :=
  (cstr stored).length == key.length && stored.take key.length == key

def findSub (pat : Bytes) : Bytes → Option ℕ
  | [] => if pat = [] then some 0 else none
  | c :: cs => if pat.isPrefixOf (c :: cs) then some 0 else (findSub pat cs).map (· + 1)

/-- `strstr`: the offset of the first occurrence, not looking past a NUL. -/
def strstr (b pat : Bytes) : Option ℕ := findSub pat (cstr b)

/-- `memcpy` of four bytes into a `uint32_t` on the little-endian targets. -/
def readU32 (b : Bytes) (off : ℕ) : ℕ :=
  (b.getD off 0).toNat + (b.getD (off + 1) 0).toNat * 2 ^ 8 +
    (b.getD (off + 2) 0).toNat * 2 ^ 16 + (b.getD (off + 3) 0).toNat * 2 ^ 24

def u32Bytes (n : ℕ) : Bytes :=
  [UInt8.ofNat n, UInt8.ofNat (n / 2 ^ 8), UInt8.ofNat (n / 2 ^ 16), UInt8.ofNat (n / 2 ^ 24)]

def toLower (c : UInt8) : UInt8 := if 0x41 ≤ c ∧ c ≤ 0x5a then c + 0x20 else c

/-- `strncasecmp(a, b, n) == 0` for operands of that length. -/
def caseEq (a b : Bytes) : Bool := a.map toLower == b.map toLower

def isBlank (c : UInt8) : Bool := c == 0x20 || c == 0x09

def crlf : Bytes := [0x0d, 0x0a]

end VmodWasm.ByteStrings
