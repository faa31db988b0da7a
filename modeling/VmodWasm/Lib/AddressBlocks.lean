import Mathlib.Data.Nat.Digits.Lemmas
import Mathlib.Tactic.Ring

/-!
Address blocks in the notation base/length. An address is the number that its
bytes stand for in network order, most significant first; a block is the set
of the addresses that agree with its base in their first bits. Tests on single
bytes, on shifted words and on whole byte strings are brought to this form.
-/
namespace VmodWasm.Lib.AddressBlocks

/-- The number that bytes in network order stand for. -/
def netValue (l : List UInt8) : ℕ := Nat.ofDigits 256 (l.map UInt8.toNat).reverse

theorem netValue_append (l l' : List UInt8) :
    netValue (l ++ l') = netValue l * 256 ^ l'.length + netValue l' := by
  simp only [netValue, List.map_append, List.reverse_append, Nat.ofDigits_append,
    List.length_reverse, List.length_map]
  ring

theorem netValue_cons (b : UInt8) (l : List UInt8) :
    netValue (b :: l) = b.toNat * 256 ^ l.length + netValue l := by
  have happend := netValue_append [b] l
  simpa [netValue] using happend

theorem netDigit_lt (l : List UInt8) (x : ℕ) (hx : x ∈ (l.map UInt8.toNat).reverse) : x < 256 := by
  obtain ⟨b, -, rfl⟩ := List.mem_map.mp (List.mem_reverse.mp hx)
  exact b.toNat_lt

theorem netValue_lt (l : List UInt8) : netValue l < 256 ^ l.length := by
  have hlt := Nat.ofDigits_lt_base_pow_length (by omega) (netDigit_lt l)
  simpa [netValue] using hlt

/-- Addresses of one length are told apart by their numbers. -/
theorem netValue_injective (l l' : List UInt8) (hlen : l.length = l'.length)
    (h : netValue l = netValue l') : l = l' := by
  have hrev := Nat.ofDigits_inj_of_len_eq (by omega) (by simpa using hlen) (netDigit_lt l)
    (netDigit_lt l') h
  exact List.map_injective_iff.mpr (fun _ _ => UInt8.toNat_inj.mp) (List.reverse_injective hrev)

/-- The block `base/len` of addresses of `width` bits. -/
structure Block (width : ℕ) where
  base : ℕ
  len : ℕ
  deriving DecidableEq

/-- The first `len` bits of the address are those of the base. -/
def Block.Contains {width : ℕ} (blk : Block width) (addr : ℕ) : Prop :=
  addr / 2 ^ (width - blk.len) = blk.base / 2 ^ (width - blk.len)

instance {width : ℕ} (blk : Block width) (addr : ℕ) : Decidable (blk.Contains addr) :=
  inferInstanceAs (Decidable (_ = _))

/-- A word shifted to the right is the first bits of its number. -/
theorem shiftRight_eq_iff (ip k c : UInt32) (hk : k < 32) :
    ip >>> k = c ↔ ip.toNat / 2 ^ k.toNat = c.toNat := by
  have hlt : k.toNat < 32 := UInt32.lt_iff_toNat_lt.mp hk
  rw [← UInt32.toNat_inj, UInt32.toNat_shiftRight, Nat.mod_eq_of_lt hlt,
    Nat.shiftRight_eq_div_pow]

/-- Four bytes put together to a word. -/
theorem toNat_word (x y z u : UInt8) :
    (x.toUInt32 <<< 24 ||| y.toUInt32 <<< 16 ||| z.toUInt32 <<< 8 ||| u.toUInt32).toNat =
      netValue [x, y, z, u] := by
  have hbyte (c k : ℕ) (hc : c < 256) (hk : k ≤ 24) : c <<< k % 2 ^ 32 = 2 ^ k * c := by
    have hpow : 2 ^ k ≤ 2 ^ 24 := Nat.pow_le_pow_right (by omega) hk
    have hmul : 2 ^ k * c ≤ 2 ^ 24 * 255 := Nat.mul_le_mul hpow (by omega)
    rw [Nat.shiftLeft_eq, Nat.mul_comm, Nat.mod_eq_of_lt (by omega)]
  have hx := x.toNat_lt
  have hy := y.toNat_lt
  have hz := z.toNat_lt
  have hu := u.toNat_lt
  rw [UInt32.or_assoc, UInt32.or_assoc]
  simp only [UInt32.toNat_or, UInt32.toNat_shiftLeft, UInt8.toNat_toUInt32]
  change x.toNat <<< 24 % 2 ^ 32 |||
    (y.toNat <<< 16 % 2 ^ 32 ||| (z.toNat <<< 8 % 2 ^ 32 ||| u.toNat)) = _
  rw [hbyte _ 24 hx (by omega), hbyte _ 16 hy (by omega), hbyte _ 8 hz (by omega),
    ← Nat.two_pow_add_eq_or_of_lt hu z.toNat, ← Nat.two_pow_add_eq_or_of_lt (by omega) y.toNat,
    ← Nat.two_pow_add_eq_or_of_lt (by omega) x.toNat]
  simp only [netValue_cons, List.length_cons, List.length_nil]
  simp only [netValue, List.map_nil, List.reverse_nil, Nat.ofDigits_nil]
  omega
end VmodWasm.Lib.AddressBlocks
