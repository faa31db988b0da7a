import VmodWasm.HttpPool
import VmodWasm.Lib.AddressBlocks

/-!
The filter for private addresses. The documentation names what it refuses: the
blocks of RFC 1918 and RFC 5735, loopback and link-local addresses, and for
IPv6 loopback, unspecified, unique local (RFC 4193) and link-local addresses.
The blocks are those of the RFCs; the tests of the source are brought to the
same form and compared with them.
-/
namespace VmodWasm.AddressFilter

open ByteStrings HttpPool Lib.AddressBlocks

/-- The block `a.b.c.d/len`. -/
def v4Block (a b c d len : ℕ) : Block 32 := ⟨a * 2 ^ 24 + b * 2 ^ 16 + c * 2 ^ 8 + d, len⟩

/-- The special-use blocks of RFC 5735, those of RFC 1918 among them. -/
def specialUse : List (Block 32) :=
  [v4Block 0 0 0 0 8, v4Block 10 0 0 0 8, v4Block 127 0 0 0 8, v4Block 169 254 0 0 16,
    v4Block 172 16 0 0 12, v4Block 192 0 0 0 24, v4Block 192 0 2 0 24, v4Block 192 88 99 0 24,
    v4Block 192 168 0 0 16, v4Block 198 18 0 0 15, v4Block 198 51 100 0 24,
    v4Block 203 0 113 0 24, v4Block 224 0 0 0 4, v4Block 240 0 0 0 4,
    v4Block 255 255 255 255 32]

/-- The blocks that the source tests for. -/
def testedBlocks : List (Block 32) :=
  [v4Block 127 0 0 0 8, v4Block 10 0 0 0 8, v4Block 172 16 0 0 12, v4Block 192 168 0 0 16,
    v4Block 169 254 0 0 16, v4Block 0 0 0 0 8, v4Block 100 64 0 0 10, v4Block 192 0 0 0 24,
    v4Block 198 18 0 0 15, v4Block 240 0 0 0 4]

/-- The special-use blocks without a test: the networks for documentation, the
relays of 6to4, and multicast. -/
def untestedBlocks : List (Block 32) :=
  [v4Block 192 0 2 0 24, v4Block 192 88 99 0 24, v4Block 198 51 100 0 24, v4Block 203 0 113 0 24,
    v4Block 224 0 0 0 4]

/-- A block by the first 16 bits of its base, which are the only ones set. -/
def v6Block (first len : ℕ) : Block 128 := ⟨first * 2 ^ 112, len⟩

/-- Loopback, unspecified, unique local, link-local. -/
def localBlocks : List (Block 128) := [⟨1, 128⟩, ⟨0, 128⟩, v6Block 0xfc00 7, v6Block 0xfe80 10]

def InBlocks {width : ℕ} (blocks : List (Block width)) (addr : ℕ) : Prop :=
  ∃ blk ∈ blocks, blk.Contains addr

theorem inBlocks_cons {width : ℕ} (blk : Block width) (blocks : List (Block width)) (addr : ℕ) :
    InBlocks (blk :: blocks) addr ↔ blk.Contains addr ∨ InBlocks blocks addr := by
  simp [InBlocks]

theorem not_inBlocks_nil {width : ℕ} (addr : ℕ) : ¬ InBlocks ([] : List (Block width)) addr := by
  simp [InBlocks]

def v6Value (b : Vector UInt8 16) : ℕ := netValue b.toList

/-- The address `::ffff:a.b.c.d` of an IPv4 address. -/
def Maps (b : Vector UInt8 16) (ip : UInt32) : Prop := v6Value b = 0xffff * 2 ^ 32 + ip.toNat

/-- An IPv4 address in one of the blocks, or its IPv4-mapped form. -/
def InV4Blocks (blocks : List (Block 32)) : IpAddr → Prop
  | .v4 ip => InBlocks blocks ip.toNat
  | .v6 b => ∃ ip, Maps b ip ∧ InBlocks blocks ip.toNat
  | .other _ => False

/-- The addresses that the documentation says are refused. -/
def Documented (ip : IpAddr) : Prop :=
  InV4Blocks specialUse ip ∨ ∃ b, ip = .v6 b ∧ InBlocks localBlocks (v6Value b)

section Version4

/-- The tests of the source, block by block. -/
theorem v4IsPrivate_iff (ip : UInt32) :
    v4IsPrivate ip = true ↔ InBlocks testedBlocks ip.toNat := by
  have hshift (k c : UInt32) (hk : k < 32) := shiftRight_eq_iff ip k c hk
  simp only [v4IsPrivate, Bool.or_eq_true, beq_iff_eq, or_assoc]
  rw [hshift 24 127 (by decide), hshift 24 10 (by decide), hshift 20 _ (by decide),
    hshift 16 ((192 : UInt32) <<< 8 ||| 168) (by decide),
    hshift 16 ((169 : UInt32) <<< 8 ||| 254) (by decide), hshift 24 0 (by decide),
    hshift 22 _ (by decide), hshift 8 _ (by decide), hshift 17 _ (by decide),
    hshift 28 _ (by decide)]
  simp only [testedBlocks, inBlocks_cons, not_inBlocks_nil, or_false, Block.Contains, v4Block]
  rfl

/-- A special-use address has a test exactly when it is in none of the blocks
without one. -/
theorem inTested_iff (addr : ℕ) (h : InBlocks specialUse addr) :
    InBlocks testedBlocks addr ↔ ¬ InBlocks untestedBlocks addr := by
  simp only [specialUse, testedBlocks, untestedBlocks, inBlocks_cons, not_inBlocks_nil, or_false,
    Block.Contains, v4Block] at h ⊢
  omega

theorem inSpecialUse_of_untested (addr : ℕ) (h : InBlocks untestedBlocks addr) :
    InBlocks specialUse addr := by
  have hsub : untestedBlocks ⊆ specialUse := by decide
  obtain ⟨blk, hblk, hin⟩ := h
  exact ⟨blk, hsub hblk, hin⟩

end Version4

section Version6

variable (b : Vector UInt8 16) (h₀ : 0 < 16) (h₁ : 1 < 16)

include h₀ h₁

theorem toList_cons : ∃ rest, b.toList = b[0] :: b[1] :: rest ∧ rest.length = 14 := by
  obtain ⟨⟨l⟩, hl⟩ := b
  have hlen : l.length = 16 := hl
  obtain ⟨x, l, rfl⟩ := List.exists_cons_of_length_eq_add_one hlen
  obtain ⟨y, l, rfl⟩ := List.exists_cons_of_length_eq_add_one (Nat.succ.inj hlen)
  exact ⟨l, rfl, by simpa using hlen⟩

/-- The first two bytes of an address are its first 16 bits. -/
theorem v6Value_first :
    ∃ rest < 2 ^ 112, v6Value b = b[0].toNat * 2 ^ 120 + b[1].toNat * 2 ^ 112 + rest := by
  obtain ⟨rest, hlist, hlen⟩ := toList_cons b h₀ h₁
  have hlt := netValue_lt rest
  rw [hlen] at hlt
  refine ⟨netValue rest, hlt, ?_⟩
  rw [v6Value, hlist, netValue_cons, netValue_cons, List.length_cons, hlen]
  omega

theorem uniqueLocal_iff : b[0] &&& 0xfe = 0xfc ↔ (v6Block 0xfc00 7).Contains (v6Value b) := by
  have hmask : ∀ n < 256, UInt8.ofNat n &&& 0xfe = 0xfc ↔ n / 2 = 126 := by decide +kernel
  have hbyte := hmask b[0].toNat b[0].toNat_lt
  rw [UInt8.ofNat_toNat] at hbyte
  obtain ⟨rest, hrest, hvalue⟩ := v6Value_first b h₀ h₁
  have hsecond := b[1].toNat_lt
  rw [hbyte, hvalue]
  simp only [Block.Contains, v6Block]
  omega

theorem linkLocal_iff :
    b[0] = 0xfe ∧ b[1] &&& 0xc0 = 0x80 ↔ (v6Block 0xfe80 10).Contains (v6Value b) := by
  have hmask : ∀ n < 256, UInt8.ofNat n &&& 0xc0 = 0x80 ↔ n / 64 = 2 := by decide +kernel
  have hbyte := hmask b[1].toNat b[1].toNat_lt
  rw [UInt8.ofNat_toNat] at hbyte
  have hfirst : b[0] = 0xfe ↔ b[0].toNat = 254 := by
    rw [← UInt8.toNat_inj]
    rfl
  obtain ⟨rest, hrest, hvalue⟩ := v6Value_first b h₀ h₁
  have hsecond := b[1].toNat_lt
  rw [hbyte, hfirst, hvalue]
  simp only [Block.Contains, v6Block]
  omega

omit h₀ h₁

theorem v6Value_inj (l : Bytes) (hl : l.length = 16) : b.toList = l ↔ v6Value b = netValue l := by
  constructor
  · intro h
    rw [v6Value, h]
  · intro h
    exact netValue_injective _ _ (by rw [hl, Vector.length_toList]) h

/-- The last four bytes are the mapped address. -/
theorem mappedIp_toNat : (mappedIp b).toNat = netValue (b.toList.drop 12) := by
  obtain ⟨⟨l⟩, hl⟩ := b
  have hlen : l.length = 16 := hl
  have hdrop : l.drop 12 = [l[12], l[13], l[14], l[15]] := by
    rw [List.drop_eq_getElem_cons (by omega), List.drop_eq_getElem_cons (by omega),
      List.drop_eq_getElem_cons (by omega), List.drop_eq_getElem_cons (by omega),
      List.drop_eq_nil_of_le (by omega)]
  change (mappedIp ⟨⟨l⟩, hl⟩).toNat = netValue (l.drop 12)
  rw [hdrop]
  exact toNat_word l[12] l[13] l[14] l[15]

/-- The test for `::ffff:0:0/96`, and the address it takes out. -/
theorem maps_iff (ip : UInt32) :
    Maps b ip ↔ b.toList.take 12 = List.replicate 10 0 ++ [0xff, 0xff] ∧ mappedIp b = ip := by
  have hsplit : v6Value b = netValue (b.toList.take 12) * 2 ^ 32 + (mappedIp b).toNat := by
    have happend := netValue_append (b.toList.take 12) (b.toList.drop 12)
    rw [List.take_append_drop, List.length_drop, Vector.length_toList, ← mappedIp_toNat] at happend
    exact happend
  have hlen : (b.toList.take 12).length = (List.replicate 10 (0 : UInt8) ++ [0xff, 0xff]).length := by
    rw [List.length_take, Vector.length_toList]
    rfl
  have hvalue : netValue (List.replicate 10 0 ++ [0xff, 0xff]) = 0xffff := by decide
  have hlt := (mappedIp b).toNat_lt
  have hlt' := ip.toNat_lt
  rw [Maps, hsplit]
  constructor
  · intro h
    refine ⟨netValue_injective _ _ hlen ?_, UInt32.toNat_inj.mp ?_⟩
    · rw [hvalue]
      omega
    · omega
  · rintro ⟨htake, rfl⟩
    rw [htake, hvalue]

theorem v6IsPrivate_iff :
    v6IsPrivate b = true ↔
      InBlocks localBlocks (v6Value b) ∨ ∃ ip, Maps b ip ∧ InBlocks testedBlocks ip.toNat := by
  have hone : netValue (List.replicate 15 0 ++ [1]) = 1 := by decide
  have hzero : netValue (List.replicate 16 0) = 0 := by decide
  simp only [v6IsPrivate, Bool.or_eq_true, Bool.and_eq_true, beq_iff_eq, or_assoc]
  rw [v6Value_inj b _ rfl, v6Value_inj b _ rfl, hone, hzero,
    uniqueLocal_iff b (by omega) (by omega), linkLocal_iff b (by omega) (by omega), v4IsPrivate_iff]
  simp only [localBlocks, inBlocks_cons, not_inBlocks_nil, or_false, or_assoc, maps_iff, and_assoc,
    exists_and_left, exists_eq_left']
  simp only [Block.Contains, Nat.sub_self, Nat.pow_zero, Nat.div_one]

/-- No local address is the mapped form of an IPv4 address. -/
theorem not_maps_of_local (ip : UInt32) (h : InBlocks localBlocks (v6Value b)) : ¬ Maps b ip := by
  have hlt := ip.toNat_lt
  simp only [localBlocks, inBlocks_cons, not_inBlocks_nil, or_false, Block.Contains, v6Block,
    Maps] at h ⊢
  omega

end Version6

/-- An address that the documentation says is refused is refused exactly when it
is not in one of the blocks without a test, nor the mapped form of one. -/
theorem documented_filtered_iff (addr : SockAddr) :
    (Documented addr.ip → vwasmHttpAddrIsPrivate addr = true) ↔
      ¬ InV4Blocks untestedBlocks addr.ip := by
  obtain ⟨ip, port⟩ := addr
  cases ip with
  | v4 ip =>
    have hprivate : vwasmHttpAddrIsPrivate ⟨.v4 ip, port⟩ = v4IsPrivate ip := rfl
    simp only [Documented, InV4Blocks, reduceCtorEq, false_and, exists_false, or_false, hprivate,
      v4IsPrivate_iff]
    constructor
    · intro h huntested
      have hspecial := inSpecialUse_of_untested _ huntested
      exact (inTested_iff _ hspecial).mp (h hspecial) huntested
    · intro huntested hspecial
      exact (inTested_iff _ hspecial).mpr huntested
  | v6 b =>
    have hprivate : vwasmHttpAddrIsPrivate ⟨.v6 b, port⟩ = v6IsPrivate b := rfl
    rw [hprivate, v6IsPrivate_iff]
    constructor
    · rintro h ⟨ip, hmaps, huntested⟩
      have hspecial := inSpecialUse_of_untested _ huntested
      rcases h (Or.inl ⟨ip, hmaps, hspecial⟩) with hlocal | ⟨ip', hmaps', htested⟩
      · exact not_maps_of_local b ip hlocal hmaps
      · obtain rfl : ip = ip' :=
          ((maps_iff b ip).mp hmaps).2.symm.trans ((maps_iff b ip').mp hmaps').2
        exact (inTested_iff _ hspecial).mp htested huntested
    · rintro huntested (⟨ip, hmaps, hspecial⟩ | ⟨b', hb', hlocal⟩)
      · exact Or.inr ⟨ip, hmaps, (inTested_iff _ hspecial).mpr fun h => huntested ⟨ip, hmaps, h⟩⟩
      · obtain rfl : b = b' := by injection hb'
        exact Or.inl hlocal
  | other family =>
    simp [Documented, InV4Blocks]

/-- The address 224.0.0.1. -/
def multicast : SockAddr := ⟨.v4 0xe0000001, 80⟩

/-- The mapped form of 203.0.113.1, in a network for documentation. -/
def mappedTestNet : SockAddr :=
  ⟨.v6 #v[0, 0, 0, 0, 0, 0, 0, 0, 0, 0, 0xff, 0xff, 203, 0, 113, 1], 80⟩

theorem specialUse_passes :
    (Documented multicast.ip ∧ vwasmHttpAddrIsPrivate multicast = false) ∧
    Documented mappedTestNet.ip ∧ vwasmHttpAddrIsPrivate mappedTestNet = false := by
  refine ⟨⟨Or.inl ?_, by decide⟩, Or.inl ?_, by decide⟩
  · exact ⟨v4Block 224 0 0 0 4, by decide, by decide⟩
  · exact ⟨0xcb007101, by unfold Maps; decide +kernel, v4Block 203 0 113 0 24, by decide, by decide⟩

end VmodWasm.AddressFilter
