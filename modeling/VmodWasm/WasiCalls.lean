import VmodWasm.CheckedHelpers

/-!
The functions of wasi_snapshot_preview1 in host_functions.c that take pointers
from the guest. Each spells its own bounds test: `wasi_random_get` adds in 64
bits, the others in 32, so that a pointer close to 2^32 wraps to a small sum.
-/
namespace VmodWasm.WasiCalls

open ByteStrings Lib.CheckedMemory CheckedHelpers

inductive WasiErrno where
  | success | badf | inval | io
  deriving DecidableEq, Repr

def WasiErrno.code : WasiErrno → ℤ
  | .success => 0
  | .badf => 8
  | .inval => 28
  | .io => 29

inductive ClockId where
  | realtime | monotonic
  deriving DecidableEq, Repr

def ClockId.ofCode : ℤ → Option ClockId
  | 0 => some .realtime
  | 1 => some .monotonic
  | _ => none

/-- The iovec loop of `wasi_fd_write`: `n` iovecs left, number `i` next. It
returns the total, unless an iovec sticks out, and what went to stderr. -/
def writeIovecs (msz iovsPtr : ℕ) : ℕ → ℕ → ℕ → Bytes → Checked (Option ℕ × Bytes)
  | 0, _, total, out => return (some total, out)
  | n + 1, i, total, out => do
    let iovBase := u32 (iovsPtr + i * 8)
    let bufOffset ← loadU32 iovBase
    let bufLen ← loadU32 (iovBase + 4)
    if bufLen = 0 then writeIovecs msz iovsPtr n (i + 1) total out
    else if msz < bufOffset + bufLen then
      refuse
      return (none, out)
    else
      let buf ← load bufOffset bufLen
      writeIovecs msz iovsPtr n (i + 1) (u32 (total + bufLen)) (out ++ buf)

/-- `wasi_fd_write`, with what it writes to stderr. -/
def wasiFdWrite (side : GuestSide) (fd : ℤ) (iovsPtr iovsLen nwrittenPtr : UInt32) :
    Checked (WasiErrno × Bytes) := do
  if side.valid = false then
    refuse
    return (.badf, [])
  else if fd ≠ 1 ∧ fd ≠ 2 then return (.badf, [])
  else
    let msz ← size
    -- both sides of this test are `uint32_t`
    if u32 msz < u32 (nwrittenPtr.toNat + 4) then
      refuse
      return (.inval, [])
    else if msz < iovsPtr.toNat + iovsLen.toNat * 8 then
      refuse
      return (.inval, [])
    else
      match ← writeIovecs msz iovsPtr.toNat iovsLen.toNat 0 0 [] with
      | (none, out) => return (.inval, out)
      | (some total, out) =>
        store nwrittenPtr.toNat (u32Bytes total)
        return (.success, out)

/-- `wasi_clock_time_get`; the clock gives seconds and nanoseconds, or fails. -/
def wasiClockTimeGet (side : GuestSide) (clockGettime : ClockId → Option (ℕ × ℕ)) (clockId : ℤ)
    (timePtr : UInt32) : Checked WasiErrno := do
  if side.valid = false then
    refuse
    return .inval
  else
    match ClockId.ofCode clockId with
    | none => return .inval
    | some cid =>
      let msz ← size
      if u32 msz < u32 (timePtr.toNat + 8) then
        refuse
        return .inval
      else
        match clockGettime cid with
        | none => return .inval
        | some (sec, nsec) =>
          store timePtr.toNat (u64Bytes (sec * 1000000000 + nsec))
          return .success

/-- The `getrandom` loop: `left` bytes to go from `addr` on. An answer holds at
least one byte, so `left` turns are enough. -/
def fillRandom (getrandom : ℕ → Option (UInt8 × Bytes)) : ℕ → ℕ → ℕ → ℕ → Checked WasiErrno
  | 0, _, _, _ => return .success
  | fuel + 1, turn, addr, left => do
    if left = 0 then return .success
    else
      match getrandom turn with
      | none => return .io
      | some (b, bs) =>
        let got := (b :: bs).take left
        store addr got
        fillRandom getrandom fuel (turn + 1) (addr + got.length) (left - got.length)

/-- `wasi_random_get`; `none` is a failing `getrandom`. -/
def wasiRandomGet (side : GuestSide) (getrandom : ℕ → Option (UInt8 × Bytes))
    (bufPtr bufLen : UInt32) : Checked WasiErrno := do
  if side.valid = false then
    refuse
    return .inval
  else
    let msz ← size
    if msz < bufPtr.toNat + bufLen.toNat then
      refuse
      return .inval
    else fillRandom getrandom bufLen.toNat 0 bufPtr.toNat bufLen.toNat

/-- One of the two guarded stores of a `sizes_get` function. -/
def storeZero (msz : ℕ) (p : UInt32) : Checked Unit :=
  if u32 (p.toNat + 4) ≤ msz then store p.toNat (u32Bytes 0) else refuse

/-- The common body of the two `sizes_get` functions: a pointer that fails its
test is passed over, and the answer is always success. -/
def sizesGet (side : GuestSide) (p0 p1 : UInt32) : Checked WasiErrno := do
  if side.valid = false then
    refuse
    return .success
  else
    let msz ← size
    storeZero msz p0
    storeZero msz p1
    return .success

def wasiEnvironSizesGet (side : GuestSide) (p0 p1 : UInt32) : Checked WasiErrno :=
  sizesGet side p0 p1

def wasiArgsSizesGet (side : GuestSide) (p0 p1 : UInt32) : Checked WasiErrno :=
  sizesGet side p0 p1

/-- The iovec number `i` of an array, its buffer's offset and length. -/
def iovecAt (mem : Bytes) (iovsPtr i : ℕ) : ℕ × ℕ :=
  (readU32 mem (iovsPtr + i * 8), readU32 mem (iovsPtr + i * 8 + 4))

def IovecInside (mem : Bytes) (iovsPtr i : ℕ) : Prop :=
  InRange mem.length (iovecAt mem iovsPtr i).1 (iovecAt mem iovsPtr i).2

def IovecsInside (mem : Bytes) (iovsPtr iovsLen : ℕ) : Prop :=
  ∀ i < iovsLen, IovecInside mem iovsPtr i

/-- A `uint32_t` sum that passes the test against the memory size, though the
range it stands for ends behind the memory. -/
def WrapsPast (mem : Bytes) (ptr len : ℕ) : Prop :=
  2 ^ 32 ≤ ptr + len ∧ u32 (ptr + len) ≤ u32 mem.length ∧ mem.length < ptr + len

/-- The count of bytes written is stored behind the memory. -/
def FdWriteOverruns (side : GuestSide) (fd : ℤ) (iovsPtr iovsLen nwrittenPtr : UInt32)
    (mem : Bytes) : Prop :=
  side.valid = true ∧ (fd = 1 ∨ fd = 2) ∧ WrapsPast mem nwrittenPtr.toNat 4 ∧
    iovsPtr.toNat + iovsLen.toNat * 8 ≤ mem.length ∧
    IovecsInside mem iovsPtr.toNat iovsLen.toNat

/-- The time is stored behind the memory. -/
def ClockOverruns (side : GuestSide) (clockGettime : ClockId → Option (ℕ × ℕ)) (clockId : ℤ)
    (timePtr : UInt32) (mem : Bytes) : Prop :=
  side.valid = true ∧ (ClockId.ofCode clockId).bind clockGettime ≠ none ∧
    WrapsPast mem timePtr.toNat 8

/-- One turn of the loop over an array inside the memory. -/
theorem writeIovecs_step (h : Heap) (iovsPtr n i total off len : ℕ) (out : Bytes)
    (Q : Option ℕ × Bytes → Heap → Prop) (hm : h.bytes.length ≤ 2 ^ 32)
    (harray : iovsPtr + (i + 1) * 8 ≤ h.bytes.length)
    (hiov : iovecAt h.bytes iovsPtr i = (off, len)) :
    Sat (writeIovecs h.bytes.length iovsPtr (n + 1) i total out) Q h ↔
      if len = 0 then Sat (writeIovecs h.bytes.length iovsPtr n (i + 1) total out) Q h
      else if h.bytes.length < off + len then Q (none, out) { h with refused := true }
      else Sat (writeIovecs h.bytes.length iovsPtr n (i + 1) (u32 (total + len))
        (out ++ (h.bytes.drop off).take len)) Q h := by
  obtain ⟨rfl, rfl⟩ := Prod.mk.inj hiov
  have hbase : u32 (iovsPtr + i * 8) = iovsPtr + i * 8 := u32_of_lt (by omega)
  have hoffset : iovsPtr + i * 8 + 4 ≤ h.bytes.length := by omega
  have hlength : iovsPtr + i * 8 + 4 + 4 ≤ h.bytes.length := by omega
  rw [writeIovecs]
  simp only [sat_bind, sat_loadU32, hbase, hoffset, hlength, true_and]
  by_cases hlen : readU32 h.bytes (iovsPtr + i * 8 + 4) = 0
  · simp [hlen]
  · by_cases hfits : h.bytes.length <
        readU32 h.bytes (iovsPtr + i * 8) + readU32 h.bytes (iovsPtr + i * 8 + 4)
    · simp [hlen, hfits]
    · simp [hlen, hfits, InRange, Nat.not_lt.mp hfits]

/-- With every iovec inside, the loop reads them all. -/
theorem writeIovecs_inside (h : Heap) (iovsPtr n i total : ℕ) (out : Bytes)
    (hm : h.bytes.length ≤ 2 ^ 32) (harray : iovsPtr + (i + n) * 8 ≤ h.bytes.length)
    (hin : ∀ j, i ≤ j → j < i + n → IovecInside h.bytes iovsPtr j) :
    ∃ total' out', ∀ Q, Sat (writeIovecs h.bytes.length iovsPtr n i total out) Q h ↔
      Q (some total', out') h := by
  induction n generalizing i total out with
  | zero => exact ⟨total, out, fun Q => sat_pure _ Q h⟩
  | succ n ih =>
    have hnext : ∀ j, i + 1 ≤ j → j < i + 1 + n → IovecInside h.bytes iovsPtr j :=
      fun j hj hjn => hin j (by omega) (by omega)
    have hthis : IovecInside h.bytes iovsPtr i := hin i (by omega) (by omega)
    rcases hiov : iovecAt h.bytes iovsPtr i with ⟨off, len⟩
    rw [IovecInside, hiov] at hthis
    have hstep (Q) := writeIovecs_step h iovsPtr n i total off len out Q hm (by omega) hiov
    by_cases hempty : len = 0
    · obtain ⟨total', out', hrest⟩ := ih (i + 1) total out (by omega) hnext
      refine ⟨total', out', fun Q => ?_⟩
      rw [hstep Q, if_pos hempty, hrest Q]
    · have hfits : off + len ≤ h.bytes.length := hthis.resolve_left hempty
      obtain ⟨total', out', hrest⟩ := ih (i + 1) (u32 (total + len))
        (out ++ (h.bytes.drop off).take len) (by omega) hnext
      refine ⟨total', out', fun Q => ?_⟩
      rw [hstep Q, if_neg hempty, if_neg (Nat.not_lt.mpr hfits), hrest Q]

/-- An iovec that sticks out ends the loop. -/
theorem writeIovecs_outside (h : Heap) (iovsPtr n i total : ℕ) (out : Bytes)
    (hm : h.bytes.length ≤ 2 ^ 32) (harray : iovsPtr + (i + n) * 8 ≤ h.bytes.length)
    (hout : ∃ j, i ≤ j ∧ j < i + n ∧ ¬ IovecInside h.bytes iovsPtr j) :
    ∃ out', ∀ Q, Sat (writeIovecs h.bytes.length iovsPtr n i total out) Q h ↔
      Q (none, out') { h with refused := true } := by
  induction n generalizing i total out with
  | zero =>
    obtain ⟨j, hij, hji, -⟩ := hout
    omega
  | succ n ih =>
    rcases hiov : iovecAt h.bytes iovsPtr i with ⟨off, len⟩
    have hstep (Q) := writeIovecs_step h iovsPtr n i total off len out Q hm (by omega) hiov
    by_cases hthis : IovecInside h.bytes iovsPtr i
    · have hlater : ∃ j, i + 1 ≤ j ∧ j < i + 1 + n ∧ ¬ IovecInside h.bytes iovsPtr j := by
        obtain ⟨j, hij, hjn, hj⟩ := hout
        have hne : j ≠ i := fun heq => hj (heq ▸ hthis)
        exact ⟨j, by omega, by omega, hj⟩
      rw [IovecInside, hiov] at hthis
      by_cases hempty : len = 0
      · obtain ⟨out', hrest⟩ := ih (i + 1) total out (by omega) hlater
        refine ⟨out', fun Q => ?_⟩
        rw [hstep Q, if_pos hempty, hrest Q]
      · have hfits : off + len ≤ h.bytes.length := hthis.resolve_left hempty
        obtain ⟨out', hrest⟩ := ih (i + 1) (u32 (total + len))
          (out ++ (h.bytes.drop off).take len) (by omega) hlater
        refine ⟨out', fun Q => ?_⟩
        rw [hstep Q, if_neg hempty, if_neg (Nat.not_lt.mpr hfits), hrest Q]
    · rw [IovecInside, hiov, InRange, not_or, Nat.not_le] at hthis
      refine ⟨out, fun Q => ?_⟩
      rw [hstep Q, if_neg hthis.1, if_pos hthis.2]

/-- Of the ranges that pass the 32-bit test, those that wrap past the end are
the ones outside. -/
theorem inRange_iff_not_wraps (mem : Bytes) (ptr len : ℕ) (hm : mem.length ≤ 2 ^ 32)
    (hlen : 0 < len) (hpass : ¬ u32 mem.length < u32 (ptr + len)) :
    InRange mem.length ptr len ↔ ¬ WrapsPast mem ptr len := by
  simp only [InRange, WrapsPast, u32] at *
  omega

theorem wasiFdWrite_bounded_iff (side : GuestSide) (fd : ℤ) (iovsPtr iovsLen nwrittenPtr : UInt32)
    (mem : Bytes) (hm : mem.length ≤ 2 ^ 32) :
    Bounded (wasiFdWrite side fd iovsPtr iovsLen nwrittenPtr) (·.1 ≠ .success) mem ↔
      ¬ FdWriteOverruns side fd iovsPtr iovsLen nwrittenPtr mem := by
  unfold Bounded wasiFdWrite FdWriteOverruns
  by_cases hvalid : side.valid = false
  · simp [hvalid]
  · by_cases hfd : fd ≠ 1 ∧ fd ≠ 2
    · simp [hvalid, hfd]
    · simp only [if_neg hvalid, if_neg hfd, sat_bind, sat_size]
      by_cases htest : u32 mem.length < u32 (nwrittenPtr.toNat + 4)
      · simp [htest, WrapsPast, Nat.not_le.mpr htest]
      · by_cases harray : mem.length < iovsPtr.toNat + iovsLen.toNat * 8
        · simp [htest, harray, Nat.not_le.mpr harray]
        · have hsize : iovsPtr.toNat + (0 + iovsLen.toNat) * 8 ≤ mem.length := by omega
          simp only [if_neg htest, if_neg harray, sat_bind]
          by_cases hin : IovecsInside mem iovsPtr.toNat iovsLen.toNat
          · obtain ⟨total, out, hloop⟩ := writeIovecs_inside ⟨mem, false⟩ iovsPtr.toNat
              iovsLen.toNat 0 0 [] hm hsize (fun j _ hj => hin j (by omega))
            have hrange := inRange_iff_not_wraps mem nwrittenPtr.toNat 4 hm (by omega) htest
            have hfd' : fd = 1 ∨ fd = 2 := by omega
            rw [hloop]
            simp [hvalid, hfd', Nat.not_lt.mp harray, hrange, hin]
          · have hout : ∃ j, 0 ≤ j ∧ j < 0 + iovsLen.toNat ∧ ¬ IovecInside mem iovsPtr.toNat j := by
              obtain ⟨j, hj⟩ := not_forall.mp hin
              obtain ⟨hlt, hj⟩ := Classical.not_imp.mp hj
              exact ⟨j, by omega, by omega, hj⟩
            obtain ⟨out, hloop⟩ := writeIovecs_outside ⟨mem, false⟩ iovsPtr.toNat
              iovsLen.toNat 0 0 [] hm hsize hout
            rw [hloop]
            simp [hin]

theorem wasiClockTimeGet_bounded_iff (side : GuestSide)
    (clockGettime : ClockId → Option (ℕ × ℕ)) (clockId : ℤ) (timePtr : UInt32) (mem : Bytes)
    (hm : mem.length ≤ 2 ^ 32) :
    Bounded (wasiClockTimeGet side clockGettime clockId timePtr) (· ≠ .success) mem ↔
      ¬ ClockOverruns side clockGettime clockId timePtr mem := by
  unfold Bounded wasiClockTimeGet ClockOverruns
  by_cases hvalid : side.valid = false
  · simp [hvalid]
  · simp only [if_neg hvalid]
    rcases hid : ClockId.ofCode clockId with _ | cid
    · simp
    · simp only [sat_bind, sat_size]
      by_cases htest : u32 mem.length < u32 (timePtr.toNat + 8)
      · simp [htest, WrapsPast, Nat.not_le.mpr htest]
      · have hrange := inRange_iff_not_wraps mem timePtr.toNat 8 hm (by omega) htest
        rcases hclock : clockGettime cid with _ | ⟨sec, nsec⟩
        · simp [htest, hclock]
        · simp [htest, hclock, hvalid, hrange]

theorem fillRandom_sat (getrandom : ℕ → Option (UInt8 × Bytes)) (fuel turn addr left : ℕ) (h : Heap)
    (hin : addr + left ≤ h.bytes.length) :
    Sat (fillRandom getrandom fuel turn addr left) (fun _ h' => h'.refused = h.refused) h := by
  induction fuel generalizing turn addr left h with
  | zero => exact (sat_pure _ _ h).mpr rfl
  | succ fuel ih =>
    rw [fillRandom]
    by_cases hleft : left = 0
    · simp [hleft]
    · rcases hanswer : getrandom turn with _ | ⟨b, bs⟩
      · simp [hleft]
      · have hgot : ((b :: bs).take left).length ≤ left := List.length_take_le _ _
        have hrange : addr + ((b :: bs).take left).length ≤ h.bytes.length := by omega
        simp only [if_neg hleft, sat_bind, sat_store]
        refine ⟨Or.inr hrange, ih _ _ _ _ ?_⟩
        rw [length_splice _ _ _ hrange]
        omega

/-- The 64-bit sum lets nothing past the end. -/
theorem wasiRandomGet_bounded (side : GuestSide) (getrandom : ℕ → Option (UInt8 × Bytes))
    (bufPtr bufLen : UInt32) (mem : Bytes) :
    Bounded (wasiRandomGet side getrandom bufPtr bufLen) (· ≠ .success) mem := by
  unfold Bounded wasiRandomGet
  by_cases hvalid : side.valid = false
  · simp [hvalid]
  · simp only [if_neg hvalid, sat_bind, sat_size]
    by_cases htest : mem.length < bufPtr.toNat + bufLen.toNat
    · simp [htest]
    · simp only [if_neg htest]
      refine (fillRandom_sat getrandom _ 0 bufPtr.toNat bufLen.toNat ⟨mem, false⟩
        (Nat.not_lt.mp htest)).mono ?_
      intro errno h hmark hmarked
      rw [hmark] at hmarked
      contradiction

theorem sat_storeZero (p : UInt32) (msz : ℕ) (Q : Unit → Heap → Prop) (h : Heap)
    (hmsz : h.bytes.length = msz) (hm : msz ≤ 2 ^ 32) (hin : p.toNat + 4 ≤ msz) :
    Sat (storeZero msz p) Q h ↔ Q () { h with bytes := splice h.bytes p.toNat (u32Bytes 0) } := by
  have htest : u32 (p.toNat + 4) ≤ msz := by
    unfold u32
    omega
  simp [storeZero, htest, InRange, hmsz, hin]

/-- A pointer outside either fails the test or is stored to: the first is
marked, the second has no result. -/
theorem storeZero_outside (p : UInt32) (msz : ℕ) (Q : Unit → Heap → Prop) (h : Heap)
    (hmsz : h.bytes.length = msz) (hout : msz < p.toNat + 4) (hsat : Sat (storeZero msz p) Q h) :
    Q () { h with refused := true } := by
  unfold storeZero at hsat
  split at hsat
  · obtain ⟨hrange, -⟩ := (sat_store _ _ _ _).mp hsat
    simp only [InRange, length_u32Bytes, hmsz] at hrange
    omega
  · exact (sat_refuse _ _).mp hsat

/-- A mark is not taken back. -/
theorem storeZero_marked (p : UInt32) (msz : ℕ) (Q : Unit → Heap → Prop) (h : Heap)
    (hmark : h.refused = true) (hsat : Sat (storeZero msz p) Q h) :
    ∃ h', h'.refused = true ∧ Q () h' := by
  unfold storeZero at hsat
  split at hsat
  · obtain ⟨-, hQ⟩ := (sat_store _ _ _ _).mp hsat
    exact ⟨{ h with bytes := splice h.bytes p.toNat (u32Bytes 0) }, hmark, hQ⟩
  · exact ⟨_, rfl, (sat_refuse _ _).mp hsat⟩

theorem sizesGet_bounded_iff (side : GuestSide) (p0 p1 : UInt32) (mem : Bytes)
    (hm : mem.length ≤ 2 ^ 32) :
    Bounded (sizesGet side p0 p1) (· ≠ .success) mem ↔
      side.valid = true ∧ p0.toNat + 4 ≤ mem.length ∧ p1.toNat + 4 ≤ mem.length := by
  unfold Bounded sizesGet
  by_cases hvalid : side.valid = false
  · simp [hvalid]
  · simp only [if_neg hvalid, sat_bind, sat_size, sat_pure]
    by_cases hp0 : p0.toNat + 4 ≤ mem.length
    · rw [sat_storeZero p0 mem.length _ ⟨mem, false⟩ rfl hm hp0]
      have hlen : (splice mem p0.toNat (u32Bytes 0)).length = mem.length := length_splice _ _ _ hp0
      by_cases hp1 : p1.toNat + 4 ≤ mem.length
      · rw [sat_storeZero p1 mem.length _ _ hlen hm hp1]
        simp [hvalid, hp0, hp1]
      · have hno : ¬ Sat (storeZero mem.length p1) (fun _ h => h.refused = true →
            WasiErrno.success ≠ .success) ⟨splice mem p0.toNat (u32Bytes 0), false⟩ :=
          fun hsat => storeZero_outside p1 _ _ _ hlen (Nat.not_le.mp hp1) hsat rfl rfl
        simp only [hno, hp1, and_false]
    · refine iff_of_false (fun hsat => ?_) (fun hcond => hp0 hcond.2.1)
      have hsecond := storeZero_outside p0 mem.length _ ⟨mem, false⟩ rfl (Nat.not_le.mp hp0) hsat
      obtain ⟨h', hmark, herror⟩ := storeZero_marked p1 _ _ _ rfl hsecond
      exact herror hmark rfl

end VmodWasm.WasiCalls
