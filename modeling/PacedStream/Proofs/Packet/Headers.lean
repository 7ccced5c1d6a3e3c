import Mathlib.Data.Nat.Bitwise
import PacedStream.Packet.Header
import PacedStream.Proofs.Packet.Readings

/-!
Headers in bytes. Every field has places of its own in its byte, so that a byte is the sum of its
fields. Main statement: bytes give a header that is written as the first four of them exactly if
there are four and the first is in sync, and a written header is read as it was, with its fields cut
to their widths.
-/

namespace PacedStream.Packet
set_option autoImplicit false

open ClockReference (or_eq_add)

variable {a b c d byte mask : UInt8} {k : Nat}

theorem or_or_or_eq_add {x y z w i j : Nat} (hx : 2 ^ i ∣ x) (hy : y < 2 ^ i)
    (hxy : 2 ^ j ∣ x + y) (hz : z < 2 ^ j) (hxyz : 2 ^ k ∣ x + y + z) (hw : w < 2 ^ k) :
    x ||| y ||| z ||| w = x + y + z + w := by
  rw [or_eq_add hx hy, or_eq_add hxy hz, or_eq_add hxyz hw]

theorem toNat_byte_low (hmask : mask.toNat = 2 ^ k - 1) :
    (byte &&& mask).toNat = byte.toNat % 2 ^ k := by
  rw [UInt8.toNat_and, hmask, Nat.and_two_pow_sub_one_eq_mod]

theorem toNat_word_low {word mask : UInt16} (hmask : mask.toNat = 2 ^ k - 1) :
    (word &&& mask).toNat = word.toNat % 2 ^ k := by
  rw [UInt16.toNat_and, hmask, Nat.and_two_pow_sub_one_eq_mod]

theorem up_eq_iff {up : Bool} (hmask : mask.toNat = 2 ^ k) :
    decide (byte &&& mask ≠ 0) = up ↔ byte.toNat / 2 ^ k % 2 = up.toNat := by
  have hbit : (byte &&& mask).toNat = byte.toNat / 2 ^ k % 2 * 2 ^ k := by
    rw [UInt8.toNat_and, hmask, Nat.and_two_pow, Nat.toNat_testBit]
  have hzero : byte &&& mask = 0 ↔ byte.toNat / 2 ^ k % 2 = 0 := by
    rw [← UInt8.toNat_inj, hbit, UInt8.toNat_zero, Nat.mul_eq_zero,
      or_iff_left (Nat.two_pow_pos k).ne']
  cases up with
  | false => simp [hzero]
  | true =>
    rw [decide_eq_true_iff, ne_eq, hzero]
    exact Nat.mod_two_ne_zero

theorem toNat_joinPid (high low : UInt8) :
    (joinPid high low).toNat = high.toNat % 32 * 256 + low.toNat := by
  have hlow : low.toNat < 2 ^ 8 := low.toNat_lt
  have hhigh : ((high &&& 0x1f).toUInt16 <<< 8).toNat = high.toNat % 32 * 2 ^ 8 := by
    rw [UInt16.toNat_shiftLeft, UInt8.toNat_toUInt16, toNat_byte_low (k := 5) rfl]
    change (high.toNat % 32) <<< 8 % 2 ^ 16 = _
    rw [Nat.shiftLeft_eq]
    omega
  unfold joinPid
  rw [UInt16.toNat_or, hhigh, UInt8.toNat_toUInt16]
  exact or_eq_add (k := 8) (Nat.dvd_mul_left _ _) hlow

namespace Header

variable {h : Header} {bytes rest : List UInt8}

theorem toNat_flag (mask : UInt8) (up : Bool) : (flag mask up).toNat = up.toNat * mask.toNat := by
  cases up <;> simp [flag]

theorem toNat_high (h : Header) :
    (flag 0x80 h.transportError ||| flag 0x40 h.unitStart ||| flag 0x20 h.priority |||
      ((h.pid >>> 8) &&& 0x1f).toUInt8).toNat =
    h.transportError.toNat * 128 + h.unitStart.toNat * 64 + h.priority.toNat * 32 +
      h.pid.toNat / 256 % 32 := by
  have hpid : ((h.pid >>> 8) &&& 0x1f).toUInt8.toNat = h.pid.toNat / 256 % 32 := by
    rw [UInt16.toNat_toUInt8, toNat_word_low (k := 5) rfl, UInt16.toNat_shiftRight]
    change (h.pid.toNat >>> 8 % 2 ^ 5) % 2 ^ 8 = _
    rw [Nat.shiftRight_eq_div_pow]
    omega
  have hstart := Bool.toNat_le h.unitStart
  have hpriority := Bool.toNat_le h.priority
  rw [UInt8.toNat_or, UInt8.toNat_or, UInt8.toNat_or, toNat_flag, toNat_flag, toNat_flag, hpid]
  change h.transportError.toNat * 128 ||| h.unitStart.toNat * 64 ||| h.priority.toNat * 32 |||
    h.pid.toNat / 256 % 32 = _
  exact or_or_or_eq_add (i := 7) (j := 6) (k := 5) (by omega) (by omega) (by omega) (by omega)
    (by omega) (by omega)

theorem toNat_low (h : Header) : (h.pid &&& 0xff).toUInt8.toNat = h.pid.toNat % 256 := by
  rw [UInt16.toNat_toUInt8, toNat_word_low (k := 8) rfl]
  exact Nat.mod_mod _ _

theorem toNat_control (h : Header) :
    ((h.scrambling <<< 6) ||| flag 0x20 h.adaptation ||| flag 0x10 h.payload |||
      (h.counter &&& 0x0f)).toNat =
    h.scrambling.toNat % 4 * 64 + h.adaptation.toNat * 32 + h.payload.toNat * 16 +
      h.counter.toNat % 16 := by
  have hscrambling : (h.scrambling <<< 6).toNat = h.scrambling.toNat % 4 * 64 := by
    rw [UInt8.toNat_shiftLeft]
    change h.scrambling.toNat <<< 6 % 2 ^ 8 = _
    rw [Nat.shiftLeft_eq]
    omega
  have hadaptation := Bool.toNat_le h.adaptation
  have hpayload := Bool.toNat_le h.payload
  rw [UInt8.toNat_or, UInt8.toNat_or, UInt8.toNat_or, toNat_flag, toNat_flag, hscrambling,
    toNat_byte_low (k := 4) rfl]
  change h.scrambling.toNat % 4 * 64 ||| h.adaptation.toNat * 32 ||| h.payload.toNat * 16 |||
    h.counter.toNat % 16 = _
  exact or_or_or_eq_add (i := 6) (j := 5) (k := 4) (by omega) (by omega) (by omega) (by omega)
    (by omega) (by omega)

theorem encode_eq_iff : h.encode = [a, b, c, d] ↔
    h.sync = a ∧
    h.transportError.toNat * 128 + h.unitStart.toNat * 64 + h.priority.toNat * 32 +
      h.pid.toNat / 256 % 32 = b.toNat ∧
    h.pid.toNat % 256 = c.toNat ∧
    h.scrambling.toNat % 4 * 64 + h.adaptation.toNat * 32 + h.payload.toNat * 16 +
      h.counter.toNat % 16 = d.toNat := by
  unfold encode
  simp only [List.cons.injEq, and_true]
  rw [← UInt8.toNat_inj (b := b), ← UInt8.toNat_inj (b := c), ← UInt8.toNat_inj (b := d),
    toNat_high, toNat_low, toNat_control]

structure Narrow (h : Header) : Prop where
  pid_lt : h.pid.toNat < 2 ^ 13
  scrambling_lt : h.scrambling.toNat < 2 ^ 2
  counter_lt : h.counter.toNat < 2 ^ 4

def cut (h : Header) : Header :=
  { h with
    pid := h.pid &&& 0x1fff
    scrambling := h.scrambling &&& 0x03
    counter := h.counter &&& 0x0f }

theorem toNat_cut_pid (h : Header) : h.cut.pid.toNat = h.pid.toNat % 2 ^ 13 :=
  toNat_word_low rfl

theorem toNat_cut_scrambling (h : Header) : h.cut.scrambling.toNat = h.scrambling.toNat % 2 ^ 2 :=
  toNat_byte_low rfl

theorem toNat_cut_counter (h : Header) : h.cut.counter.toNat = h.counter.toNat % 2 ^ 4 :=
  toNat_byte_low rfl

theorem narrow_cut (h : Header) : h.cut.Narrow where
  pid_lt := h.toNat_cut_pid ▸ Nat.mod_lt _ (Nat.two_pow_pos _)
  scrambling_lt := h.toNat_cut_scrambling ▸ Nat.mod_lt _ (Nat.two_pow_pos _)
  counter_lt := h.toNat_cut_counter ▸ Nat.mod_lt _ (Nat.two_pow_pos _)

theorem encode_cut (h : Header) : h.cut.encode = h.encode := by
  have hpid : h.cut.pid.toNat / 256 % 32 = h.pid.toNat / 256 % 32 := by
    rw [toNat_cut_pid]
    omega
  have hlow : h.cut.pid.toNat % 256 = h.pid.toNat % 256 := by
    rw [toNat_cut_pid]
    omega
  have hscrambling : h.cut.scrambling.toNat % 4 = h.scrambling.toNat % 4 := by
    rw [toNat_cut_scrambling]
    exact Nat.mod_mod _ _
  have hcounter : h.cut.counter.toNat % 16 = h.counter.toNat % 16 := by
    rw [toNat_cut_counter]
    exact Nat.mod_mod _ _
  refine encode_eq_iff.mpr ⟨rfl, ?_, ?_, ?_⟩
  · rw [hpid]
    exact h.toNat_high.symm
  · rw [hlow]
    exact h.toNat_low.symm
  · rw [hscrambling, hcounter]
    exact h.toNat_control.symm

theorem decode_eq_ok_iff_fields : decode (syncByte :: b :: c :: d :: rest) = .ok h ↔
    syncByte = h.sync ∧
    b.toNat / 128 % 2 = h.transportError.toNat ∧ b.toNat / 64 % 2 = h.unitStart.toNat ∧
    b.toNat / 32 % 2 = h.priority.toNat ∧ b.toNat % 32 * 256 + c.toNat = h.pid.toNat ∧
    d.toNat / 64 = h.scrambling.toNat ∧ d.toNat / 32 % 2 = h.adaptation.toNat ∧
    d.toNat / 16 % 2 = h.payload.toNat ∧ d.toNat % 16 = h.counter.toNat := by
  have hscrambling : (d >>> 6).toNat = d.toNat / 64 := by
    rw [UInt8.toNat_shiftRight]
    exact Nat.shiftRight_eq_div_pow _ 6
  have hcounter : (d &&& 0x0f).toNat = d.toNat % 16 := toNat_byte_low (k := 4) rfl
  obtain ⟨sync, error, start, priority, pid, scrambling, adaptation, payload, counter⟩ := h
  rw [decode, if_pos rfl, Except.ok.injEq, mk.injEq, up_eq_iff (k := 7) rfl,
    up_eq_iff (k := 6) rfl, up_eq_iff (k := 5) rfl, up_eq_iff (k := 5) rfl,
    up_eq_iff (k := 4) rfl, ← UInt16.toNat_inj, toNat_joinPid, ← UInt8.toNat_inj (b := scrambling),
    hscrambling, ← UInt8.toNat_inj (b := counter), hcounter]
  rfl

/-- Bytes in sync hold the one header of proper widths that is written as they are. -/
theorem decode_eq_ok_iff (rest : List UInt8) : decode (syncByte :: b :: c :: d :: rest) = .ok h ↔
    h.Narrow ∧ h.encode = [syncByte, b, c, d] := by
  have hb := b.toNat_lt
  have hc := c.toNat_lt
  have hd := d.toNat_lt
  have herror := Bool.toNat_le h.transportError
  have hstart := Bool.toNat_le h.unitStart
  have hpriority := Bool.toNat_le h.priority
  have hadaptation := Bool.toNat_le h.adaptation
  have hpayload := Bool.toNat_le h.payload
  rw [decode_eq_ok_iff_fields, encode_eq_iff]
  -- Quotients and remainders of three bytes on one side, their sums on the other.
  constructor
  · rintro ⟨hsync, hbit7, hbit6, hbit5, hpid, hscrambling, hbit5', hbit4, hcounter⟩
    exact ⟨⟨by omega, by omega, by omega⟩, hsync.symm, by omega, by omega, by omega⟩
  · rintro ⟨⟨hpid, hscrambling, hcounter⟩, hsync, hhigh, hlow, hcontrol⟩
    refine ⟨hsync.symm, ?_, ?_, ?_, ?_, ?_, ?_, ?_, ?_⟩ <;> omega

theorem decode_encode (h : Header) (rest : List UInt8) : decode (h.encode ++ rest) =
    if h.sync = syncByte then .ok h.cut else .error .badSync := by
  obtain ⟨b, c, d, hbytes⟩ : ∃ b c d, h.encode = [h.sync, b, c, d] := ⟨_, _, _, rfl⟩
  rw [hbytes]
  split
  · rename_i hsync
    rw [hsync]
    exact (decode_eq_ok_iff rest).mpr ⟨h.narrow_cut, h.encode_cut.trans (hsync ▸ hbytes)⟩
  · rename_i hsync
    exact if_neg hsync

theorem in_sync_iff : 4 ≤ bytes.length ∧ bytes.head? = some syncByte ↔
    ∃ b c d rest, bytes = syncByte :: b :: c :: d :: rest := by
  constructor
  · rintro ⟨hlength, hsync⟩
    match bytes, hlength, hsync with
    | _ :: _ :: _ :: _ :: _, _, rfl => exact ⟨_, _, _, _, rfl⟩
  · rintro ⟨b, c, d, rest, rfl⟩
    exact ⟨Nat.le_add_left 4 _, rfl⟩

theorem in_sync_of_decode (hdecode : decode bytes = .ok h) :
    ∃ b c d rest, bytes = syncByte :: b :: c :: d :: rest := by
  unfold decode at hdecode
  split at hdecode
  · split at hdecode
    · rename_i hsync
      subst hsync
      exact ⟨_, _, _, _, rfl⟩
    · cases hdecode
  · cases hdecode

theorem reads_as_written :
    (∀ bytes : List UInt8, (∃ h, decode bytes = .ok h ∧ h.encode = bytes.take 4) ↔
      4 ≤ bytes.length ∧ bytes.head? = some syncByte) ∧
    ∀ (h : Header) (rest : List UInt8), decode (h.encode ++ rest) =
      if h.sync = syncByte then .ok h.cut else .error .badSync := by
  refine ⟨fun bytes => ?_, decode_encode⟩
  rw [in_sync_iff]
  constructor
  · rintro ⟨h, hdecode, -⟩
    exact in_sync_of_decode hdecode
  · rintro ⟨b, c, d, rest, rfl⟩
    exact ⟨_, rfl, ((decode_eq_ok_iff rest).mp rfl).2⟩

/-- Fields that are all too wide leave the flags beside them down. -/
example : decode (encode { pid := 0xffff, scrambling := 0xff, payload := false, counter := 0xff }) =
    .ok { pid := 0x1fff, scrambling := 3, payload := false, counter := 15 } := rfl

end Header

end PacedStream.Packet
