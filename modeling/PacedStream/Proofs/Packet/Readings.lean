import Mathlib.Algebra.Group.Nat.Defs
import PacedStream.Packet.Draft

/-!
Clock readings in bytes. The base of a reading stands in 33 bits, its extension in nine, and six
reserved bits between them. Main statement: a packet that announces a reading gives back the ticks
that were written, round the circle, and six bytes are written for what they read as exactly if
their reserved bits are up and their extension stays below 300 ticks. Hence two readings are written
alike exactly if they are the same point of the circle.
-/

namespace PacedStream
set_option autoImplicit false

namespace ClockReference

variable {x y k : Nat} {a b c d e f : UInt8} {ticks : UInt64}

theorem or_eq_add (hx : 2 ^ k ∣ x) (hy : y < 2 ^ k) : x ||| y = x + y := by
  obtain ⟨n, rfl⟩ := hx
  exact (Nat.two_pow_add_eq_or_of_lt hy n).symm

theorem toNat_byte_shiftLeft (byte : UInt8) {shift : UInt64} (h : shift.toNat ≤ 56) :
    (byte.toUInt64 <<< shift).toNat = byte.toNat * 2 ^ shift.toNat := by
  have hbyte : byte.toNat < 2 ^ 8 := byte.toNat_lt
  have hfits : byte.toNat * 2 ^ shift.toNat < 2 ^ 64 :=
    calc byte.toNat * 2 ^ shift.toNat
      _ < 2 ^ 8 * 2 ^ shift.toNat := Nat.mul_lt_mul_of_pos_right hbyte (Nat.two_pow_pos _)
      _ = 2 ^ (8 + shift.toNat) := (Nat.pow_add ..).symm
      _ ≤ 2 ^ 64 := Nat.pow_le_pow_right (by decide) (by omega)
  rw [UInt64.toNat_shiftLeft, UInt8.toNat_toUInt64, Nat.mod_eq_of_lt (by omega : shift.toNat < 64),
    Nat.shiftLeft_eq, Nat.mod_eq_of_lt hfits]

theorem toNat_high_bit (byte : UInt8) :
    ((byte &&& 0x80).toUInt64 >>> 7).toNat = byte.toNat / 128 := by
  have hbyte : byte.toNat < 2 ^ 8 := byte.toNat_lt
  rw [UInt64.toNat_shiftRight, UInt8.toNat_toUInt64, UInt8.toNat_and]
  change (byte.toNat &&& 128) >>> 7 = byte.toNat / 128
  rw [Nat.shiftRight_and_distrib, Nat.shiftRight_eq_div_pow]
  change byte.toNat / 128 &&& 1 = byte.toNat / 128
  rw [Nat.and_one_is_mod]
  omega

theorem toNat_low_bit (byte : UInt8) : (byte &&& 0x01).toNat = byte.toNat % 2 := by
  rw [UInt8.toNat_and]
  exact Nat.and_one_is_mod _

/-- The 33 bits in front of the reserved ones. -/
def base (a b c d e : UInt8) : Nat :=
  a.toNat * 2 ^ 25 + b.toNat * 2 ^ 17 + c.toNat * 2 ^ 9 + d.toNat * 2 + e.toNat / 128

/-- The nine bits behind the reserved ones. -/
def extension (e f : UInt8) : Nat := e.toNat % 2 * 256 + f.toNat

theorem base_lt : base a b c d e < 2 ^ 33 := by
  have ha := a.toNat_lt
  have hb := b.toNat_lt
  have hc := c.toNat_lt
  have hd := d.toNat_lt
  have he := e.toNat_lt
  unfold base
  omega

theorem extension_lt : extension e f < 512 := by
  have hf := f.toNat_lt
  unfold extension
  omega

theorem toNat_base : ((a.toUInt64 <<< 25) ||| (b.toUInt64 <<< 17) ||| (c.toUInt64 <<< 9) |||
    (d.toUInt64 <<< 1) ||| ((e &&& 0x80).toUInt64 >>> 7)).toNat = base a b c d e := by
  have ha : (a.toUInt64 <<< 25).toNat = a.toNat * 2 ^ 25 := toNat_byte_shiftLeft a (by decide)
  have hb : (b.toUInt64 <<< 17).toNat = b.toNat * 2 ^ 17 := toNat_byte_shiftLeft b (by decide)
  have hc : (c.toUInt64 <<< 9).toNat = c.toNat * 2 ^ 9 := toNat_byte_shiftLeft c (by decide)
  have hd : (d.toUInt64 <<< 1).toNat = d.toNat * 2 ^ 1 := toNat_byte_shiftLeft d (by decide)
  have hb' := b.toNat_lt
  have hc' := c.toNat_lt
  have hd' := d.toNat_lt
  have he' := e.toNat_lt
  -- Each byte stands in front of all bits that follow it.
  have hab : a.toNat * 2 ^ 25 ||| b.toNat * 2 ^ 17 = a.toNat * 2 ^ 25 + b.toNat * 2 ^ 17 :=
    or_eq_add (k := 25) (by omega) (by omega)
  have habc : a.toNat * 2 ^ 25 + b.toNat * 2 ^ 17 ||| c.toNat * 2 ^ 9 =
      a.toNat * 2 ^ 25 + b.toNat * 2 ^ 17 + c.toNat * 2 ^ 9 :=
    or_eq_add (k := 17) (by omega) (by omega)
  have habcd : a.toNat * 2 ^ 25 + b.toNat * 2 ^ 17 + c.toNat * 2 ^ 9 ||| d.toNat * 2 ^ 1 =
      a.toNat * 2 ^ 25 + b.toNat * 2 ^ 17 + c.toNat * 2 ^ 9 + d.toNat * 2 ^ 1 :=
    or_eq_add (k := 9) (by omega) (by omega)
  rw [UInt64.toNat_or, UInt64.toNat_or, UInt64.toNat_or, UInt64.toNat_or, ha, hb, hc, hd,
    toNat_high_bit, hab, habc, habcd]
  exact or_eq_add (k := 1) (by omega) (by omega)

theorem toNat_extension :
    (((e &&& 0x01).toUInt64 <<< 8) ||| f.toUInt64).toNat = extension e f := by
  have he : ((e &&& 0x01).toUInt64 <<< 8).toNat = (e &&& 0x01).toNat * 2 ^ 8 :=
    toNat_byte_shiftLeft _ (by decide)
  have hf := f.toNat_lt
  rw [UInt64.toNat_or, he, toNat_low_bit, UInt8.toNat_toUInt64,
    or_eq_add (k := 8) (by omega) (by omega)]
  rfl

theorem toNat_decode :
    (decode a b c d e f).toNat = base a b c d e * 300 + extension e f := by
  have hbase : base a b c d e < 2 ^ 33 := base_lt
  have hextension : extension e f < 512 := extension_lt
  unfold decode
  rw [UInt64.toNat_add, UInt64.toNat_mul, toNat_base, toNat_extension]
  change (base a b c d e * 300 % 2 ^ 64 + extension e f) % 2 ^ 64 = _
  omega

theorem toNat_shiftRight_byte (word : UInt64) {shift : UInt64} (h : shift.toNat < 64) :
    (word >>> shift).toUInt8.toNat = word.toNat / 2 ^ shift.toNat % 256 := by
  rw [UInt64.toNat_toUInt8, UInt64.toNat_shiftRight, Nat.mod_eq_of_lt h,
    Nat.shiftRight_eq_div_pow]

theorem toNat_shared (high low : UInt64) :
    (((high &&& 1) <<< 7).toUInt8 ||| (0x7e : UInt8) ||| ((low >>> 8) &&& 1).toUInt8).toNat =
      high.toNat % 2 * 128 + 126 + low.toNat / 256 % 2 := by
  have hhigh : ((high &&& 1) <<< 7).toUInt8.toNat = high.toNat % 2 * 128 := by
    rw [UInt64.toNat_toUInt8, UInt64.toNat_shiftLeft, UInt64.toNat_and]
    change ((high.toNat &&& 1) <<< 7) % 2 ^ 64 % 2 ^ 8 = high.toNat % 2 * 128
    rw [Nat.and_one_is_mod, Nat.shiftLeft_eq]
    omega
  have hlow : ((low >>> 8) &&& 1).toUInt8.toNat = low.toNat / 256 % 2 := by
    rw [UInt64.toNat_toUInt8, UInt64.toNat_and, UInt64.toNat_shiftRight]
    change (low.toNat >>> 8 &&& 1) % 2 ^ 8 = low.toNat / 256 % 2
    rw [Nat.and_one_is_mod, Nat.shiftRight_eq_div_pow]
    omega
  have hreserved : high.toNat % 2 * 128 ||| 126 = high.toNat % 2 * 128 + 126 :=
    or_eq_add (k := 7) (by omega) (by omega)
  rw [UInt8.toNat_or, UInt8.toNat_or, hhigh, hlow]
  change (high.toNat % 2 * 128 ||| 126) ||| low.toNat / 256 % 2 = _
  rw [hreserved]
  exact or_eq_add (k := 1) (by omega) (by omega)

theorem reserved_iff : e &&& 0x7e = 0x7e ↔ e.toNat / 2 % 64 = 63 := by
  have hmask : ∀ n < 256, n &&& 126 = 126 ↔ n / 2 % 64 = 63 := by decide +kernel
  rw [← UInt8.toNat_inj, UInt8.toNat_and]
  exact hmask e.toNat e.toNat_lt

theorem encode_eq_iff : encode ticks = [a, b, c, d, e, f] ↔
    base a b c d e = ticks.toNat % wrap.toNat / 300 ∧
      extension e f = ticks.toNat % wrap.toNat % 300 ∧ e &&& 0x7e = 0x7e := by
  have hwrap : wrap.toNat = 2576980377600 := rfl
  have hhigh : (ticks % wrap / 300).toNat = ticks.toNat % wrap.toNat / 300 := by
    rw [UInt64.toNat_div, UInt64.toNat_mod]
    rfl
  have hlow : (ticks % wrap % 300).toNat = ticks.toNat % wrap.toNat % 300 := by
    rw [UInt64.toNat_mod, UInt64.toNat_mod]
    rfl
  have ha := a.toNat_lt
  have hb := b.toNat_lt
  have hc := c.toNat_lt
  have hd := d.toNat_lt
  have he := e.toNat_lt
  have hf := f.toNat_lt
  rw [reserved_iff]
  unfold encode base extension
  dsimp only
  simp only [List.cons.injEq, and_true, ← UInt8.toNat_inj]
  rw [toNat_shiftRight_byte _ (by decide), toNat_shiftRight_byte _ (by decide),
    toNat_shiftRight_byte _ (by decide), toNat_shiftRight_byte _ (by decide), toNat_shared,
    UInt64.toNat_toUInt8, UInt64.toNat_and, hhigh, hlow]
  have hn : ticks.toNat % wrap.toNat < 2576980377600 := Nat.mod_lt _ (by decide)
  have hmask : ∀ n, (n &&& (0xff : UInt64).toNat) = n % 256 := fun n =>
    Nat.and_two_pow_sub_one_eq_mod n 8
  rw [hmask]
  have hbase : ticks.toNat % wrap.toNat / 300 < 2 ^ 33 := by omega
  have hextension : ticks.toNat % wrap.toNat % 300 < 300 := Nat.mod_lt _ (by decide)
  generalize ticks.toNat % wrap.toNat / 300 = m at hbase ⊢
  generalize ticks.toNat % wrap.toNat % 300 = n at hextension ⊢
  change m / 2 ^ 25 % 256 = a.toNat ∧ m / 2 ^ 17 % 256 = b.toNat ∧ m / 2 ^ 9 % 256 = c.toNat ∧
    m / 2 ^ 1 % 256 = d.toNat ∧ m % 2 * 128 + 126 + n / 256 % 2 = e.toNat ∧
      n % 256 % 2 ^ 8 = f.toNat ↔ _
  constructor
  · rintro ⟨ha, hb, hc, hd, he, hf⟩
    omega
  · rintro ⟨hm, hn, he⟩
    omega

theorem decode_of_encode (h : encode ticks = [a, b, c, d, e, f]) :
    decode a b c d e f = ticks % wrap := by
  obtain ⟨hbase, hextension, -⟩ := encode_eq_iff.mp h
  rw [← UInt64.toNat_inj, toNat_decode, hbase, hextension, UInt64.toNat_mod]
  exact Nat.div_add_mod' _ 300

theorem encode_decode_iff : encode (decode a b c d e f) = [a, b, c, d, e, f] ↔
    e &&& 0x7e = 0x7e ∧ extension e f < 300 := by
  have hbase : base a b c d e < 2 ^ 33 := base_lt
  have hextension : extension e f < 512 := extension_lt
  have hwrap : wrap.toNat = 2576980377600 := rfl
  rw [encode_eq_iff, toNat_decode, hwrap]
  constructor
  · rintro ⟨-, hrest, hreserved⟩
    exact ⟨hreserved, hrest ▸ Nat.mod_lt _ (by decide)⟩
  · rintro ⟨hreserved, hlt⟩
    exact ⟨by omega, by omega, hreserved⟩

theorem encode_congr {t u : UInt64} (h : t.toNat % wrap.toNat = u.toNat % wrap.toNat) :
    encode t = encode u := by
  have hmod : t % wrap = u % wrap := by
    rw [← UInt64.toNat_inj, UInt64.toNat_mod, UInt64.toNat_mod, h]
  unfold encode
  rw [hmod]

theorem encode_eq_encode_iff {t u : UInt64} :
    encode t = encode u ↔ t.toNat % wrap.toNat = u.toNat % wrap.toNat := by
  refine ⟨fun h => ?_, encode_congr⟩
  have hmod : u % wrap = t % wrap := (decode_of_encode rfl).symm.trans (decode_of_encode h)
  rw [← UInt64.toNat_mod, ← UInt64.toNat_mod, hmod]

end ClockReference

namespace Packet

open ClockReference (wrap encode decode extension encode_eq_encode_iff encode_decode_iff
  decode_of_encode)

/-- The adaptation field announces a reading and is long enough for one. -/
structure Announces (p : Packet) : Prop where
  sync : p[0] = syncByte
  adaptation : p[3] &&& 0x20 ≠ 0
  length_le : 7 ≤ p[4].toNat
  flag : p[5] &&& 0x10 ≠ 0

def clockBytes (p : Packet) : List UInt8 := p.toList.extract 6 12

theorem clockBytes_eq (p : Packet) : p.clockBytes = [p[6], p[7], p[8], p[9], p[10], p[11]] := by
  refine List.ext_getElem? fun i => ?_
  match i with
  | 0 | 1 | 2 | 3 | 4 | 5 => simp [clockBytes]
  | i + 6 =>
    have hend : 12 - 6 ≤ i + 6 := Nat.le_add_left 6 i
    rw [clockBytes, List.extract_eq_take_drop, List.getElem?_take_eq_none hend]
    rfl

theorem clock?_of_announces {p : Packet} (h : p.Announces) :
    p.clock? = some (decode p[6] p[7] p[8] p[9] p[10] p[11]) :=
  if_pos ⟨h.sync, h.adaptation, h.length_le, h.flag⟩

theorem clock_reads_back :
    (∀ p : Packet, p.Announces → ∃ ticks, p.clock? = some ticks ∧
      (∀ written : UInt64, p.clockBytes = encode written → ticks = written % wrap) ∧
      (encode ticks = p.clockBytes ↔ p[10] &&& 0x7e = 0x7e ∧ extension p[10] p[11] < 300)) ∧
    (∀ a b c d e f : UInt8, encode (decode a b c d e f) = [a, b, c, d, e, f] ↔
      e &&& 0x7e = 0x7e ∧ extension e f < 300) ∧
    ∀ t u : UInt64, encode t = encode u ↔ t.toNat % wrap.toNat = u.toNat % wrap.toNat := by
  refine ⟨fun p h => ⟨_, clock?_of_announces h, fun _ hbytes => ?_, ?_⟩,
    fun _ _ _ _ _ _ => encode_decode_iff, fun _ _ => encode_eq_encode_iff⟩
  · rw [clockBytes_eq] at hbytes
    exact decode_of_encode hbytes.symm
  · rw [clockBytes_eq]
    exact encode_decode_iff

/-- A reading written once round the circle and more comes back from its first round. -/
theorem clock_reads_back_beyond_circle :
    let p := Draft.packet { pid := 0x100, clock? := some 2576980377901 }
    p.Announces ∧ p.clockBytes = encode 2576980377901 ∧ p.clock? = some 301 := by
  intro p
  have hannounces : p.Announces :=
    ⟨by decide +kernel, by decide +kernel, by decide +kernel, by decide +kernel⟩
  have hbytes : p.clockBytes = encode 2576980377901 := by decide +kernel
  obtain ⟨ticks, hclock, hwritten, -⟩ := clock_reads_back.1 p hannounces
  exact ⟨hannounces, hbytes, hclock.trans (congrArg some (hwritten _ hbytes))⟩

end Packet

end PacedStream
