import PacedStream.Packet.Basic
import PacedStream.Word

/-!
Program clock references: readings of a 27 MHz clock, written as a 33-bit base of 300 ticks each
and a 9-bit extension. Readings come round again after `wrap` ticks.
-/

namespace PacedStream
namespace ClockReference
set_option autoImplicit false

def rate : Nat := 27000000

def wrap : UInt64 := 2576980377600

theorem wrap_eq : wrap.toNat = (1 <<< 33) * 300 := by decide

/-- The six bytes of a reading, with the reserved bits up. -/
def encode (ticks : UInt64) : List UInt8 :=
  let base := ticks % wrap / 300
  let extension := ticks % wrap % 300
  [(base >>> 25).toUInt8, (base >>> 17).toUInt8, (base >>> 9).toUInt8, (base >>> 1).toUInt8,
   ((base &&& 1) <<< 7).toUInt8 ||| (0x7e : UInt8) ||| ((extension >>> 8) &&& 1).toUInt8,
   (extension &&& 0xff).toUInt8]

@[simp] theorem length_encode (ticks : UInt64) : (encode ticks).length = 6 := rfl

def decode (a b c d e f : UInt8) : UInt64 :=
  let base := (a.toUInt64 <<< 25) ||| (b.toUInt64 <<< 17) ||| (c.toUInt64 <<< 9) |||
    (d.toUInt64 <<< 1) ||| ((e &&& 0x80).toUInt64 >>> 7)
  let extension := ((e &&& 0x01).toUInt64 <<< 8) ||| f.toUInt64
  base * 300 + extension

/-- Ticks from one reading to the next, in words; readings below `wrap` give their distance on
the circle. -/
def gap (before after : UInt64) : UInt64 := (after + wrap - before) % wrap

def gap? (before after : UInt64) : Except Overflow UInt64 := do
  let sum ← Word.add? after wrap
  let difference ← Word.sub? sum before
  return difference % wrap

/-- The span that a number of ticks lasts, cut to a word of nanoseconds. -/
def span (ticks : UInt64) : Nat := ticks.toNat * 1000000000 / rate % UInt64.size

end ClockReference

/-- The clock reading of a packet: it needs the sync byte, an adaptation field of at least seven
bytes and the flag that announces a reading. -/
def Packet.clock? (p : Packet) : Option UInt64 :=
  if p[0] = Packet.syncByte ∧ p[3] &&& 0x20 ≠ 0 ∧ 7 ≤ p[4].toNat ∧ p[5] &&& 0x10 ≠ 0 then
    some (ClockReference.decode p[6] p[7] p[8] p[9] p[10] p[11])
  else none

end PacedStream
