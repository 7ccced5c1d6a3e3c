import PacedStream.Packet.Header
import PacedStream.Packet.ClockReference

/-!
Packets built from their parts: a header, a clock reading if there is one, payload cut to the room
left, and stuffing.
-/

namespace PacedStream.Packet
set_option autoImplicit false

structure Draft where
  pid : UInt16
  clock? : Option UInt64 := none
  counter : UInt8 := 0
  payload : List UInt8 := []

namespace Draft

def header (d : Draft) : Header where
  pid := d.pid &&& nullPid
  adaptation := d.clock?.isSome
  counter := d.counter

/-- An adaptation field of seven bytes that holds a clock reading and nothing else. -/
def adaptationField (ticks : UInt64) : List UInt8 := 7 :: 0x10 :: ClockReference.encode ticks

def lead (d : Draft) : List UInt8 :=
  d.header.encode ++ (d.clock?.map adaptationField).getD []

theorem length_lead (d : Draft) : d.lead.length = if d.clock?.isSome then 12 else 4 := by
  cases h : d.clock? <;> simp [lead, adaptationField, h]

def packet (d : Draft) : Packet := ofBytes 0xff (d.lead ++ d.payload)

end Draft

def stuffing : Packet := Draft.packet { pid := nullPid }

end PacedStream.Packet
