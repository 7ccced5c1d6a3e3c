/-!
Transport packets: 188 bytes, of which the second and third hold a 13-bit packet identifier.
-/

namespace PacedStream
set_option autoImplicit false

abbrev Packet.size : Nat := 188

abbrev Packet := Vector UInt8 Packet.size

namespace Packet

def syncByte : UInt8 := 0x47

/-- The identifier of stuffing packets, which never carry the reference clock. -/
def nullPid : UInt16 := 0x1fff

def joinPid (high low : UInt8) : UInt16 :=
  ((high &&& 0x1f).toUInt16 <<< 8) ||| low.toUInt16

def pid (p : Packet) : UInt16 := joinPid p[1] p[2]

def pidOfBytes? : List UInt8 → Option UInt16
  | _ :: high :: low :: _ => some (joinPid high low)
  | _ => none

def ofBytes (fill : UInt8) (bytes : List UInt8) : Packet :=
  let known := bytes.toArray
  Vector.ofFn fun i => known.getD i fill

end Packet

end PacedStream
