import PacedStream.Packet.Basic

/-!
The four bytes in front of every packet. Writing cuts each field to its width, so a field that is
too wide never reaches its neighbour.
-/

namespace PacedStream.Packet
set_option autoImplicit false

structure Header where
  sync : UInt8 := syncByte
  transportError : Bool := false
  unitStart : Bool := false
  priority : Bool := false
  pid : UInt16 := 0
  scrambling : UInt8 := 0
  adaptation : Bool := false
  payload : Bool := true
  counter : UInt8 := 0
deriving DecidableEq

inductive Header.Fault where
  | tooShort
  | badSync
deriving DecidableEq

def Header.Fault.text : Header.Fault → String
  | .tooShort => "TS packet too short"
  | .badSync => "Invalid sync byte"

namespace Header

def flag (mask : UInt8) (up : Bool) : UInt8 := if up then mask else 0

/-- The sync byte; flags and the high bits of the identifier; its low bits; the control byte. -/
def encode (h : Header) : List UInt8 :=
  [h.sync,
   flag 0x80 h.transportError ||| flag 0x40 h.unitStart ||| flag 0x20 h.priority |||
     ((h.pid >>> 8) &&& 0x1f).toUInt8,
   (h.pid &&& 0xff).toUInt8,
   (h.scrambling <<< 6) ||| flag 0x20 h.adaptation ||| flag 0x10 h.payload |||
     (h.counter &&& 0x0f)]

@[simp] theorem length_encode (h : Header) : h.encode.length = 4 := rfl

def decode : List UInt8 → Except Fault Header
  | sync :: high :: low :: control :: _ =>
    if sync = syncByte then
      .ok {
        sync := sync
        transportError := high &&& 0x80 ≠ 0
        unitStart := high &&& 0x40 ≠ 0
        priority := high &&& 0x20 ≠ 0
        pid := joinPid high low
        scrambling := control >>> 6
        adaptation := control &&& 0x20 ≠ 0
        payload := control &&& 0x10 ≠ 0
        counter := control &&& 0x0f }
    else .error .badSync
  | _ => .error .tooShort

end Header

end PacedStream.Packet
