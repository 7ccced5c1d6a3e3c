import PacedStream.Packet.Basic

/-!
Framing of a byte stream. Bytes are carried until they fill a packet, so packets come out the same
however the stream is cut.
-/

namespace PacedStream.Packet
set_option autoImplicit false

structure Carry where
  bytes : Array UInt8 := #[]
  short : bytes.size < Packet.size := by decide

namespace Carry

def empty : Carry := {}

def size (c : Carry) : Nat := c.bytes.size

def feed (c : Carry) (byte : UInt8) : Carry × Option Packet :=
  if h : c.bytes.size + 1 = Packet.size then
    (empty, some ⟨c.bytes.push byte, by simp [h]⟩)
  else
    ({ bytes := c.bytes.push byte
       short := by have := c.short; simp only [Array.size_push]; omega }, none)

end Carry

structure Framing where
  carry : Carry := .empty
  packets : Array Packet := #[]

namespace Framing

def feed (f : Framing) (byte : UInt8) : Framing :=
  match f.carry.feed byte with
  | (carry, none) => { f with carry }
  | (carry, some p) => { carry, packets := f.packets.push p }

def feedAll (f : Framing) (bytes : List UInt8) : Framing := bytes.foldl feed f

@[simp] theorem feedAll_nil (f : Framing) : f.feedAll [] = f := rfl

theorem feedAll_append (f : Framing) (a b : List UInt8) :
    f.feedAll (a ++ b) = (f.feedAll a).feedAll b := List.foldl_append

end Framing

/-- Cuts bytes into packets, after what is carried from earlier. -/
def frame (carry : Carry) (bytes : List UInt8) : Framing :=
  Framing.feedAll { carry } bytes

end PacedStream.Packet
