import PacedStream.Fault
import PacedStream.Packet.Basic

/-!
Sinks, which take the packets of one tick at a time and may refuse them, and the sink that hands
them to a reader as one chunk.
-/

namespace PacedStream
set_option autoImplicit false

/-- A sink with states `σ`. A refused write may leave a trace in the state all the same. -/
structure Sink (σ : Type) where
  write (now : Nat) (packets : Array Packet) (state : σ) : σ × Option Fault
  flush (state : σ) : σ × Option Fault := (state, none)

structure Channel where
  isOpen : Bool := true
  chunks : Array (List UInt8) := #[]

namespace Channel

def close (_ : Channel) : Channel := { isOpen := false }

def send (c : Channel) (chunk : List UInt8) : Channel × Option Fault :=
  if c.isOpen then ({ c with chunks := c.chunks.push chunk }, none) else (c, some .closed)

end Channel

/-- A tick without packets sends no chunk, so it does not notice that the reader is gone. -/
def Sink.channel : Sink Channel where
  write _ packets c :=
    if packets.isEmpty then (c, none) else c.send (packets.toList.flatMap Vector.toList)

end PacedStream
