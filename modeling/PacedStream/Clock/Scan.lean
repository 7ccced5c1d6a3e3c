import PacedStream.Queue.Basic
import PacedStream.Clock.Basic

/-!
The scan of the queue for the reference clock. It runs ahead of the output, stops behind each
located block and is taken up where it stopped; a packet that breaks the clock takes what is queued
in front of it away.
-/

namespace PacedStream
set_option autoImplicit false

structure Scan where
  clock : Clock
  queue : Queue Packet
  found : Bool := false
  log : Array Message := #[]

namespace Scan

def overflow? (s : Scan) : Option Overflow := Message.firstOverflow? s.log.toList

def step (s : Scan) : Scan :=
  let here := s.queue.mark
  let o := s.clock.observe (s.queue.slot here)
  let queue := s.queue.pass
  { clock := o.clock
    queue := if o.verdict.drops then queue.dropTo here else queue
    found := o.verdict = .located
    log := s.log ++ o.log }

def run : Nat → Scan → Scan
  | 0, s => s
  | n + 1, s =>
    let after := s.step
    if after.found then after else run n after

def rewind (s : Scan) : Scan :=
  { s with clock := s.clock.rewind, queue := s.queue.rewind }

def relearn (s : Scan) : Scan :=
  { s with clock := s.clock.relearn, queue := s.queue.rewind }

end Scan

namespace Clock

/-- Scans to the end of the next block, or through all that is queued. -/
def seek (c : Clock) (q : Queue Packet) : Scan :=
  Scan.run q.unscanned { clock := c, queue := q }

def countFrom (c : Clock) (q : Queue Packet) : Nat → Nat → Nat → Nat
  | 0, _, _ => 0
  | _, 0, _ => 0
  | n + 1, cap + 1, i =>
    if c.isReference (q.slot i) then countFrom c q n cap (q.next i) + 1
    else countFrom c q n (cap + 1) (q.next i)

def blocksAhead (c : Clock) (q : Queue Packet) (cap : Nat) : Nat :=
  c.countFrom q q.unscanned cap q.mark

def recount (c : Clock) (q : Queue Packet) (enough : Nat) : Clock :=
  { c with blocks := if c.hasBlock then min (1 + c.blocksAhead q enough) enough else 0 }

end Clock

end PacedStream
