import PacedStream.Buffer.Tick
import PacedStream.Buffer.Adjust
import PacedStream.Relay.Sink
import PacedStream.Relay.Timeline

/-!
The relay between a byte source and a sink. It ticks a buffer at a fixed interval, takes input only
while the buffer asks for it, and once the input has ended it plays what can still be timed. A run
is the fold of the relay over a timeline.
-/

namespace PacedStream
set_option autoImplicit false

inductive Relay.Phase where
  | feeding
  /-- The input has ended; the last so many ticks made no progress. -/
  | draining (idle : Nat)
  | ended (instant : Nat) (result : Except Fault Unit)

structure Relay (σ : Type) where
  buffer : Buffer
  sink : σ
  phase : Relay.Phase := .feeding
  wanted : Bool := true
  waiting : Array (List UInt8) := #[]
  closed : Bool := false
  carry : Packet.Carry := .empty
  published : Status := {}
  looks : Array (Nat × Status) := #[]
  log : Array Entry := #[]

namespace Relay

variable {σ : Type}

/-- Ticks without progress after which the rest cannot be timed. -/
def patience : Nat := 2

def host (settings : Settings) : Step :=
  let s := Buffer.create settings
  { s with buffer := { s.buffer with delivers := true, asks := true } }

def note (r : Relay σ) (messages : Array Message) : Relay σ :=
  let name := r.buffer.settings.name
  { r with log := r.log ++ messages.map fun message => { name, message } }

def overflow? (r : Relay σ) : Option Overflow :=
  Message.firstOverflow? (r.log.toList.map Entry.message)

def start (buffer : Buffer) (sink : σ) (interval : Nat) : Relay σ :=
  note { buffer, sink } #[.relayStarted interval]

def receive (r : Relay σ) (chunk : List UInt8) : Relay σ :=
  let framing := Packet.frame r.carry chunk
  let r := { r with carry := framing.carry }
  if framing.packets.isEmpty then r
  else
    let s := r.buffer.push framing.packets.toList
    note { r with buffer := s.buffer } s.log

def finish (sink : Sink σ) (now : Nat) (r : Relay σ) : Relay σ :=
  let r := if r.buffer.queue.isEmpty then r else r.note #[.untimed r.buffer.queue.length]
  let r := r.note #[.relayStopping]
  match sink.flush r.sink with
  | (state, none) => { r with sink := state, phase := .ended now (.ok ()) }
  | (state, some fault) => { r with sink := state, phase := .ended now (.error fault) }

/-- The input has ended: blocks count one by one from now on. -/
def drain (sink : Sink σ) (now : Nat) (r : Relay σ) : Relay σ :=
  let r := if r.carry.size = 0 then r else r.note #[.cutShort r.carry.size]
  if r.buffer.queue.isEmpty then r.finish sink now
  else
    let r := r.note #[.draining r.buffer.queue.length]
    { r with buffer := (r.buffer.setThresholds 1 1).buffer, phase := .draining 0 }

def take (sink : Sink σ) (now : Nat) (r : Relay σ) : Relay σ :=
  match r.phase with
  | .feeding =>
    if r.wanted then
      let r := r.waiting.foldl receive { r with waiting := #[] }
      if r.closed then r.drain sink now else r
    else r
  | _ => r

/-- One tick of the buffer, whose packets go to the sink. A sink that refuses them ends the run,
and the view is published only after a write. -/
def beat (sink : Sink σ) (now : Nat) (r : Relay σ) : Relay σ × Option Nat :=
  let s := r.buffer.tick now
  let r := note { r with buffer := s.buffer, wanted := s.asked } s.log
  match sink.write now s.sent r.sink with
  | (state, some fault) => ({ r with sink := state, phase := .ended now (.error fault) }, none)
  | (state, none) =>
    let view := s.buffer.status
    let r := { r with sink := state, published := view }
    (r.note (view.overflow?.toArray.map .overflow), some s.sent.size)

def drainBeat (sink : Sink σ) (now idle : Nat) (r : Relay σ) : Relay σ :=
  match r.beat sink now with
  | (r, none) => r
  | (r, some sent) =>
    let idle := if 0 < sent ∨ r.buffer.flow.isRunning then 0 else idle + 1
    if r.buffer.queue.isEmpty ∨ patience ≤ idle then r.finish sink now
    else { r with phase := .draining idle }

def tick (sink : Sink σ) (now : Nat) (r : Relay σ) : Relay σ :=
  match r.phase with
  | .feeding => (r.beat sink now).1.take sink now
  | .draining idle => r.drainBeat sink now idle
  | .ended .. => r

def handle (sink : Sink σ) (r : Relay σ) : Nat × Event σ → Relay σ
  | (now, .tick) => r.tick sink now
  | (now, .arrive chunk) => { r with waiting := r.waiting.push chunk }.take sink now
  | (now, .close) => { r with closed := true }.take sink now
  | (_, .disturb change) => { r with sink := change r.sink }
  | (now, .look) => { r with looks := r.looks.push (now, r.published) }

def run (sink : Sink σ) (r : Relay σ) (timeline : List (Nat × Event σ)) : Relay σ :=
  timeline.foldl (handle sink) r

end Relay

end PacedStream
