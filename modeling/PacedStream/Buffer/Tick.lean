import PacedStream.Buffer.Basic

/-!
Ticks. While packets flow, the time since the last tick becomes credit on the reference clock, and
each packet sent costs a quantum of it. While none may flow, a tick looks whether they could.
-/

namespace PacedStream.Buffer
set_option autoImplicit false

/-- A longer span between two ticks means that time itself jumped. -/
def jumpLimit : Nat := Span.seconds 1

def ticksPerMicrosecond : Float := Float.ofNat ClockReference.rate / 1000000.0

def spend (b : Buffer) : Buffer :=
  { b with clock := { b.clock with credit := b.clock.credit - b.clock.quantum } }

def sendFront (s : Step) : Step :=
  let b := s.buffer
  { s with
    buffer := { b with queue := b.queue.pop }
    sent := if b.delivers then s.sent.push b.queue.front else s.sent }

def settle (b : Buffer) (now : Int) : Step :=
  let clock := b.clock.recount b.queue b.settings.enough.toNat
  let sizing := b.sizing.consider now
  match b.sizing.halve? b.queue now with
  | none => { buffer := { b with clock, sizing } }
  | some queue => { buffer := { b with clock, sizing, queue }, log := #[.shrunk queue.size] }

/-- Sends one packet, and finds the next block first if the scan has no lead; without a next block
the clock has to be found again and nothing more is sent. Says whether a packet was sent. -/
def paceOnce (now : Int) (s : Step) : Step × Bool :=
  let b := s.buffer.spend
  if b.queue.head = b.queue.mark then
    let scan := b.clock.seek b.queue
    let log := s.log ++ scan.log
    if scan.found then
      let settled := (b.withScan scan).settle now
      (sendFront { s with buffer := settled.buffer, log := log ++ settled.log }, true)
    else
      ({ s with buffer := (b.withScan scan).relearn, log := log.push .rebuffering }, false)
  else (sendFront { s with buffer := b }, true)

def paceLoop (now : Int) : Nat → Step → Step
  | 0, s => s
  | n + 1, s =>
    if s.buffer.clock.quantum ≤ s.buffer.clock.credit then
      let (after, flows) := paceOnce now s
      if flows then paceLoop now n after else after
    else s

/-- Spends the credit. Every round but the last sends a packet, so one more than are queued is
enough. -/
def pace (b : Buffer) (now : Int) : Step :=
  if b.clock.quantum ≤ 0 then { buffer := b }
  else paceLoop now (b.queue.length + 1) { buffer := b }

def updateFlow (b : Buffer) (now : Int) : Flow × Flow.Action :=
  b.flow.update b.clock.blocks b.settings.enough.toNat b.settings.low.toNat now

def play (b : Buffer) (now : Int) (microseconds : Nat) : Step :=
  let (flow, action) := b.updateFlow now
  if action = .stall then
    { buffer := { b with flow }, log := #[.underflow b.clock.blocks b.queue.length] }
  else
    let credit := Float.ofNat microseconds * ticksPerMicrosecond
    pace { b with flow, clock := { b.clock with credit := b.clock.credit + credit } } now

def recount (b : Buffer) : Buffer :=
  { b with clock := b.clock.recount b.queue b.settings.enough.toNat }

def tryStart (b : Buffer) (now : Int) : Step :=
  let b := b.recount
  let (flow, action) := b.updateFlow now
  if action = .start then
    { buffer := { b.withScan b.scan.rewind with flow }
      log := #[.buffered b.clock.blocks b.queue.length b.clock.bitrate] }
  else { buffer := { b with flow } }

/-- A tick while buffering: a block has to be located before blocks are counted. -/
def prepare (b : Buffer) (now : Int) : Step :=
  if b.clock.hasBlock then b.tryStart now
  else
    let scan := b.clock.seek b.queue
    let b := b.withScan scan
    if scan.found then
      let started := b.tryStart now
      { started with log := scan.log ++ started.log }
    else { buffer := b, log := scan.log }

def recover (b : Buffer) (now : Int) : Step :=
  let b := b.recount
  let (flow, action) := b.updateFlow now
  let b := { b with flow }
  match action with
  | .reset => { buffer := b.dropAll, log := #[.idle Flow.maxStall] }
  | .resume stalled =>
    { buffer := { b with clock := { b.clock with credit := 0 } }
      log := if Flow.notedStall ≤ stalled then #[.stalled stalled] else #[] }
  | _ => { buffer := b }

def advance (b : Buffer) (now : Int) (microseconds : Nat) : Step :=
  let b := { b with lastTick? := some now }
  let asked := b.asks && b.clock.blocks < b.settings.enough.toNat
  let s : Step := match b.flow with
    | .empty => { buffer := b }
    | .buffering => b.prepare now
    | .running => b.play now microseconds
    | .underflow _ => b.recover now
  { s with asked }

def jump (b : Buffer) (now : Int) (elapsed? : Option Nat) : Step :=
  { buffer := { b.dropAll with lastTick? := some now }
    log := if b.flow = .empty then #[] else #[.clockJump elapsed?] }

/-- The first tick only starts the count of time, and a tick that comes before a microsecond is over
does not count at all. -/
def tick (b : Buffer) (now : Int) : Step :=
  match b.lastTick? with
  | none => { buffer := { b with lastTick? := some now } }
  | some last =>
    match Instant.since? now last with
    | none => b.jump now none
    | some elapsed =>
      if jumpLimit < elapsed then b.jump now (some elapsed)
      else if Span.wholeMicroseconds elapsed = 0 then { buffer := b }
      else b.advance now (Span.wholeMicroseconds elapsed)

end PacedStream.Buffer
