import PacedStream.Journal

/-!
The reference clock, recovered from a stream that is shown to it packet by packet. Two readings on
the reference identifier that are close enough locate a block, and their distance over the packets
of the block is the quantum, the ticks that one packet lasts.
-/

namespace PacedStream
set_option autoImplicit false

structure Clock where
  pinned? : Option UInt16 := none
  reference? : Option UInt16 := pinned?
  /-- The reading at the start of the located block. -/
  opening? : Option UInt64 := none
  /-- The latest reading, which ends the located block if there is one. -/
  latest? : Option UInt64 := none
  quantum : Float := 0
  /-- Ticks credited and not yet spent on packets. -/
  credit : Float := 0
  /-- Packets scanned since the latest reading. -/
  scanned : Nat := 0
  blockLength : Nat := 0
  blocks : Nat := 0
  locked : Bool := false
  breaks : Nat := 0

namespace Clock

/-- The distance, 150 ms, from which on two readings do not belong together. -/
def maxGap : UInt64 := 4050000

def hasBlock (c : Clock) : Bool := c.opening?.isSome

def bitrate (c : Clock) : UInt64 :=
  if c.quantum ≤ 0 then 0
  else (Float.ofNat ClockReference.rate / c.quantum * Float.ofNat (Packet.size * 8)).toUInt64

def reading? (p : Packet) : Option (UInt16 × UInt64) :=
  if p.pid = Packet.nullPid then none else p.clock?.map fun ticks => (p.pid, ticks)

inductive Verdict where
  | pass
  /-- The first reading; without a lock so far, nothing queued in front of it can be timed. -/
  | anchor (locked : Bool)
  | broken
  | located
deriving DecidableEq

def Verdict.drops : Verdict → Bool
  | .anchor locked => !locked
  | .broken => true
  | .pass | .located => false

structure Observation where
  clock : Clock
  verdict : Verdict
  log : List Message := []

def learn (c : Clock) (pid : UInt16) : Clock :=
  { c with reference? := some (c.reference?.getD pid) }

def learned (c : Clock) (pid : UInt16) : List Message :=
  if c.reference?.isNone then [.clockFound pid] else []

def anchor (c : Clock) (ticks : UInt64) : Clock :=
  { c with latest? := some ticks, scanned := 0 }

def restart (c : Clock) (ticks : UInt64) : Clock :=
  { c.anchor ticks with opening? := none, blocks := 0, breaks := c.breaks + 1 }

def locate (c : Clock) (before after : UInt64) : Clock :=
  { c with
    quantum := (ClockReference.gap before after).toFloat / Float.ofNat c.scanned
    blockLength := c.scanned
    opening? := some before
    latest? := some after
    scanned := 0
    locked := true }

/-- Readings that are equal or too far apart do not bound a block. -/
def isBreak (before after : UInt64) : Bool :=
  ClockReference.gap before after = 0 || maxGap ≤ ClockReference.gap before after

def observeReading (c : Clock) (pid : UInt16) (ticks : UInt64) : Observation :=
  match c.latest? with
  | none => { clock := c.anchor ticks, verdict := .anchor c.locked }
  | some before =>
    let checked := Message.ofChecked (ClockReference.gap? before ticks)
    if isBreak before ticks then
      { clock := c.restart ticks
        verdict := .broken
        log := checked ++ [.clockBroken pid before ticks] }
    else
      let located := c.locate before ticks
      { clock := located
        verdict := .located
        log := checked ++ if c.locked then [] else [.clockLocked located.bitrate] }

/-- The next packet of the scan. The first identifier with a reading becomes the reference. -/
def observe (c : Clock) (p : Packet) : Observation :=
  let counted := { c with scanned := c.scanned + 1 }
  match reading? p with
  | none => { clock := counted, verdict := .pass }
  | some (pid, ticks) =>
    if c.reference?.getD pid = pid then
      let o := (counted.learn pid).observeReading pid ticks
      { o with log := c.learned pid ++ o.log }
    else { clock := counted, verdict := .pass }

def isReference (c : Clock) (p : Packet) : Bool :=
  c.reference? = some p.pid && p.clock?.isSome

/-- Forgets the readings and the credit; identifier and quantum stay. -/
def rewind (c : Clock) : Clock :=
  { c with opening? := none, latest? := none, scanned := 0, credit := 0 }

def relearn (c : Clock) : Clock :=
  { c.rewind with reference? := c.pinned?, quantum := 0, blockLength := 0, blocks := 0 }

def forget (c : Clock) : Clock := { pinned? := c.pinned? }

def pin (c : Clock) (pid? : Option UInt16) : Clock :=
  { c with pinned? := pid?, reference? := pid? }

end Clock

end PacedStream
