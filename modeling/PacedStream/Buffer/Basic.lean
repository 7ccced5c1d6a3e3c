import PacedStream.Settings.Basic
import PacedStream.Queue.Sizing
import PacedStream.Flow
import PacedStream.Status
import PacedStream.Packet.Framing
import PacedStream.Clock.Scan

/-!
The paced buffer. Packets are pushed in bursts and leave at the rate of the reference clock, one
tick at a time. An operation takes the buffer to the next one and says what it did besides: packets
sent, input asked for, messages, and the fault if it was refused.
-/

namespace PacedStream
set_option autoImplicit false

structure Buffer where
  settings : Settings
  queue : Queue Packet
  clock : Clock
  sizing : Sizing
  flow : Flow := .empty
  /-- The last tick that counted. -/
  lastTick? : Option Int := none
  /-- Whether there is a receiver for the packets that leave. -/
  delivers : Bool := false
  asks : Bool := false

structure Step where
  buffer : Buffer
  sent : Array Packet := #[]
  asked : Bool := false
  log : Array Message := #[]
  fault? : Option Fault := none

def Step.overflow? (s : Step) : Option Overflow := Message.firstOverflow? s.log.toList

def Step.accepted (s : Step) : Bool := s.fault?.isNone

def Step.entries (s : Step) : List Entry :=
  s.log.toList.map fun message => { name := s.buffer.settings.name, message }

namespace Buffer

/-- The most slots that the settings allow; the least size always is allowed. -/
def maxSlots (s : Settings) : Nat := max s.maxPackets Queue.standardMinSize

/-- Thresholds that do not fit together give way to the standard ones. -/
def usable (s : Settings) : Settings × List Message :=
  match Settings.checkThresholds s.enough s.low with
  | .ok () => (s, [])
  | .error fault =>
    ({ s with enough := Settings.standard.enough, low := Settings.standard.low },
      [.thresholdsReplaced fault])

def create (settings : Settings) : Step :=
  let (settings, log) := usable settings
  { buffer := {
      settings
      queue := Queue.create Queue.standardMinSize Queue.standardMinSize
      clock := { pinned? := settings.pid? }
      sizing := { maxSize := maxSlots settings } }
    log := log.toArray }

def scan (b : Buffer) : Scan := { clock := b.clock, queue := b.queue }

def withScan (b : Buffer) (s : Scan) : Buffer := { b with clock := s.clock, queue := s.queue }

def relearn (b : Buffer) : Buffer :=
  { b.withScan b.scan.relearn with flow := .buffering }

def dropAll (b : Buffer) : Buffer :=
  let queue := b.queue.clear
  { b with
    queue := (queue.resize? queue.minSize).getD queue
    clock := b.clock.forget
    sizing := b.sizing.reset
    flow := if b.flow = .empty then .empty else .buffering }

def reset (b : Buffer) : Step := { buffer := b.dropAll, log := #[.reset] }

/-- Queues a burst, or drops it all if the queue cannot grow far enough. -/
def offer (b : Buffer) (burst : List Packet) : Step :=
  if burst.isEmpty then { buffer := b }
  else
    let growth := b.sizing.makeRoom b.queue burst.length
    let fed := { b with flow := b.flow.feed, queue := growth.queue }
    if growth.enough then
      { buffer := { fed with queue := (growth.queue.push? burst).getD growth.queue }
        log := growth.log.toArray }
    else
      { buffer := fed
        log := growth.log.toArray
        fault? := some (if b.clock.locked then .full burst.length else .noClock burst.length) }

def push (b : Buffer) (burst : List Packet) : Step :=
  let s := b.offer burst
  match s.fault? with
  | none => s
  | some fault => { s with log := s.log.push (.dropped fault) }

def pushBytes (b : Buffer) (bytes : List UInt8) : Step :=
  let framing := Packet.frame .empty bytes
  let s := b.push framing.packets.toList
  if framing.carry.size = 0 then s
  else { s with log := #[.trailingBytes framing.carry.size] ++ s.log }

/-- Packets still missing for enough blocks of the last length, counted in words and bounded by what
the greatest size leaves; the room there is while no length is known. -/
def want (b : Buffer) : Nat :=
  if b.clock.blockLength = 0 then b.queue.room
  else
    let missing := b.settings.enough.toNat - b.clock.blocks
    min (UInt64.ofNat missing * UInt64.ofNat b.clock.blockLength).toNat
      (b.sizing.maxSize - (b.queue.length + 1))

def missingPackets? (b : Buffer) : Except Overflow UInt64 :=
  Word.mul? (UInt64.ofNat (b.settings.enough.toNat - b.clock.blocks))
    (UInt64.ofNat b.clock.blockLength)

def status (b : Buffer) : Status where
  size := b.queue.size
  length := b.queue.length
  blocks := b.clock.blocks
  bitrate := b.clock.bitrate
  enough := b.settings.enough
  low := b.settings.low
  maxSize := b.sizing.maxSize
  want := b.want
  overflow? := Word.overflow? b.missingPackets?
  state := b.flow.state
  reference? := b.clock.reference?
  quantum := b.clock.quantum

/-- Name, state and queue, as a record. The quantum is shown in whole ticks. -/
def describe (b : Buffer) : String :=
  s!"SyncBuffer \x7b name: {Text.quoted b.settings.name}, state: {b.flow.state.title}, " ++
    s!"ring: {b.queue.describe}, num_blocks: {b.clock.blocks}, " ++
    s!"quantum: {b.clock.quantum.toUInt64}.0 \x7d"

end Buffer

end PacedStream
