import PacedStream.Fault
import PacedStream.Time
import PacedStream.Text.Quoted
import PacedStream.Packet.ClockReference

/-!
The journal. A message says what happened, its level and text follow from that, and an entry is a
message under the name of the buffer it is about.
-/

namespace PacedStream
set_option autoImplicit false

inductive Level where
  | error
  | warn
  | info
  | debug
deriving DecidableEq

def Level.text : Level → String
  | .error => "ERROR"
  | .warn => "WARN"
  | .info => "INFO"
  | .debug => "DEBUG"

inductive Message where
  | clockFound (pid : UInt16)
  | clockLocked (bitrate : UInt64)
  | clockBroken (pid : UInt16) (before after : UInt64)
  | grown (size : Nat)
  | shrunk (size : Nat)
  | stillLarge (filled maxSize : Nat)
  | buffered (blocks filled : Nat) (bitrate : UInt64)
  | rebuffering
  | underflow (blocks filled : Nat)
  | stalled (span : Nat)
  | idle (limit : Nat)
  | clockJump (elapsed? : Option Nat)
  | reset
  | trailingBytes (count : Nat)
  | dropped (fault : Fault)
  | refused (fault : Fault)
  | thresholdsReplaced (fault : Fault)
  | lineIgnored (line : String) (fault : Fault)
  | overrideIgnored (source : String) (fault : Fault)
  | relayStarted (interval : Nat)
  | cutShort (bytes : Nat)
  | draining (filled : Nat)
  | untimed (filled : Nat)
  | relayStopping
  /-- Checked words would have ended the program here. -/
  | overflow (cause : Overflow)
deriving DecidableEq

namespace Message

def level : Message → Level
  | .dropped _ | .overflow _ => .error
  | .clockBroken .. | .idle _ | .clockJump _ | .refused _ | .thresholdsReplaced _
  | .lineIgnored .. | .overrideIgnored .. => .warn
  | .clockFound _ | .buffered .. | .rebuffering | .reset | .relayStarted _ | .draining _
  | .relayStopping => .info
  | .clockLocked _ | .grown _ | .shrunk _ | .stillLarge .. | .underflow .. | .stalled _
  | .trailingBytes _ | .cutShort _ | .untimed _ => .debug

def spanText : Option Nat → String
  | none => "None"
  | some span => s!"Some({Span.text span})"

def text : Message → String
  | .clockFound pid => s!"reference PID {Numeral.hex 4 pid.toNat}"
  | .clockLocked bitrate => s!"clock locked, {bitrate} bps"
  | .clockBroken pid before after =>
    let gap := Span.text (ClockReference.span (ClockReference.gap before after))
    s!"PCR discontinuity on PID {Numeral.hex 4 pid.toNat}: {before} -> {after} ({gap})"
  | .grown size => s!"buffer grown to {size} packets"
  | .shrunk size => s!"buffer shrunk to {size} packets"
  | .stillLarge filled maxSize => s!"{filled} packets queued; cannot shrink to {maxSize} yet"
  | .buffered blocks filled bitrate =>
    s!"buffering complete: {blocks} blocks, {filled} packets, {bitrate} bps"
  | .rebuffering => "next PCR not buffered yet; rebuffering"
  | .underflow blocks filled => s!"underflow: {blocks} blocks queued, {filled} packets"
  | .stalled span => s!"output stalled for {Span.wholeMilliseconds span} ms"
  | .idle limit => s!"no input for more than {Span.wholeMilliseconds limit} ms; resetting"
  | .clockJump elapsed? => s!"clock jump ({spanText elapsed?} since last tick); resetting"
  | .reset => "reset"
  | .trailingBytes count => s!"ignoring {count} trailing bytes"
  | .dropped fault => fault.text
  | .refused fault => fault.text
  | .thresholdsReplaced fault => s!"{fault.text}; using default thresholds"
  | .lineIgnored line fault => s!"ignoring config line {Text.quoted line}: {fault.text}"
  | .overrideIgnored source fault => s!"ignoring {source}: {fault.text}"
  | .relayStarted interval => s!"driver started, tick every {Span.text interval}"
  | .cutShort bytes => s!"input closed mid-packet, {bytes} bytes lost"
  | .draining filled => s!"input closed, draining {filled} packets"
  | .untimed filled => s!"{filled} packets after the last PCR dropped"
  | .relayStopping => "driver stopping"
  | .overflow cause => cause.text

def overflow? : Message → Option Overflow
  | .overflow cause => some cause
  | _ => none

def ofChecked {α : Type} (computed : Except Overflow α) : List Message :=
  (Word.overflow? computed).toList.map .overflow

def firstOverflow? (log : List Message) : Option Overflow := log.findSome? overflow?

@[simp] theorem firstOverflow?_append (log log' : List Message) :
    firstOverflow? (log ++ log') = (firstOverflow? log).or (firstOverflow? log') :=
  List.findSome?_append

@[simp] theorem firstOverflow?_ofChecked {α : Type} (computed : Except Overflow α) :
    firstOverflow? (ofChecked computed) = Word.overflow? computed := by
  cases computed <;> rfl

end Message

structure Entry where
  name : String
  message : Message
deriving DecidableEq

def Entry.text (e : Entry) : String :=
  s!"{e.message.level.text} [{e.name}] {e.message.text}"

end PacedStream
