import PacedStream.Settings.Options
import PacedStream.Buffer.Basic

/-!
Changes of settings between ticks. A change that is refused leaves the buffer as it was, and none
touches the queued packets.
-/

namespace PacedStream.Buffer
set_option autoImplicit false

def refuse (b : Buffer) (fault : Fault) : Step :=
  { buffer := b, log := #[.refused fault], fault? := some fault }

/-- Takes over checked settings. A queue with more slots than they allow shrinks if its packets fit,
and is left as it is otherwise. -/
def adopt (b : Buffer) (settings : Settings) : Step :=
  let maxSize := maxSlots settings
  let b := { b with settings, sizing := { b.sizing with maxSize } }
  if b.queue.size ≤ maxSize then { buffer := b }
  else match b.queue.resize? maxSize with
    | some queue => { buffer := { b with queue } }
    | none => { buffer := b, log := #[.stillLarge b.queue.length maxSize] }

def setThresholds (b : Buffer) (enough low : UInt64) : Step :=
  match Settings.checkThresholds enough low with
  | .error fault => b.refuse fault
  | .ok () => { buffer := { b with settings := { b.settings with enough, low } } }

def setMaxSize (b : Buffer) (megabytes : Nat) : Step :=
  match Settings.checkMegabytes megabytes with
  | .error fault => b.refuse fault
  | .ok () =>
    b.adopt { b.settings with maxBytes := UInt64.ofNat (megabytes * Settings.bytesPerMegabyte) }

def setOptions (b : Buffer) (options : String) : Step :=
  match b.settings.withOptions options.toList with
  | .error fault => b.refuse fault
  | .ok settings => b.adopt settings

def setName (b : Buffer) (name : String) : Step :=
  { buffer := { b with settings := { b.settings with name } } }

def checkPid? : Option UInt16 → Except Fault Unit
  | none => .ok ()
  | some pid => Settings.checkPid pid

def setPid (b : Buffer) (pid? : Option UInt16) : Step :=
  match checkPid? pid? with
  | .error fault => b.refuse fault
  | .ok () =>
    let b := { b with settings := { b.settings with pid? }, clock := b.clock.pin pid? }
    { buffer := if b.flow = .empty then b else b.relearn }

end PacedStream.Buffer
