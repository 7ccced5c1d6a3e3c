import PacedStream.Numeral
import PacedStream.Packet.Header

/-!
Everything that can go wrong, told by its cause. The text of a fault is written in one place.
-/

namespace PacedStream
set_option autoImplicit false

inductive SettingsFault where
  | tooManyFields (count : Nat)
  | zeroThreshold
  | lowAboveEnough (low enough : UInt64)
  | sizeOutOfRange (megabytes : Nat)
  | unusablePid (pid : UInt16)
  | stated (text : String)
deriving DecidableEq

def maxMegabytes : Nat := 1024

def SettingsFault.text : SettingsFault → String
  | .tooManyFields count => s!"expected at most 3 fields, got {count}"
  | .zeroThreshold => "block thresholds must be positive"
  | .lowAboveEnough low enough => s!"low blocks ({low}) exceeds enough blocks ({enough})"
  | .sizeOutOfRange megabytes => s!"max size {megabytes} MB out of range 1..={maxMegabytes}"
  | .unusablePid pid => s!"PID {Numeral.hex 1 pid.toNat} not usable as reference"
  | .stated text => text

inductive DataFault where
  | header (fault : Packet.Header.Fault)
  | stated (text : String)
deriving DecidableEq

def DataFault.text : DataFault → String
  | .header fault => fault.text
  | .stated text => text

inductive Fault where
  | io (text : String)
  | data (cause : DataFault)
  | settings (cause : SettingsFault)
  | numeral (cause : Numeral.Fault)
  /-- A burst did not fit at the greatest size allowed. -/
  | full (dropped : Nat)
  /-- A burst did not fit, and no reference clock was ever found. -/
  | noClock (dropped : Nat)
  | closed
deriving DecidableEq

def Fault.text : Fault → String
  | .io text => s!"io error: {text}"
  | .data cause => s!"invalid data: {cause.text}"
  | .settings cause => s!"invalid options: {cause.text}"
  | .numeral cause => s!"parse int error: {cause.text}"
  | .full dropped => s!"buffer full; dropping {dropped} packets"
  | .noClock dropped => s!"PCR absent or invalid; dropping {dropped} packets"
  | .closed => "channel closed"

end PacedStream
