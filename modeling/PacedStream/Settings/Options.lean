import PacedStream.Settings.Basic
import PacedStream.Text.Blank

/-!
Option strings: up to three fields, the upper threshold, the lower threshold and the greatest size
in megabytes, parted by commas. An empty or missing field keeps its value, and a bad string changes
nothing.
-/

namespace PacedStream.Settings
set_option autoImplicit false

def readWord (field : List Char) : Except Fault Nat :=
  (Numeral.read 10 UInt64.size field).mapError .numeral

def readThreshold (current : UInt64) (field : List Char) : Except Fault UInt64 :=
  if field.isEmpty then .ok current else (readWord field).map UInt64.ofNat

def readMaxBytes (current : UInt64) (field : List Char) : Except Fault UInt64 :=
  if field.isEmpty then .ok current
  else do
    let megabytes ← readWord field
    checkMegabytes megabytes
    .ok (UInt64.ofNat (megabytes * bytesPerMegabyte))

def fields (options : List Char) : List (List Char) := (options.splitOn ',').map Text.trim

def withOptions (s : Settings) (options : List Char) : Except Fault Settings :=
  let parts := fields options
  if 3 < parts.length then .error (.settings (.tooManyFields parts.length))
  else do
    let enough ← readThreshold s.enough (parts[0]?.getD [])
    let low ← readThreshold s.low (parts[1]?.getD [])
    let maxBytes ← readMaxBytes s.maxBytes (parts[2]?.getD [])
    checkThresholds enough low
    .ok { s with enough, low, maxBytes }

end PacedStream.Settings
