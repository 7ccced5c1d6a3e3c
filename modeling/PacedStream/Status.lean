import PacedStream.Flow
import PacedStream.Word

/-!
The view of a buffer from outside at one moment, and a board on which such views are published.
-/

namespace PacedStream
set_option autoImplicit false

structure Status where
  size : Nat := 0
  length : Nat := 0
  blocks : Nat := 0
  bitrate : UInt64 := 0
  enough : UInt64 := 0
  low : UInt64 := 0
  maxSize : Nat := 0
  want : Nat := 0
  /-- What checked words would have ended the view with. -/
  overflow? : Option Overflow := none
  state : Flow.State := .empty
  reference? : Option UInt16 := none
  quantum : Float := 0
deriving BEq

/-- Published views. A handle names a place on the board, and all copies of it see the same view. -/
structure Board where
  places : Array Status := #[]

namespace Board

abbrev Handle := Nat

def add (b : Board) : Board × Handle := ({ places := b.places.push {} }, b.places.size)

def publish (b : Board) (h : Handle) (view : Status) : Board :=
  { places := b.places.setIfInBounds h view }

def latest (b : Board) (h : Handle) : Status := b.places.getD h {}

theorem latest_publish_self {b : Board} {h : Handle} (view : Status) (hh : h < b.places.size) :
    (b.publish h view).latest h = view := by
  simp [latest, publish, hh]

theorem latest_publish_of_ne {b : Board} {h h' : Handle} (view : Status) (hne : h ≠ h') :
    (b.publish h view).latest h' = b.latest h' := by
  simp [latest, publish, hne]

end Board

end PacedStream
