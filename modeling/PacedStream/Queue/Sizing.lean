import PacedStream.Journal
import PacedStream.Queue.Basic

/-!
The number of slots of a queue: doubled on demand up to a greatest one, and halved again from time
to time while most of them are unused.
-/

namespace PacedStream
set_option autoImplicit false

structure Sizing where
  maxSize : Nat
  lastHalving? : Option Int := none
deriving DecidableEq

namespace Sizing

variable {α : Type} [Inhabited α]

def halvingInterval : Nat := Span.seconds 10

structure Growth (α : Type) where
  queue : Queue α
  enough : Bool
  log : List Message := []

def grow (maxSize count : Nat) : Nat → Queue α → Growth α
  | 0, q => { queue := q, enough := count ≤ q.room }
  | n + 1, q =>
    if count ≤ q.room then { queue := q, enough := true }
    else if maxSize ≤ q.size then { queue := q, enough := false }
    else match q.resize? (min (q.size * 2) maxSize) with
      | none => { queue := q, enough := false }
      | some larger =>
        let growth := grow maxSize count n larger
        { growth with log := .grown larger.size :: growth.log }

/-- Doubles until `count` items fit or the greatest size is reached. Every doubling adds a slot,
so the slots still allowed bound their number. -/
def makeRoom (s : Sizing) (q : Queue α) (count : Nat) : Growth α :=
  grow s.maxSize count (s.maxSize - q.size) q

/-- The halved queue, if less than a quarter is in use and the least size allows it. -/
def halved? (q : Queue α) : Option (Queue α) :=
  if q.length < q.size / 4 ∧ q.minSize < q.size then q.resize? (q.size / 2) else none

/-- Halving falls due when the interval is over; the first consideration only starts it. -/
def isDue (s : Sizing) (now : Int) : Bool :=
  match s.lastHalving? with
  | none => false
  | some last => halvingInterval ≤ Instant.since now last

def consider (s : Sizing) (now : Int) : Sizing :=
  if s.lastHalving?.isNone ∨ s.isDue now then { s with lastHalving? := some now } else s

def halve? (s : Sizing) (q : Queue α) (now : Int) : Option (Queue α) :=
  if s.isDue now then halved? q else none

def reset (s : Sizing) : Sizing := { s with lastHalving? := none }

end Sizing

end PacedStream
