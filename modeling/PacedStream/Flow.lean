import PacedStream.Time

/-!
The flow of packets out of a queue. It starts when enough blocks are queued, stalls when too few
are left, and is given up after a stall that lasts too long.
-/

namespace PacedStream
set_option autoImplicit false

inductive Flow where
  | empty
  | buffering
  | running
  | underflow (since : Int)
deriving DecidableEq

namespace Flow

inductive State where
  | empty
  | buffering
  | running
  | underflow
deriving DecidableEq

def state : Flow → State
  | .empty => .empty
  | .buffering => .buffering
  | .running => .running
  | .underflow _ => .underflow

def State.text : State → String
  | .empty => "empty"
  | .buffering => "buffering"
  | .running => "running"
  | .underflow => "underflow"

def State.title : State → String
  | .empty => "Empty"
  | .buffering => "Buffering"
  | .running => "Running"
  | .underflow => "Underflow"

def isRunning (f : Flow) : Bool := f.state = .running

inductive Action where
  | hold
  /-- Enough is queued: scan from the front again and let packets flow. -/
  | start
  | run
  | stall
  | resume (stalled : Nat)
  | reset
deriving DecidableEq

def maxStall : Nat := Span.milliseconds 200

/-- The shortest stall that is noted. -/
def notedStall : Nat := Span.milliseconds 5

def feed : Flow → Flow
  | .empty => .buffering
  | f => f

/-- The next state, given the number of queued blocks. A stall ends as soon as blocks are back,
however late. -/
def update (blocks enough low : Nat) (now : Int) : Flow → Flow × Action
  | .empty => (.empty, .hold)
  | .buffering => if enough ≤ blocks then (.running, .start) else (.buffering, .hold)
  | .running => if blocks < low then (.underflow now, .stall) else (.running, .run)
  | .underflow since =>
    let stalled := Instant.since now since
    if low ≤ blocks then (.running, .resume stalled)
    else if maxStall < stalled then (.buffering, .reset)
    else (.underflow since, .hold)

end Flow

end PacedStream
