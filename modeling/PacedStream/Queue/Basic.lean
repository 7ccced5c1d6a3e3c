/-!
A queue in a circle of slots. It runs from `head` to `tail`, a scan of it has come to `mark`, and
one slot stays unused, so that a full queue differs from an empty one. Slots outside the queue keep
what was last written to them.
-/

namespace PacedStream
set_option autoImplicit false

structure Queue (α : Type) where
  slots : Array α
  head : Nat
  mark : Nat
  tail : Nat
  minSize : Nat

namespace Queue

variable {α : Type}

def standardMinSize : Nat := 1365

/-- An empty queue. Two slots are the least that can hold anything. -/
def create [Inhabited α] (size minSize : Nat) : Queue α where
  slots := Array.replicate (max size (max minSize 2)) default
  head := 0
  mark := 0
  tail := 0
  minSize := max minSize 2

def size (q : Queue α) : Nat := q.slots.size

def distance (q : Queue α) (start stop : Nat) : Nat := (stop + q.size - start) % q.size

def length (q : Queue α) : Nat := q.distance q.head q.tail

/-- Queued items that the scan has passed. -/
def scanned (q : Queue α) : Nat := q.distance q.head q.mark

def unscanned (q : Queue α) : Nat := q.distance q.mark q.tail

def room (q : Queue α) : Nat := q.size - q.length - 1

def isEmpty (q : Queue α) : Bool := q.head == q.tail

def next (q : Queue α) (i : Nat) : Nat := if i + 1 = q.size then 0 else i + 1

def slot? (q : Queue α) (i : Nat) : Option α := q.slots[i]?

def slot [Inhabited α] (q : Queue α) (i : Nat) : α := (q.slot? i).getD default

def front [Inhabited α] (q : Queue α) : α := q.slot q.head

def itemsFrom [Inhabited α] (q : Queue α) (i n : Nat) : List α :=
  (List.range n).map fun k => q.slot ((i + k) % q.size)

def toList [Inhabited α] (q : Queue α) : List α := q.itemsFrom q.head q.length

def write (q : Queue α) (a : α) : Queue α :=
  let after := q.next q.tail
  { q with slots := q.slots.setIfInBounds q.tail a, tail := after }

def push? (q : Queue α) (items : List α) : Option (Queue α) :=
  if items.length ≤ q.room then some (items.foldl write q) else none

/-- Drops the front item. A scan that stood there moves with it. -/
def pop (q : Queue α) : Queue α :=
  { q with
    head := q.next q.head
    mark := if q.head = q.mark then q.next q.mark else q.mark }

def pass (q : Queue α) : Queue α := { q with mark := q.next q.mark }

def dropTo (q : Queue α) (i : Nat) : Queue α := { q with head := i }

def rewind (q : Queue α) : Queue α := { q with mark := q.head }

def clear (q : Queue α) : Queue α := { q with head := 0, mark := 0, tail := 0 }

/-- Moves the queue to the first of another number of slots, which the least size bounds from
below. That many slots already are left alone, and too few for the items are refused. -/
def resize? [Inhabited α] (q : Queue α) (size : Nat) : Option (Queue α) :=
  let target := max size q.minSize
  if target = q.size then some q
  else if target ≤ q.length then none
  else some {
    slots := (q.toList ++ List.replicate (target - q.length) default).toArray
    head := 0
    mark := q.scanned
    tail := q.length
    minSize := q.minSize }

def describe (q : Queue α) : String :=
  s!"RingBuffer \x7b size: {q.size}, send: {q.head}, lookahead: {q.mark}, " ++
    s!"recv: {q.tail} \x7d"

end Queue

end PacedStream
