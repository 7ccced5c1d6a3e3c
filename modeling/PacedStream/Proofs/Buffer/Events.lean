import PacedStream.Buffer.Operation

/-!
What happens to packets in a history: bursts are taken, packets are sent, and now and then the
whole queue is emptied or the receiver comes and goes. A packet is known by the moment at which it
is sent, which is the buffer that has it in front.
-/

namespace PacedStream.Buffer
set_option autoImplicit false

inductive Event where
  | took (burst : List Packet)
  | sent (moment : Buffer)
  | emptied
  | connected (on : Bool)

def Event.delivered : Event → List Packet
  | .sent moment => if moment.delivers then [moment.queue.front] else []
  | _ => []

def Event.accepted : Event → List Packet
  | .took burst => burst
  | _ => []

/-- The whole microseconds of a tick that counts. -/
def counted? (b : Buffer) (now : Int) : Option Nat :=
  match b.lastTick? with
  | none => none
  | some last =>
    match Instant.since? now last with
    | none => none
    | some elapsed =>
      if jumpLimit < elapsed ∨ Span.wholeMicroseconds elapsed = 0 then none
      else some (Span.wholeMicroseconds elapsed)

def jumps (b : Buffer) (now : Int) : Bool :=
  match b.lastTick? with
  | none => false
  | some last =>
    match Instant.since? now last with
    | none => true
    | some elapsed => jumpLimit < elapsed

def givesUp (b : Buffer) (now : Int) : Bool :=
  match b.flow with
  | .underflow since =>
    (b.counted? now).isSome && b.recount.clock.blocks < b.settings.low.toNat &&
      Flow.maxStall < Instant.since now since
  | _ => false

/-- The moment at which one round sends, if it does: after a scan if there is no lead. -/
def moment? (b : Buffer) (now : Int) : Option Buffer :=
  let b := b.spend
  if b.queue.head = b.queue.mark then
    let scan := b.clock.seek b.queue
    if scan.found then some ((b.withScan scan).settle now).buffer else none
  else some b

def sendOff (b : Buffer) : Buffer := { b with queue := b.queue.pop }

def moments (now : Int) : Nat → Buffer → List Buffer
  | 0, _ => []
  | n + 1, b =>
    if b.clock.quantum ≤ b.clock.credit then
      match b.moment? now with
      | none => []
      | some m => m :: moments now n m.sendOff
    else []

def credited (b : Buffer) (now : Int) (microseconds : Nat) : Buffer :=
  let credit := Float.ofNat microseconds * ticksPerMicrosecond
  { b with lastTick? := some now, clock := { b.clock with credit := b.clock.credit + credit } }

/-- The moments at which a tick sends: none unless the tick counts, packets flow and enough blocks
are counted. -/
def departures (b : Buffer) (now : Int) : List Buffer :=
  match b.counted? now with
  | none => []
  | some microseconds =>
    if b.flow = .running ∧ b.settings.low.toNat ≤ b.clock.blocks ∧ ¬ b.clock.quantum ≤ 0 then
      moments now (b.queue.length + 1) (b.credited now microseconds)
    else []

def taking (b : Buffer) (burst : List Packet) : List Event :=
  if burst ≠ [] ∧ (b.offer burst).accepted then [.took burst] else []

def events (b : Buffer) : Operation → List Event
  | .push burst | .offer burst => b.taking burst
  | .pushBytes bytes => b.taking (Packet.frame .empty bytes).packets.toList
  | .tick now =>
    if b.jumps now || b.givesUp now then [.emptied] else (b.departures now).map .sent
  | .reset => [.emptied]
  | .setDelivers on => [.connected on]
  | _ => []

def happened (b : Buffer) (history : List Operation) : List Event := gather after events b history

theorem happened_cons (b : Buffer) (op : Operation) (rest : List Operation) :
    b.happened (op :: rest) = b.events op ++ (b.apply op).buffer.happened rest := rfl

theorem happened_append (b : Buffer) (before after : List Operation) :
    b.happened (before ++ after) = b.happened before ++ (b.run before).happened after :=
  gather_append _ _ b before after

end PacedStream.Buffer
