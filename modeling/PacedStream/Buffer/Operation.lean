import PacedStream.Buffer.Tick
import PacedStream.Buffer.Adjust
import PacedStream.Gather

/-!
Operations on a buffer as data, so that a history of a buffer is a list.
-/

namespace PacedStream.Buffer
set_option autoImplicit false

inductive Operation where
  | push (burst : List Packet)
  | offer (burst : List Packet)
  | pushBytes (bytes : List UInt8)
  | tick (now : Int)
  | reset
  | setThresholds (enough low : UInt64)
  | setMaxSize (megabytes : Nat)
  | setOptions (options : String)
  | setName (name : String)
  | setPid (pid? : Option UInt16)
  | setDelivers (on : Bool)
  | setAsks (on : Bool)

def apply (b : Buffer) : Operation → Step
  | .push burst => b.push burst
  | .offer burst => b.offer burst
  | .pushBytes bytes => b.pushBytes bytes
  | .tick now => b.tick now
  | .reset => b.reset
  | .setThresholds enough low => b.setThresholds enough low
  | .setMaxSize megabytes => b.setMaxSize megabytes
  | .setOptions options => b.setOptions options
  | .setName name => b.setName name
  | .setPid pid? => b.setPid pid?
  | .setDelivers on => { buffer := { b with delivers := on } }
  | .setAsks on => { buffer := { b with asks := on } }

def after (b : Buffer) (op : Operation) : Buffer := (b.apply op).buffer

def run (b : Buffer) (history : List Operation) : Buffer := history.foldl after b

def sent (b : Buffer) (history : List Operation) : List Packet :=
  gather after (fun b op => (b.apply op).sent.toList) b history

def noted (b : Buffer) (history : List Operation) : List Entry :=
  gather after (fun b op => (b.apply op).entries) b history

theorem run_append (b : Buffer) (before after : List Operation) :
    b.run (before ++ after) = (b.run before).run after := List.foldl_append

theorem sent_cons (b : Buffer) (op : Operation) (rest : List Operation) :
    b.sent (op :: rest) = (b.apply op).sent.toList ++ (b.apply op).buffer.sent rest := rfl

theorem sent_append (b : Buffer) (before after : List Operation) :
    b.sent (before ++ after) = b.sent before ++ (b.run before).sent after :=
  gather_append _ _ b before after

end PacedStream.Buffer
