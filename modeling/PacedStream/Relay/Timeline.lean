/-!
Timelines. What happens around a relay is a list of events in the order of time, among which the
ticks of a fixed interval are placed.
-/

namespace PacedStream.Relay
set_option autoImplicit false

variable {σ : Type}

inductive Event (σ : Type) where
  | tick
  | arrive (chunk : List UInt8)
  | close
  | disturb (change : σ → σ)
  | look

/-- The ticks numbered from `k` up to, but not including, `stop`. -/
def ticks (interval k stop : Nat) : List (Nat × Event σ) :=
  (List.range (stop - k)).map fun i => ((k + i) * interval, .tick)

/-- Places the ticks numbered from `k` up to `total` among events in the order of time. An event at
the instant of a tick comes after it. -/
def timeline (interval total : Nat) : Nat → List (Nat × Event σ) → List (Nat × Event σ)
  | k, [] => ticks interval k total
  | k, (instant, event) :: rest =>
    let passed := min (instant / interval + 1) total
    ticks interval k passed ++ (instant, event) :: timeline interval total (max k passed) rest

end PacedStream.Relay
