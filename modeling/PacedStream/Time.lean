/-!
Time in whole nanoseconds. An instant is an `Int`, counted from an arbitrary origin and free to go
backwards; a span is a `Nat`.
-/

namespace PacedStream
set_option autoImplicit false

namespace Span

def milliseconds (n : Nat) : Nat := n * 1000000

def seconds (n : Nat) : Nat := n * 1000000000

def wholeMicroseconds (span : Nat) : Nat := span / 1000

def wholeMilliseconds (span : Nat) : Nat := span / 1000000

/-- Writes `n / 10 ^ places` exactly, without trailing zeros. -/
def decimal (n places : Nat) : String :=
  let digits := Nat.toDigits 10 (n % Nat.pow 10 places)
  let fraction := List.replicate (places - digits.length) '0' ++ digits
  let shown := (fraction.reverse.dropWhile (· == '0')).reverse
  if n % Nat.pow 10 places = 0 then s!"{n / Nat.pow 10 places}"
  else s!"{n / Nat.pow 10 places}." ++ String.ofList shown

/-- A span in the largest unit of which it holds at least one. -/
def text (span : Nat) : String :=
  if 1000000000 ≤ span then decimal span 9 ++ "s"
  else if 1000000 ≤ span then decimal span 6 ++ "ms"
  else if 1000 ≤ span then decimal span 3 ++ "µs"
  else decimal span 0 ++ "ns"

end Span

namespace Instant

/-- The span since an earlier instant; none if that instant lies ahead. -/
def since? (now earlier : Int) : Option Nat :=
  if earlier ≤ now then some (now - earlier).toNat else none

def since (now earlier : Int) : Nat := (now - earlier).toNat

theorem since?_eq_some_iff {now earlier : Int} {span : Nat} :
    since? now earlier = some span ↔ now = earlier + span := by
  unfold since?
  split <;> simp <;> omega

end Instant

end PacedStream
