/-!
Unsigned numerals. Digits are read from left to right and the first one that fails decides the
fault; a single leading plus sign is allowed in front of a digit.
-/

namespace PacedStream.Numeral
set_option autoImplicit false

inductive Fault where
  | empty
  | invalidDigit
  | overflow
deriving DecidableEq

def Fault.text : Fault → String
  | .empty => "cannot parse integer from empty string"
  | .invalidDigit => "invalid digit found in string"
  | .overflow => "number too large to fit in target type"

def digit? (radix : Nat) (c : Char) : Option Nat :=
  let d :=
    if '0' ≤ c ∧ c ≤ '9' then c.toNat - '0'.toNat
    else if 'a' ≤ c ∧ c ≤ 'z' then c.toNat - 'a'.toNat + 10
    else if 'A' ≤ c ∧ c ≤ 'Z' then c.toNat - 'A'.toNat + 10
    else radix
  if d < radix then some d else none

def readDigits (radix limit : Nat) (acc : Nat) : List Char → Except Fault Nat
  | [] => .ok acc
  | c :: cs =>
    match digit? radix c with
    | none => .error .invalidDigit
    | some d =>
      if acc * radix + d < limit then readDigits radix limit (acc * radix + d) cs
      else .error .overflow

/-- Reads a number below `limit`. A sign alone is no number, and a second sign is no digit. -/
def read (radix limit : Nat) : List Char → Except Fault Nat
  | [] => .error .empty
  | '+' :: c :: cs => readDigits radix limit 0 (c :: cs)
  | cs => readDigits radix limit 0 cs

/-- Lower-case hexadecimal after `0x`, with at least `width` digits. -/
def hex (width n : Nat) : String :=
  let digits := Nat.toDigits 16 n
  "0x" ++ String.ofList (List.replicate (width - digits.length) '0' ++ digits)

end PacedStream.Numeral
