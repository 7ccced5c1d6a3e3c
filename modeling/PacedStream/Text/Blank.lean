import PacedStream.Text.Ranges

/-!
Blank characters, and stripping a class of characters from both ends of a text. A character is
blank when it has the property White_Space.
-/

namespace PacedStream.Text
set_option autoImplicit false

/-- The ranges of White_Space. -/
def blankRanges : List (Nat × Nat) :=
  [(0x09, 0x0d), (0x20, 0x20), (0x85, 0x85), (0xa0, 0xa0), (0x1680, 0x1680), (0x2000, 0x200a),
   (0x2028, 0x2029), (0x202f, 0x202f), (0x205f, 0x205f), (0x3000, 0x3000)]

def isBlank (c : Char) : Bool := inRanges blankRanges c

def dropEnd (p : Char → Bool) (cs : List Char) : List Char :=
  (cs.reverse.dropWhile p).reverse

def strip (p : Char → Bool) (cs : List Char) : List Char :=
  dropEnd p (cs.dropWhile p)

@[simp] theorem strip_nil (p : Char → Bool) : strip p [] = [] := rfl

def trim (cs : List Char) : List Char := strip isBlank cs

end PacedStream.Text
