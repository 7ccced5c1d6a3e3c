import PacedStream.Text.Combining
import PacedStream.Text.Hidden

/-!
Quoted text. Quotes, backslashes and the common controls are escaped by a letter; every other
character that cannot be shown alone is written by its number.
-/

namespace PacedStream.Text
set_option autoImplicit false

def escape (c : Char) : List Char :=
  match c with
  | '\x00' => ['\\', '0']
  | '\t' => ['\\', 't']
  | '\n' => ['\\', 'n']
  | '\r' => ['\\', 'r']
  | '"' => ['\\', '"']
  | '\\' => ['\\', '\\']
  | c =>
    if isHidden c || isCombining c then
      ['\\', 'u', '\x7b'] ++ Nat.toDigits 16 c.toNat ++ ['\x7d']
    else [c]

def quoted (s : String) : String :=
  String.ofList ('"' :: s.toList.flatMap escape ++ ['"'])

end PacedStream.Text
