import PacedStream.Journal
import PacedStream.Settings.Options
import PacedStream.Text.Line

/-!
Settings documents. Each line is a comment, nothing, or a key and a value; values may stand in
quotes. Lines act one after another, and a line that is refused is noted and changes nothing.
-/

namespace PacedStream.Settings
set_option autoImplicit false

inductive Line where
  | inert
  | options (value : List Char)
  | pid (value : List Char)
  | name (value : List Char)
deriving DecidableEq

def unquote (value : List Char) : List Char :=
  Text.strip (· == '\'') (Text.strip (· == '"') (Text.trim value))

def Line.ofEntry (key value : List Char) : Line :=
  if key = "buffer".toList then .options value
  else if key = "pcr_pid".toList then .pid value
  else if key = "name".toList ∧ value ≠ [] then .name value
  else .inert

def Line.ofChars (line : List Char) : Line :=
  if line.head? = some '#' then .inert
  else match Text.splitFirst? '=' line with
    | none => .inert
    | some (key, value) => .ofEntry (Text.trim key) (unquote value)

/-- Reads an identifier, in hexadecimal after `0x`. -/
def readPid (value : List Char) : Except Fault UInt16 := do
  let n ← (match Text.trim value with
    | '0' :: 'x' :: digits | '0' :: 'X' :: digits => Numeral.read 16 UInt16.size digits
    | digits => Numeral.read 10 UInt16.size digits).mapError .numeral
  checkPid (UInt16.ofNat n)
  .ok (UInt16.ofNat n)

def withLine (s : Settings) : Line → Except Fault Settings
  | .inert => .ok s
  | .options value => s.withOptions value
  | .pid value => (readPid value).map fun pid => { s with pid? := some pid }
  | .name value => .ok { s with name := String.ofList value }

def applyLine (s : Settings) (raw : List Char) : Settings × List Entry :=
  match s.withLine (.ofChars (Text.trim raw)) with
  | .ok s' => (s', [])
  | .error fault =>
    (s, [{ name := s.name, message := .lineIgnored (String.ofList (Text.trim raw)) fault }])

def applyLines (s : Settings) : List (List Char) → Settings × List Entry
  | [] => (s, [])
  | raw :: rest =>
    let here := s.applyLine raw
    let later := applyLines here.1 rest
    (later.1, here.2 ++ later.2)

def applyText (s : Settings) (text : String) : Settings × List Entry :=
  s.applyLines (Text.lines text.toList)

theorem applyLines_append (s : Settings) (a b : List (List Char)) :
    s.applyLines (a ++ b) = (((s.applyLines a).1.applyLines b).1,
      (s.applyLines a).2 ++ ((s.applyLines a).1.applyLines b).2) := by
  induction a generalizing s with
  | nil => rfl
  | cons raw rest ih =>
    rw [List.cons_append, applyLines, ih]
    simp only [applyLines, List.append_assoc]

end PacedStream.Settings
