import PacedStream.Settings.Document

/-!
Settings found at start: the standard ones, then the first document that can be read, then the
variables of the environment. Whatever is refused is noted and skipped.
-/

namespace PacedStream.Settings
set_option autoImplicit false

/-- Where documents are looked for, the first one first. -/
def documentPaths : List String := ["./tssync.toml", "./tssync_config.toml"]

def optionsVariable : String := "TSSYNC_BUFFER"

def pidVariable : String := "TSSYNC_PCR_PID"

def nameVariable : String := "TSSYNC_NAME"

/-- Keeps the settings if a change is refused, and notes the variable that asked for it. -/
def override (s : Settings) (source : String) : Except Fault Settings → Settings × List Entry
  | .ok s' => (s', [])
  | .error fault => (s, [{ name := s.name, message := .overrideIgnored source fault }])

def applyOptions (s : Settings) : Option String → Settings × List Entry
  | none => (s, [])
  | some value => s.override optionsVariable (s.withOptions value.toList)

def applyPid (s : Settings) : Option String → Settings × List Entry
  | none => (s, [])
  | some value =>
    s.override pidVariable ((readPid value.toList).map fun pid => { s with pid? := some pid })

def applyName (s : Settings) : Option String → Settings
  | none => s
  | some value => if value.isEmpty then s else { s with name := value }

def document? (file : String → Option ByteArray) : Option String :=
  documentPaths.findSome? fun path => (file path).bind String.fromUTF8?

def load (file : String → Option ByteArray) (environment : String → Option String) :
    Settings × List Entry :=
  let read := match document? file with
    | none => (standard, [])
    | some text => standard.applyText text
  let sized := read.1.applyOptions (environment optionsVariable)
  let pinned := sized.1.applyPid (environment pidVariable)
  (pinned.1.applyName (environment nameVariable), read.2 ++ sized.2 ++ pinned.2)

end PacedStream.Settings
