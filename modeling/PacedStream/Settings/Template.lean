import PacedStream.Folder

/-!
The settings document written where there is none yet. It names every key, with the values that
hold anyway.
-/

namespace PacedStream.Settings
set_option autoImplicit false

def template : String :=
  String.join ([
    "# tssync Configuration",
    "# This is a template. Replace the values with your actual configuration.",
    "",
    "# Buffer thresholds as \"enough_blocks,low_blocks,max_size_mb\"",
    "buffer = \"10,5,8\"",
    "",
    "# Force the reference PID instead of learning it from the stream",
    "# pcr_pid = 256",
    "",
    "# Name used as log prefix",
    "name = \"sync\""].map (· ++ "\n"))

/-- Writes the template into a vacant place and leaves a file or a folder as it is. -/
def placeTemplate : Folder.Place → Except Folder.Refusal Folder.Place
  | .vacant => .ok (.file template.toUTF8)
  | .refused why => .error why
  | taken => .ok taken

theorem placeTemplate_of_ok {before after : Folder.Place}
    (h : placeTemplate before = .ok after) : placeTemplate after = .ok after := by
  cases before with
  | refused why => cases h
  | vacant => cases h; rfl
  | folder => cases h; rfl
  | file bytes => cases h; rfl

end PacedStream.Settings
