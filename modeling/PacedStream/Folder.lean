/-!
A folder of files, and the place that a path leads to. The folder is also the root of its paths,
so the step up from it stays there.
-/

namespace PacedStream
set_option autoImplicit false

/-- Files with their bytes and folders with nothing, each under the names that lead to it. -/
structure Folder where
  entries : List (List String × Option ByteArray)

namespace Folder

inductive Refusal where
  | missing
  | notFolder
  | isFolder
  | nameTooLong
  | invalid
deriving DecidableEq

inductive Place where
  | folder
  | file (bytes : ByteArray)
  | vacant
  | refused (why : Refusal)

def maxName : Nat := 255

def maxPath : Nat := 4095

/-- Slashes side by side count as one. -/
def names (path : String) : List String := (path.splitOn "/").filter (· ≠ "")

def ofList (entries : List (String × Option ByteArray)) : Folder :=
  ⟨entries.map fun (path, content) => ((names path).filter (· ≠ "."), content)⟩

/-- What stands under the names. A folder is there if something stands below it. -/
def entry (f : Folder) (here : List String) (name : String) : Place :=
  match f.entries.lookup (here ++ [name]) with
  | some (some bytes) => .file bytes
  | some none => .folder
  | none =>
    if f.entries.any fun e => (here ++ [name]).isPrefixOf e.1 then .folder
    else if name.utf8ByteSize ≤ maxName then .vacant
    else .refused .nameTooLong

def walk (f : Folder) : List String → List String → Except Refusal (List String)
  | here, [] => .ok here
  | here, "." :: rest => f.walk here rest
  | here, ".." :: rest => f.walk here.dropLast rest
  | here, name :: rest =>
    match f.entry here name with
    | .folder => f.walk (here ++ [name]) rest
    | .file _ => .error .notFolder
    | .vacant => .error .missing
    | .refused why => .error why

/-- What the last name of a path stands for. A slash behind it asks for a folder, and writing
makes none. -/
def last (f : Folder) (here : List String) (name : String) (slash : Bool) : Place :=
  if name = "." ∨ name = ".." then .folder
  else match f.entry here name with
    | .folder => .folder
    | found => if slash then .refused .isFolder else found

def place (f : Folder) (path : String) : Place :=
  if path.isEmpty then .refused .missing
  else if path.contains '\x00' then .refused .invalid
  else if maxPath < path.utf8ByteSize then .refused .nameTooLong
  else match (names path).getLast? with
    | none => .folder
    | some name =>
      match f.walk [] (names path).dropLast with
      | .error why => .refused why
      | .ok here => f.last here name (path.endsWith "/")

def read? (f : Folder) (path : String) : Option ByteArray :=
  match f.place path with
  | .file bytes => some bytes
  | _ => none

end Folder

end PacedStream
