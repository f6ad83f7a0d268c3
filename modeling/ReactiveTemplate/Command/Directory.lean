import ReactiveTemplate.Dictionary

/-!
# Files in memory

A directory is given by the paths of its files from there and their contents. A path is walked from
component to component; a file ends the walk, so nothing may follow it, not even a dot or a slash.
-/

namespace ReactiveTemplate.Command

/-- Contents of files under their relative paths. -/
abbrev Directory := Dictionary String

namespace Directory

/-- Why a path does not lead to a file. -/
inductive Fault where
  | missing
  | throughFile
  | directory
  | nameTooLong
  deriving DecidableEq, Repr

/-- The wording of a fault, with its number. -/
def Fault.message : Fault → String
  | missing => "No such file or directory (os error 2)"
  | throughFile => "Not a directory (os error 20)"
  | directory => "Is a directory (os error 21)"
  | nameTooLong => "File name too long (os error 36)"

/-- The bytes that a name in a directory may have. -/
def nameLimit : Nat := 255

/-- The bytes that a whole path may have. -/
def pathLimit : Nat := 4095

/-- The device that can always be read and holds nothing. -/
def emptyDevice : String := "/dev/null"

/-- What stands between the slashes of a path. -/
def components (path : String) : List String :=
  (path.toList.splitOnP (· == '/')).map String.ofList

/-- The names along the path of a file. -/
def names (path : String) : List String :=
  (components path).filter fun name => name ≠ "" ∧ name ≠ "."

/-- Where a walk along a path has come to. -/
inductive Place where
  /-- The directory that names lead to from the given one. -/
  | inside (along : List String)
  /-- A directory outside the given one, of whose contents nothing is known. -/
  | outside
  | file (text : String)
  deriving DecidableEq, Repr

/-- The place of a name in a directory. -/
def entry (d : Directory) (along : List String) (name : String) : Except Fault Place :=
  let along := along ++ [name]
  match d.find? fun (file, _) => names file == along with
  | some (_, text) => .ok (.file text)
  | none =>
    if d.any fun (file, _) => along.isPrefixOf (names file) then .ok (.inside along)
    else .error .missing

/-- The place after one more component: nothing and a dot stay, two dots go up. -/
def step (d : Directory) (place : Place) (component : String) : Except Fault Place :=
  match place with
  | .file _ => .error .throughFile
  | .outside =>
    if component = "" ∨ component = "." ∨ component = ".." then .ok .outside
    else if nameLimit < component.utf8ByteSize then .error .nameTooLong
    else .error .missing
  | .inside along =>
    if component = "" ∨ component = "." then .ok place
    else if component = ".." then
      .ok (if along = [] then .outside else .inside along.dropLast)
    else if nameLimit < component.utf8ByteSize then .error .nameTooLong
    else d.entry along component

/-- The place that a path leads to; a path that starts with a slash leaves the directory. -/
def walk (d : Directory) (path : String) : Except Fault Place :=
  let start : Place := if path.toList.head? = some '/' then .outside else .inside []
  (components path).foldlM d.step start

/-- The content of the file that a path leads to. -/
def content (d : Directory) (path : String) : Except Fault String :=
  if path.isEmpty then .error .missing
  else if pathLimit < path.utf8ByteSize then .error .nameTooLong
  else if path = emptyDevice then .ok ""
  else do
    match ← d.walk path with
    | .file text => pure text
    | .inside _ | .outside => throw .directory

end Directory

end ReactiveTemplate.Command
