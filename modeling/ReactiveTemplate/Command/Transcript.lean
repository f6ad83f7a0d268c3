import ReactiveTemplate.Json.Reader
import ReactiveTemplate.Json.Writer

/-!
# What a command says

A command writes to two channels and ends with a status. It reads files through a function that it is
given, so it can run against a disk or against files held in memory.
-/

namespace ReactiveTemplate.Command

open Json

/-- An error that ends a command, and what caused it. -/
structure Failure where
  message : String
  cause : Option String
  deriving DecidableEq, Repr

/-- A failure on the error channel. -/
def Failure.report (f : Failure) : String :=
  "Error: " ++ f.message ++ (match f.cause with
    | some cause => "\n\nCaused by:\n    " ++ cause
    | none => "") ++ "\n"

/-- What has been written to the output and to the error channel. -/
structure Transcript where
  output : String
  errors : String

/-- What a command leaves behind. -/
structure Outcome where
  status : Nat
  output : String
  errors : String
  deriving DecidableEq, Repr

/-- The text of a file, or why it cannot be read. -/
abbrev FileReader (m : Type → Type) := String → m (Except String String)

/-- A command that reads files in `m`. -/
abbrev Work (m : Type → Type) (α : Type) := ExceptT Failure (StateT Transcript m) α

namespace Work

variable {m : Type → Type} [Monad m]

/-- Writes to the output. -/
def print (text : String) : Work m Unit :=
  modify fun t => { t with output := t.output ++ text }

/-- Writes to the error channel. -/
def complain (text : String) : Work m Unit :=
  modify fun t => { t with errors := t.errors ++ text }

/-- The text of a file. -/
def fileText (files : FileReader m) (name : String) : Work m String := do
  let content ← (files name : m (Except String String))
  match content with
  | .ok text => pure text
  | .error reason => throw ⟨"reading " ++ name, some reason⟩

/-- An argument itself, or the text of the file that it names after an at sign. -/
def readArgument (files : FileReader m) (argument : String) : Work m String :=
  match argument.toList with
  | '@' :: name => fileText files (String.ofList name)
  | _ => pure argument

/-- The members of a JSON object given as an argument of an option. -/
def readObject (files : FileReader m) (option argument : String) : Work m (Dictionary Value) := do
  let text ← readArgument files argument
  match Json.read text with
  | .ok (.object members) => pure members
  | .ok other => throw ⟨option, some ("expected a JSON object, got " ++ other.compact)⟩
  | .error fault => throw ⟨option, some (fault.message text)⟩

end Work

end ReactiveTemplate.Command
