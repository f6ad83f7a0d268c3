import ReactiveTemplate.CompileError
import ReactiveTemplate.Resolution
import ReactiveTemplate.Document.NodeId
import ReactiveTemplate.Markup.Basic

/-!
# Errors of the engine

Compile and markup errors are found while a template is read; resolution and structural errors come
from evaluation and rendering; mount and document errors from the document around a component.
-/

namespace ReactiveTemplate

/-- What does not have the shape it needs. -/
inductive StructuralError where
  /-- A render gave none or several top-level nodes. -/
  | topLevelNodes (count : Nat)
  /-- The source of an iteration is neither a sequence nor a mapping. -/
  | notIterable (expression : String) (found : String)
  /-- The data of a component is not a mapping. -/
  | dataNotMapping (found : String)
  deriving DecidableEq, Repr

/-- The wording of a structural error. -/
def StructuralError.message : StructuralError → String
  | topLevelNodes count => s!"template must render exactly one top-level node, got {count}"
  | notIterable expression found =>
    s!"v-for source `{expression}` is {found}, not a sequence or mapping"
  | dataNotMapping found => s!"component data must be a mapping, got {found}"

/-- Why a component cannot be mounted. -/
inductive MountError where
  /-- No node matches the selector. -/
  | unresolved (selector : String)
  /-- The node is not live. -/
  | stale (node : NodeId)
  /-- The node is the body or does not lie under it. -/
  | unparented (node : NodeId)
  deriving DecidableEq, Repr

/-- The wording of a mount error. -/
def MountError.message : MountError → String
  | unresolved selector => s!"node mounting is invalid: {selector}"
  | stale node => s!"mount node {node.text} is not part of the document"
  | unparented node => s!"mount node {node.text} has no parent in the document to render into"

/-- Any error of the engine. -/
inductive Error where
  | compile (error : CompileError)
  | resolution (error : ResolutionError)
  | structural (error : StructuralError)
  | mount (error : MountError)
  | markup (error : MarkupError)
  | document (error : DocumentError)
  deriving DecidableEq, Repr

namespace Error

/-- The wording of the inner error. -/
def cause : Error → String
  | compile e => e.message
  | resolution e => e.message
  | structural e => e.message
  | mount e => e.message
  | markup e => e.message
  | document e => e.message

/-- The wording of an error, marked as one of the engine. -/
def message (e : Error) : String :=
  "[puny] " ++ e.cause

/-- An error under the name of a file. For errors in a source text it is the first line of the
report, which names the fault alone. -/
def report (file : String) : Error → String
  | compile e => s!"Error: {e.fault.message}\n"
  | markup e => s!"Error: {e.message}\n"
  | e => s!"{file}: {e.message}\n"

end Error

end ReactiveTemplate
