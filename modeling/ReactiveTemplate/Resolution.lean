/-!
# Names that do not resolve
-/

namespace ReactiveTemplate

/-- What kind of name was asked for. -/
inductive NameKind where
  | variable
  | field
  | method
  deriving DecidableEq, Repr

/-- A name that is not in scope, not a field of the data, or not a method. -/
structure ResolutionError where
  kind : NameKind
  name : String
  deriving DecidableEq, Repr

/-- The kind of name and the name. -/
def ResolutionError.message (e : ResolutionError) : String :=
  let what := match e.kind with
    | .variable => "variable"
    | .field => "data field"
    | .method => "method"
  s!"{what} is not defined: {e.name}"

end ReactiveTemplate
