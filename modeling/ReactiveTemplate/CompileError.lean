import ReactiveTemplate.Text.Span

/-!
# Errors in templates

A compile error is a fault with the text it lies in and the bytes it covers.
-/

namespace ReactiveTemplate

open Text

/-- What is wrong with an expression or a directive. -/
inductive CompileFault where
  | emptyExpression
  | unexpectedCharacter (character : Char)
  | unterminatedString
  | unknownOperator (symbol : String)
  | unbalancedParenthesis
  | incompleteExpression
  | emptyPath
  | malformedMapping
  | malformedIteration
  | malformedAction
  | unsupportedDirective (name : String)
  deriving DecidableEq, Repr

/-- The wording of a fault. -/
def CompileFault.message : CompileFault → String
  | emptyExpression => "empty expression"
  | unexpectedCharacter character => s!"unexpected character `{character}`"
  | unterminatedString => "unterminated string literal"
  | unknownOperator symbol => s!"unimplemented operator `{symbol}`"
  | unbalancedParenthesis => "unbalanced parentheses"
  | incompleteExpression => "incomplete expression"
  | emptyPath => "empty variable path"
  | malformedMapping => "malformed mapping literal"
  | malformedIteration => "malformed v-for"
  | malformedAction => "malformed event action"
  | unsupportedDirective name => s!"unsupported directive `{name}`"

/-- A fault within a source text. -/
structure CompileError where
  fault : CompileFault
  source : String
  span : Span
  deriving DecidableEq, Repr

/-- The fault and the text it lies in. -/
def CompileError.message (e : CompileError) : String :=
  s!"{e.fault.message} in `{e.source}`"

/-- A fault of a text that is given separately. -/
structure Located where
  fault : CompileFault
  span : Span
  deriving DecidableEq, Repr

/-- The error of a fault located in `source`. -/
def Located.inText (source : String) (l : Located) : CompileError :=
  ⟨l.fault, source, l.span⟩

end ReactiveTemplate
