import ReactiveTemplate.Expression.Token
import ReactiveTemplate.Expression.Tree
import ReactiveTemplate.Json.Reader

/-!
# From tokens to trees

Tokens are taken one by one onto a stack of open parentheses and negations. Binary operators have no
precedence: an operator and its two operands become one operand as soon as the right one is there,
and a negation ends with the next operand. What cannot become a single operand is an error here, so
that evaluation fails only for names.
-/

namespace ReactiveTemplate.Expression

open ReactiveTemplate.Text ReactiveTemplate.Json

/-- A tree with the part of the source it stands for. -/
structure Operand where
  tree : Tree
  span : Span

/-- What a level of the stack has taken so far. -/
inductive Content where
  | empty
  | operand (operand : Operand)
  | pending (left : Operand) (operator : Operator)
  /-- A sequence from `start` on that is no operand, whatever follows. -/
  | broken (start : Nat) (endsInOperator : Bool)

namespace Content

/-- The content with one more operand. -/
def addOperand (added : Operand) : Content → Except Located Content
  | empty => .ok (.operand added)
  | operand first => .ok (.broken first.span.start false)
  | pending left o => .ok (.operand ⟨.binary o left.tree added.tree, left.span.through added.span⟩)
  | broken start false => .ok (.broken start false)
  | broken start true => .error ⟨.incompleteExpression, ⟨start, added.span.stop⟩⟩

/-- The content with one more operator, which covers `span`. -/
def addOperator (o : Operator) (span : Span) : Content → Except Located Content
  | empty => .ok (.broken span.start true)
  | operand left => .ok (.pending left o)
  | broken start false => .ok (.broken start true)
  | pending _ _ | broken _ true => .error ⟨.incompleteExpression, span⟩

/-- The tree of a content that is one operand. -/
def single? : Content → Option Tree
  | operand only => some only.tree
  | _ => none

end Content

/-- The whole expression, and inside it the parentheses and negations that are open. -/
inductive Stack where
  | whole (content : Content)
  | group (openedAt : Nat) (content : Content) (outer : Stack)
  | negation (openedAt : Nat) (outer : Stack)

namespace Stack

/-- The stack with one more operand. A negation ends with it and gives an operand in turn. -/
def addOperand (added : Operand) : Stack → Except Located Stack
  | whole content => do pure (.whole (← content.addOperand added))
  | group openedAt content outer => do pure (.group openedAt (← content.addOperand added) outer)
  | negation openedAt outer => outer.addOperand ⟨.not added.tree, ⟨openedAt, added.span.stop⟩⟩

/-- The stack with one more binary operator. -/
def addOperator (o : Operator) (span : Span) : Stack → Except Located Stack
  | whole content => do pure (.whole (← content.addOperator o span))
  | group openedAt content outer => do pure (.group openedAt (← content.addOperator o span) outer)
  | negation _ _ => .error ⟨.incompleteExpression, span⟩

/-- The stack after a closing parenthesis, which covers `span`. -/
def close (span : Span) : Stack → Except Located Stack
  | whole _ => .error ⟨.unbalancedParenthesis, span⟩
  | group openedAt content outer =>
    match content.single? with
    | some tree => outer.addOperand ⟨tree, ⟨openedAt, span.stop⟩⟩
    | none => .error ⟨.incompleteExpression, ⟨openedAt, span.stop⟩⟩
  | negation openedAt _ => .error ⟨.incompleteExpression, ⟨openedAt, span.stop⟩⟩

/-- The tree of a source that ends at `stop`. -/
def finish (stop : Nat) : Stack → Except Located Tree
  | whole content =>
    match content.single? with
    | some tree => .ok tree
    | none => .error ⟨.incompleteExpression, ⟨0, stop⟩⟩
  | group openedAt _ _ => .error ⟨.unbalancedParenthesis, ⟨openedAt, stop⟩⟩
  | negation openedAt _ => .error ⟨.incompleteExpression, ⟨openedAt, stop⟩⟩

/-- The tree of a value token: a JSON value if it is one, a path otherwise. -/
def valueTree? (text : String) : Option Tree :=
  match Json.read text with
  | .ok value => some (.constant value)
  | .error _ => (Path.ofText? text).map .path

/-- The text between the two quotes of a token. -/
def unquoted (text : String) : String :=
  String.ofList (text.toList.drop 1).dropLast

/-- The stack after one more token. -/
def take (stack : Stack) (token : Token) : Except Located Stack :=
  match token.kind with
  | .mark =>
    if token.text = "(" then .ok (.group token.span.start .empty stack)
    else stack.close token.span
  | .operator =>
    if token.text = "!" then .ok (.negation token.span.start stack)
    else
      match Operator.ofSymbol? token.text with
      | some o => stack.addOperator o token.span
      | none => .error ⟨.unknownOperator token.text, token.span⟩
  | .string => stack.addOperand ⟨.constant (.string (unquoted token.text)), token.span⟩
  | .value =>
    match valueTree? token.text with
    | some tree => stack.addOperand ⟨tree, token.span⟩
    | none => .error ⟨.emptyPath, token.span⟩

end Stack

/-- The tree of tokens whose source ends at `stop`. -/
def treeOf (stop : Nat) (tokens : List Token) : Except Located Tree :=
  if tokens.isEmpty then .error ⟨.emptyExpression, ⟨0, stop⟩⟩
  else do (← tokens.foldlM Stack.take (.whole .empty)).finish stop

end Expression

/-- A source with the tree it was compiled to. -/
structure Expression where
  source : String
  tree : Expression.Tree

namespace Expression

/-- The expression of a source. -/
def compile (source : String) : Except CompileError Expression := do
  let tokens ← tokenize source
  let tree ← (treeOf (Text.byteSize source.toList) tokens).mapError (·.inText source)
  pure ⟨source, tree⟩

/-- The value of an expression in a scope. -/
def eval (e : Expression) (scope : Scope) (resolver : Resolver) : Except ResolutionError Json.Value :=
  e.tree.eval scope resolver

/-- The names that evaluation asks of the resolver. -/
def asked (e : Expression) (scope : Scope) (resolver : Resolver) : List String :=
  e.tree.asked scope resolver

end Expression

end ReactiveTemplate
