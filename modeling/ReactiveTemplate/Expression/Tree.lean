import ReactiveTemplate.Expression.Operator
import ReactiveTemplate.Expression.Path
import ReactiveTemplate.Json.Writer

/-!
# Expression trees

A tree is built from constants, variable paths, negations and binary operators. `Tree.eval` gives
its value in a scope; the right side of `&&` and `||` is left alone when the left side decides.
`Tree.grouping` shows a tree with all its parentheses.
-/

namespace ReactiveTemplate.Expression

open ReactiveTemplate.Json

/-- The tree of an expression. -/
inductive Tree where
  | constant (value : Value)
  | path (path : Path)
  | not (operand : Tree)
  | binary (operator : Operator) (left right : Tree)

namespace Tree

/-- Whether the left side of an operator is its result, whatever the right side is. -/
def decides (operator : Operator) (left : Value) : Bool :=
  match operator with
  | .both => !left.truthy
  | .either => left.truthy
  | _ => false

/-- The value of a tree, or the first name that does not resolve. -/
def eval (scope : Scope) (resolver : Resolver) : Tree → Except ResolutionError Value
  | constant value => .ok value
  | path p => p.eval scope resolver
  | not operand => do
    let value ← operand.eval scope resolver
    pure (.bool (!value.truthy))
  | binary operator left right => do
    let leftValue ← left.eval scope resolver
    if decides operator leftValue then pure leftValue
    else
      let rightValue ← right.eval scope resolver
      pure (operator.apply leftValue rightValue)

/-- The names that evaluation asks of the resolver, in order; a failing name is the last one. -/
def asked (scope : Scope) (resolver : Resolver) : Tree → List String
  | constant _ => []
  | path p => if (scope.find? p.root).isSome then [] else [p.root]
  | not operand => operand.asked scope resolver
  | binary operator left right =>
    left.asked scope resolver ++
      match left.eval scope resolver with
      | .ok value => if decides operator value then [] else right.asked scope resolver
      | .error _ => []

/-- The roots of all paths from left to right, each one once. -/
def variableNames (tree : Tree) : List String :=
  go tree []
where
  /-- The roots added to those found before. -/
  go : Tree → List String → List String
    | constant _, found => found
    | path p, found => if p.root ∈ found then found else found ++ [p.root]
    | not operand, found => go operand found
    | binary _ left right, found => go right (go left found)

/-- The tree as text with parentheses around every binary operator. -/
def grouping : Tree → String
  | constant (.string text) => "'" ++ text ++ "'"
  | constant value => value.compact
  | path p => p.text
  | not operand => "!" ++ operand.grouping
  | binary operator left right =>
    "(" ++ left.grouping ++ " " ++ operator.symbol ++ " " ++ right.grouping ++ ")"

end Tree

end ReactiveTemplate.Expression
