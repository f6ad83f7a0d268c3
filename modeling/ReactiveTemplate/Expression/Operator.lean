import ReactiveTemplate.Json.Coercion

/-!
# Binary operators

Nine operators without precedence. Addition joins text as soon as one side is text, a sequence or a
mapping; comparison is alphabetic only between two texts; loose equality converts, strict equality
compares numbers by size and compound values part by part.
-/

namespace ReactiveTemplate.Expression

open ReactiveTemplate.Json

/-- The binary operators. -/
inductive Operator where
  | add
  | subtract
  | less
  | greater
  | both
  | either
  | looseEqual
  | strictEqual
  | strictDiffer
  deriving DecidableEq, Repr

namespace Operator

/-- The operators with their symbols. -/
def table : List (String × Operator) :=
  [("+", add), ("-", subtract), ("<", less), (">", greater), ("&&", both), ("||", either),
    ("==", looseEqual), ("===", strictEqual), ("!==", strictDiffer)]

/-- The operator of a symbol. -/
def ofSymbol? (symbol : String) : Option Operator :=
  table.lookup symbol

/-- The symbol of an operator. -/
def symbol : Operator → String
  | add => "+"
  | subtract => "-"
  | less => "<"
  | greater => ">"
  | both => "&&"
  | either => "||"
  | looseEqual => "=="
  | strictEqual => "==="
  | strictDiffer => "!=="

theorem ofSymbol?_symbol (o : Operator) : ofSymbol? o.symbol = some o := by
  cases o <;> rfl

end Operator

/-- Whether addition takes a value as text. -/
def joins : Value → Bool
  | .string _ | .array _ | .object _ => true
  | _ => false

/-- The sum of two numbers, or the texts of both values one after the other. -/
def add (left right : Value) : Value :=
  if joins left || joins right then .string (left.display ++ right.display)
  else .ofFloat (left.toNumber + right.toNumber)

/-- Whether one value comes before another: alphabetically by code point between two texts, as
numbers otherwise. -/
def less : Value → Value → Bool
  | .string a, .string b => a < b
  | a, b => a.toNumber < b.toNumber

/-- Whether two values are equal as numbers. -/
def numericEqual (left right : Value) : Bool :=
  left.toNumber == right.toNumber

/-- Equality after conversion. Null equals only itself, a compound value equals one that is not
compound if they are shown alike or are equal as numbers. -/
def looseEqual (left right : Value) : Bool :=
  match left, right with
  | .null, .null => true
  | .null, _ | _, .null => false
  | .string a, .string b => a == b
  | .array _, .array _ | .array _, .object _ | .object _, .array _ | .object _, .object _ =>
    left.same right
  | .array _, _ | .object _, _ | _, .array _ | _, .object _ =>
    left.display == right.display || numericEqual left right
  | _, _ => numericEqual left right

mutual

/-- Equality without conversion: numbers by size, compound values part by part. -/
def strictEqual : Value → Value → Bool
  | .null, .null => true
  | .bool a, .bool b => a == b
  | .number a, .number b => a.toFloat == b.toFloat
  | .string a, .string b => a == b
  | .array as, .array bs => as.length == bs.length && strictEqualItems as bs
  | .object as, .object bs => as.length == bs.length && strictEqualMembers as bs
  | _, _ => false

/-- Strict equality place by place, as far as both lists reach. -/
def strictEqualItems : List Value → List Value → Bool
  | a :: as, b :: bs => strictEqual a b && strictEqualItems as bs
  | _, _ => true

/-- Every member of the first list is strictly equal to the member of that name in the second. -/
def strictEqualMembers : List (String × Value) → List (String × Value) → Bool
  | [], _ => true
  | (name, a) :: rest, others =>
    (match others.lookup name with
      | some b => strictEqual a b
      | none => false) && strictEqualMembers rest others

end

/-- The result of an operator; `&&` and `||` give the operand that decides. -/
def Operator.apply (o : Operator) (left right : Value) : Value :=
  match o with
  | .add => Expression.add left right
  | .subtract => .ofFloat (left.toNumber - right.toNumber)
  | .less => .bool (Expression.less left right)
  | .greater => .bool (Expression.less right left)
  | .both => if left.truthy then right else left
  | .either => if left.truthy then left else right
  | .looseEqual => .bool (Expression.looseEqual left right)
  | .strictEqual => .bool (Expression.strictEqual left right)
  | .strictDiffer => .bool (!Expression.strictEqual left right)

end ReactiveTemplate.Expression
