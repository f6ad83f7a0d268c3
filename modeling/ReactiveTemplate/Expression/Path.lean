import ReactiveTemplate.Scope
import ReactiveTemplate.Resolution
import ReactiveTemplate.Text.Blank
import ReactiveTemplate.Decimal.Numeral

/-!
# Variable paths

A path is the name of a variable and steps into its value, by key or by index. In text, dots and
brackets separate the parts and empty parts count for nothing. A step that leads nowhere gives null.
-/

namespace ReactiveTemplate.Expression

open ReactiveTemplate.Json ReactiveTemplate.Text

/-- One step into a value. -/
inductive Step where
  | key (name : String)
  | index (n : Nat)
  deriving DecidableEq, Repr

/-- A variable and the steps into its value. -/
structure Path where
  root : String
  steps : List Step
  deriving DecidableEq, Repr

namespace Step

/-- The largest index. -/
def maxIndex : Nat := Nat.pow 2 64 - 1

/-- A part as an index: decimal digits, after a plus sign if one is written. -/
def index? (part : List Char) : Option Nat :=
  let digits := match part with
    | '+' :: rest => rest
    | _ => part
  let n := Decimal.ofDigits digits
  if digits ≠ [] ∧ digits.all Char.isDigit ∧ n ≤ maxIndex then some n else none

/-- A part as a step. -/
def ofPart (part : List Char) : Step :=
  match index? part with
  | some n => .index n
  | none => .key (String.ofList part)

/-- A step as written in a path. -/
def text : Step → String
  | key name => "." ++ name
  | index n => "[" ++ toString n ++ "]"

/-- The part of a value that a step leads to. Sequences and texts have a `length`; the characters of
a text are texts. -/
def apply (value : Value) (step : Step) : Value :=
  match value, step with
  | .array items, .index n => items[n]?.getD .null
  | .array items, .key name => if name = "length" then .ofNat items.length else .null
  | .string text, .key name => if name = "length" then .ofNat text.length else .null
  | .string text, .index n =>
    match text.toList[n]? with
    | some c => .string (String.singleton c)
    | none => .null
  | .object members, .key name => (members.lookup name).getD .null
  | .object members, .index n => (members.lookup (toString n)).getD .null
  | _, _ => .null

end Step

namespace Path

/-- The characters between the parts of a path. -/
def isSeparator (c : Char) : Bool :=
  c == '.' || c == '[' || c == ']'

/-- The parts of a path, without blanks around them. -/
def parts (text : String) : List (List Char) :=
  ((text.toList.splitOnP isSeparator).map trim).filter (· ≠ [])

/-- A text as a path; it needs one part at least. -/
def ofText? (text : String) : Option Path :=
  match parts text with
  | [] => none
  | root :: rest => some ⟨String.ofList root, rest.map Step.ofPart⟩

/-- A path as text. -/
def text (p : Path) : String :=
  p.root ++ String.join (p.steps.map Step.text)

/-- The value of a path; its variable has to resolve, its steps need not. -/
def eval (p : Path) (scope : Scope) (resolver : Resolver) : Except ResolutionError Value :=
  match scope.resolve resolver p.root with
  | some value => .ok (p.steps.foldl Step.apply value)
  | none => .error ⟨.variable, p.root⟩

end Path

end ReactiveTemplate.Expression
