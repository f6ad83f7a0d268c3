import ReactiveTemplate.Json.Value
import ReactiveTemplate.Decimal.Layout
import ReactiveTemplate.Decimal.Numeral
import ReactiveTemplate.Text.Blank

/-!
# Loose readings of JSON values

Templates read any value as a condition, as text and as a number. Text of a number has the fewest
digits and never an exponent; a value without a numeric reading is the double that is not a number.
-/

namespace ReactiveTemplate

namespace Decimal

/-- A magnitude that is a whole number. -/
def Binary.whole? (x : Binary) : Option Nat :=
  if 0 ≤ x.exponent then some (x.mantissa * Nat.pow 2 x.exponent.toNat)
  else if x.mantissa % Nat.pow 2 x.exponent.natAbs = 0 then
    some (x.mantissa / Nat.pow 2 x.exponent.natAbs)
  else none

end Decimal

namespace Json

open Decimal

/-- Doubles are shown with the fewest digits, always positionally; an exact tie goes up. -/
def displayLayout : Layout :=
  ⟨.up, none, false⟩

/-- A whole number with its sign; zero has none. -/
def signedText (negative : Bool) (n : Nat) : String :=
  toString (if negative then -(n : Int) else n)

/-- A number as shown: a whole number below `10 ^ 21` with all its digits. -/
def Number.display : Number → String
  | .integer n => toString n
  | .float x =>
    match Class.ofFloat x with
    | .finite negative magnitude =>
      match magnitude.whole? with
      | some n => if n < Nat.pow 10 21 then signedText negative n else displayLayout.text x
      | none => displayLayout.text x
    | _ => displayLayout.text x

namespace Value

/-- Whether a value holds as a condition: null, `false`, zero and the empty text do not. -/
def truthy : Value → Bool
  | .null => false
  | .bool flag => flag
  | .number n => !(n.toFloat == 0) && !n.toFloat.isNaN
  | .string text => !text.isEmpty
  | .array _ | .object _ => true

mutual

/-- A value as shown in text, class names and styles. -/
def display : Value → String
  | .null => "null"
  | .bool flag => if flag then "true" else "false"
  | .number n => n.display
  | .string text => text
  | .array items => ",".intercalate (displayItems items)
  | .object _ => "[object Object]"

/-- The items of a sequence as shown; a null item is empty. -/
def displayItems : List Value → List String
  | [] => []
  | .null :: rest => "" :: displayItems rest
  | item :: rest => display item :: displayItems rest

end

/-- A double as a value: whole numbers below `2 ^ 53` in their own representation, and null for a
double that is not finite. -/
def ofFloat (x : Float) : Value :=
  match Class.ofFloat x with
  | .finite negative magnitude =>
    match magnitude.whole? with
    | some n =>
      if n < Nat.pow 2 53 then .number (.integer (if negative then -(n : Int) else n))
      else .number (.float x)
    | none => .number (.float x)
  | _ => .null

/-- A text as a number; nothing but blanks is zero. -/
def textToNumber (text : String) : Float :=
  match Text.trim text.toList with
  | [] => 0
  | cs => (readFloat? cs).getD (0 / 0)

/-- A value as a number: a sequence of one item is read as that item, an empty one as zero. -/
def toNumber : Value → Float
  | .null => 0
  | .bool flag => if flag then 1 else 0
  | .number n => n.toFloat
  | .string text => textToNumber text
  | .array [] => 0
  | .array [item] => item.toNumber
  | .array _ | .object _ => 0 / 0

/-- The kind of a value with its article. -/
def kindName : Value → String
  | .null => "null"
  | .bool _ => "a boolean"
  | .number _ => "a number"
  | .string _ => "a string"
  | .array _ => "a sequence"
  | .object _ => "a mapping"

end Value

end Json

end ReactiveTemplate
