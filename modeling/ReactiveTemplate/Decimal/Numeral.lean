import ReactiveTemplate.Decimal.Binary

/-!
# Reading decimal numerals

`Numeral.read?` accepts a sign, digits with at most one point, and an exponent. At least one digit
stands before or after the point. Its value is the nearest double; the words for infinity and for
"not a number" are read as well, in any letter case.
-/

namespace ReactiveTemplate.Decimal

/-- The decimal `coefficient · 10 ^ place`, negated if so marked. -/
structure Numeral where
  negative : Bool
  coefficient : Nat
  place : Int
  deriving DecidableEq, Repr

/-- The number written by decimal digits. -/
def ofDigits (digits : List Char) : Nat :=
  digits.foldl (fun n c => 10 * n + (c.toNat - '0'.toNat)) 0

/-- The double nearest to `coefficient · 10 ^ place`. Beyond these bounds it is infinite or zero. -/
def nearestFloat (coefficient : Nat) (place : Int) : Float :=
  let size := (Nat.toDigits 10 coefficient).length + place
  if coefficient = 0 ∨ size < -330 then 0
  else if 310 < size then 1 / 0
  else Float.ofScientific coefficient (place < 0) place.natAbs

namespace Numeral

/-- The nearest double; a negated zero keeps its sign. -/
def toFloat (n : Numeral) : Float :=
  let magnitude := nearestFloat n.coefficient n.place
  if n.negative then -magnitude else magnitude

/-- A sign, if one is written, and the rest. A minus gives `true`. -/
def readSign : List Char → Bool × List Char
  | '-' :: rest => (true, rest)
  | '+' :: rest => (false, rest)
  | cs => (false, cs)

/-- The exponent at the end of a numeral; no exponent is zero. -/
def readExponent? : List Char → Option Int
  | [] => some 0
  | e :: cs =>
    let (negative, digits) := readSign cs
    if (e = 'e' ∨ e = 'E') ∧ digits ≠ [] ∧ digits.all Char.isDigit then
      some (if negative then -(ofDigits digits : Int) else ofDigits digits)
    else none

/-- A numeral without its sign. -/
def readUnsigned? (negative : Bool) (cs : List Char) : Option Numeral :=
  let whole := cs.takeWhile Char.isDigit
  let (fraction, rest) := match cs.dropWhile Char.isDigit with
    | '.' :: rest => (rest.takeWhile Char.isDigit, rest.dropWhile Char.isDigit)
    | rest => ([], rest)
  if whole = [] ∧ fraction = [] then none
  else (readExponent? rest).map fun exponent =>
    ⟨negative, ofDigits (whole ++ fraction), exponent - fraction.length⟩

/-- A whole text as a numeral. -/
def read? (text : List Char) : Option Numeral :=
  let (negative, cs) := readSign text
  readUnsigned? negative cs

end Numeral

/-- A whole text as a double: a numeral, or a word for infinity or for "not a number". -/
def readFloat? (text : List Char) : Option Float :=
  let (negative, cs) := Numeral.readSign text
  let word := String.ofList (cs.map Char.toLower)
  if word = "inf" ∨ word = "infinity" then some (if negative then -1 / 0 else 1 / 0)
  else if word = "nan" then some (0 / 0)
  else (Numeral.readUnsigned? negative cs).map Numeral.toFloat

end ReactiveTemplate.Decimal
