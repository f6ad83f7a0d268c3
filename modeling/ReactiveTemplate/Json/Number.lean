import ReactiveTemplate.Json.Value
import ReactiveTemplate.Decimal.Numeral
import ReactiveTemplate.Json.Fault

/-!
# Reading JSON numbers

Digits are gathered into a significand of at most 64 bits. A number without point and exponent whose
digits all fit is a whole number. Any other is the significand as a double, multiplied or divided by
the power of ten that its point, its exponent and the digits left over call for. That product is
rounded once more, so it need not be the nearest double; a product beyond the doubles is refused.
-/

namespace ReactiveTemplate.Json

open ReactiveTemplate.Decimal

/-- The largest significand. -/
def maxSignificand : Nat := Nat.pow 2 64 - 1

/-- The largest magnitude of an exponent. -/
def maxExponent : Nat := Nat.pow 2 31 - 1

/-- Digits added to a number as long as it does not exceed `limit`: the number, how many digits were
taken, and the rest. -/
def gather (limit : Nat) : (number taken : Nat) → List Char → Nat × Nat × List Char
  | number, taken, [] => (number, taken, [])
  | number, taken, c :: cs =>
    let next := 10 * number + (c.toNat - '0'.toNat)
    if c.isDigit ∧ next ≤ limit then gather limit next (taken + 1) cs else (number, taken, c :: cs)

/-- Whether a digit comes next. -/
def atDigit (cs : List Char) : Bool :=
  cs.head?.any Char.isDigit

/-- A power of ten as the nearest double. -/
def tenTo (n : Nat) : Float :=
  nearestFloat 1 n

/-- A double divided by `10 ^ n`, in steps of at most `10 ^ 308`. -/
def scaleDown (x : Float) (n : Nat) : Float :=
  if n ≤ 308 then x / tenTo n
  else if n ≤ 616 then x / tenTo 308 / tenTo (n - 308)
  else 0

/-- The significand as a double times a power of ten, unless that is beyond the doubles. -/
def scale? (significand : Nat) (exponent : Int) : Option Float :=
  let x := Float.ofNat significand
  if exponent < 0 then some (scaleDown x exponent.natAbs)
  else if significand = 0 then some 0
  else if exponent ≤ 308 then
    let product := x * tenTo exponent.toNat
    if product.isInf then none else some product
  else none

/-- A number read from its parts. -/
def ofParts (negative : Bool) (significand : Nat) (exponent : Int) (rest : List Char) :
    Except Fault (Number × List Char) :=
  match scale? significand exponent with
  | some x => .ok (.float (if negative then -x else x), rest)
  | none => .error (.before .numberOutOfRange rest)

/-- A number from its exponent on, the letter `e` already read. -/
def readExponent (negative : Bool) (significand : Nat) (exponent : Int) (cs : List Char) :
    Except Fault (Number × List Char) :=
  let (down, cs) := Numeral.readSign cs
  match cs with
  | [] => .error (.before .endInValue [])
  | c :: rest =>
    if c.isDigit then
      match gather maxExponent 0 0 (c :: rest) with
      | (size, _, rest) =>
        if atDigit rest then
          if significand ≠ 0 ∧ ¬down then .error (.before .numberOutOfRange (rest.drop 1))
          else .ok (.float (if negative then -0 else 0), rest.dropWhile Char.isDigit)
        else ofParts negative significand (if down then exponent - size else exponent + size) rest
    else .error (.past .invalidNumber (c :: rest))

/-- A number from its exponent on, if it has one. -/
def readScaled (negative : Bool) (significand : Nat) (exponent : Int) (cs : List Char) :
    Except Fault (Number × List Char) :=
  match cs with
  | 'e' :: rest | 'E' :: rest => readExponent negative significand exponent rest
  | _ => ofParts negative significand exponent cs

/-- A number from the digits after its point on. Digits that no longer fit are dropped. -/
def readFraction (negative : Bool) (significand : Nat) (exponent : Int) (cs : List Char) :
    Except Fault (Number × List Char) :=
  match gather maxSignificand significand 0 cs with
  | (significand, taken, rest) =>
    if taken = 0 ∧ ¬atDigit rest then
      .error (.past (if rest.isEmpty then .endInValue else .invalidNumber) rest)
    else readScaled negative significand (exponent - taken) (rest.dropWhile Char.isDigit)

/-- A whole number, unless it is below the least one or a negated zero: then a double. -/
def ofWhole (negative : Bool) (significand : Nat) : Number :=
  if ¬negative then .integer significand
  else if significand = 0 ∨ Nat.pow 2 63 < significand then .float (-(Float.ofNat significand))
  else .integer (-significand)

/-- A number after its sign. -/
def readNumber (negative : Bool) (cs : List Char) : Except Fault (Number × List Char) :=
  match cs with
  | [] => .error (.before .endInValue [])
  | c :: more =>
    if ¬c.isDigit then .error (.past .invalidNumber (c :: more))
    else if c = '0' ∧ atDigit more then .error (.past .invalidNumber more)
    else
      match gather maxSignificand 0 0 (c :: more) with
      | (significand, _, rest) =>
        let left := rest.takeWhile Char.isDigit
        match rest.dropWhile Char.isDigit with
        | '.' :: rest => readFraction negative significand left.length rest
        | 'e' :: rest | 'E' :: rest => readExponent negative significand left.length rest
        | rest =>
          if left.isEmpty then .ok (ofWhole negative significand, rest)
          else ofParts negative significand left.length rest

end ReactiveTemplate.Json
