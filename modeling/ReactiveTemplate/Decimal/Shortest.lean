import ReactiveTemplate.Decimal.Binary

/-!
# The fewest digits that read back

Among all decimals that round to a given magnitude, `Digits.shortest` takes one with the fewest
digits and, among those, the nearest. The search walks the decimal grids from coarse to fine; on
each grid only the two neighbours of the value can be nearest, so only they are tested.
-/

namespace ReactiveTemplate.Decimal

/-- The decimal `coefficient · 10 ^ place`. -/
structure Digits where
  coefficient : Nat
  place : Int
  deriving DecidableEq, Repr

/-- Which of two equally near decimals is taken. -/
inductive Tie where
  | up
  | toEven
  deriving DecidableEq, Repr

/-- Zeros after the point before the first other digit of `numerator / denominator`, at most `fuel`. -/
def leadingZeros (denominator : Nat) : (fuel numerator : Nat) → Nat
  | 0, _ => 0
  | fuel + 1, numerator =>
    if denominator ≤ numerator * 10 then 0 else leadingZeros denominator fuel (numerator * 10) + 1

namespace Interval

/-- The number `p` for which the value lies between `10 ^ (p - 1)` and `10 ^ p`. -/
def wholePlaces (i : Interval) : Int :=
  if i.denominator ≤ i.value then (Nat.toDigits 10 (i.value / i.denominator)).length
  else -leadingZeros i.denominator 400 i.value

/-- The whole number of units in the interval that is nearest to its value, if there is one. -/
def nearest (tie : Tie) (i : Interval) : Option Nat :=
  let below := i.value / i.denominator
  let above := below + 1
  if i.contains below then
    if i.contains above then
      match compare (2 * i.value) ((below + above) * i.denominator) with
      | .lt => some below
      | .gt => some above
      | .eq => some (if tie = .toEven ∧ below % 2 = 0 then below else above)
    else some below
  else if i.contains above then some above else none

end Interval

namespace Digits

/-- The same decimal with no zero at the end of its coefficient, dropping at most `fuel` zeros. -/
def trim : (fuel : Nat) → Digits → Digits
  | 0, d => d
  | fuel + 1, d =>
    if d.coefficient ≠ 0 ∧ d.coefficient % 10 = 0 then
      trim fuel ⟨d.coefficient / 10, d.place + 1⟩
    else d

/-- The fewest digits that read back to a magnitude, the nearest of these. Seventeen always do. -/
def shortest (tie : Tie) (x : Binary) : Digits :=
  let i := Interval.ofBinary x
  let places := i.wholePlaces
  let found := (List.range 17).findSome? fun more =>
    let place := places - (more + 1 : Nat)
    ((i.inUnits place).nearest tie).map fun units => (⟨units, place⟩ : Digits)
  trim 17 (found.getD ⟨0, 0⟩)

/-- The digits of the coefficient, first to last. -/
def digits (d : Digits) : List Char :=
  Nat.toDigits 10 d.coefficient

/-- The power of ten of the first digit. -/
def leadingPlace (d : Digits) : Int :=
  d.place + (d.digits.length - 1 : Nat)

end Digits

end ReactiveTemplate.Decimal
