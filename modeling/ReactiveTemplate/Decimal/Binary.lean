/-!
# Doubles as binary fractions

A finite double is a sign and a magnitude `mantissa · 2 ^ exponent`. This module reads the two
parts off the bits, and gives the interval of real numbers that round to a magnitude: it is what
decides how few decimal digits identify the double.
-/

namespace ReactiveTemplate.Decimal

/-- The magnitude `mantissa · 2 ^ exponent` of a finite double. -/
structure Binary where
  mantissa : Nat
  exponent : Int
  /-- The neighbour below lies only half as far away as the one above. -/
  narrowBelow : Bool
  deriving DecidableEq, Repr

/-- What the bits of a double stand for. -/
inductive Class where
  | nan
  | infinite (negative : Bool)
  | finite (negative : Bool) (magnitude : Binary)
  deriving DecidableEq, Repr

/-- Bits, from the top: one of sign, eleven of exponent, fifty-two of fraction. -/
def Class.ofBits (bits : Nat) : Class :=
  let negative := Nat.pow 2 63 ≤ bits
  let exponent : Nat := bits / Nat.pow 2 52 % Nat.pow 2 11
  let fraction := bits % Nat.pow 2 52
  if exponent = Nat.pow 2 11 - 1 then
    if fraction = 0 then .infinite negative else .nan
  else if exponent = 0 then
    .finite negative ⟨fraction, -1074, false⟩
  else
    .finite negative ⟨Nat.pow 2 52 + fraction, exponent - 1075, fraction = 0 ∧ 1 < exponent⟩

/-- The class of a double. -/
def Class.ofFloat (x : Float) : Class :=
  .ofBits x.toBits.toNat

/-- Numbers `low ≤ value ≤ high`, all over one positive denominator. -/
structure Interval where
  low : Nat
  value : Nat
  high : Nat
  denominator : Nat
  /-- The ends belong to the interval. -/
  closed : Bool
  deriving DecidableEq, Repr

namespace Interval

/-- The reals that round to a magnitude: half-way to its neighbours, the ends included exactly when
the mantissa is even. -/
def ofBinary (x : Binary) : Interval :=
  let up := Nat.pow 2 (x.exponent - 2).toNat
  { low := (4 * x.mantissa - if x.narrowBelow then 1 else 2) * up
    value := 4 * x.mantissa * up
    high := (4 * x.mantissa + 2) * up
    denominator := Nat.pow 2 (2 - x.exponent).toNat
    closed := x.mantissa % 2 = 0 }

/-- The interval counted in units of `10 ^ place`. -/
def inUnits (i : Interval) (place : Int) : Interval :=
  let up := Nat.pow 10 (-place).toNat
  { i with
    low := i.low * up
    value := i.value * up
    high := i.high * up
    denominator := i.denominator * Nat.pow 10 place.toNat }

/-- Whether a whole number of units lies in the interval. -/
def contains (i : Interval) (units : Nat) : Bool :=
  let point := units * i.denominator
  if i.closed then i.low ≤ point && point ≤ i.high else i.low < point && point < i.high

end Interval

end ReactiveTemplate.Decimal
