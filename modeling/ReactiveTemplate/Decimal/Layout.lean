import ReactiveTemplate.Decimal.Shortest

/-!
# Laying out decimal digits as text

`Layout` holds the decisions of one way to write numbers: where positional writing ends, whether a
whole number keeps its point, and which way an exact tie between digits goes.
-/

namespace ReactiveTemplate.Decimal

/-- How the digits of a double are written. -/
structure Layout where
  tie : Tie
  /-- The places of the first digit that are written positionally; all of them if absent. -/
  positional : Option (Int × Int)
  /-- A whole number written positionally ends in `.0`. -/
  pointZero : Bool
  deriving DecidableEq, Repr

namespace Layout

/-- Digits with zeros filled in up to or from the point. -/
def positionalText (layout : Layout) (d : Digits) : List Char :=
  let digits := d.digits
  if 0 ≤ d.place then
    digits ++ List.replicate d.place.toNat '0' ++ if layout.pointZero then ['.', '0'] else []
  else if 0 ≤ d.leadingPlace then
    let whole := (d.leadingPlace + 1).toNat
    digits.take whole ++ '.' :: digits.drop whole
  else
    '0' :: '.' :: List.replicate (-d.leadingPlace - 1).toNat '0' ++ digits

/-- One digit, the others after a point, and a signed exponent. -/
def exponentText (d : Digits) : List Char :=
  let place := d.leadingPlace
  let fraction := match d.digits.drop 1 with
    | [] => []
    | rest => '.' :: rest
  d.digits.take 1 ++ fraction ++ 'e' :: (if place < 0 then '-' else '+') :: Nat.toDigits 10 place.natAbs

/-- The digits of a magnitude that is not zero, positionally where the layout says so. -/
def magnitudeText (layout : Layout) (x : Binary) : List Char :=
  let d := Digits.shortest layout.tie x
  match layout.positional with
  | none => layout.positionalText d
  | some (least, most) =>
    if least ≤ d.leadingPlace ∧ d.leadingPlace ≤ most then layout.positionalText d
    else exponentText d

/-- A double as text; zero is laid out as the single digit `0`. -/
def text (layout : Layout) (x : Float) : String :=
  match Class.ofFloat x with
  | .nan => "NaN"
  | .infinite negative => if negative then "-inf" else "inf"
  | .finite negative magnitude =>
    let unsigned :=
      if magnitude.mantissa = 0 then layout.positionalText ⟨0, 0⟩ else layout.magnitudeText magnitude
    String.ofList (if negative then '-' :: unsigned else unsigned)

end Layout

end ReactiveTemplate.Decimal
