import ReactiveTemplate.Json.Coercion
import ReactiveTemplate.Proofs.Decimal.Doubles

/-!
# Numbers that look alike

Numbers of both representations are compared as doubles. Those that compare as equal look alike if they are
also the same whole number, or if neither is whole.
-/

namespace ReactiveTemplate.Json

open ReactiveTemplate.Decimal

/-! ### Zeros -/

/-- The two zeros differ in their signs alone. -/
theorem Class.ofFloat_zero : Class.ofFloat 0 = .finite false ⟨0, -1074, false⟩ ∧
    Class.ofFloat (-0) = .finite true ⟨0, -1074, false⟩ := by
  decide

/-- Zero is a whole number. -/
theorem Binary.whole?_zero (exponent : Int) (narrow : Bool) :
    (⟨0, exponent, narrow⟩ : Binary).whole? = some 0 := by
  rw [Binary.whole?]
  split <;> simp

/-- A magnitude of zero is shown as zero. -/
theorem Number.display_of_zero {x : Float} {negative narrow : Bool} {exponent : Int}
    (h : Class.ofFloat x = .finite negative ⟨0, exponent, narrow⟩) : (Number.float x).display = "0" := by
  have hbelow : 0 < Nat.pow 10 21 := Nat.pow_pos (by decide)
  rw [Number.display]
  simp only [h, Binary.whole?_zero, if_pos hbelow]
  cases negative <;> rfl

/-- A magnitude of zero is the whole number zero as a value. -/
theorem Value.ofFloat_of_zero {x : Float} {negative narrow : Bool} {exponent : Int}
    (h : Class.ofFloat x = .finite negative ⟨0, exponent, narrow⟩) : Value.ofFloat x = .number (.integer 0) := by
  have hbelow : 0 < Nat.pow 2 53 := Nat.pow_pos (by decide)
  rw [Value.ofFloat]
  simp only [h, Binary.whole?_zero, if_pos hbelow]
  cases negative <;> rfl

/-- Doubles that are the same are shown alike. -/
theorem Number.display_congr {x y : Float} (h : SameFloat x y) :
    (Number.float x).display = (Number.float y).display := by
  refine h.congr (f := fun z => (Number.float z).display) ?_
  exact (display_of_zero Class.ofFloat_zero.1).trans (display_of_zero Class.ofFloat_zero.2).symm

/-- Doubles that are the same make the same value. -/
theorem Value.ofFloat_congr {x y : Float} (h : SameFloat x y) : Value.ofFloat x = Value.ofFloat y := by
  refine h.congr ?_
  exact (ofFloat_of_zero Class.ofFloat_zero.1).trans (ofFloat_of_zero Class.ofFloat_zero.2).symm

namespace Number

/-- Whether a number is represented as a whole number. -/
def isInteger : Number → Bool
  | integer _ => true
  | float _ => false

/-- The whole number that a number is. -/
def whole? : Number → Option Int
  | integer n => some n
  | float x =>
    match Class.ofFloat x with
    | .finite negative magnitude => magnitude.whole?.map fun (n : Nat) => if negative then -(n : Int) else n
    | _ => none

/-- Whole numbers lie between the least signed and the largest unsigned one of 64 bits. -/
def WellFormed : Number → Prop
  | integer n => -(Nat.pow 2 63 : Int) ≤ n ∧ n < (Nat.pow 2 64 : Int)
  | float _ => True

/-- Numbers that are one number, and shown as one. -/
inductive Alike : Number → Number → Prop where
  | integer (n : Int) : Alike (.integer n) (.integer n)
  | float {x y : Float} (h : SameFloat x y) : Alike (.float x) (.float y)
  | left {n : Int} {x : Float} (h : SameFloat (Float.ofInt n) x)
      (hdisplay : (Number.float x).display = toString n) : Alike (.integer n) (.float x)
  | right {n : Int} {x : Float} (h : SameFloat x (Float.ofInt n))
      (hdisplay : (Number.float x).display = toString n) : Alike (.float x) (.integer n)

/-- A number is like itself. -/
theorem Alike.refl (a : Number) : Alike a a := by
  cases a with
  | integer n => exact .integer n
  | float x => exact .float (.refl x)

/-- Numbers that are alike are the same double. -/
theorem Alike.toFloat {a b : Number} (h : Alike a b) : SameFloat a.toFloat b.toFloat := by
  cases h with
  | integer n => exact .refl _
  | float h => exact h
  | left h _ => exact h
  | right h _ => exact h

/-- Numbers that are alike are shown alike. -/
theorem Alike.display {a b : Number} (h : Alike a b) : a.display = b.display := by
  cases h with
  | integer n => rfl
  | float h => exact display_congr h
  | left _ hdisplay => exact hdisplay.symm
  | right _ hdisplay => exact hdisplay

/-- A whole double within bounds is shown as the whole number. -/
theorem display_of_whole? {x : Float} {n : Int} (h : (Number.float x).whole? = some n)
    (hn : (Number.integer n).WellFormed) : (Number.float x).display = toString n := by
  rw [whole?] at h
  rw [Number.display]
  cases hclass : Class.ofFloat x with
  | finite negative magnitude =>
    rw [hclass] at h
    obtain ⟨m, hm, rfl⟩ := Option.map_eq_some_iff.mp h
    have hbound : m < Nat.pow 10 21 := by
      have hpow63 : Nat.pow 2 63 = 9223372036854775808 := rfl
      have hpow64 : Nat.pow 2 64 = 18446744073709551616 := rfl
      have hpow21 : Nat.pow 10 21 = 1000000000000000000000 := rfl
      rw [WellFormed, hpow63, hpow64] at hn
      rw [hpow21]
      split at hn <;> omega
    simp only [hm, if_pos hbound, signedText]
  | nan =>
    rw [hclass] at h
    cases h
  | infinite negative =>
    rw [hclass] at h
    cases h

/-- Numbers that compare as equal and are the same whole number, if they are whole, are alike. -/
theorem alike_of_beq {a b : Number} (ha : a.WellFormed) (hb : b.WellFormed)
    (hequal : (a.toFloat == b.toFloat) = true) (hwhole : a.whole? = b.whole?) : Alike a b := by
  have hsame := SameFloat.of_beq hequal
  cases a with
  | integer n =>
    cases b with
    | integer m =>
      obtain rfl : n = m := Option.some.inj hwhole
      exact .integer n
    | float x => exact .left hsame (display_of_whole? hwhole.symm ha)
  | float x =>
    cases b with
    | integer m => exact .right hsame (display_of_whole? hwhole hb)
    | float y => exact .float hsame

/-- Numbers that are alike, and represented alike if it matters. -/
def Closely (exact : Prop) (a b : Number) : Prop :=
  a.Alike b ∧ (exact → a.isInteger = b.isInteger)

/-- Numbers that are alike and represented alike are the same to any other. -/
theorem Closely.same {exact : Prop} (hexact : exact) {a a' b b' : Number} (ha : Closely exact a a')
    (hb : Closely exact b b') : a.same b = a'.same b' := by
  obtain ⟨ha, haInteger⟩ := ha
  obtain ⟨hb, hbInteger⟩ := hb
  cases ha with
  | integer n =>
    cases hb with
    | integer m => rfl
    | float _ => rfl
    | _ => cases hbInteger hexact
  | float hx =>
    cases hb with
    | integer m => rfl
    | float hy => exact hx.beq hy
    | _ => cases hbInteger hexact
  | _ => cases haInteger hexact

end Number

end ReactiveTemplate.Json
