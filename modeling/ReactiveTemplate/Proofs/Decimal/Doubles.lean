import Mathlib
import ReactiveTemplate.Decimal.Binary

/-!
# Doubles that no comparison tells apart

Two doubles compare as equal if they are the same or if both are zeros, which may differ in their signs.
Sums, differences and comparisons do not tell such doubles apart either, but for the sign of a zero.
-/

namespace ReactiveTemplate.Decimal

open Float.Model Float.Model.UnpackedFloat

/-! ### The number that bits stand for -/

/-- Sign, exponent and mantissa make up the bits. -/
theorem eq_of_parts {b c : BitVec Format.binary64.numBits} (hsign : unpackSign b = unpackSign c)
    (hexponent : unpackExponent b = unpackExponent c) (hmantissa : unpackMantissa b = unpackMantissa c) :
    b = c := by
  have hsign := congrArg BitVec.toNat hsign
  have hexponent := congrArg BitVec.toNat hexponent
  have hmantissa := congrArg BitVec.toNat hmantissa
  simp only [unpackSign, unpackExponent, unpackMantissa, BitVec.toNat_cast, BitVec.extractLsb_toNat,
    Nat.shiftRight_eq_div_pow] at hsign hexponent hmantissa
  have hb := b.isLt
  have hc := c.isLt
  apply BitVec.eq_of_toNat_eq
  simp only [Format.numBits] at *
  omega

/-- Signs are bits. -/
theorem eq_of_sign_eq {a b : BitVec 1} (h : Sign.ofBitVec a = Sign.ofBitVec b) : a = b := by
  rcases BitVec.eq_zero_or_eq_one a with rfl | rfl <;>
    rcases BitVec.eq_zero_or_eq_one b with rfl | rfl <;> simp [Sign.ofBitVec] at h ⊢

/-- The implicit bit of a mantissa. -/
theorem toNat_implicit (mantissa : BitVec 52) : (1#1 ++ mantissa).toNat = Nat.pow 2 52 + mantissa.toNat := by
  rw [BitVec.toNat_append, ← Nat.shiftLeft_add_eq_or_of_lt mantissa.isLt]
  rfl

/-- Sign, exponent and mantissa of a number, as they are packed. -/
def packedParts : UnpackedFloat → Option (Sign × Nat × Nat)
  | .notANumber => none
  | .infinity s => some (s, Nat.pow 2 11 - 1, 0)
  | .zero s => some (s, 0, 0)
  | .finite s mantissa exponent _ =>
    if mantissa < Nat.pow 2 52 then some (s, 0, mantissa)
    else some (s, (exponent + 1075).toNat, mantissa - Nat.pow 2 52)

/-- The parts of a number that was unpacked. -/
theorem packedParts_unpack {b : BitVec Format.binary64.numBits}
    (hnumber : UnpackedFloat.unpack Format.binary64 b ≠ .notANumber) :
    packedParts (UnpackedFloat.unpack Format.binary64 b) =
      some (Sign.ofBitVec (unpackSign b), (unpackExponent b).toNat, (unpackMantissa b).toNat) := by
  have hbound : (unpackMantissa b).toNat < Nat.pow 2 52 := (unpackMantissa b).isLt
  have hbias : Format.binary64.exponentBias = 1023 := rfl
  unfold UnpackedFloat.unpack at hnumber ⊢
  dsimp only at hnumber ⊢
  split
  · next hexponent =>
    split
    · next hmantissa =>
      rw [packedParts, hexponent, hmantissa]
      rfl
    · next hmantissa => simp [hexponent, hmantissa] at hnumber
  · split
    · next hexponent =>
      split
      · next hmantissa =>
        rw [packedParts, hexponent, hmantissa]
        rfl
      · rw [packedParts, if_pos hbound, hexponent]
        rfl
    · rw [packedParts, toNat_implicit, if_neg (Nat.not_lt.mpr (Nat.le_add_right _ _)), hbias, Nat.add_sub_cancel_left]
      congr 3
      omega

/-- Doubles that stand for one number have the same bits, unless they stand for none. -/
theorem eq_of_unpack_eq {b c : BitVec Format.binary64.numBits}
    (h : UnpackedFloat.unpack Format.binary64 b = UnpackedFloat.unpack Format.binary64 c)
    (hnumber : UnpackedFloat.unpack Format.binary64 b ≠ .notANumber) : b = c := by
  have hparts := congrArg packedParts h
  rw [packedParts_unpack hnumber, packedParts_unpack (h ▸ hnumber)] at hparts
  simp only [Option.some.injEq, Prod.mk.injEq] at hparts
  exact eq_of_parts (eq_of_sign_eq hparts.1) (BitVec.eq_of_toNat_eq hparts.2.1)
    (BitVec.eq_of_toNat_eq hparts.2.2)

/-- The same number, or zeros of any sign. -/
def SameNumber (u v : UnpackedFloat) : Prop :=
  u = v ∨ ∃ s t, u = .zero s ∧ v = .zero t

/-- The sign of a zero does not count in comparisons. -/
theorem compare_zero_left (s t : Sign) (v : UnpackedFloat) :
    UnpackedFloat.compare (.zero s) v = UnpackedFloat.compare (.zero t) v := by
  cases v with
  | infinity sign => cases sign <;> rfl
  | finite sign m e hm => cases sign <;> rfl
  | _ => rfl

/-- The sign of a zero does not count in comparisons. -/
theorem compare_zero_right (s t : Sign) (u : UnpackedFloat) :
    u.compare (.zero s) = u.compare (.zero t) := by
  cases u with
  | infinity sign => cases sign <;> rfl
  | finite sign m e hm => cases sign <;> rfl
  | _ => rfl

/-- Numbers that compare as equal. -/
theorem sameNumber_of_compare {u v : UnpackedFloat} (h : u.compare v = some .eq) :
    SameNumber u v ∧ u ≠ .notANumber := by
  cases u with
  | notANumber => cases v <;> cases h
  | zero s =>
    cases v with
    | zero t => exact ⟨Or.inr ⟨s, t, rfl, rfl⟩, UnpackedFloat.noConfusion⟩
    | finite t n f hn => cases t <;> cases h
    | infinity t => cases t <;> cases h
    | notANumber => cases h
  | infinity s =>
    cases v with
    | infinity t => cases s <;> cases t <;> simp_all [UnpackedFloat.compare, compare, SameNumber]
    | _ => cases s <;> cases h
  | finite s m e hm =>
    cases v with
    | finite t n f hn =>
      refine ⟨Or.inl ?_, UnpackedFloat.noConfusion⟩
      cases s <;> cases t <;> simp [UnpackedFloat.compare] at h
      all_goals
        obtain ⟨rfl, rfl⟩ := h
        rfl
    | infinity t => cases s <;> cases t <;> cases h
    | _ => cases s <;> cases h

/-! ### The same double, or two zeros -/

/-- One of the two zeros. -/
def IsZero (x : Float) : Prop :=
  ∃ sign, x.toModel.unpack = .zero sign

/-- The same double, or two zeros. -/
def SameFloat (x y : Float) : Prop :=
  x = y ∨ IsZero x ∧ IsZero y

/-- Doubles that stand for one number are the same. -/
theorem eq_of_toModel_unpack_eq {x y : Float} (h : x.toModel.unpack = y.toModel.unpack)
    (hnumber : x.toModel.unpack ≠ .notANumber) : x = y := by
  have hbits : x.toModel.toBits.toBitVec = y.toModel.toBits.toBitVec := eq_of_unpack_eq h hnumber
  obtain ⟨⟨bits, _⟩⟩ := x
  obtain ⟨⟨other, _⟩⟩ := y
  obtain rfl : bits = other := UInt64.toBitVec_inj.mp hbits
  rfl

/-- There are two zeros. -/
theorem IsZero.eq_or_eq {x : Float} (h : IsZero x) : x = 0 ∨ x = -0 := by
  obtain ⟨sign, hsign⟩ := h
  have hnumber : x.toModel.unpack ≠ .notANumber := by
    rw [hsign]
    exact UnpackedFloat.noConfusion
  cases sign with
  | positive => exact Or.inl (eq_of_toModel_unpack_eq (hsign.trans (by rfl)) hnumber)
  | negative => exact Or.inr (eq_of_toModel_unpack_eq (hsign.trans (by rfl)) hnumber)

/-- A zero that was packed. -/
theorem isZero_pack (sign : Sign) : IsZero (.ofModel (.pack (.zero sign))) := by
  cases sign with
  | positive => exact ⟨.positive, by rfl⟩
  | negative => exact ⟨.negative, by rfl⟩

namespace SameFloat

variable {x y z x' y' : Float}

/-- A double is the same as itself. -/
theorem refl (x : Float) : SameFloat x x :=
  Or.inl rfl

/-- The order does not matter. -/
theorem symm (h : SameFloat x y) : SameFloat y x := by
  rcases h with rfl | ⟨hx, hy⟩
  · exact .refl x
  · exact Or.inr ⟨hy, hx⟩

/-- Doubles that are the same as a third. -/
theorem trans (h : SameFloat x y) (h' : SameFloat y z) : SameFloat x z := by
  rcases h with rfl | ⟨hx, hy⟩
  · exact h'
  · rcases h' with rfl | ⟨_, hz⟩
    · exact Or.inr ⟨hx, hy⟩
    · exact Or.inr ⟨hx, hz⟩

/-- Doubles that compare as equal. -/
theorem of_beq (h : (x == y) = true) : SameFloat x y := by
  have hcompare : x.toModel.unpack.compare y.toModel.unpack = some .eq := by
    change (x.toModel.unpack.compare y.toModel.unpack == some .eq) = true at h
    simpa using h
  obtain ⟨hsame, hnumber⟩ := sameNumber_of_compare hcompare
  rcases hsame with heq | ⟨s, t, hs, ht⟩
  · exact Or.inl (eq_of_toModel_unpack_eq heq hnumber)
  · exact Or.inr ⟨⟨s, hs⟩, ⟨t, ht⟩⟩

/-- A function of doubles that takes both zeros to one result does not tell doubles apart that are the same. -/
theorem congr {α : Type} {f : Float → α} (hzero : f 0 = f (-0)) (h : SameFloat x y) : f x = f y := by
  have hall {z : Float} (hz : IsZero z) : f z = f 0 := by
    rcases hz.eq_or_eq with rfl | rfl
    · rfl
    · exact hzero.symm
  rcases h with rfl | ⟨hx, hy⟩
  · rfl
  · rw [hall hx, hall hy]

/-- Numbers that are packed. -/
theorem of_sameNumber {u v : UnpackedFloat} (h : SameNumber u v) :
    SameFloat (.ofModel (.pack u)) (.ofModel (.pack v)) := by
  rcases h with rfl | ⟨s, t, rfl, rfl⟩
  · exact .refl _
  · exact Or.inr ⟨isZero_pack s, isZero_pack t⟩

/-- An operation on numbers that does not tell zeros apart, on either side, does not tell doubles apart
that are the same. -/
theorem operation {op : UnpackedFloat → UnpackedFloat → UnpackedFloat}
    (hleft : ∀ s t v, SameNumber (op (.zero s) v) (op (.zero t) v))
    (hright : ∀ s t u, SameNumber (op u (.zero s)) (op u (.zero t)))
    (hx : SameFloat x x') (hy : SameFloat y y') :
    SameFloat (.ofModel (.pack (op x.toModel.unpack y.toModel.unpack)))
      (.ofModel (.pack (op x'.toModel.unpack y'.toModel.unpack))) := by
  have hfirst : SameFloat (.ofModel (.pack (op x.toModel.unpack y.toModel.unpack)))
      (.ofModel (.pack (op x'.toModel.unpack y.toModel.unpack))) := by
    rcases hx with rfl | ⟨⟨s, hs⟩, ⟨t, ht⟩⟩
    · exact .refl _
    · rw [hs, ht]
      exact of_sameNumber (hleft s t _)
  have hsecond : SameFloat (.ofModel (.pack (op x'.toModel.unpack y.toModel.unpack)))
      (.ofModel (.pack (op x'.toModel.unpack y'.toModel.unpack))) := by
    rcases hy with rfl | ⟨⟨s, hs⟩, ⟨t, ht⟩⟩
    · exact .refl _
    · rw [hs, ht]
      exact of_sameNumber (hright s t _)
  exact hfirst.trans hsecond

/-- Sums. -/
theorem add (hx : SameFloat x x') (hy : SameFloat y y') : SameFloat (x + y) (x' + y') := by
  refine operation (fun s t v => ?_) (fun s t u => ?_) hx hy
  · cases v with
    | zero sign => cases s <;> cases t <;> cases sign <;> exact Or.inr ⟨_, _, rfl, rfl⟩
    | _ => exact Or.inl rfl
  · cases u with
    | zero sign => cases s <;> cases t <;> cases sign <;> exact Or.inr ⟨_, _, rfl, rfl⟩
    | _ => exact Or.inl rfl

/-- Differences. -/
theorem sub (hx : SameFloat x x') (hy : SameFloat y y') : SameFloat (x - y) (x' - y') := by
  refine operation (fun s t v => ?_) (fun s t u => ?_) hx hy
  · cases v with
    | zero sign => cases s <;> cases t <;> cases sign <;> exact Or.inr ⟨_, _, rfl, rfl⟩
    | _ => exact Or.inl rfl
  · cases u with
    | zero sign => cases s <;> cases t <;> cases sign <;> exact Or.inr ⟨_, _, rfl, rfl⟩
    | _ => exact Or.inl rfl

/-- Comparisons. -/
theorem compare_eq (hx : SameFloat x x') (hy : SameFloat y y') :
    x.toModel.unpack.compare y.toModel.unpack = x'.toModel.unpack.compare y'.toModel.unpack := by
  have hfirst : x.toModel.unpack.compare y.toModel.unpack = x'.toModel.unpack.compare y.toModel.unpack := by
    rcases hx with rfl | ⟨⟨s, hs⟩, ⟨t, ht⟩⟩
    · rfl
    · rw [hs, ht]
      exact compare_zero_left s t _
  have hsecond : x'.toModel.unpack.compare y.toModel.unpack = x'.toModel.unpack.compare y'.toModel.unpack := by
    rcases hy with rfl | ⟨⟨s, hs⟩, ⟨t, ht⟩⟩
    · rfl
    · rw [hs, ht]
      exact compare_zero_right s t _
  exact hfirst.trans hsecond

/-- Equality. -/
theorem beq (hx : SameFloat x x') (hy : SameFloat y y') : (x == y) = (x' == y') := by
  change (x.toModel.unpack.compare y.toModel.unpack == some .eq) =
    (x'.toModel.unpack.compare y'.toModel.unpack == some .eq)
  rw [hx.compare_eq hy]

/-- Order. -/
theorem lt_iff (hx : SameFloat x x') (hy : SameFloat y y') : x < y ↔ x' < y' := by
  change decide ((x.toModel.unpack.compare y.toModel.unpack == some .lt) = true) = true ↔
    decide ((x'.toModel.unpack.compare y'.toModel.unpack == some .lt) = true) = true
  rw [hx.compare_eq hy]

end SameFloat

end ReactiveTemplate.Decimal
