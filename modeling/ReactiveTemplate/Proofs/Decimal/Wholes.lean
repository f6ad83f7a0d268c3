import Mathlib
import ReactiveTemplate.Proofs.Decimal.Doubles

/-!
# Whole numbers as doubles

A double has a mantissa of 53 bits. A whole number of more bits becomes the multiple of a power of two that
is nearest to it, and of two that are equally near the one whose mantissa is even. So doubles do not tell two
whole numbers apart exactly if these are rounded to the same one.
-/

namespace ReactiveTemplate.Decimal

open Float.Model Float.Model.UnpackedFloat

/-! ### Rounding a quotient -/

/-- A quotient rounded to the nearest whole number, and a half to the even one. -/
def roundedDiv (n d : Nat) : Nat :=
  if 2 * (n % d) < d ∨ 2 * (n % d) = d ∧ n / d % 2 = 0 then n / d else n / d + 1

/-- A common factor does not matter. -/
theorem roundedDiv_mul_right (n d : Nat) {c : Nat} (hc : 0 < c) : roundedDiv (n * c) (d * c) = roundedDiv n d := by
  have hmod : n * c % (d * c) = n % d * c := Nat.mul_mod_mul_right c n d
  have hlt : 2 * (n % d * c) < d * c ↔ 2 * (n % d) < d := by
    rw [← Nat.mul_assoc, Nat.mul_lt_mul_right hc]
  have heq : 2 * (n % d * c) = d * c ↔ 2 * (n % d) = d := by
    rw [← Nat.mul_assoc, Nat.mul_left_inj (Nat.ne_of_gt hc)]
  simp only [roundedDiv, hmod, Nat.mul_div_mul_right n d hc, hlt, heq]

/-- Nothing is rounded in units. -/
theorem roundedDiv_one (n : Nat) : roundedDiv n 1 = n := by
  rw [roundedDiv, Nat.mod_one, Nat.div_one, if_pos (Or.inl Nat.one_pos)]

/-- Nothing is rounded in a multiple. -/
theorem roundedDiv_mul_self (n : Nat) {d : Nat} (hd : 0 < d) : roundedDiv (n * d) d = n := by
  have hone := roundedDiv_mul_right n 1 hd
  rwa [Nat.one_mul, roundedDiv_one] at hone

/-- Rounding gives one of the two neighbours. -/
theorem roundedDiv_bounds (n d : Nat) : n / d ≤ roundedDiv n d ∧ roundedDiv n d ≤ n / d + 1 := by
  rw [roundedDiv]
  split <;> omega

/-- Rounding moves a number by half of the divisor at most. -/
theorem roundedDiv_near (n : Nat) {d : Nat} (hd : 0 < d) :
    2 * n ≤ 2 * (roundedDiv n d * d) + d ∧ 2 * (roundedDiv n d * d) ≤ 2 * n + d := by
  have hsplit := Nat.div_add_mod' n d
  have hlt := Nat.mod_lt n hd
  rw [roundedDiv]
  split
  · omega
  · rw [Nat.add_mul, Nat.one_mul]
    omega

/-- A mantissa with the two bits behind it is a quotient: what is left over is compared with a half. -/
structure IsQuotient (em : ExtendedMantissa) (n d : Nat) : Prop where
  mantissa : em.mantissa = n / d
  roundBit : em.roundBit = decide (d ≤ 2 * (n % d))
  stickyBit : em.stickyBit = decide (n % d ≠ 0 ∧ 2 * (n % d) ≠ d)

/-- A quotient is rounded by its two bits. -/
theorem IsQuotient.roundedMantissa {em : ExtendedMantissa} {n d : Nat} (h : IsQuotient em n d) (hd : 0 < d) :
    em.roundedMantissa = roundedDiv n d := by
  obtain ⟨mantissa, roundBit, stickyBit⟩ := em
  obtain ⟨hm, hr, hs⟩ := h
  dsimp only at hm hr hs
  subst hm
  have hlt := Nat.mod_lt n hd
  rw [roundedDiv, ExtendedMantissa.roundedMantissa]
  cases roundBit <;> cases stickyBit <;>
    simp only [ExtendedMantissa.accuracy, Accuracy.roundToNearestEven] <;>
    simp at hr hs <;> split <;> omega

/-- A shift doubles the divisor. -/
theorem IsQuotient.shiftRightOne {em : ExtendedMantissa} {n d : Nat} (h : IsQuotient em n d) (hd : 0 < d) :
    IsQuotient em.shiftRightOne n (d * 2) := by
  have hlt := Nat.mod_lt n hd
  have hmod : n % (d * 2) = n % d + d * (n / d % 2) := Nat.mod_mul
  refine ⟨?_, ?_, ?_⟩
  · rw [ExtendedMantissa.shiftRightOne, h.mantissa, Nat.div_div_eq_div_mul]
  · rw [ExtendedMantissa.shiftRightOne, h.mantissa, hmod]
    rcases Nat.mod_two_eq_zero_or_one (n / d) with hbit | hbit <;> simp [hbit] <;> omega
  · rw [ExtendedMantissa.shiftRightOne, h.roundBit, h.stickyBit, hmod]
    dsimp only
    rw [Bool.eq_iff_iff]
    rcases Nat.mod_two_eq_zero_or_one (n / d) with hbit | hbit <;> simp [hbit] <;> omega

/-- Shifts divide by a power of two. -/
theorem isQuotient_shiftRight (n shift : Nat) :
    IsQuotient ((⟨n, false, false⟩ : ExtendedMantissa) >>> shift) n (2 ^ shift) := by
  induction shift with
  | zero =>
    refine ⟨(Nat.div_one n).symm, ?_, ?_⟩
    · rw [Nat.pow_zero, Nat.mod_one]
      rfl
    · rw [Nat.pow_zero, Nat.mod_one]
      rfl
  | succ shift ih =>
    rw [Nat.pow_succ]
    exact ih.shiftRightOne (Nat.two_pow_pos shift)

/-! ### The nearest double -/

/-- The distance between the doubles of the size of a whole number, and one where these lie closer. -/
def spacing (n : Nat) : Nat :=
  2 ^ (n.log2 - 52)

/-- The whole number that is the double nearest to a whole number. -/
def nearestWhole (n : Nat) : Nat :=
  roundedDiv n (spacing n) * spacing n

/-- The mantissa of a whole number that is multiplied by `2 ^ shift` first. -/
def mantissaOf (n shift : Nat) : Nat :=
  roundedDiv (n * 2 ^ shift) (2 ^ (n.log2 + shift - 52))

/-- A number of 53 bits at most is its own nearest double. -/
theorem nearestWhole_of_lt {n : Nat} (hn : n < 2 ^ 53) : nearestWhole n = n := by
  have hlog : n.log2 ≤ 52 := by
    by_cases hzero : n = 0
    · simp [hzero]
    · exact Nat.le_of_lt_succ ((Nat.log2_lt hzero).mpr hn)
  rw [nearestWhole, spacing, Nat.sub_eq_zero_of_le hlog, Nat.pow_zero, roundedDiv_one, Nat.mul_one]

/-- The nearest double is no further away than half of the distance between doubles. -/
theorem nearestWhole_near (n : Nat) :
    2 * n ≤ 2 * nearestWhole n + spacing n ∧ 2 * nearestWhole n ≤ 2 * n + spacing n :=
  roundedDiv_near n (Nat.two_pow_pos _)

/-- Shifted numbers have as many bits more. -/
theorem log2_mul_two_pow {n : Nat} (hpos : 0 < n) (shift : Nat) : (n * 2 ^ shift).log2 = n.log2 + shift := by
  have hne : n ≠ 0 := Nat.ne_of_gt hpos
  refine (Nat.log2_eq_iff (Nat.mul_ne_zero hne (Nat.ne_of_gt (Nat.two_pow_pos shift)))).mpr ⟨?_, ?_⟩
  · rw [Nat.pow_add]
    exact Nat.mul_le_mul_right _ (Nat.log2_self_le hne)
  · rw [Nat.add_right_comm, Nat.pow_add]
    exact Nat.mul_lt_mul_of_pos_right Nat.lt_log2_self (Nat.two_pow_pos shift)

/-- A mantissa has 53 bits, unless it was rounded up to the next power of two. -/
theorem mantissaOf_bounds {n shift : Nat} (hpos : 0 < n) (hlog : 52 ≤ n.log2 + shift) :
    2 ^ 52 ≤ mantissaOf n shift ∧ mantissaOf n shift ≤ 2 ^ 53 := by
  have hbits := log2_mul_two_pow hpos shift
  have hne : n * 2 ^ shift ≠ 0 := Nat.mul_ne_zero (Nat.ne_of_gt hpos) (Nat.ne_of_gt (Nat.two_pow_pos shift))
  have hlow : 2 ^ 52 ≤ n * 2 ^ shift / 2 ^ (n.log2 + shift - 52) := by
    rw [Nat.le_div_iff_mul_le (Nat.two_pow_pos _), ← Nat.pow_add, Nat.add_sub_cancel' hlog, ← hbits]
    exact Nat.log2_self_le hne
  have hhigh : n * 2 ^ shift / 2 ^ (n.log2 + shift - 52) < 2 ^ 53 := by
    have htop : 53 + (n.log2 + shift - 52) = n.log2 + shift + 1 := by omega
    rw [Nat.div_lt_iff_lt_mul (Nat.two_pow_pos _), ← Nat.pow_add, htop, ← hbits]
    exact Nat.lt_log2_self
  have hround := roundedDiv_bounds (n * 2 ^ shift) (2 ^ (n.log2 + shift - 52))
  rw [← mantissaOf] at hround
  omega

/-- The mantissa stands for the nearest double. -/
theorem mantissaOf_mul {n shift : Nat} (hlog : 52 ≤ n.log2 + shift) :
    mantissaOf n shift * 2 ^ n.log2 = nearestWhole n * 2 ^ 52 := by
  rw [mantissaOf, nearestWhole, spacing]
  rcases Nat.le_total 52 n.log2 with hlarge | hsmall
  · have hsum : n.log2 + shift - 52 = n.log2 - 52 + shift := by omega
    rw [hsum, Nat.pow_add 2 _ shift, roundedDiv_mul_right n _ (Nat.two_pow_pos shift), Nat.mul_assoc,
      ← Nat.pow_add, Nat.sub_add_cancel hlarge]
  · have hexact : n * 2 ^ shift = n * 2 ^ (52 - n.log2) * 2 ^ (n.log2 + shift - 52) := by
      rw [Nat.mul_assoc, ← Nat.pow_add]
      congr 2
      omega
    rw [Nat.sub_eq_zero_of_le hsmall, Nat.pow_zero, roundedDiv_one, Nat.mul_one, hexact,
      roundedDiv_mul_self _ (Nat.two_pow_pos _), Nat.mul_assoc, ← Nat.pow_add, Nat.sub_add_cancel hsmall]

/-! ### Numbers in standard form -/

/-- The standard form of a whole number below `2 ^ 65` that is a double: a mantissa of 53 bits. -/
def IsWhole (sign : Sign) (n : Nat) (u : UnpackedFloat) : Prop :=
  ∃ (mantissa : Nat) (exponent : Int) (hpos : 0 < mantissa), u = .finite sign mantissa exponent hpos ∧
    2 ^ 52 ≤ mantissa ∧ mantissa < 2 ^ 53 ∧ -52 ≤ exponent ∧ exponent ≤ 12 ∧
    mantissa * 2 ^ (exponent + 52).toNat = n * 2 ^ 52

/-- The number with its sign changed. -/
theorem IsWhole.neg {n : Nat} {u : UnpackedFloat} (h : IsWhole .positive n u) : IsWhole .negative n u.neg := by
  obtain ⟨mantissa, exponent, hpos, rfl, hbounds⟩ := h
  exact ⟨mantissa, exponent, hpos, rfl, hbounds⟩

/-- A number in standard form is not zero. -/
theorem IsWhole.pos {sign : Sign} {n : Nat} {u : UnpackedFloat} (h : IsWhole sign n u) : 0 < n := by
  obtain ⟨mantissa, exponent, hpos, _, _, _, _, _, hvalue⟩ := h
  have hproduct := Nat.mul_pos hpos (Nat.two_pow_pos (exponent + 52).toNat)
  rw [hvalue] at hproduct
  exact Nat.pos_of_mul_pos_right hproduct

/-- Of two numbers with mantissas of 53 bits the one with the larger exponent is larger. -/
theorem mul_two_pow_lt {m n j k : Nat} (hm : m < 2 ^ 53) (hn : 2 ^ 52 ≤ n) (hlt : j < k) : m * 2 ^ j < n * 2 ^ k := by
  calc m * 2 ^ j < 2 ^ 53 * 2 ^ j := Nat.mul_lt_mul_of_pos_right hm (Nat.two_pow_pos j)
    _ = 2 ^ 52 * 2 ^ (j + 1) := by rw [← Nat.pow_add, ← Nat.pow_add]; congr 1; omega
    _ ≤ n * 2 ^ k := Nat.mul_le_mul hn (Nat.pow_le_pow_right Nat.two_pos hlt)

/-- Numbers in standard form compare as equal if they are the same number. -/
theorem IsWhole.compare_eq_iff {s t : Sign} {m n : Nat} {u v : UnpackedFloat} (hu : IsWhole s m u)
    (hv : IsWhole t n v) : u.compare v = some .eq ↔ s = t ∧ m = n := by
  obtain ⟨a, j, ha, rfl, halow, hahigh, hjlow, _, hm⟩ := hu
  obtain ⟨b, k, hb, rfl, hblow, hbhigh, hklow, _, hn⟩ := hv
  have hparts : j = k ∧ a = b ↔ m = n := by
    constructor
    · rintro ⟨rfl, rfl⟩
      exact Nat.mul_right_cancel (Nat.two_pow_pos 52) (hm.symm.trans hn)
    · rintro rfl
      have hsame := hm.trans hn.symm
      have hexponent : (j + 52).toNat = (k + 52).toNat := by
        rcases Nat.lt_trichotomy (j + 52).toNat (k + 52).toNat with hlt | heq | hlt
        · exact absurd hsame (Nat.ne_of_lt (mul_two_pow_lt hahigh hblow hlt))
        · exact heq
        · exact absurd hsame.symm (Nat.ne_of_lt (mul_two_pow_lt hbhigh halow hlt))
      rw [hexponent] at hsame
      exact ⟨by omega, Nat.mul_right_cancel (Nat.two_pow_pos _) hsame⟩
  rw [← hparts]
  cases s <;> cases t <;> simp [UnpackedFloat.compare]

/-! ### Packing and rounding -/

/-- The sign of packed parts. -/
theorem unpackSign_packComponents (spec : Format) (sign : Sign) (exponent : BitVec spec.exponentBits)
    (mantissa : BitVec spec.mantissaBitsWithoutImplicit) :
    Sign.ofBitVec (unpackSign (packComponents spec sign exponent mantissa)) = sign := by
  have hsign : unpackSign (packComponents spec sign exponent mantissa) = sign.toBitVec := by
    ext i hi
    obtain rfl : i = 0 := by omega
    simp [unpackSign, packComponents, BitVec.getLsbD_append, BitVec.getElem_append]
  rw [hsign]
  cases sign <;> rfl

/-- A number of 53 bits is packed part by part. -/
theorem pack_finite (sign : Sign) {mantissa : Nat} {exponent : Int} (hpos : 0 < mantissa)
    (hlow : 2 ^ 52 ≤ mantissa) (hhigh : mantissa < 2 ^ 53) (hleast : -1074 ≤ exponent) (hmost : exponent ≤ 971) :
    UnpackedFloat.pack Format.binary64 (.finite sign mantissa exponent hpos) =
      packComponents Format.binary64 sign (BitVec.ofNat 11 (exponent + 1075).toNat) (BitVec.ofNat 52 mantissa) := by
  have hlog : mantissa.log2 = 52 := (Nat.log2_eq_iff (Nat.ne_of_gt hpos)).mpr ⟨hlow, hhigh⟩
  have hbiased : (exponent + (Format.binary64.exponentBias : Int) + ((52 : Nat) : Int)).toNat =
      (exponent + 1075).toNat := congrArg Int.toNat (Int.add_assoc exponent 1023 52)
  have hfits : ¬ 2 ^ 11 ≤ (exponent + 1075).toNat + 1 := by omega
  simp only [UnpackedFloat.pack, hlog, hbiased]
  rw [if_neg hfits]
  rfl

/-- A packed number of 53 bits is unpacked as it was. -/
theorem unpack_pack_finite (sign : Sign) {mantissa : Nat} {exponent : Int} (hpos : 0 < mantissa)
    (hlow : 2 ^ 52 ≤ mantissa) (hhigh : mantissa < 2 ^ 53) (hleast : -1074 ≤ exponent) (hmost : exponent ≤ 971) :
    (Float.Model.pack (.finite sign mantissa exponent hpos)).unpack = .finite sign mantissa exponent hpos := by
  have hexponent : (BitVec.ofNat 11 (exponent + 1075).toNat).toNat = (exponent + 1075).toNat := by
    rw [BitVec.toNat_ofNat, Nat.mod_eq_of_lt (by omega)]
  have hne {special : BitVec 11} (hspecial : special.toNat ≠ (exponent + 1075).toNat) :
      BitVec.ofNat 11 (exponent + 1075).toNat ≠ special := by
    intro heq
    rw [← heq, hexponent] at hspecial
    exact hspecial rfl
  have hmantissa : (1#1 ++ BitVec.ofNat 52 mantissa).toNat = mantissa := by
    rw [toNat_implicit, BitVec.toNat_ofNat]
    simp only [Nat.pow_eq]
    omega
  change UnpackedFloat.unpack Format.binary64 (UnpackedFloat.pack Format.binary64 _) = _
  rw [pack_finite sign hpos hlow hhigh hleast hmost, UnpackedFloat.unpack]
  simp only [unpackExponent_packComponents, unpackMantissa_packComponents, unpackSign_packComponents]
  rw [if_neg (hne (by change 2047 ≠ _; omega)), if_neg (hne (by change 0 ≠ _; omega))]
  simp only [UnpackedFloat.finite.injEq, true_and]
  refine ⟨hmantissa, ?_⟩
  rw [hexponent]
  change ((exponent + 1075).toNat : Int) - (1023 + 52) = exponent
  omega

/-- A number in standard form is unpacked as it was packed. -/
theorem IsWhole.unpack_pack {sign : Sign} {n : Nat} {u : UnpackedFloat} (h : IsWhole sign n u) :
    (Float.Model.pack u).unpack = u := by
  obtain ⟨mantissa, exponent, hpos, rfl, hlow, hhigh, hleast, hmost, _⟩ := h
  exact unpack_pack_finite sign hpos hlow hhigh (by omega) (by omega)

/-- A number of 53 bits at most is not shifted. -/
theorem shiftToTargetExponent_of_lt {mantissa : Nat} {exponent : Int} (hhigh : mantissa < 2 ^ 53)
    (hleast : -1074 ≤ exponent) :
    shiftToTargetExponent Format.binary64 mantissa exponent .exact = (⟨mantissa, false, false⟩, exponent) := by
  have hlog : mantissa.log2 ≤ 52 := by
    by_cases hzero : mantissa = 0
    · simp [hzero]
    · exact Nat.le_of_lt_succ ((Nat.log2_lt hzero).mpr hhigh)
  have htarget : Format.binary64.targetExponent (totalExponent mantissa exponent) ≤ exponent := by
    change max ((mantissa.log2 : Int) + 1 + exponent - 53) (-1074) ≤ exponent
    omega
  rw [shiftToTargetExponent, shiftToExponent, Int.toNat_of_nonpos (by omega)]
  simp only [Int.natCast_zero, Int.add_zero]
  rfl

/-- The least number of 54 bits is shifted by one. -/
theorem shiftToTargetExponent_carry {exponent : Int} (hleast : -1074 ≤ exponent) :
    shiftToTargetExponent Format.binary64 (2 ^ 53) exponent .exact = (⟨2 ^ 52, false, false⟩, exponent + 1) := by
  have htarget : Format.binary64.targetExponent (totalExponent (2 ^ 53) exponent) = exponent + 1 := by
    change max (((2 ^ 53).log2 : Int) + 1 + exponent - 53) (-1074) = exponent + 1
    rw [Nat.log2_two_pow]
    omega
  have hshift : (exponent + 1 - exponent).toNat = 1 := by omega
  rw [shiftToTargetExponent, htarget, shiftToExponent, hshift]
  rfl

/-- A whole number of 53 bits or more is shifted until it has 53. -/
theorem shiftToTargetExponent_whole {n : Nat} (hpos : 0 < n) (shift : Nat) (hlog : 52 ≤ n.log2 + shift) :
    shiftToTargetExponent Format.binary64 (n * 2 ^ shift) (-shift) .exact =
      ((⟨n * 2 ^ shift, false, false⟩ : ExtendedMantissa) >>> (n.log2 + shift - 52), (n.log2 : Int) - 52) := by
  have htarget : Format.binary64.targetExponent (totalExponent (n * 2 ^ shift) (-shift)) = (n.log2 : Int) - 52 := by
    change max (((n * 2 ^ shift).log2 : Int) + 1 + -shift - 53) (-1074) = (n.log2 : Int) - 52
    rw [log2_mul_two_pow hpos]
    omega
  have hshift : ((n.log2 : Int) - 52 - -shift).toNat = n.log2 + shift - 52 := by omega
  rw [shiftToTargetExponent, htarget, shiftToExponent, hshift]
  refine Prod.ext rfl ?_
  change -(shift : Int) + ((n.log2 + shift - 52 : Nat) : Int) = n.log2 - 52
  omega

/-- Rounding takes two shifts, the second for a mantissa that was rounded up to 54 bits. -/
theorem roundWithAccuracy_of_shifts {spec : Format} (sign : Sign) {mantissa : Nat} {exponent : Int}
    {accuracy : Accuracy} {first second : ExtendedMantissa × Int}
    (hfirst : shiftToTargetExponent spec mantissa exponent accuracy = first)
    (hsecond : shiftToTargetExponent spec first.1.roundedMantissa first.2 .exact = second)
    (hpos : 0 < second.1.mantissa) :
    roundWithAccuracy spec sign mantissa exponent accuracy = .finite sign second.1.mantissa second.2 hpos := by
  subst hfirst
  subst hsecond
  exact dif_neg (Nat.ne_of_gt hpos)

/-- A whole number is rounded to the nearest double, however it is shifted before. -/
theorem isWhole_roundWithAccuracy (sign : Sign) {n shift : Nat} (hpos : 0 < n) (hbound : n.log2 < 64)
    (hlog : 52 ≤ n.log2 + shift) :
    IsWhole sign (nearestWhole n) (roundWithAccuracy Format.binary64 sign (n * 2 ^ shift) (-shift) .exact) := by
  obtain ⟨hlow, hhigh⟩ := mantissaOf_bounds hpos hlog
  have hvalue := mantissaOf_mul hlog
  have hfirst := shiftToTargetExponent_whole hpos shift hlog
  have hleast : -1074 ≤ (n.log2 : Int) - 52 := by omega
  have hrounded : ((⟨n * 2 ^ shift, false, false⟩ : ExtendedMantissa) >>> (n.log2 + shift - 52)).roundedMantissa =
      mantissaOf n shift := (isQuotient_shiftRight _ _).roundedMantissa (Nat.two_pow_pos _)
  -- The second shift only matters if rounding carried into a bit more: then it takes that bit back.
  rcases Nat.lt_or_eq_of_le hhigh with hlt | heq
  · have hsecond := shiftToTargetExponent_of_lt hlt hleast
    rw [← hrounded] at hsecond hlow hlt hvalue
    have hround := roundWithAccuracy_of_shifts sign hfirst hsecond (Nat.lt_of_lt_of_le (Nat.two_pow_pos 52) hlow)
    refine ⟨_, _, _, hround, hlow, hlt, by omega, by omega, ?_⟩
    rw [Int.sub_add_cancel, Int.toNat_natCast, hvalue]
  · have hsecond := shiftToTargetExponent_carry hleast
    rw [← heq, ← hrounded] at hsecond
    have hround := roundWithAccuracy_of_shifts sign hfirst hsecond (Nat.two_pow_pos 52)
    have hexponent : ((n.log2 : Int) - 52 + 1 + 52).toNat = n.log2 + 1 := by omega
    have hcarried : 2 ^ 52 * 2 ^ (n.log2 + 1) = nearestWhole n * 2 ^ 52 := by
      rw [← hvalue, heq, Nat.pow_succ]
      omega
    refine ⟨_, _, _, hround, Nat.le_refl _, Nat.pow_lt_pow_succ Nat.one_lt_two, by omega, by omega, ?_⟩
    rw [hexponent]
    exact hcarried

/-! ### Whole numbers converted -/

/-- A whole number is converted to the nearest double. -/
theorem isWhole_unpacked {n : Nat} (hpos : 0 < n) (hbound : n.log2 < 64) :
    IsWhole .positive (nearestWhole n) (UnpackedFloat.ofNat Format.binary64 n) := by
  have hcompare : compare (n : Int) 0 = .gt := by
    rw [compare_gt_iff_gt]
    omega
  have htarget : Format.binary64.targetExponent (totalExponent n 0) = (n.log2 : Int) - 52 := by
    change max ((n.log2 : Int) + 1 + 0 - 53) (-1074) = (n.log2 : Int) - 52
    omega
  have hshift : (0 - ((n.log2 : Int) - 52)).toNat = 52 - n.log2 := by omega
  have hround : UnpackedFloat.ofNat Format.binary64 n =
      roundWithAccuracy Format.binary64 .positive (n * 2 ^ (52 - n.log2)) (-((52 - n.log2 : Nat) : Int)) .exact := by
    rw [UnpackedFloat.ofNat, UnpackedFloat.ofInt, UnpackedFloat.normalize, hcompare]
    simp only [Int.toNat_natCast]
    rw [UnpackedFloat.round, htarget, decreaseExponent, hshift]
    simp only [Nat.shiftLeft_eq, Int.zero_sub]
  rw [hround]
  exact isWhole_roundWithAccuracy _ hpos hbound (by omega)

/-- Multiplication by one leaves a number of 53 bits at most as it is. -/
theorem IsWhole.mul_one {n : Nat} {u : UnpackedFloat} (hn : n < 2 ^ 53) (h : IsWhole .positive n u) :
    IsWhole .positive n
      (UnpackedFloat.mul Format.binary64 u (.finite .positive (2 ^ 52) (-52) (Nat.two_pow_pos 52))) := by
  have hnpos := h.pos
  obtain ⟨mantissa, exponent, hpos, rfl, hlow, hhigh, hleast, hmost, hvalue⟩ := h
  have hnegative : exponent ≤ 0 := by
    by_contra hlarge
    have hpow : 2 ^ 53 ≤ 2 ^ (exponent + 52).toNat := Nat.pow_le_pow_right Nat.two_pos (by omega)
    have hproduct := Nat.mul_le_mul hlow hpow
    omega
  obtain ⟨shift, hshift⟩ := Int.eq_ofNat_of_zero_le (Int.neg_nonneg_of_nonpos hnegative)
  obtain rfl : exponent = -(shift : Int) := by omega
  have hmantissa : mantissa = n * 2 ^ shift := by
    have hsplit : 2 ^ (52 : Nat) = 2 ^ shift * 2 ^ (-(shift : Int) + 52).toNat := by
      rw [← Nat.pow_add]
      congr 1
      omega
    rw [hsplit, ← Nat.mul_assoc] at hvalue
    exact Nat.mul_right_cancel (Nat.two_pow_pos _) hvalue
  have hround : UnpackedFloat.mul Format.binary64 (.finite .positive mantissa (-(shift : Int)) hpos)
      (.finite .positive (2 ^ 52) (-52) (Nat.two_pow_pos 52)) =
        roundWithAccuracy Format.binary64 .positive (n * 2 ^ (shift + 52)) (-((shift + 52 : Nat) : Int)) .exact := by
    rw [UnpackedFloat.mul, hmantissa, Nat.mul_assoc, ← Nat.pow_add]
    congr 1
    omega
  have hlog := (Nat.log2_lt (Nat.ne_of_gt hnpos)).mpr hn
  have hbits : n.log2 < 64 := by omega
  have hshifted : 52 ≤ n.log2 + (shift + 52) := by omega
  have hwhole := isWhole_roundWithAccuracy .positive hnpos hbits hshifted
  rw [hround]
  rwa [nearestWhole_of_lt hn] at hwhole

/-- The double one. -/
theorem unpack_one : (Float.ofBits 0x3FF0000000000000).toModel.unpack =
    .finite .positive (2 ^ 52) (-52) (Nat.two_pow_pos 52) := by
  rfl

/-- Whole numbers are converted in two ways, one of them for those of 53 bits at most. -/
theorem isWhole_ofNat {n : Nat} (hpos : 0 < n) (hbound : n.log2 < 64) :
    IsWhole .positive (nearestWhole n) (Float.ofNat n).toModel.unpack := by
  -- A number of 53 bits at most is converted from a word and multiplied by one, a larger one is shifted and rounded.
  by_cases hn : n < 2 ^ 53
  · have hfloat : (Float.ofNat n).toModel = .pack (UnpackedFloat.mul Format.binary64
        (Float.Model.pack (UnpackedFloat.ofNat Format.binary64 n.toUInt64.toNat)).unpack
        (Float.ofBits 0x3FF0000000000000).toModel.unpack) := by
      change (Float.ofScientific n false 0).toModel = _
      rw [Float.ofScientific, dif_pos ⟨hn, by decide⟩]
      rfl
    have hwhole := isWhole_unpacked hpos hbound
    have hword : n.toUInt64.toNat = n := Nat.mod_eq_of_lt (by omega)
    rw [nearestWhole_of_lt hn] at hwhole ⊢
    rw [hfloat, hword, hwhole.unpack_pack, unpack_one, (hwhole.mul_one hn).unpack_pack]
    exact hwhole.mul_one hn
  · have hfloat : (Float.ofNat n).toModel = .ofScientific n 0 := by
      change (Float.ofScientific n false 0).toModel = _
      rw [Float.ofScientific, dif_neg fun h => hn h.1]
      rfl
    have hround : UnpackedFloat.ofScientific Format.binary64 n 0 =
        roundWithAccuracy Format.binary64 .positive (n * 2 ^ 53) (-((53 : Nat) : Int)) .exact := by
      have hsmall : ¬ (0 : Int) < -((2 ^ Format.binary64.exponentBits : Int) + n.log2) := by
        change ¬ (0 : Int) < -(2048 + n.log2)
        omega
      have hlarge : ¬ (0 : Int) > 2 ^ Format.binary64.exponentBits := by decide
      rw [UnpackedFloat.ofScientific, dif_neg (Nat.ne_of_gt hpos), if_neg hlarge, if_neg hsmall,
        if_pos (Int.le_refl 0), UnpackedFloat.mul, Nat.shiftLeft_eq, Int.toNat_zero, Nat.pow_zero, Nat.mul_one]
      rfl
    have hshifted : 52 ≤ n.log2 + 53 := by omega
    have hwhole := isWhole_roundWithAccuracy .positive hpos hbound hshifted
    rw [← hround] at hwhole
    rw [hfloat, Float.Model.ofScientific, hwhole.unpack_pack]
    exact hwhole

/-- The sign of a double that is not zero. -/
def signOf (n : Int) : Sign :=
  if n < 0 then .negative else .positive

/-- A whole number other than zero, of either sign. -/
theorem isWhole_ofInt {n : Int} (hne : n ≠ 0) (hbound : n.natAbs.log2 < 64) :
    IsWhole (signOf n) (nearestWhole n.natAbs) (Float.ofInt n).toModel.unpack := by
  cases n with
  | ofNat n => exact isWhole_ofNat (Int.natAbs_pos.mpr hne) hbound
  | negSucc n =>
    have hwhole := (isWhole_ofNat (Nat.succ_pos n) hbound).neg
    have hfloat : (Float.ofInt (.negSucc n)).toModel = .pack (Float.ofNat n.succ).toModel.unpack.neg := rfl
    rw [hfloat, hwhole.unpack_pack, signOf, if_pos (Int.negSucc_lt_zero n)]
    exact hwhole

/-! ### Whole numbers compared as doubles -/

/-- The whole number that is the double nearest to a whole number of either sign. -/
def nearest (n : Int) : Int :=
  if n < 0 then -(nearestWhole n.natAbs : Int) else nearestWhole n.natAbs

/-- Numbers up to `2 ^ 53` are their own nearest doubles. -/
theorem nearest_of_le {n : Int} (hn : n.natAbs ≤ 2 ^ 53) : nearest n = n := by
  have hwhole : nearestWhole n.natAbs = n.natAbs := by
    rcases Nat.lt_or_eq_of_le hn with hlt | heq
    · exact nearestWhole_of_lt hlt
    · rw [heq]
      rfl
  rw [nearest, hwhole]
  split <;> omega

/-- Whole numbers with one nearest double are as close as the doubles of their size are. -/
theorem near_of_nearest_eq {m n : Int} (h : nearest m = nearest n) :
    2 * (m - n).natAbs ≤ spacing m.natAbs + spacing n.natAbs := by
  have hm := nearestWhole_near m.natAbs
  have hn := nearestWhole_near n.natAbs
  rw [nearest, nearest] at h
  split at h <;> split at h <;> omega

/-- The nearest doubles are the same if the signs and the magnitudes are. -/
theorem nearest_eq_iff {m n : Int} (hm : 0 < nearestWhole m.natAbs) :
    signOf m = signOf n ∧ nearestWhole m.natAbs = nearestWhole n.natAbs ↔ nearest m = nearest n := by
  rw [nearest, nearest, signOf, signOf]
  split <;> split <;> simp only [reduceCtorEq, true_and, false_and, false_iff] <;> omega

/-- No number but zero has the nearest double zero. -/
theorem nearest_ne_zero {n : Int} (hn : 0 < nearestWhole n.natAbs) : nearest n ≠ 0 := by
  have hne := Nat.ne_of_gt hn
  rw [nearest]
  split <;> omega

/-- A number in standard form is neither of the zeros. -/
theorem IsWhole.compare_zero {sign : Sign} {n : Nat} {u : UnpackedFloat} (h : IsWhole sign n u) (s : Sign) :
    u.compare (.zero s) ≠ some .eq ∧ UnpackedFloat.compare (.zero s) u ≠ some .eq := by
  obtain ⟨mantissa, exponent, hpos, rfl, _⟩ := h
  cases sign <;> refine ⟨fun heq => ?_, fun heq => ?_⟩ <;> cases heq

/-- Whole numbers compare as equal doubles exactly if they have one nearest double. -/
theorem ofInt_beq_iff {m n : Int} (hm : m.natAbs.log2 < 64) (hn : n.natAbs.log2 < 64) :
    (Float.ofInt m == Float.ofInt n) = true ↔ nearest m = nearest n := by
  have hzero : (Float.ofInt 0).toModel.unpack = .zero .positive := rfl
  change ((Float.ofInt m).toModel.unpack.compare (Float.ofInt n).toModel.unpack == some .eq) = true ↔ _
  rw [beq_iff_eq]
  by_cases hmzero : m = 0 <;> by_cases hnzero : n = 0
  · rw [hmzero, hnzero, hzero]
    exact iff_of_true rfl rfl
  · have hright := isWhole_ofInt hnzero hn
    rw [hmzero, hzero]
    exact iff_of_false (hright.compare_zero _).2 (nearest_ne_zero hright.pos).symm
  · have hleft := isWhole_ofInt hmzero hm
    rw [hnzero, hzero]
    exact iff_of_false (hleft.compare_zero _).1 (nearest_ne_zero hleft.pos)
  · have hleft := isWhole_ofInt hmzero hm
    have hright := isWhole_ofInt hnzero hn
    exact (hleft.compare_eq_iff hright).trans (nearest_eq_iff hleft.pos)

end ReactiveTemplate.Decimal
