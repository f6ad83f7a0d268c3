import Mathlib
import ReactiveTemplate.Proofs.Json.Words
import ReactiveTemplate.Proofs.Text.Runs

/-!
# Numerals in JSON texts

A number is read off a numeral: a mantissa, which is digits with at most one point between them, and an
exponent, which may have a sign. Reading stops where the numeral does, so what is read does not depend on
the text behind it.
-/

namespace ReactiveTemplate.Json

open Text Decimal

/-! ### Numerals -/

/-- One or more digits. -/
structure IsDigits (cs : List Char) : Prop where
  ne_nil : cs ≠ []
  digits : ∀ c ∈ cs, c.isDigit = true

/-- Digits, or digits with a point between them. -/
inductive IsMantissa : List Char → Prop where
  | whole {cs : List Char} (h : IsDigits cs) : IsMantissa cs
  | point {cs ds : List Char} (h : IsDigits cs) (h' : IsDigits ds) : IsMantissa (cs ++ '.' :: ds)

/-- The letter of an exponent. -/
def IsExponentLetter (c : Char) : Prop :=
  c = 'e' ∨ c = 'E'

/-- Nothing, or the letter of an exponent and digits, which a sign may stand before. -/
inductive IsExponent : List Char → Prop where
  | none : IsExponent []
  | unsigned {letter : Char} {digits : List Char} (hletter : IsExponentLetter letter) (h : IsDigits digits) :
      IsExponent (letter :: digits)
  | signed {letter sign : Char} {digits : List Char} (hletter : IsExponentLetter letter)
      (hsign : sign = '-' ∨ sign = '+') (h : IsDigits digits) : IsExponent (letter :: sign :: digits)

/-- A numeral without a sign before it. -/
inductive IsNumeral : List Char → Prop where
  | parts {mantissa exponent : List Char} (hm : IsMantissa mantissa) (he : IsExponent exponent) :
      IsNumeral (mantissa ++ exponent)

/-- The characters of numerals. -/
def isNumeralChar (c : Char) : Bool :=
  c.isDigit || c == '.' || c == 'e' || c == 'E' || c == '-' || c == '+'

/-! ### What is read is a numeral -/

section Shape

variable {negative : Bool} {significand limit n taken : Nat} {exponent : Int} {cs rest : List Char} {number : Number}

/-- What is gathered are digits. -/
theorem exists_of_gather {n' taken' : Nat} (h : gather limit n taken cs = (n', taken', rest)) :
    ∃ digits, cs = digits ++ rest ∧ (∀ c ∈ digits, c.isDigit = true) ∧ taken' = taken + digits.length := by
  induction cs generalizing n taken with
  | nil =>
    cases h
    exact ⟨[], rfl, List.forall_mem_nil _, rfl⟩
  | cons c cs ih =>
    rw [gather] at h
    split at h
    · next hnext =>
      obtain ⟨digits, rfl, hdigits, rfl⟩ := ih h
      exact ⟨c :: digits, rfl, List.forall_mem_cons.mpr ⟨hnext.1, hdigits⟩, by rw [List.length_cons]; omega⟩
    · cases h
      exact ⟨[], rfl, List.forall_mem_nil _, rfl⟩

/-- Digits are gathered and the others dropped. -/
theorem exists_digits_of_gather {n' taken' : Nat} (h : gather limit n taken cs = (n', taken', rest)) :
    ∃ digits, cs = digits ++ rest.dropWhile Char.isDigit ∧ (∀ c ∈ digits, c.isDigit = true) ∧
      (taken' ≠ taken ∨ atDigit rest = true → digits ≠ []) := by
  obtain ⟨digits, rfl, hdigits, rfl⟩ := exists_of_gather h
  refine ⟨digits ++ rest.takeWhile Char.isDigit, ?_, ?_, ?_⟩
  · rw [List.append_assoc, List.takeWhile_append_dropWhile]
  · exact List.forall_mem_append.mpr ⟨hdigits, fun c hc => List.mem_takeWhile_imp hc⟩
  · rintro hsome hnil
    obtain ⟨rfl, hnone⟩ := List.append_eq_nil_iff.mp hnil
    rcases hsome with hsome | hsome
    · exact hsome rfl
    · cases rest with
      | nil => cases hsome
      | cons c rest =>
        have hc : c.isDigit = true := hsome
        rw [List.takeWhile_cons, hc] at hnone
        cases hnone

/-- What is read from its parts ends where they end. -/
theorem rest_of_ofParts (h : ofParts negative significand exponent cs = .ok (number, rest)) : rest = cs := by
  rw [ofParts] at h
  split at h
  · cases h
    rfl
  · cases h

/-- A sign is read off the front, if there is one. -/
theorem eq_of_readSign {down : Bool} (h : Numeral.readSign cs = (down, rest)) :
    cs = rest ∨ ∃ sign, (sign = '-' ∨ sign = '+') ∧ cs = sign :: rest := by
  rw [Numeral.readSign.eq_def] at h
  split at h
  · cases h
    exact Or.inr ⟨'-', Or.inl rfl, rfl⟩
  · cases h
    exact Or.inr ⟨'+', Or.inr rfl, rfl⟩
  · cases h
    exact Or.inl rfl

/-- An exponent is digits, which a sign may stand before. -/
theorem exists_of_readExponent {letter : Char} (hletter : IsExponentLetter letter)
    (h : readExponent negative significand exponent cs = .ok (number, rest)) :
    ∃ text, letter :: cs = text ++ rest ∧ IsExponent text := by
  rw [readExponent] at h
  generalize hsign : Numeral.readSign cs = signed at h
  obtain ⟨down, behind⟩ := signed
  have hdigits : ∃ digits, behind = digits ++ rest ∧ IsDigits digits := by
    dsimp only at h
    split at h
    · cases h
    · next c more =>
      split at h
      · next hc =>
        generalize hgather : gather maxExponent 0 0 (c :: more) = gathered at h
        obtain ⟨size, taken, left⟩ := gathered
        obtain ⟨digits, hchars, hdigits, _⟩ := exists_digits_of_gather hgather
        have hrest : rest = left.dropWhile Char.isDigit := by
          dsimp only at h
          split at h
          · split at h
            · cases h
            · cases h
              rfl
          · next hleft =>
            rw [rest_of_ofParts h, Ends.dropWhile_eq]
            intro d hd
            simpa [atDigit, Option.mem_def.mp hd] using hleft
        rw [← hrest] at hchars
        refine ⟨digits, hchars, ?_, hdigits⟩
        rintro rfl
        have hends := ends_dropWhile Char.isDigit left c (by rw [← hrest, ← List.nil_append rest, ← hchars]; rfl)
        exact Bool.eq_false_iff.mp hends hc
      · cases h
  obtain ⟨digits, rfl, hdigits⟩ := hdigits
  rcases eq_of_readSign hsign with rfl | ⟨sign, hwritten, rfl⟩
  · exact ⟨letter :: digits, rfl, .unsigned hletter hdigits⟩
  · exact ⟨letter :: sign :: digits, rfl, .signed hletter hwritten hdigits⟩

/-- An exponent is read, or there is none. -/
theorem exists_of_readScaled (h : readScaled negative significand exponent cs = .ok (number, rest)) :
    ∃ text, cs = text ++ rest ∧ IsExponent text := by
  rw [readScaled.eq_def] at h
  split at h
  · exact exists_of_readExponent (Or.inl rfl) h
  · exact exists_of_readExponent (Or.inr rfl) h
  · exact ⟨[], (rest_of_ofParts h).symm, .none⟩

/-- Digits behind a point are read, and an exponent if there is one. -/
theorem exists_of_readFraction (h : readFraction negative significand exponent cs = .ok (number, rest)) :
    ∃ digits text, cs = digits ++ (text ++ rest) ∧ IsDigits digits ∧ IsExponent text := by
  rw [readFraction] at h
  generalize hgather : gather maxSignificand significand 0 cs = gathered at h
  obtain ⟨sum, taken, left⟩ := gathered
  obtain ⟨digits, hchars, hdigits, hsome⟩ := exists_digits_of_gather hgather
  dsimp only at h
  split at h
  · cases h
  · next hread =>
    obtain ⟨text, htext, hexponent⟩ := exists_of_readScaled h
    rw [htext] at hchars
    refine ⟨digits, text, hchars, ⟨hsome ?_, hdigits⟩, hexponent⟩
    rwa [Classical.not_and_iff_not_or_not, not_not] at hread

/-- A number is read off a numeral. -/
theorem exists_of_readNumber (h : readNumber negative cs = .ok (number, rest)) :
    ∃ text, cs = text ++ rest ∧ IsNumeral text := by
  rw [readNumber.eq_def] at h
  split at h
  · cases h
  next c more =>
  split at h
  · cases h
  next hc =>
  rw [not_not] at hc
  split at h
  · cases h
  generalize hgather : gather maxSignificand 0 0 (c :: more) = gathered at h
  obtain ⟨significand, taken, left⟩ := gathered
  obtain ⟨digits, hchars, hdigits, _⟩ := exists_digits_of_gather hgather
  have hne : digits ≠ [] := by
    rintro rfl
    rw [List.nil_append] at hchars
    have hends := ends_dropWhile Char.isDigit left c (by rw [← hchars]; rfl)
    exact Bool.eq_false_iff.mp hends hc
  have hwhole : IsDigits digits := ⟨hne, hdigits⟩
  rw [hchars]
  dsimp only at h
  split at h
  · next behind hbehind =>
    obtain ⟨fraction, text, rfl, hfraction, hexponent⟩ := exists_of_readFraction h
    exact ⟨_, by simp [hbehind], .parts (.point hwhole hfraction) hexponent⟩
  · next behind hbehind =>
    obtain ⟨text, htext, hexponent⟩ := exists_of_readExponent (Or.inl rfl) h
    exact ⟨_, by rw [hbehind, htext, List.append_assoc], .parts (.whole hwhole) hexponent⟩
  · next behind hbehind =>
    obtain ⟨text, htext, hexponent⟩ := exists_of_readExponent (Or.inr rfl) h
    exact ⟨_, by rw [hbehind, htext, List.append_assoc], .parts (.whole hwhole) hexponent⟩
  · have hrest : rest = left.dropWhile Char.isDigit := by
      split at h
      · cases h
        rfl
      · exact rest_of_ofParts h
    exact ⟨_, by rw [hrest, List.append_nil], .parts (.whole hwhole) .none⟩

end Shape

/-! ### What stands behind a numeral does not matter -/

/-- Both fail, or both give the same number and the second one leaves `tail` behind what the first one leaves. -/
inductive Stretched (tail : List Char) :
    Except Fault (Number × List Char) → Except Fault (Number × List Char) → Prop
  | ok (number : Number) (rest : List Char) : Stretched tail (.ok (number, rest)) (.ok (number, rest ++ tail))
  | error (fault fault' : Fault) : Stretched tail (.error fault) (.error fault')

/-- A number is made of its parts whatever is behind. -/
theorem stretched_ofParts (negative : Bool) (significand : Nat) (exponent : Int) (cs tail : List Char) :
    Stretched tail (ofParts negative significand exponent cs) (ofParts negative significand exponent (cs ++ tail)) := by
  rw [ofParts, ofParts]
  split
  · exact .ok _ _
  · exact .error _ _

section Tails

variable {tail : List Char} (htail : Ends isNumeralChar tail)

include htail

/-- No digit is behind. -/
theorem ends_isDigit : Ends Char.isDigit tail :=
  htail.mono fun c hc => by simp [isNumeralChar, hc]

/-- No other character of numerals is behind either. -/
theorem ne_of_behind {c : Char} (hc : isNumeralChar c = true) (rest : List Char) : tail ≠ c :: rest := by
  rintro rfl
  exact Bool.eq_false_iff.mp (htail c rfl) hc

/-- So what does not begin with such a character does not with the text behind either. -/
theorem ne_of_append {c : Char} (hc : isNumeralChar c = true) {cs : List Char} (h : ∀ rest, cs = c :: rest → False)
    (rest : List Char) : cs ++ tail ≠ c :: rest := by
  cases cs with
  | nil => exact ne_of_behind htail hc rest
  | cons d cs =>
    intro heq
    exact h cs (by rw [(List.cons.inj heq).1])

/-- What is gathered does not depend on the text behind. -/
theorem gather_append (limit n taken : Nat) (cs : List Char) :
    gather limit n taken (cs ++ tail) =
      ((gather limit n taken cs).1, (gather limit n taken cs).2.1, (gather limit n taken cs).2.2 ++ tail) := by
  induction cs generalizing n taken with
  | nil =>
    cases tail with
    | nil => rfl
    | cons c tail =>
      have hc : c.isDigit = false := ends_isDigit htail c rfl
      simp [gather, hc]
  | cons c cs ih =>
    rw [List.cons_append, gather, gather]
    split
    · exact ih _ _
    · rfl

/-- Whether a digit comes next does not depend on the text behind. -/
theorem atDigit_append (cs : List Char) : atDigit (cs ++ tail) = atDigit cs := by
  cases cs with
  | nil =>
    rw [List.nil_append, atDigit, Bool.eq_iff_iff]
    cases tail with
    | nil => simp [atDigit]
    | cons c tail => simp [atDigit, ends_isDigit htail c rfl]
  | cons c cs => rfl

/-- A sign is read whatever is behind. -/
theorem readSign_append (cs : List Char) :
    Numeral.readSign (cs ++ tail) = ((Numeral.readSign cs).1, (Numeral.readSign cs).2 ++ tail) := by
  cases cs with
  | nil =>
    rw [List.nil_append, Numeral.readSign.eq_def]
    split
    · exact absurd rfl (ne_of_behind htail rfl _)
    · exact absurd rfl (ne_of_behind htail rfl _)
    · rfl
  | cons c cs =>
    rw [List.cons_append, Numeral.readSign.eq_def, Numeral.readSign.eq_def]
    split <;> simp_all

/-- An exponent is read whatever is behind. -/
theorem stretched_readExponent (negative : Bool) (significand : Nat) (exponent : Int) (cs : List Char) :
    Stretched tail (readExponent negative significand exponent cs)
      (readExponent negative significand exponent (cs ++ tail)) := by
  rw [readExponent, readExponent, readSign_append htail]
  generalize Numeral.readSign cs = signed
  obtain ⟨down, cs⟩ := signed
  dsimp only
  cases cs with
  | nil =>
    cases tail with
    | nil => exact .error _ _
    | cons c tail =>
      rw [List.nil_append]
      dsimp only
      rw [if_neg (Bool.eq_false_iff.mp (ends_isDigit htail c rfl))]
      exact .error _ _
  | cons c cs =>
    rw [List.cons_append]
    dsimp only
    split
    · rw [← List.cons_append, gather_append htail]
      dsimp only
      rw [atDigit_append htail, (ends_isDigit htail).dropWhile_append]
      split
      · split
        · exact .error _ _
        · exact .ok _ _
      · exact stretched_ofParts _ _ _ _ _
    · exact .error _ _

/-- The exponent of a number is read whatever is behind. -/
theorem stretched_readScaled (negative : Bool) (significand : Nat) (exponent : Int) (cs : List Char) :
    Stretched tail (readScaled negative significand exponent cs)
      (readScaled negative significand exponent (cs ++ tail)) := by
  rw [readScaled.eq_def]
  split
  · exact stretched_readExponent htail _ _ _ _
  · exact stretched_readExponent htail _ _ _ _
  · next hlower hupper =>
    have hother {letter : Char} (hletter : isNumeralChar letter = true) (hcs : ∀ rest, cs = letter :: rest → False)
        (rest : List Char) : cs ++ tail ≠ letter :: rest := ne_of_append htail hletter hcs rest
    rw [readScaled.eq_def]
    split
    · exact absurd ‹_› (hother rfl hlower _)
    · exact absurd ‹_› (hother rfl hupper _)
    · exact stretched_ofParts _ _ _ _ _

/-- A fraction is read whatever is behind. -/
theorem stretched_readFraction (negative : Bool) (significand : Nat) (exponent : Int) (cs : List Char) :
    Stretched tail (readFraction negative significand exponent cs)
      (readFraction negative significand exponent (cs ++ tail)) := by
  rw [readFraction, readFraction, gather_append htail]
  dsimp only
  rw [atDigit_append htail, (ends_isDigit htail).dropWhile_append]
  split
  · exact .error _ _
  · exact stretched_readScaled htail _ _ _ _

/-- A number is read whatever is behind. -/
theorem stretched_readNumber (negative : Bool) (cs : List Char) :
    Stretched tail (readNumber negative cs) (readNumber negative (cs ++ tail)) := by
  cases cs with
  | nil =>
    cases tail with
    | nil => exact .error _ _
    | cons c tail =>
      rw [List.nil_append, readNumber, readNumber, if_pos (Bool.eq_false_iff.mp (ends_isDigit htail c rfl))]
      exact .error _ _
  | cons c more =>
    rw [List.cons_append, readNumber, readNumber, atDigit_append htail]
    split
    · exact .error _ _
    split
    · exact .error _ _
    rw [← List.cons_append, gather_append htail]
    generalize gather maxSignificand 0 0 (c :: more) = gathered
    obtain ⟨significand, taken, rest⟩ := gathered
    dsimp only
    rw [(ends_isDigit htail).takeWhile_append, (ends_isDigit htail).dropWhile_append]
    generalize rest.dropWhile Char.isDigit = behind
    split
    · exact stretched_readFraction htail _ _ _ _
    · exact stretched_readExponent htail _ _ _ _
    · exact stretched_readExponent htail _ _ _ _
    · next hpoint hlower hupper =>
      by_cases hleft : (rest.takeWhile Char.isDigit).isEmpty = true
      · rw [if_pos hleft]
        split
        · exact absurd ‹_› (ne_of_append htail rfl hpoint _)
        · exact absurd ‹_› (ne_of_append htail rfl hlower _)
        · exact absurd ‹_› (ne_of_append htail rfl hupper _)
        · rw [if_pos hleft]
          exact .ok _ _
      · rw [if_neg hleft]
        split
        · exact absurd ‹_› (ne_of_append htail rfl hpoint _)
        · exact absurd ‹_› (ne_of_append htail rfl hlower _)
        · exact absurd ‹_› (ne_of_append htail rfl hupper _)
        · rw [if_neg hleft]
          exact stretched_ofParts _ _ _ _ _

end Tails

/-- A numeral is read alone as it is in front of other text. -/
theorem readNumber_alone {negative : Bool} {text rest : List Char} {number : Number}
    (h : readNumber negative (text ++ rest) = .ok (number, rest)) (hrest : Ends isNumeralChar rest) :
    readNumber negative text = .ok (number, []) := by
  have hstretched := stretched_readNumber hrest negative text
  rw [h] at hstretched
  generalize readNumber negative text = alone, hfound : Except.ok (number, rest) = found at hstretched
  cases hstretched with
  | ok other left =>
    rw [Except.ok.injEq, Prod.mk.injEq] at hfound
    rw [hfound.1, List.self_eq_append_left.mp hfound.2]
  | error => cases hfound

/-! ### Literals -/

/-- What scalar values are read from: a word, or a numeral that a minus may stand before. -/
inductive IsLiteral : List Char → Prop where
  | word {word : String × Value} (h : word ∈ wordValues) : IsLiteral word.1.toList
  | numeral {cs : List Char} (h : IsNumeral cs) : IsLiteral cs
  | negated {cs : List Char} (h : IsNumeral cs) : IsLiteral ('-' :: cs)

/-- What starts with a minus is read as a number. -/
theorem readValue_minus (fuel depth : Nat) (cs : List Char) :
    readValue (fuel + 1) depth ('-' :: cs) = readNumber true cs >>= fun r => pure (.number r.1, r.2) := by
  rw [readValue, skipBlank_cons rfl]
  rfl

/-- A numeral starts with a digit. -/
theorem IsNumeral.exists_first {cs : List Char} (h : IsNumeral cs) : ∃ c rest, cs = c :: rest ∧ c.isDigit = true := by
  obtain @⟨mantissa, exponent, hm, _⟩ := h
  have hdigits {ds : List Char} (h : IsDigits ds) (rest : List Char) :
      ∃ c more, ds ++ rest = c :: more ∧ c.isDigit = true := by
    obtain ⟨c, more, rfl⟩ := List.exists_cons_of_ne_nil h.ne_nil
    exact ⟨c, more ++ rest, rfl, h.digits c List.mem_cons_self⟩
  cases hm with
  | whole h => exact hdigits h _
  | point h _ =>
    rw [List.append_assoc]
    exact hdigits h _

/-- A numeral is read alone as its number. -/
theorem read_numeral {cs : List Char} {number : Number} (h : IsNumeral cs)
    (hread : readNumber false cs = .ok (number, [])) : read (String.ofList cs) = .ok (.number number) := by
  obtain ⟨c, rest, rfl, hc⟩ := h.exists_first
  rw [read, String.toList_ofList, readValue_digit hc, hread]
  rfl

/-- A numeral with a minus before it is read alone as its number. -/
theorem read_negated {cs : List Char} {number : Number} (hread : readNumber true cs = .ok (number, [])) :
    read (String.ofList ('-' :: cs)) = .ok (.number number) := by
  rw [read, String.toList_ofList, readValue_minus, hread]
  rfl

/-- A scalar value is read off a literal, and off the literal alone as it is in front of other text. -/
theorem exists_literal_of_readValue {fuel depth : Nat} {cs rest : List Char} {value : Value}
    (h : readValue fuel depth cs = .ok (value, rest)) (hscalar : value.IsScalar)
    (hrest : Ends isNumeralChar rest) :
    ∃ literal, skipBlank cs = literal ++ rest ∧ IsLiteral literal ∧ read (String.ofList literal) = .ok value := by
  cases begins_of_readValue h with
  | word hmem hwhole => exact ⟨_, hwhole, .word hmem, by rw [String.ofList_toList, read_word hmem]⟩
  | number _ hread =>
    obtain ⟨text, htext, hnumeral⟩ := exists_of_readNumber hread
    rw [htext] at hread ⊢
    exact ⟨_, rfl, .numeral hnumeral, read_numeral hnumeral (readNumber_alone hread hrest)⟩
  | negated hwhole hread =>
    obtain ⟨text, rfl, hnumeral⟩ := exists_of_readNumber hread
    exact ⟨_, hwhole, .negated hnumeral, read_negated (readNumber_alone hread hrest)⟩
  | compound _ _ hvalue => exact absurd hscalar hvalue

/-- The text of a scalar value is a literal, which is read as the same value, with blanks around it. -/
theorem exists_literal_of_read {text : String} {value : Value} (h : read text = .ok value)
    (hscalar : value.IsScalar) :
    ∃ before literal behind, text.toList = before ++ literal ++ behind ∧ (∀ c ∈ before, isJsonBlank c = true) ∧
      (∀ c ∈ behind, isJsonBlank c = true) ∧ IsLiteral literal ∧ read (String.ofList literal) = .ok value := by
  rw [read] at h
  obtain ⟨⟨found, rest⟩, hfound, hrest⟩ := ok_of_bind h
  dsimp only at hrest
  split at hrest
  · next hblank =>
    cases hrest
    have hbehind : ∀ c ∈ rest, isJsonBlank c = true := List.dropWhile_eq_nil_iff.mp hblank
    have hends : Ends isNumeralChar rest := by
      intro c hc
      have hblank := hbehind c (List.mem_of_mem_head? hc)
      simp only [isJsonBlank, Bool.or_eq_true, beq_iff_eq] at hblank
      rcases hblank with ((rfl | rfl) | rfl) | rfl <;> decide
    obtain ⟨literal, hskip, hliteral, hread⟩ := exists_literal_of_readValue hfound hscalar hends
    refine ⟨text.toList.takeWhile isJsonBlank, literal, rest, ?_, fun c hc => List.mem_takeWhile_imp hc, hbehind,
      hliteral, hread⟩
    rw [List.append_assoc, ← hskip, skipBlank, List.takeWhile_append_dropWhile]
  · cases hrest

end ReactiveTemplate.Json
