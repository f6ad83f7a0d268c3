import Mathlib
import ReactiveTemplate.Json.Reader
import ReactiveTemplate.Json.Writer
import ReactiveTemplate.Proofs.Fallible

/-!
# Texts of one word

A whole number is read back from its decimal digits. A text that starts with a letter or an underscore is
no JSON text, unless it is one of the three words.
-/

namespace ReactiveTemplate

namespace Decimal

/-- A number is what its decimal digits write. -/
theorem ofDigits_toDigits (n : Nat) : ofDigits (Nat.toDigits 10 n) = n :=
  Nat.ofDigitChars_toDigits (by decide) (by decide)

/-- Decimal digits are digits. -/
theorem isDigit_of_mem_toDigits {n : Nat} {c : Char} (h : c ∈ Nat.toDigits 10 n) : c.isDigit = true :=
  Nat.isDigit_of_mem_toDigits (by decide) (by decide) h

/-- Only the number zero is written with a zero in front. -/
theorem rest_of_toDigits_eq_zero_cons {n : Nat} {rest : List Char} (h : Nat.toDigits 10 n = '0' :: rest) :
    rest = [] := by
  induction n using Nat.strongRecOn generalizing rest with
  | ind n ih =>
    rw [Nat.toDigits_eq_if (by decide)] at h
    split at h
    · exact (List.cons.inj h).2.symm
    · next hlarge =>
      obtain ⟨c, more, hdigits⟩ := List.exists_cons_of_ne_nil (Nat.toDigits_ne_nil (n := n / 10) (b := 10))
      rw [hdigits, List.cons_append, List.cons.injEq] at h
      obtain ⟨rfl, _⟩ := h
      -- What is written before the last digit would be zero too.
      have hmore := ih (n / 10) (by omega) hdigits
      have hzero : n / 10 = 0 := by
        rw [← ofDigits_toDigits (n / 10), hdigits, hmore]
        rfl
      omega

/-- The codes of the digits. -/
theorem toNat_of_isDigit {c : Char} (h : c.isDigit = true) : 48 ≤ c.toNat ∧ c.toNat ≤ 57 := by
  simp only [Char.isDigit, Bool.and_eq_true, decide_eq_true_eq, ge_iff_le, UInt32.le_iff_toNat_le] at h
  exact h

/-- A digit is what its number is written with. -/
theorem digitChar_of_isDigit {c : Char} (h : c.isDigit = true) : Nat.digitChar (c.toNat - '0'.toNat) = c := by
  obtain ⟨hlow, hhigh⟩ := toNat_of_isDigit h
  rw [← Char.ofNat_toNat c]
  generalize c.toNat = n at hlow hhigh
  interval_cases n <;> rfl

/-- Digits without a zero in front are those that their number is written with. -/
theorem toDigits_ofDigits {cs : List Char} (hne : cs ≠ []) (hdigits : ∀ c ∈ cs, c.isDigit = true)
    (hzero : ∀ rest, cs = '0' :: rest → rest = []) : Nat.toDigits 10 (ofDigits cs) = cs := by
  induction cs using List.reverseRecOn with
  | nil => contradiction
  | append_singleton before c ih =>
    obtain ⟨hbefore, hlast⟩ := List.forall_mem_append.mp hdigits
    have hc := hlast c (List.mem_singleton_self c)
    have hdigit : c.toNat - '0'.toNat < 10 := by
      have hhigh := (toNat_of_isDigit hc).2
      rw [show '0'.toNat = 48 from rfl]
      omega
    have hsum : ofDigits (before ++ [c]) = 10 * ofDigits before + (c.toNat - '0'.toNat) := by
      simp [ofDigits]
    rw [hsum]
    rcases eq_or_ne before [] with rfl | hsome
    · rw [show ofDigits [] = 0 from rfl, Nat.mul_zero, Nat.zero_add, Nat.toDigits_of_lt_base hdigit,
        digitChar_of_isDigit hc, List.nil_append]
    · -- Digits in front of others do not begin with a zero, so what they write is not zero.
      have hfront : ∀ rest, before ≠ '0' :: rest := by
        rintro rest rfl
        simpa using hzero (rest ++ [c]) rfl
      have hwritten := ih hsome hbefore fun rest heq => absurd heq (hfront rest)
      have hpos : 0 < ofDigits before := by
        refine Nat.pos_of_ne_zero fun hnone => hfront [] ?_
        rw [← hwritten, hnone]
        rfl
      rw [← Nat.toDigits_append_toDigits (by decide) hpos hdigit, hwritten, Nat.toDigits_of_lt_base hdigit,
        digitChar_of_isDigit hc]

end Decimal

namespace Json

open Text Decimal

/-! ### Numbers -/

/-- Digits never make a number smaller. -/
theorem le_foldl_digits (n : Nat) (cs : List Char) :
    n ≤ cs.foldl (fun n c => 10 * n + (c.toNat - '0'.toNat)) n := by
  induction cs generalizing n with
  | nil => exact Nat.le_refl n
  | cons c cs ih => exact (by omega : n ≤ 10 * n + (c.toNat - '0'.toNat)).trans (ih _)

/-- Digits of a number within the limit are all gathered. -/
theorem gather_digits {limit n taken : Nat} {cs : List Char} (hdigits : ∀ c ∈ cs, c.isDigit = true)
    (hlimit : cs.foldl (fun n c => 10 * n + (c.toNat - '0'.toNat)) n ≤ limit) :
    gather limit n taken cs =
      (cs.foldl (fun n c => 10 * n + (c.toNat - '0'.toNat)) n, taken + cs.length, []) := by
  induction cs generalizing n taken with
  | nil => rfl
  | cons c cs ih =>
    obtain ⟨hc, hcs⟩ := List.forall_mem_cons.mp hdigits
    have hnext : 10 * n + (c.toNat - '0'.toNat) ≤ limit := (le_foldl_digits _ cs).trans hlimit
    rw [gather, if_pos ⟨hc, hnext⟩, ih hcs hlimit, List.foldl_cons, List.length_cons]
    congr 2
    omega

/-- A number is read back from its digits. -/
theorem readNumber_toDigits {n : Nat} (h : n ≤ maxSignificand) :
    readNumber false (Nat.toDigits 10 n) = .ok (.integer n, []) := by
  have hgather : gather maxSignificand 0 0 (Nat.toDigits 10 n) = _ :=
    gather_digits (fun c => isDigit_of_mem_toDigits) ((ofDigits_toDigits n).trans_le h)
  rw [show (Nat.toDigits 10 n).foldl _ 0 = n from ofDigits_toDigits n] at hgather
  obtain ⟨c, more, hdigits⟩ := List.exists_cons_of_ne_nil (Nat.toDigits_ne_nil (n := n) (b := 10))
  have hc : c.isDigit = true := isDigit_of_mem_toDigits (n := n) (by simp [hdigits])
  have hzero : ¬(c = '0' ∧ atDigit more = true) := by
    intro hzero
    obtain ⟨rfl, hmore⟩ := hzero
    rw [rest_of_toDigits_eq_zero_cons hdigits] at hmore
    contradiction
  rw [hdigits] at hgather ⊢
  simp [readNumber, hc, hzero, hgather, ofWhole]

/-- Only blanks are skipped. -/
theorem skipBlank_cons {c : Char} (h : isJsonBlank c = false) (cs : List Char) :
    skipBlank (c :: cs) = c :: cs := by
  rw [skipBlank, List.dropWhile_cons, h]
  rfl

/-- What starts with a digit is read as a number. -/
theorem readValue_digit {c : Char} (hc : c.isDigit = true) (fuel depth : Nat) (cs : List Char) :
    readValue (fuel + 1) depth (c :: cs) = readNumber false (c :: cs) >>= fun r => pure (.number r.1, r.2) := by
  have hblank : isJsonBlank c = false := by
    simp only [isJsonBlank, Bool.or_eq_false_iff, beq_eq_false_iff_ne]
    refine ⟨⟨⟨?_, ?_⟩, ?_⟩, ?_⟩ <;> rintro rfl <;> contradiction
  rw [readValue, skipBlank_cons hblank]
  split
  case h_9 heq =>
    cases heq
    rw [if_pos hc]
  all_goals rename_i heq; cases heq
  all_goals contradiction

/-- A whole number that is not negative is read back as written. -/
theorem read_toString {n : Nat} (h : n ≤ maxSignificand) :
    read (toString n) = .ok (.number (.integer n)) := by
  have hchars : (toString n).toList = Nat.toDigits 10 n := by simp
  obtain ⟨c, more, hdigits⟩ := List.exists_cons_of_ne_nil (Nat.toDigits_ne_nil (n := n) (b := 10))
  have hc : c.isDigit = true := isDigit_of_mem_toDigits (n := n) (by simp [hdigits])
  rw [read, hchars, hdigits, readValue_digit hc, ← hdigits, readNumber_toDigits h]
  rfl

/-! ### Words -/

/-- A word is read off the front. -/
theorem readWord_eq_ok_iff {word cs rest : List Char} :
    readWord word cs = .ok rest ↔ cs = word ++ rest := by
  induction word generalizing cs with
  | nil => rw [readWord, Except.ok.injEq, List.nil_append]
  | cons w word ih =>
    cases cs with
    | nil => rw [readWord]; simp
    | cons c cs =>
      rw [readWord, List.cons_append, List.cons.injEq]
      split
      · next heq => rw [ih, and_iff_right heq]
      · next hne => simp [hne]

/-- A letter or an underscore is no digit. -/
theorem not_isDigit_of_letter {c : Char} (h : c.isAlpha = true ∨ c = '_') : ¬c.isDigit = true := by
  rcases h with h | rfl
  · simp only [Char.isAlpha, Char.isUpper, Char.isLower, Char.isDigit, Bool.or_eq_true, Bool.and_eq_true,
      decide_eq_true_eq, ge_iff_le, UInt32.le_iff_toNat_le] at h ⊢
    simp at h ⊢
    omega
  · decide

/-- The values that are written as words. -/
def wordValues : List (String × Value) :=
  [("null", .null), ("true", .bool true), ("false", .bool false)]

/-- The words are read as their values. -/
theorem read_word {word : String × Value} (h : word ∈ wordValues) : read word.1 = .ok word.2 := by
  simp only [wordValues, List.mem_cons, List.not_mem_nil, or_false] at h
  rcases h with rfl | rfl | rfl <;> rfl

/-- A value that is no text, array or object. -/
def Value.IsScalar : Value → Prop
  | .null | .bool _ | .number _ => True
  | .string _ | .array _ | .object _ => False

/-- What a value with some characters behind it begins with: one of the words, a number that a minus may stand
before, or the character that opens a text, an array or an object. -/
inductive Begins (whole : List Char) : Value → List Char → Prop where
  | word {word : String × Value} {rest : List Char} (hmem : word ∈ wordValues)
      (hwhole : whole = word.1.toList ++ rest) : Begins whole word.2 rest
  | number {number : Number} {rest : List Char} (hfirst : ∃ c more, whole = c :: more ∧ c.isDigit = true)
      (hread : readNumber false whole = .ok (number, rest)) : Begins whole (.number number) rest
  | negated {number : Number} {more rest : List Char} (hwhole : whole = '-' :: more)
      (hread : readNumber true more = .ok (number, rest)) : Begins whole (.number number) rest
  | compound {value : Value} {c : Char} {more rest : List Char} (hwhole : whole = c :: more)
      (hc : c = '"' ∨ c = '[' ∨ c = '{') (hvalue : ¬value.IsScalar) : Begins whole value rest

/-- A value is read off what begins so. -/
theorem begins_of_readValue {fuel depth : Nat} {cs rest : List Char} {value : Value}
    (h : readValue fuel depth cs = .ok (value, rest)) : Begins (skipBlank cs) value rest := by
  cases fuel with
  | zero => cases h
  | succ fuel =>
    rw [readValue] at h
    split at h
    · cases h
    · next hfirst =>
      obtain ⟨_, hread, heq⟩ := ok_of_bind h
      cases heq
      rw [hfirst, readWord_eq_ok_iff.mp hread]
      exact @Begins.word _ ("null", .null) _ (by simp [wordValues]) rfl
    · next hfirst =>
      obtain ⟨_, hread, heq⟩ := ok_of_bind h
      cases heq
      rw [hfirst, readWord_eq_ok_iff.mp hread]
      exact @Begins.word _ ("true", .bool true) _ (by simp [wordValues]) rfl
    · next hfirst =>
      obtain ⟨_, hread, heq⟩ := ok_of_bind h
      cases heq
      rw [hfirst, readWord_eq_ok_iff.mp hread]
      exact @Begins.word _ ("false", .bool false) _ (by simp [wordValues]) rfl
    · next hfirst =>
      obtain ⟨_, _, heq⟩ := ok_of_bind h
      cases heq
      exact .compound hfirst (Or.inl rfl) id
    · next hfirst =>
      refine .compound hfirst (Or.inr (Or.inl rfl)) ?_
      split at h
      · cases h
      split at h
      · cases h
        exact id
      · cases h
      · obtain ⟨_, _, heq⟩ := ok_of_bind h
        cases heq
        exact id
    · next hfirst =>
      refine .compound hfirst (Or.inr (Or.inr rfl)) ?_
      split at h
      · cases h
      split at h
      · cases h
        exact id
      · cases h
      · obtain ⟨_, _, heq⟩ := ok_of_bind h
        cases heq
        exact id
    · next hfirst =>
      obtain ⟨_, hread, heq⟩ := ok_of_bind h
      cases heq
      exact .negated hfirst hread
    · next hfirst =>
      split at h
      · next hdigit =>
        obtain ⟨_, hread, heq⟩ := ok_of_bind h
        cases heq
        exact .number ⟨_, _, hfirst, hdigit⟩ (hfirst ▸ hread)
      · cases h

/-- What starts with a letter or an underscore is read as one of the words. -/
theorem eq_of_readValue_letter {c : Char} (hc : c.isAlpha = true ∨ c = '_') {fuel depth : Nat}
    {cs rest : List Char} {value : Value} (h : readValue fuel depth (c :: cs) = .ok (value, rest)) :
    ∃ word ∈ wordValues, c :: cs = word.1.toList ++ rest := by
  have hother (d : Char) (hd : d.isAlpha = false ∧ d ≠ '_') : c ≠ d := by
    rintro rfl
    rcases hc with hc | hc
    · exact Bool.eq_false_iff.mp hd.1 hc
    · exact hd.2 hc
  have hblank : isJsonBlank c = false := by
    simp only [isJsonBlank, Bool.or_eq_false_iff, beq_eq_false_iff_ne]
    exact ⟨⟨⟨hother _ (by decide), hother _ (by decide)⟩, hother _ (by decide)⟩, hother _ (by decide)⟩
  have hbegins := begins_of_readValue h
  rw [skipBlank_cons hblank] at hbegins
  cases hbegins with
  | word hmem hwhole => exact ⟨_, hmem, hwhole⟩
  | number hfirst =>
    obtain ⟨d, more, hwhole, hd⟩ := hfirst
    obtain ⟨rfl, _⟩ := List.cons.inj hwhole
    exact absurd hd (not_isDigit_of_letter hc)
  | negated hwhole => exact absurd (List.cons.inj hwhole).1 (hother _ (by decide))
  | compound hwhole hopens =>
    obtain ⟨rfl, _⟩ := List.cons.inj hwhole
    rcases hopens with hopens | hopens | hopens <;> exact absurd hopens (hother _ (by decide))

/-- A name that is none of the words is no JSON text. -/
theorem read_eq_error_of_name {text : String} {c : Char} {cs : List Char} (htext : text.toList = c :: cs)
    (hc : c.isAlpha = true ∨ c = '_') (hblank : ∀ d ∈ text.toList, isJsonBlank d = false)
    (hword : ∀ word ∈ wordValues, text ≠ word.1) : ∃ fault, read text = .error fault := by
  cases hread : read text with
  | error fault => exact ⟨fault, rfl⟩
  | ok value =>
    rw [read, htext] at hread
    obtain ⟨⟨found, rest⟩, hfound, hrest⟩ := ok_of_bind hread
    obtain ⟨word, hmem, heq⟩ := eq_of_readValue_letter hc hfound
    rw [htext, heq] at hblank
    have hskip : skipBlank rest = rest := by
      cases rest with
      | nil => rfl
      | cons d more => exact skipBlank_cons (hblank d (by simp)) more
    simp only [hskip] at hrest
    cases rest with
    | cons d more => cases hrest
    | nil =>
      rw [List.append_nil, ← htext] at heq
      exact absurd (String.toList_inj.mp heq) (hword word hmem)

end Json

end ReactiveTemplate
