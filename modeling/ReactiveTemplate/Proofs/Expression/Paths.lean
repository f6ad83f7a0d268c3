import Mathlib
import ReactiveTemplate.Proofs.Expression.Grammar
import ReactiveTemplate.Proofs.Json.Words
import ReactiveTemplate.Proofs.Text.Runs
import ReactiveTemplate.Proofs.Text.Words

/-!
# Paths and their texts

A path is read back from its text if its names are parts: texts without separators, and without blanks
around them. A key must not be an index, which would be read instead of it.

These are the paths that are read from any text, `normal_iff_exists_ofText?`. So the text of a path that
has been read is a normal form of what was written: it is read as the same path again.
-/

namespace ReactiveTemplate.Expression

open ReactiveTemplate.Text ReactiveTemplate.Decimal

/-- Letters, digits and the underscore. -/
def isWordChar (c : Char) : Bool :=
  c.isAlphanum || c == '_'

/-- Letters, digits and the underscore stand in values. -/
theorem isValueChar_of_isWordChar {c : Char} (h : isWordChar c = true) : isValueChar c = true := by
  rw [isWordChar, Bool.or_eq_true, beq_iff_eq] at h
  rcases h with h | rfl
  · simp [isValueChar, h]
  · decide

namespace Path

/-- The parts of characters, without blanks around them. -/
def partsOf (cs : List Char) : List (List Char) :=
  ((cs.splitOnP isSeparator).map trim).filter (· ≠ [])

/-- A text that is one part of a path, as it stands. -/
structure IsPart (cs : List Char) : Prop where
  ne_nil : cs ≠ []
  trim_eq : trim cs = cs
  no_separator : ∀ c ∈ cs, isSeparator c = false

/-- A run of letters, digits and underscores is a part. -/
theorem isPart_of_isWordChar {cs : List Char} (hne : cs ≠ []) (h : ∀ c ∈ cs, isWordChar c = true) :
    IsPart cs where
  ne_nil := hne
  trim_eq := trim_of_no_blanks fun c hc =>
    isBlank_eq_false_of_isValueChar (isValueChar_of_isWordChar (h c hc))
  no_separator := by
    intro c hc
    have hword := h c hc
    simp only [isSeparator, Bool.or_eq_false_iff, beq_eq_false_iff_ne]
    refine ⟨⟨?_, ?_⟩, ?_⟩ <;> rintro rfl <;> contradiction

/-- A part is alone in front of the end. -/
theorem partsOf_part {part : List Char} (h : IsPart part) : partsOf part = [part] := by
  rw [partsOf, List.splitOnP_eq_singleton h.no_separator, List.map_singleton, h.trim_eq,
    List.filter_cons_of_pos (by simpa using h.ne_nil), List.filter_nil]

/-- A part ends at a separator. -/
theorem partsOf_part_append {part : List Char} (h : IsPart part) {separator : Char}
    (hseparator : isSeparator separator = true) (rest : List Char) :
    partsOf (part ++ separator :: rest) = part :: partsOf rest := by
  rw [partsOf, List.splitOnP_append_cons _ _ hseparator, List.map_append, List.filter_append]
  change partsOf part ++ partsOf rest = _
  rw [partsOf_part h, List.singleton_append]

/-- A separator in front does not matter. -/
theorem partsOf_separator {separator : Char} (hseparator : isSeparator separator = true)
    (rest : List Char) : partsOf (separator :: rest) = partsOf rest := by
  rw [← List.nil_append (separator :: rest), partsOf, List.splitOnP_append_cons _ _ hseparator,
    List.map_append, List.filter_append]
  rfl

/-- A part in front of separators and more. -/
theorem partsOf_append {part rest : List Char} (h : IsPart part)
    (hrest : ∀ c ∈ rest.head?, isSeparator c = true) : partsOf (part ++ rest) = part :: partsOf rest := by
  cases rest with
  | nil => rw [List.append_nil, partsOf_part h]; rfl
  | cons separator rest =>
    have hseparator := hrest separator rfl
    rw [partsOf_part_append h hseparator, partsOf_separator hseparator]

/-- What a text is cut into are parts as they stand. -/
theorem isPart_of_mem_partsOf {cs part : List Char} (h : part ∈ partsOf cs) : IsPart part := by
  obtain ⟨hmem, hne⟩ := List.mem_filter.mp h
  obtain ⟨piece, hpiece, rfl⟩ := List.mem_map.mp hmem
  refine ⟨by simpa using hne, trim_trim piece, fun c hc => ?_⟩
  exact (exists_mem_splitOnP.mp ⟨piece, hpiece, mem_of_mem_trim hc⟩).2

end Path

namespace Step

/-- The part of a path's text that a step is read from. -/
def part : Step → List Char
  | key name => name.toList
  | index n => Nat.toDigits 10 n

/-- A step that is read back as itself: an index within bounds, or a key that is a part and no index. -/
inductive Normal : Step → Prop where
  | key {name : String} (hpart : Path.IsPart name.toList) (hindex : index? name.toList = none) :
      Normal (key name)
  | index {n : Nat} (h : n ≤ maxIndex) : Normal (index n)

/-- Digits are letters, digits or underscores. -/
theorem isWordChar_of_mem_toDigits {n : Nat} {c : Char} (h : c ∈ Nat.toDigits 10 n) : isWordChar c = true := by
  simp [isWordChar, Char.isAlphanum, isDigit_of_mem_toDigits h]

/-- A part without a sign is an index if it is digits that write one. -/
theorem index?_of_unsigned {part : List Char} (h : ∀ rest, part ≠ '+' :: rest) :
    index? part = if part ≠ [] ∧ part.all Char.isDigit ∧ ofDigits part ≤ maxIndex then some (ofDigits part)
      else none := by
  rw [index?]
  exact h

/-- Digits are read as the index that they write. -/
theorem index?_toDigits {n : Nat} (h : n ≤ maxIndex) : index? (Nat.toDigits 10 n) = some n := by
  have hdigits : (Nat.toDigits 10 n).all Char.isDigit = true := by
    rw [List.all_eq_true]
    exact fun c => isDigit_of_mem_toDigits
  have hplus : ∀ rest, Nat.toDigits 10 n ≠ '+' :: rest := by
    intro rest heq
    exact absurd (isDigit_of_mem_toDigits (n := n) (c := '+') (by simp [heq])) (by decide)
  rw [index?_of_unsigned hplus, ofDigits_toDigits]
  exact if_pos ⟨Nat.toDigits_ne_nil, hdigits, h⟩

/-- An index that is read is within bounds. -/
theorem le_maxIndex_of_index? {part : List Char} {n : Nat} (h : index? part = some n) : n ≤ maxIndex := by
  simp only [index?, Option.ite_none_right_eq_some, Option.some.injEq] at h
  obtain ⟨⟨_, _, hle⟩, rfl⟩ := h
  exact hle

/-- A step that is read from a part is normal. What is no index, digits beyond the bounds included, is a
key that is no index either. -/
theorem normal_ofPart {part : List Char} (h : Path.IsPart part) : (ofPart part).Normal := by
  rw [ofPart]
  cases hindex : index? part with
  | none => exact .key (by rwa [String.toList_ofList]) (by rwa [String.toList_ofList])
  | some n => exact .index (le_maxIndex_of_index? hindex)

namespace Normal

variable {step : Step}

/-- The part of such a step is one. -/
theorem isPart (h : step.Normal) : Path.IsPart step.part := by
  cases h with
  | key hpart => exact hpart
  | index => exact Path.isPart_of_isWordChar Nat.toDigits_ne_nil fun c => isWordChar_of_mem_toDigits

/-- Such a step is read from its part. -/
theorem ofPart_part (h : step.Normal) : ofPart step.part = step := by
  cases h with
  | key _ hindex => rw [part, ofPart, hindex, String.ofList_toList]
  | index h => rw [part, ofPart, index?_toDigits h]

end Normal

end Step

namespace Path

/-- A path that is read back as itself. -/
structure Normal (p : Path) : Prop where
  root : IsPart p.root.toList
  steps : ∀ step ∈ p.steps, step.Normal

/-- The texts of steps, one after another. -/
def stepChars (steps : List Step) : List Char :=
  steps.flatMap fun step => step.text.toList

/-- The text of a path is its root and the texts of its steps. -/
theorem toList_text (p : Path) : p.text.toList = p.root.toList ++ stepChars p.steps := by
  rw [text, String.toList_append, String.toList_join, List.flatMap_map, stepChars]

/-- The texts of steps start with a separator. -/
theorem isSeparator_of_stepChars (steps : List Step) :
    ∀ c ∈ (stepChars steps).head?, isSeparator c = true := by
  intro c hc
  cases steps with
  | nil => contradiction
  | cons step steps =>
    rw [stepChars, List.flatMap_cons] at hc
    cases step with
    | key name =>
      simp only [Step.text, String.toList_append] at hc
      cases hc
      rfl
    | index n =>
      simp only [Step.text, String.toList_append] at hc
      cases hc
      rfl

/-- The parts of steps are those that they are read from. -/
theorem partsOf_stepChars {steps : List Step} (h : ∀ step ∈ steps, step.Normal) :
    partsOf (stepChars steps) = steps.map Step.part := by
  induction steps with
  | nil => rfl
  | cons step steps ih =>
    obtain ⟨hstep, hsteps⟩ := List.forall_mem_cons.mp h
    rw [List.map_cons, ← ih hsteps]
    cases step with
    | key name =>
      have hchars : stepChars (.key name :: steps) = '.' :: (name.toList ++ stepChars steps) := by
        simp [stepChars, Step.text]
      rw [hchars, partsOf_separator rfl]
      exact partsOf_append hstep.isPart (isSeparator_of_stepChars steps)
    | index n =>
      have hchars : stepChars (.index n :: steps) =
          '[' :: (Nat.toDigits 10 n ++ ']' :: stepChars steps) := by
        simp [stepChars, Step.text]
      rw [hchars, partsOf_separator rfl]
      exact partsOf_part_append hstep.isPart rfl _

/-- A normal path is read back from its text. -/
theorem Normal.ofText?_text {p : Path} (h : p.Normal) : ofText? p.text = some p := by
  have hparts : parts p.text = p.root.toList :: p.steps.map Step.part := by
    change partsOf p.text.toList = _
    rw [toList_text, partsOf_append h.root (isSeparator_of_stepChars _), partsOf_stepChars h.steps]
  have hsteps : (p.steps.map Step.part).map Step.ofPart = p.steps := by
    rw [List.map_map]
    exact (List.map_congr_left fun step hstep => (h.steps step hstep).ofPart_part).trans (List.map_id _)
  rw [ofText?, hparts]
  simp only [hsteps, String.ofList_toList]

/-- A path that is read from a text is normal. -/
theorem normal_of_ofText? {text : String} {p : Path} (h : ofText? text = some p) : p.Normal := by
  have hpart : ∀ part ∈ parts text, IsPart part := fun _ => isPart_of_mem_partsOf
  rw [ofText?] at h
  cases hparts : parts text with
  | nil =>
    rw [hparts] at h
    contradiction
  | cons root rest =>
    rw [hparts] at h hpart
    obtain ⟨hroot, hrest⟩ := List.forall_mem_cons.mp hpart
    obtain rfl := Option.some.inj h
    refine ⟨by rwa [String.toList_ofList], fun step hstep => ?_⟩
    obtain ⟨part, hmem, rfl⟩ := List.mem_map.mp hstep
    exact Step.normal_ofPart (hrest part hmem)

/-- The normal paths are those that are read from texts. -/
theorem normal_iff_exists_ofText? {p : Path} : p.Normal ↔ ∃ text, ofText? text = some p :=
  ⟨fun h => ⟨p.text, h.ofText?_text⟩, fun ⟨_, h⟩ => normal_of_ofText? h⟩

/-- The text of a path that has been read is read as the same path, however the path was written. -/
theorem ofText?_text_of_eq_some {text : String} {p : Path} (h : ofText? text = some p) :
    ofText? p.text = some p :=
  (normal_of_ofText? h).ofText?_text

/-- Blanks, empty parts, zeros in front, a plus sign and numerals on either side of the largest index. -/
theorem ofText?_text_of_eq_some_scattered :
    let p : Path := ⟨"a b", [.index 7, .index 5, .key "x y", .key "-1", .key "+", .key "18446744073709551616",
      .index 18446744073709551615]⟩
    ofText? " .a b.[ 007 ]..+5.[x y][-1] .+.18446744073709551616[018446744073709551615" = some p ∧
      p.text = "a b[7][5].x y.-1.+.18446744073709551616[18446744073709551615]" ∧
      ofText? p.text = some p := by
  intro p
  have hread : ofText? " .a b.[ 007 ]..+5.[x y][-1] .+.18446744073709551616[018446744073709551615" = some p := by
    decide
  exact ⟨hread, by decide, ofText?_text_of_eq_some hread⟩

end Path

end ReactiveTemplate.Expression
