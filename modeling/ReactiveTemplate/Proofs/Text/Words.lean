import Mathlib
import ReactiveTemplate.Text.Blank

/-!
# Words

The words of a text are its maximal runs of characters that are not blank. Texts that are joined with blanks have
their words one after another.
-/

namespace ReactiveTemplate.Text

/-- The pieces between separators hold all characters that do not separate, and no others. -/
theorem exists_mem_splitOnP {α : Type} {p : α → Bool} {as : List α} {a : α} :
    (∃ piece ∈ as.splitOnP p, a ∈ piece) ↔ a ∈ as ∧ p a = false := by
  induction as with
  | nil => simp [List.splitOnP_nil]
  | cons first rest ih =>
    rw [List.splitOnP_cons_eq_if_modifyHead]
    cases hfirst : p first with
    | true =>
      rw [if_pos rfl, List.exists_mem_cons_iff, ih, List.mem_cons]
      grind
    | false =>
      simp only [Bool.false_eq_true, if_false]
      obtain ⟨piece, pieces, hpieces⟩ := List.exists_cons_of_ne_nil (List.splitOnP_ne_nil p rest)
      rw [hpieces] at ih ⊢
      rw [List.exists_mem_cons_iff] at ih
      rw [List.modifyHead_cons, List.exists_mem_cons_iff, List.mem_cons]
      grind

/-- A text without blanks that is not empty. -/
def IsWord (text : String) : Prop :=
  text ≠ "" ∧ ∀ c ∈ text.toList, isBlank c = false

/-- A word has no other words. -/
theorem IsWord.words_eq {text : String} (h : IsWord text) : words text = [text] := by
  have hne : text.toList ≠ [] := fun hnil => h.1 (String.toList_eq_nil_iff.mp hnil)
  rw [words, List.splitOnP_eq_singleton h.2, List.filter_cons_of_pos (by simpa using hne), List.filter_nil,
    List.map_singleton, String.ofList_toList]

/-- The words of a text are words. -/
theorem isWord_of_mem_words {text word : String} (h : word ∈ words text) : IsWord word := by
  obtain ⟨piece, hpiece, rfl⟩ := List.mem_map.mp h
  obtain ⟨hmem, hne⟩ := List.mem_filter.mp hpiece
  refine ⟨fun hempty => ?_, fun c hc => ?_⟩
  · rw [String.ofList_eq_empty_iff] at hempty
    simp [hempty] at hne
  · rw [String.toList_ofList] at hc
    exact (exists_mem_splitOnP.mp ⟨piece, hmem, hc⟩).2

/-- The words of two texts with a blank between them. -/
theorem words_append_blank (left right : String) : words (left ++ " " ++ right) = words left ++ words right := by
  have hchars : (left ++ " " ++ right).toList = left.toList ++ ' ' :: right.toList := by simp
  rw [words, hchars, List.splitOnP_append_cons _ _ (by decide), List.filter_append, List.map_append, words, words]

/-- The words of texts that are joined with blanks. -/
theorem words_intercalate (texts : List String) : words (" ".intercalate texts) = texts.flatMap words := by
  induction texts with
  | nil => rfl
  | cons first rest ih =>
    cases rest with
    | nil => rw [String.intercalate_singleton, List.flatMap_singleton]
    | cons second rest => rw [List.flatMap_cons, String.intercalate_cons_cons, words_append_blank, ih]

/-- Texts are their own words if each of them is a word. -/
theorem flatMap_words_eq_iff {texts : List String} : texts.flatMap words = texts ↔ ∀ text ∈ texts, IsWord text := by
  constructor
  · intro h text htext
    rw [← h] at htext
    obtain ⟨_, _, hword⟩ := List.mem_flatMap.mp htext
    exact isWord_of_mem_words hword
  · intro h
    rw [List.flatMap_congr fun text htext => (h text htext).words_eq, List.flatMap_singleton']

end ReactiveTemplate.Text
