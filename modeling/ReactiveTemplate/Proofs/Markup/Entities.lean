import ReactiveTemplate.Markup.Entities

/-!
# Reading what was escaped

Replacing the entities one after another reads an escaped text character by character: an entity that
was written for a character gives this character back, and what is no ampersand stays. No character
that is read can be taken for the start of an entity, because the ampersand is replaced last.
-/

namespace ReactiveTemplate.Markup

open ReactiveTemplate.Text

/-- Characters with the entities replaced, in the order of the table. -/
def decodeChars (cs : List Char) : List Char :=
  entities.foldl (fun cs (entity, character) => replaceAll entity.toList [character] cs) cs

/-- Nothing is replaced in nothing. -/
theorem decodeChars_nil : decodeChars [] = [] := by
  simp [decodeChars, entities, replaceAll]

/-- A character that is no ampersand is read as it stands. -/
theorem decodeChars_cons {c : Char} (hc : c ≠ '&') (cs : List Char) :
    decodeChars (c :: cs) = c :: decodeChars cs := by
  simp [decodeChars, entities, replaceAll, hc.symm]

/-- An entity of the table is read as its character. -/
theorem decodeChars_entity {entity : String} {character : Char} (h : (entity, character) ∈ entities)
    (cs : List Char) : decodeChars (entity.toList ++ cs) = character :: decodeChars cs := by
  simp only [entities, List.mem_cons, Prod.mk.injEq, List.not_mem_nil, or_false] at h
  rcases h with ⟨rfl, rfl⟩ | ⟨rfl, rfl⟩ | ⟨rfl, rfl⟩ | ⟨rfl, rfl⟩ | ⟨rfl, rfl⟩ | ⟨rfl, rfl⟩ <;>
    simp [decodeChars, entities, replaceAll]

/-- A spelling of characters: by entities of the table, or as they stand if they are no ampersand. -/
def Spells (spelling : Char → List Char) : Prop :=
  ∀ c, (∃ entity, (entity, c) ∈ entities ∧ spelling c = entity.toList) ∨ c ≠ '&' ∧ spelling c = [c]

/-- Texts are escaped by a spelling. -/
theorem spells_escapeTextChar : Spells escapeTextChar := by
  intro c
  unfold escapeTextChar
  split
  · next h => exact Or.inl ⟨"&amp;", by simp [entities, h], rfl⟩
  · next hamp =>
    split
    · next h => exact Or.inl ⟨"&lt;", by simp [entities, h], rfl⟩
    · split
      · next h => exact Or.inl ⟨"&gt;", by simp [entities, h], rfl⟩
      · exact Or.inr ⟨hamp, rfl⟩

/-- Attribute values are escaped by a spelling. -/
theorem spells_escapeAttributeChar : Spells escapeAttributeChar := by
  intro c
  unfold escapeAttributeChar
  split
  · next h => exact Or.inl ⟨"&amp;", by simp [entities, h], rfl⟩
  · next hamp =>
    split
    · next h => exact Or.inl ⟨"&quot;", by simp [entities, h], rfl⟩
    · exact Or.inr ⟨hamp, rfl⟩

/-- What was spelled is read back. -/
theorem Spells.decodeChars {spelling : Char → List Char} (h : Spells spelling) (cs : List Char) :
    decodeChars (cs.flatMap spelling) = cs := by
  induction cs with
  | nil => exact decodeChars_nil
  | cons c rest ih =>
    rw [List.flatMap_cons]
    rcases h c with ⟨entity, hmem, hspelled⟩ | ⟨hc, hspelled⟩
    · rw [hspelled, decodeChars_entity hmem, ih]
    · rw [hspelled, List.singleton_append, decodeChars_cons hc, ih]

/-- Reading an escaped text gives the text. -/
theorem decodeEntities_escapeText (text : String) : decodeEntities (escapeText text) = text := by
  rw [decodeEntities, escapeText, String.toList_ofList, ← decodeChars, spells_escapeTextChar.decodeChars,
    String.ofList_toList]

/-- Reading an escaped attribute value gives the value. -/
theorem decodeEntities_escapeAttribute (text : String) :
    decodeEntities (escapeAttribute text) = text := by
  rw [decodeEntities, escapeAttribute, String.toList_ofList, ← decodeChars,
    spells_escapeAttributeChar.decodeChars, String.ofList_toList]

/-- An escaped text opens no tag. -/
theorem lt_not_mem_escapeText (text : String) : '<' ∉ (escapeText text).toList := by
  rw [escapeText, String.toList_ofList, List.mem_flatMap]
  intro ⟨c, _, hc⟩
  unfold escapeTextChar at hc
  split at hc
  · simp at hc
  · split at hc
    · simp at hc
    · next hlt =>
      split at hc
      · simp at hc
      · exact hlt (List.mem_singleton.mp hc).symm

/-- An escaped attribute value does not end at a quote of its own. -/
theorem quote_not_mem_escapeAttribute (text : String) : '"' ∉ (escapeAttribute text).toList := by
  rw [escapeAttribute, String.toList_ofList, List.mem_flatMap]
  intro ⟨c, _, hc⟩
  unfold escapeAttributeChar at hc
  split at hc
  · simp at hc
  · split at hc
    · simp at hc
    · next hquote => exact hquote (List.mem_singleton.mp hc).symm

/-- Escaped texts are joined by escaping the joined text. -/
theorem escapeText_append (a b : String) : escapeText (a ++ b) = escapeText a ++ escapeText b := by
  simp [escapeText]

/-- The empty text is escaped to nothing. -/
theorem escapeText_empty : (escapeText "").toList = [] := by
  simp [escapeText]

/-- Nothing is read from nothing. -/
theorem decodeEntities_nil : decodeEntities (String.ofList []) = "" := by
  rw [decodeEntities, String.toList_ofList, ← decodeChars, decodeChars_nil]

/-- Only the empty text is escaped to nothing. -/
theorem escapeText_eq_empty {text : String} (h : escapeText text = "") : text = "" := by
  rw [← decodeEntities_escapeText text, h]
  exact decodeEntities_nil

end ReactiveTemplate.Markup
