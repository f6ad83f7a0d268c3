import ReactiveTemplate.Proofs.Dictionary
import ReactiveTemplate.Proofs.Document.Contents
import ReactiveTemplate.Proofs.Text.Words

/-!
# Classes and styles beside their attributes

Classes and styles are kept twice: as a list and a dictionary, and as attributes that only mark a place. Without
the place there are none. The class attribute shows the classes with blanks between them, so that reading it
gives the words of the classes.
-/

namespace ReactiveTemplate

open Text

namespace Dictionary

variable {α : Type} {d : Dictionary α}

/-- The names of a dictionary with one more value. -/
theorem mem_names_put {name asked : String} {value : α} :
    asked ∈ (put name value d).names ↔ asked = name ∨ asked ∈ d.names := by
  rw [← isSome_lookup_iff, ← isSome_lookup_iff, lookup_put]
  split <;> simp [*]

/-- The names of a dictionary without one of them. -/
theorem mem_names_remove {name asked : String} : asked ∈ (remove name d).names ↔ asked ∈ d.names ∧ asked ≠ name := by
  simp only [names, remove, List.mem_map, List.mem_filter, decide_eq_true_eq]
  constructor
  · rintro ⟨entry, ⟨hentry, hne⟩, rfl⟩
    exact ⟨⟨entry, hentry, rfl⟩, hne⟩
  · rintro ⟨⟨entry, hentry, rfl⟩, hne⟩
    exact ⟨entry, ⟨hentry, hne⟩, rfl⟩

end Dictionary

namespace Element

/-- The names of attributes with a place for one. -/
theorem mem_names_withPlace {name asked : String} {attributes : Dictionary String} :
    asked ∈ (withPlace name attributes).names ↔ asked = name ∨ asked ∈ attributes.names := by
  rw [withPlace, Dictionary.has_eq_isSome_lookup]
  split
  · next hplace =>
    rw [Dictionary.isSome_lookup_iff] at hplace
    exact ⟨Or.inr, fun h => h.elim (fun heq => heq ▸ hplace) id⟩
  · rw [Dictionary.names, List.map_append, List.mem_append, List.map_singleton, List.mem_singleton, or_comm,
      Dictionary.names]

/-- An attribute has a value if it has a place. -/
theorem attribute?_eq_none_iff {name : String} {e : Element} :
    e.attribute? name = none ↔ name ∉ e.attributes.names := by
  rw [attribute?, Option.map_eq_none_iff, ← Dictionary.isSome_lookup_iff, Option.isSome_iff_ne_none, not_not]

/-- The classes and styles of an element have places among its attributes, and its classes are words or else
names that something is true of. -/
structure Consistent (P : String → Prop) (e : Element) : Prop where
  classes : "class" ∉ e.attributes.names → e.classes = []
  styles : "style" ∉ e.attributes.names → e.styles = []
  named : ∀ name ∈ e.classes, IsWord name ∨ P name

namespace Consistent

variable {P : String → Prop} {e : Element}

/-- An element on which nothing is set. -/
theorem ofTag (tag : String) : (Element.ofTag tag).Consistent P :=
  ⟨fun _ => rfl, fun _ => rfl, fun _ hname => absurd hname List.not_mem_nil⟩

/-- An attribute is set. -/
theorem setAttribute (h : e.Consistent P) (name value : String) : (e.setAttribute name value).Consistent P := by
  have hkept {asked : String} (hasked : asked ∉ (Dictionary.put name value e.attributes).names) :
      asked ≠ name ∧ asked ∉ e.attributes.names := by
    rwa [Dictionary.mem_names_put, not_or] at hasked
  rw [Element.setAttribute]
  dsimp only
  split
  · next hclass =>
    refine ⟨fun hnone => absurd hclass.symm (hkept hnone).1, fun hnone => h.styles (hkept hnone).2, ?_⟩
    exact fun _ hname => Or.inl (isWord_of_mem_words hname)
  · split
    · next hstyle =>
      exact ⟨fun hnone => h.classes (hkept hnone).2, fun hnone => absurd hstyle.symm (hkept hnone).1, h.named⟩
    · exact ⟨fun hnone => h.classes (hkept hnone).2, fun hnone => h.styles (hkept hnone).2, h.named⟩

/-- An attribute is removed. -/
theorem removeAttribute (h : e.Consistent P) (name : String) : (e.removeAttribute name).Consistent P := by
  have hkept {asked : String} (hother : name ≠ asked)
      (hasked : asked ∉ (Dictionary.remove name e.attributes).names) : asked ∉ e.attributes.names :=
    fun hold => hasked (Dictionary.mem_names_remove.mpr ⟨hold, hother.symm⟩)
  rw [Element.removeAttribute]
  dsimp only
  split
  · next hclass =>
    refine ⟨fun _ => rfl, fun hnone => h.styles (hkept ?_ hnone), fun _ hname => absurd hname List.not_mem_nil⟩
    rw [hclass]
    decide
  · next hclass =>
    split
    · exact ⟨fun hnone => h.classes (hkept hclass hnone), fun _ => rfl, h.named⟩
    · next hstyle =>
      exact ⟨fun hnone => h.classes (hkept hclass hnone), fun hnone => h.styles (hkept hstyle hnone), h.named⟩

/-- A class is added. -/
theorem addClass (h : e.Consistent P) {name : String} (hname : P name) : (e.addClass name).Consistent P where
  classes hnone := absurd (mem_names_withPlace.mpr (Or.inl rfl)) hnone
  styles hnone := h.styles fun hold => hnone (mem_names_withPlace.mpr (Or.inr hold))
  named other hother := by
    rw [Element.addClass] at hother
    dsimp only at hother
    split at hother
    · exact h.named other hother
    · rcases List.mem_append.mp hother with hold | hnew
      · exact h.named other hold
      · exact Or.inr (List.mem_singleton.mp hnew ▸ hname)

/-- A style property is set or removed. -/
theorem setStyle (h : e.Consistent P) (property : String) (value : Option String) :
    (e.setStyle property value).Consistent P := by
  cases value with
  | some value =>
    refine ⟨fun hnone => h.classes fun hold => hnone ?_, fun hnone => absurd ?_ hnone, h.named⟩
    · exact mem_names_withPlace.mpr (Or.inr hold)
    · exact mem_names_withPlace.mpr (Or.inl rfl)
  | none =>
    refine ⟨h.classes, fun hnone => ?_, h.named⟩
    have hstyles := h.styles hnone
    rw [Element.setStyle, hstyles]
    rfl

/-- An element of markup. -/
theorem ofMarkup (tag : String) (attributes : List (String × String)) :
    (Element.ofMarkup tag attributes).Consistent P := by
  rw [Element.ofMarkup]
  generalize hstart : Element.ofTag tag = start
  have h : start.Consistent P := hstart ▸ ofTag tag
  clear hstart
  induction attributes generalizing start with
  | nil => exact h
  | cons entry rest ih => exact ih _ (h.setAttribute entry.1 entry.2)

/-- The words of the class attribute are those of the classes. -/
theorem words_class (h : e.Consistent P) : words ((e.attribute? "class").getD "") = e.classes.flatMap words := by
  by_cases hplace : "class" ∈ e.attributes.names
  · obtain ⟨value, hvalue⟩ := Option.isSome_iff_exists.mp (Dictionary.isSome_lookup_iff.mpr hplace)
    rw [attribute?, hvalue, Option.map_some, if_pos rfl, Option.getD_some, words_intercalate]
  · rw [attribute?_eq_none_iff.mpr hplace, h.classes hplace]
    rfl

end Consistent

end Element

namespace Document

variable {L : Type} {d : Document L} {P : String → Prop}

/-- The class that an operation adds. -/
def Operation.addedClass? : Operation L → Option String
  | addClass _ name => some name
  | _ => none

/-- An operation keeps classes and styles consistent, if something is true of the class that it adds. -/
theorem consistent_operation (h : d.EveryElement (·.Consistent P)) (o : Operation L)
    (ho : ∀ name ∈ o.addedClass?, P name) : (o.apply d).EveryElement (·.Consistent P) := by
  refine h.operation o (fun _ => .ofTag _) fun f hf e he => ?_
  cases o with
  | setAttribute n name value =>
    cases hf
    exact he.setAttribute name value
  | removeAttribute n name =>
    cases hf
    exact he.removeAttribute name
  | addClass n name =>
    cases hf
    exact he.addClass (ho name rfl)
  | setStyle n property value =>
    cases hf
    exact he.setStyle property value
  | _ => cases hf

end Document

end ReactiveTemplate
