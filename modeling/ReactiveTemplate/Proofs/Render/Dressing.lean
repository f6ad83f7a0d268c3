import ReactiveTemplate.Proofs.Dictionary
import ReactiveTemplate.Proofs.Render.Semantics

/-!
# Elements that were edited step by step

A render sets the attributes of a new element one after another, then adds the classes that hold, then
sets the styles. Each of these edits acts on one part of the element: the attributes in their order, the
list of classes or the declarations. Taken together they make the element that the template means.
-/

namespace ReactiveTemplate

open Json

namespace Element

/-- Whether an attribute is neither the classes nor the styles. -/
def isPlain (name : String) : Bool :=
  decide (name ≠ "class" ∧ name ≠ "style")

/-- The attributes that are neither the classes nor the styles. -/
def plain (e : Element) : Dictionary String :=
  e.attributes.filter fun entry => isPlain entry.1

/-- An attribute that is set goes to the plain ones, if it is one of them. -/
theorem plain_setAttribute (name value : String) (e : Element) :
    (e.setAttribute name value).plain =
      if isPlain name then Dictionary.put name value e.plain else e.plain := by
  have hset : (e.setAttribute name value).attributes = Dictionary.put name value e.attributes := by
    unfold setAttribute
    split
    · rfl
    · split <;> rfl
  rw [plain, hset]
  exact Dictionary.filter_put isPlain name value e.attributes

/-- A place for the classes or styles is not a plain attribute. -/
theorem filter_withPlace {name : String} (hname : isPlain name = false) (attributes : Dictionary String) :
    (withPlace name attributes).filter (fun entry => isPlain entry.1) =
      attributes.filter fun entry => isPlain entry.1 := by
  rw [withPlace]
  split
  · rfl
  · simp [hname]

/-- The element with some attributes set, in order. -/
def setAttributes (attributes : List (String × String)) (e : Element) : Element :=
  attributes.foldl (fun e (name, value) => e.setAttribute name value) e

/-- Attributes set one after another go to the plain ones, the classes and the styles. -/
theorem setAttributes_eq (attributes : List (String × String)) (e : Element) :
    (e.setAttributes attributes).tag = e.tag ∧
      (e.setAttributes attributes).plain = (attributes.filter fun entry => isPlain entry.1).foldl
        (fun d (name, value) => Dictionary.put name value d) e.plain ∧
      (e.setAttributes attributes).classes =
        ((attributes.reverse.lookup "class").map Text.words).getD e.classes ∧
      (e.setAttributes attributes).styles =
        ((attributes.reverse.lookup "style").map declarations).getD e.styles := by
  induction attributes generalizing e with
  | nil => exact ⟨rfl, rfl, rfl, rfl⟩
  | cons entry rest ih =>
    obtain ⟨name, value⟩ := entry
    obtain ⟨htag, hplain, hclasses, hstyles⟩ := ih (e.setAttribute name value)
    rw [setAttributes, List.foldl_cons, ← setAttributes]
    simp only [List.reverse_cons, List.lookup_append]
    refine ⟨htag.trans ?_, hplain.trans ?_, hclasses.trans ?_, hstyles.trans ?_⟩
    · unfold setAttribute
      split
      · rfl
      · split <;> rfl
    · rw [plain_setAttribute, List.filter_cons]
      cases isPlain name <;> rfl
    · cases rest.reverse.lookup "class" with
      | some last => rfl
      | none =>
        by_cases hname : name = "class"
        · simp [setAttribute, hname]
        · have hne : ("class" == name) = false := by simpa using fun heq : "class" = name => hname heq.symm
          by_cases hstyle : name = "style" <;> simp [setAttribute, hstyle, hname, hne]
    · cases rest.reverse.lookup "style" with
      | some last => rfl
      | none =>
        by_cases hname : name = "style"
        · simp [setAttribute, hname]
        · have hne : ("style" == name) = false := by simpa using fun heq : "style" = name => hname heq.symm
          by_cases hclass : name = "class" <;> simp [setAttribute, hclass, hname, hne]

/-- The element with the classes of a mapping that hold. -/
def addClasses (classes : List (String × Value)) (e : Element) : Element :=
  classes.foldl (fun e (name, value) => if value.truthy then e.addClass name else e) e

/-- Classes that are added go to the classes, each once. -/
theorem addClasses_eq (classes : List (String × Value)) (e : Element) :
    (e.addClasses classes).tag = e.tag ∧ (e.addClasses classes).plain = e.plain ∧
      (e.addClasses classes).styles = e.styles ∧
      (e.addClasses classes).classes = (classes.filter (·.2.truthy)).foldl
        (fun names (name, _) => if name ∈ names then names else names ++ [name]) e.classes := by
  induction classes generalizing e with
  | nil => exact ⟨rfl, rfl, rfl, rfl⟩
  | cons entry rest ih =>
    obtain ⟨name, value⟩ := entry
    rw [addClasses, List.foldl_cons, ← addClasses]
    cases htruthy : value.truthy with
    | false =>
      simp only [List.filter_cons, htruthy, Bool.false_eq_true, if_false]
      exact ih e
    | true =>
      obtain ⟨htag, hplain, hstyles, hclasses⟩ := ih (e.addClass name)
      simp only [List.filter_cons, htruthy, if_true, List.foldl_cons]
      exact ⟨htag, hplain.trans (filter_withPlace rfl e.attributes), hstyles, hclasses⟩

/-- The value that a style property is set to, if it is not removed. -/
def styleValue? : Value → Option String
  | .null => none
  | value => some value.display

/-- The element with the styles of a mapping. -/
def setStyles (styles : List (String × Value)) (e : Element) : Element :=
  styles.foldl (fun e (property, value) => e.setStyle property (styleValue? value)) e

/-- Styles that are set go to the declarations. -/
theorem setStyles_eq (styles : List (String × Value)) (e : Element) :
    (e.setStyles styles).tag = e.tag ∧ (e.setStyles styles).plain = e.plain ∧
      (e.setStyles styles).classes = e.classes ∧
      (e.setStyles styles).styles = styles.foldl
        (fun found (property, value) =>
          match value with
          | .null => Dictionary.remove (hyphenated property) found
          | value => Dictionary.put (hyphenated property) value.display found) e.styles := by
  induction styles generalizing e with
  | nil => exact ⟨rfl, rfl, rfl, rfl⟩
  | cons entry rest ih =>
    obtain ⟨property, value⟩ := entry
    rw [setStyles, List.foldl_cons, ← setStyles]
    obtain ⟨htag, hplain, hclasses, hstyles⟩ := ih (e.setStyle property (styleValue? value))
    refine ⟨htag.trans ?_, hplain.trans ?_, hclasses.trans ?_, hstyles.trans ?_⟩
    · cases value <;> rfl
    · cases value with
      | null => rfl
      | _ => exact filter_withPlace rfl e.attributes
    · cases value <;> rfl
    · cases value <;> rfl

end Element

namespace ElementHead

/-- The element of a copy with the values of its mappings. -/
def dressed (head : ElementHead) (classes styles : List (String × Value)) : Element :=
  (((Element.ofTag (Markup.lowercase head.tag)).setAttributes head.attributes).addClasses
    classes).setStyles styles

/-- The structure of a copy is the tree that the template means. -/
theorem snapshot_dressed (head : ElementHead) (classes styles : List (String × Value)) (n : NodeId)
    (children : List Subtree) :
    (Subtree.element n (head.dressed classes styles) (head.directives.events.map EventBinding.event)
        children).snapshot =
      head.tree classes styles (Subtree.snapshotList children) := by
  have hbare := Element.setAttributes_eq head.attributes (.ofTag (Markup.lowercase head.tag))
  have hclassy := Element.addClasses_eq classes
    ((Element.ofTag (Markup.lowercase head.tag)).setAttributes head.attributes)
  obtain ⟨htag, hplain, hclasses, hstyles⟩ := Element.setStyles_eq styles
    (((Element.ofTag (Markup.lowercase head.tag)).setAttributes head.attributes).addClasses classes)
  rw [Subtree.snapshot, tree, Snapshot.element.injEq]
  refine ⟨?_, ?_, ?_, ?_, rfl, rfl⟩
  · exact htag.trans (hclassy.1.trans hbare.1)
  · exact hplain.trans (hclassy.2.1.trans hbare.2.1)
  · rw [dressed, hclasses, hclassy.2.2.2, hbare.2.2.1]
    rfl
  · rw [dressed, hstyles, hclassy.2.2.1, hbare.2.2.2]
    rfl

end ElementHead

end ReactiveTemplate
