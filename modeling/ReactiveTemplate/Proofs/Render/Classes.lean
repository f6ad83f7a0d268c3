import ReactiveTemplate.Proofs.Document.Classes
import ReactiveTemplate.Proofs.Render.Keeping

/-!
# Classes of documents that arise

A document arises from markup by operations and renders in any order, whether they succeed or not. The words of
a class attribute are always those of the classes, and the classes themselves as long as each of them is a word.
A class that is read from an attribute is a word. One that is added, by an operation or by the class mapping of a
template, is kept as it is, also with blanks in it.
-/

namespace ReactiveTemplate

open Text

variable {L : Type} {d : Document L} {P : String → Prop}

/-- Documents that arise by reading markup, by operations and by renders, where something is true of all classes
that operations and class mappings add. -/
inductive Document.Arises (P : String → Prop) : Document L → Prop where
  | empty : Arises P .empty
  | load {source : String} {d : Document L} (h : load source = .ok d) : Arises P d
  | operation {d : Document L} (h : Arises P d) (o : Operation L) (ho : ∀ name ∈ o.addedClass?, P name) :
      Arises P (o.apply d)
  | render {st : RenderState L} (h : Arises P st.document) (t : Template) (s : Surroundings L)
      (ht : ∀ head ∈ t.heads, ∀ entry ∈ head.directives.classes.getD [], P entry.1) :
      Arises P ((t.render s).outcome st).2.document

/-- The operations that a render does for elements keep classes and styles consistent with their attributes. -/
theorem Render.keptByHeads_consistent (s : Surroundings L) {heads : List ElementHead}
    (hheads : ∀ head ∈ heads, ∀ entry ∈ head.directives.classes.getD [], P entry.1) :
    KeptByHeads s heads (·.EveryElement (·.Consistent P)) where
  createElement _ h := h.createElement (.ofTag _)
  createText text h := h.createText text
  setAttribute n _ _ h := h.editElement n fun _ he => he.setAttribute _ _
  addClass n hhead hentry h := h.editElement n fun _ he => he.addClass (hheads _ hhead _ hentry)
  setStyle n property value h := h.editElement n fun _ he => he.setStyle property value
  addListener n _ _ _ _ h := h.addListener n _ _
  append parent child h := h.append parent child
  remove n h := h.remove n

namespace Document

/-- In a document that arises classes and styles are consistent with their attributes. -/
theorem Arises.consistent (h : d.Arises P) : d.EveryElement (·.Consistent P) := by
  induction h with
  | empty => exact .empty (.ofTag _)
  | load h => exact .of_load h (.ofTag _) fun tag attributes _ => .ofMarkup tag attributes
  | operation _ o ho ih => exact consistent_operation ih o ho
  | render _ t s ht ih => exact t.render_keeps_heads (Render.keptByHeads_consistent s ht) _ ih

/-- The words of the class attribute of an element are the words of its classes. They are the classes themselves
exactly if each class is a word, and each is unless it was added as it is. Without a class attribute there are no
classes, and without a style attribute no styles. -/
theorem Arises.words_class_attribute (h : d.Arises P) {n : NodeId} {e : Element} (he : d.element? n = some e) :
    words ((e.attribute? "class").getD "") = e.classes.flatMap words ∧
      (words ((e.attribute? "class").getD "") = e.classes ↔ ∀ name ∈ e.classes, IsWord name) ∧
      (∀ name ∈ e.classes, IsWord name ∨ P name) ∧
      (e.attribute? "class" = none → e.classes = []) ∧
      (e.attribute? "style" = none → e.styles = []) := by
  have hconsistent := h.consistent.of_element? he
  refine ⟨hconsistent.words_class, ?_, hconsistent.named, fun hnone => ?_, fun hnone => ?_⟩
  · rw [hconsistent.words_class, flatMap_words_eq_iff]
  · exact hconsistent.classes (Element.attribute?_eq_none_iff.mp hnone)
  · exact hconsistent.styles (Element.attribute?_eq_none_iff.mp hnone)

/-- A template with a class attribute and a class mapping. -/
def striped : Template :=
  ⟨[(⟨"p", [("class", " wide  tall ")],
    { classes := some [("striped", ⟨"true", .constant (.bool true)⟩), ("plain", ⟨"false", .constant (.bool false)⟩)] }⟩,
    [])]⟩

/-- The classes of an element that was rendered are the words of its class attribute. -/
theorem Arises.words_class_attribute_striped :
    let d : Document Unit := ((striped.render ⟨fun _ => none, fun _ => ()⟩).outcome ⟨.empty, [], []⟩).2.document
    d.Arises IsWord ∧ ∃ e, d.element? ⟨1, 0⟩ = some e ∧ e.classes = ["wide", "tall", "striped"] ∧
      words ((e.attribute? "class").getD "") = e.classes := by
  intro d
  have hword {name : String} (h : name ∈ words name) : IsWord name := isWord_of_mem_words h
  have harises : d.Arises IsWord := by
    refine .render .empty striped ⟨fun _ => none, fun _ => ()⟩ fun head hhead entry hentry => hword ?_
    obtain rfl := List.mem_singleton.mp hhead
    rcases List.mem_cons.mp hentry with rfl | hrest
    · decide
    · obtain rfl := List.mem_singleton.mp hrest
      decide
  obtain ⟨e, he, hclasses⟩ : ∃ e, d.element? ⟨1, 0⟩ = some e ∧ e.classes = ["wide", "tall", "striped"] :=
    ⟨_, rfl, by decide⟩
  obtain ⟨_, hiff, hnamed, _⟩ := harises.words_class_attribute he
  exact ⟨harises, e, he, hclasses, hiff.mpr fun name hname => (hnamed name hname).elim id id⟩

/-- A class with a blank in it: the element has one class, and its attribute has two words. -/
theorem class_attribute_of_blank :
    ¬ ∀ (d : Document Unit) (n : NodeId) (e : Element), d.Arises (fun _ => True) → d.element? n = some e →
      words ((e.attribute? "class").getD "") = e.classes := by
  intro hall
  have hmade : (Operation.apply empty (.createElement "span") : Document Unit).Arises fun _ => True :=
    .operation .empty (.createElement "span") fun _ _ => trivial
  have hadded := hmade.operation (.addClass ⟨1, 0⟩ "a b") fun _ _ => trivial
  have hwords := hall _ ⟨1, 0⟩ ⟨"span", [("class", "")], ["a b"], []⟩ hadded rfl
  exact absurd hwords (by decide)

end Document

end ReactiveTemplate
