import ReactiveTemplate.Document.Basic
import ReactiveTemplate.Markup.Reader

/-!
# Documents from markup
-/

namespace ReactiveTemplate

variable {L : Type}

/-- The element of a tag with attributes set in order. -/
def Element.ofMarkup (tag : String) (attributes : List (String × String)) : Element :=
  attributes.foldl (fun e (name, value) => e.setAttribute name value) (.ofTag tag)

namespace Document

mutual

/-- A piece of markup as a new node: an element before what is below it. -/
def build (d : Document L) : Markup → NodeId × Document L
  | .text text => d.insert (.text text)
  | .element tag attributes children =>
    let (n, d) := d.insert (.element (.ofMarkup tag attributes))
    (n, buildInto d n children)

/-- Pieces of markup as the last children of an element. -/
def buildInto (d : Document L) (parent : NodeId) : List Markup → Document L
  | [] => d
  | piece :: rest =>
    let (child, d) := build d piece
    buildInto (d.append parent child).2 parent rest

end

/-- The document whose body holds the markup of a text. -/
def load (source : String) : Except MarkupError (Document L) := do
  let nodes ← Markup.read source
  pure (buildInto empty (empty : Document L).body nodes)

end Document

end ReactiveTemplate
