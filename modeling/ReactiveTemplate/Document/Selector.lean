import ReactiveTemplate.Document.Subtree

/-!
# Selectors

A selector is an id after `#`, a class after `.`, or a tag in any letter case.
-/

namespace ReactiveTemplate

open Text

variable {L : Type}

/-- What an element is looked up by. -/
inductive Selector where
  | id (value : String)
  | cls (name : String)
  | tag (name : String)
  deriving DecidableEq, Repr

namespace Selector

/-- A text as a selector; blanks around it count for nothing. -/
def ofText (text : String) : Selector :=
  match trim text.toList with
  | '#' :: rest => .id (String.ofList rest)
  | '.' :: rest => .cls (String.ofList rest)
  | rest => .tag (Markup.lowercase (String.ofList rest))

/-- Whether an element is meant. -/
def selects : Selector → Element → Bool
  | id value, e => e.attributes.lookup "id" == some value
  | cls name, e => e.classes.contains name
  | tag name, e => e.tag == name

end Selector

/-- The first element that a selector means, each element before those below it. -/
def Document.query? (d : Document L) (selector : String) : Option NodeId := do
  let body ← d.subtree? d.body
  let (id, _) ← body.elements.find? fun (_, e) => (Selector.ofText selector).selects e
  pure id

end ReactiveTemplate
