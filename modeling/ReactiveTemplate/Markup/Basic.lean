/-!
# Markup trees
-/

namespace ReactiveTemplate

/-- A piece of markup: an element with a lowercase tag, attributes in order and children, or a text. -/
inductive Markup where
  | element (tag : String) (attributes : List (String × String)) (children : List Markup)
  | text (text : String)

/-- A text that is not markup. -/
structure MarkupError where
  source : String
  deriving DecidableEq, Repr

/-- The wording of the error. -/
def MarkupError.message (_ : MarkupError) : String :=
  "invalid markup"

namespace Markup

/-- The elements that have neither children nor a closing tag. -/
def voidTags : List String :=
  ["area", "base", "br", "col", "embed", "hr", "img", "input", "link", "meta", "source", "track", "wbr"]

/-- Whether elements of a tag have neither children nor a closing tag. -/
def isVoid (tag : String) : Bool :=
  voidTags.contains tag

/-- A tag in lowercase ASCII letters. -/
def lowercase (tag : String) : String :=
  String.ofList (tag.toList.map Char.toLower)

end Markup

end ReactiveTemplate
