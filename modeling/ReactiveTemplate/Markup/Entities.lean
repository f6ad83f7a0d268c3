import ReactiveTemplate.Text.Search

/-!
# Character entities

Reading knows six entities. Writing escapes what would end a text or a quoted attribute value, and
the ampersand; reading what was written gives the text back.
-/

namespace ReactiveTemplate.Markup

open ReactiveTemplate.Text

/-- The entities with their characters, in the order in which they are replaced. The ampersand comes
last, so that no character read from an entity is taken for the start of another. -/
def entities : List (String × Char) :=
  [("&lt;", '<'), ("&gt;", '>'), ("&quot;", '"'), ("&#39;", '\''), ("&nbsp;", '\xa0'), ("&amp;", '&')]

/-- A text with entities replaced by their characters. -/
def decodeEntities (text : String) : String :=
  String.ofList <| entities.foldl
    (fun cs (entity, character) => replaceAll entity.toList [character] cs) text.toList

/-- A character inside a text. -/
def escapeTextChar (c : Char) : List Char :=
  if c = '&' then "&amp;".toList
  else if c = '<' then "&lt;".toList
  else if c = '>' then "&gt;".toList
  else [c]

/-- A text as the content of an element. -/
def escapeText (text : String) : String :=
  String.ofList (text.toList.flatMap escapeTextChar)

/-- A character inside a quoted attribute value. -/
def escapeAttributeChar (c : Char) : List Char :=
  if c = '&' then "&amp;".toList
  else if c = '"' then "&quot;".toList
  else [c]

/-- A text as an attribute value between double quotes. -/
def escapeAttribute (text : String) : String :=
  String.ofList (text.toList.flatMap escapeAttributeChar)

end ReactiveTemplate.Markup
