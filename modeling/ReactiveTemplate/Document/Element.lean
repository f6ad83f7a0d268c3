import ReactiveTemplate.Dictionary
import ReactiveTemplate.Markup.Basic
import ReactiveTemplate.Text.Blank
import ReactiveTemplate.Text.Search

/-!
# Elements

The class list and the style properties of an element are kept apart from its attributes; among the
attributes, `class` and `style` only keep a place.
-/

namespace ReactiveTemplate

open Text

/-- The data of an element. -/
structure Element where
  tag : String
  attributes : Dictionary String
  classes : List String
  styles : Dictionary String
  deriving DecidableEq, Repr

namespace Element

/-- The element of a tag, with nothing set. -/
def ofTag (tag : String) : Element :=
  ⟨tag, [], [], []⟩

/-- A property with its value; what has no colon or no property name is no declaration. -/
def declaration? (text : List Char) : Option (String × String) :=
  (cutAt? [':'] text).bind fun (property, value) =>
    match trim property with
    | [] => none
    | property => some (String.ofList property, String.ofList (trim value))

/-- The declarations of a style attribute. -/
def declarations (text : String) : Dictionary String :=
  Dictionary.ofList ((text.toList.splitOnP (· == ';')).filterMap declaration?)

/-- The element with an attribute set; classes and styles are read from their attributes. -/
def setAttribute (name value : String) (e : Element) : Element :=
  let e := { e with attributes := Dictionary.put name value e.attributes }
  if name = "class" then { e with classes := words value }
  else if name = "style" then { e with styles := declarations value }
  else e

/-- The declarations of an element as the value of its style attribute. -/
def styleText (e : Element) : String :=
  " ".intercalate (e.styles.map fun (property, value) => property ++ ": " ++ value ++ ";")

/-- The value of an attribute. -/
def attribute? (name : String) (e : Element) : Option String :=
  (e.attributes.lookup name).map fun value =>
    if name = "class" then " ".intercalate e.classes
    else if name = "style" then e.styleText
    else value

/-- The element without an attribute, and without the classes or styles that belong to it. -/
def removeAttribute (name : String) (e : Element) : Element :=
  let e := { e with attributes := Dictionary.remove name e.attributes }
  if name = "class" then { e with classes := [] }
  else if name = "style" then { e with styles := [] }
  else e

/-- The attributes with a place for one of them. -/
def withPlace (name : String) (attributes : Dictionary String) : Dictionary String :=
  if Dictionary.has name attributes then attributes else attributes ++ [(name, "")]

/-- The element with a class, which it keeps once. -/
def addClass (name : String) (e : Element) : Element :=
  { e with
    classes := if name ∈ e.classes then e.classes else e.classes ++ [name]
    attributes := withPlace "class" e.attributes }

/-- A property name with hyphens for its capital letters. -/
def hyphenated (property : String) : String :=
  String.ofList <| property.toList.flatMap fun c => if c.isUpper then ['-', c.toLower] else [c]

/-- The element with a style property set, or removed if no value is given. -/
def setStyle (property : String) (value : Option String) (e : Element) : Element :=
  match value with
  | some value =>
    { e with
      styles := Dictionary.put (hyphenated property) value e.styles
      attributes := withPlace "style" e.attributes }
  | none => { e with styles := Dictionary.remove (hyphenated property) e.styles }

/-- The value of a style property. -/
def style? (property : String) (e : Element) : Option String :=
  e.styles.lookup (hyphenated property)

end Element

end ReactiveTemplate
