import ReactiveTemplate.Markup.Basic
import ReactiveTemplate.Markup.Entities
import ReactiveTemplate.Text.Blank

/-!
# Reading markup

The grammar is a list of alternatives tried in order: a comment, a declaration, an element without
content, an element, a text. Each takes as much as it can, and none is revisited once it has
succeeded. Readers map the characters left to what they read and the characters behind it.
-/

namespace ReactiveTemplate.Markup

open ReactiveTemplate.Text

/-- The characters behind a given text. -/
def past? (expected : List Char) (cs : List Char) : Option (List Char) :=
  if expected.isPrefixOf cs then some (cs.drop expected.length) else none

/-- One or more characters of a class. -/
def run? (p : Char → Bool) (cs : List Char) : Option (List Char × List Char) :=
  match cs.takeWhile p with
  | [] => none
  | taken => some (taken, cs.dropWhile p)

/-- Characters of tags. -/
def isTagChar (c : Char) : Bool :=
  c.isAlphanum || c == '-'

/-- Characters of attribute names. -/
def isAttributeChar (c : Char) : Bool :=
  !isBlank c && !(c == '"' || c == '\'' || c == '=' || c == '<' || c == '>' || c == '/')

/-- Characters of attribute values without quotes. -/
def isBareChar (c : Char) : Bool :=
  !(c == ' ' || c == '\t' || c == '\r' || c == '\n' || c == '"' || c == '\'' || c == '=' || c == '<' ||
    c == '>' || c == '\x60')

/-- A tag, in lowercase. -/
def tag? (cs : List Char) : Option (String × List Char) :=
  (run? isTagChar cs).map fun (taken, rest) => (lowercase (String.ofList taken), rest)

/-- A text between two quotes of one kind. -/
def quoted? (quote : Char) (cs : List Char) : Option (List Char × List Char) := do
  let cs ← past? [quote] cs
  cutAt? [quote] cs

/-- An attribute value, between quotes or without. -/
def attributeValue? (cs : List Char) : Option (List Char × List Char) :=
  ((quoted? '"' cs).or (quoted? '\'' cs)).or (run? isBareChar cs)

/-- The value behind an equals sign. -/
def assignedValue? (cs : List Char) : Option (List Char × List Char) := do
  let cs ← past? ['='] (trimStart cs)
  attributeValue? (trimStart cs)

/-- An attribute with blanks before it; without a value it is empty. -/
def attribute? (cs : List Char) : Option ((String × String) × List Char) := do
  let (_, cs) ← run? isBlank cs
  let (name, cs) ← run? isAttributeChar cs
  let (value, cs) := (assignedValue? cs).getD ([], cs)
  pure ((String.ofList name, decodeEntities (String.ofList value)), cs)

/-- Attributes as long as there are any, at most `fuel`. -/
def attributes : (fuel : Nat) → List Char → List (String × String) × List Char
  | 0, cs => ([], cs)
  | fuel + 1, cs =>
    match attribute? cs with
    | none => ([], cs)
    | some (first, rest) =>
      let (more, last) := attributes fuel rest
      (first :: more, last)

/-- An opening tag up to the blanks before its end. -/
def opening? (cs : List Char) : Option ((String × List (String × String)) × List Char) := do
  let cs ← past? ['<'] cs
  let (tag, cs) ← tag? cs
  let (attributes, cs) := attributes cs.length cs
  pure ((tag, attributes), trimStart cs)

/-- A comment, which runs to the first `-->`. -/
def comment? (cs : List Char) : Option (List Char) := do
  let cs ← past? ['<', '!', '-', '-'] cs
  let (_, rest) ← cutAt? ['-', '-', '>'] cs
  pure rest

/-- A declaration, which runs to the first `>`. -/
def declaration? (cs : List Char) : Option (List Char) := do
  let cs ← past? ['<', '!'] cs
  let (_, rest) ← cutAt? ['>'] cs
  pure rest

/-- An element without content and closing tag. -/
def voidElement? (cs : List Char) : Option (Markup × List Char) := do
  let ((tag, attributes), cs) ← opening? cs
  if isVoid tag then
    let cs ← past? ['>'] ((past? ['/'] cs).getD cs)
    pure (.element tag attributes [], cs)
  else none

/-- The content of an element up to its closing tag, whose name has to be `tag`. -/
def content? (children : List Char → List Markup × List Char) (tag : String) (cs : List Char) :
    Option (List Markup × List Char) := do
  let cs ← past? ['>'] cs
  let (nodes, cs) := children cs
  let cs ← past? ['<', '/'] cs
  let (closing, cs) ← tag? cs
  let cs ← past? ['>'] (trimStart cs)
  if closing = tag then some (nodes, cs) else none

/-- An element, closed at once or with content. -/
def element? (children : List Char → List Markup × List Char) (cs : List Char) :
    Option (Markup × List Char) := do
  let ((tag, attributes), cs) ← opening? cs
  match past? ['/', '>'] cs with
  | some cs => pure (.element tag attributes [], cs)
  | none =>
    let (nodes, cs) ← content? children tag cs
    pure (.element tag attributes nodes, cs)

/-- How many characters of a text there are. A `<` belongs to it if what follows cannot start a tag. -/
def textLength : List Char → Nat
  | [] => 0
  | '<' :: cs =>
    match cs with
    | [] => 0
    | c :: _ => if c.isAlpha ∨ c = '/' ∨ c = '!' then 0 else textLength cs + 1
  | _ :: cs => textLength cs + 1

/-- A text with its entities read. -/
def text? (cs : List Char) : Option (Markup × List Char) :=
  match textLength cs with
  | 0 => none
  | n => some (.text (decodeEntities (String.ofList (cs.take n))), cs.drop n)

/-- One piece of markup, given a reader for the content of elements; comments and declarations leave
nothing behind. -/
def node? (children : List Char → List Markup × List Char) (cs : List Char) :
    Option (Option Markup × List Char) :=
  match (comment? cs).or (declaration? cs) with
  | some rest => some (none, rest)
  | none =>
    (((voidElement? cs).or (element? children cs)).or (text? cs)).map fun (node, rest) =>
      (some node, rest)

/-- Pieces of markup as long as there are any. Each takes a character at least, so the length of the
text is enough `fuel`. -/
def nodes : (fuel : Nat) → List Char → List Markup × List Char
  | 0, cs => ([], cs)
  | fuel + 1, cs =>
    match node? (nodes fuel) cs with
    | none => ([], cs)
    | some (found, rest) =>
      let (more, last) := nodes fuel rest
      (found.toList ++ more, last)

/-- A whole text as markup. -/
def read (source : String) : Except MarkupError (List Markup) :=
  let cs := source.toList
  match nodes cs.length cs with
  | (found, []) => .ok found
  | _ => .error ⟨source⟩

end ReactiveTemplate.Markup
