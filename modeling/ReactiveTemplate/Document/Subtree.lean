import ReactiveTemplate.Document.Basic
import ReactiveTemplate.Markup.Entities
import ReactiveTemplate.Json.Value

/-!
# The tree below a node

`Document.subtree?` gives the tree below a node as plain data. Markup, text, snapshots and searches
are recursions on that tree.
-/

namespace ReactiveTemplate

open Json

variable {L : Type}

/-- A node with all below it. -/
inductive Subtree where
  | element (id : NodeId) (element : Element) (events : List String) (children : List Subtree)
  | text (id : NodeId) (text : String)

/-- The tree below a node, at most `fuel` levels deep. -/
def Document.subtreeWithin (d : Document L) : (fuel : Nat) → NodeId → Option Subtree
  | 0, _ => none
  | fuel + 1, n =>
    (d.node? n).map fun node =>
      match node.data with
      | .text text => .text n text
      | .element e =>
        .element n e (node.listeners.map Prod.fst) (node.children.filterMap (d.subtreeWithin fuel))

/-- The tree below a live node. -/
def Document.subtree? (d : Document L) (n : NodeId) : Option Subtree :=
  d.subtreeWithin d.slots.size n

namespace Element

/-- An attribute inside a tag. The class and style attributes are left out when they are empty, other
empty attributes are written without a value. -/
def attributeHtml (e : Element) (name : String) : String :=
  let value := (e.attribute? name).getD ""
  if value.isEmpty then
    if name = "class" ∨ name = "style" then "" else " " ++ name
  else " " ++ name ++ "=\"" ++ Markup.escapeAttribute value ++ "\""

/-- The opening tag. -/
def openingHtml (e : Element) : String :=
  "<" ++ e.tag ++ String.join (e.attributes.names.map e.attributeHtml) ++ ">"

end Element

/-- The structure of a tree without ids. -/
inductive Snapshot where
  | element (tag : String) (attributes : Dictionary String) (classes : List String)
      (styles : Dictionary String) (listeners : List String) (children : List Snapshot)
  | text (text : String)
  deriving Repr

namespace Subtree

/-- The id of the uppermost node. -/
def id : Subtree → NodeId
  | element id .. => id
  | text id _ => id

mutual

/-- The tree as markup. -/
def html : Subtree → String
  | text _ content => Markup.escapeText content
  | element _ e _ children =>
    if Markup.isVoid e.tag then e.openingHtml
    else e.openingHtml ++ htmlList children ++ "</" ++ e.tag ++ ">"

/-- Trees as markup, one after another. -/
def htmlList : List Subtree → String
  | [] => ""
  | t :: ts => html t ++ htmlList ts

end

mutual

/-- All texts of the tree in order. -/
def textContent : Subtree → String
  | text _ content => content
  | element _ _ _ children => textContentList children

/-- All texts of some trees in order. -/
def textContentList : List Subtree → String
  | [] => ""
  | t :: ts => textContent t ++ textContentList ts

end

mutual

/-- The structure of the tree; its classes and styles stand apart from its attributes. -/
def snapshot : Subtree → Snapshot
  | text _ content => .text content
  | element _ e events children =>
    .element e.tag (e.attributes.filter fun (name, _) => name ≠ "class" ∧ name ≠ "style") e.classes
      e.styles events (snapshotList children)

/-- The structures of some trees. -/
def snapshotList : List Subtree → List Snapshot
  | [] => []
  | t :: ts => snapshot t :: snapshotList ts

end

mutual

/-- The elements of the tree with their ids, each before those below it. -/
def elements : Subtree → List (NodeId × Element)
  | text _ _ => []
  | element id e _ children => (id, e) :: elementsList children

/-- The elements of some trees. -/
def elementsList : List Subtree → List (NodeId × Element)
  | [] => []
  | t :: ts => elements t ++ elementsList ts

end

end Subtree

namespace Snapshot

/-- A dictionary of texts as a JSON object. -/
def ofTexts (d : Dictionary String) : Value :=
  .object (d.map fun (name, content) => (name, .string content))

mutual

/-- A structure as JSON. -/
def toValue : Snapshot → Value
  | text content => .object [("kind", .string "text"), ("text", .string content)]
  | element tag attributes classes styles listeners children =>
    .object
      [("kind", .string "element"), ("tag", .string tag), ("attributes", ofTexts attributes),
        ("classes", .array (classes.map .string)), ("styles", ofTexts styles),
        ("listeners", .array (listeners.map .string)), ("children", .array (toValues children))]

/-- Structures as JSON. -/
def toValues : List Snapshot → List Value
  | [] => []
  | s :: rest => toValue s :: toValues rest

end

end Snapshot

namespace Document

/-- A node with all below it as markup. -/
def outerHtml (d : Document L) (n : NodeId) : String :=
  match d.subtree? n with
  | some t => t.html
  | none => ""

/-- What is below a node as markup. -/
def innerHtml (d : Document L) (n : NodeId) : String :=
  String.join ((d.children n).map d.outerHtml)

/-- All texts in and below a node. -/
def textContent (d : Document L) (n : NodeId) : String :=
  match d.subtree? n with
  | some t => t.textContent
  | none => ""

/-- The structure of a node and of all below it. -/
def snapshot? (d : Document L) (n : NodeId) : Option Snapshot :=
  (d.subtree? n).map Subtree.snapshot

end Document

end ReactiveTemplate
