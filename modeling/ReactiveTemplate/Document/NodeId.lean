/-!
# Node ids and the errors of a document

Indexes and generations are natural numbers without a bound. A document keeps both in 32 bits: an index would come
round with 2^32 slots, a generation when one slot is used again for the 2^32nd time, and an id could then mean another
node. Such documents are left out.
-/

namespace ReactiveTemplate

/-- A slot of a document, and how often the slot had been reused when the node was made. -/
structure NodeId where
  index : Nat
  generation : Nat
  deriving DecidableEq, Repr, Inhabited

/-- An id as shown in messages. -/
def NodeId.text (n : NodeId) : String :=
  s!"#{n.index}v{n.generation}"

/-- Why an operation on a document is refused. -/
inductive DocumentError where
  | staleNode (node : NodeId)
  | notAnElement (node : NodeId)
  | notAChild (parent child : NodeId)
  deriving DecidableEq, Repr

/-- The wording of a document error. -/
def DocumentError.message : DocumentError → String
  | staleNode node => s!"node {node.text} is no longer part of the document"
  | notAnElement node => s!"node {node.text} is not an element"
  | notAChild parent child => s!"node {child.text} is not a child of {parent.text}"

end ReactiveTemplate
