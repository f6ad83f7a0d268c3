import ReactiveTemplate.Document.NodeId
import ReactiveTemplate.Json.Value

/-!
# Events
-/

namespace ReactiveTemplate

open Json

/-- An event; the target is the node it was dispatched on. -/
structure Event where
  name : String
  detail : Value
  target : NodeId

/-- An event as templates see it. -/
def Event.toValue (e : Event) : Value :=
  .object [("type", .string e.name), ("detail", e.detail)]

end ReactiveTemplate
