import ReactiveTemplate.Component.Program
import ReactiveTemplate.Document.Subtree

/-!
# Answers of a page

What the steps of a script answer, and the log that listeners and components write.
-/

namespace ReactiveTemplate.Page

open Json

/-- The answer to a step. -/
inductive Reply where
  | nothing
  | done
  | flag (b : Bool)
  | count (n : Nat)
  | text (text : Option String)
  | texts (texts : List String)
  | node (node : Option NodeId)
  | nodes (nodes : List NodeId)
  | value (value : Value)
  /-- A value that need not be there; null is a value. -/
  | optional (value : Option Value)
  | snapshot (snapshot : Option Snapshot)
  /-- How many timers fired, and the time after them. -/
  | moment (fired now : Nat)
  /-- How many timers wait, and the time until the next one. -/
  | timers (count : Nat) (next : Option Nat)
  | noNode
  | noComponent
  | refused (error : DocumentError)
  | failed (error : ListenerError)
  | error (file : Option String) (error : Error)

/-- An entry of the log. -/
inductive Entry where
  | note (note : Note)
  /-- A listener of a script ran. -/
  | listener (label : Option String) (event : Value) (target : NodeId)
  /-- The answer to a step of such a listener. -/
  | step (reply : Reply)

end ReactiveTemplate.Page
