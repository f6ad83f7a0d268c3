import ReactiveTemplate.Error
import ReactiveTemplate.Json.Value

/-!
# Methods and hooks

The methods of a component and its render hook are programs: a command to the component, and what to
do with the answer. The engine interprets them, so a program can be told apart by what it contains,
for instance whether it does more than read and write fields.
-/

namespace ReactiveTemplate

open Json

/-- What a listener fails with. -/
inductive ListenerError where
  /-- An error of a component that the listener belongs to. -/
  | engine (error : Error)
  /-- An error of the document. -/
  | document (error : DocumentError)
  /-- A failure in the listener's own words. -/
  | failure (message : String)
  deriving DecidableEq, Repr

/-- The wording of a listener's error. -/
def ListenerError.message : ListenerError → String
  | engine e => e.message
  | document e => e.message
  | failure message => message

/-- What components leave in the log of their page. -/
inductive Note where
  /-- A computed field was read. -/
  | computed (name : String)
  | method (name : String) (arguments : List Value)
  | hook (renderCount : Nat)
  | set (field : String) (changed : Bool)
  | followUp (taken : Bool)
  | dispatched (result : Except ListenerError Nat)

/-- A program that works on a component. A selector that matches nothing answers `none`. -/
inductive Program where
  | done
  | fail (error : Error)
  | get (field : String) (next : Option Value → Program)
  | set (field : String) (value : Value) (next : Except Error Bool → Program)
  | evaluate (source : String) (next : Except Error Value → Program)
  | render (next : Except Error Unit → Program)
  | renderCount (next : Nat → Program)
  | requestFollowUp (next : Program)
  | takeFollowUp (next : Bool → Program)
  | dispatch (selector event : String) (next : Option (Except ListenerError Nat) → Program)
  | remove (selector : String) (next : Program)
  | note (entry : Note) (next : Program)

end ReactiveTemplate
