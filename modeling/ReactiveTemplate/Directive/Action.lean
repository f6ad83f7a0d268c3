import ReactiveTemplate.Directive.Fragment
import ReactiveTemplate.CompileError

/-!
# Actions of event listeners

The value of an event directive is a list of actions between semicolons: an assignment to a field, or
the call of a method with arguments. Empty actions count for nothing.
-/

namespace ReactiveTemplate

open Text

/-- An argument of a call: the event that is being dispatched, or something given. -/
inductive Argument (α : Type) where
  | event
  | given (value : α)
  deriving DecidableEq, Repr

/-- An action: the value of an assignment is an `ε`, the given arguments of a call are `α`s. -/
inductive Action (ε α : Type) where
  | assign (target : String) (value : ε)
  | invoke (method : String) (arguments : List (Argument α))
  deriving DecidableEq, Repr

namespace Directive

/-- The argument that stands for the event being dispatched. -/
def eventName : String := "$event"

namespace ActionList

/-- The argument of a fragment. -/
def ofFragment (f : Fragment) : Argument Fragment :=
  if f.text = eventName then .event else .given f

/-- An argument at a cursor, which ends at a comma or a semicolon. -/
def argument? (c : Cursor) : Option (Argument Fragment × Cursor) := do
  let (f, c) ← Fragment.cut? (fun d => d == ',' || d == ';') c
  pure (ofFragment f, c)

/-- Arguments in parentheses. -/
def arguments? (c : Cursor) : Option (List (Argument Fragment) × Cursor) := do
  let c ← c.past? '('
  let (arguments, c) := Cursor.separated argument? ',' false c
  pure (arguments, ← c.skipBlank.past? ')')

/-- A name with blanks around it. -/
def paddedName? (c : Cursor) : Option (String × Cursor) := do
  let (name, c) ← name? c.skipBlank
  pure (name, c.skipBlank)

/-- An assignment: one equals sign, and not two. -/
def assign? (c : Cursor) : Option (Action Fragment Fragment × Cursor) := do
  let (target, c) ← paddedName? c
  let c ← c.past? '='
  if (c.past? '=').isSome then none
  else
    let (value, c) ← Fragment.cut? (· == ';') c
    pure (.assign target value, c)

/-- A call, with arguments or without. -/
def invoke? (c : Cursor) : Option (Action Fragment Fragment × Cursor) := do
  let (method, c) ← paddedName? c
  let (arguments, c) := (arguments? c).getD ([], c)
  pure (.invoke method arguments, c.skipBlank)

/-- An action with blanks around it, or nothing but blanks. -/
def item (c : Cursor) : Option (Action Fragment Fragment) × Cursor :=
  let c := c.skipBlank
  match (assign? c).or (invoke? c) with
  | some (action, c) => (some action, c.skipBlank)
  | none => (none, c)

/-- The actions of a whole text. -/
def ofText? (text : String) : Option (List (Action Fragment Fragment)) :=
  let (items, c) := Cursor.separated (fun c => some (item c)) ';' false (Cursor.start text)
  if c.atEnd then some (items.filterMap id) else none

end ActionList

/-- A text as a list of actions. -/
def readActions (text : String) : Except CompileError (List (Action Fragment Fragment)) :=
  match ActionList.ofText? text with
  | some actions => .ok actions
  | none => .error ⟨.malformedAction, text, .whole text⟩

end Directive

end ReactiveTemplate
