import ReactiveTemplate.Template.Basic
import ReactiveTemplate.Document.Basic
import ReactiveTemplate.Error

/-!
# The state of a render

A render works on a document. It notes which names it asked of the resolver behind the scopes and
which handlers it attached, in order; both notes stay also when an error ends it.

`L` is the type of the listeners of the document.
-/

namespace ReactiveTemplate

open Json

/-- Actions attached to a rendered element. The expressions of assignments are left to be evaluated
when the event comes, the arguments of calls are values already. -/
structure Handler where
  event : String
  actions : List (Action Expression Value)

/-- What a render needs from its surroundings: the names behind the scopes, and a listener for each
handler. -/
structure Surroundings (L : Type) where
  resolver : Resolver
  listener : Handler → L

/-- The document with the notes of a render. -/
structure RenderState (L : Type) where
  document : Document L
  asked : List String
  handlers : List Handler

/-- A step of a render that an error can end. -/
abbrev Render (L : Type) (α : Type) := ExceptT Error (StateM (RenderState L)) α

namespace Render

variable {L : Type}

/-- The value of an expression. -/
def evaluate (s : Surroundings L) (scope : Scope) (e : Expression) : Render L Value := do
  modify fun state => { state with asked := state.asked ++ e.asked scope s.resolver }
  match e.eval scope s.resolver with
  | .ok value => pure value
  | .error e => throw (.resolution e)

/-- An operation on the document that can be refused. -/
def edit (operation : Document L → Document.Outcome L) : Render L Unit := do
  let (result, document) := operation (← get).document
  modify fun state => { state with document }
  match result with
  | .ok () => pure ()
  | .error e => throw (.document e)

/-- An operation on the document that makes a node. -/
def make (operation : Document L → NodeId × Document L) : Render L NodeId := do
  let (n, document) := operation (← get).document
  modify fun state => { state with document }
  pure n

/-- The document without some nodes, in order; one that is not live is passed over. -/
def discard (nodes : List NodeId) : Render L Unit :=
  modify fun state => { state with document := nodes.foldl (fun d n => (d.remove n).2) state.document }

/-- The values of a mapping under its keys. -/
def evaluateMapping (s : Surroundings L) (scope : Scope) (m : Mapping) :
    Render L (List (String × Value)) :=
  m.mapM fun (name, e) => do pure (name, ← evaluate s scope e)

/-- The text of some parts. -/
def interpolate (s : Surroundings L) (scope : Scope) : List (Interpolated Expression) → Render L String
  | [] => pure ""
  | .literal text :: rest => do pure (text ++ (← interpolate s scope rest))
  | .expression e :: rest => do
    let value ← evaluate s scope e
    pure (value.display ++ (← interpolate s scope rest))

/-- An argument with its value in a scope. -/
def bindArgument (s : Surroundings L) (scope : Scope) : Argument Expression → Render L (Argument Value)
  | .event => pure .event
  | .given e => do pure (.given (← evaluate s scope e))

/-- An action with the values of its arguments in a scope. -/
def bindAction (s : Surroundings L) (scope : Scope) :
    Action Expression Expression → Render L (Action Expression Value)
  | .assign target value => pure (.assign target value)
  | .invoke method arguments => do pure (.invoke method (← arguments.mapM (bindArgument s scope)))

end Render

end ReactiveTemplate
