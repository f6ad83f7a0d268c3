import ReactiveTemplate.Clock.Host
import ReactiveTemplate.Page.Basic

/-!
# The engine of a page

Programs, renders, events and timers run one another: a listener may render, a render runs a hook,
and a hook may dispatch events. Each function here is written against `Callbacks`, which says how
listeners and renders are run from inside others. A run need not end, so it is given fuel, and `none`
means that the fuel did not last.
-/

namespace ReactiveTemplate.Page

open Json

/-- A run that may change the page. -/
abbrev Run (α : Type) := StateT Page Option α

namespace Run

/-- An operation that runs nothing else. -/
def plain {α : Type} (f : Page → α × Page) : Run α := fun p => some (f p)

/-- An answer that changes nothing. -/
def look {α : Type} (f : Page → α) : Run α := fun p => some (f p, p)

/-- The run for which the fuel does not last. -/
def exhausted {α : Type} : Run α := fun _ => none

end Run

/-- How listeners and renders are run from inside others, and the fuel for the loops of the clock. -/
structure Callbacks where
  fuel : Nat
  listener : Listener → Event → Run (Except ListenerError Unit)
  render : ComponentId → Run (Except Error Unit)

/-- Runs something of a component, which stays alive meanwhile. -/
def whileRunning {α : Type} (id : ComponentId) (run : Run α) : Run α := do
  let before ← Run.look running
  modify fun p => { p with running := id :: before }
  let answer ← run
  modify fun p => { p with running := before }
  pure answer

/-- Dispatches an event on a node: its listeners and those of its ancestors run, as they were when
the dispatch began, up to the first that fails. The answer is how many ran. -/
def dispatch (cb : Callbacks) (target : NodeId) (event : String) (detail : Value) :
    Run (Except ListenerError Nat) := do
  let document ← Run.look Page.document
  if document.contains target then
    let listeners := document.listenersFor target event
    match ← runListeners (cb.listener · ⟨event, detail, target⟩) listeners with
    | .ok () => pure (.ok listeners.length)
    | .error e => pure (.error e)
  else pure (.error (.document (.staleNode target)))

/-- Dispatches an event on the first element that a selector means. -/
def dispatchMatching (cb : Callbacks) (selector event : String) :
    Run (Option (Except ListenerError Nat)) := do
  match ← Run.look (·.document.query? selector) with
  | none => pure none
  | some target => do pure (some (← dispatch cb target event .null))

/-- Runs a program on a component. -/
def runProgram (cb : Callbacks) (id : ComponentId) : Program → Run (Except Error Unit)
  | .done => pure (.ok ())
  | .fail e => pure (.error e)
  | .get field next => do runProgram cb id (next (← Run.look (·.field? id field)))
  | .set field value next => do runProgram cb id (next (← Run.plain (·.write id field value)))
  | .evaluate source next => do runProgram cb id (next (← Run.plain (·.evaluate id source)))
  | .render next => do runProgram cb id (next (← cb.render id))
  | .renderCount next => do
    let count ← Run.look fun p => ((p.component? id).map Component.renderCount).getD 0
    runProgram cb id (next count)
  | .requestFollowUp next => do
    modify (·.requestFollowUp id)
    runProgram cb id next
  | .takeFollowUp next => do runProgram cb id (next (← Run.plain (·.takeFollowUp id)))
  | .dispatch selector event next => do runProgram cb id (next (← dispatchMatching cb selector event))
  | .remove selector next => do
    modify (·.removeMatching selector)
    runProgram cb id next
  | .note entry next => do
    modify (·.addNotes [entry])
    runProgram cb id next

/-- Renders a component, and if that went well runs its hook, whose error is then the answer. -/
def renderNow (cb : Callbacks) (id : ComponentId) : Run (Except Error Unit) := do
  match ← Run.plain (·.swapIn id) with
  | .error e => pure (.error e)
  | .ok () =>
    match ← Run.look fun p => (p.component? id).bind Component.hook with
    | some hook => runProgram cb id hook
    | none => pure (.ok ())

/-- Runs one action of a handler. Assignments are evaluated now, without the loops that were around
them; the arguments of a call were evaluated when the handler was rendered. -/
def runAction (cb : Callbacks) (id : ComponentId) (event : Event) :
    Action Expression Value → Run (Except Error Unit)
  | .assign target e => do
    match ← Run.plain (·.value id e) with
    | .error e => pure (.error e)
    | .ok value =>
      match ← Run.plain (·.write id target value) with
      | .error e => pure (.error e)
      | .ok _ => pure (.ok ())
  | .invoke method arguments => do
    match ← Run.look fun p => (p.component? id).bind (·.methods.lookup method) with
    | none => pure (.error (.resolution ⟨.method, method⟩))
    | some body =>
      runProgram cb id <| body <| arguments.map fun
        | .event => event.toValue
        | .given value => value

/-- Runs actions in order, up to the first that fails. -/
def runActions (cb : Callbacks) (id : ComponentId) (event : Event) :
    List (Action Expression Value) → Run (Except Error Unit)
  | [] => pure (.ok ())
  | action :: rest => do
    match ← runAction cb id event action with
    | .ok () => runActions cb id event rest
    | .error e => pure (.error e)

/-- Runs a handler of a component for an event, if the component is alive. -/
def runHandler (cb : Callbacks) (id : ComponentId) (handler : Handler) (event : Event) :
    Run (Except ListenerError Unit) := do
  if ← Run.look (·.isAlive id) then
    match ← whileRunning id (runActions cb id event handler.actions) with
    | .ok () => pure (.ok ())
    | .error e => pure (.error (.engine e))
  else pure (.ok ())

/-- What came of a timer: the component whose render it starts, and how the render ended if the
component is alive. -/
structure Firing where
  component : ComponentId
  result : Option (Except Error Unit)

/-- The scheduled render of a component, if the component is alive. An error is kept. -/
def fire (cb : Callbacks) (id : ComponentId) : Run Firing := do
  modify (·.updateComponent id fun c => { c with scheduler := c.scheduler.fired })
  if ← Run.look (·.isAlive id) then
    match ← whileRunning id (renderNow cb id) with
    | .ok () => pure ⟨id, some (.ok ())⟩
    | .error e =>
      modify (·.updateComponent id fun c => { c with lastError := some e })
      pure ⟨id, some (.error e)⟩
  else pure ⟨id, none⟩

/-- The page as the host of its clock. -/
def host (cb : Callbacks) : ClockHost Page ComponentId Firing where
  clock := Page.clock
  setClock clock p := { p with clock }
  fire := fire cb

/-- Moves time forward; gives what came of the timers that fired. -/
def advance (cb : Callbacks) (milliseconds : Nat) : Run (List Firing) :=
  (host cb).advance cb.fuel milliseconds

/-- Moves time forward until no timer is left; gives what came of them. -/
def settle (cb : Callbacks) : Run (List Firing) :=
  (host cb).settle cb.fuel 0

/-- Builds a component, which renders once, and holds it under a name. A component that was held under
that name is forgotten only if the new one could be built. -/
def build (cb : Callbacks) (name : String) (b : Blueprint) : Run (Except Error ComponentId) := do
  match b.prepare (← Run.look Page.document) with
  | .error e => pure (.error e)
  | .ok c =>
    let id ← Run.look (·.components.length)
    modify fun p => { p with components := p.components ++ [c] }
    match ← whileRunning id (renderNow cb id) with
    | .error e => pure (.error e)
    | .ok () =>
      modify fun p => { p with handles := Dictionary.put name id p.handles }
      pure (.ok id)

end ReactiveTemplate.Page
