import ReactiveTemplate.Component.Basic
import ReactiveTemplate.Expression.Compile
import ReactiveTemplate.Page.Script

/-!
# From plans to components

The actions of a script as programs, and a plan as the blueprint of a component.
-/

namespace ReactiveTemplate.Page

open Json

/-- Writes a value and notes whether it changed. -/
def setProgram (field : String) (value : Value) (next : Program) : Program :=
  .set field value fun
    | .error e => .fail e
    | .ok changed => .note (.set field changed) next

namespace Act

mutual

/-- An action for some arguments, followed by a program. -/
def program (arguments : List Value) (next : Program) : Act → Program
  | .set field (.argument position) => setProgram field ((arguments[position]?).getD .null) next
  | .set field (.given value) => setProgram field value next
  | .set field (.expression source) =>
    .evaluate source fun
      | .error e => .fail e
      | .ok value => setProgram field value next
  | .fail method => .fail (.resolution ⟨.method, method⟩)
  | .render =>
    .render fun
      | .error e => .fail e
      | .ok () => next
  | .requestFollowUp => .requestFollowUp next
  | .takeFollowUp acts =>
    .takeFollowUp fun taken =>
      .note (.followUp taken) (if taken then programs arguments next acts else next)
  | .dispatch selector event =>
    .dispatch selector event fun
      | none => next
      | some result => .note (.dispatched result) next
  | .remove selector => .remove selector next

/-- Actions in order, followed by a program. -/
def programs (arguments : List Value) (next : Program) : List Act → Program
  | [] => next
  | act :: rest => program arguments (programs arguments next rest) act

end

end Act

/-- The value of a source over a store alone; null if it does not compile or has none. -/
def computedField (source : String) (store : Store) : Value :=
  match Expression.compile source with
  | .error _ => .null
  | .ok e =>
    match e.eval .empty store.resolver with
    | .error _ => .null
    | .ok value => value

/-- The method that notes its call and then does some actions. -/
def methodProgram (name : String) (acts : List Act) (arguments : List Value) : Program :=
  .note (.method name arguments) (Act.programs arguments .done acts)

/-- The hook that notes the number of renders and then does some actions. -/
def hookProgram (acts : List Act) : Program :=
  .renderCount fun count => .note (.hook count) (Act.programs [] .done acts)

/-- The blueprint of a plan that is mounted at a given place. -/
def Plan.blueprint (plan : Plan) (mount : Mount) : Blueprint where
  mount := mount
  name := plan.name
  template := plan.template
  data := plan.data
  interval := plan.interval
  methods := Dictionary.ofList (plan.methods.map fun (name, acts) => (name, methodProgram name acts))
  computed := Dictionary.ofList (plan.computed.map fun (name, source) => (name, computedField source))
  hook := plan.hook.map hookProgram

end ReactiveTemplate.Page
