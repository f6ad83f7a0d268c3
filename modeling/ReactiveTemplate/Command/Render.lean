import ReactiveTemplate.Command.Arguments
import ReactiveTemplate.Command.Transcript
import ReactiveTemplate.Document.Load
import ReactiveTemplate.Page.Session

/-!
# Rendering from the command line

A template is mounted on a page, some fields are written, events are dispatched one after another, and
the component is shown once no render is due. Its methods only say that they were called.
-/

namespace ReactiveTemplate.Command

open Json Page

/-- A request that has been read. -/
structure RenderPlan where
  template : String
  file : String
  data : Value
  page : String
  mount : String
  sets : List (String × Value)
  /-- Selectors with the events dispatched there. -/
  dispatches : List (String × String)
  methods : List String
  interval : Nat
  json : Bool

/-- A field and its new value; what is not JSON is taken for a text. -/
def assignment (text : String) : Except Failure (String × Value) :=
  match Text.cutAt? ['='] text.toList with
  | none => .error ⟨s!"`{text}` is not FIELD=JSON", none⟩
  | some ([], _) => .error ⟨s!"`{text}` names no field", none⟩
  | some (field, raw) =>
    let raw := String.ofList raw
    let value := match Json.read raw with
      | .ok value => value
      | .error _ => .string raw
    .ok (String.ofList field, value)

/-- A selector and an event, cut at the last at sign. -/
def dispatchTarget (text : String) : Except Failure (String × String) :=
  match Text.cutAt? ['@'] text.toList.reverse with
  | some (event, selector) =>
    if event.isEmpty || selector.isEmpty then refused
    else .ok (String.ofList selector.reverse, String.ofList event.reverse)
  | none => refused
where
  /-- The failure for all other texts. -/
  refused : Except Failure (String × String) :=
    .error ⟨s!"`{text}` is not SELECTOR@EVENT", none⟩

namespace RenderPlan

/-- Reads the files and arguments of a request. -/
def ofRequest {m : Type → Type} [Monad m] (files : FileReader m) (r : RenderRequest) :
    Work m RenderPlan := do
  let template ← Work.fileText files r.file
  let data ← match r.data with
    | some argument => do pure (Value.object (← Work.readObject files "--data" argument))
    | none => pure .null
  let page ← Work.readArgument files r.page
  let sets ← liftExcept (r.sets.mapM assignment)
  let dispatches ← liftExcept (r.dispatches.mapM dispatchTarget)
  pure
    { template, file := r.file, data, page, mount := r.mount, sets, dispatches, methods := r.methods
      interval := r.interval.getD Scheduler.defaultInterval, json := r.json }
where
  /-- A result as a step of a command. -/
  liftExcept {α : Type} : Except Failure α → Work m α
    | .ok a => pure a
    | .error f => throw f

/-- The component of a plan. Its methods note their calls and do nothing else. -/
def blueprint (plan : RenderPlan) : Blueprint where
  mount := .selector plan.mount
  name := some plan.file
  template := some plan.template
  data := plan.data
  interval := plan.interval
  methods := Dictionary.ofList <| plan.methods.map fun name =>
    (name, fun arguments => .note (.method name arguments) .done)
  computed := []
  hook := none

end RenderPlan

/-- An error with its cause behind it. -/
def inline (e : Error) : String :=
  s!"{e.message}: {e.cause}"

/-- A run on the page that a message can end. -/
abbrev Rendering (α : Type) := ExceptT String Run α

namespace Rendering

/-- Nothing nests deeper here than a timer that starts a render or a dispatch that runs a listener. -/
def nesting : Nat := 4

/-- Builds the component; errors are reported under the name of its file. -/
def mount (plan : RenderPlan) : Rendering ComponentId := do
  match ← (build (callbacks nesting) plan.file plan.blueprint : Run _) with
  | .ok id => pure id
  | .error e => throw (e.report plan.file)

/-- Writes a field. -/
def set (id : ComponentId) (field : String) (value : Value) : Rendering Unit := do
  match ← (Run.plain (·.write id field value) : Run _) with
  | .ok _ => pure ()
  | .error e => throw (inline e)

/-- Waits for a render that is due. -/
def waitOut (plan : RenderPlan) (id : ComponentId) : Rendering Unit := do
  match ← (Run.look (·.clock.untilNext?) : Run _) with
  | some delay => let _ ← (advance (callbacks nesting) delay : Run _)
  | none => pure ()
  match ← (Run.plain (·.takeError id) : Run _) with
  | some e => throw (e.report plan.file)
  | none => pure ()

/-- Dispatches an event and waits for the render that it may cause. -/
def dispatch (plan : RenderPlan) (id : ComponentId) (selector event : String) : Rendering Unit := do
  match ← (dispatchMatching (callbacks nesting) selector event : Run _) with
  | none => throw s!"no node matches `{selector}`"
  | some (.error e) => throw s!"{event} on `{selector}` failed: {e.message}"
  | some (.ok _) => waitOut plan id

/-- What the component shows, as markup or as the JSON of its structure. -/
def shown (plan : RenderPlan) (id : ComponentId) : Rendering String := do
  let p ← (Run.look fun p => p : Run _)
  let root := ((p.component? id).map Component.root).getD p.document.body
  if plan.json then
    match p.document.snapshot? root with
    | some snapshot => pure (snapshot.toValue.pretty 0)
    | none => throw "rendered root left the document"
  else pure (p.document.outerHtml root)

/-- All of a plan. -/
def run (plan : RenderPlan) : Rendering String := do
  let id ← mount plan
  plan.sets.forM fun (field, value) => set id field value
  waitOut plan id
  plan.dispatches.forM fun (selector, event) => dispatch plan id selector event
  shown plan id

end Rendering

/-- The call of a method as a line. -/
def callLine (name : String) (arguments : List Value) : String :=
  name ++ "(" ++ ", ".intercalate (arguments.map Value.compact) ++ ")\n"

/-- The calls of methods in a log, a line each. -/
def callLines (log : List Entry) : String :=
  String.join <| log.map fun
    | .note (.method name arguments) => callLine name arguments
    | _ => ""

/-- What a plan shows or why it fails, and the lines that its methods wrote. -/
def RenderPlan.result (plan : RenderPlan) : Except String String × String :=
  match Document.load plan.page with
  | .error e => (.error ((Error.markup e).report "<page>"), "")
  | .ok d =>
    match ExceptT.run (Rendering.run plan) (Page.ofDocument d) with
    | some (result, p) => (result, callLines p.log)
    | none => (.error "the page does not come to rest", "")

end ReactiveTemplate.Command
