import ReactiveTemplate.Page.Engine
import ReactiveTemplate.Page.Plan

/-!
# Following a script

Each step of a script is done on the page and answered. Listeners that a script added run steps of
their own in the midst of others; this closes the circle of `Callbacks`.
-/

namespace ReactiveTemplate.Page

open Json

/-- The answer to an operation that can be refused. -/
def Reply.ofResult : Except DocumentError Unit → Reply
  | .ok () => .done
  | .error e => .refused e

/-- The answer to a dispatch. -/
def Reply.ofDispatch : Except ListenerError Nat → Reply
  | .ok ran => .count ran
  | .error e => .failed e

/-- The answer to a question about a node. -/
def answer (p : Page) (n : NodeId) : Question → Reply
  | .children => .nodes (p.document.children n)
  | .parent => .node (p.document.parent? n)
  | .contains => .flag (p.document.contains n)
  | .attached => .flag (p.document.isAttached n)
  | .tag => .text ((p.document.element? n).map Element.tag)
  | .text => .text (p.document.text? n)
  | .textContent => .text (some (p.document.textContent n))
  | .attribute name => .text ((p.document.element? n).bind (·.attribute? name))
  | .hasClass name => .flag ((p.document.element? n).any (·.classes.contains name))
  | .classes => .texts (((p.document.element? n).map Element.classes).getD [])
  | .style property => .text ((p.document.element? n).bind (·.style? property))
  | .listenerCount event => .count (p.document.listenersAt n event).length
  | .outerHtml => .text (some (p.document.outerHtml n))
  | .innerHtml => .text (some (p.document.innerHtml n))
  | .snapshot => .snapshot (p.document.snapshot? n)

/-- An edit as an operation on a document. -/
def Edit.apply {L : Type} (n : NodeId) (d : Document L) : Edit → Document.Outcome L
  | .setAttribute name value => d.setAttribute n name value
  | .removeAttribute name => d.removeAttribute n name
  | .addClass name => d.addClass n name
  | .setStyle property value => d.setStyle n property value
  | .remove => d.remove n

/-- An operation on the document that can be refused. -/
def onDocument (operation : Document Listener → Document.Outcome Listener) : Run Reply :=
  Run.plain fun p =>
    let (result, document) := operation p.document
    (.ofResult result, { p with document })

/-- A new node, which is kept under a name if one is given. -/
def create (store : Option String)
    (operation : Document Listener → NodeId × Document Listener) : Run Reply :=
  Run.plain fun p =>
    let (n, document) := operation p.document
    (.node (some n), { p with document }.keepNode store n)

/-- Goes on with the node of a reference, if there is one. -/
def withNode (ref : NodeRef) (next : NodeId → Run Reply) : Run Reply := do
  match ← Run.look (·.node? ref) with
  | some n => next n
  | none => pure .noNode

/-- Goes on with a component that is held, which stays alive meanwhile. -/
def withComponent (name : String) (next : ComponentId → Run Reply) : Run Reply := do
  match ← Run.look (·.handles.lookup name) with
  | some id => whileRunning id (next id)
  | none => pure .noComponent

/-- Answers a request to a component. -/
def request (cb : Callbacks) (id : ComponentId) (file : Option String) : Request → Run Reply
  | .set field value => do
    match ← Run.plain (·.write id field value) with
    | .ok changed => pure (.flag changed)
    | .error e => pure (.error file e)
  | .get field => do pure (.optional (← Run.look (·.field? id field)))
  | .data => Run.look fun p => .value (((p.component? id).map (·.store.toValue)).getD .null)
  | .evaluate source => do
    match ← Run.plain (·.evaluate id source) with
    | .ok value => pure (.optional (some value))
    | .error e => pure (.error file e)
  | .computed field => Run.plain fun p =>
    match (p.component? id).bind (·.computed? field) with
    | some value => (.optional (some value), p.addNotes [.computed field])
    | none => (.optional none, p)
  | .render => do
    match ← renderNow cb id with
    | .ok () => pure .done
    | .error e => pure (.error file e)
  | .requestFollowUp => do
    modify (·.requestFollowUp id)
    pure .nothing
  | .takeFollowUp => do pure (.flag (← Run.plain (·.takeFollowUp id)))
  | .takeError => do
    match ← Run.plain (·.takeError id) with
    | some e => pure (.error file e)
    | none => pure .nothing
  | .name => Run.look fun p => .text ((p.component? id).map Component.name)

/-- Builds a component from a plan. -/
def buildPlan (cb : Callbacks) (store : String) (file : Option String) (plan : Plan) : Run Reply := do
  match plan.mount with
  | .selector text => finish (plan.blueprint (.selector text))
  | .node ref => withNode ref fun n => finish (plan.blueprint (.node n))
where
  /-- Builds the component and answers its root. -/
  finish (b : Blueprint) : Run Reply := do
    match ← build cb store b with
    | .error e => pure (.error file e)
    | .ok id => Run.look fun p => .node ((p.component? id).map Component.root)

/-- Does a step. -/
def perform (cb : Callbacks) : Step → Run Reply
  | .body => Run.look fun p => .node (some p.document.body)
  | .createElement tag store => create store (·.createElement tag)
  | .createText text store => create store (·.createText text)
  | .ask ref question => withNode ref fun n => Run.look (·.answer n question)
  | .edit ref edit => withNode ref fun n => onDocument fun d => edit.apply n d
  | .append ref child => withNode ref fun n => withNode child fun child => onDocument (·.append n child)
  | .replace ref new => withNode ref fun n => withNode new fun new => onDocument (·.replace n new)
  | .query selector store => Run.plain fun p =>
    match p.document.query? selector with
    | some n => (.node (some n), p.keepNode store n)
    | none => (.node none, p)
  | .dispatch ref event detail => withNode ref fun n => do
    pure (.ofDispatch (← dispatch cb n event detail))
  | .listen ref event label failure steps => withNode ref fun n =>
    onDocument (·.addListener n event (.scripted label failure steps))
  | .advance milliseconds => do
    let fired ← advance cb milliseconds
    Run.look fun p => .moment fired.length p.clock.now
  | .idle => do
    let fired ← settle cb
    Run.look fun p => .moment fired.length p.clock.now
  | .timers => Run.look fun p => .timers p.clock.timers.length p.clock.untilNext?
  | .build store file plan => buildPlan cb store file plan
  | .drop name => Run.plain fun p =>
    (.flag (Dictionary.has name p.handles), { p with handles := Dictionary.remove name p.handles })
  | .component name file req => withComponent name fun id => request cb id file req

/-- Does steps in order and logs their answers. -/
def performLogged (cb : Callbacks) : List Step → Run Unit
  | [] => pure ()
  | step :: rest => do
    let reply ← perform cb step
    modify (·.record [.step reply])
    performLogged cb rest

/-- Runs a listener for an event. -/
def runListener (cb : Callbacks) (listener : Listener) (event : Event) :
    Run (Except ListenerError Unit) := do
  match listener with
  | .bound id handler => runHandler cb id handler event
  | .scripted label failure steps =>
    modify (·.record [.listener label event.toValue event.target])
    performLogged cb steps
    match failure with
    | some message => pure (.error (.failure message))
    | none => pure (.ok ())

/-- Listeners and renders nested at most `fuel` deep. -/
def callbacks : (fuel : Nat) → Callbacks
  | 0 => ⟨0, fun _ _ => Run.exhausted, fun _ => Run.exhausted⟩
  | fuel + 1 =>
    { fuel := fuel + 1
      listener := fun listener event => runListener (callbacks fuel) listener event
      render := fun id => renderNow (callbacks fuel) id }

/-- Does a step of a script from outside, with an empty log. -/
def step (fuel : Nat) (s : Step) (p : Page) : Option (Reply × Page) :=
  perform (callbacks fuel) s { p with latest := [] }

end ReactiveTemplate.Page
