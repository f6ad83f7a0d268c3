import ReactiveTemplate.Clock.Basic
import ReactiveTemplate.Component.Basic
import ReactiveTemplate.Document.Event
import ReactiveTemplate.Document.Selector
import ReactiveTemplate.Page.Reply
import ReactiveTemplate.Page.Script
import ReactiveTemplate.Render.Renderer

/-!
# Pages

A page is a document with a clock and the components that live on both. Timers carry the component
whose render they start; listeners belong to a component or follow a script. A component is alive as
long as it is held under a name or something of it is running; the listeners and timers of others do
nothing.

The operations here never run a listener, a method or a hook, so each is a plain function on pages.
-/

namespace ReactiveTemplate

open Json

/-- A listener of a page. -/
inductive Listener where
  /-- The actions of a rendered element of a component. -/
  | bound (component : ComponentId) (handler : Handler)
  | scripted (label failure : Option String) (steps : List Page.Step)

/-- The state of a page. -/
structure Page where
  document : Document Listener
  clock : Clock ComponentId
  /-- All components ever built, each at the place of its id. -/
  components : List Component
  /-- The components that are held, by name. -/
  handles : Dictionary ComponentId
  /-- The components of which something is running, the innermost first. -/
  running : List ComponentId
  /-- The nodes that a script has stored. -/
  nodes : Dictionary NodeId
  /-- The log from its newest entry back. -/
  latest : List Page.Entry

namespace Page

/-- The page of a document. -/
def ofDocument (d : Document Listener) : Page :=
  ⟨d, .start, [], [], [], [], []⟩

/-- The component of an id. -/
def component? (p : Page) (id : ComponentId) : Option Component :=
  p.components[id]?

/-- The page with another record for a component. -/
def setComponent (p : Page) (id : ComponentId) (c : Component) : Page :=
  { p with components := p.components.set id c }

/-- The page with a component changed. -/
def updateComponent (p : Page) (id : ComponentId) (f : Component → Component) : Page :=
  { p with components := p.components.modify id f }

/-- Whether a component is held or running. -/
def isAlive (p : Page) (id : ComponentId) : Bool :=
  p.running.contains id || (p.handles.map Prod.snd).contains id

/-- The log in the order in which it was written. -/
def log (p : Page) : List Entry :=
  p.latest.reverse

/-- The page with more entries in its log. -/
def record (p : Page) (entries : List Entry) : Page :=
  { p with latest := entries.reverse ++ p.latest }

/-- The page with more notes in its log. -/
def addNotes (p : Page) (notes : List Note) : Page :=
  p.record (notes.map .note)

/-- The page with a timer for the next render of a component. -/
def armRender (p : Page) (id : ComponentId) (c : Component) : Page :=
  { p with clock := p.clock.after c.scheduler.interval id }

/-- A write to a field of a component, which schedules a render if it changes what can be seen. -/
def write (p : Page) (id : ComponentId) (field : String) (value : Value) : Except Error Bool × Page :=
  match p.component? id with
  | none => (.error (.resolution ⟨.field, field⟩), p)
  | some c =>
    let (result, arms, c) := c.write field value
    let p := p.setComponent id c
    (result, if arms then p.armRender id c else p)

/-- The value of an expression for a component. -/
def value (p : Page) (id : ComponentId) (e : Expression) : Except Error Value × Page :=
  match p.component? id with
  | none => ((e.eval .empty fun _ => none).mapError .resolution, p)
  | some c =>
    let (result, notes) := c.value e
    (result, p.addNotes notes)

/-- The value of a source for a component. -/
def evaluate (p : Page) (id : ComponentId) (source : String) : Except Error Value × Page :=
  match p.component? id with
  | none =>
    let result := do
      let e ← (Expression.compile source).mapError .compile
      (e.eval .empty fun _ => none).mapError .resolution
    (result, p)
  | some c =>
    let (result, notes, c) := c.evaluate source
    (result, (p.setComponent id c).addNotes notes)

/-- The value of a field of a component. -/
def field? (p : Page) (id : ComponentId) (field : String) : Option Value :=
  (p.component? id).bind (·.store.find? field)

/-- Asks a component for one deferred action. -/
def requestFollowUp (p : Page) (id : ComponentId) : Page :=
  p.updateComponent id fun c => { c with store := c.store.requestFollowUp }

/-- Whether a deferred action was asked for; the request is taken. -/
def takeFollowUp (p : Page) (id : ComponentId) : Bool × Page :=
  match p.component? id with
  | none => (false, p)
  | some c =>
    let (taken, store) := c.store.takeFollowUp
    (taken, p.setComponent id { c with store })

/-- The error of the last scheduled render that failed; it is taken. -/
def takeError (p : Page) (id : ComponentId) : Option Error × Page :=
  ((p.component? id).bind Component.lastError,
    p.updateComponent id fun c => { c with lastError := none })

/-- Renders a component and puts the result at the place of its root. If that place is gone, what was
rendered is freed again. -/
def swapIn (p : Page) (id : ComponentId) : Except Error Unit × Page :=
  match p.component? id with
  | none => (.ok (), p)
  | some c =>
    let surroundings : Surroundings Listener := ⟨c.resolver, .bound id⟩
    let (result, state) := (c.template.render surroundings).run.run ⟨p.document, [], []⟩
    let p := { p with document := state.document }.addNotes (c.computedAmong state.asked)
    match result with
    | .error e => (.error e, p)
    | .ok root =>
      match p.document.replace c.root root with
      | (.error e, document) =>
        (.error (.document e), { p with document := (document.remove root).2 })
      | (.ok (), document) =>
        (.ok (), { p with document }.setComponent id { c with root, renderCount := c.renderCount + 1 })

/-- Frees the first element that a selector means. -/
def removeMatching (p : Page) (selector : String) : Page :=
  match p.document.query? selector with
  | some n => { p with document := (p.document.remove n).2 }
  | none => p

/-- The node of a reference. -/
def node? (p : Page) : NodeRef → Option NodeId
  | .named name => if name = "body" then some p.document.body else p.nodes.lookup name
  | .matching selector => p.document.query? selector
  | .rootOf component => do
    let c ← p.component? (← p.handles.lookup component)
    pure c.root
  | .child parent position => do (p.document.children (← p.node? parent))[position]?
  | .exactly id => some id

/-- The page with a node kept under a name, if one is given. -/
def keepNode (p : Page) (name : Option String) (n : NodeId) : Page :=
  match name with
  | some name => { p with nodes := Dictionary.put name n p.nodes }
  | none => p

end Page

end ReactiveTemplate
