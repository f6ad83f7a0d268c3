import ReactiveTemplate.Clock.Scheduler
import ReactiveTemplate.Component.Program
import ReactiveTemplate.Document.Selector
import ReactiveTemplate.Render.Basic
import ReactiveTemplate.Store
import ReactiveTemplate.Template.Compile

/-!
# Components

A component shows a template at one place of a document and keeps it up to date with a store. Here
is its record, and what it does without its surroundings: reading, writing and evaluating. A component is
known by its place on the page, where a random label would name it for logs only; renders are counted without a bound.
-/

namespace ReactiveTemplate

open Json

/-- The place of a component on its page. -/
abbrev ComponentId := Nat

/-- What a component is built from. -/
structure Component where
  name : String
  template : Template
  methods : Dictionary (List Value → Program)
  /-- Fields that are functions of the store; a field of the store hides one of the same name. -/
  computed : Dictionary (Store → Value)
  /-- Runs after every render. -/
  hook : Option Program
  scheduler : Scheduler
  store : Store
  cache : CompileCache
  /-- The node that shows the template now. -/
  root : NodeId
  /-- The error of the last scheduled render that failed, until it is taken. -/
  lastError : Option Error
  /-- Completed renders. -/
  renderCount : Nat

namespace Component

/-- The fields of the store, and behind them the computed ones. -/
def resolver (c : Component) : Resolver := fun name =>
  (c.store.find? name).or ((c.computed.lookup name).map fun field => field c.store)

/-- The computed fields among names that were asked for, in order. -/
def computedAmong (c : Component) (asked : List String) : List Note :=
  (asked.filter fun name => !c.store.has name && Dictionary.has name c.computed).map .computed

/-- The value of a computed field. -/
def computed? (c : Component) (name : String) : Option Value :=
  (c.computed.lookup name).map fun field => field c.store

/-- The value of an expression without any loop around it, and the computed fields it read. -/
def value (c : Component) (e : Expression) : Except Error Value × List Note :=
  ((e.eval .empty c.resolver).mapError .resolution, c.computedAmong (e.asked .empty c.resolver))

/-- The value of a source, compiled through the cache of the component. -/
def evaluate (c : Component) (source : String) : Except Error Value × List Note × Component :=
  match (Compile.expression source).run.run c.cache with
  | (.error e, cache) => (.error (.compile e), [], { c with cache })
  | (.ok e, cache) =>
    let (result, notes) := c.value e
    (result, notes, { c with cache })

/-- Asks for a render: whether a timer is to be armed for it, and the component after it. -/
def requestRender (c : Component) : Bool × Component :=
  let (arms, scheduler) := c.scheduler.request
  (arms, { c with scheduler })

/-- A write to a field: whether the value changed, whether a timer is to be armed for a render, and
the component after it. -/
def write (c : Component) (field : String) (value : Value) : Except Error Bool × Bool × Component :=
  match c.store.write? field value with
  | none => (.error (.resolution ⟨.field, field⟩), false, c)
  | some (.unchanged, _) => (.ok false, false, c)
  | some (.changed false, store) => (.ok true, false, { c with store })
  | some (.changed true, store) =>
    let (arms, c) := { c with store }.requestRender
    (.ok true, arms, c)

end Component

/-- Where a component is to be mounted. -/
inductive Mount where
  | selector (text : String)
  | node (id : NodeId)
  deriving DecidableEq, Repr

namespace Mount

/-- The node to mount at: it must lie under the body, because every render replaces it there. -/
def resolve {L : Type} (m : Mount) (d : Document L) : Except MountError NodeId := do
  let n ← match m with
    | selector text =>
      match d.query? text with
      | some n => pure n
      | none => throw (.unresolved text)
    | node n => if d.contains n then pure n else throw (.stale n)
  if n ≠ d.body ∧ d.isAttached n then pure n else throw (.unparented n)

end Mount

/-- What a component is to be. -/
structure Blueprint where
  mount : Mount
  name : Option String
  /-- Without a template, the markup of the mount node is used. -/
  template : Option String
  data : Value
  interval : Nat
  methods : Dictionary (List Value → Program)
  computed : Dictionary (Store → Value)
  hook : Option Program

namespace Blueprint

/-- The name of a component that is given none. -/
def unnamed : String := "unnamed"

/-- Whether an action names a field of the store or a method. -/
def check (b : Blueprint) (store : Store) : Action Expression Expression → Except Error Unit
  | .assign target _ =>
    if store.has target then pure () else throw (.resolution ⟨.field, target⟩)
  | .invoke method _ =>
    if Dictionary.has method b.methods then pure () else throw (.resolution ⟨.method, method⟩)

/-- The component before its first render, mounted at the node it is to replace. -/
def prepare {L : Type} (b : Blueprint) (d : Document L) : Except Error Component := do
  let mount ← (b.mount.resolve d).mapError .mount
  let store ← match Store.ofValue? b.data with
    | some store => pure store
    | none => throw (.structural (.dataNotMapping b.data.kindName))
  let (template, cache) := Template.compile (b.template.getD (d.outerHtml mount)) .empty
  let template ← template
  template.actions.forM (b.check store)
  pure
    { name := b.name.getD unnamed
      template
      methods := b.methods
      computed := b.computed
      hook := b.hook
      scheduler := .every b.interval
      store
      cache
      root := mount
      lastError := none
      renderCount := 0 }

end Blueprint

end ReactiveTemplate
