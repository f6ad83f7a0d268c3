import ReactiveTemplate.Render.Basic

/-!
# Rendering

`Template.render` makes one node outside the tree from a template. Each element is taken in a fixed
order: condition, iteration, and for each copy the plain attributes, classes, styles, listeners and
children. When an error ends a render, every node it made is freed again.
-/

namespace ReactiveTemplate

open Json

variable {L : Type}

/-- The bindings of one round of an iteration; an index of the same name hides the item. -/
def Iteration.frame (i : Iteration) (item index : Value) : Frame :=
  let frame := Dictionary.put i.item item []
  match i.index with
  | some name => Dictionary.put name index frame
  | none => frame

/-- The frames of an iteration over a value: items with their places, or members with their names. -/
def Iteration.frames (i : Iteration) : Value → Except Error (List Frame)
  | .array items => .ok (items.zipIdx.map fun (item, n) => i.frame item (.ofNat n))
  | .object members => .ok (members.map fun (name, value) => i.frame value (.string name))
  | other => .error (.structural (.notIterable (Text.trimmed i.source.source) other.kindName))

namespace Render

/-- The copies of an element that were made, and the error that ended the making. -/
structure Copies where
  made : List NodeId
  failure : Option Error

/-- Sets the plain attributes of an element, and its classes, styles and listeners. -/
def dress (s : Surroundings L) (scope : Scope) (n : NodeId) (head : ElementHead) : Render L Unit := do
  head.attributes.forM fun (name, value) => edit (·.setAttribute n name value)
  let directives := head.directives
  (← evaluateMapping s scope (directives.classes.getD [])).forM fun (name, value) =>
    if value.truthy then edit (·.addClass n name) else pure ()
  (← evaluateMapping s scope (directives.styles.getD [])).forM fun (property, value) =>
    edit (·.setStyle n property (match value with
      | .null => none
      | value => some value.display))
  directives.events.forM fun binding => do
    let handler : Handler := ⟨binding.event, ← binding.actions.mapM (bindAction s scope)⟩
    modify fun state => { state with handlers := state.handlers ++ [handler] }
    edit (·.addListener n binding.event (s.listener handler))

/-- The scopes of the copies of an element: none if its condition fails, one without an iteration,
otherwise one a round. -/
def scopes (s : Surroundings L) (scope : Scope) (directives : Directives) : Render L (List Scope) := do
  let shown ← match directives.condition with
    | some condition => do pure (← evaluate s scope condition).truthy
    | none => pure true
  if !shown then pure []
  else
    match directives.iteration with
    | none => pure [scope]
    | some iteration =>
      match iteration.frames (← evaluate s scope iteration.source) with
      | .ok frames => pure (frames.map scope.push)
      | .error e => throw e

/-- One copy of an element; `fill` adds its children. A copy that fails is freed. -/
def copy (s : Surroundings L) (head : ElementHead) (fill : Scope → NodeId → Render L Unit)
    (scope : Scope) : Render L NodeId := do
  let n ← make (·.createElement head.tag)
  tryCatch (do dress s scope n head; fill scope n) fun e => do
    discard [n]
    throw e
  pure n

/-- A copy of an element for each scope, up to the first that fails. -/
def copyEach (s : Surroundings L) (head : ElementHead) (fill : Scope → NodeId → Render L Unit) :
    List Scope → StateM (RenderState L) Copies
  | [] => pure ⟨[], none⟩
  | scope :: rest => do
    match ← (copy s head fill scope).run with
    | .ok n =>
      let more ← copyEach s head fill rest
      pure ⟨n :: more.made, more.failure⟩
    | .error e => pure ⟨[], some e⟩

/-- All copies of an element. -/
def copies (s : Surroundings L) (scope : Scope) (head : ElementHead)
    (fill : Scope → NodeId → Render L Unit) : StateM (RenderState L) Copies := do
  match ← (scopes s scope head.directives).run with
  | .ok scopes => copyEach s head fill scopes
  | .error e => pure ⟨[], some e⟩

/-- Adds copies to an element, also those made before an error, and passes the error on. -/
def attach (parent : NodeId) (copies : Copies) : Render L Unit := do
  copies.made.forM fun n => edit (·.append parent n)
  match copies.failure with
  | some e => throw e
  | none => pure ()

mutual

/-- Adds a node of a template to an element. -/
def child (s : Surroundings L) (scope : Scope) (parent : NodeId) : TemplateNode → Render L Unit
  | .text parts => do
    let text ← interpolate s scope parts
    let n ← make (·.createText text)
    edit (·.append parent n)
  | .element head nodes => do
    let made ← copies s scope head fun scope n => children s scope n nodes
    attach parent made

/-- Adds nodes of a template to an element. -/
def children (s : Surroundings L) (scope : Scope) (parent : NodeId) : List TemplateNode → Render L Unit
  | [] => pure ()
  | node :: rest => do
    child s scope parent node
    children s scope parent rest

end

/-- The copies of all top-level elements, up to the first error. -/
def rootCopies (s : Surroundings L) :
    List (ElementHead × List TemplateNode) → StateM (RenderState L) Copies
  | [] => pure ⟨[], none⟩
  | (head, nodes) :: rest => do
    let first ← copies s .empty head fun scope n => children s scope n nodes
    match first.failure with
    | some e => pure ⟨first.made, some e⟩
    | none =>
      let more ← rootCopies s rest
      pure ⟨first.made ++ more.made, more.failure⟩

end Render

/-- Renders a template to exactly one node outside the tree. -/
def Template.render (t : Template) (s : Surroundings L) : Render L NodeId := do
  let made ← Render.rootCopies s t.roots
  match made.failure, made.made with
  | none, [root] => pure root
  | none, roots => do
    Render.discard roots
    throw (.structural (.topLevelNodes roots.length))
  | some e, roots => do
    Render.discard roots
    throw e

end ReactiveTemplate
