import ReactiveTemplate.Template.Cache
import ReactiveTemplate.Directive.Iteration
import ReactiveTemplate.Error
import ReactiveTemplate.Markup.Reader

/-!
# From markup to templates

Every directive of an element is compiled in the order of its attributes, and then its children.
Names that start with `v-bind:` are reserved; a name that starts with `@` and goes on names an event.
-/

namespace ReactiveTemplate

open Directive Text

namespace Compile

/-- The iteration of a header. -/
def iteration (source : String) : Compile Iteration := do
  let header ← expression.liftExcept (readIteration source)
  pure ⟨header.item, header.index, ← fragment source header.source⟩

/-- An argument with its expression compiled. -/
def argument (whole : String) : Argument Fragment → Compile (Argument Expression)
  | .event => pure .event
  | .given f => do pure (.given (← fragment whole f))

/-- An action with its expressions compiled. -/
def action (whole : String) : Action Fragment Fragment → Compile (Action Expression Expression)
  | .assign target value => do pure (.assign target (← fragment whole value))
  | .invoke method arguments => do pure (.invoke method (← arguments.mapM (argument whole)))

/-- The actions of a source. -/
def actions (source : String) : Compile (List (Action Expression Expression)) := do
  (← expression.liftExcept (readActions source)).mapM (action source)

/-- A part of a text with its expression compiled. -/
def part (whole : String) : Interpolated Fragment → Compile (Interpolated Expression)
  | .literal text => pure (.literal text)
  | .expression f => do pure (.expression (← fragment whole f))

/-- The parts of a text. -/
def parts (text : String) : Compile (List (Interpolated Expression)) :=
  (Interpolated.ofText text).mapM (part text)

/-- The start of names that bind something to an expression. -/
def bindingStart : List Char := "v-bind:".toList

/-- The event that an attribute name stands for. -/
def eventOf? (name : String) : Option String :=
  match name.toList with
  | '@' :: c :: rest => some (String.ofList (c :: rest))
  | _ => none

/-- The head of an element with one more attribute, which may be a directive. -/
def attributeInto (head : ElementHead) (name value : String) : Compile ElementHead := do
  let directives := head.directives
  if name = "v-if" then
    pure { head with directives := { directives with condition := some (← expression value) } }
  else if name = "v-for" then
    pure { head with directives := { directives with iteration := some (← iteration value) } }
  else if name = "v-bind:class" then
    pure { head with directives := { directives with classes := some (← mapping value) } }
  else if name = "v-bind:style" then
    pure { head with directives := { directives with styles := some (← mapping value) } }
  else if bindingStart.isPrefixOf name.toList then
    throw ⟨.unsupportedDirective name, name, .whole name⟩
  else
    match eventOf? name with
    | some event =>
      let binding : EventBinding := ⟨event, ← actions value⟩
      pure { head with directives := { directives with events := directives.events ++ [binding] } }
    | none => pure { head with attributes := head.attributes ++ [(name, value)] }

/-- The head of an element. -/
def head (tag : String) (attributes : List (String × String)) : Compile ElementHead :=
  attributes.foldlM (fun head (name, value) => attributeInto head name value) ⟨tag, [], {}⟩

mutual

/-- A node of markup as a node of a template. -/
def node : Markup → Compile TemplateNode
  | .text text => do pure (.text (← parts text))
  | .element tag attributes children => do
    let head ← head tag attributes
    pure (.element head (← nodeList children))

/-- Nodes of markup as nodes of a template. -/
def nodeList : List Markup → Compile (List TemplateNode)
  | [] => pure []
  | m :: ms => do
    let first ← node m
    pure (first :: (← nodeList ms))

end

/-- The elements among some nodes of markup. -/
def roots : List Markup → Compile (List (ElementHead × List TemplateNode))
  | [] => pure []
  | .text _ :: ms => roots ms
  | .element tag attributes children :: ms => do
    let head ← head tag attributes
    let children ← nodeList children
    pure ((head, children) :: (← roots ms))

end Compile

namespace Template

/-- The template of markup that has been read. -/
def ofMarkup (nodes : List Markup) : Compile Template := do
  pure ⟨← Compile.roots nodes⟩

/-- The template of a text, and the cache after it. -/
def compile (source : String) (cache : CompileCache) : Except Error Template × CompileCache :=
  match Markup.read source with
  | .error e => (.error (.markup e), cache)
  | .ok nodes =>
    match (ofMarkup nodes).run.run cache with
    | (.ok t, cache) => (.ok t, cache)
    | (.error e, cache) => (.error (.compile e), cache)

end Template

end ReactiveTemplate
