import ReactiveTemplate.Directive.Action
import ReactiveTemplate.Expression.Compile
import ReactiveTemplate.Template.Interpolation

/-!
# Templates

A template is markup whose directives have been compiled: conditions, iterations, class and style
mappings and event listeners stand apart from the plain attributes, and texts are cut into literals
and expressions.
-/

namespace ReactiveTemplate

/-- The expressions of a mapping literal under their keys, in order. -/
abbrev Mapping := List (String × Expression)

/-- The variables of an iteration and what it runs over. -/
structure Iteration where
  item : String
  index : Option String
  source : Expression

/-- The actions of a listener for an event. -/
structure EventBinding where
  event : String
  actions : List (Action Expression Expression)

/-- The directives of an element. -/
structure Directives where
  condition : Option Expression := none
  iteration : Option Iteration := none
  classes : Option Mapping := none
  styles : Option Mapping := none
  events : List EventBinding := []

/-- An element without its children. -/
structure ElementHead where
  tag : String
  attributes : List (String × String)
  directives : Directives

/-- A node of a template. -/
inductive TemplateNode where
  | element (head : ElementHead) (children : List TemplateNode)
  | text (parts : List (Interpolated Expression))

/-- A template: its top-level elements. Text at the top level is not part of it. -/
structure Template where
  roots : List (ElementHead × List TemplateNode)

namespace TemplateNode

mutual

/-- The event actions of a node and of those below it, in the order of the markup. -/
def actions : TemplateNode → List (Action Expression Expression)
  | text _ => []
  | element head children => head.directives.events.flatMap EventBinding.actions ++ actionsList children

/-- The event actions of some nodes. -/
def actionsList : List TemplateNode → List (Action Expression Expression)
  | [] => []
  | node :: rest => actions node ++ actionsList rest

end

end TemplateNode

/-- All event actions of a template, in the order of the markup. -/
def Template.actions (t : Template) : List (Action Expression Expression) :=
  t.roots.flatMap fun (head, children) => (TemplateNode.element head children).actions

end ReactiveTemplate
