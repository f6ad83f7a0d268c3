import ReactiveTemplate.Document.Subtree
import ReactiveTemplate.Render.Renderer

/-!
# What a template means

A template means a list of trees, by recursion on its nodes and without any document: each element
means no tree, one tree or one tree for each round of its iteration. The first error in the order of
condition, iteration, classes, styles, arguments of events and children ends it. Names are looked up
in the scope and then by the resolver, and nothing else is read. The order and the bindings of the rounds of
an iteration are written out here; that the renderer opens the same frames is shown for them.
-/

namespace ReactiveTemplate

open Json

section Values

variable (resolver : Resolver) (scope : Scope)

/-- The value of an expression. -/
def Expression.valueIn (e : Expression) : Except Error Value :=
  (e.eval scope resolver).mapError .resolution

/-- The values of a mapping under its keys. -/
def Mapping.valuesIn : Mapping → Except Error (List (String × Value))
  | [] => .ok []
  | (name, e) :: rest => do
    let value ← e.valueIn resolver scope
    let more ← valuesIn rest
    pure ((name, value) :: more)

/-- The text of some parts. -/
def Interpolated.textIn : List (Interpolated Expression) → Except Error String
  | [] => .ok ""
  | .literal text :: rest => do
    let more ← textIn rest
    pure (text ++ more)
  | .expression e :: rest => do
    let value ← e.valueIn resolver scope
    let more ← textIn rest
    pure (value.display ++ more)

/-- An argument with its value. -/
def Argument.boundIn : Argument Expression → Except Error (Argument Value)
  | .event => .ok .event
  | .given e => do
    let value ← e.valueIn resolver scope
    pure (.given value)

/-- An action with the values of its arguments. -/
def Action.boundIn : Action Expression Expression → Except Error (Action Expression Value)
  | .assign target value => .ok (.assign target value)
  | .invoke method arguments => do
    let arguments ← arguments.mapM (Argument.boundIn resolver scope)
    pure (.invoke method arguments)

/-- The handler of an event. -/
def EventBinding.handlerIn (binding : EventBinding) : Except Error Handler := do
  let actions ← binding.actions.mapM (Action.boundIn resolver scope)
  pure ⟨binding.event, actions⟩

/-- Whether an element is there: its condition holds or it has none. -/
def Directives.shownIn (directives : Directives) : Except Error Bool :=
  match directives.condition with
  | some condition => do
    let value ← condition.valueIn resolver scope
    pure value.truthy
  | none => .ok true

/-- The scope of one round: the item and the index, if it has a name, are bound within all other names. The index
hides an item of the same name. -/
def Iteration.roundIn (i : Iteration) (item index : Value) : Scope :=
  match i.index with
  | none => ⟨[(i.item, item)] :: scope.frames⟩
  | some name =>
    if name = i.item then ⟨[(name, index)] :: scope.frames⟩ else ⟨[(i.item, item), (name, index)] :: scope.frames⟩

/-- The rounds over the items of a sequence in order, of which the first has the place `n`. -/
def Iteration.roundsOver (i : Iteration) (n : Nat) : List Value → List Scope
  | [] => []
  | item :: rest => i.roundIn scope item (.ofNat n) :: i.roundsOver (n + 1) rest

/-- The rounds over the members of a mapping in order, each with its name for an index. -/
def Iteration.roundsThrough (i : Iteration) : List (String × Value) → List Scope
  | [] => []
  | (name, value) :: rest => i.roundIn scope value (.string name) :: i.roundsThrough rest

/-- The scopes of the rounds of an iteration. -/
def Iteration.scopesIn (i : Iteration) : Except Error (List Scope) := do
  match ← i.source.valueIn resolver scope with
  | .array items => pure (i.roundsOver scope 0 items)
  | .object members => pure (i.roundsThrough scope members)
  | other => throw (.structural (.notIterable (Text.trimmed i.source.source) other.kindName))

/-- The scopes of the copies of an element: its own if nothing is iterated, else one for each round. -/
def Directives.scopesIn (directives : Directives) : Except Error (List Scope) := do
  let shown ← directives.shownIn resolver scope
  match shown, directives.iteration with
  | false, _ => .ok []
  | true, none => .ok [scope]
  | true, some i => i.scopesIn resolver scope

end Values

namespace Iteration

variable (resolver : Resolver) (scope : Scope)

/-- A round opens a frame. -/
theorem roundIn_eq_push (i : Iteration) (item index : Value) :
    i.roundIn scope item index = scope.push (i.frame item index) := by
  rw [roundIn, frame, Dictionary.put]
  cases i.index with
  | none => rfl
  | some name =>
    dsimp only
    rw [Dictionary.put]
    by_cases hsame : name = i.item
    · rw [if_pos hsame, if_pos hsame.symm, hsame]
      rfl
    · rw [if_neg hsame, if_neg (Ne.symm hsame), Dictionary.put]
      rfl

/-- The rounds over the items of a sequence open a frame for each. -/
theorem roundsOver_eq_map (i : Iteration) (items : List Value) (n : Nat) :
    i.roundsOver scope n items =
      ((items.zipIdx n).map fun (item, n) => i.frame item (.ofNat n)).map scope.push := by
  induction items generalizing n with
  | nil => rfl
  | cons item rest ih => rw [roundsOver, ih, roundIn_eq_push, List.zipIdx_cons, List.map_cons, List.map_cons]

/-- The rounds over the members of a mapping open a frame for each. -/
theorem roundsThrough_eq_map (i : Iteration) (members : List (String × Value)) :
    i.roundsThrough scope members =
      (members.map fun (name, value) => i.frame value (.string name)).map scope.push := by
  induction members with
  | nil => rfl
  | cons member rest ih => rw [roundsThrough, ih, roundIn_eq_push, List.map_cons, List.map_cons]

/-- The frames that are opened are those of the rounds. -/
theorem scopesIn_eq (i : Iteration) :
    i.scopesIn resolver scope =
      (do
        let source ← i.source.valueIn resolver scope
        let frames ← i.frames source
        pure (frames.map scope.push)) := by
  rw [scopesIn]
  congr 1
  funext source
  cases source with
  | array items => exact congrArg Except.ok (i.roundsOver_eq_map scope items 0)
  | object members => exact congrArg Except.ok (i.roundsThrough_eq_map scope members)
  | _ => rfl

end Iteration

namespace ElementHead

/-- The value of the last attribute of a name. -/
def lastValue? (head : ElementHead) (name : String) : Option String :=
  head.attributes.reverse.lookup name

/-- The attributes of a copy: the classes and styles stand apart. -/
def plainAttributes (head : ElementHead) : Dictionary String :=
  Dictionary.ofList (head.attributes.filter fun (name, _) => name ≠ "class" ∧ name ≠ "style")

/-- The classes of a copy: those that are written out, then the names that hold and are not there. -/
def classList (head : ElementHead) (classes : List (String × Value)) : List String :=
  (classes.filter (·.2.truthy)).foldl
    (fun names (name, _) => if name ∈ names then names else names ++ [name])
    (((head.lastValue? "class").map Text.words).getD [])

/-- The styles of a copy: those that are written out, changed by the mapping; null removes one. -/
def styleList (head : ElementHead) (styles : List (String × Value)) : Dictionary String :=
  styles.foldl
    (fun found (property, value) =>
      match value with
      | .null => Dictionary.remove (Element.hyphenated property) found
      | value => Dictionary.put (Element.hyphenated property) value.display found)
    (((head.lastValue? "style").map Element.declarations).getD [])

/-- A copy of an element with the values of its mappings and the trees below it. -/
def tree (head : ElementHead) (classes styles : List (String × Value)) (children : List Snapshot) :
    Snapshot :=
  .element (Markup.lowercase head.tag) head.plainAttributes (head.classList classes)
    (head.styleList styles) (head.directives.events.map EventBinding.event) children

/-- The values of the class and style mappings; the arguments of events must have values too. -/
def valuesIn (resolver : Resolver) (head : ElementHead) (scope : Scope) :
    Except Error (List (String × Value) × List (String × Value)) := do
  let classes ← Mapping.valuesIn resolver scope (head.directives.classes.getD [])
  let styles ← Mapping.valuesIn resolver scope (head.directives.styles.getD [])
  let _ ← head.directives.events.mapM (EventBinding.handlerIn resolver scope)
  pure (classes, styles)

/-- One copy of an element; `inner` gives the trees below it. -/
def treeIn (resolver : Resolver) (head : ElementHead) (inner : Scope → Except Error (List Snapshot))
    (scope : Scope) : Except Error Snapshot := do
  let (classes, styles) ← head.valuesIn resolver scope
  let children ← inner scope
  pure (head.tree classes styles children)

/-- The copies of an element. -/
def treesIn (resolver : Resolver) (scope : Scope) (head : ElementHead)
    (inner : Scope → Except Error (List Snapshot)) : Except Error (List Snapshot) := do
  let scopes ← head.directives.scopesIn resolver scope
  scopes.mapM (head.treeIn resolver inner)

end ElementHead

namespace TemplateNode

mutual

/-- The trees of a node in a scope. -/
def treesIn (resolver : Resolver) (scope : Scope) : TemplateNode → Except Error (List Snapshot)
  | .text parts => do
    let text ← Interpolated.textIn resolver scope parts
    pure [.text text]
  | .element head nodes => head.treesIn resolver scope fun scope => treesInList resolver scope nodes

/-- The trees of some nodes in a scope. -/
def treesInList (resolver : Resolver) (scope : Scope) : List TemplateNode → Except Error (List Snapshot)
  | [] => .ok []
  | node :: rest => do
    let first ← treesIn resolver scope node
    let more ← treesInList resolver scope rest
    pure (first ++ more)

end

end TemplateNode

/-- The trees of all top-level elements. -/
def Template.trees (t : Template) (resolver : Resolver) : Except Error (List Snapshot) :=
  TemplateNode.treesInList resolver .empty (t.roots.map fun (head, nodes) => .element head nodes)

/-- The tree of a template, which must be exactly one. -/
def Template.tree (t : Template) (resolver : Resolver) : Except Error Snapshot := do
  match ← t.trees resolver with
  | [tree] => pure tree
  | trees => throw (.structural (.topLevelNodes trees.length))

end ReactiveTemplate
