import ReactiveTemplate.Proofs.Dictionary
import ReactiveTemplate.Proofs.Fallible
import ReactiveTemplate.Proofs.Render.Semantics

/-!
# Names that a template reads

A template reads the names that stand free in its expressions: those in its conditions, sources,
mappings, texts and arguments of events that no iteration around them binds. What it means depends on
the resolver only through these names, and on their values only up to a likeness: a relation that the
operations of the template respect. The values of assignments are not read.
-/

namespace ReactiveTemplate

open Json

/-! ### Free names -/

/-- A tree mentions a name. -/
def Expression.Tree.Mentions (name : String) : Expression.Tree → Prop
  | constant _ => False
  | path p => p.root = name
  | not operand => operand.Mentions name
  | binary _ left right => left.Mentions name ∨ right.Mentions name

/-- An expression mentions a name. -/
def Expression.Mentions (e : Expression) (name : String) : Prop :=
  e.tree.Mentions name

/-- A mapping mentions a name. -/
def Mapping.Mentions (m : Mapping) (name : String) : Prop :=
  ∃ entry ∈ m, entry.2.Mentions name

/-- Some parts of a text mention a name. -/
def Interpolated.Mentions (parts : List (Interpolated Expression)) (name : String) : Prop :=
  ∃ e, .expression e ∈ parts ∧ e.Mentions name

/-- The arguments of an action mention a name. -/
def Action.Mentions (action : Action Expression Expression) (name : String) : Prop :=
  ∃ method arguments e, action = .invoke method arguments ∧ .given e ∈ arguments ∧ e.Mentions name

/-- The variables of an iteration. -/
def Iteration.names (i : Iteration) : List String :=
  i.item :: i.index.toList

namespace Directives

/-- What is evaluated before an iteration mentions a name. -/
def MentionsOutside (directives : Directives) (name : String) : Prop :=
  (∃ e ∈ directives.condition, e.Mentions name) ∨ ∃ i ∈ directives.iteration, i.source.Mentions name

/-- What is evaluated for each copy mentions a name. -/
def MentionsInside (directives : Directives) (name : String) : Prop :=
  (directives.classes.getD []).Mentions name ∨ (directives.styles.getD []).Mentions name ∨
    ∃ binding ∈ directives.events, ∃ action ∈ binding.actions, action.Mentions name

/-- The iteration of an element binds a name. -/
def Binds (directives : Directives) (name : String) : Prop :=
  ∃ i ∈ directives.iteration, name ∈ i.names

end Directives

namespace TemplateNode

mutual

/-- A name stands free in a node. -/
def Reads (name : String) : TemplateNode → Prop
  | .text parts => Interpolated.Mentions parts name
  | .element head nodes =>
    head.directives.MentionsOutside name ∨
      ¬ head.directives.Binds name ∧ (head.directives.MentionsInside name ∨ ReadsAny name nodes)

/-- A name stands free in one of some nodes. -/
def ReadsAny (name : String) : List TemplateNode → Prop
  | [] => False
  | node :: rest => Reads name node ∨ ReadsAny name rest

end

end TemplateNode

/-- A name stands free in a template. -/
def Template.Reads (t : Template) (name : String) : Prop :=
  TemplateNode.ReadsAny name (t.roots.map fun (head, nodes) => .element head nodes)

/-! ### Expressions that a template evaluates -/

/-- A tree has an operator in it. -/
def Expression.Tree.Applies (o : Expression.Operator) : Expression.Tree → Prop
  | constant _ | path _ => False
  | not operand => operand.Applies o
  | binary operator left right => operator = o ∨ left.Applies o ∨ right.Applies o

/-- The expressions of a text. -/
def Interpolated.expressions (parts : List (Interpolated Expression)) : List Expression :=
  parts.filterMap fun
    | .expression e => some e
    | .literal _ => none

/-- The arguments of an action. -/
def Action.expressions : Action Expression Expression → List Expression
  | .assign _ _ => []
  | .invoke _ arguments => arguments.filterMap fun
    | .given e => some e
    | .event => none

/-- What is evaluated for an element. -/
def Directives.expressions (directives : Directives) : List Expression :=
  directives.condition.toList ++ directives.iteration.toList.map Iteration.source ++
    (directives.classes.getD []).map Prod.snd ++ (directives.styles.getD []).map Prod.snd ++
    directives.events.flatMap fun binding => binding.actions.flatMap Action.expressions

namespace TemplateNode

mutual

/-- What is evaluated for a node. -/
def expressions : TemplateNode → List Expression
  | .text parts => Interpolated.expressions parts
  | .element head nodes => head.directives.expressions ++ expressionsList nodes

/-- What is evaluated for some nodes. -/
def expressionsList : List TemplateNode → List Expression
  | [] => []
  | node :: rest => expressions node ++ expressionsList rest

end

end TemplateNode

/-- An operator is applied somewhere in a template. -/
def Template.Applies (t : Template) (o : Expression.Operator) : Prop :=
  ∃ e ∈ TemplateNode.expressionsList (t.roots.map fun (head, nodes) => .element head nodes),
    e.tree.Applies o

/-! ### Likenesses -/

/-- What a template can do with values does not tell those apart that are related, as long as it applies
no operators but those that are allowed. -/
structure Likeness (allowed : Expression.Operator → Prop) (R : Value → Value → Prop) : Prop where
  refl : ∀ v, R v v
  truthy : ∀ {a b}, R a b → a.truthy = b.truthy
  display : ∀ {a b}, R a b → a.display = b.display
  kindName : ∀ {a b}, R a b → a.kindName = b.kindName
  step : ∀ {a b} (step : Expression.Step), R a b → R (step.apply a) (step.apply b)
  operator : ∀ {o a b a' b'}, allowed o → R a a' → R b b' → R (o.apply a b) (o.apply a' b')
  array : ∀ {items b}, R (.array items) b → ∃ items', b = .array items' ∧ List.Forall₂ R items items'
  object : ∀ {members b}, R (.object members) b → ∃ members', b = .object members' ∧
    List.Forall₂ (fun m m' => m.1 = m'.1 ∧ R m.2 m'.2) members members'

/-- Equality is a likeness. -/
theorem likeness_eq : Likeness (fun _ => True) Eq where
  refl _ := rfl
  truthy h := h ▸ rfl
  display h := h ▸ rfl
  kindName h := h ▸ rfl
  step _ h := h ▸ rfl
  operator _ h h' := h ▸ h' ▸ rfl
  array h := ⟨_, h.symm, by simp⟩
  object h := ⟨_, h.symm, by simp [List.forall₂_same]⟩

/-! ### What a template means depends on the names it reads -/

section Likeness

variable {allowed : Expression.Operator → Prop} {R : Value → Value → Prop} {r r' : Resolver}
  {scope scope' : Scope}

/-- Two scopes with resolvers behind them give related values to some names. -/
def Scope.Agree (R : Value → Value → Prop) (r r' : Resolver) (names : String → Prop)
    (scope scope' : Scope) : Prop :=
  ∀ name, names name → Option.Rel R (scope.resolve r name) (scope'.resolve r' name)

/-- Two frames bind the same names, to related values. -/
def Frame.Agree (R : Value → Value → Prop) (frame frame' : Frame) : Prop :=
  ∀ name, Option.Rel R (frame.lookup name) (frame'.lookup name)

/-- A new innermost frame is asked first. -/
theorem Scope.resolve_push (frame : Frame) (scope : Scope) (r : Resolver) (name : String) :
    (scope.push frame).resolve r name = (frame.lookup name).or (scope.resolve r name) := by
  rw [resolve, find?, push, List.findSome?_cons, resolve, find?]
  cases frame.lookup name <;> rfl

/-- Agreement on more names than needed. -/
theorem Scope.Agree.mono {names names' : String → Prop} (h : scope.Agree R r r' names scope')
    (himp : ∀ name, names' name → names name) : scope.Agree R r r' names' scope' :=
  fun name hname => h name (himp name hname)

/-- Inside new frames that agree, scopes agree also on the names that these bind. -/
theorem Scope.Agree.push {names : String → Prop} (h : scope.Agree R r r' names scope') {frame frame' : Frame}
    (hframe : frame.Agree R frame') :
    (scope.push frame).Agree R r r' (fun name => (frame.lookup name).isSome ∨ names name)
      (scope'.push frame') := by
  intro name hname
  rw [resolve_push, resolve_push]
  have hbound := hframe name
  generalize frame.lookup name = bound, frame'.lookup name = bound' at hbound hname ⊢
  cases hbound with
  | some hvalue => exact .some hvalue
  | none => exact h name (hname.resolve_left (by simp))

/-- Some expressions apply no operators but those that are allowed. -/
def Permitted (allowed : Expression.Operator → Prop) (expressions : List Expression) : Prop :=
  ∀ e ∈ expressions, ∀ o, e.tree.Applies o → allowed o

/-- Fewer expressions. -/
theorem Permitted.mono {some all : List Expression} (h : Permitted allowed all) (hsub : ∀ e ∈ some, e ∈ all) :
    Permitted allowed some :=
  fun e he => h e (hsub e he)

/-- Permission for an expression. -/
theorem Permitted.of_mem {expressions : List Expression} (h : Permitted allowed expressions) {e : Expression}
    (he : e ∈ expressions) : Permitted allowed [e] :=
  h.mono (by simpa using he)

/-! ### Values -/

section Values

variable (hR : Likeness allowed R)

include hR

/-- The value of a path. -/
theorem Expression.Path.eval_agrees {p : Expression.Path}
    (h : Option.Rel R (scope.resolve r p.root) (scope'.resolve r' p.root)) :
    SameOutcome R (p.eval scope r) (p.eval scope' r') := by
  rw [eval, eval]
  generalize scope.resolve r p.root = found, scope'.resolve r' p.root = found' at h
  cases h with
  | none => exact .error _
  | @some value value' hvalue =>
    refine .ok ?_
    induction p.steps generalizing value value' with
    | nil => exact hvalue
    | cons step rest ih => exact ih (hR.step step hvalue)

/-- The value of a tree. -/
theorem Expression.Tree.eval_agrees {tree : Expression.Tree} (hops : ∀ o, tree.Applies o → allowed o)
    (h : scope.Agree R r r' (tree.Mentions ·) scope') :
    SameOutcome R (tree.eval scope r) (tree.eval scope' r') := by
  induction tree with
  | constant value => exact .ok (hR.refl value)
  | path p => exact Path.eval_agrees hR (h p.root rfl)
  | not operand ih =>
    rw [eval, eval]
    refine (ih hops h).bind fun value value' hvalue => ?_
    rw [hR.truthy hvalue]
    exact .ok (hR.refl _)
  | binary operator left right ihleft ihright =>
    rw [eval, eval]
    refine (ihleft (fun o ho => hops o (Or.inr (Or.inl ho))) (h.mono fun _ => Or.inl)).bind
      fun a a' ha => ?_
    have hdecides : decides operator a' = decides operator a := by
      cases operator <;> simp [decides, hR.truthy ha]
    rw [hdecides]
    split
    · exact .ok ha
    · refine (ihright (fun o ho => hops o (Or.inr (Or.inr ho))) (h.mono fun _ => Or.inr)).bind
        fun b b' hb => .ok ?_
      exact hR.operator (hops operator (Or.inl rfl)) ha hb

/-- The value of an expression. -/
theorem Expression.valueIn_agrees {e : Expression} (hops : Permitted allowed [e])
    (h : scope.Agree R r r' e.Mentions scope') :
    SameOutcome R (e.valueIn r scope) (e.valueIn r' scope') := by
  have hvalue := Tree.eval_agrees hR (hops e List.mem_cons_self) h
  rw [valueIn, valueIn, eval, eval]
  generalize e.tree.eval scope r = out, e.tree.eval scope' r' = out' at hvalue ⊢
  cases hvalue with
  | ok hvalue => exact .ok hvalue
  | error e => exact .error _

/-- The values of a mapping. -/
theorem Mapping.valuesIn_agrees {m : Mapping} (hops : Permitted allowed (m.map Prod.snd))
    (h : scope.Agree R r r' m.Mentions scope') :
    SameOutcome (List.Forall₂ fun entry entry' => entry.1 = entry'.1 ∧ R entry.2 entry'.2)
      (m.valuesIn r scope) (m.valuesIn r' scope') := by
  induction m with
  | nil => exact .ok .nil
  | cons entry rest ih =>
    obtain ⟨name, e⟩ := entry
    rw [valuesIn, valuesIn]
    refine (Expression.valueIn_agrees hR (hops.of_mem (by simp))
      (h.mono fun _ he => ⟨(name, e), by simp, he⟩)).bind fun value value' hvalue => ?_
    refine (ih (hops.mono fun e he => List.mem_cons_of_mem _ he)
      (h.mono fun _ ⟨entry, hmem, he⟩ => ⟨entry, List.mem_cons_of_mem _ hmem, he⟩)).bind
      fun more more' hmore => .ok (.cons ⟨rfl, hvalue⟩ hmore)

/-- The text of some parts. -/
theorem Interpolated.textIn_agrees {parts : List (Interpolated Expression)}
    (hops : Permitted allowed (Interpolated.expressions parts))
    (h : scope.Agree R r r' (Interpolated.Mentions parts) scope') :
    SameOutcome Eq (Interpolated.textIn r scope parts) (Interpolated.textIn r' scope' parts) := by
  induction parts with
  | nil => exact .ok rfl
  | cons part rest ih =>
    have hrest := ih (hops.mono fun e he => by
      cases part <;> simp_all [expressions])
      (h.mono fun _ ⟨e, hmem, he⟩ => ⟨e, List.mem_cons_of_mem _ hmem, he⟩)
    cases part with
    | literal text =>
      rw [textIn, textIn]
      exact hrest.bind fun more more' hmore => .ok (by rw [hmore])
    | expression e =>
      rw [textIn, textIn]
      refine (Expression.valueIn_agrees hR (hops.of_mem (by simp [expressions]))
        (h.mono fun _ he => ⟨e, by simp, he⟩)).bind fun value value' hvalue => ?_
      exact hrest.bind fun more more' hmore => .ok (by rw [hmore, hR.display hvalue])

/-- The values of the arguments of an action: only whether they have some counts. -/
theorem Action.boundIn_agrees {action : Action Expression Expression} (hops : Permitted allowed action.expressions)
    (h : scope.Agree R r r' action.Mentions scope') :
    SameOutcome (fun _ _ => True) (action.boundIn r scope) (action.boundIn r' scope') := by
  cases action with
  | assign target value => exact .ok trivial
  | invoke method arguments =>
    rw [boundIn, boundIn]
    have harguments : SameOutcome (List.Forall₂ fun _ _ => True)
        (arguments.mapM (Argument.boundIn r scope)) (arguments.mapM (Argument.boundIn r' scope')) := by
      refine SameOutcome.mapM (List.forall₂_same.mpr fun argument hmem => ?_)
      cases argument with
      | event => exact .ok trivial
      | given e =>
        rw [Argument.boundIn, Argument.boundIn]
        exact (Expression.valueIn_agrees hR
          (hops.of_mem (List.mem_filterMap.mpr ⟨.given e, hmem, rfl⟩))
          (h.mono fun _ he => ⟨method, arguments, e, rfl, hmem, he⟩)).bind fun _ _ _ => .ok trivial
    exact harguments.bind fun _ _ _ => .ok trivial

/-- The values of the mappings of an element. -/
theorem ElementHead.valuesIn_agrees {head : ElementHead} (hops : Permitted allowed head.directives.expressions)
    (h : scope.Agree R r r' head.directives.MentionsInside scope') :
    SameOutcome
      (fun values values' =>
        List.Forall₂ (fun entry entry' => entry.1 = entry'.1 ∧ R entry.2 entry'.2) values.1 values'.1 ∧
        List.Forall₂ (fun entry entry' => entry.1 = entry'.1 ∧ R entry.2 entry'.2) values.2 values'.2)
      (head.valuesIn r scope) (head.valuesIn r' scope') := by
  have hclasses := Mapping.valuesIn_agrees hR
    (hops.mono fun e he => by simp only [Directives.expressions, List.mem_append]; tauto)
    (h.mono fun _ => Or.inl)
  have hstyles := Mapping.valuesIn_agrees hR
    (hops.mono fun e he => by simp only [Directives.expressions, List.mem_append]; tauto)
    (h.mono fun _ he => Or.inr (Or.inl he))
  have hevents : SameOutcome (List.Forall₂ fun _ _ => True)
      (head.directives.events.mapM (EventBinding.handlerIn r scope))
      (head.directives.events.mapM (EventBinding.handlerIn r' scope')) := by
    refine SameOutcome.mapM (List.forall₂_same.mpr fun binding hbinding => ?_)
    rw [EventBinding.handlerIn, EventBinding.handlerIn]
    have hactions : SameOutcome (List.Forall₂ fun _ _ => True)
        (binding.actions.mapM (Action.boundIn r scope)) (binding.actions.mapM (Action.boundIn r' scope')) := by
      refine SameOutcome.mapM (List.forall₂_same.mpr fun action haction => ?_)
      refine Action.boundIn_agrees hR (hops.mono fun e he => ?_)
        (h.mono fun _ he => Or.inr (Or.inr ⟨binding, hbinding, action, haction, he⟩))
      apply List.mem_append_right
      exact List.mem_flatMap.mpr ⟨binding, hbinding, List.mem_flatMap.mpr ⟨action, haction, he⟩⟩
    exact hactions.bind fun _ _ _ => .ok trivial
  rw [valuesIn, valuesIn]
  exact hclasses.bind fun _ _ hclass => hstyles.bind fun _ _ hstyle =>
    hevents.bind fun _ _ _ => .ok ⟨hclass, hstyle⟩

/-- Related values are null together. -/
theorem Likeness.null_iff {a b : Value} (h : R a b) : a = .null ↔ b = .null := by
  have hnull (v : Value) : v = .null ↔ v.kindName = "null" := by
    cases v <;> simp [Value.kindName]
  rw [hnull, hnull, hR.kindName h]

/-- Related values of the mappings make the same element. -/
theorem ElementHead.tree_agrees {head : ElementHead} {classes classes' styles styles' : List (String × Value)}
    (hclasses : List.Forall₂ (fun entry entry' => entry.1 = entry'.1 ∧ R entry.2 entry'.2) classes classes')
    (hstyles : List.Forall₂ (fun entry entry' => entry.1 = entry'.1 ∧ R entry.2 entry'.2) styles styles')
    (children : List Snapshot) : head.tree classes styles children = head.tree classes' styles' children := by
  have hclass : head.classList classes = head.classList classes' := by
    rw [classList, classList]
    generalize ((head.lastValue? "class").map Text.words).getD [] = names
    induction hclasses generalizing names with
    | nil => rfl
    | @cons entry entry' rest rest' hentry _ ih =>
      obtain ⟨name, value⟩ := entry
      obtain ⟨name', value'⟩ := entry'
      obtain ⟨rfl, hvalue⟩ := hentry
      rw [List.filter_cons, List.filter_cons]
      dsimp only
      rw [hR.truthy hvalue]
      split
      · exact ih _
      · exact ih _
  have hstyle : head.styleList styles = head.styleList styles' := by
    rw [styleList, styleList]
    generalize ((head.lastValue? "style").map Element.declarations).getD [] = found
    induction hstyles generalizing found with
    | nil => rfl
    | @cons entry entry' rest rest' hentry _ ih =>
      obtain ⟨property, value⟩ := entry
      obtain ⟨property', value'⟩ := entry'
      obtain ⟨rfl, hvalue⟩ := hentry
      have hnull := hR.null_iff hvalue
      have hdisplay := hR.display hvalue
      dsimp only at hnull hdisplay
      rw [List.foldl_cons, List.foldl_cons]
      cases value with
      | null =>
        obtain rfl := hnull.mp rfl
        exact ih _
      | _ =>
        cases value' with
        | null => exact absurd (hnull.mpr rfl) (by simp)
        | _ =>
          dsimp only
          rw [hdisplay]
          exact ih _
  rw [tree, tree, hclass, hstyle]

omit hR in
/-- A frame of an iteration binds its variables and nothing else. -/
theorem Iteration.lookup_frame (i : Iteration) (item index : Value) (name : String) :
    (i.frame item index).lookup name =
      if i.index = some name then some index else if name = i.item then some item else none := by
  rw [Iteration.frame]
  cases i.index with
  | none => simp [Dictionary.lookup_put]
  | some other =>
    rw [Dictionary.lookup_put, Dictionary.lookup_put]
    simp [eq_comm]

omit hR in
/-- Related items have the same places. -/
theorem forall₂_zipIdx {items items' : List Value} (h : List.Forall₂ R items items') (n : Nat) :
    List.Forall₂ (fun entry entry' => R entry.1 entry'.1 ∧ entry.2 = entry'.2)
      (items.zipIdx n) (items'.zipIdx n) := by
  induction h generalizing n with
  | nil => exact .nil
  | cons hitem _ ih => exact .cons ⟨hitem, rfl⟩ (ih (n + 1))

/-- The frames of an iteration over related values. -/
theorem Iteration.frames_agree {i : Iteration} {source source' : Value} (h : R source source') :
    SameOutcome
      (List.Forall₂ fun frame frame' => frame.Agree R frame' ∧
        ∀ name ∈ i.names, (frame.lookup name).isSome)
      (i.frames source) (i.frames source') := by
  have hframe {item item' : Value} (index : Value) (hitem : R item item') :
      (i.frame item index).Agree R (i.frame item' index) ∧
        ∀ name ∈ i.names, ((i.frame item index).lookup name).isSome := by
    constructor
    · intro name
      rw [lookup_frame, lookup_frame]
      split
      · exact .some (hR.refl index)
      · split
        · exact .some hitem
        · exact .none
    · intro name hname
      rw [lookup_frame]
      rw [Iteration.names, List.mem_cons, Option.mem_toList] at hname
      rcases hname with rfl | hname
      · split <;> simp
      · simp [hname]
  have hkind := hR.kindName h
  cases source with
  | array items =>
    obtain ⟨items', rfl, hitems⟩ := hR.array h
    refine .ok (List.forall₂_map_left_iff.mpr (List.forall₂_map_right_iff.mpr ?_))
    refine (forall₂_zipIdx hitems 0).imp fun entry entry' hentry => ?_
    obtain ⟨item, n⟩ := entry
    obtain ⟨item', n'⟩ := entry'
    obtain ⟨hitem, rfl⟩ := hentry
    exact hframe _ hitem
  | object members =>
    obtain ⟨members', rfl, hmembers⟩ := hR.object h
    refine .ok (List.forall₂_map_left_iff.mpr (List.forall₂_map_right_iff.mpr ?_))
    refine hmembers.imp fun member member' hmember => ?_
    obtain ⟨name, value⟩ := member
    obtain ⟨name', value'⟩ := member'
    obtain ⟨rfl, hvalue⟩ := hmember
    exact hframe _ hvalue
  | _ => cases source' <;> first | exact .error _ | simp [Value.kindName] at hkind

/-- The scopes of the copies of an element. In them, what the element binds need not be agreed on before. -/
theorem Directives.scopesIn_agree {directives : Directives} {names : String → Prop}
    (hops : Permitted allowed directives.expressions)
    (houtside : scope.Agree R r r' directives.MentionsOutside scope')
    (hinside : scope.Agree R r r' (fun name => ¬ directives.Binds name ∧ names name) scope') :
    SameOutcome (List.Forall₂ fun inner inner' => inner.Agree R r r' names inner')
      (directives.scopesIn r scope) (directives.scopesIn r' scope') := by
  have hshown : SameOutcome Eq (directives.shownIn r scope) (directives.shownIn r' scope') := by
    rw [shownIn, shownIn]
    cases hcondition : directives.condition with
    | none => exact .ok rfl
    | some condition =>
      refine (Expression.valueIn_agrees hR (hops.of_mem (by simp [expressions, hcondition]))
        (houtside.mono fun _ he => Or.inl ⟨condition, hcondition, he⟩)).bind fun value value' hvalue => ?_
      exact .ok (hR.truthy hvalue)
  rw [scopesIn, scopesIn]
  refine hshown.bind fun shown shown' hsame => ?_
  obtain rfl := hsame
  cases shown with
  | false => exact .ok .nil
  | true =>
    cases hiteration : directives.iteration with
    | none =>
      refine .ok (.cons (hinside.mono fun name hname => ⟨fun ⟨i, hi, _⟩ => ?_, hname⟩) .nil)
      rw [hiteration] at hi
      contradiction
    | some i =>
      dsimp only
      rw [Iteration.scopesIn_eq, Iteration.scopesIn_eq]
      refine (Expression.valueIn_agrees hR (hops.of_mem (by simp [expressions, hiteration]))
        (houtside.mono fun _ he => Or.inr ⟨i, hiteration, he⟩)).bind fun source source' hsource => ?_
      refine (Iteration.frames_agree hR hsource).bind fun frames frames' hframes => .ok ?_
      refine List.forall₂_map_left_iff.mpr (List.forall₂_map_right_iff.mpr ?_)
      refine hframes.imp fun frame frame' hframe => (hinside.push hframe.1).mono fun name hname => ?_
      by_cases hbound : name ∈ i.names
      · exact Or.inl (hframe.2 name hbound)
      · refine Or.inr ⟨fun ⟨j, hj, hmem⟩ => ?_, hname⟩
        rw [hiteration] at hj
        cases hj
        exact hbound hmem

/-- The trees of an element, if those of its copies agree. -/
theorem ElementHead.treesIn_agree {head : ElementHead} {inner inner' : Scope → Except Error (List Snapshot)}
    {names : String → Prop} (hops : Permitted allowed head.directives.expressions)
    (hinner : ∀ {scope scope' : Scope}, scope.Agree R r r' names scope' →
      SameOutcome Eq (inner scope) (inner' scope'))
    (h : scope.Agree R r r' (fun name => head.directives.MentionsOutside name ∨
      ¬ head.directives.Binds name ∧ (head.directives.MentionsInside name ∨ names name)) scope') :
    SameOutcome Eq (head.treesIn r scope inner) (head.treesIn r' scope' inner') := by
  rw [treesIn, treesIn]
  refine (Directives.scopesIn_agree hR hops (h.mono fun _ => Or.inl) (h.mono fun _ => Or.inr)).bind
    fun scopes scopes' hscopes => ?_
  have htrees : SameOutcome (List.Forall₂ Eq) (scopes.mapM (head.treeIn r inner))
      (scopes'.mapM (head.treeIn r' inner')) := by
    refine SameOutcome.mapM (hscopes.imp fun copy copy' hcopy => ?_)
    rw [treeIn, treeIn]
    refine (valuesIn_agrees hR hops (hcopy.mono fun _ => Or.inl)).bind fun values values' hvalues => ?_
    refine (hinner (hcopy.mono fun _ => Or.inr)).bind fun children children' hchildren => ?_
    rw [hchildren]
    exact .ok (tree_agrees hR hvalues.1 hvalues.2 children')
  rwa [List.forall₂_eq_eq_eq] at htrees

end Values

mutual

/-- The trees of a node. -/
theorem TemplateNode.treesIn_agree (hR : Likeness allowed R) {scope scope' : Scope} (node : TemplateNode)
    (hops : Permitted allowed node.expressions)
    (h : scope.Agree R r r' (TemplateNode.Reads · node) scope') :
    SameOutcome Eq (node.treesIn r scope) (node.treesIn r' scope') := by
  cases node with
  | text parts =>
    rw [treesIn, treesIn]
    exact (Interpolated.textIn_agrees hR hops h).bind fun text text' htext => .ok (by rw [htext])
  | element head nodes =>
    rw [treesIn, treesIn]
    exact ElementHead.treesIn_agree hR (hops.mono fun e he => List.mem_append_left _ he)
      (fun hscope => treesInList_agree hR nodes (hops.mono fun e he => List.mem_append_right _ he) hscope) h

/-- The trees of some nodes. -/
theorem TemplateNode.treesInList_agree (hR : Likeness allowed R) {scope scope' : Scope} (nodes : List TemplateNode)
    (hops : Permitted allowed (TemplateNode.expressionsList nodes))
    (h : scope.Agree R r r' (TemplateNode.ReadsAny · nodes) scope') :
    SameOutcome Eq (treesInList r scope nodes) (treesInList r' scope' nodes) := by
  cases nodes with
  | nil => exact .ok rfl
  | cons node rest =>
    rw [treesInList, treesInList]
    refine (treesIn_agree hR node (hops.mono fun e he => List.mem_append_left _ he)
      (h.mono fun _ => Or.inl)).bind fun first first' hfirst => ?_
    refine (treesInList_agree hR rest (hops.mono fun e he => List.mem_append_right _ he)
      (h.mono fun _ => Or.inr)).bind fun more more' hmore => ?_
    rw [hfirst, hmore]
    exact .ok rfl

end

/-- A template means the same for resolvers that give related values to the names that it reads, if it
applies no operators that tell related values apart. -/
theorem Template.tree_agrees (hR : Likeness allowed R) {t : Template} (hops : ∀ o, t.Applies o → allowed o)
    (h : ∀ name, t.Reads name → Option.Rel R (r name) (r' name)) : t.tree r = t.tree r' := by
  have hagree : Scope.empty.Agree R r r' t.Reads Scope.empty := fun name hname => by
    simpa [Scope.resolve, Scope.find?, Scope.empty] using h name hname
  have htrees : t.trees r = t.trees r' :=
    (TemplateNode.treesInList_agree hR _ (fun e he o ho => hops o ⟨e, he, ho⟩) hagree).eq
  rw [tree, tree, htrees]

/-- What a template means depends on the names that it reads. -/
theorem Template.tree_congr {t : Template} (h : ∀ name, t.Reads name → r name = r' name) :
    t.tree r = t.tree r' := by
  refine tree_agrees likeness_eq (fun _ _ => trivial) fun name hname => ?_
  rw [h name hname]
  cases r' name with
  | none => exact .none
  | some value => exact .some rfl

end Likeness

end ReactiveTemplate
