import ReactiveTemplate.Proofs.Document.Histories
import ReactiveTemplate.Proofs.Document.Reseating
import ReactiveTemplate.Proofs.Expression.Parsing
import ReactiveTemplate.Proofs.Render.Keeping
import ReactiveTemplate.Proofs.Render.Refinement

/-!
# What a render leaves behind

An error can end a render between any two of its steps, deep inside iterations, when some copies hang below
others and some stand alone. Whatever had been made by then is taken away again, and the document is as it was.
A render that succeeds adds one tree of new nodes and does nothing else.
-/

namespace ReactiveTemplate

open Json

variable {L : Type} {resolver : Resolver} {scope : Scope} {all : List Expression}

/-! ### Errors -/

/-- Why the evaluation of some expressions fails: one of them mentions a name that nothing has a value for, or the
value of one of them is to be iterated, but is neither a sequence nor a mapping. -/
inductive Faulty (resolver : Resolver) (all : List Expression) : Error → Prop
  | unresolved {e : Expression} {name : String} (he : e ∈ all) (hmentions : e.Mentions name)
      (hnone : resolver name = none) : Faulty resolver all (.resolution ⟨.variable, name⟩)
  | notIterable {e : Expression} {scope : Scope} {value : Value} (he : e ∈ all)
      (hvalue : e.valueIn resolver scope = .ok value) (harray : ∀ items, value ≠ .array items)
      (hobject : ∀ members, value ≠ .object members) :
      Faulty resolver all (.structural (.notIterable (Text.trimmed e.source) value.kindName))

/-- An expression fails for want of a name only. -/
theorem Expression.failsWith_valueIn {e : Expression} (he : e ∈ all) :
    FailsWith (Faulty resolver all) (e.valueIn resolver scope) := by
  intro error h
  obtain ⟨name, rfl, hmentions, hnone⟩ := unresolved_of_eval h
  exact .unresolved he hmentions (Option.or_eq_none_iff.mp hnone).2

/-- A mapping fails as its expressions do. -/
theorem Mapping.failsWith_valuesIn {m : Mapping} (hall : m.map Prod.snd ⊆ all) :
    FailsWith (Faulty resolver all) (m.valuesIn resolver scope) := by
  induction m with
  | nil => exact .ok _
  | cons entry rest ih =>
    obtain ⟨name, e⟩ := entry
    rw [List.map_cons, List.cons_subset] at hall
    rw [valuesIn]
    exact (Expression.failsWith_valueIn hall.1).bind fun value _ => (ih hall.2).bind fun more _ => .ok _

/-- A text fails as its expressions do. -/
theorem Interpolated.failsWith_textIn {parts : List (Interpolated Expression)} (hall : expressions parts ⊆ all) :
    FailsWith (Faulty resolver all) (textIn resolver scope parts) := by
  induction parts with
  | nil => exact .ok _
  | cons part rest ih =>
    cases part with
    | literal text =>
      rw [textIn]
      exact (ih hall).bind fun more _ => .ok _
    | expression e =>
      rw [textIn]
      have hsplit : e ∈ all ∧ expressions rest ⊆ all := List.cons_subset.mp hall
      exact (Expression.failsWith_valueIn hsplit.1).bind fun value _ => (ih hsplit.2).bind fun more _ => .ok _

/-- Binding an action fails as its arguments do. -/
theorem Action.failsWith_boundIn {action : Action Expression Expression} (hall : action.expressions ⊆ all) :
    FailsWith (Faulty resolver all) (action.boundIn resolver scope) := by
  cases action with
  | assign target value => exact .ok _
  | invoke method arguments =>
    rw [boundIn]
    refine FailsWith.bind (.mapM fun argument hargument => ?_) fun bound _ => .ok _
    cases argument with
    | event => exact .ok _
    | given e =>
      have he : e ∈ all := hall (List.mem_filterMap.mpr ⟨.given e, hargument, rfl⟩)
      exact (Expression.failsWith_valueIn he).bind fun value _ => .ok _

/-- Iterating fails as the source does, or when its value cannot be iterated. -/
theorem Iteration.failsWith_scopesIn {i : Iteration} (hall : i.source ∈ all) :
    FailsWith (Faulty resolver all) (i.scopesIn resolver scope) := by
  rw [scopesIn_eq]
  refine (Expression.failsWith_valueIn hall).bind fun value hvalue => FailsWith.bind (fun e h => ?_) fun _ _ => .ok _
  rw [frames.eq_def] at h
  split at h
  · cases h
  · cases h
  · next hobject harray =>
    cases h
    exact .notIterable hall hvalue hobject harray

/-- The condition and the iteration of an element fail as their expressions do. -/
theorem Directives.failsWith_scopesIn {directives : Directives} (hall : directives.expressions ⊆ all) :
    FailsWith (Faulty resolver all) (directives.scopesIn resolver scope) := by
  simp only [expressions, List.append_subset] at hall
  obtain ⟨⟨⟨⟨hcondition, hiteration⟩, _⟩, _⟩, _⟩ := hall
  rw [scopesIn]
  refine FailsWith.bind ?_ fun shown _ => ?_
  · rw [shownIn]
    cases hfound : directives.condition with
    | none => exact .ok _
    | some condition =>
      have hmem : condition ∈ all := hcondition (by rw [hfound]; exact List.mem_singleton_self condition)
      exact (Expression.failsWith_valueIn hmem).bind fun value _ => .ok _
  · cases shown with
    | false => exact .ok _
    | true =>
      cases hfound : directives.iteration with
      | none => exact .ok _
      | some i =>
        exact Iteration.failsWith_scopesIn (hiteration (by rw [hfound]; exact List.mem_singleton_self i.source))

/-- An element fails as its expressions and the trees below it do. -/
theorem ElementHead.failsWith_treesIn {head : ElementHead} (hall : head.directives.expressions ⊆ all)
    {inner : Scope → Except Error (List Snapshot)} (hinner : ∀ scope, FailsWith (Faulty resolver all) (inner scope)) :
    FailsWith (Faulty resolver all) (head.treesIn resolver scope inner) := by
  rw [treesIn]
  refine (Directives.failsWith_scopesIn hall).bind fun scopes _ => .mapM fun scope _ => ?_
  simp only [Directives.expressions, List.append_subset] at hall
  obtain ⟨⟨⟨_, hclasses⟩, hstyles⟩, hevents⟩ := hall
  rw [treeIn]
  refine FailsWith.bind ?_ fun values _ => (hinner scope).bind fun children _ => .ok _
  rw [valuesIn]
  refine (Mapping.failsWith_valuesIn hclasses).bind fun classes _ => ?_
  refine (Mapping.failsWith_valuesIn hstyles).bind fun styles _ => ?_
  refine FailsWith.bind (.mapM fun binding hbinding => ?_) fun _ _ => .ok _
  rw [EventBinding.handlerIn]
  refine FailsWith.bind (.mapM fun action haction => Action.failsWith_boundIn fun e he => ?_) fun _ _ => .ok _
  exact hevents (List.mem_flatMap.mpr ⟨binding, hbinding, List.mem_flatMap.mpr ⟨action, haction, he⟩⟩)

mutual

/-- A node of a template fails as its expressions do. -/
theorem TemplateNode.failsWith_treesIn (scope : Scope) {node : TemplateNode} (hall : node.expressions ⊆ all) :
    FailsWith (Faulty resolver all) (node.treesIn resolver scope) := by
  cases node with
  | text parts =>
    rw [treesIn]
    exact (Interpolated.failsWith_textIn hall).bind fun text _ => .ok _
  | element head nodes =>
    rw [expressions, List.append_subset] at hall
    rw [treesIn]
    exact ElementHead.failsWith_treesIn hall.1 fun scope => TemplateNode.failsWith_treesInList scope hall.2

/-- Nodes of a template fail as their expressions do. -/
theorem TemplateNode.failsWith_treesInList (scope : Scope) {nodes : List TemplateNode}
    (hall : expressionsList nodes ⊆ all) :
    FailsWith (Faulty resolver all) (treesInList resolver scope nodes) := by
  cases nodes with
  | nil => exact .ok _
  | cons node rest =>
    rw [expressionsList, List.append_subset] at hall
    rw [treesInList]
    exact (TemplateNode.failsWith_treesIn scope hall.1).bind fun first _ =>
      (TemplateNode.failsWith_treesInList scope hall.2).bind fun more _ => .ok _

end

/-- What is evaluated for a template. -/
def Template.expressions (t : Template) : List Expression :=
  TemplateNode.expressionsList (t.roots.map fun (head, nodes) => .element head nodes)

/-- Why a template means no tree: its expressions fail, or it means none or several. -/
inductive Template.Fails (t : Template) (resolver : Resolver) : Error → Prop
  | faulty {e : Error} (h : Faulty resolver t.expressions e) : t.Fails resolver e
  | topLevelNodes {trees : List Snapshot} (htrees : t.trees resolver = .ok trees) (hcount : trees.length ≠ 1) :
      t.Fails resolver (.structural (.topLevelNodes trees.length))

/-- There is no other reason. -/
theorem Template.failsWith_tree (t : Template) : FailsWith (t.Fails resolver) (t.tree resolver) := by
  rw [tree]
  refine FailsWith.bind (fun e h => ?_) fun trees htrees => ?_
  · exact .faulty (TemplateNode.failsWith_treesInList .empty (List.Subset.refl _) e h)
  · intro e h
    split at h
    · cases h
    · next hmany =>
      cases h
      refine .topLevelNodes htrees fun hcount => ?_
      obtain ⟨tree, rfl⟩ := List.length_eq_one_iff.mp hcount
      exact hmany tree rfl

/-! ### Documents -/

/-- In the second document a tree stands beside what there was in the first. Nothing else is different, and no id
of the tree was ever handed out before. -/
structure Document.Enlarged (d d' : Document L) (root : NodeId) : Prop where
  body : d'.body = d.body
  kept : ∀ {n node}, d.node? n = some node → d'.node? n = some node
  apart : d'.parent? root = none
  unissued : ∀ {n}, d'.contains n = true → d.contains n = false → ¬ d.Issued n
  tree : ∃ tree, d'.subtree? root = some tree ∧ root ∈ tree.ids ∧
    (∀ n, n ∈ tree.ids ↔ d'.contains n = true ∧ d.contains n = false) ∧
      d'.nodeCount = d.nodeCount + tree.ids.length

/-- The steps of a render go on with a history. -/
theorem Render.keptBySteps_precedes (s : Surroundings L) (actions : List (Action Expression Expression))
    (d : Document L) : Render.KeptBySteps s actions (d.Precedes ·) where
  createElement _ h := h.insert _
  createText _ h := h.insert _
  editElement n _ h := h.onElement n _
  addListener n _ _ _ h := h.onElement n _
  append parent child h := h.append parent child
  remove n h := h.remove n

/-- A tree beside a document makes it larger. -/
theorem Document.Grown.enlarged {d d' : Document L} {u : Subtree} (h : d.Grown d' [u]) (hd : d.WellFormed)
    (hbody : d'.body = d.body) (hprecedes : d.Precedes d') : d.Enlarged d' u.id := by
  have hmem (n : NodeId) : n ∈ Subtree.idsList [u] ↔ n ∈ u.ids := by
    rw [Subtree.idsList, Subtree.idsList, List.append_nil]
  have hholds := h.holds u (List.mem_singleton_self u)
  have hids (n : NodeId) : n ∈ u.ids ↔ d'.contains n = true ∧ d.contains n = false := by
    rw [contains_iff]
    constructor
    · intro hn
      refine ⟨hholds.live n hn, ?_⟩
      rw [contains, h.fresh n ((hmem n).mpr hn)]
      rfl
    · rintro ⟨⟨node, hnode⟩, hgone⟩
      rcases h.new hnode with hbefore | hn
      · rw [contains, hbefore] at hgone
        cases hgone
      · exact (hmem n).mp hn
  refine ⟨hbody, h.kept, h.root u (List.mem_singleton_self u), fun {n} hn hgone hissued => ?_,
    u, hholds.subtree? h.wellFormed.linked, u.id_mem_ids, hids, ?_⟩
  · obtain ⟨ids, hevolves⟩ := hprecedes
    rw [contains, Option.isSome_eq_false_iff, Option.isNone_iff_eq_none] at hgone
    have hnever := hevolves.node?_eq_none hd.freeList hissued hgone
    rw [contains, hnever] at hn
    cases hn
  · refine nodeCount_eq_add_length (hholds.nodup_ids h.wellFormed.linked) (fun n hn => ?_) hids
    obtain ⟨node, hnode⟩ := contains_iff.mp hn
    exact contains_iff.mpr ⟨node, h.kept hnode⟩

/-- In every document that operations can lead to, whatever names mean and whatever listeners are made of
handlers: a render that fails, at whatever depth and in whatever round, fails for a name without a value, a
source that cannot be iterated or a number of top-level nodes other than one, and leaves the document as it was.
A render that succeeds adds one tree of new nodes beside it and changes nothing else. -/
theorem Template.render_leaves (t : Template) (s : Surroundings L) (st : RenderState L)
    (h : st.document.Reachable) :
    (∀ e after, (t.render s).outcome st = (.error e, after) →
      t.Fails s.resolver e ∧ st.document.Unaltered after.document) ∧
    ∀ root after, (t.render s).outcome st = (.ok root, after) → st.document.Enlarged after.document root := by
  have hbody := t.render_keeps (Render.keptBySteps_body s _ st.document.body) st rfl
  have hprecedes := t.render_keeps (Render.keptBySteps_precedes s _ st.document) st (.refl _)
  have hagrees := t.render_agrees s h.wellFormed
  have hfails : FailsWith (t.Fails s.resolver) (t.tree s.resolver) := t.failsWith_tree
  generalize t.tree s.resolver = meant at hagrees hfails
  refine ⟨fun e after hout => ?_, fun root after hout => ?_⟩
  · rw [hout] at hbody hagrees
    cases hagrees with
    | error hgrown => exact ⟨hfails e rfl, h.wellFormed.unaltered hgrown.wellFormed hbody hgrown.node?_eq⟩
  · rw [hout] at hbody hprecedes hagrees
    cases hagrees with
    | ok hdone =>
      obtain ⟨u, rfl, hgrown, _⟩ := hdone
      exact hgrown.enlarged h.wellFormed hbody hprecedes

/-- A list of the items `rows`, each a list of its own. -/
def Template.grid : Template where
  roots := [(⟨"ul", [], {}⟩,
    [.element ⟨"li", [], { iteration := some ⟨"row", none, "rows", .path ⟨"rows", []⟩⟩ }⟩
      [.element ⟨"b", [], { iteration := some ⟨"x", none, "row", .path ⟨"row", []⟩⟩ }⟩
        [.text [.expression ⟨"x", .path ⟨"x", []⟩⟩]]]])]

/-- The second of two rows is no list. By the time this is found, five nodes have been made; they have left their
slots behind, but none of them is live. -/
theorem Template.render_leaves_grid :
    let s : Surroundings Unit := ⟨fun _ => some (.array [.array [.string "a"], .null]), fun _ => ()⟩
    let st : RenderState Unit := ⟨.empty, [], []⟩
    st.document.Reachable ∧
      ((grid.render s).outcome st).1 = .error (.structural (.notIterable "row" "null")) ∧
      ((grid.render s).outcome st).2.document.slots.size = 6 ∧
      grid.Fails s.resolver (.structural (.notIterable "row" "null")) ∧
      st.document.Unaltered ((grid.render s).outcome st).2.document := by
  intro s st
  have hfailed : ((grid.render s).outcome st).1 = .error (.structural (.notIterable "row" "null")) := by
    decide +kernel
  have hsize : ((grid.render s).outcome st).2.document.slots.size = 6 := by decide +kernel
  obtain ⟨hreason, hsame⟩ := (grid.render_leaves s st .empty).1 _ _ (eq_of_fst hfailed)
  exact ⟨.empty, hfailed, hsize, hreason, hsame⟩

end ReactiveTemplate
