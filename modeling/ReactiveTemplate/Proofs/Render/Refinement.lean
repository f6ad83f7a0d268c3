import ReactiveTemplate.Proofs.Document.Reachable
import ReactiveTemplate.Proofs.Render.Steps

/-!
# Rendering makes the tree that a template means

The copies of an element are grown beside the document. Each is dressed and filled from above: its
children are added to the uppermost node of the tree being built, and a copy that fails is taken away
again. By recursion on the template every node then adds the trees it means.
-/

namespace ReactiveTemplate

open Json

variable {L : Type} {α : Type}

/-- The structures of some trees are taken tree by tree. -/
theorem Subtree.snapshotList_eq_map (ts : List Subtree) : snapshotList ts = ts.map snapshot := by
  induction ts with
  | nil => rfl
  | cons t rest ih => rw [snapshotList, ih, List.map_cons]

namespace Render

/-- An operation on the document whose result is known. -/
theorem outcome_edit (operation : Document L → Document.Outcome L) (st : RenderState L)
    (h : (operation st.document).1 = .ok ()) :
    (edit operation).outcome st = (.ok (), { st with document := (operation st.document).2 }) := by
  have hop : operation st.document = (.ok (), (operation st.document).2) := Prod.ext h rfl
  have hget : (get : Render L (RenderState L)).outcome st = (.ok st, st) := rfl
  rw [edit, outcome_bind, hget]
  generalize (operation st.document).2 = document at hop
  dsimp only
  rw [hop]
  rfl

/-- An operation that makes a node. -/
theorem outcome_make (operation : Document L → NodeId × Document L) (st : RenderState L) :
    (make operation).outcome st =
      (.ok (operation st.document).1, { st with document := (operation st.document).2 }) :=
  rfl

section Building

variable {d : Document L} {st : RenderState L} {n : NodeId} {e : Element} {events : List String}
variable {children rest : List Subtree}

/-- Edits of the uppermost element, one for each item of a list. -/
theorem outcome_forM_edit {f : α → Render L Unit} {g : Element → α → Element}
    (hf : ∀ a e st, Document.Grown d st.document (.element n e events children :: rest) →
      ∃ after, (f a).outcome st = (.ok (), after) ∧
        Document.Grown d after.document (.element n (g e a) events children :: rest))
    (as : List α) (h : Document.Grown d st.document (.element n e events children :: rest)) :
    ∃ after, (as.forM f).outcome st = (.ok (), after) ∧
      Document.Grown d after.document (.element n (as.foldl g e) events children :: rest) := by
  induction as generalizing e st with
  | nil => exact ⟨st, rfl, h⟩
  | cons a more ih =>
    obtain ⟨after, hout, hgrown⟩ := hf a e st h
    obtain ⟨last, hmore, hlast⟩ := ih hgrown
    refine ⟨last, ?_, hlast⟩
    change (f a >>= fun _ => more.forM f).outcome st = _
    rw [outcome_bind, hout]
    exact hmore

/-- One edit of the uppermost element. -/
theorem outcome_editElement (f : Element → Element)
    (h : Document.Grown d st.document (.element n e events children :: rest)) :
    ∃ after, (edit (·.editElement n f)).outcome st = (.ok (), after) ∧
      Document.Grown d after.document (.element n (f e) events children :: rest) :=
  ⟨_, outcome_edit _ _ (h.editElement f).1, (h.editElement f).2⟩

/-- Setting attributes in order. -/
theorem outcome_setAttributes (attributes : List (String × String))
    (h : Document.Grown d st.document (.element n e events children :: rest)) :
    ∃ after,
      (attributes.forM fun (name, value) => edit (·.setAttribute n name value)).outcome st =
        (.ok (), after) ∧
      Document.Grown d after.document
        (.element n (e.setAttributes attributes) events children :: rest) :=
  outcome_forM_edit (fun (name, value) _ _ h => outcome_editElement (·.setAttribute name value) h)
    attributes h

/-- Adding the classes that hold. -/
theorem outcome_addClasses (classes : List (String × Value))
    (h : Document.Grown d st.document (.element n e events children :: rest)) :
    ∃ after,
      (classes.forM fun (name, value) =>
        if value.truthy then edit (·.addClass n name) else pure ()).outcome st = (.ok (), after) ∧
      Document.Grown d after.document (.element n (e.addClasses classes) events children :: rest) := by
  refine outcome_forM_edit (fun entry e st h => ?_) classes h
  obtain ⟨name, value⟩ := entry
  dsimp only
  cases value.truthy with
  | true => exact outcome_editElement (·.addClass name) h
  | false => exact ⟨st, rfl, h⟩

/-- Setting and removing styles in order. -/
theorem outcome_setStyles (styles : List (String × Value))
    (h : Document.Grown d st.document (.element n e events children :: rest)) :
    ∃ after,
      (styles.forM fun (property, value) =>
        edit fun d : Document L => d.setStyle n property (match value with
          | .null => none
          | value => some value.display)).outcome st = (.ok (), after) ∧
      Document.Grown d after.document (.element n (e.setStyles styles) events children :: rest) := by
  refine outcome_forM_edit (fun entry e st h => ?_) styles h
  obtain ⟨property, value⟩ := entry
  dsimp only
  cases value with
  | null => exact outcome_editElement (·.setStyle property none) h
  | _ => exact outcome_editElement (·.setStyle property (some _)) h

/-- Adds the listener of an event. -/
def listen (s : Surroundings L) (scope : Scope) (n : NodeId) (binding : EventBinding) : Render L Unit := do
  let handler : Handler := ⟨binding.event, ← binding.actions.mapM (bindAction s scope)⟩
  modify fun state => { state with handlers := state.handlers ++ [handler] }
  edit (·.addListener n binding.event (s.listener handler))

variable (s : Surroundings L) (scope : Scope)

/-- A listener is added to the uppermost element if the arguments of its actions have values. -/
theorem listen_agrees (binding : EventBinding)
    (h : Document.Grown d st.document (.element n e events children :: rest)) :
    Agrees
      (fun _ _ d' => Document.Grown d d' (.element n e (events ++ [binding.event]) children :: rest))
      (fun d' => d' = st.document)
      ((listen s scope n binding).outcome st) (binding.handlerIn s.resolver scope) := by
  have hbound := Quiet.mapM (quiet_bindAction s scope) binding.actions
  refine Agrees.quiet_bind hbound rfl fun actions after hdocument => ?_
  rw [← hdocument] at h
  obtain ⟨hok, hgrown⟩ := h.addListener binding.event (s.listener ⟨binding.event, actions⟩)
  rw [outcome_bind]
  have hadded := outcome_edit (·.addListener n binding.event (s.listener ⟨binding.event, actions⟩))
    { after with handlers := after.handlers ++ [⟨binding.event, actions⟩] } hok
  change Agrees _ _ ((edit _).outcome { after with handlers := _ }) _
  rw [hadded]
  exact .ok hgrown

/-- Listeners are added for the events of an element in order. -/
theorem forM_listen_agrees (bindings : List EventBinding)
    (h : Document.Grown d st.document (.element n e events children :: rest)) :
    Agrees
      (fun _ _ d' => Document.Grown d d'
        (.element n e (events ++ bindings.map EventBinding.event) children :: rest))
      (fun d' => ∃ events', Document.Grown d d' (.element n e events' children :: rest))
      ((bindings.forM (listen s scope n)).outcome st)
      (bindings.mapM (EventBinding.handlerIn s.resolver scope)) := by
  induction bindings generalizing events st with
  | nil =>
    rw [List.mapM_nil]
    exact .ok (by simpa using h)
  | cons binding more ih =>
    rw [List.mapM_cons]
    refine Agrees.bind ((listen_agrees s scope binding h).imp (fun _ _ _ h => h) fun d' hsame => ?_)
      fun _ handler after hafter => ?_
    · exact ⟨events, hsame ▸ h⟩
    have hmore := ih hafter
    simp only [List.append_assoc, List.singleton_append, ← List.map_cons] at hmore
    exact hmore.map_right

/-- Attributes, classes, styles and listeners of a new element are set as the element means them. -/
theorem dress_agrees (head : ElementHead)
    (h : Document.Grown d st.document
      (.element n (.ofTag (Markup.lowercase head.tag)) [] children :: rest)) :
    Agrees
      (fun _ values d' => Document.Grown d d' (.element n (head.dressed values.1 values.2)
        (head.directives.events.map EventBinding.event) children :: rest))
      (fun d' => ∃ e' events', Document.Grown d d' (.element n e' events' children :: rest))
      ((dress s scope n head).outcome st) (head.valuesIn s.resolver scope) := by
  rw [dress]
  apply Agrees.after_ok (outcome_setAttributes head.attributes h)
  intro st₁ h
  refine Agrees.quiet_bind (quiet_evaluateMapping s scope _) (by exact ⟨_, _, h⟩)
    fun classes st₂ hdocument => ?_
  rw [← hdocument] at h
  apply Agrees.after_ok (outcome_addClasses classes h)
  intro st₃ h
  refine Agrees.quiet_bind (quiet_evaluateMapping s scope _) (by exact ⟨_, _, h⟩)
    fun styles st₄ hdocument => ?_
  rw [← hdocument] at h
  apply Agrees.after_ok (outcome_setStyles styles h)
  intro st₅ h
  have hlisten := forM_listen_agrees s scope head.directives.events h
  exact (hlisten.imp (fun _ _ _ h => h) fun _ hfailed => ⟨_, hfailed⟩).map_right

end Building

/-! ### Copies -/

/-- A step that adds the trees of a computation below an element that is being built. -/
def Fills (n : NodeId) (m : Render L Unit) (r : Except Error (List Snapshot)) : Prop :=
  ∀ (d : Document L) (st e events children), d.Grown st.document [.element n e events children] →
    Agrees
      (fun _ trees d' => ∃ more, d.Grown d' [.element n e events (children ++ more)] ∧
        Subtree.snapshotList more = trees)
      (fun d' => ∃ t, t.id = n ∧ d.Grown d' [t])
      (m.outcome st) r

/-- What some copies mean, given their trees: the trees, or the error that ended the making. -/
def Copies.meaning (copies : Copies) (trees : List Subtree) : Except Error (List Snapshot) :=
  match copies.failure with
  | none => .ok (Subtree.snapshotList trees)
  | some e => .error e

/-- The copies that a program makes stand beside the document and mean the result of a computation. -/
def Makes (m : StateM (RenderState L) Copies) (r : Except Error (List Snapshot)) : Prop :=
  ∀ st, st.document.WellFormed → ∃ trees,
    (m.run st).1.made = trees.map Subtree.id ∧ st.document.Grown (m.run st).2.document trees ∧
      (m.run st).1.meaning trees = r

variable (s : Surroundings L)

/-- A copy is one tree beside the document; nothing is left of a copy that fails. -/
theorem copy_agrees (head : ElementHead) {fill : Scope → NodeId → Render L Unit}
    {inner : Scope → Except Error (List Snapshot)} (hfill : ∀ scope n, Fills n (fill scope n) (inner scope))
    (scope : Scope) {st : RenderState L} (h : st.document.WellFormed) :
    Agrees
      (fun n tree d' => ∃ t, t.id = n ∧ st.document.Grown d' [t] ∧ t.snapshot = tree)
      (fun d' => st.document.Grown d' [])
      ((copy s head fill scope).outcome st) (head.treeIn s.resolver inner scope) := by
  have hnew : st.document.Grown (st.document.createElement head.tag).2
      [.element (st.document.createElement head.tag).1 (.ofTag (Markup.lowercase head.tag)) [] []] :=
    Document.Grown.insert h (.element (.ofTag (Markup.lowercase head.tag)))
  generalize hn : (st.document.createElement head.tag).1 = n at hnew
  have hbuilt : Agrees
      (fun _ tree d' => ∃ t, t.id = n ∧ st.document.Grown d' [t] ∧ t.snapshot = tree)
      (fun d' => ∃ t, t.id = n ∧ st.document.Grown d' [t])
      ((do dress s scope n head; fill scope n : Render L Unit).outcome
        { st with document := (st.document.createElement head.tag).2 })
      (head.treeIn s.resolver inner scope) := by
    refine Agrees.bind ((dress_agrees s scope head hnew).imp (fun _ _ _ h => h) ?_) ?_
    · intro d' ⟨e', events', hgrown⟩
      exact ⟨_, rfl, hgrown⟩
    · intro _ (classes, styles) after hdressed
      refine ((hfill scope n _ _ _ _ _ hdressed).imp ?_ fun _ h => h).map_right
      intro _ children d' ⟨more, hgrown, hmore⟩
      exact ⟨_, rfl, hgrown, by rw [← hmore]; exact head.snapshot_dressed classes styles n more⟩
  have hcopy : (copy s head fill scope).outcome st =
      (tryCatch (do dress s scope n head; fill scope n) (fun e => do discard [n]; throw e) >>=
        fun _ => pure n : Render L NodeId).outcome
          { st with document := (st.document.createElement head.tag).2 } := by
    subst hn
    rfl
  rw [hcopy, outcome_bind, outcome_tryCatch]
  generalize Render.outcome _ _ = out at hbuilt
  generalize head.treeIn s.resolver inner scope = r at hbuilt
  cases hbuilt with
  | ok hdone => exact .ok hdone
  | error hfailed =>
    obtain ⟨t, hid, hgrown⟩ := hfailed
    exact .error (hid ▸ hgrown.remove.2)

/-- Copies are made scope by scope. -/
theorem copyEach_makes (head : ElementHead) {fill : Scope → NodeId → Render L Unit}
    {inner : Scope → Except Error (List Snapshot)} (hfill : ∀ scope n, Fills n (fill scope n) (inner scope))
    (scopes : List Scope) :
    Makes (copyEach s head fill scopes) (scopes.mapM (head.treeIn s.resolver inner)) := by
  induction scopes with
  | nil => exact fun st h => ⟨[], rfl, Document.Grown.refl h, rfl⟩
  | cons scope rest ih =>
    intro st h
    have hcopy := copy_agrees s head hfill scope h
    rw [copyEach, run_run_bind, List.mapM_cons]
    generalize (copy s head fill scope).outcome st = out at hcopy
    generalize head.treeIn s.resolver inner scope = r at hcopy
    cases hcopy with
    | error hgrown => exact ⟨[], rfl, hgrown, rfl⟩
    | ok hdone =>
      obtain ⟨t, hid, hgrown, htree⟩ := hdone
      obtain ⟨trees, hmade, hmore, hmeaning⟩ := ih _ hgrown.wellFormed
      refine ⟨t :: trees, ?_, hgrown.trans hmore, ?_⟩
      · rw [List.map_cons, ← hmade, hid]
        rfl
      · rw [← hmeaning, ← htree]
        change Copies.meaning ⟨_, ((copyEach s head fill rest).run _).1.failure⟩ (t :: trees) = _
        rw [Copies.meaning, Copies.meaning]
        cases ((copyEach s head fill rest).run _).1.failure <;> rfl

/-- All copies of an element are made, or those before an error. -/
theorem copies_makes (scope : Scope) (head : ElementHead) {fill : Scope → NodeId → Render L Unit}
    {inner : Scope → Except Error (List Snapshot)}
    (hfill : ∀ scope n, Fills n (fill scope n) (inner scope)) :
    Makes (copies s scope head fill) (head.treesIn s.resolver scope inner) := by
  intro st h
  obtain ⟨hresult, hdocument⟩ := quiet_scopes s scope head.directives st
  rw [copies, run_run_bind, hresult, ElementHead.treesIn]
  cases head.directives.scopesIn s.resolver scope with
  | error e => exact ⟨[], rfl, hdocument ▸ Document.Grown.refl (hdocument ▸ h), rfl⟩
  | ok scopes =>
    have hmakes := copyEach_makes s head hfill scopes _ (hdocument ▸ h)
    rw [hdocument] at hmakes
    exact hmakes

/-- Trees beside the document are put below the uppermost node of the first. -/
theorem outcome_appendAll {d : Document L} {st : RenderState L} {n : NodeId} {e : Element}
    {events : List String} {children : List Subtree} (trees : List Subtree)
    (h : d.Grown st.document (.element n e events children :: trees)) :
    ∃ after,
      ((trees.map Subtree.id).forM fun c => edit fun d : Document L => d.append n c).outcome st =
        (.ok (), after) ∧
      d.Grown after.document [.element n e events (children ++ trees)] := by
  induction trees generalizing st children with
  | nil => exact ⟨st, rfl, by rwa [List.append_nil]⟩
  | cons t rest ih =>
    obtain ⟨hok, hgrown⟩ := h.append
    obtain ⟨after, hrest, hafter⟩ := @ih { st with document := (st.document.append n t.id).2 } _ hgrown
    refine ⟨after, ?_, by rwa [List.append_assoc] at hafter⟩
    have hfirst := outcome_edit (fun d : Document L => d.append n t.id) st hok
    change (edit _ >>= fun _ => (rest.map Subtree.id).forM _).outcome st = _
    rw [outcome_bind, hfirst]
    exact hrest

/-- Attaching the copies that a program makes adds the trees they mean. -/
theorem attach_fills {m : StateM (RenderState L) Copies} {r : Except Error (List Snapshot)}
    (hm : Makes m r) (n : NodeId) :
    Fills n (do let made ← (liftM m : Render L Copies); attach n made) r := by
  intro d st e events children h
  obtain ⟨trees, hmade, hgrown, hmeaning⟩ := hm st h.wellFormed
  rw [outcome_lift_bind, attach, hmade]
  apply Agrees.after_ok (outcome_appendAll trees (h.trans hgrown))
  intro after hafter
  rw [← hmeaning, Copies.meaning]
  cases (m.run st).1.failure with
  | none => exact .ok ⟨trees, hafter, rfl⟩
  | some e => exact .error ⟨_, rfl, hafter⟩

/-- Two steps that add trees, one after the other. -/
theorem Fills.append {n : NodeId} {m m' : Render L Unit} {r r' : Except Error (List Snapshot)}
    (hm : Fills n m r) (hm' : Fills n m' r') :
    Fills n (do m; m') (do let first ← r; let more ← r'; pure (first ++ more)) := by
  intro d st e events children h
  apply Agrees.bind (hm _ _ _ _ _ h)
  intro _ first after ⟨trees, hgrown, hfirst⟩
  refine ((hm' _ _ _ _ _ hgrown).imp ?_ fun _ h => h).map_right
  intro _ _ d' ⟨more, hmore, hrest⟩
  refine ⟨trees ++ more, by rwa [List.append_assoc] at hmore, ?_⟩
  rw [← hfirst, ← hrest, Subtree.snapshotList_eq_map, List.map_append, ← Subtree.snapshotList_eq_map,
    ← Subtree.snapshotList_eq_map]

/-- A text is added with its expressions replaced by their values. -/
theorem text_fills (scope : Scope) (parts : List (Interpolated Expression)) (n : NodeId) :
    Fills n (child s scope n (.text parts)) (TemplateNode.treesIn s.resolver scope (.text parts)) := by
  intro d st e events children h
  rw [child, TemplateNode.treesIn]
  apply Agrees.quiet_bind (quiet_interpolate s scope parts) (by exact ⟨_, rfl, h⟩)
  intro text after hdocument
  rw [← hdocument] at h
  have hboth := h.trans (Document.Grown.insert h.wellFormed (.text text))
  obtain ⟨hok, hgrown⟩ := hboth.append
  rw [Subtree.id_leaf] at hok hgrown
  have hadded := outcome_edit (fun d : Document L => d.append n (after.document.createText text).1)
    { after with document := (after.document.createText text).2 } hok
  rw [outcome_bind, outcome_make]
  dsimp only
  rw [hadded]
  exact .ok ⟨_, hgrown, rfl⟩

mutual

/-- A node of a template adds the trees it means. -/
theorem child_fills (scope : Scope) (n : NodeId) (node : TemplateNode) :
    Fills n (child s scope n node) (node.treesIn s.resolver scope) := by
  cases node with
  | text parts => exact text_fills s scope parts n
  | element head nodes =>
    rw [child, TemplateNode.treesIn]
    exact attach_fills (copies_makes s scope head fun scope n => children_fills scope n nodes) n

/-- Nodes of a template add the trees they mean. -/
theorem children_fills (scope : Scope) (n : NodeId) (nodes : List TemplateNode) :
    Fills n (children s scope n nodes) (TemplateNode.treesInList s.resolver scope nodes) := by
  cases nodes with
  | nil =>
    intro d st e events children h
    rw [Render.children, TemplateNode.treesInList]
    exact .ok ⟨[], by rwa [List.append_nil], rfl⟩
  | cons node rest =>
    rw [Render.children, TemplateNode.treesInList]
    exact (child_fills scope n node).append (children_fills scope n rest)

end

/-- The copies of all top-level elements are made, or those before an error. -/
theorem rootCopies_makes (roots : List (ElementHead × List TemplateNode)) :
    Makes (rootCopies s roots) (TemplateNode.treesInList s.resolver .empty
      (roots.map fun (head, nodes) => .element head nodes)) := by
  induction roots with
  | nil =>
    rw [List.map_nil, TemplateNode.treesInList]
    exact fun st h => ⟨[], rfl, Document.Grown.refl h, rfl⟩
  | cons root rest ih =>
    obtain ⟨head, nodes⟩ := root
    intro st h
    obtain ⟨trees, hmade, hgrown, hmeaning⟩ :=
      copies_makes s .empty head (fun scope n => children_fills s scope n nodes) st h
    rw [rootCopies, List.map_cons, TemplateNode.treesInList, TemplateNode.treesIn, ← hmeaning,
      StateT.run_bind]
    generalize (copies s .empty head fun scope n => children s scope n nodes).run st = out at hmade hgrown ⊢
    obtain ⟨⟨made, failure⟩, after⟩ := out
    dsimp only at hmade hgrown ⊢
    subst hmade
    cases failure with
    | some e => exact ⟨trees, rfl, hgrown, rfl⟩
    | none =>
      obtain ⟨more, hmade, hmore, hrest⟩ := ih _ hgrown.wellFormed
      refine ⟨trees ++ more, ?_, hgrown.trans hmore, ?_⟩
      · rw [List.map_append, ← hmade]
        rfl
      · rw [← hrest]
        change Copies.meaning ⟨_, ((rootCopies s rest).run after).1.failure⟩ (trees ++ more) = _
        simp only [Copies.meaning, Subtree.snapshotList_eq_map, List.map_append]
        cases ((rootCopies s rest).run after).1.failure <;> rfl

end Render

/-- Rendering makes the one tree that a template means beside the document, and leaves the document as
it was if the template means no tree, several trees or an error. -/
theorem Template.render_agrees (t : Template) (s : Surroundings L) {st : RenderState L}
    (h : st.document.WellFormed) :
    Render.Agrees
      (fun root tree d' => ∃ u, u.id = root ∧ st.document.Grown d' [u] ∧ u.snapshot = tree)
      (fun d' => st.document.Grown d' [])
      ((t.render s).outcome st) (t.tree s.resolver) := by
  obtain ⟨trees, hmade, hgrown, hmeaning⟩ := Render.rootCopies_makes s t.roots st h
  rw [Template.render, Render.outcome_lift_bind, Template.tree, Template.trees, ← hmeaning]
  generalize (Render.rootCopies s t.roots).run st = out at hmade hgrown ⊢
  obtain ⟨⟨made, failure⟩, after⟩ := out
  dsimp only at hmade hgrown ⊢
  subst hmade
  cases failure with
  | some e => exact .error hgrown.discard
  | none =>
    cases trees with
    | nil => exact .error hgrown
    | cons u rest =>
      cases rest with
      | nil => exact .ok ⟨u, rfl, hgrown, rfl⟩
      | cons v rest =>
        have hlength : (Subtree.snapshotList (u :: v :: rest)).length =
            ((u :: v :: rest).map Subtree.id).length := by
          rw [Subtree.snapshotList_eq_map, List.length_map, List.length_map]
        change Render.Agrees _ _ _ (Except.error (.structural (.topLevelNodes
          (Subtree.snapshotList (u :: v :: rest)).length)))
        rw [hlength]
        exact .error hgrown.discard

/-- In every document that operations can lead to, whatever names mean and whatever listeners are made
of handlers: a template renders if and only if it means exactly one tree, and then to this tree. If it
means none or several, or an error, rendering ends with an error that says so. -/
theorem Template.render_refines (t : Template) (s : Surroundings L) (st : RenderState L)
    (h : st.document.Reachable) :
    match t.trees s.resolver with
    | .ok [tree] => ∃ root, ((t.render s).outcome st).1 = .ok root ∧
        ((t.render s).outcome st).2.document.snapshot? root = some tree
    | .ok trees => ((t.render s).outcome st).1 = .error (.structural (.topLevelNodes trees.length))
    | .error e => ((t.render s).outcome st).1 = .error e := by
  have hagrees := t.render_agrees s h.wellFormed
  generalize (t.render s).outcome st = out at hagrees ⊢
  rw [Template.tree] at hagrees
  cases htrees : t.trees s.resolver with
  | error e =>
    rw [htrees] at hagrees
    cases hagrees with
    | error _ => rfl
  | ok trees =>
    rw [htrees] at hagrees
    cases trees with
    | nil =>
      cases hagrees with
      | error _ => rfl
    | cons tree rest =>
      cases rest with
      | nil =>
        cases hagrees with
        | ok hdone =>
          obtain ⟨u, hid, hgrown, hu⟩ := hdone
          have hread := (hgrown.holds u (List.mem_singleton_self u)).subtree? hgrown.wellFormed.linked
          refine ⟨_, rfl, ?_⟩
          rw [Document.snapshot?, ← hid, hread, Option.map_some, hu]
      | cons other rest =>
        cases hagrees with
        | error _ => rfl

/-- A list that shows the items `xs` with their places, each in an entry of its own, if the `x` outside holds. -/
def Template.listing : Template where
  roots := [(⟨"UL", [("id", "list")], {}⟩,
    [.element ⟨"li", [("class", "row"), ("style", "color: red")],
      { condition := some ⟨"x", .path ⟨"x", []⟩⟩
        iteration := some ⟨"x", some "i", "xs", .path ⟨"xs", []⟩⟩
        classes := some [("odd", ⟨"i", .path ⟨"i", []⟩⟩), ("row", ⟨"x", .path ⟨"x", []⟩⟩)]
        styles := some [("color", ⟨"hue", .path ⟨"hue", []⟩⟩), ("fontWeight", ⟨"x", .path ⟨"x", []⟩⟩)]
        events := [⟨"click", [.invoke "pick" [.given ⟨"x", .path ⟨"x", []⟩⟩, .event]]⟩] }⟩
      [.text [.expression ⟨"i", .path ⟨"i", []⟩⟩, .literal ": ", .expression ⟨"x", .path ⟨"x", []⟩⟩]],
     .element ⟨"p", [], { condition := some ⟨"hue", .path ⟨"hue", []⟩⟩ }⟩ []])]

/-- What the names of the list mean outside of it. -/
def Template.listingNames : Resolver
  | "xs" => some (.array [.string "a", .string "b"])
  | "x" => some (.bool true)
  | "hue" => some .null
  | _ => none

/-- A list of two items, rendered beside the body of an empty document. The `x` outside is asked once for all items;
a place holds unless it is the first, the class that is there is not added again, the color is removed by null, and
the paragraph is not shown. -/
theorem Template.render_refines_listing :
    let s : Surroundings Unit := ⟨listingNames, fun _ => ()⟩
    (Document.empty : Document Unit).Reachable ∧
      ∃ root, ((listing.render s).outcome ⟨.empty, [], []⟩).1 = .ok root ∧
        ((listing.render s).outcome ⟨.empty, [], []⟩).2.document.snapshot? root =
          some (.element "ul" [("id", "list")] [] [] []
            [.element "li" [] ["row"] [("font-weight", "a")] ["click"] [.text "0: a"],
              .element "li" [] ["row", "odd"] [("font-weight", "b")] ["click"] [.text "1: b"]]) := by
  have htrees : listing.trees listingNames = .ok [.element "ul" [("id", "list")] [] [] []
      [.element "li" [] ["row"] [("font-weight", "a")] ["click"] [.text "0: a"],
        .element "li" [] ["row", "odd"] [("font-weight", "b")] ["click"] [.text "1: b"]]] := rfl
  have hrendered := listing.render_refines ⟨listingNames, fun _ => ()⟩ ⟨.empty, [], []⟩ .empty
  rw [htrees] at hrendered
  exact ⟨.empty, hrendered⟩

end ReactiveTemplate
