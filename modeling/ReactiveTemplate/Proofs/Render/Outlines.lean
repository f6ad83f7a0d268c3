import ReactiveTemplate.Proofs.Render.Keeping
import ReactiveTemplate.Proofs.Render.Refinement

/-!
# Which element a node is a copy of

A template has an outline, by recursion on its nodes and without any document: it says for every node of what
is rendered which element of the template the node is a copy of, and in which scope. A render that succeeds
makes a tree that follows the outline. At every place of the tree the listeners of the node are the handlers of
the element, bound in the scope.
-/

namespace ReactiveTemplate

open Json

/-- Of which elements the nodes of a tree are copies, and in which scopes. -/
inductive Outline where
  | element (head : ElementHead) (scope : Scope) (below : List Outline)
  | text

/-- The element at a place, which is given by the positions on the way down, and the scope there. -/
def Outline.at? : Outline → List Nat → Option (ElementHead × Scope)
  | element head scope _, [] => some (head, scope)
  | element _ _ below, i :: place => below[i]?.bind (·.at? place)
  | text, _ => none

/-- The node at a place below another. -/
def Document.descend? {L : Type} (d : Document L) (n : NodeId) : List Nat → Option NodeId
  | [] => some n
  | i :: place => (d.children n)[i]?.bind (d.descend? · place)

/-! ### Outlines of templates -/

namespace ElementHead

/-- The outline of one copy of an element; `inner` gives the outlines below it. -/
def outlineIn (head : ElementHead) (inner : Scope → Except Error (List Outline)) (scope : Scope) :
    Except Error Outline := do
  let below ← inner scope
  pure (.element head scope below)

/-- The outlines of the copies of an element. -/
def outlinesIn (resolver : Resolver) (scope : Scope) (head : ElementHead)
    (inner : Scope → Except Error (List Outline)) : Except Error (List Outline) := do
  let scopes ← head.directives.scopesIn resolver scope
  scopes.mapM (head.outlineIn inner)

end ElementHead

namespace TemplateNode

mutual

/-- The outlines of a node in a scope. -/
def outlinesIn (resolver : Resolver) (scope : Scope) : TemplateNode → Except Error (List Outline)
  | .text _ => .ok [.text]
  | .element head nodes => head.outlinesIn resolver scope fun scope => outlinesInList resolver scope nodes

/-- The outlines of some nodes in a scope. -/
def outlinesInList (resolver : Resolver) (scope : Scope) : List TemplateNode → Except Error (List Outline)
  | [] => .ok []
  | node :: rest => do
    let first ← outlinesIn resolver scope node
    let more ← outlinesInList resolver scope rest
    pure (first ++ more)

end

end TemplateNode

/-- The outlines of all top-level elements. -/
def Template.outlines (t : Template) (resolver : Resolver) : Except Error (List Outline) :=
  TemplateNode.outlinesInList resolver .empty (t.roots.map fun (head, nodes) => .element head nodes)

/-! ### Trees that follow an outline -/

variable {L : Type} {α β : Type}

namespace Document

variable {d d' d'' : Document L} {n : NodeId} {s : Surroundings L}

/-- A node is live and has these listeners. -/
def Bears (d : Document L) (n : NodeId) (listeners : List (String × L)) : Prop :=
  ∃ node, d.node? n = some node ∧ node.listeners = listeners

/-- Every live node stays live and keeps its listeners. -/
def Spares (d d' : Document L) : Prop :=
  ∀ n listeners, d.Bears n listeners → d'.Bears n listeners

namespace Spares

/-- Nothing happens to the listeners of a document that stays as it is. -/
theorem refl (d : Document L) : d.Spares d :=
  fun _ _ h => h

/-- One step after another. -/
theorem trans (h : d.Spares d') (h' : d'.Spares d'') : d.Spares d'' :=
  fun n listeners hn => h' n listeners (h n listeners hn)

end Spares

/-- Trees beside a document leave its listeners alone. -/
theorem Grown.spares {trees : List Subtree} (h : d.Grown d' trees) : d.Spares d' := by
  intro n listeners hn
  obtain ⟨node, hnode, hlisteners⟩ := hn
  exact ⟨node, h.kept hnode, hlisteners⟩

/-- Putting one tree below another leaves all listeners alone. -/
theorem Grown.spares_append {e : Element} {events : List String} {children rest : List Subtree} {t : Subtree}
    (h : d.Grown d' (.element n e events children :: t :: rest)) : d'.Spares (d'.append n t.id).2 := by
  intro m listeners hm
  obtain ⟨node, hnode, hlisteners⟩ := hm
  have hread := h.node?_append.2 m
  rw [hnode, Option.map_some] at hread
  exact ⟨_, hread, hlisteners⟩

/-- Editing an element leaves its listeners alone. -/
theorem Bears.editElement {listeners : List (String × L)} (h : d.Bears n listeners) (m : NodeId)
    (f : Element → Element) : (d.editElement m f).2.Bears n listeners := by
  obtain ⟨node, hnode, hlisteners⟩ := h
  rw [Document.editElement, onElement]
  split
  · exact ⟨node, hnode, hlisteners⟩
  · split
    · next e _ =>
      have hread := node?_modify d m (fun node => { node with data := .element (f e) }) n
      by_cases heq : n = m
      · subst heq
        rw [if_pos rfl, hnode, Option.map_some] at hread
        exact ⟨_, hread, hlisteners⟩
      · rw [if_neg heq, hnode] at hread
        exact ⟨node, hread, hlisteners⟩
    · exact ⟨node, hnode, hlisteners⟩

/-- A listener that could be added stands behind the others. -/
theorem Bears.addListener {listeners : List (String × L)} (h : d.Bears n listeners) {event : String} {listener : L}
    (hok : (d.addListener n event listener).1 = .ok ()) :
    (d.addListener n event listener).2.Bears n (listeners ++ [(event, listener)]) := by
  obtain ⟨node, hnode, rfl⟩ := h
  cases hdata : node.data with
  | text content =>
    rw [Document.addListener, onElement, hnode] at hok
    dsimp only at hok
    rw [hdata] at hok
    cases hok
  | element e =>
    rw [Document.addListener, onElement_eq hnode hdata]
    have hread := node?_modify d n (fun node => { node with listeners := node.listeners ++ [(event, listener)] }) n
    rw [if_pos rfl, hnode, Option.map_some] at hread
    exact ⟨_, hread, rfl⟩

/-- The listeners that some handlers become. -/
def listenersOf (s : Surroundings L) (handlers : List Handler) : List (String × L) :=
  handlers.map fun handler => (handler.event, s.listener handler)

/-- The nodes of a tree are copies as an outline says: they have the listeners of their elements. -/
inductive Follows (d : Document L) (s : Surroundings L) : Subtree → Outline → Prop
  | element {n : NodeId} {e : Element} {events : List String} {children : List Subtree} {head : ElementHead}
      {scope : Scope} {below : List Outline} {handlers : List Handler}
      (hhandlers : head.directives.events.mapM (EventBinding.handlerIn s.resolver scope) = .ok handlers)
      (hbears : d.Bears n (listenersOf s handlers)) (hchildren : List.Forall₂ (d.Follows s) children below) :
      Follows d s (.element n e events children) (.element head scope below)
  | text (n : NodeId) (content : String) : Follows d s (.text n content) .text

/-- Trees follow their outlines as long as the listeners are left alone. -/
theorem Follows.spared (hspares : d.Spares d') {t : Subtree} {o : Outline} (h : d.Follows s t o) :
    d'.Follows s t o := by
  induction t using Subtree.induction generalizing o with
  | element n e events children ih =>
    cases h with
    | element hhandlers hbears hchildren =>
      refine .element hhandlers (hspares _ _ hbears) ?_
      have hboth := (List.forall₂_and_left (p := (· ∈ children)) _ _).mpr ⟨fun t ht => ht, hchildren⟩
      exact hboth.imp fun t o ⟨ht, hfollows⟩ => ih t ht hfollows
  | text n content =>
    cases h
    exact .text n content

/-- Several trees follow their outlines as long as the listeners are left alone. -/
theorem Follows.all_spared (hspares : d.Spares d') {ts : List Subtree} {os : List Outline}
    (h : List.Forall₂ (d.Follows s) ts os) : List.Forall₂ (d'.Follows s) ts os :=
  h.imp fun _ _ hfollows => hfollows.spared hspares

/-- A node of a tree that has a listener stands at a place where the outline has an element, and the listener is
a handler of this element. Every document that holds the tree shows the place. -/
theorem Follows.exists_place (hd : d.WellFormed) {t : Subtree} {o : Outline} (ht : d.Holds t) (ht' : d'.Holds t)
    (h : d.Follows s t o) (hn : n ∈ t.ids) {node : Node L} (hnode : d.node? n = some node)
    {entry : String × L} (hentry : entry ∈ node.listeners) :
    ∃ place head scope, d'.descend? t.id place = some n ∧ o.at? place = some (head, scope) ∧
      ∃ binding ∈ head.directives.events, ∃ handler,
        binding.handlerIn s.resolver scope = .ok handler ∧ entry = (handler.event, s.listener handler) := by
  induction t using Subtree.induction generalizing o with
  | element m e events children ih =>
    cases h with
    | @element _ _ _ _ head scope below handlers hhandlers hbears hchildren =>
      obtain ⟨⟨parent, listeners, hm, _⟩, hall'⟩ := ht'
      rw [Subtree.ids, List.mem_append, Subtree.mem_idsList, List.mem_singleton] at hn
      rcases hn with ⟨t, hmem, hnt⟩ | rfl
      · obtain ⟨i, hi, rfl⟩ := List.mem_iff_getElem.mp hmem
        have hfollows := (List.forall₂_iff_get.mp hchildren).2 i hi ((List.Forall₂.length_eq hchildren) ▸ hi)
        obtain ⟨place, head, scope, hplace, hat, hbinding⟩ :=
          ih _ hmem (holdsAll_iff.mp ht.2 _ hmem) (holdsAll_iff.mp hall' _ hmem) hfollows hnt
        refine ⟨i :: place, head, scope, ?_, ?_, hbinding⟩
        · rw [Subtree.id, descend?, children_of_node? hm, List.getElem?_map, List.getElem?_eq_getElem hi]
          exact hplace
        · rw [Outline.at?, List.getElem?_eq_getElem ((List.Forall₂.length_eq hchildren) ▸ hi)]
          exact hat
      · obtain ⟨other, hother, hlisteners⟩ := hbears
        rw [hnode] at hother
        cases hother
        rw [hlisteners, listenersOf, List.mem_map] at hentry
        obtain ⟨handler, hhandler, rfl⟩ := hentry
        obtain ⟨binding, hbinding, hbound⟩ := exists_of_mem_mapM hhandlers hhandler
        exact ⟨[], head, scope, rfl, rfl, binding, hbinding, handler, hbound, rfl⟩
  | text m content =>
    rw [Subtree.ids, List.mem_singleton] at hn
    obtain ⟨parent, listeners, hm⟩ := ht
    rw [hn, hm] at hnode
    cases hnode
    have hbare := (hd.text_bare hm rfl).2
    dsimp only at hbare hentry
    rw [hbare] at hentry
    cases hentry

end Document

/-! ### Renders -/

namespace Render

/-- What a step that succeeded did before the step after it. -/
theorem ok_of_outcome_bind {m : Render L α} {f : α → Render L β} {st after : RenderState L} {b : β}
    (h : (m >>= f).outcome st = (.ok b, after)) :
    ∃ a mid, m.outcome st = (.ok a, mid) ∧ (f a).outcome mid = (.ok b, after) := by
  rw [outcome_bind] at h
  generalize m.outcome st = out at h
  obtain ⟨e | a, mid⟩ := out
  · cases h
  · exact ⟨a, mid, rfl, h⟩

/-- What a step keeps holds when it has ended. -/
theorem Keeps.of_outcome {I : Document L → Prop} {m : Render L α} (h : Keeps I m) {st after : RenderState L}
    {result : Except Error α} (hst : I st.document) (hrun : m.outcome st = (result, after)) : I after.document := by
  have hafter := h st hst
  rwa [hrun] at hafter

/-- An operation that was done. -/
theorem ok_of_outcome_edit {operation : Document L → Document.Outcome L} {st after : RenderState L}
    (h : (edit operation).outcome st = (.ok (), after)) :
    (operation st.document).1 = .ok () ∧ after.document = (operation st.document).2 := by
  have hget : (get : Render L (RenderState L)).outcome st = (.ok st, st) := rfl
  rw [edit, outcome_bind, hget] at h
  dsimp only at h
  generalize operation st.document = out at h
  obtain ⟨e | u, document⟩ := out
  · cases h
  · cases h
    exact ⟨rfl, rfl⟩

variable {s : Surroundings L} {scope : Scope} {st after : RenderState L} {n : NodeId}
variable {listeners : List (String × L)}

/-- A listener that could be added is the handler of its event. -/
theorem listen_bears {binding : EventBinding} (h : st.document.Bears n listeners)
    (hrun : (listen s scope n binding).outcome st = (.ok (), after)) :
    ∃ handler, binding.handlerIn s.resolver scope = .ok handler ∧
      after.document.Bears n (listeners ++ [(handler.event, s.listener handler)]) := by
  obtain ⟨actions, mid, hactions, hrun⟩ := ok_of_outcome_bind hrun
  obtain ⟨hresult, hdocument⟩ := Quiet.mapM (quiet_bindAction s scope) binding.actions st
  rw [hactions] at hresult hdocument
  rw [← hdocument] at h
  refine ⟨⟨binding.event, actions⟩, ?_, ?_⟩
  · rw [EventBinding.handlerIn, ← hresult]
    rfl
  · obtain ⟨_, noted, hnoted, hrun⟩ := ok_of_outcome_bind hrun
    cases hnoted
    obtain ⟨hok, hafter⟩ := ok_of_outcome_edit hrun
    rw [hafter]
    exact Document.Bears.addListener h hok

/-- Listeners that could be added are the handlers of their events. -/
theorem forM_listen_bears {bindings : List EventBinding} (h : st.document.Bears n listeners)
    (hrun : (bindings.forM (listen s scope n)).outcome st = (.ok (), after)) :
    ∃ handlers, bindings.mapM (EventBinding.handlerIn s.resolver scope) = .ok handlers ∧
      after.document.Bears n (listeners ++ Document.listenersOf s handlers) := by
  induction bindings generalizing st listeners with
  | nil =>
    cases hrun
    exact ⟨[], rfl, by rwa [Document.listenersOf, List.map_nil, List.append_nil]⟩
  | cons binding rest ih =>
    obtain ⟨_, mid, hfirst, hrest⟩ := ok_of_outcome_bind hrun
    obtain ⟨handler, hhandler, hbears⟩ := listen_bears h hfirst
    obtain ⟨handlers, hhandlers, hbears⟩ := ih hbears hrest
    refine ⟨handler :: handlers, ?_, by rwa [List.append_assoc] at hbears⟩
    rw [List.mapM_cons, hhandler, hhandlers]
    rfl

/-- An element that could be dressed has the handlers of its events as listeners. -/
theorem dress_bears {head : ElementHead} (h : st.document.Bears n [])
    (hrun : (dress s scope n head).outcome st = (.ok (), after)) :
    ∃ handlers, head.directives.events.mapM (EventBinding.handlerIn s.resolver scope) = .ok handlers ∧
      after.document.Bears n (Document.listenersOf s handlers) := by
  have hedit (m : NodeId) (f : Element → Element) :
      Keeps (·.Bears n []) (edit fun d : Document L => d.editElement m f) :=
    .edit fun h => h.editElement m f
  have hquiet {m : Mapping} : Keeps (·.Bears n []) (evaluateMapping s scope m) :=
    .quiet (quiet_evaluateMapping s scope m)
  obtain ⟨_, st₁, hattributes, hrun⟩ := ok_of_outcome_bind hrun
  obtain ⟨classes, st₂, hclasses, hrun⟩ := ok_of_outcome_bind hrun
  obtain ⟨_, st₃, hadded, hrun⟩ := ok_of_outcome_bind hrun
  obtain ⟨styles, st₄, hstyles, hrun⟩ := ok_of_outcome_bind hrun
  obtain ⟨_, st₅, hset, hrun⟩ := ok_of_outcome_bind hrun
  have h₁ := (Keeps.forM fun entry _ => hedit n _).of_outcome h hattributes
  have h₂ := hquiet.of_outcome h₁ hclasses
  have h₃ : st₃.document.Bears n [] := by
    refine Keeps.of_outcome (I := (·.Bears n [])) (.forM fun entry _ => ?_) h₂ hadded
    dsimp only
    split
    · exact hedit n _
    · exact .pure _
  have h₄ := hquiet.of_outcome h₃ hstyles
  have h₅ := (Keeps.forM fun entry _ => hedit n _).of_outcome h₄ hset
  exact forM_listen_bears h₅ hrun

/-- A step adds trees to the uppermost element of a tree beside a document, and they follow the outlines that a
computation gives; all listeners are left alone. -/
def Outlined (s : Surroundings L) (n : NodeId) (m : Render L Unit) (r : Except Error (List Outline)) : Prop :=
  ∀ (d : Document L) (st after : RenderState L) (e : Element) (events : List String) (children : List Subtree),
    d.Grown st.document [.element n e events children] → m.outcome st = (.ok (), after) →
      ∃ more outlines, r = .ok outlines ∧ d.Grown after.document [.element n e events (children ++ more)] ∧
        List.Forall₂ (after.document.Follows s) more outlines ∧ st.document.Spares after.document

/-- The copies that a program makes without a failure stand beside the document and follow the outlines that a
computation gives. -/
def CopiesOutlined (s : Surroundings L) (m : StateM (RenderState L) Copies) (r : Except Error (List Outline)) : Prop :=
  ∀ st, st.document.WellFormed → (m.run st).1.failure = none →
    ∃ trees outlines, (m.run st).1.made = trees.map Subtree.id ∧ r = .ok outlines ∧
      st.document.Grown (m.run st).2.document trees ∧ List.Forall₂ ((m.run st).2.document.Follows s) trees outlines

/-- A copy follows the outline of its element in its scope. -/
theorem copy_outlined {head : ElementHead} {fill : Scope → NodeId → Render L Unit}
    {inner : Scope → Except Error (List Outline)} (hfill : ∀ scope n, Outlined s n (fill scope n) (inner scope))
    (h : st.document.WellFormed) (hrun : (copy s head fill scope).outcome st = (.ok n, after)) :
    ∃ t o, t.id = n ∧ head.outlineIn inner scope = .ok o ∧ st.document.Grown after.document [t] ∧
      after.document.Follows s t o := by
  obtain ⟨m, created, hmake, hrun⟩ := ok_of_outcome_bind hrun
  obtain ⟨_, ended, hfilled, hend⟩ := ok_of_outcome_bind hrun
  cases hend
  have hnew : st.document.Grown created.document [.element n (.ofTag (Markup.lowercase head.tag)) [] []] := by
    cases hmake
    exact Document.Grown.insert h (.element (.ofTag (Markup.lowercase head.tag)))
  -- An error would have been passed on.
  have hbody : (do dress s scope n head; fill scope n : Render L Unit).outcome created = (.ok (), after) := by
    rw [outcome_tryCatch] at hfilled
    split at hfilled
    · next hout => rw [hout, hfilled]
    · next e _ _ =>
      obtain ⟨_, _, _, hthrown⟩ := ok_of_outcome_bind hfilled
      cases hthrown
  obtain ⟨_, dressed, hdress, hbody⟩ := ok_of_outcome_bind hbody
  obtain ⟨listeners, hnode, hnone⟩ := hnew.first
  rw [List.map_eq_nil_iff] at hnone
  obtain ⟨handlers, hhandlers, hbears⟩ := dress_bears ⟨_, hnode, hnone⟩ hdress
  have hagrees := dress_agrees s scope head hnew
  rw [hdress] at hagrees
  generalize head.valuesIn s.resolver scope = values at hagrees
  cases hagrees with
  | ok hdressed =>
    obtain ⟨more, below, hbelow, hgrown, hfollow, hspares⟩ := hfill scope n _ _ _ _ _ _ hdressed hbody
    refine ⟨_, .element head scope below, rfl, ?_, hgrown, .element hhandlers (hspares _ _ hbears) hfollow⟩
    rw [ElementHead.outlineIn, hbelow]
    rfl

/-- Copies of an element follow its outlines. -/
theorem copyEach_outlined {head : ElementHead} {fill : Scope → NodeId → Render L Unit}
    {inner : Scope → Except Error (List Outline)} (hfill : ∀ scope n, Outlined s n (fill scope n) (inner scope))
    (scopes : List Scope) : CopiesOutlined s (copyEach s head fill scopes) (scopes.mapM (head.outlineIn inner)) := by
  induction scopes with
  | nil => exact fun st h _ => ⟨[], [], rfl, rfl, .refl h, .nil⟩
  | cons scope rest ih =>
    intro st h hnone
    rw [copyEach, run_run_bind] at hnone ⊢
    generalize hcopy : (copy s head fill scope).outcome st = out at hnone ⊢
    obtain ⟨e | n, mid⟩ := out
    · cases hnone
    · obtain ⟨t, o, rfl, ho, hgrown, hfollows⟩ := copy_outlined hfill h hcopy
      obtain ⟨trees, outlines, hmade, hrest, hmore, hall⟩ := ih _ hgrown.wellFormed hnone
      refine ⟨t :: trees, o :: outlines, ?_, ?_, hgrown.trans hmore, .cons (hfollows.spared hmore.spares) hall⟩
      · rw [List.map_cons, ← hmade]
        rfl
      · rw [List.mapM_cons, ho, hrest]
        rfl

/-- All copies of an element follow its outlines. -/
theorem copies_outlined {head : ElementHead} {fill : Scope → NodeId → Render L Unit}
    {inner : Scope → Except Error (List Outline)} (hfill : ∀ scope n, Outlined s n (fill scope n) (inner scope)) :
    CopiesOutlined s (copies s scope head fill) (head.outlinesIn s.resolver scope inner) := by
  intro st h hnone
  obtain ⟨hresult, hdocument⟩ := quiet_scopes s scope head.directives st
  rw [copies, run_run_bind, hresult] at hnone ⊢
  rw [ElementHead.outlinesIn]
  cases hscopes : head.directives.scopesIn s.resolver scope with
  | error e =>
    rw [hscopes] at hnone
    cases hnone
  | ok scopes =>
    rw [hscopes] at hnone
    rw [← hdocument] at h ⊢
    exact copyEach_outlined hfill scopes _ h hnone

/-- Putting the trees beside a tree below its uppermost node leaves all listeners alone. -/
theorem spares_appendAll {d : Document L} {e : Element} {events : List String} {children : List Subtree}
    {trees : List Subtree} (h : d.Grown st.document (.element n e events children :: trees))
    (hrun : ((trees.map Subtree.id).forM fun c => edit fun d : Document L => d.append n c).outcome st =
      (.ok (), after)) : st.document.Spares after.document := by
  induction trees generalizing st children with
  | nil =>
    cases hrun
    exact .refl _
  | cons t rest ih =>
    obtain ⟨_, mid, hfirst, hrest⟩ := ok_of_outcome_bind hrun
    have hmid := (ok_of_outcome_edit hfirst).2
    have hspares := h.spares_append
    have hgrown := h.append.2
    rw [← hmid] at hspares hgrown
    exact hspares.trans (ih hgrown hrest)

/-- Attaching copies adds trees that follow the outlines of the copies. -/
theorem attach_outlined {m : StateM (RenderState L) Copies} {r : Except Error (List Outline)}
    (hm : CopiesOutlined s m r) (n : NodeId) :
    Outlined s n (do let made ← (liftM m : Render L Copies); attach n made) r := by
  intro d st after e events children h hrun
  rw [outcome_lift_bind] at hrun
  obtain ⟨_, added, hadded, hend⟩ := ok_of_outcome_bind hrun
  cases hfailure : (m.run st).1.failure with
  | some error =>
    rw [hfailure] at hend
    cases hend
  | none =>
    rw [hfailure] at hend
    cases hend
    obtain ⟨trees, outlines, hmade, hr, hgrown, hfollow⟩ := hm st h.wellFormed hfailure
    rw [hmade] at hadded
    have hboth := h.trans hgrown
    have hspares := spares_appendAll hboth hadded
    obtain ⟨ended, hout, hended⟩ := outcome_appendAll trees hboth
    rw [hadded] at hout
    cases hout
    exact ⟨trees, outlines, hr, hended, Document.Follows.all_spared hspares hfollow, hgrown.spares.trans hspares⟩

/-- Two steps that add trees, one after the other. -/
theorem Outlined.append {m m' : Render L Unit} {r r' : Except Error (List Outline)} (hm : Outlined s n m r)
    (hm' : Outlined s n m' r') : Outlined s n (do m; m') (do let first ← r; let more ← r'; pure (first ++ more)) := by
  intro d st after e events children h hrun
  obtain ⟨_, mid, hfirst, hrest⟩ := ok_of_outcome_bind hrun
  obtain ⟨trees, outlines, rfl, hgrown, hfollow, hspares⟩ := hm _ _ _ _ _ _ h hfirst
  obtain ⟨more, others, rfl, hgrown, hmore, hleft⟩ := hm' _ _ _ _ _ _ hgrown hrest
  refine ⟨trees ++ more, outlines ++ others, rfl, by rwa [List.append_assoc] at hgrown, ?_, hspares.trans hleft⟩
  exact List.rel_append (Document.Follows.all_spared hleft hfollow) hmore

/-- A text is added. -/
theorem text_outlined (s : Surroundings L) (scope : Scope) (n : NodeId) (parts : List (Interpolated Expression)) :
    Outlined s n (child s scope n (.text parts)) (TemplateNode.outlinesIn s.resolver scope (.text parts)) := by
  intro d st after e events children h hrun
  obtain ⟨text, read, htext, hrun⟩ := ok_of_outcome_bind hrun
  obtain ⟨m, created, hmake, hrun⟩ := ok_of_outcome_bind hrun
  have hdocument := (quiet_interpolate s scope parts st).2
  rw [htext] at hdocument
  rw [← hdocument] at h ⊢
  rw [outcome_make] at hmake
  cases hmake
  have hnew := Document.Grown.insert h.wellFormed (.text text)
  have hboth := h.trans hnew
  have hgrown := hboth.append.2
  have hspares := hnew.spares.trans hboth.spares_append
  rw [Subtree.id_leaf] at hgrown hspares
  have hafter := (ok_of_outcome_edit hrun).2
  rw [hafter]
  exact ⟨_, _, rfl, hgrown, .cons (.text _ _) .nil, hspares⟩

mutual

/-- The trees that a node of a template adds follow its outlines. -/
theorem child_outlined (s : Surroundings L) (scope : Scope) (n : NodeId) (node : TemplateNode) :
    Outlined s n (child s scope n node) (node.outlinesIn s.resolver scope) := by
  cases node with
  | text parts => exact text_outlined s scope n parts
  | element head nodes =>
    rw [child, TemplateNode.outlinesIn]
    exact attach_outlined (copies_outlined fun scope n => children_outlined s scope n nodes) n

/-- The trees that nodes of a template add follow their outlines. -/
theorem children_outlined (s : Surroundings L) (scope : Scope) (n : NodeId) (nodes : List TemplateNode) :
    Outlined s n (children s scope n nodes) (TemplateNode.outlinesInList s.resolver scope nodes) := by
  cases nodes with
  | nil =>
    intro d st after e events children h hrun
    cases hrun
    exact ⟨[], [], rfl, by rwa [List.append_nil], .nil, .refl _⟩
  | cons node rest =>
    rw [Render.children, TemplateNode.outlinesInList]
    exact (child_outlined s scope n node).append (children_outlined s scope n rest)

end

/-- The copies of all top-level elements follow their outlines. -/
theorem rootCopies_outlined (s : Surroundings L) (roots : List (ElementHead × List TemplateNode)) :
    CopiesOutlined s (rootCopies s roots) (TemplateNode.outlinesInList s.resolver .empty
      (roots.map fun (head, nodes) => .element head nodes)) := by
  induction roots with
  | nil => exact fun st h _ => ⟨[], [], rfl, rfl, .refl h, .nil⟩
  | cons root rest ih =>
    obtain ⟨head, nodes⟩ := root
    intro st h hnone
    have hfirst : CopiesOutlined s (copies s .empty head fun scope n => children s scope n nodes)
        (head.outlinesIn s.resolver .empty fun scope => TemplateNode.outlinesInList s.resolver scope nodes) :=
      copies_outlined fun scope n => children_outlined s scope n nodes
    replace hfirst := hfirst st h
    rw [rootCopies, StateT.run_bind] at hnone ⊢
    rw [List.map_cons, TemplateNode.outlinesInList, TemplateNode.outlinesIn]
    generalize StateT.run (copies s .empty head fun scope n => children s scope n nodes) st = out
      at hfirst hnone ⊢
    obtain ⟨⟨made, failure⟩, mid⟩ := out
    cases failure with
    | some e => cases hnone
    | none =>
      obtain ⟨trees, outlines, hmade, hr, hgrown, hfollow⟩ := hfirst rfl
      obtain ⟨more, others, hmore, hrest, hboth, hall⟩ := ih _ hgrown.wellFormed hnone
      refine ⟨trees ++ more, outlines ++ others, ?_, ?_, hgrown.trans hboth, ?_⟩
      · rw [List.map_append, ← hmore, ← hmade]
        rfl
      · rw [hr, hrest]
        rfl
      · exact List.rel_append (Document.Follows.all_spared hboth.spares hfollow) hall

end Render

/-- A render that succeeds makes one tree beside the document, and the tree follows the one outline that the
template has for what names mean. -/
theorem Template.render_follows (t : Template) {s : Surroundings L} {st after : RenderState L} {root : NodeId}
    (h : st.document.WellFormed) (hrun : (t.render s).outcome st = (.ok root, after)) :
    ∃ u o, u.id = root ∧ t.outlines s.resolver = .ok [o] ∧ st.document.Grown after.document [u] ∧
      after.document.Follows s u o := by
  have hcopies := Render.rootCopies_outlined s t.roots st h
  rw [Template.render, Render.outcome_lift_bind] at hrun
  generalize (Render.rootCopies s t.roots).run st = out at hcopies hrun
  obtain ⟨⟨made, failure⟩, mid⟩ := out
  cases failure with
  | some e =>
    obtain ⟨_, _, _, hthrown⟩ := Render.ok_of_outcome_bind hrun
    cases hthrown
  | none =>
    obtain ⟨trees, outlines, rfl, houtlines, hgrown, hfollow⟩ := hcopies rfl
    cases hfollow with
    | nil =>
      obtain ⟨_, _, _, hthrown⟩ := Render.ok_of_outcome_bind hrun
      cases hthrown
    | @cons u o us os hfollows hrest =>
      cases hrest with
      | nil =>
        cases hrun
        exact ⟨u, o, rfl, houtlines, hgrown, hfollows⟩
      | cons _ _ =>
        obtain ⟨_, _, _, hthrown⟩ := Render.ok_of_outcome_bind hrun
        cases hthrown

end ReactiveTemplate
