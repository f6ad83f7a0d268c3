import ReactiveTemplate.Proofs.Document.Refusal
import ReactiveTemplate.Proofs.Page.Histories
import ReactiveTemplate.Proofs.Page.Validation
import ReactiveTemplate.Proofs.Render.Outlines

/-!
# Where the handlers of a page come from

A handler comes to a node in the render that makes the node, and stays there as it is. So whatever was done to
the page since, the arguments of the calls in a handler are the values that they had in that render, in the scope
in which the node was rendered.
-/

namespace ReactiveTemplate

open Json

/-- An id that was handed out stays so. -/
theorem Document.Precedes.issued {L : Type} {d e : Document L} (h : d.Precedes e) (hd : d.FreeList) {n : NodeId}
    (hn : d.Issued n) : e.Issued n := by
  obtain ⟨ids, hids⟩ := h
  exact ((hids.accounts hd).2.2 n).mpr (Or.inl hn)

/-- An id that was handed out and is not live stays so. -/
theorem Document.Precedes.node?_eq_none {L : Type} {d e : Document L} (h : d.Precedes e) (hd : d.FreeList) {n : NodeId}
    (hn : d.Issued n) (hgone : d.node? n = none) : e.node? n = none := by
  obtain ⟨ids, hids⟩ := h
  exact hids.node?_eq_none hd hn hgone

/-- Records of one component between which its root stayed the same. -/
def Component.SameRoot (c c' : Component) : Prop :=
  c'.root = c.root

/-- Nothing comes between a record and itself. -/
theorem Component.SameRoot.refl (c : Component) : c.SameRoot c :=
  rfl

namespace Page

variable {d : Document Listener} {p q r : Page} {id : ComponentId} {c : Component}

/-- What a render that was completed did. -/
theorem exists_of_swapIn_ok (hc : p.component? id = some c) (hrun : p.swapIn id = (.ok (), q)) :
    ∃ root after, (c.template.render (surroundings id c)).outcome ⟨p.document, [], []⟩ = (.ok root, after) ∧
      (after.document.replace c.root root).1 = .ok () ∧ q.document = (after.document.replace c.root root).2 ∧
      q.component? id = some { c with root, renderCount := c.renderCount + 1 } := by
  have hlt := (List.getElem?_eq_some_iff.mp hc).1
  have hswap := swap_swapIn hc hrun
  rw [component?]
  generalize q.document = document, q.components = components at hswap ⊢
  cases hswap with
  | done hrender hreplace => exact ⟨_, _, hrender, hreplace, rfl, List.getElem?_set_self hlt⟩

/-! ### Roots -/

/-- The document of a page is well formed, and the root of each component was handed out by it, whether it is still
live or not. -/
structure Rooted (p : Page) : Prop where
  wellFormed : p.document.WellFormed
  issued : ∀ {id c}, p.component? id = some c → p.document.Issued c.root

namespace Rooted

/-- A page without components is rooted. -/
theorem ofDocument (h : d.WellFormed) : (ofDocument d).Rooted where
  wellFormed := h
  issued := nofun

/-- The components keep their roots, and the document goes on with its history. -/
theorem keep (h : p.Rooted) (hwell : q.document.WellFormed) (hprecedes : p.document.Precedes q.document)
    (hrel : ∀ id, Option.Rel Component.SameRoot (p.component? id) (q.component? id)) :
    q.Rooted where
  wellFormed := hwell
  issued {id c'} hc' := by
    have hroot := hrel id
    rw [hc'] at hroot
    generalize hc : p.component? id = record at hroot
    cases hroot with
    | some hroot =>
      rw [Component.SameRoot] at hroot
      rw [hroot]
      exact hprecedes.issued h.wellFormed.freeList (h.issued hc)

/-- A render can only be completed if the root is live. -/
theorem live_of_swapIn (h : p.Rooted) (hc : p.component? id = some c) (hrun : p.swapIn id = (.ok (), q)) :
    ∃ node, p.document.node? c.root = some node := by
  obtain ⟨root, after, hrender, hreplace, _, _⟩ := exists_of_swapIn_ok hc hrun
  have hprecedes := (c.template.render_keeps (Render.keptBySteps_precedes (surroundings id c) _ p.document)).of_outcome
    (.refl p.document) hrender
  cases hroot : p.document.node? c.root with
  | some node => exact ⟨node, rfl⟩
  | none =>
    have hgone := hprecedes.node?_eq_none h.wellFormed.freeList (h.issued hc) hroot
    obtain ⟨u, o, rfl, _, hgrown, _⟩ := c.template.render_follows h.wellFormed hrender
    have hlive : after.document.contains u.id = true :=
      Document.contains_iff.mpr (hgrown.holds u (List.mem_singleton_self u)).node?
    rw [Document.replace_of_gone hgrown.wellFormed.linked (Document.missing_of_node? hgone).contains hlive] at hreplace
    cases hreplace

/-- A render leaves a rooted page rooted, however it ends. -/
theorem swapIn (h : p.Rooted) (id : ComponentId) : (p.swapIn id).2.Rooted := by
  cases hc : p.component? id with
  | none =>
    rw [Page.swapIn, hc]
    exact h
  | some c =>
    have hprecedes : p.document.Precedes (p.swapIn id).2.document := CameOf.swapIn (.refl p.document) id
    generalize hrun : p.swapIn id = out at hprecedes ⊢
    obtain ⟨e | u, q⟩ := out
    · refine h.keep (swapIn_failed h.wellFormed hrun).1 hprecedes fun other => Component.rel_of_eq .refl ?_
      rw [component?, components_of_error hrun, component?]
    · obtain ⟨c', hc', hreseated⟩ := reseated_swapIn h.wellFormed hc (h.live_of_swapIn hc hrun) hrun
      refine ⟨hreseated.wellFormed, fun {other d} hd => ?_⟩
      obtain ⟨root, hcomponents⟩ := components_of_ok hc hrun
      by_cases heq : id = other
      · subst heq
        rw [hc'] at hd
        cases hd
        obtain ⟨node, hnode⟩ := hreseated.live
        exact Document.issued_of_node? hnode
      · have hold : p.component? other = some d := by
          rw [← hd, component?, component?, hcomponents, List.getElem?_set_ne heq]
        exact hprecedes.issued h.wellFormed.freeList (h.issued hold)

end Rooted

/-- A page stays rooted as long as no node is put below itself. -/
theorem Ensues.rooted (h : p.Ensues False q) (hp : p.Rooted) : q.Rooted := by
  have hsame {q r : Page} (ih : q.Rooted) (hdocument : r.document = q.document)
      (hrel : ∀ id, Option.Rel Component.SameRoot (q.component? id) (r.component? id)) :
      r.Rooted := by
    refine ih.keep (hdocument ▸ ih.wellFormed) ?_ hrel
    rw [hdocument]
    exact .refl _
  induction h with
  | refl => exact hp
  | aside _ hdocument hcomponents ih =>
    refine hsame ih hdocument fun id => Component.rel_of_eq .refl ?_
    rw [component?, hcomponents, component?]
  | write _ id field value ih =>
    exact hsame ih (document_write _ id field value)
      (rel_write .refl (fun c => (c.touched_write field value).root) _ id)
  | mark _ hc hmarked ih => exact hsame ih rfl (rel_setComponent .refl hc hmarked.root)
  | swapIn _ id ih => exact ih.swapIn id
  | operation _ o _ hloose ih =>
    have hwell := o.wellFormed_apply ih.wellFormed (hloose.resolve_left not_false)
    exact ih.keep hwell ((Document.Precedes.refl _).operation o) fun id => Component.rel_of_eq .refl rfl
  | @mount q b c _ hprepare ih =>
    refine ⟨ih.wellFormed, fun {id c'} hc' => ?_⟩
    rcases List.mem_append.mp (List.mem_of_getElem? hc') with hold | hlast
    · obtain ⟨other, hother⟩ := List.mem_iff_getElem?.mp hold
      exact ih.issued hother
    · obtain ⟨_, _, node, hnode⟩ := Blueprint.prepare_ok hprepare
      rw [List.mem_singleton.mp hlast]
      exact Document.issued_of_node? hnode

/-! ### Handlers -/

/-- A handler was bound to a node in the render that made the node, between two pages that came of `start` without a
node being put below itself. The node was made for a copy of an element in a scope, and the handler is that of an event
of this element, with the arguments of its calls evaluated in the scope and with the fields that the component had
then. -/
inductive Bound (start q : Page) (id : ComponentId) (n : NodeId) : String → Handler → Prop
  | intro {before after : Page} {c c' : Component} {outline : Outline} {place : List Nat} {head : ElementHead}
      {scope : Scope} {binding : EventBinding} {handler : Handler} (hbefore : start.Ensues False before)
      (hc : before.component? id = some c) (hrender : before.swapIn id = (.ok (), after))
      (hc' : after.component? id = some c') (hlater : after.Ensues False q)
      (hnew : before.document.contains n = false) (hplace : after.document.descend? c'.root place = some n)
      (houtline : c.template.outlines c.resolver = .ok [outline]) (hat : outline.at? place = some (head, scope))
      (hbinding : binding ∈ head.directives.events) (hbound : binding.handlerIn c.resolver scope = .ok handler) :
      Bound start q id n binding.event handler

/-- What was bound before is bound later, too. -/
theorem Bound.later {start : Page} {n : NodeId} {event : String} {handler : Handler}
    (h : Bound start q id n event handler) (hr : ∀ {p : Page}, p.Ensues False q → p.Ensues False r) :
    Bound start r id n event handler := by
  cases h with
  | intro hbefore hc hrender hc' hlater hnew hplace houtline hat hbinding hbound =>
    exact .intro hbefore hc hrender hc' (hr hlater) hnew hplace houtline hat hbinding hbound

/-- A handler has the event that it was bound to. -/
theorem event_of_handlerIn {binding : EventBinding} {resolver : Resolver} {scope : Scope} {handler : Handler}
    (h : binding.handlerIn resolver scope = .ok handler) : handler.event = binding.event := by
  obtain ⟨actions, _, h⟩ := ok_of_bind h
  cases h
  rfl

/-- Every listener of a node after a completed render is one that the node had before, or it was bound by the render
to a new node. -/
theorem Ensues.bound_of_swapIn (h : p.Ensues False q) (hp : p.Rooted) (hc : q.component? id = some c)
    (hrun : q.swapIn id = (.ok (), r)) {n : NodeId} {node : Node Listener} (hnode : r.document.node? n = some node)
    {entry : String × Listener} (hentry : entry ∈ node.listeners) :
    (∃ old, q.document.node? n = some old ∧ entry ∈ old.listeners) ∨
      ∃ handler, Bound p r id n entry.1 handler ∧ entry.2 = .bound id handler := by
  have hq := h.rooted hp
  obtain ⟨oldroot, hlive⟩ := hq.live_of_swapIn hc hrun
  obtain ⟨t, ht, hholds⟩ := hq.wellFormed.exists_holds hlive
  obtain ⟨root, after, hrender, hreplace, hdocument, hc'⟩ := exists_of_swapIn_ok hc hrun
  obtain ⟨u, o, rfl, houtline, hgrown, hfollows⟩ := c.template.render_follows hq.wellFormed hrender
  obtain ⟨_, _, hu, _⟩ := hgrown.swap hq.wellFormed hholds
  rw [ht, ← hdocument] at hu
  -- Putting the tree in its place adds no listener.
  have hinherits : after.document.Inherits r.document fun _ => False := by
    rw [hdocument]
    exact (Document.Inherits.refl _).replace _ _
  obtain ⟨rendered, hrendered, hentry⟩ := (hinherits n node hnode entry hentry).resolve_left not_false
  rcases hgrown.new hrendered with hold | hmem
  · exact Or.inl ⟨rendered, hold, hentry⟩
  · have hnew := hgrown.fresh n hmem
    rw [Subtree.idsList, Subtree.idsList, List.append_nil] at hmem
    obtain ⟨place, head, scope, hplace, hat, binding, hbinding, handler, hbound, rfl⟩ :=
      hfollows.exists_place hgrown.wellFormed (hgrown.holds u (List.mem_singleton_self u)) hu hmem hrendered hentry
    refine Or.inr ⟨handler, ?_, rfl⟩
    rw [event_of_handlerIn hbound]
    exact .intro h hc hrun hc' .refl (Document.missing_of_node? hnew).contains hplace houtline hat hbinding hbound

/-- On every page that comes of a rooted page without handlers, each handler of a live node was bound in the render
that made the node. -/
theorem Ensues.bound (h : p.Ensues False q) (hp : p.Rooted) (hbare : p.document.Carries Listener.Scripted) {n : NodeId}
    {node : Node Listener} (hnode : q.document.node? n = some node) {event : String} {handler : Handler}
    (hlistener : (event, .bound id handler) ∈ node.listeners) : Bound p q id n event handler := by
  induction h generalizing node with
  | refl => exact (hbare.of_node? hnode _ hlistener).elim
  | aside _ hdocument hcomponents ih =>
    rw [hdocument] at hnode
    exact (ih hnode hlistener).later fun h => .aside h hdocument hcomponents
  | write _ id field value ih =>
    rw [document_write] at hnode
    exact (ih hnode hlistener).later fun h => .write h id field value
  | mark _ hc hmarked ih => exact (ih hnode hlistener).later fun h => .mark h hc hmarked
  | @swapIn q h other ih =>
    have hold {old : Node Listener} (hold : q.document.node? n = some old)
        (hmem : (event, .bound id handler) ∈ old.listeners) : Bound p (q.swapIn other).2 id n event handler :=
      (ih hold hmem).later fun h => .swapIn h other
    cases hc : q.component? other with
    | none =>
      rw [Page.swapIn, hc] at hnode
      exact hold hnode hlistener
    | some c =>
      generalize hrun : q.swapIn other = out at hnode hold ⊢
      obtain ⟨e | u, q'⟩ := out
      · rw [(swapIn_failed (h.rooted hp).wellFormed hrun).2.2] at hnode
        exact hold hnode hlistener
      · rcases h.bound_of_swapIn hp hc hrun hnode hlistener with ⟨old, hnode, hmem⟩ | ⟨_, hbound, heq⟩
        · exact hold hnode hmem
        · cases heq
          exact hbound
  | operation h o ho hloose ih =>
    have hinherits := (Document.Inherits.refl _).operation (h.rooted hp).wellFormed.freeList o ho
    rcases hinherits n node hnode _ hlistener with hscripted | ⟨old, hold, hmem⟩
    · exact hscripted.elim
    · exact (ih hold hmem).later fun h => .operation h o ho hloose
  | mount _ hprepare ih => exact (ih hnode hlistener).later fun h => .mount h hprepare

end Page

end ReactiveTemplate
