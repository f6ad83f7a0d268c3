import ReactiveTemplate.Proofs.Document.Reseating
import ReactiveTemplate.Proofs.Page.Steady
import ReactiveTemplate.Proofs.Page.Upkeep
import ReactiveTemplate.Proofs.Render.Keeping

/-!
# How renders end

A render fails, or its result is refused because the root is gone, or it is completed. Only in the last case
does anything change: one component has another root, and its tree stands in the place of the old one.
-/

namespace ReactiveTemplate

open Json

namespace Page

variable {p p' : Page} {id : ComponentId} {c : Component}

/-- How a render of a component can end, with the document and the components after it. -/
inductive Swap (p : Page) (id : ComponentId) (c : Component) :
    Except Error Unit → Document Listener → List Component → Prop
  | failed {e : Error} {after : RenderState Listener}
      (hrender : (c.template.render (surroundings id c)).outcome ⟨p.document, [], []⟩ = (.error e, after)) :
      Swap p id c (.error e) after.document p.components
  | refused {root : NodeId} {after : RenderState Listener} {e : DocumentError}
      (hrender : (c.template.render (surroundings id c)).outcome ⟨p.document, [], []⟩ = (.ok root, after))
      (hreplace : (after.document.replace c.root root).1 = .error e) :
      Swap p id c (.error (.document e)) ((after.document.replace c.root root).2.remove root).2 p.components
  | done {root : NodeId} {after : RenderState Listener}
      (hrender : (c.template.render (surroundings id c)).outcome ⟨p.document, [], []⟩ = (.ok root, after))
      (hreplace : (after.document.replace c.root root).1 = .ok ()) :
      Swap p id c (.ok ()) (after.document.replace c.root root).2
        (p.components.set id { c with root, renderCount := c.renderCount + 1 })

/-- A render ends in one of these ways. -/
theorem swap_swapIn {result : Except Error Unit} (hc : p.component? id = some c)
    (hrun : p.swapIn id = (result, p')) : Swap p id c result p'.document p'.components := by
  generalize hrender : (c.template.render (surroundings id c)).outcome ⟨p.document, [], []⟩ = out
  obtain ⟨e | root, after⟩ := out
  · rw [swapIn_error hc hrender] at hrun
    cases hrun
    exact .failed hrender
  · cases hreplace : (after.document.replace c.root root).1 with
    | error e =>
      rw [swapIn_refused hc hrender hreplace] at hrun
      cases hrun
      exact .refused hrender hreplace
    | ok u =>
      rw [swapIn_ok hc hrender hreplace] at hrun
      cases hrun
      exact .done hrender hreplace

/-- The steps of a render bind listeners to a component; what is true of these stays true of all. -/
theorem keptBySteps_carries {P : Listener → Prop} (id : ComponentId) (c : Component)
    (hbound : ∀ {handler : Handler}, handler.From c.resolver c.template.actions → P (.bound id handler)) :
    Render.KeptBySteps (surroundings id c) c.template.actions (·.Carries P) where
  createElement _ h := h.insert _
  createText _ h := h.insert _
  editElement n f h := h.editElement n f
  addListener n event _ hfrom h := h.addListener n event (hbound hfrom)
  append parent child h := h.append parent child
  remove n h := h.remove n

/-- What is true of the listeners of a page is true of them after a render, if it is of those that are bound. -/
theorem carries_swapIn {P : Listener → Prop} {result : Except Error Unit} (h : p.document.Carries P)
    (hc : p.component? id = some c)
    (hbound : ∀ {handler : Handler}, handler.From c.resolver c.template.actions → P (.bound id handler))
    (hrun : p.swapIn id = (result, p')) : p'.document.Carries P := by
  have hkept := c.template.render_keeps (keptBySteps_carries id c hbound) ⟨p.document, [], []⟩ h
  have hswap := swap_swapIn hc hrun
  generalize p'.document = d, p'.components = cs at hswap ⊢
  cases hswap with
  | failed hrender =>
    rw [hrender] at hkept
    exact hkept
  | refused hrender _ =>
    rw [hrender] at hkept
    exact (hkept.replace _ _).remove _
  | done hrender _ =>
    rw [hrender] at hkept
    exact hkept.replace _ _

/-- Renders change no more of the record of a component than its root and the number of renders. -/
theorem rel_swapIn {R : Component → Component → Prop}
    (hR : ∀ (c : Component) (root : NodeId) (count : Nat), R c { c with root, renderCount := count })
    (p : Page) (id other : ComponentId) :
    Option.Rel R (p.component? other) ((p.swapIn id).2.component? other) := by
  have hrefl (c : Component) : R c c := hR c c.root c.renderCount
  cases hc : p.component? id with
  | none =>
    rw [swapIn, hc]
    exact Component.rel_of_eq hrefl rfl
  | some c =>
    generalize hrun : p.swapIn id = out
    obtain ⟨result, p'⟩ := out
    have hswap := swap_swapIn hc hrun
    change Option.Rel R _ p'.components[other]?
    generalize p'.document = d, p'.components = cs at hswap
    cases hswap with
    | failed _ => exact Component.rel_of_eq hrefl rfl
    | refused _ _ => exact Component.rel_of_eq hrefl rfl
    | done _ _ => exact rel_setComponent hrefl hc (hR c _ _) other

/-- A render that is not completed leaves the components as they are. -/
theorem components_of_error {e : Error} (hrun : p.swapIn id = (.error e, p')) : p'.components = p.components := by
  cases hc : p.component? id with
  | none =>
    rw [swapIn, hc] at hrun
    cases hrun
  | some c =>
    have hswap := swap_swapIn hc hrun
    generalize p'.document = d, p'.components = cs at hswap ⊢
    cases hswap <;> rfl

/-- A render that is not completed leaves every id with its meaning. -/
theorem swapIn_failed {e : Error} (h : p.document.WellFormed) (hrun : p.swapIn id = (.error e, p')) :
    p'.document.WellFormed ∧ p'.document.body = p.document.body ∧
      ∀ n, p'.document.node? n = p.document.node? n := by
  cases hc : p.component? id with
  | none =>
    rw [swapIn, hc] at hrun
    cases hrun
  | some c =>
    have hkept := c.template.render_keeps (Render.keptBySteps_body (surroundings id c) _ _) ⟨p.document, [], []⟩ rfl
    have hwell : (⟨p.document, [], []⟩ : RenderState Listener).document.WellFormed := h
    have hagrees := c.template.render_agrees (surroundings id c) hwell
    have hswap := swap_swapIn hc hrun
    generalize c.template.tree _ = meant at hagrees
    generalize p'.document = d, p'.components = cs at hswap ⊢
    cases hswap with
    | failed hrender =>
      rw [hrender] at hkept hagrees
      cases hagrees with
      | error hgrown => exact ⟨hgrown.wellFormed, hkept, hgrown.node?_eq⟩
    | @refused root after e hrender hreplace =>
      rw [hrender] at hkept hagrees
      cases hagrees with
      | ok hdone =>
        obtain ⟨u, rfl, hgrown, _⟩ := hdone
        rw [Document.replace_of_refused (hgrown.root u (List.mem_singleton_self u)) hreplace]
        obtain ⟨_, hfreed⟩ := hgrown.remove
        exact ⟨hfreed.wellFormed, (Document.body_remove _ _).trans hkept, hfreed.node?_eq⟩

/-- A render that is completed is counted, and changes no other component. -/
theorem components_of_ok (hc : p.component? id = some c) (hrun : p.swapIn id = (.ok (), p')) :
    ∃ root, p'.components = p.components.set id { c with root, renderCount := c.renderCount + 1 } := by
  have hswap := swap_swapIn hc hrun
  generalize p'.document = d, p'.components = cs at hswap ⊢
  cases hswap with
  | done _ _ => exact ⟨_, rfl⟩

/-- A render that is completed puts a tree in the place of the root. -/
theorem reseated_swapIn (h : p.document.WellFormed) (hc : p.component? id = some c)
    (hlive : ∃ node, p.document.node? c.root = some node) (hrun : p.swapIn id = (.ok (), p')) :
    ∃ c', p'.component? id = some c' ∧ p.document.Reseated p'.document c.root c'.root := by
  have hkept := c.template.render_keeps (Render.keptBySteps_body (surroundings id c) _ _) ⟨p.document, [], []⟩ rfl
  have hwell : (⟨p.document, [], []⟩ : RenderState Listener).document.WellFormed := h
  have hagrees := c.template.render_agrees (surroundings id c) hwell
  have hlt := (List.getElem?_eq_some_iff.mp hc).1
  have hswap := swap_swapIn hc hrun
  rw [component?]
  generalize c.template.tree _ = meant at hagrees
  generalize p'.document = d, p'.components = cs at hswap ⊢
  cases hswap with
  | done hrender _ =>
    rw [hrender] at hkept hagrees
    cases hagrees with
    | ok hdone =>
      obtain ⟨node, hnode⟩ := hlive
      obtain ⟨t, hroot, ht⟩ := h.exists_holds hnode
      obtain ⟨u, rfl, hgrown, _⟩ := hdone
      refine ⟨_, List.getElem?_set_self hlt, ?_⟩
      rw [← hroot]
      exact hgrown.reseated h hkept ht

/-- A render that fails before the hook ends there, and changes neither the record of the component nor what
the document means. -/
theorem renderNow_failed {e : Error} (h : p.document.WellFormed) (hc : p.component? id = some c)
    (hrun : p.swapIn id = (.error e, p')) :
    (∀ cb, renderNow cb id p = some (.error e, p')) ∧ p'.component? id = some c ∧
      (∀ n, p'.document.node? n = p.document.node? n) ∧
      p'.document.subtree? c.root = p.document.subtree? c.root := by
  obtain ⟨hwell, _, hnodes⟩ := swapIn_failed h hrun
  refine ⟨fun cb => ?_, ?_, hnodes, h.subtree?_congr hwell hnodes c.root⟩
  · rw [renderNow, Run.plain_bind, hrun]
    rfl
  · rwa [component?, components_of_error hrun]

end Page

end ReactiveTemplate
