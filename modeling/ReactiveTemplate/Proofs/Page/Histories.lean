import ReactiveTemplate.Proofs.Page.Frame
import ReactiveTemplate.Proofs.Render.Leaving

/-!
# Histories of a page

Renders, programs, listeners, timers and scripts all work on the document of a page through its operations. So
whatever is done to a page, its document has a history, and what holds of histories holds of pages: no id is
handed out twice, and an id whose node is gone is never live again.
-/

namespace ReactiveTemplate

open Json

/-- An operation goes on with a history. -/
theorem Document.Precedes.operation {L : Type} {d e : Document L} (h : d.Precedes e) (o : Operation L) :
    d.Precedes (o.apply e) := by
  cases o with
  | createElement | createText => exact h.insert _
  | append parent child => exact h.append parent child
  | replace old new => exact h.replace old new
  | remove n => exact h.remove n
  | setAttribute n | removeAttribute n | addClass n | setStyle n | addListener n => exact h.onElement n _

namespace Page

variable {d : Document Listener} {p q : Page}

/-- The document of a page came of another one. -/
def CameOf (d : Document Listener) (p : Page) : Prop :=
  d.Precedes p.document

/-- A render goes on with the history, however it ends. -/
theorem CameOf.swapIn (h : CameOf d p) (id : ComponentId) : CameOf d (p.swapIn id).2 := by
  cases hc : p.component? id with
  | none =>
    rw [Page.swapIn, hc]
    exact h
  | some c =>
    have hrendered := c.template.render_keeps (Render.keptBySteps_precedes (surroundings id c) _ d)
      ⟨p.document, [], []⟩ h
    generalize hrun : p.swapIn id = out
    obtain ⟨result, p'⟩ := out
    have hswap := swap_swapIn hc hrun
    rw [CameOf]
    generalize p'.document = after, p'.components = cs at hswap ⊢
    cases hswap with
    | failed hrender =>
      rw [hrender] at hrendered
      exact hrendered
    | refused hrender _ =>
      rw [hrender] at hrendered
      exact (hrendered.replace _ _).remove _
    | done hrender _ =>
      rw [hrender] at hrendered
      exact hrendered.replace _ _

/-- Whatever programs and hosts do, the document of the page goes on with its history. -/
theorem invariant_cameOf (d : Document Listener) : Invariant .anything (CameOf d) where
  gentle _ _ := Or.inl trivial
  carries _ := Document.carries_anything _
  aside h hdocument _ := by rwa [CameOf, hdocument]
  write {p} id field value h := by rwa [CameOf, document_write]
  mark h _ _ _ := h
  swapIn id h := h.swapIn id
  operation _ _ o _ _ h := Document.Precedes.operation h o
  mount _ _ _ _ h _ := h

/-- The pages that come of a page by operations on its document, renders of templates into it, components that
are built on it, and steps of scripts. -/
inductive Reaches : Page → Page → Prop
  | refl (p : Page) : Reaches p p
  | operation {p q : Page} (h : Reaches p q) (o : Document.Operation Listener) :
      Reaches p { q with document := o.apply q.document }
  | render {p q : Page} (h : Reaches p q) (t : Template) (s : Surroundings Listener) :
      Reaches p { q with document := ((t.render s).outcome ⟨q.document, [], []⟩).2.document }
  | build {p q q' : Page} {fuel : Nat} {name : String} {b : Blueprint} {answer : Except Error ComponentId}
      (h : Reaches p q) (hrun : build (callbacks fuel) name b q = some (answer, q')) : Reaches p q'
  | step {p q q' : Page} {fuel : Nat} {step : Step} {reply : Reply} (h : Reaches p q)
      (hrun : Page.step fuel step q = some (reply, q')) : Reaches p q'

/-- The documents of pages that come of one another do so, too. -/
theorem Reaches.precedes (h : p.Reaches q) : p.document.Precedes q.document := by
  induction h with
  | refl => exact .refl _
  | operation _ o ih => exact ih.operation o
  | @render q _ t s ih => exact t.render_keeps (Render.keptBySteps_precedes s _ _) ⟨q.document, [], []⟩ ih
  | @build q _ _ _ _ _ _ hrun ih =>
    have hinvariant := invariant_cameOf p.document
    have hcame : CameOf p.document q := ih
    exact leads_build hinvariant (hinvariant.keep_callbacks _) trivial hcame _ _ _ _ hrun
  | @step q _ _ _ _ _ hrun ih =>
    have hcame : CameOf p.document q := ih
    exact leads_step (invariant_cameOf p.document) hcame (Step.admitted_anything _ _) _ _ hrun

/-- Whatever is done to a page, its document goes on with a history that began with nothing. In every history no
id is handed out twice, and all live ids were handed out; every other history of the document hands out the same
ids. What is freed is not live any more; and an id that was handed out, but is not live, is missing ever after: no
question finds a node, and every operation on it and every dispatch is refused and changes nothing. -/
theorem Reaches.ids_never_alias {d : Document Listener} {p q : Page}
    (hstart : d = .empty ∨ ∃ source, Document.load source = .ok d) (hp : (ofDocument d).Reaches p)
    (hq : p.Reaches q) :
    (∃ ids more, Document.void.Evolves ids p.document ∧ p.document.Evolves more q.document) ∧
      ∀ {ids more : List NodeId} {e e' : Document Listener},
        Document.void.Evolves ids e → e.Evolves more e' →
          (ids ++ more).Nodup ∧ (∀ n, e.contains n = true → n ∈ ids) ∧
            (∀ others, Document.void.Evolves others e → others.Perm ids) ∧ e.Frees ∧
            ∀ n ∈ ids, e.contains n = false →
              e'.Missing n ∧ ∀ r : Page, r.document = e' → ∀ cb event detail,
                dispatch cb n event detail r = some (.error (.document (.staleNode n)), r) := by
  refine ⟨?_, fun {ids more e e'} hids hmore =>
    ⟨?_, fun n => hids.mem_of_contains, fun others hothers => hothers.perm hids, e.frees, fun n hn hgone => ?_⟩⟩
  · have hloaded : Document.void.Precedes d := by
      rcases hstart with rfl | ⟨source, hload⟩
      · exact Document.precedes_empty
      · exact Document.precedes_of_load hload
    obtain ⟨ids, hids⟩ := hloaded.trans hp.precedes
    obtain ⟨more, hmore⟩ := hq.precedes
    exact ⟨ids, more, hids, hmore⟩
  · exact ((hids.trans hmore).accounts Document.wellFormed_void.freeList).1
  · have hfree := hids.freeList Document.wellFormed_void.freeList
    have hissued := ((hids.accounts Document.wellFormed_void.freeList).2.2 n).mpr (Or.inr hn)
    have hnone : e'.node? n = none := by
      refine hmore.node?_eq_none hfree hissued ?_
      rwa [Document.contains, Option.isSome_eq_false_iff, Option.isNone_iff_eq_none] at hgone
    have hmissing := Document.missing_of_node? hnone
    refine ⟨hmissing, fun r hr cb event detail => ?_⟩
    rw [dispatch, Run.look_bind, hr, hmissing.contains]
    rfl

/-- The page with the button comes of the empty page. -/
theorem reaches_staged : (ofDocument .empty).Reaches staged.2 := by
  have hstage : (ofDocument .empty).Reaches stage :=
    .operation (.operation (.operation (.operation (.refl _) (.createElement "h1")) (.append ⟨0, 0⟩ ⟨1, 0⟩))
      (.createElement "div")) (.append ⟨0, 0⟩ ⟨2, 0⟩)
  have hbuild : Page.build (callbacks 2) "curtain" curtain stage = some staged := (Option.some_get _).symm
  exact .build hstage (eq_some_of_fst hbuild rfl)

/-- The element that the button took the place of is missing when the button was clicked and time has moved on,
although its id was handed out before the button was built. -/
theorem Reaches.ids_never_alias_darkened :
    (ofDocument .empty).Reaches staged.2 ∧ staged.2.Reaches darkened.2 ∧
      ∃ ids more, Document.void.Evolves ids staged.2.document ∧
        staged.2.document.Evolves more darkened.2.document ∧ (ids ++ more).Nodup ∧ ⟨2, 0⟩ ∈ ids ∧
          staged.2.document.contains ⟨2, 0⟩ = false ∧ darkened.2.document.Missing ⟨2, 0⟩ := by
  have hlater : staged.2.Reaches darkened.2 := by
    have hclick : Page.step 3 (.dispatch (.rootOf "curtain") "click" .null) staged.2 = some clicked :=
      (Option.some_get _).symm
    have htime : Page.step 3 (.advance 10) clicked.2 = some darkened := (Option.some_get _).symm
    exact .step (.step (.refl _) (eq_some_of_fst hclick rfl)) (eq_some_of_fst htime rfl)
  have hgone : staged.2.document.contains ⟨2, 0⟩ = false := by decide +kernel
  obtain ⟨⟨ids, more, hids, hmore⟩, hall⟩ := reaches_staged.ids_never_alias (Or.inl rfl) hlater
  obtain ⟨hnodup, _, _, _, hmissing⟩ := hall hids hmore
  have hissued : staged.2.document.Issued ⟨2, 0⟩ := ⟨0, by decide +kernel, Nat.le_refl 0⟩
  have hhanded := ((hids.accounts Document.wellFormed_void.freeList).2.2 _).mp hissued
  have hmem : (⟨2, 0⟩ : NodeId) ∈ ids := hhanded.resolve_left (Document.not_issued_void _)
  exact ⟨reaches_staged, hlater, ids, more, hids, hmore, hnodup, hmem, hgone, (hmissing _ hmem hgone).1⟩

end Page

end ReactiveTemplate
