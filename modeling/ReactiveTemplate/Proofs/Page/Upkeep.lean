import Mathlib.Logic.Function.Basic
import ReactiveTemplate.Proofs.Component.Mounting
import ReactiveTemplate.Proofs.Page.Listeners
import ReactiveTemplate.Proofs.Render.Refinement

/-!
# Keeping pages up to date

A component is served by a tree of its page if that tree is what the component means, as long as no
render is pending and the last one went well. Operations that render nothing keep it served; a render
that goes well serves it anew, with nodes that no other tree has.
-/

namespace ReactiveTemplate

open Json

/-- A component at the root of a tree, which shows what it means unless a render is pending or the
last one failed. -/
structure Component.ServedBy (c : Component) (t : Subtree) (last : Bool) : Prop where
  restrained : c.Restrained
  root : t.id = c.root
  current : c.scheduler.pending = true ∨ last = false ∨ c.tree = .ok t.snapshot

/-- A component that has moved on is served as before. -/
theorem Component.ServedBy.moved {c c' : Component} {t : Subtree} {last : Bool} (h : c.ServedBy t last)
    (hmoved : c.Moved c') : c'.ServedBy t last where
  restrained := hmoved.restrained h.restrained
  root := h.root.trans hmoved.root.symm
  current := by
    rcases hmoved.current with hpending | ⟨hpending, htree⟩
    · exact Or.inl hpending
    · rw [hpending, htree]
      exact h.current

/-- After a render that failed nothing is promised of the tree. -/
theorem Component.ServedBy.failed {c : Component} {t : Subtree} {last : Bool} (h : c.ServedBy t last) :
    c.ServedBy t false where
  restrained := h.restrained
  root := h.root
  current := Or.inr (Or.inl rfl)

namespace Page

variable {p p' : Page} {id : ComponentId} {last last' : ComponentId → Bool}
  {mounted : ComponentId → Subtree} {cb : Callbacks}

/-- What holds of a page between the operations of its host. `last` says whose last render went well,
and `mounted` which tree shows whom; no root of one tree lies in another. -/
structure Upkept (p : Page) (last : ComponentId → Bool) (mounted : ComponentId → Subtree) : Prop where
  wellFormed : p.document.WellFormed
  serves : ∀ {id}, p.isAlive id = true →
    ∃ c, p.component? id = some c ∧ c.ServedBy (mounted id) (last id)
  holds : ∀ {id}, p.isAlive id = true → p.document.Holds (mounted id)
  apart : ∀ {id other}, p.isAlive id = true → p.isAlive other = true → id ≠ other →
    (mounted id).id ∉ (mounted other).ids

namespace Upkept

/-- The components that are alive are restrained. -/
theorem restrained (h : Upkept p last mounted) (halive : p.isAlive id = true) : p.Restrained id := by
  intro c hc
  obtain ⟨c', hc', hserved⟩ := h.serves halive
  rw [hc] at hc'
  cases hc'
  exact hserved.restrained

/-- A step that keeps the trees of those that stay alive. -/
theorem step (h : Upkept p last mounted) (hwell : p'.document.WellFormed)
    (halive : ∀ {id}, p'.isAlive id = true → p.isAlive id = true)
    (hholds : ∀ {id}, p'.isAlive id = true → p'.document.Holds (mounted id))
    (hserves : ∀ {id c}, p'.isAlive id = true → p.component? id = some c →
      c.ServedBy (mounted id) (last id) →
        ∃ c', p'.component? id = some c' ∧ c'.ServedBy (mounted id) (last' id)) :
    Upkept p' last' mounted where
  wellFormed := hwell
  serves hid := by
    obtain ⟨c, hc, hserved⟩ := h.serves (halive hid)
    exact hserves hid hc hserved
  holds hid := hholds hid
  apart hid hother hne := h.apart (halive hid) (halive hother) hne

/-- Runs that render nothing. -/
theorem undisturbed (h : Upkept p last mounted) (hp' : Undisturbed p p') : Upkept p' last mounted := by
  have halive {id : ComponentId} (hid : p'.isAlive id = true) : p.isAlive id = true :=
    hp'.isAlive id ▸ hid
  refine h.step (hp'.document ▸ h.wellFormed) halive ?_ fun _ hc hserved => ?_
  · intro id hid
    rw [hp'.document]
    exact h.holds (halive hid)
  · obtain ⟨c', hc', hmoved⟩ := hp'.moved hc
    exact ⟨c', hc', hserved.moved hmoved⟩

/-- Components that are forgotten, or cease to run. -/
theorem fewer (h : Upkept p last mounted) (hdocument : p'.document = p.document)
    (hcomponents : p'.components = p.components)
    (halive : ∀ {id}, p'.isAlive id = true → p.isAlive id = true) : Upkept p' last mounted := by
  refine h.step (hdocument ▸ h.wellFormed) halive ?_ fun {id c} _ hc hserved => ?_
  · intro id hid
    rw [hdocument]
    exact h.holds (halive hid)
  · exact ⟨c, by rwa [component?, hcomponents], hserved⟩

/-- A change of one component, and of what is known of its last render. -/
theorem updateComponent (h : Upkept p last mounted) {f : Component → Component} {went : Bool}
    (hf : ∀ c, c.ServedBy (mounted id) (last id) → (f c).ServedBy (mounted id) went) :
    Upkept (p.updateComponent id f) (Function.update last id went) mounted := by
  refine h.step h.wellFormed (fun hid => hid) (fun hid => h.holds hid) fun {other c} _ hc hserved => ?_
  rw [component?_updateComponent, hc]
  by_cases heq : id = other
  · subst heq
    rw [Function.update_self]
    exact ⟨f c, by rw [if_pos rfl, Option.map_some], hf c hserved⟩
  · rw [Function.update_of_ne (Ne.symm heq)]
    exact ⟨c, if_neg heq, hserved⟩

/-- What is said of the last render of components that are not alive does not matter. -/
theorem congr_last (h : Upkept p last mounted) (hlast : ∀ id, p.isAlive id = true → last' id = last id) :
    Upkept p last' mounted := by
  refine h.step h.wellFormed (fun hid => hid) (fun hid => h.holds hid) fun {id c} hid hc hserved => ?_
  rw [hlast id hid]
  exact ⟨c, hc, hserved⟩

/-- After a render that failed. -/
theorem failed (h : Upkept p last mounted) (id : ComponentId) :
    Upkept p (Function.update last id false) mounted := by
  refine h.step h.wellFormed (fun hid => hid) (fun hid => h.holds hid) fun {other c} _ hc hserved => ?_
  refine ⟨c, hc, ?_⟩
  by_cases heq : other = id
  · rw [heq, Function.update_self, ← heq]
    exact hserved.failed
  · rwa [Function.update_of_ne heq]

/-- A component gets a tree of its own, with nodes that no other tree has. -/
theorem install (h : Upkept p last mounted) {u : Subtree} {c : Component} {went : Bool}
    (hwell : p'.document.WellFormed) (hu : p'.document.Holds u) (hc : p'.component? id = some c)
    (hserved : c.ServedBy u went)
    (hbefore : ∀ {other}, other ≠ id → p'.isAlive other = true → p.isAlive other = true)
    (hsame : ∀ {other d}, other ≠ id → p.component? other = some d → p'.component? other = some d)
    (hholds : ∀ {other}, other ≠ id → p.isAlive other = true → p'.document.Holds (mounted other))
    (hapart : ∀ {other}, other ≠ id → p.isAlive other = true →
      u.id ∉ (mounted other).ids ∧ (mounted other).id ∉ u.ids) :
    Upkept p' (Function.update last id went) (Function.update mounted id u) := by
  refine ⟨hwell, fun {other} hother => ?_, fun {other} hother => ?_,
    fun {one other} hone hother hne => ?_⟩
  · by_cases heq : other = id
    · rw [heq, Function.update_self, Function.update_self]
      exact ⟨c, hc, hserved⟩
    · rw [Function.update_of_ne heq, Function.update_of_ne heq]
      obtain ⟨d, hd, hbefore⟩ := h.serves (hbefore heq hother)
      exact ⟨d, hsame heq hd, hbefore⟩
  · by_cases heq : other = id
    · rw [heq, Function.update_self]
      exact hu
    · rw [Function.update_of_ne heq]
      exact hholds heq (hbefore heq hother)
  · by_cases hleft : one = id
    · subst hleft
      rw [Function.update_self, Function.update_of_ne hne.symm]
      exact (hapart hne.symm (hbefore hne.symm hother)).1
    · rw [Function.update_of_ne hleft]
      by_cases hright : other = id
      · rw [hright, Function.update_self]
        exact (hapart hleft (hbefore hleft hone)).2
      · rw [Function.update_of_ne hright]
        exact h.apart (hbefore hleft hone) (hbefore hright hother) hne

end Upkept

/-! ## Renders -/

/-- What the template of a component is rendered with on a page. -/
def surroundings (id : ComponentId) (c : Component) : Surroundings Listener :=
  ⟨c.resolver, .bound id⟩

/-- A render that fails leaves its notes and what it did to the document. -/
theorem swapIn_error {c : Component} {e : Error} {after : RenderState Listener}
    (hc : p.component? id = some c)
    (hrender : (c.template.render (surroundings id c)).outcome ⟨p.document, [], []⟩ = (.error e, after)) :
    p.swapIn id =
      (.error e, { p with document := after.document }.addNotes (c.computedAmong after.asked)) := by
  rw [Render.outcome, surroundings] at hrender
  rw [swapIn, hc]
  dsimp only
  rw [hrender]

/-- A render that goes well puts what it made in the place of the root. -/
theorem swapIn_ok {c : Component} {root : NodeId} {after : RenderState Listener}
    (hc : p.component? id = some c)
    (hrender : (c.template.render (surroundings id c)).outcome ⟨p.document, [], []⟩ = (.ok root, after))
    (hreplace : (after.document.replace c.root root).1 = .ok ()) :
    p.swapIn id =
      (.ok (),
        { { p with document := after.document }.addNotes (c.computedAmong after.asked) with
          document := (after.document.replace c.root root).2 }.setComponent id
            { c with root, renderCount := c.renderCount + 1 }) := by
  rw [Render.outcome, surroundings] at hrender
  rw [swapIn, hc]
  dsimp only
  have hswap : after.document.replace c.root root = (.ok (), (after.document.replace c.root root).2) :=
    Prod.ext hreplace rfl
  rw [hrender]
  dsimp only [addNotes, record]
  rw [hswap]

/-- A render whose result cannot be put in the place of the root frees that result. -/
theorem swapIn_refused {root : NodeId} {after : RenderState Listener} {e : DocumentError}
    (hc : p.component? id = some c)
    (hrender : (c.template.render (surroundings id c)).outcome ⟨p.document, [], []⟩ = (.ok root, after))
    (hreplace : (after.document.replace c.root root).1 = .error e) :
    p.swapIn id =
      (.error (.document e),
        { { p with document := after.document }.addNotes (c.computedAmong after.asked) with
          document := ((after.document.replace c.root root).2.remove root).2 }) := by
  rw [Render.outcome, surroundings] at hrender
  rw [swapIn, hc]
  dsimp only
  have hswap : after.document.replace c.root root = (.error e, (after.document.replace c.root root).2) :=
    Prod.ext hreplace rfl
  rw [hrender]
  dsimp only [addNotes, record]
  rw [hswap]

/-- A component is rendered. If that goes well, it is served by nodes that no other tree has; if not, the
document reads as before. -/
theorem Upkept.swapIn (h : Upkept p last mounted) (halive : p.isAlive id = true) :
    (∀ other, (p.swapIn id).2.isAlive other = p.isAlive other) ∧
      ∃ mounted', Upkept (p.swapIn id).2 (Function.update last id (p.swapIn id).1.isOk) mounted' := by
  obtain ⟨c, hc, hserved⟩ := h.serves halive
  have hwell : (⟨p.document, [], []⟩ : RenderState Listener).document.WellFormed := h.wellFormed
  have hagrees := c.template.render_agrees (surroundings id c) hwell
  generalize hrender : (c.template.render (surroundings id c)).outcome ⟨p.document, [], []⟩ = out at hagrees
  generalize hmeant : c.template.tree (surroundings id c).resolver = meant at hagrees
  cases hagrees with
  | @error e after hgrown =>
    rw [swapIn_error hc hrender]
    refine ⟨fun other => rfl, mounted, ?_⟩
    refine (h.failed id).step hgrown.wellFormed (fun hid => hid) (fun hid => ?_)
      fun {other c} _ hc hserved => ?_
    · exact (h.holds hid).mono fun n _ node hn => hgrown.kept hn
    · exact ⟨c, hc, hserved⟩
  | @ok root tree after hdone =>
    obtain ⟨u, hid, hgrown, hsnapshot⟩ := hdone
    obtain ⟨hok, hwell, hheld, hothers⟩ := hgrown.swap h.wellFormed (h.holds halive)
    rw [hserved.root, hid] at hok hwell hheld hothers
    rw [swapIn_ok hc hrender hok]
    have hfresh {other : ComponentId} (hother : p.isAlive other = true) {n : NodeId}
        (hn : n ∈ (mounted other).ids) : n ∉ u.ids := by
      obtain ⟨node, hnode⟩ := (h.holds hother).live n hn
      intro hmem
      exact hgrown.not_mem_ids hnode (Subtree.mem_idsList.mpr ⟨u, List.mem_singleton_self u, hmem⟩)
    refine ⟨fun other => rfl, Function.update mounted id u, ?_⟩
    refine h.install hwell hheld ((component?_setComponent hc _ id).trans (if_pos rfl))
      ⟨?_, hid, Or.inr (Or.inr (hmeant.trans (congrArg Except.ok hsnapshot.symm)))⟩
      (fun _ hother => hother) ?_ ?_ ?_
    · exact Component.Kin.restrained (c := c) ⟨rfl, rfl, rfl, rfl⟩ hserved.restrained
    · intro other d hne hd
      exact ((component?_setComponent hc _ other).trans (if_neg hne.symm)).trans hd
    · intro other hne hother
      apply hothers _ (h.holds hother)
      · intro hpath
        apply h.apart halive hother hne.symm
        rw [hserved.root]
        exact ((h.holds hother).mem_ids_iff h.wellFormed.linked _).mpr hpath
      · intro hpath
        apply h.apart hother halive hne
        rw [← hserved.root] at hpath
        exact ((h.holds halive).mem_ids_iff h.wellFormed.linked _).mpr hpath
    · intro other hne hother
      exact ⟨fun hmem => hfresh hother hmem u.id_mem_ids, hfresh hother (mounted other).id_mem_ids⟩

/-- A component is rendered and its hook runs. What is known of its last render is how that ended. -/
theorem Upkept.renderNow {result : Except Error Unit} (h : Upkept p last mounted) (halive : p.isAlive id = true)
    (hrun : renderNow cb id p = some (result, p')) :
    (∀ other, p'.isAlive other = p.isAlive other) ∧
      ∃ mounted', Upkept p' (Function.update last id result.isOk) mounted' := by
  obtain ⟨hsame, mounted', hkept⟩ := h.swapIn halive
  cases rendered_of_renderNow hrun with
  | failed hswap =>
    rw [hswap] at hsame hkept
    exact ⟨hsame, mounted', hkept⟩
  | unhooked hswap _ =>
    rw [hswap] at hsame hkept
    exact ⟨hsame, mounted', hkept⟩
  | @hooked q _ program _ hswap hhook hhooked =>
    rw [hswap] at hsame hkept
    obtain ⟨c, hc, hprogram⟩ := Option.bind_eq_some_iff.mp hhook
    have hrestrained := hkept.restrained ((hsame id).trans halive) c hc
    have hmodest := (hrestrained.hook hprogram).mono (writable_of_component? hc)
    have hcalm := calm_runProgram cb hmodest _ _ hhooked
    refine ⟨fun other => (hcalm.isAlive other).trans (hsame other), mounted', ?_⟩
    have hafter := hkept.undisturbed hcalm
    cases result with
    | ok u => exact hafter
    | error e =>
      have hfailed := hafter.failed id
      rwa [Function.update_idem] at hfailed

/-- Who is alive on a page: who runs or is held. -/
theorem isAlive_iff : p.isAlive id = true ↔ id ∈ p.running ∨ id ∈ p.handles.map Prod.snd := by
  simp [isAlive]

/-- A component is rendered while it is kept alive. The page on which that ends is upkept even before the
component ceases to run. -/
theorem Upkept.renderRunning {result : Except Error Unit}
    (h : Upkept { p with running := id :: p.running } last mounted)
    (hrun : whileRunning id (Page.renderNow cb id) p = some (result, p')) :
    ∃ q mounted', p' = { q with running := p.running } ∧
      Upkept q (Function.update last id result.isOk) mounted' ∧ q.isAlive id = true ∧
      ∀ other, p'.isAlive other = true → q.isAlive other = true := by
  obtain ⟨q, hnow, hp'⟩ := whileRunning_eq_some.mp hrun
  have halive : isAlive { p with running := id :: p.running } id = true :=
    isAlive_iff.mpr (Or.inl List.mem_cons_self)
  obtain ⟨hsame, mounted', hkept⟩ := h.renderNow halive hnow
  refine ⟨q, mounted', hp', hkept, (hsame id).trans halive, fun other hother => ?_⟩
  rw [hp'] at hother
  rcases isAlive_iff.mp hother with hrunning | hheld
  · rw [hsame]
    exact isAlive_iff.mpr (Or.inl (List.mem_cons_of_mem _ hrunning))
  · exact isAlive_iff.mpr (Or.inr hheld)

/-! ## Timers -/

/-- What is known of the last renders after a timer fired. -/
def Firing.enter (last : ComponentId → Bool) (firing : Firing) : ComponentId → Bool :=
  match firing.result with
  | some result => Function.update last firing.component result.isOk
  | none => last

/-- A timer fires: if its component is alive, it is rendered. -/
theorem Upkept.fire {firing : Firing} (h : Upkept p last mounted) (hrun : fire cb id p = some (firing, p')) :
    ∃ mounted', Upkept p' (firing.enter last) mounted' := by
  -- With the request taken, nothing is promised of the component until its render has ended.
  have htaken : Upkept (p.updateComponent id fun c => { c with scheduler := c.scheduler.fired })
      (Function.update last id false) mounted := by
    refine h.updateComponent fun c hserved => ⟨?_, hserved.root, Or.inr (Or.inl rfl)⟩
    exact Component.Kin.restrained (c := c) ⟨rfl, rfl, rfl, rfl⟩ hserved.restrained
  rw [Page.fire, modify_bind, Run.look_bind] at hrun
  generalize (p.updateComponent id fun c => { c with scheduler := c.scheduler.fired }) = q at htaken hrun
  cases halive : q.isAlive id with
  | false =>
    rw [halive] at hrun
    cases hrun
    refine ⟨mounted, htaken.congr_last fun other hother => ?_⟩
    rw [Firing.enter, Function.update_of_ne]
    intro heq
    rw [heq, halive] at hother
    contradiction
  | true =>
    rw [halive, if_pos rfl] at hrun
    obtain ⟨result, q', hrender, hend⟩ := bind_eq_some.mp hrun
    have hrunning : Upkept { q with running := id :: q.running }
        (Function.update last id false) mounted := by
      refine htaken.fewer rfl rfl fun {other} hother => ?_
      rcases isAlive_iff.mp hother with hother | hheld
      · rcases List.mem_cons.mp hother with heq | hbefore
        · exact heq ▸ halive
        · exact isAlive_iff.mpr (Or.inl hbefore)
      · exact isAlive_iff.mpr (Or.inr hheld)
    obtain ⟨r, mounted', hq', hkept, _, hfewer⟩ := hrunning.renderRunning hrender
    have hafter : Upkept q' (Function.update last id result.isOk) mounted' := by
      rw [Function.update_idem] at hkept
      exact hkept.fewer (hq' ▸ rfl) (hq' ▸ rfl) (hfewer _)
    cases result with
    | ok u =>
      cases hend
      exact ⟨mounted', hafter⟩
    | error e =>
      cases hend
      refine ⟨mounted', hafter.undisturbed (.of_updateComponent fun c => ?_)⟩
      exact ⟨⟨rfl, rfl, rfl, rfl⟩, rfl, Or.inr ⟨rfl, rfl⟩⟩

/-- Pages that are upkept stay so whatever their clock is set to. -/
theorem Upkept.setClock (cb : Callbacks) (clock : Clock ComponentId)
    (h : ∃ mounted, Upkept p last mounted) : ∃ mounted, Upkept ((host cb).setClock clock p) last mounted := by
  obtain ⟨mounted, hkept⟩ := h
  exact ⟨mounted, hkept.undisturbed (.of_eq rfl rfl rfl rfl)⟩

/-- Pages that are upkept stay so when a timer fires. -/
theorem Upkept.hostFire {firing : Firing} (h : ∃ mounted, Upkept p last mounted)
    (hrun : (host cb).fire id p = some (firing, p')) :
    ∃ mounted', Upkept p' (firing.enter last) mounted' := by
  obtain ⟨mounted, hkept⟩ := h
  exact hkept.fire hrun

/-- Time moves forward, and the timers that are due fire. -/
theorem Upkept.advance {milliseconds : Nat} {firings : List Firing} (h : Upkept p last mounted)
    (hrun : advance cb milliseconds p = some (firings, p')) :
    ∃ mounted', Upkept p' (firings.foldl Firing.enter last) mounted' :=
  (host cb).advance_holds (P := fun p last => ∃ mounted, Upkept p last mounted)
    (Upkept.setClock cb) Upkept.hostFire ⟨mounted, h⟩ hrun

/-- Time moves until no timer is left. -/
theorem Upkept.settle {firings : List Firing} (h : Upkept p last mounted) (hrun : settle cb p = some (firings, p')) :
    ∃ mounted', Upkept p' (firings.foldl Firing.enter last) mounted' :=
  (host cb).settle_holds (P := fun p last => ∃ mounted, Upkept p last mounted)
    (Upkept.setClock cb) Upkept.hostFire ⟨mounted, h⟩ hrun

/-! ## Builds -/

/-- A place that neither lies in the tree of a component that is alive nor has one below it. -/
def Vacant (p : Page) (n : NodeId) : Prop :=
  ∀ {id c}, p.isAlive id = true → p.component? id = some c →
    ¬ p.document.Within n c.root ∧ ¬ p.document.Within c.root n

/-- A component that was not rendered yet, at a vacant place. -/
theorem Upkept.mount {c : Component} {t : Subtree} (h : Upkept p last mounted) (hc : c.Restrained)
    (hroot : t.id = c.root) (ht : p.document.Holds t) (hvacant : p.Vacant c.root) :
    Upkept { p with components := p.components ++ [c], running := p.components.length :: p.running }
      (Function.update last p.components.length false) (Function.update mounted p.components.length t) := by
  refine h.install h.wellFormed ht List.getElem?_concat_length ⟨hc, hroot, Or.inr (Or.inl rfl)⟩
    ?_ ?_ (fun _ hid => h.holds hid) ?_
  · intro id hne hid
    rcases isAlive_iff.mp hid with hrunning | hheld
    · exact isAlive_iff.mpr (Or.inl ((List.mem_cons.mp hrunning).resolve_left hne))
    · exact isAlive_iff.mpr (Or.inr hheld)
  · intro id d _ hd
    have hlt := (List.getElem?_eq_some_iff.mp hd).1
    exact (List.getElem?_append_left hlt).trans hd
  · intro id _ hid
    obtain ⟨d, hd, hserved⟩ := h.serves hid
    obtain ⟨hup, hdown⟩ := hvacant hid hd
    rw [← hroot, ← hserved.root] at hup hdown
    rw [(h.holds hid).mem_ids_iff h.wellFormed.linked, ht.mem_ids_iff h.wellFormed.linked]
    exact ⟨hup, hdown⟩

/-- A component is built, or there is none of its id. -/
theorem Upkept.build {name : String} {b : Blueprint} {result : Except Error ComponentId} (h : Upkept p last mounted)
    (hb : ∀ c, b.prepare p.document = .ok c → c.Restrained ∧ p.Vacant c.root)
    (hrun : build cb name b p = some (result, p')) :
    ∃ mounted', Upkept p' (Function.update last p.components.length result.isOk) mounted' := by
  have hrendering {c : Component} {rendered : Except Error Unit} {q : Page} (hprepare : b.prepare p.document = .ok c)
      (hrender : whileRunning p.components.length (Page.renderNow cb p.components.length)
        { p with components := p.components ++ [c] } = some (rendered, q)) :
      ∃ r mounted', q = { r with running := p.running } ∧
        Upkept r (Function.update last p.components.length rendered.isOk) mounted' ∧
        r.isAlive p.components.length = true ∧ ∀ id, q.isAlive id = true → r.isAlive id = true := by
    obtain ⟨hrestrained, hvacant⟩ := hb c hprepare
    obtain ⟨_, _, node, hnode⟩ := Blueprint.prepare_ok hprepare
    obtain ⟨t, hroot, ht⟩ := h.wellFormed.exists_holds hnode
    have hmount := h.mount hrestrained hroot ht hvacant
    obtain ⟨r, mounted', hq, hkept, hself, hfewer⟩ := Upkept.renderRunning hmount hrender
    rw [Function.update_idem] at hkept
    exact ⟨r, mounted', hq, hkept, hself, hfewer⟩
  cases built_of_build hrun with
  | unprepared _ =>
    refine ⟨mounted, h.congr_last fun id hid => Function.update_of_ne ?_ _ _⟩
    intro heq
    obtain ⟨c, hc, _⟩ := h.serves hid
    have hlt := (List.getElem?_eq_some_iff.mp hc).1
    exact Nat.ne_of_lt hlt heq
  | failed hprepare hrender =>
    obtain ⟨r, mounted', hq, hkept, _, hfewer⟩ := hrendering hprepare hrender
    exact ⟨mounted', hkept.fewer (hq ▸ rfl) (hq ▸ rfl) (hfewer _)⟩
  | done hprepare hrender =>
    obtain ⟨r, mounted', hq, hkept, hself, hfewer⟩ := hrendering hprepare hrender
    refine ⟨mounted', hkept.fewer (hq ▸ rfl) (hq ▸ rfl) fun {id} hid => ?_⟩
    rcases isAlive_iff.mp hid with hrunning | hheld
    · exact hfewer id (isAlive_iff.mpr (Or.inl hrunning))
    · obtain ⟨entry, hentry, hsame⟩ := List.mem_map.mp hheld
      rcases Dictionary.mem_put hentry with heq | hold
      · rw [← hsame, heq]
        exact hself
      · exact hfewer id (isAlive_iff.mpr (Or.inr (List.mem_map.mpr ⟨entry, hold, hsame⟩)))

end Page

end ReactiveTemplate
