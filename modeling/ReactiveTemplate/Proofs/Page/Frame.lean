import ReactiveTemplate.Proofs.Document.Reachable
import ReactiveTemplate.Proofs.Page.Rendering

/-!
# The frame of a component

A component is built at a node of a page. Whatever is done to it then, its root stands where that node stood,
what lies around is not touched, and no node is lost or left over. A render that fails changes nothing at all.
This holds as long as nobody else works on the document.
-/

namespace ReactiveTemplate

open Json

namespace Page

variable {p p' : Page} {id : ComponentId} {c : Component}

/-! ## Around a component -/

/-- How many renders of a component were completed. -/
def renders (p : Page) (id : ComponentId) : Option Nat :=
  (p.component? id).map Component.renderCount

/-- What holds after a component was put at a node `mount` of a document `d₀`: if renders of no other component
were completed since, its root stands where that node stood. -/
structure Framed (d₀ : Document Listener) (mount : NodeId) (id : ComponentId) (before p : Page) : Prop where
  gentle : ∀ {other c}, p.component? other = some c → c.Gentle
  carries : p.document.Carries Listener.Gentle
  counted : ∀ {other n}, p.renders other = some n → ∃ m, before.renders other = some m ∧ m ≤ n
  standing : (∀ other, other ≠ id → p.renders other = before.renders other) →
    ∃ c, p.component? id = some c ∧ d₀.Reseated p.document mount c.root

namespace Framed

variable {d₀ : Document Listener} {mount : NodeId} {before : Page} {other : ComponentId} {c' : Component}

/-- A step that completes no render keeps the frame. -/
theorem keep (h : Framed d₀ mount id before p)
    (htouched : ∀ other, Option.Rel Component.Touched (p.component? other) (p'.component? other))
    (hcarries : p'.document.Carries Listener.Gentle)
    (hdocument : p.document.WellFormed → p'.document.WellFormed ∧ p'.document.body = p.document.body ∧
      ∀ n, p'.document.node? n = p.document.node? n) :
    Framed d₀ mount id before p' := by
  have hrenders (other : ComponentId) : p'.renders other = p.renders other := by
    have htouched := htouched other
    rw [renders, renders]
    generalize p.component? other = record, p'.component? other = record' at htouched ⊢
    cases htouched with
    | none => rfl
    | some htouched => exact congrArg some htouched.renderCount
  refine ⟨fun {other c'} hc' => ?_, hcarries, fun {other n} hn => ?_, fun hsame => ?_⟩
  · have htouched := htouched other
    rw [hc'] at htouched
    generalize hc : p.component? other = record at htouched
    cases htouched with
    | some htouched => exact htouched.gentle (h.gentle hc)
  · rw [hrenders] at hn
    exact h.counted hn
  · obtain ⟨c, hc, hreseated⟩ := h.standing fun other hne => (hrenders other).symm.trans (hsame other hne)
    obtain ⟨hwell, hbody, hnodes⟩ := hdocument hreseated.wellFormed
    have htouched := htouched id
    rw [hc] at htouched
    generalize p'.component? id = record' at htouched
    cases htouched with
    | some htouched =>
      refine ⟨_, rfl, ?_⟩
      rw [htouched.root]
      exact hreseated.congr hwell hbody hnodes

/-- A render that is completed keeps the frame. -/
theorem complete (hd₀ : d₀.Linked) (h : Framed d₀ mount id before p) (hc : p.component? other = some c)
    (hcarries : p'.document.Carries Listener.Gentle) (hrun : p.swapIn other = (.ok (), p')) :
    Framed d₀ mount id before p' := by
  obtain ⟨root, hcomponents⟩ := components_of_ok hc hrun
  have hrecord (o : ComponentId) : p'.component? o =
      if other = o then some { c with root, renderCount := c.renderCount + 1 } else p.component? o := by
    rw [← component?_setComponent hc, component?, hcomponents, component?, setComponent]
  have hrenders (o : ComponentId) (hne : other ≠ o) : p'.renders o = p.renders o := by
    rw [renders, hrecord, if_neg hne, renders]
  have hcount : p'.renders other = some (c.renderCount + 1) := by
    rw [renders, hrecord, if_pos rfl, Option.map_some]
  have hbefore : p.renders other = some c.renderCount := by rw [renders, hc, Option.map_some]
  refine ⟨fun {o c'} hc' => ?_, hcarries, fun {o n} hn => ?_, fun hsame => ?_⟩
  · rw [hrecord] at hc'
    split at hc'
    · cases hc'
      exact Component.Kin.gentle (c := c) ⟨rfl, rfl, rfl, rfl⟩ (h.gentle hc)
    · exact h.gentle hc'
  · by_cases hne : other = o
    · subst hne
      rw [hcount] at hn
      cases hn
      obtain ⟨m, hm, hle⟩ := h.counted hbefore
      exact ⟨m, hm, Nat.le_succ_of_le hle⟩
    · rw [hrenders o hne] at hn
      exact h.counted hn
  · -- A render of another component would have been counted.
    have hself : other = id := by
      refine Classical.byContradiction fun hne => ?_
      obtain ⟨m, hm, hle⟩ := h.counted hbefore
      have hcounted := hsame other hne
      rw [hcount, hm] at hcounted
      exact absurd (Option.some.inj hcounted) (by omega)
    subst hself
    obtain ⟨c', hc', hreseated⟩ := h.standing fun o hne => by rw [← hrenders o (Ne.symm hne), hsame o hne]
    rw [hc] at hc'
    cases hc'
    obtain ⟨c', hc', hnext⟩ := reseated_swapIn hreseated.wellFormed hc hreseated.live hrun
    exact ⟨c', hc', hreseated.trans hd₀ hnext⟩

/-- The operations through which runs act on a page keep the frame. -/
theorem steady (hd₀ : d₀.Linked) : Steady (Framed d₀ mount id before) where
  gentle h hc := h.gentle hc
  carries h := h.carries
  aside {p p'} h hdocument hcomponents := by
    refine h.keep (fun other => Component.rel_of_eq .refl ?_) (hdocument ▸ h.carries) fun hwell => ?_
    · rw [component?, hcomponents, component?]
    · rw [hdocument]
      exact ⟨hwell, rfl, fun _ => rfl⟩
  touch {p o c c'} h hc htouched := by
    exact h.keep (rel_setComponent .refl hc htouched) h.carries fun hwell => ⟨hwell, rfl, fun _ => rfl⟩
  swapIn {p} other h := by
    cases hc : p.component? other with
    | none =>
      rw [swapIn, hc]
      exact h
    | some c =>
      generalize hrun : p.swapIn other = out
      obtain ⟨e | u, p'⟩ := out
      · refine h.keep (fun o => Component.rel_of_eq .refl ?_) (carries_swapIn h.carries hc (fun _ => trivial) hrun)
          fun hwell => swapIn_failed hwell hrun
        rw [component?, components_of_error hrun, component?]
      · exact h.complete hd₀ hc (carries_swapIn h.carries hc (fun _ => trivial) hrun) hrun

end Framed

/-! ## Runs -/

/-- The page with one more component. -/
def adding (p : Page) (c : Component) : Page :=
  { p with components := p.components ++ [c] }

/-- One more component changes nothing of what was counted. -/
theorem renders_adding {other : ComponentId} (hne : other ≠ p.components.length) (c : Component) :
    (p.adding c).renders other = p.renders other := by
  rw [renders, renders, component?, component?, adding, List.getElem?_append]
  split
  · rfl
  · next hlt =>
    have hge := Nat.le_of_not_lt hlt
    have hbeyond := Nat.lt_of_le_of_ne hge hne.symm
    rw [List.getElem?_eq_none hge, List.getElem?_eq_none (Nat.sub_pos_of_lt hbeyond)]

/-- A component that was not rendered yet is framed by its page. -/
theorem Framed.start (hwell : p.document.WellFormed) (hcarries : p.document.Carries Listener.Gentle)
    (hgentle : ∀ {other c}, p.component? other = some c → c.Gentle) (hc : c.Gentle)
    (hlive : ∃ node, p.document.node? c.root = some node) :
    Framed p.document c.root p.components.length (p.adding c) (p.adding c) where
  gentle {other d} hd := by
    rcases List.mem_append.mp (List.mem_of_getElem? hd) with hold | hlast
    · obtain ⟨other, hother⟩ := List.mem_iff_getElem?.mp hold
      exact hgentle hother
    · rwa [List.mem_singleton.mp hlast]
  carries := hcarries
  counted {other n} hn := ⟨n, hn, Nat.le_refl n⟩
  standing _ := ⟨c, List.getElem?_concat_length, .refl hwell hlive⟩

/-- A component that was built is framed by the page on which that was done. -/
theorem framed_build {cb : Callbacks} {name : String} {b : Blueprint} (hwell : p.document.WellFormed)
    (hcarries : p.document.Carries Listener.Gentle)
    (hgentle : ∀ {other c}, p.component? other = some c → c.Gentle) (hb : b.Gentle)
    (hkeep : ∀ {I}, Steady I → cb.Keep .gentle I) (hrun : build cb name b p = some (.ok id, p')) :
    ∃ c, b.prepare p.document = .ok c ∧ id = p.components.length ∧
      Framed p.document c.root id (p.adding c) p' := by
  cases built_of_build hrun with
  | @done c q hprepare hrender =>
    have hstart := Framed.start hwell hcarries hgentle (hb.of_prepare hprepare)
      (Blueprint.prepare_ok hprepare).2.2
    have hsteady : Steady (Framed p.document c.root p.components.length (p.adding c)) :=
      Framed.steady hwell.linked
    have hrendered := Leads.whileRunning hsteady.invariant hstart
      (fun r hr => leads_renderNow hsteady.invariant (hkeep hsteady) hr p.components.length) _ q hrender
    exact ⟨c, hprepare, rfl, hsteady.aside hrendered rfl rfl⟩

/-- After whatever a host did without working on the document by itself, the root of a component keeps the place
of the node at which it was built, unless other components were rendered. A render of it that fails before the
hook, wherever that happens, ends there and changes neither its record nor the document. -/
theorem ReachesGently.root_keeps_place {q : Page} {name : String} {b : Blueprint} {fuel : Nat}
    (hwell : p.document.WellFormed) (hcarries : p.document.Carries Listener.Gentle)
    (hgentle : ∀ {other c}, p.component? other = some c → c.Gentle) (hb : b.Gentle)
    (hbuild : build (callbacks fuel) name b p = some (.ok id, p')) (hreach : ReachesGently p' q)
    (halone : ∀ other, other ≠ id → q.renders other = p.renders other) :
    ∃ mount c, b.mount.resolve p.document = .ok mount ∧ q.component? id = some c ∧
      q.document.WellFormed ∧ p.document.InPlace q.document mount c.root ∧
      ∀ {r d e r'}, r.document.WellFormed → r.component? id = some d → r.swapIn id = (.error e, r') →
        (∀ cb, renderNow cb id r = some (.error e, r')) ∧ r'.component? id = some d ∧
          (∀ n, r'.document.node? n = r.document.node? n) ∧
          r'.document.subtree? d.root = r.document.subtree? d.root := by
  obtain ⟨c, hprepare, hid, hframed⟩ :=
    framed_build hwell hcarries hgentle hb (fun hI => hI.keep_callbacks fuel) hbuild
  have hresolve := Blueprint.resolve_of_prepare hprepare
  obtain ⟨hne, hattached⟩ := Mount.isAttached_of_resolve hresolve
  have hend := (Framed.steady hwell.linked).reachesGently hframed hreach
  obtain ⟨c', hc', hreseated⟩ := hend.standing fun other hother =>
    (halone other hother).trans (renders_adding (hid ▸ hother) c).symm
  exact ⟨c.root, c', hresolve, hc', hreseated.wellFormed, hreseated.inPlace hwell.linked hne hattached,
    renderNow_failed⟩

/-- A button that is shown until it is clicked. -/
def curtain : Blueprint where
  mount := .selector "div"
  name := none
  template := some "<button v-if='shown' @click='hide()'>{{ text }}</button>"
  data := .object [("shown", .bool true), ("text", .string "Open")]
  interval := 10
  methods := [("hide", fun _ => .set "shown" (.bool false) fun _ => .done)]
  computed := []
  hook := some (.get "shown" fun _ => .done)

/-- A document with an element to put the button at, below another one. -/
def platform : Document Listener :=
  let d := Document.Operation.apply .empty (.createElement "h1")
  let d := Document.Operation.apply d (.append ⟨0, 0⟩ ⟨1, 0⟩)
  let d := Document.Operation.apply d (.createElement "div")
  Document.Operation.apply d (.append ⟨0, 0⟩ ⟨2, 0⟩)

/-- Its page. -/
def stage : Page :=
  ofDocument platform

/-- Nothing listens on it. -/
theorem carries_stage {P : Listener → Prop} : stage.document.Carries P :=
  (((Document.Carries.empty.insert _).append _ _).insert _).append _ _

/-- The page with the button. -/
def staged : Except Error ComponentId × Page :=
  (build (callbacks 2) "curtain" curtain stage).get (by decide +kernel)

/-- The page after a click on the button. -/
def clicked : Reply × Page :=
  (step 3 (.dispatch (.rootOf "curtain") "click" .null) staged.2).get (by decide +kernel)

/-- The page once time has moved on, so that nothing is left for the template to show. -/
def darkened : Reply × Page :=
  (step 3 (.advance 10) clicked.2).get (by decide +kernel)

/-- The button was clicked and its last render failed, because nothing is to be shown; its root stands where
the element was. A further render fails as well and leaves it there. -/
theorem ReachesGently.root_keeps_place_darkened :
    stage.document.WellFormed ∧ stage.document.Carries Listener.Gentle ∧
      (∀ {other c}, stage.component? other = some c → c.Gentle) ∧ curtain.Gentle ∧
      build (callbacks 2) "curtain" curtain stage = some (.ok 0, staged.2) ∧
      ReachesGently staged.2 darkened.2 ∧
      (∀ other, other ≠ 0 → darkened.2.renders other = stage.renders other) ∧
      ∃ mount c, curtain.mount.resolve stage.document = .ok mount ∧ darkened.2.component? 0 = some c ∧
        darkened.2.document.WellFormed ∧ stage.document.InPlace darkened.2.document mount c.root ∧
        ∃ e p', darkened.2.swapIn 0 = (.error e, p') ∧
          (∀ cb, renderNow cb 0 darkened.2 = some (.error e, p')) ∧ p'.component? 0 = some c ∧
            (∀ n, p'.document.node? n = darkened.2.document.node? n) ∧
            p'.document.subtree? c.root = darkened.2.document.subtree? c.root := by
  have hwell : stage.document.WellFormed := by
    change platform.WellFormed
    refine Document.Reachable.wellFormed ?_
    refine .operation (.operation (.operation (.operation .empty (.createElement "h1") id)
      (.append ⟨0, 0⟩ ⟨1, 0⟩) ?_) (.createElement "div") id) (.append ⟨0, 0⟩ ⟨2, 0⟩) ?_
    · exact Document.Operation.not_entwines_append rfl (by decide)
    · exact Document.Operation.not_entwines_append rfl (by decide)
  have hgentle : ∀ {other c}, stage.component? other = some c → c.Gentle := nofun
  have hb : curtain.Gentle := by
    refine ⟨fun {name body} hbody arguments => ?_, fun {program} hprogram => ?_⟩
    · rw [curtain, Dictionary.lookup_cons] at hbody
      split at hbody
      · cases hbody
        exact fun _ => trivial
      · cases hbody
    · cases hprogram
      exact fun _ => trivial
  have hid : staged.1 = .ok 0 := by decide +kernel
  have hbuild : build (callbacks 2) "curtain" curtain stage = some (.ok 0, staged.2) :=
    eq_some_of_fst (Option.some_get _).symm hid
  have hclick : Page.step 3 (.dispatch (.rootOf "curtain") "click" .null) staged.2 = some clicked :=
    (Option.some_get _).symm
  have htime : Page.step 3 (.advance 10) clicked.2 = some darkened := (Option.some_get _).symm
  have hreach : ReachesGently staged.2 darkened.2 :=
    .step (.step (.refl _) (by trivial) (eq_some_of_fst hclick rfl)) (by trivial) (eq_some_of_fst htime rfl)
  have halone : ∀ other, other ≠ 0 → darkened.2.renders other = stage.renders other := by
    intro other hne
    have hlength : darkened.2.components.length = 1 := by decide +kernel
    have hbeyond : darkened.2.component? other = none :=
      List.getElem?_eq_none (hlength ▸ Nat.pos_of_ne_zero hne)
    rw [renders, hbeyond]
    rfl
  obtain ⟨mount, c, hmount, hc, hafter, hplace, hfailed⟩ :=
    hreach.root_keeps_place hwell carries_stage hgentle hb hbuild halone
  refine ⟨hwell, carries_stage, hgentle, hb, hbuild, hreach, halone, mount, c, hmount, hc, hafter, hplace, ?_⟩
  have hfails : (darkened.2.swapIn 0).1.isOk = false := by decide +kernel
  generalize hrun : darkened.2.swapIn 0 = out at hfails ⊢
  obtain ⟨e | u, p'⟩ := out
  · exact ⟨e, p', rfl, hfailed hafter hc hrun⟩
  · cases hfails

end Page

end ReactiveTemplate
