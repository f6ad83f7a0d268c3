import ReactiveTemplate.Proofs.Page.Frame

/-!
# Components that could not be built

A component can fail to be built at any stage: where it is mounted, by its data, its template or its actions,
in its first render, and in the hook that runs after it. Up to the hook nothing is left behind. A render that
was completed is not undone when the hook fails: the component is forgotten, but what it showed stays.
-/

namespace ReactiveTemplate

namespace Page

variable {p p' : Page} {id : ComponentId} {cb : Callbacks} {name : String} {b : Blueprint} {c : Component} {e : Error}

/-- A render that answers with an error left the document as it was, unless it was completed and the hook
failed after it. -/
theorem renderNow_error (hwell : p.document.WellFormed) (hc : p.component? id = some c)
    (hlive : ∃ node, p.document.node? c.root = some node) (hrun : renderNow cb id p = some (.error e, p')) :
    p.document.Unaltered p'.document ∨
      ∃ hook c' q, c.hook = some hook ∧ q.component? id = some c' ∧ c'.renderCount = c.renderCount + 1 ∧
        p.document.Reseated q.document c.root c'.root ∧ runProgram cb id hook q = some (.error e, p') := by
  cases rendered_of_renderNow hrun with
  | failed hswap =>
    obtain ⟨hwell', hbody, hnodes⟩ := swapIn_failed hwell hswap
    exact Or.inl (hwell.unaltered hwell' hbody hnodes)
  | @hooked q _ hook _ hswap hhook hfailed =>
    obtain ⟨root, hcomponents⟩ := components_of_ok hc hswap
    have hq : q.component? id = some { c with root, renderCount := c.renderCount + 1 } := by
      rw [component?, hcomponents, List.getElem?_set_self (List.getElem?_eq_some_iff.mp hc).1]
    obtain ⟨c', hc', hreseated⟩ := reseated_swapIn hwell hc hlive hswap
    rw [hq, Option.some.injEq] at hc'
    subst hc'
    rw [hq, Option.bind_some] at hhook
    exact Or.inr ⟨hook, _, q, hhook, hq, rfl, hreseated, hfailed⟩

/-- A component that could not be built left the document as it was, unless its first render was completed
and its hook failed. Then the hook failed with this error, and what it left of the document is all that is
different from the document that the render made: there the root of the component stands in the place of the
node at which it was to be mounted, what lies around is as it was, and no other node is live. -/
theorem build_failed (hwell : p.document.WellFormed) (hrun : build cb name b p = some (.error e, p')) :
    p.document.Unaltered p'.document ∨
      ∃ mount hook c q q', b.mount.resolve p.document = .ok mount ∧ b.hook = some hook ∧
        q.component? p.components.length = some c ∧ c.renderCount = 1 ∧ q.document.WellFormed ∧
        p.document.InPlace q.document mount c.root ∧
        runProgram cb p.components.length hook q = some (.error e, q') ∧ p'.document = q'.document ∧
        (q'.document = q.document → p.document.InPlace p'.document mount c.root) := by
  cases built_of_build hrun with
  | unprepared _ => exact Or.inl (hwell.unaltered hwell rfl fun _ => rfl)
  | @failed c _ _ hprepare hrender =>
    obtain ⟨q', hnow, rfl⟩ := whileRunning_eq_some.mp hrender
    have hfirst : c.renderCount = 0 := by
      obtain ⟨_, _, _, _, _, _, _, rfl⟩ := Blueprint.exists_of_prepare hprepare
      rfl
    obtain ⟨_, hfromHook, hlive⟩ := Blueprint.prepare_ok hprepare
    have hresolve : b.mount.resolve p.document = .ok c.root := Blueprint.resolve_of_prepare hprepare
    obtain ⟨hne, hattached⟩ := Mount.isAttached_of_resolve hresolve
    -- The component is on the page and running, but nobody has worked on the document yet.
    rcases renderNow_error (p := { p.adding c with running := p.components.length :: p.running }) hwell
      List.getElem?_concat_length hlive hnow with hsame | ⟨hook, c', q, hhook, hc', hcount, hreseated, hfailed⟩
    · exact Or.inl hsame
    · have hplace : p.document.InPlace q.document c.root c'.root := hreseated.inPlace hwell.linked hne hattached
      refine Or.inr ⟨c.root, hook, c', q, q', hresolve, hfromHook ▸ hhook, hc', by rw [hcount, hfirst],
        hreseated.wellFormed, hplace, hfailed, rfl, fun hkept => ?_⟩
      change p.document.InPlace q'.document c.root c'.root
      rwa [hkept]

/-- A notice with a hook that always fails. -/
def vetoed : Blueprint where
  mount := .selector "div"
  name := none
  template := some "<p>x</p>"
  data := .object []
  interval := 10
  methods := []
  computed := []
  hook := some (.fail (.resolution ⟨.method, "veto"⟩))

/-- A page with an element to put the notice at. -/
def podium : Page :=
  let d := Document.Operation.apply .empty (.createElement "div")
  ofDocument (Document.Operation.apply d (.append ⟨0, 0⟩ ⟨1, 0⟩))

/-- What comes of building the notice. -/
def rejected : Except Error ComponentId × Page :=
  (build (callbacks 2) "notice" vetoed podium).get (by decide +kernel)

/-- The notice could not be built, but it stands in the place of the element. -/
theorem build_failed_rejected :
    podium.document.WellFormed ∧
      build (callbacks 2) "notice" vetoed podium = some (.error (.resolution ⟨.method, "veto"⟩), rejected.2) ∧
      ∃ root, podium.document.InPlace rejected.2.document ⟨1, 0⟩ root := by
  have hwell : podium.document.WellFormed := by
    refine Document.Reachable.wellFormed
      (.operation (.operation .empty (.createElement "div") id) (.append ⟨0, 0⟩ ⟨1, 0⟩) ?_)
    exact Document.Operation.not_entwines_append rfl (by decide)
  have herror : rejected.1 = .error (.resolution ⟨.method, "veto"⟩) := by decide +kernel
  have hbuild : build (callbacks 2) "notice" vetoed podium =
      some (.error (.resolution ⟨.method, "veto"⟩), rejected.2) :=
    eq_some_of_fst (Option.some_get _).symm herror
  refine ⟨hwell, hbuild, ?_⟩
  rcases build_failed hwell hbuild with
    hsame | ⟨mount, hook, c, q, q', hmount, hhook, _, _, _, _, hfailed, _, hplace⟩
  · have hgone : rejected.2.document.contains ⟨1, 0⟩ = false := by decide +kernel
    rw [Document.contains, hsame.nodes] at hgone
    cases hgone
  · cases hhook
    cases hfailed
    have hresolved : vetoed.mount.resolve podium.document = .ok ⟨1, 0⟩ := by decide +kernel
    rw [hresolved] at hmount
    cases hmount
    exact ⟨_, hplace rfl⟩

/-- The hook of the notice does nothing but fail, and yet the element at which the notice was to be mounted is
no longer live when the build has failed. -/
theorem build_vetoed_replaces_mount :
    (build (callbacks 2) "notice" vetoed podium).map (·.1) = some (.error (.resolution ⟨.method, "veto"⟩)) ∧
      vetoed.hook = some (.fail (.resolution ⟨.method, "veto"⟩)) ∧ podium.document.contains ⟨1, 0⟩ = true ∧
      (build (callbacks 2) "notice" vetoed podium).map (·.2.document.contains ⟨1, 0⟩) = some false := by
  refine ⟨?_, rfl, ?_, ?_⟩ <;> decide +kernel

end Page

end ReactiveTemplate
