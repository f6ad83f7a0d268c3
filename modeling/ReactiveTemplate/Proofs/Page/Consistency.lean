import ReactiveTemplate.Proofs.Document.Reachable
import ReactiveTemplate.Proofs.Page.Upkeep

/-!
# Pages show what their stores mean

A host builds components on a page, writes to them, evaluates, renders, dispatches events and moves time
forward, in any order. Whenever no render of a component is pending and its last one went well, the page
shows what a fresh render of the component's template would make of its store and computed fields.
-/

namespace ReactiveTemplate

open Json

namespace Page

/-- The host does something beside the components that stay alive: it leaves their records and the trees
at their roots alone. -/
structure Aside (p p' : Page) : Prop where
  wellFormed : p'.document.WellFormed
  alive : ∀ {id}, p'.isAlive id = true → p.isAlive id = true
  component : ∀ {id}, p'.isAlive id = true → p'.component? id = p.component? id
  tree : ∀ {id c t}, p'.isAlive id = true → p.component? id = some c → t.id = c.root →
    p.document.Holds t → p'.document.Holds t

/-- The pages that a host can arrive at by whole actions, with whose last render went well. Fields that are private and
read are never written, and components are mounted at vacant places. -/
inductive ReachedWithRenders : Page → (ComponentId → Bool) → Prop
  | start {d : Document Listener} (hd : d.Reachable) : ReachedWithRenders (ofDocument d) fun _ => false
  | build {p p' : Page} {last : ComponentId → Bool} {name : String} {b : Blueprint} {fuel : Nat}
      {result : Except Error ComponentId} (h : ReachedWithRenders p last)
      (hb : ∀ c, b.prepare p.document = .ok c → c.Restrained ∧ p.Vacant c.root)
      (hrun : build (callbacks fuel) name b p = some (result, p')) :
      ReachedWithRenders p' (Function.update last p.components.length result.isOk)
  | set {p : Page} {last : ComponentId → Bool} {id : ComponentId} {field : String} (h : ReachedWithRenders p last)
      (hw : p.Writable id field) (value : Value) : ReachedWithRenders (p.write id field value).2 last
  | evaluate {p : Page} {last : ComponentId → Bool} (h : ReachedWithRenders p last) (id : ComponentId)
      (source : String) : ReachedWithRenders (p.evaluate id source).2 last
  | render {p p' : Page} {last : ComponentId → Bool} {id : ComponentId} {fuel : Nat}
      {result : Except Error Unit} (h : ReachedWithRenders p last) (halive : p.isAlive id = true)
      (hrun : renderNow (callbacks fuel) id p = some (result, p')) :
      ReachedWithRenders p' (Function.update last id result.isOk)
  | dispatch {p p' : Page} {last : ComponentId → Bool} {target : NodeId} {event : String} {detail : Value}
      {fuel : Nat} {result : Except ListenerError Nat} (h : ReachedWithRenders p last)
      (hl : ∀ l ∈ p.document.listenersFor target event, p.Tolerates l)
      (hrun : dispatch (callbacks fuel) target event detail p = some (result, p')) : ReachedWithRenders p' last
  | advance {p p' : Page} {last : ComponentId → Bool} {milliseconds fuel : Nat} {firings : List Firing}
      (h : ReachedWithRenders p last)
      (hrun : advance (callbacks fuel) milliseconds p = some (firings, p')) :
      ReachedWithRenders p' (firings.foldl Firing.enter last)
  | settle {p p' : Page} {last : ComponentId → Bool} {fuel : Nat} {firings : List Firing}
      (h : ReachedWithRenders p last)
      (hrun : settle (callbacks fuel) p = some (firings, p')) :
      ReachedWithRenders p' (firings.foldl Firing.enter last)
  | aside {p p' : Page} {last : ComponentId → Bool} (h : ReachedWithRenders p last) (hp' : Aside p p') :
      ReachedWithRenders p' last

variable {p : Page} {last : ComponentId → Bool} {id : ComponentId}

/-- What the host does keeps a page up to date. -/
theorem ReachedWithRenders.upkept (h : ReachedWithRenders p last) : ∃ mounted, Upkept p last mounted := by
  induction h with
  | start hd =>
    refine ⟨fun _ => .text ⟨0, 0⟩ "", hd.wellFormed, fun hid => ?_, fun hid => ?_, fun hid => ?_⟩ <;>
      cases hid
  | build _ hb hrun ih =>
    obtain ⟨mounted, hkept⟩ := ih
    exact hkept.build hb hrun
  | set _ hw value ih =>
    obtain ⟨mounted, hkept⟩ := ih
    exact ⟨mounted, hkept.undisturbed (undisturbed_write hw value)⟩
  | evaluate _ id source ih =>
    obtain ⟨mounted, hkept⟩ := ih
    exact ⟨mounted, hkept.undisturbed (undisturbed_evaluate _ id source)⟩
  | render _ halive hrun ih =>
    obtain ⟨mounted, hkept⟩ := ih
    exact (hkept.renderNow halive hrun).2
  | dispatch _ hl hrun ih =>
    obtain ⟨mounted, hkept⟩ := ih
    have hrestrained := fun id (halive : isAlive _ id = true) => hkept.restrained halive
    exact ⟨mounted, hkept.undisturbed (calm_dispatch _ _ _ _ hrestrained hl _ _ hrun)⟩
  | advance _ hrun ih =>
    obtain ⟨mounted, hkept⟩ := ih
    exact hkept.advance hrun
  | settle _ hrun ih =>
    obtain ⟨mounted, hkept⟩ := ih
    exact hkept.settle hrun
  | aside _ hp' ih =>
    obtain ⟨mounted, hkept⟩ := ih
    refine ⟨mounted, hkept.step hp'.wellFormed hp'.alive (fun {id} hid => ?_)
      fun {id c} hid hc hserved => ?_⟩
    · obtain ⟨c, hc, hserved⟩ := hkept.serves (hp'.alive hid)
      exact hp'.tree hid hc hserved.root (hkept.holds (hp'.alive hid))
    · exact ⟨c, (hp'.component hid).trans hc, hserved⟩

/-- Whatever a host does with a page: if no render of a component is pending and its last one went well,
then rendering its template anew, in any well-formed document and with whatever listeners, gives the tree
that the page shows at its root. -/
theorem ReachedWithRenders.snapshot_root {c : Component} (h : ReachedWithRenders p last) (halive : p.isAlive id = true)
    (hc : p.component? id = some c) (hpending : c.scheduler.pending = false) (hlast : last id = true)
    {L : Type} (s : Surroundings L) (hs : s.resolver = c.resolver) (st : RenderState L)
    (hst : st.document.WellFormed) :
    ∃ root tree, ((c.template.render s).outcome st).1 = .ok root ∧
      ((c.template.render s).outcome st).2.document.snapshot? root = some tree ∧
      p.document.snapshot? c.root = some tree := by
  obtain ⟨mounted, hkept⟩ := h.upkept
  obtain ⟨c', hc', hserved⟩ := hkept.serves halive
  rw [hc] at hc'
  cases hc'
  have htree : c.template.tree s.resolver = .ok (mounted id).snapshot := by
    rw [hs]
    rcases hserved.current with hwaits | hfailed | htree
    · rw [hpending] at hwaits
      contradiction
    · rw [hlast] at hfailed
      contradiction
    · exact htree
  have hshown := (hkept.holds halive).subtree? hkept.wellFormed.linked
  have hagrees := c.template.render_agrees s hst
  generalize (c.template.render s).outcome st = out at hagrees ⊢
  rw [htree] at hagrees
  cases hagrees with
  | @ok root tree after hdone =>
    obtain ⟨u, hid, hgrown, hsnapshot⟩ := hdone
    have hmade := (hgrown.holds u (List.mem_singleton_self u)).subtree? hgrown.wellFormed.linked
    refine ⟨root, (mounted id).snapshot, rfl, ?_, ?_⟩
    · rw [Document.snapshot?, ← hid, hmade, Option.map_some, hsnapshot]
    · rw [Document.snapshot?, ← hserved.root, hshown, Option.map_some]

/-- A paragraph that greets whom its store names. -/
def greeting : Blueprint where
  mount := .node ⟨1, 0⟩
  name := none
  template := some "<p>Hello {{ whom }}</p>"
  data := .object [("whom", .string "you")]
  interval := 10
  methods := []
  computed := []
  hook := none

/-- A page with an element to mount the greeting at. -/
def unbuilt : Page :=
  ofDocument ((Document.empty.createElement "div").2.append ⟨0, 0⟩ ⟨1, 0⟩).2

/-- The page with the greeting. -/
def built : Except Error ComponentId × Page :=
  (build (callbacks 2) "greeting" greeting unbuilt).get (by decide +kernel)

/-- The page after a write to the greeting, once time has moved on. -/
def regreeted : List Firing × Page :=
  (advance (callbacks 2) 10 (built.2.write 0 "whom" (.string "all")).2).get (by decide +kernel)

/-- The greeting by then. -/
def greeted : Component :=
  (regreeted.2.component? 0).get (by decide +kernel)

/-- After a write and the render that it scheduled, the greeting shows what a fresh render would. -/
theorem ReachedWithRenders.snapshot_root_regreeted :
    ∃ last, ReachedWithRenders regreeted.2 last ∧ regreeted.2.isAlive 0 = true ∧
      regreeted.2.component? 0 = some greeted ∧ greeted.scheduler.pending = false ∧ last 0 = true ∧
      ∃ root tree,
        ((greeted.template.render (surroundings 0 greeted)).outcome ⟨.empty, [], []⟩).1 = .ok root ∧
        ((greeted.template.render (surroundings 0 greeted)).outcome
          ⟨.empty, [], []⟩).2.document.snapshot? root = some tree ∧
        regreeted.2.document.snapshot? greeted.root = some tree := by
  have hunbuilt : ReachedWithRenders unbuilt fun _ => false := by
    refine .start (.operation (.operation .empty (.createElement "div") id) (.append ⟨0, 0⟩ ⟨1, 0⟩) ?_)
    exact Document.Operation.not_entwines_append rfl (by decide)
  have hbuilt : ReachedWithRenders built.2 (Function.update (fun _ => false) 0 built.1.isOk) := by
    refine hunbuilt.build (fun c hc => ⟨?_, fun halive => ?_⟩) (Option.some_get _).symm
    · obtain ⟨hmethods, hhook, _⟩ := Blueprint.prepare_ok hc
      constructor
      · intro name body hbody
        rw [hmethods] at hbody
        cases hbody
      · intro program hprogram
        rw [hhook] at hprogram
        cases hprogram
    · cases halive
  have hpublic : built.2.Writable 0 "whom" := fun c _ hprivate => absurd hprivate (by decide)
  have hreached : ReachedWithRenders regreeted.2 _ := (hbuilt.set hpublic _).advance (Option.some_get _).symm
  have hc : regreeted.2.component? 0 = some greeted := (Option.some_get _).symm
  have halive : regreeted.2.isAlive 0 = true := by decide +kernel
  have hpending : greeted.scheduler.pending = false := by decide +kernel
  have hlast : regreeted.1.foldl Firing.enter
      (Function.update (fun _ => false) 0 built.1.isOk) 0 = true := by decide +kernel
  exact ⟨_, hreached, halive, hc, hpending, hlast,
    hreached.snapshot_root halive hc hpending hlast _ rfl ⟨.empty, [], []⟩
      Document.Reachable.empty.wellFormed⟩

example : regreeted.2.document.outerHtml ⟨0, 0⟩ = "<body><p>Hello all</p></body>" := by decide +kernel

end Page

end ReactiveTemplate
