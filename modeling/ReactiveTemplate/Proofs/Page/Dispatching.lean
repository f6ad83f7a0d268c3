import ReactiveTemplate.Proofs.Page.Acting
import ReactiveTemplate.Proofs.Page.Origins

/-!
# Handlers, from the render to the dispatch

What a call passes on was settled by the render that made the node; what an assignment evaluates is settled when the
event comes. Here both ends are put together.
-/

namespace ReactiveTemplate.Page

open Json

variable {d : Document Listener} {q : Page} {id : ComponentId}

/-- Every handler of a live node was bound in the render that made the node, with the arguments of its calls
evaluated there, whatever was done to the page since without putting a node below itself. Whenever it runs on a
component that is alive and whose methods only read and write, it comes to an end. Its actions run in order, up to the
first that fails, each on the page that the actions before it have left: values to be assigned are evaluated without
any scope, and calls get the arguments that were bound, with the event in place of those that stand for it. At every
moment and at the end the document is what it was, and so are the root and the number of renders. The store is the old
one with everything written to it in order, up to the failure. A render is pending exactly if one was before, or if the
value of a public field was changed. Whole runs lead to such pages by `Resumes.build`, `Resumes.step` and
`Resumes.dispatch`. -/
theorem Ensues.dispatches (hq : (ofDocument d).Ensues False q)
    (hstart : d = .empty ∨ ∃ source, Document.load source = .ok d) {n : NodeId} {node : Node Listener} {event : String}
    {handler : Handler} (hnode : q.document.node? n = some node)
    (hlistener : (event, .bound id handler) ∈ node.listeners) :
    Bound (ofDocument d) q id n event handler ∧
    ∀ {r : Page} {c : Component}, r.component? id = some c → r.isAlive id = true → c.Modest →
      ∀ cb occurrence, ∃ result moments r',
        runHandler cb id handler occurrence r = some (result.mapError .engine, { r' with running := r.running }) ∧
        ActsAll id occurrence { r with running := id :: r.running } handler.actions result moments r' ∧
        (∀ s : Page, s = r' ∨ (∃ m ∈ moments, s = m.page) →
          s.document = r.document ∧
            ∃ c', s.component? id = some c' ∧ c'.root = c.root ∧ c'.renderCount = c.renderCount) ∧
        ∃ c', r'.component? id = some c' ∧ c'.store = moments.foldl Moment.onto c.store ∧
          (c'.scheduler.pending = true ↔ c.scheduler.pending = true ∨ ∃ m ∈ moments, m.Alters id) := by
  refine ⟨?_, fun {r c} hc halive hmodest cb occurrence => ?_⟩
  · have hwell : d.WellFormed := by
      rcases hstart with rfl | ⟨source, hload⟩
      · exact Document.Reachable.empty.wellFormed
      · exact (Document.Reachable.load hload).wellFormed
    have hbare : d.Carries Listener.Scripted := by
      rcases hstart with rfl | ⟨source, hload⟩
      · exact .empty
      · exact .of_load hload
    exact hq.bound (.ofDocument hwell) hbare hnode hlistener
  · obtain ⟨result, moments, r', hrun, hall⟩ := exists_runHandler cb occurrence hc hmodest halive handler
    have hpassage := hall.passage
    have hsame {s : Page} (hs : Still id { r with running := id :: r.running } s) : s.document = r.document ∧
        ∃ c', s.component? id = some c' ∧ c'.root = c.root ∧ c'.renderCount = c.renderCount := by
      obtain ⟨c', hc', htouched⟩ := hs.record hc
      exact ⟨hs.document, c', hc', htouched.root, htouched.renderCount⟩
    obtain ⟨c', hc', _⟩ := hpassage.still.record hc
    refine ⟨result, moments, r', hrun, hall, fun s hs => ?_, c', hc', hpassage.store hc hc', hpassage.pending hc hc'⟩
    rcases hs with rfl | ⟨m, hm, rfl⟩
    · exact hsame hpassage.still
    · exact hsame (hpassage.meanwhile m hm)

/-- A list of items, of which each is picked by a click. The last action fails, because nothing is called `gone`. -/
def tally : Blueprint where
  mount := .selector "div"
  name := none
  template := some "<ul><li v-for='x in xs' @click='total = total + 1; pick(x, $event); total = gone'>{{ x }}</li></ul>"
  data := .object [("xs", .array [.string "a"]), ("total", .ofNat 0), ("picked", .null), ("_last", .null)]
  interval := 10
  methods := [("pick", fun arguments => .set "picked" (arguments.head?.getD .null) fun _ =>
    .set "_last" (arguments.getLast?.getD .null) fun _ => .done)]
  computed := []
  hook := none

/-- The page with the list. -/
def listed : Except Error ComponentId × Page :=
  (build (callbacks 2) "tally" tally stage).get (by decide +kernel)

/-- The page after another item was written in the place of the one that is shown. -/
def outdated : Reply × Page :=
  (step 3 (.component "tally" none (.set "xs" (.array [.string "b"]))) listed.2).get (by decide +kernel)

/-- The list was built and written to by runs that put no node below itself. Its methods only write. -/
theorem resumes_outdated :
    (ofDocument .empty).Resumes False outdated.2 ∧ ∃ c, outdated.2.component? 0 = some c ∧ c.Modest := by
  have hid : listed.1 = .ok 0 := by decide +kernel
  have hbuild : build (callbacks 2) "tally" tally stage = some (.ok 0, listed.2) :=
    eq_some_of_fst (Option.some_get _).symm hid
  have hwrite : Page.step 3 (.component "tally" none (.set "xs" (.array [.string "b"]))) listed.2 = some outdated :=
    (Option.some_get _).symm
  have hloose : ¬ Step.Entwines listed.2 (.component "tally" none (.set "xs" (.array [.string "b"]))) := not_false
  have hstage : (ofDocument .empty).Resumes False stage := ⟨ensues_stage, carries_stage⟩
  have hend : listed.2.Ensues True outdated.2 :=
    (Ensues.refl.resumes.step (Or.inl trivial) (eq_some_of_fst hwrite rfl)).ensues
  obtain ⟨c, c', hprepare, hc', hbuilt⟩ := exists_lasts_of_build hbuild
  obtain ⟨c'', hc'', hlasts⟩ := hend.lasts hc'
  refine ⟨(hstage.build hbuild).step (Or.inr hloose) (eq_some_of_fst hwrite rfl), c'', hc'', ?_⟩
  refine (hbuilt.trans hlasts).toKin.modest fun {name body} hbody arguments => ?_
  rw [(Blueprint.prepare_ok hprepare).1, tally, Dictionary.lookup_cons] at hbody
  split at hbody
  · cases hbody
    exact ⟨trivial, fun _ => ⟨trivial, fun _ => trivial⟩⟩
  · cases hbody

/-- The item that is shown is picked by a click, though the list holds another one by then; the event is passed on
with it. The assignment before that has counted, and the one after it fails. -/
theorem Ensues.dispatches_outdated :
    (ofDocument .empty).Ensues False outdated.2 ∧ outdated.2.isAlive 0 = true ∧
      ∃ node handler c, outdated.2.document.node? ⟨4, 0⟩ = some node ∧ ("click", .bound 0 handler) ∈ node.listeners ∧
        outdated.2.component? 0 = some c ∧ c.Modest ∧
        Bound (ofDocument .empty) outdated.2 0 ⟨4, 0⟩ "click" handler ∧
        ∃ moments r',
          ActsAll 0 ⟨"click", .string "left", ⟨4, 0⟩⟩ { outdated.2 with running := 0 :: outdated.2.running }
            handler.actions (.error (.resolution ⟨.variable, "gone"⟩)) moments r' ∧
          r'.document = outdated.2.document ∧
          (["picked", "_last", "total"].map fun field => (r'.field? 0 field).map Value.compact) =
            [some "\"a\"", some "\x7b\"type\":\"click\",\"detail\":\"left\"\x7d", some "1"] := by
  obtain ⟨hresumes, c, hc, hmodest⟩ := resumes_outdated
  have hq : (ofDocument .empty).Ensues False outdated.2 := hresumes.ensues
  have halive : outdated.2.isAlive 0 = true := by decide +kernel
  have hclick : ((outdated.2.document.node? ⟨4, 0⟩).bind fun node => node.listeners.head?.bind fun entry =>
      match entry.2 with
      | .scripted _ _ _ => none
      | .bound id handler =>
        (runHandler (callbacks 2) id handler ⟨"click", .string "left", ⟨4, 0⟩⟩ outdated.2).map fun out =>
          (entry.1, id, out.1,
            ["picked", "_last", "total"].map fun field => (out.2.field? 0 field).map Value.compact)) =
        some ("click", 0, .error (.engine (.resolution ⟨.variable, "gone"⟩)),
          [some "\"a\"", some "\x7b\"type\":\"click\",\"detail\":\"left\"\x7d", some "1"]) := by
    decide +kernel
  obtain ⟨node, hnode, hfirst⟩ := Option.bind_eq_some_iff.mp hclick
  obtain ⟨⟨event, listener⟩, hentry, hrun⟩ := Option.bind_eq_some_iff.mp hfirst
  cases listener with
  | scripted label failure steps => cases hrun
  | bound id handler =>
    obtain ⟨⟨outcome, after⟩, hrun, hsame⟩ := Option.map_eq_some_iff.mp hrun
    have hlistener := List.mem_of_mem_head? hentry
    obtain ⟨rfl, rfl, rfl, hfields⟩ := by simpa only [Prod.mk.injEq] using hsame
    obtain ⟨hbound, hdispatch⟩ := hq.dispatches (Or.inl rfl) hnode hlistener
    obtain ⟨result, moments, r', hrun', hall, hquiet, _⟩ :=
      hdispatch hc halive hmodest (callbacks 2) ⟨"click", .string "left", ⟨4, 0⟩⟩
    obtain ⟨hresult, hafter⟩ := Prod.mk.inj (Option.some.inj (hrun'.symm.trans hrun))
    subst hafter
    have hkept (s : Page) (running : List ComponentId) (field : String) :
        ({ s with running } : Page).field? 0 field = s.field? 0 field := rfl
    simp only [hkept] at hfields
    cases result with
    | ok u => cases hresult
    | error e =>
      cases hresult
      exact ⟨hq, halive, node, handler, c, hnode, hlistener, hc, hmodest, hbound, moments, r', hall,
        (hquiet r' (Or.inl rfl)).1, hfields⟩

end ReactiveTemplate.Page
