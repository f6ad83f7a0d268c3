import ReactiveTemplate.Proofs.Expression.Parsing
import ReactiveTemplate.Proofs.Page.Frame
import ReactiveTemplate.Proofs.Page.Moments

/-!
# What the check at the build is good for

The actions of a template are checked once, when its component is built. They run later, from handlers that were
bound by renders of other data, also in branches and rounds that the first render did not show. But every handler
is made of actions of the template, no field and no method ever goes, and so each action finds what it names,
whenever it runs. What is left to fail is the evaluation of a value, and a method by itself.
-/

namespace ReactiveTemplate

open Json

/-! ### Components -/

namespace Component

variable {c c' c'' : Component}

/-- Two records of one component: what it was built from is the same, and the names of its fields are. -/
structure Lasts (c c' : Component) : Prop extends c.Kin c' where
  names : Dictionary.names c'.store.fields = Dictionary.names c.store.fields

/-- A record and itself. -/
theorem Lasts.refl (c : Component) : c.Lasts c :=
  ⟨.refl c, rfl⟩

/-- Records of records of one component. -/
theorem Lasts.trans (h : c.Lasts c') (h' : c'.Lasts c'') : c.Lasts c'' :=
  ⟨h.toKin.trans h'.toKin, h'.names.trans h.names⟩

/-- No field comes or goes by a write. -/
theorem lasts_write (c : Component) (field : String) (value : Value) : c.Lasts (c.write field value).2.2 := by
  have hput {old : Value} (hold : c.store.find? field = some old) :
      Dictionary.names (Dictionary.put field value c.store.fields) = Dictionary.names c.store.fields :=
    Dictionary.names_put (Dictionary.isSome_lookup_iff.mp (Option.isSome_of_eq_some hold)) value
  rw [write, Store.write?]
  cases hold : c.store.find? field with
  | none => exact .refl c
  | some old =>
    rw [Option.map_some]
    cases Expression.strictEqual old value with
    | true => exact .refl c
    | false =>
      cases Store.isPrivate field with
      | true => exact ⟨⟨rfl, rfl, rfl, rfl⟩, hput hold⟩
      | false => exact ⟨⟨rfl, rfl, rfl, rfl⟩, hput hold⟩

/-- A component has what an action names: the field that is assigned to, or the method that is called. -/
def Covers {ε α : Type} (c : Component) : Action ε α → Prop
  | .assign target _ => target ∈ Dictionary.names c.store.fields
  | .invoke method _ => ∃ body, c.methods.lookup method = some body

/-- What a component has, it keeps. -/
theorem Lasts.covers {ε α : Type} (h : c.Lasts c') {action : Action ε α} (hcovers : c.Covers action) :
    c'.Covers action := by
  cases action with
  | assign target e =>
    change target ∈ Dictionary.names c'.store.fields
    rw [h.names]
    exact hcovers
  | invoke method arguments =>
    change ∃ body, c'.methods.lookup method = some body
    rw [h.methods]
    exact hcovers

/-- Binding the arguments of an action does not change what it names. -/
theorem Covers.of_boundIn {resolver : Resolver} {scope : Scope} {action : Action Expression Expression}
    {bound : Action Expression Value} (h : c.Covers action) (hbound : action.boundIn resolver scope = .ok bound) :
    c.Covers bound := by
  cases action with
  | assign target e =>
    cases hbound
    exact h
  | invoke method arguments =>
    obtain ⟨values, _, hbound⟩ := ok_of_bind hbound
    cases hbound
    exact h

/-- A component has what the actions of a handler name, if it has what those of the template name. -/
theorem covers_of_from {resolver : Resolver} {actions : List (Action Expression Expression)} {handler : Handler}
    (h : ∀ action ∈ actions, c.Covers action) (hfrom : handler.From resolver actions) :
    ∀ bound ∈ handler.actions, c.Covers bound := by
  intro bound hbound
  obtain ⟨action, haction, scope, hscope⟩ := hfrom bound hbound
  exact (h action haction).of_boundIn hscope

end Component

/-- A component that could be prepared has the fields of its data, and what the actions of its template name. -/
theorem Blueprint.covers_of_prepare {L : Type} {b : Blueprint} {d : Document L} {c : Component}
    (h : b.prepare d = .ok c) :
    Store.ofValue? b.data = some c.store ∧ ∀ action ∈ c.template.actions, c.Covers action := by
  obtain ⟨_, store, template, _, _, hdata, hchecked, rfl⟩ := exists_of_prepare h
  refine ⟨hdata, fun action haction => ?_⟩
  have hcheck := ok_of_forM hchecked haction
  cases action with
  | assign target e =>
    rw [check] at hcheck
    split at hcheck
    · next hhas => exact Dictionary.isSome_lookup_iff.mp hhas
    · cases hcheck
  | invoke method arguments =>
    rw [check] at hcheck
    split at hcheck
    · next hhas =>
      rw [Dictionary.has_eq_isSome_lookup] at hhas
      exact Option.isSome_iff_exists.mp hhas
    · cases hcheck

namespace Page

variable {p p' q r : Page} {id : ComponentId} {cb : Callbacks} {fuel : Nat}

/-- Components last from one page to another. -/
theorem exists_lasts_of_rel (hrel : Option.Rel Component.Lasts (p.component? id) (p'.component? id)) {c : Component}
    (hc : p.component? id = some c) : ∃ c', p'.component? id = some c' ∧ c.Lasts c' := by
  rw [hc] at hrel
  generalize p'.component? id = record at hrel
  cases hrel with
  | some hlasts => exact ⟨_, rfl, hlasts⟩

/-- The components of a page with one more. -/
theorem component?_concat {c : Component} (hc : p.component? id = some c) (last : Component) :
    ({ p with components := p.components ++ [last] } : Page).component? id = some c := by
  rw [component?, List.getElem?_append_left (List.getElem?_eq_some_iff.mp hc).1]
  exact hc

/-- Components last. -/
theorem Ensues.lasts {entwines : Prop} (h : p.Ensues entwines q) {c : Component} (hc : p.component? id = some c) :
    ∃ c', q.component? id = some c' ∧ c.Lasts c' := by
  have hnext {q r : Page} (ih : ∃ c', q.component? id = some c' ∧ c.Lasts c')
      (hrel : Option.Rel Component.Lasts (q.component? id) (r.component? id)) :
      ∃ c', r.component? id = some c' ∧ c.Lasts c' := by
    obtain ⟨c', hc', hlasts⟩ := ih
    obtain ⟨c'', hc'', hmore⟩ := exists_lasts_of_rel hrel hc'
    exact ⟨c'', hc'', hlasts.trans hmore⟩
  induction h with
  | refl => exact ⟨c, hc, .refl c⟩
  | aside _ _ hcomponents ih =>
    exact hnext ih (Component.rel_of_eq .refl (by rw [component?, hcomponents, component?]))
  | write _ other field value ih => exact hnext ih (rel_write .refl (Component.lasts_write · field value) _ other id)
  | mark _ hother hmarked ih =>
    exact hnext ih (rel_setComponent .refl hother ⟨hmarked.toKin, by rw [hmarked.fields]⟩ id)
  | swapIn _ other ih => exact hnext ih (rel_swapIn (fun _ _ _ => ⟨⟨rfl, rfl, rfl, rfl⟩, rfl⟩) _ other id)
  | operation _ _ _ _ ih => exact ih
  | mount _ _ ih =>
    obtain ⟨c', hc', hlasts⟩ := ih
    exact ⟨c', component?_concat hc' _, hlasts⟩

/-- A component that was built lasts from the record that was prepared for it. -/
theorem exists_lasts_of_build {name : String} {b : Blueprint}
    (hrun : build (callbacks fuel) name b p = some (.ok id, p')) :
    ∃ c c', b.prepare p.document = .ok c ∧ p'.component? id = some c' ∧ c.Lasts c' := by
  cases built_of_build hrun with
  | @done c q hprepare hrender =>
    -- From the moment when the component was put on the page.
    obtain ⟨r, hnow, rfl⟩ := whileRunning_eq_some.mp hrender
    have hadded : ({ p.adding c with running := p.components.length :: p.running } : Page).component?
        p.components.length = some c := List.getElem?_concat_length
    have hrendered := (Ensues.refl.resumes.renderNow hnow).ensues
    obtain ⟨c', hc', hlasts⟩ := hrendered.lasts hadded
    exact ⟨c, c', hprepare, hc', hlasts⟩

/-! ### Handlers -/

/-- A component of the page has what some actions name. -/
def Covers (p : Page) (id : ComponentId) (actions : List (Action Expression Value)) : Prop :=
  ∃ c, p.component? id = some c ∧ ∀ action ∈ actions, c.Covers action

/-- What some actions name is what some of them name, too. -/
theorem Covers.mono {actions others : List (Action Expression Value)} (h : p.Covers id actions)
    (hsub : others ⊆ actions) : p.Covers id others := by
  obtain ⟨c, hc, hcovers⟩ := h
  exact ⟨c, hc, fun action haction => hcovers action (hsub haction)⟩

/-- What a component has, it has at every later moment. -/
theorem Covers.ensues {entwines : Prop} {actions : List (Action Expression Value)} (h : p.Covers id actions)
    (hq : p.Ensues entwines q) : q.Covers id actions := by
  obtain ⟨c, hc, hcovers⟩ := h
  obtain ⟨c', hc', hlasts⟩ := hq.lasts hc
  exact ⟨c', hc', fun action haction => hlasts.covers (hcovers action haction)⟩

end Page

/-- The actions of a listener find what they name. -/
def Listener.Covered (p : Page) : Listener → Prop
  | bound id handler => p.Covers id handler.actions
  | scripted _ _ _ => True

/-- A listener finds what it found before. -/
theorem Listener.Covered.ensues {entwines : Prop} {p q : Page} {listener : Listener} (h : listener.Covered p)
    (hq : p.Ensues entwines q) : listener.Covered q := by
  cases listener with
  | bound id handler => exact Page.Covers.ensues h hq
  | scripted label failure steps => exact trivial

namespace Page

variable {p p' q r : Page} {id : ComponentId} {cb : Callbacks} {fuel : Nat}

/-- Every action of a template and of a listener on the page finds what it names. -/
structure Sound (p : Page) : Prop where
  templates : ∀ {id c}, p.component? id = some c → ∀ action ∈ c.template.actions, c.Covers action
  listeners : p.document.Carries (Listener.Covered p)

/-- The page of a document without listeners is sound. -/
theorem sound_ofDocument {d : Document Listener} (h : ∀ {P}, d.Carries P) : (ofDocument d).Sound where
  templates := nofun
  listeners := h

/-- The components keep what they have, and the listeners of the page found what they name before. -/
theorem Sound.keep (h : p.Sound) (hensues : p.Ensues True p')
    (hrel : ∀ id, Option.Rel Component.Lasts (p.component? id) (p'.component? id))
    (hcarries : p'.document.Carries (Listener.Covered p)) : p'.Sound where
  templates {id c'} hc' := by
    have hlasts := hrel id
    rw [hc'] at hlasts
    generalize hc : p.component? id = record at hlasts
    cases hlasts with
    | some hlasts =>
      intro action haction
      rw [hlasts.template] at haction
      exact hlasts.covers (h.templates hc action haction)
  listeners := hcarries.mono fun hcovered => hcovered.ensues hensues

/-- A page stays sound. -/
theorem Ensues.sound {entwines : Prop} (h : p.Ensues entwines q) (hp : p.Sound) : q.Sound := by
  induction h with
  | refl => exact hp
  | @aside q r h hdocument hcomponents ih =>
    refine ih.keep (.aside .refl hdocument hcomponents) (fun id => Component.rel_of_eq .refl ?_)
      (hdocument ▸ ih.listeners)
    rw [component?, hcomponents, component?]
  | write _ id field value ih =>
    refine ih.keep (.write .refl id field value) (rel_write .refl (Component.lasts_write · field value) _ id) ?_
    rw [document_write]
    exact ih.listeners
  | mark _ hc hmarked ih =>
    exact ih.keep (.mark .refl hc hmarked) (rel_setComponent .refl hc ⟨hmarked.toKin, by rw [hmarked.fields]⟩)
      ih.listeners
  | @swapIn q h id ih =>
    refine ih.keep (.swapIn .refl id) (rel_swapIn (fun _ _ _ => ⟨⟨rfl, rfl, rfl, rfl⟩, rfl⟩) _ id) ?_
    cases hc : q.component? id with
    | none =>
      rw [Page.swapIn, hc]
      exact ih.listeners
    | some c =>
      refine carries_swapIn ih.listeners hc (fun hfrom => ?_) rfl
      exact ⟨c, hc, Component.covers_of_from (ih.templates hc) hfrom⟩
  | operation _ o ho _ ih =>
    refine ih.keep (.operation .refl o ho (Or.inl trivial)) (fun id => Component.rel_of_eq .refl rfl) ?_
    refine ih.listeners.operation o fun listener hadded => ?_
    cases listener with
    | bound id handler => exact (ho _ hadded).elim
    | scripted label failure steps => exact trivial
  | @mount q b c h hprepare ih =>
    have hmounted : q.Ensues True { q with components := q.components ++ [c] } := .mount .refl hprepare
    refine ⟨fun {id c'} hc' => ?_, ih.listeners.mono fun hcovered => hcovered.ensues hmounted⟩
    rcases List.mem_append.mp (List.mem_of_getElem? hc') with hold | hlast
    · obtain ⟨old, hold⟩ := List.mem_iff_getElem?.mp hold
      exact ih.templates hold
    · rw [List.mem_singleton.mp hlast]
      exact (Blueprint.covers_of_prepare hprepare).2

/-! ### Faults -/

/-- Why an action fails on a page: a variable of the value that it assigns has no value, or the method that it
calls fails by itself. -/
inductive ActionFails (cb : Callbacks) (id : ComponentId) (p p' : Page) : Action Expression Value → Error → Prop
  | unresolved {c : Component} {target name : String} {e : Expression} (hc : p.component? id = some c)
      (hmentions : e.Mentions name) (hnone : c.resolver name = none) :
      ActionFails cb id p p' (.assign target e) (.resolution ⟨.variable, name⟩)
  | method {c : Component} {method : String} {arguments : List (Argument Value)} {body : List Value → Program}
      {values : List Value} {e : Error} (hc : p.component? id = some c)
      (hbody : c.methods.lookup method = some body)
      (hrun : runProgram cb id (body values) p = some (.error e, p')) :
      ActionFails cb id p p' (.invoke method arguments) e

/-- A write to a field that is there succeeds. -/
theorem ok_of_write {c : Component} {field : String} (h : field ∈ Dictionary.names c.store.fields) (value : Value) :
    ∃ changed, (c.write field value).1 = .ok changed := by
  obtain ⟨old, hold⟩ := Option.isSome_iff_exists.mp (Dictionary.isSome_lookup_iff.mpr h)
  have hfound : c.store.find? field = some old := hold
  rw [Component.write, Store.write?, hfound, Option.map_some]
  cases Expression.strictEqual old value with
  | true => exact ⟨_, rfl⟩
  | false => cases Store.isPrivate field <;> exact ⟨_, rfl⟩

/-- An action that finds what it names has no other reasons to fail. -/
theorem actionFails_of_runAction {event : Event} {actions : List (Action Expression Value)}
    {action : Action Expression Value} {e : Error} (h : p.Covers id actions) (haction : action ∈ actions)
    (hrun : runAction cb id event action p = some (.error e, p')) : ActionFails cb id p p' action e := by
  obtain ⟨c, hc, hcovers⟩ := h
  replace hcovers := hcovers action haction
  cases action with
  | assign target source =>
    rw [runAction, Run.plain_bind, value, hc] at hrun
    dsimp only at hrun
    cases hvalue : (c.value source).1 with
    | error error =>
      rw [hvalue] at hrun
      cases hrun
      obtain ⟨name, rfl, hmentions, hnone⟩ := Expression.unresolved_of_eval hvalue
      exact .unresolved hc hmentions hnone
    | ok value =>
      rw [hvalue] at hrun
      dsimp only at hrun
      obtain ⟨changed, hwrite⟩ := ok_of_write hcovers value
      have hsame : (p.addNotes (c.value source).2).component? id = some c := hc
      rw [Run.plain_bind, write, hsame] at hrun
      dsimp only at hrun
      rw [hwrite] at hrun
      cases hrun
  | invoke method arguments =>
    obtain ⟨body, hbody⟩ := hcovers
    rw [runAction, Run.look_bind, hc, Option.bind_some, hbody] at hrun
    exact .method hc hbody hrun

/-- When the actions of a handler fail, one of them did. -/
theorem actionFails_of_runActions {event : Event} {actions : List (Action Expression Value)} {e : Error}
    (hq : p.Ensues True q) (h : q.Covers id actions)
    (hrun : runActions (callbacks fuel) id event actions q = some (.error e, r)) :
    ∃ action ∈ actions, ∃ s s', p.Ensues True s ∧ ActionFails (callbacks fuel) id s s' action e := by
  induction actions generalizing q with
  | nil => cases hrun
  | cons action rest ih =>
    obtain ⟨result, mid, hfirst, hrest⟩ := bind_eq_some.mp hrun
    cases result with
    | error error =>
      cases hrest
      exact ⟨action, List.mem_cons_self, q, _, hq, actionFails_of_runAction h List.mem_cons_self hfirst⟩
    | ok u =>
      have hnext : q.Ensues True mid := (Ensues.refl.resumes.runAction hfirst).ensues
      have hcovers : mid.Covers id rest := (h.ensues hnext).mono (List.subset_cons_self action rest)
      obtain ⟨failed, hmem, hfails⟩ := ih (hq.trans hnext) hcovers hrest
      exact ⟨failed, List.mem_cons_of_mem _ hmem, hfails⟩

/-- A component that was built on a page of a document that had no listeners to begin with keeps its fields, in
their order, whatever is done to the page. Every handler that it bound to a node, in whatever branch or round of
its template, may run at any later moment, also when the node is gone: an action of it fails only for a variable
of the value that it assigns, or in the body of the method that it calls. When the handler fails, one of its
actions has failed like that. -/
theorem Ensues.actions_resolve {d : Document Listener} {name : String} {b : Blueprint}
    (hp : (ofDocument d).Ensues True p) (hstart : d = .empty ∨ ∃ source, Document.load source = .ok d)
    (hbuild : Page.build (callbacks fuel) name b p = some (.ok id, p')) (hq : p'.Ensues True q) :
    (∃ store c, Store.ofValue? b.data = some store ∧ q.component? id = some c ∧
      Dictionary.names c.store.fields = Dictionary.names store.fields) ∧
    ∀ {n node event handler}, q.document.node? n = some node → (event, .bound id handler) ∈ node.listeners →
      ∀ {r}, q.Ensues True r →
        (∀ action ∈ handler.actions, ∀ {cb occurrence e r'},
          runAction cb id occurrence action r = some (.error e, r') → ActionFails cb id r r' action e) ∧
        ∀ {fuel occurrence e r'}, runHandler (callbacks fuel) id handler occurrence r = some (.error e, r') →
          ∃ action ∈ handler.actions, ∃ s s' error,
            e = .engine error ∧ r.Ensues True s ∧ ActionFails (callbacks fuel) id s s' action error := by
  have hsound : p'.Sound := by
    refine (hp.resumes.build hbuild).ensues.sound (sound_ofDocument fun {P} => ?_)
    rcases hstart with rfl | ⟨source, hload⟩
    · exact .empty
    · exact .of_load hload
  refine ⟨?_, fun {n node event handler} hnode hlistener {r} hr => ?_⟩
  · obtain ⟨c, c', hprepare, hc', hbuilt⟩ := exists_lasts_of_build hbuild
    obtain ⟨c'', hc'', hlasts⟩ := hq.lasts hc'
    have hdata := (Blueprint.covers_of_prepare hprepare).1
    exact ⟨c.store, c'', hdata, hc'', hlasts.names.trans hbuilt.names⟩
  · have hcovered : q.Covers id handler.actions := (hq.sound hsound).listeners.of_node? hnode _ hlistener
    have hcovers := hcovered.ensues hr
    refine ⟨fun action haction {cb occurrence e r'} hrun => ?_, fun {fuel occurrence e r'} hrun => ?_⟩
    · exact actionFails_of_runAction hcovers haction hrun
    · rw [runHandler, Run.look_bind] at hrun
      split at hrun
      · obtain ⟨result, after, hwhile, hend⟩ := bind_eq_some.mp hrun
        obtain ⟨after, hactions, _⟩ := whileRunning_eq_some.mp hwhile
        cases result with
        | ok u => cases hend
        | error error =>
          cases hend
          have hrunning : r.Ensues True { r with running := id :: r.running } := .aside .refl rfl rfl
          obtain ⟨action, haction, s, s', hs, hfails⟩ :=
            actionFails_of_runActions hrunning (hcovers.ensues hrunning) hactions
          exact ⟨action, haction, s, s', error, rfl, hs, hfails⟩
      · cases hrun

/-- A list that is shown once it is open. A click on an item assigns the item, which has a name in the round of
the item only. -/
def picker : Blueprint where
  mount := .selector "div"
  name := none
  template := some "<ul><li v-for='x in xs' v-if='open' @click='picked = x'>{{ x }}</li></ul>"
  data := .object [("xs", .array [.string "a"]), ("open", .bool false), ("picked", .null)]
  interval := 10
  methods := []
  computed := []
  hook := none

/-- The page with the list, which is not open. -/
def folded : Except Error ComponentId × Page :=
  (build (callbacks 2) "picker" picker stage).get (by decide +kernel)

/-- The page after a write that opens the list. -/
def unfolding : Reply × Page :=
  (step 3 (.component "picker" none (.set "open" (.bool true))) folded.2).get (by decide +kernel)

/-- The page with the open list. -/
def unfolded : Reply × Page :=
  (step 3 (.advance 10) unfolding.2).get (by decide +kernel)

/-- The page with an element to put components at comes of that of an empty document. -/
theorem ensues_stage : (ofDocument .empty).Ensues False stage := by
  refine .operation (.operation (.operation (.operation .refl (.createElement "h1") nofun (Or.inr id))
    (.append ⟨0, 0⟩ ⟨1, 0⟩) nofun (Or.inr ?_)) (.createElement "div") nofun (Or.inr id))
    (.append ⟨0, 0⟩ ⟨2, 0⟩) nofun (Or.inr ?_)
  · exact Document.Operation.not_entwines_append rfl (by decide)
  · exact Document.Operation.not_entwines_append rfl (by decide)

/-- The item was not there when the list was built. A click on it fails, because `x` is a variable without a value
where the assignment is evaluated. -/
theorem Ensues.actions_resolve_unfolded :
    (ofDocument .empty).Ensues True stage ∧ Page.build (callbacks 2) "picker" picker stage = some (.ok 0, folded.2) ∧
      folded.2.Ensues True unfolded.2 ∧
      ∃ node handler r',
        unfolded.2.document.node? ⟨4, 0⟩ = some node ∧ ("click", .bound 0 handler) ∈ node.listeners ∧
        runHandler (callbacks 2) 0 handler ⟨"click", .null, ⟨4, 0⟩⟩ unfolded.2 =
          some (.error (.engine (.resolution ⟨.variable, "x"⟩)), r') ∧
        ∃ action ∈ handler.actions, ∃ s s', unfolded.2.Ensues True s ∧
          ActionFails (callbacks 2) 0 s s' action (.resolution ⟨.variable, "x"⟩) := by
  have hstage : (ofDocument .empty).Ensues True stage :=
    ensues_stage.mono False.elim
  have hid : folded.1 = .ok 0 := by decide +kernel
  have hbuild : Page.build (callbacks 2) "picker" picker stage = some (.ok 0, folded.2) :=
    eq_some_of_fst (Option.some_get _).symm hid
  have hlater : folded.2.Ensues True unfolded.2 := by
    have hwrite : Page.step 3 (.component "picker" none (.set "open" (.bool true))) folded.2 = some unfolding :=
      (Option.some_get _).symm
    have htime : Page.step 3 (.advance 10) unfolding.2 = some unfolded := (Option.some_get _).symm
    have hunfolding : folded.2.Resumes True unfolding.2 :=
      Ensues.refl.resumes.step (Or.inl trivial) (eq_some_of_fst hwrite rfl)
    exact (hunfolding.step (Or.inl trivial) (eq_some_of_fst htime rfl)).ensues
  have hclick : ((unfolded.2.document.node? ⟨4, 0⟩).bind fun node => node.listeners.head?.bind fun entry =>
      match entry.2 with
      | .bound id handler => (runHandler (callbacks 2) id handler ⟨"click", .null, ⟨4, 0⟩⟩ unfolded.2).map fun out =>
          (entry.1, id, out.1)
      | .scripted _ _ _ => none) = some ("click", 0, .error (.engine (.resolution ⟨.variable, "x"⟩))) := by
    decide +kernel
  obtain ⟨node, hnode, hfirst⟩ := Option.bind_eq_some_iff.mp hclick
  obtain ⟨⟨event, listener⟩, hentry, hrun⟩ := Option.bind_eq_some_iff.mp hfirst
  cases listener with
  | scripted label failure steps => cases hrun
  | bound id handler =>
    obtain ⟨⟨result, r'⟩, hrun, hsame⟩ := Option.map_eq_some_iff.mp hrun
    cases hsame
    have hlistener := List.mem_of_mem_head? hentry
    obtain ⟨_, hhandlers⟩ := hstage.actions_resolve (Or.inl rfl) hbuild hlater
    obtain ⟨action, haction, s, s', error, herror, hs, hfails⟩ := (hhandlers hnode hlistener .refl).2 hrun
    cases herror
    exact ⟨hstage, hbuild, hlater, node, handler, r', hnode, hlistener, hrun, action, haction, s, s', hs, hfails⟩

end Page

end ReactiveTemplate
