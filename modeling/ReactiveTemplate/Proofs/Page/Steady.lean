import ReactiveTemplate.Proofs.Page.Allowances

/-!
# What holds whatever runs

Programs, renders, events and timers run one another, but they act on the page through a few operations
only. What these operations keep holds after every run, however deep it is nested and however it ends, as long as
the run does no more than what is allowed.

How pages come of one another is told by several relations, each for what has to be known about the way:

* `ReachesGently p q`: by whole steps of a script, none of which works on the document by itself;
* `Reaches p q`: by whole operations, renders, builds and steps of any kind;
* `Ensues entwines p q`: by the single operations of which all runs are made, so that the moments within a run are
  told of, too; `entwines` says whether nodes may be put below themselves;
* `Resumes entwines p q`: the same, on a page whose listeners will go on like that, which is what whole runs keep;
* `ReachedWithRenders p last`: from a reachable document by whole actions of a host that respects the stores and mounts
  of its components, with whether the last render of each component went well;
* `ReachedWithIncidents p history`: from a bare document by whole actions while listeners leave the clock alone, with
  what bears on the errors that are kept.
-/

namespace ReactiveTemplate

open Json

/-- Records of one component between which no render of it was completed. -/
structure Component.Touched (c c' : Component) : Prop extends c.Kin c' where
  root : c'.root = c.root
  renderCount : c'.renderCount = c.renderCount

/-- No render was completed between a record and itself. -/
theorem Component.Touched.refl (c : Component) : c.Touched c :=
  ⟨.refl c, rfl, rfl⟩

/-- A component, if there is one, whose record is what it was. -/
theorem Component.rel_of_eq {R : Component → Component → Prop} (hR : ∀ c, R c c)
    {record record' : Option Component} (h : record' = record) : Option.Rel R record record' := by
  rw [h]
  cases record with
  | none => exact .none
  | some c => exact .some (hR c)

/-- A write completes no render. -/
theorem Component.touched_write (c : Component) (field : String) (value : Value) :
    c.Touched (c.write field value).2.2 := by
  rw [write]
  split
  · exact .refl c
  · exact .refl c
  · exact ⟨⟨rfl, rfl, rfl, rfl⟩, rfl, rfl⟩
  · exact ⟨⟨rfl, rfl, rfl, rfl⟩, rfl, rfl⟩

/-- Records of one component between which nothing was written to it and no render of it was completed. -/
structure Component.Marked (c c' : Component) : Prop extends c.Kin c' where
  root : c'.root = c.root
  renderCount : c'.renderCount = c.renderCount
  fields : c'.store.fields = c.store.fields

/-- Evaluating changes at most the cache. -/
theorem Component.marked_evaluate (c : Component) (source : String) :
    c.Marked (c.evaluate source).2.2 ∧ (c.evaluate source).2.2.lastError = c.lastError := by
  rw [evaluate]
  split <;> exact ⟨⟨⟨rfl, rfl, rfl, rfl⟩, rfl, rfl, rfl⟩, rfl⟩

namespace Page

/-- The operations through which runs act on the page keep a property, and nothing that is there works on
the document by itself. -/
structure Steady (I : Page → Prop) : Prop where
  gentle : ∀ {p id c}, I p → p.component? id = some c → c.Gentle
  carries : ∀ {p}, I p → p.document.Carries Listener.Gentle
  aside : ∀ {p p'}, I p → p'.document = p.document → p'.components = p.components → I p'
  touch : ∀ {p id c c'}, I p → p.component? id = some c → c.Touched c' → I (p.setComponent id c')
  swapIn : ∀ {p} id, I p → I (p.swapIn id).2

/-- The operations through which runs act on the page keep a property. It may be counted on that nothing works on
the document by itself, unless operations on the document and components that are put on the page keep the
property, too; and that listeners do not move the clock, unless that keeps it, too; and that no node is put below
itself, unless that keeps it, too. -/
structure Invariant (allowed : Allowance) (I : Page → Prop) : Prop where
  gentle : ∀ {p id c}, I p → p.component? id = some c → allowed.works ∨ c.Gentle
  carries : ∀ {p}, I p → p.document.Carries (Listener.Admitted allowed)
  aside : ∀ {p p'}, I p → p'.document = p.document → p'.components = p.components → I p'
  write : ∀ {p} id field value, I p → I (p.write id field value).2
  mark : ∀ {p id c c'}, I p → p.component? id = some c → c.Marked c' →
    allowed.timely ∨ c'.lastError = c.lastError → I (p.setComponent id c')
  swapIn : ∀ {p} id, I p → I (p.swapIn id).2
  operation : allowed.works → ∀ {p} (o : Document.Operation Listener),
    (∀ listener ∈ o.listener?, listener.Scripted ∧ listener.Admitted allowed) →
      (allowed.entwines ∨ ¬ o.Entwines p.document) → I p → I { p with document := o.apply p.document }
  mount : allowed.works → ∀ {p} {b : Blueprint} {c}, I p → b.prepare p.document = .ok c →
    I { p with components := p.components ++ [c] }

/-- What is steady is invariant as long as nothing works on the document by itself. -/
theorem Steady.invariant {I : Page → Prop} (hI : Steady I) : Invariant .gentle I where
  gentle h hc := Or.inr (hI.gentle h hc)
  carries h := (hI.carries h).mono fun hgentle => ⟨Or.inr hgentle, Or.inl trivial, Or.inl trivial⟩
  aside := hI.aside
  write {p} id field value h := by
    rw [Page.write]
    split
    · exact h
    · next c hc =>
      have hset := hI.touch h hc (c.touched_write field value)
      dsimp only
      split
      · exact hI.aside hset rfl rfl
      · exact hset
  mark h hc hmarked _ := hI.touch h hc ⟨hmarked.toKin, hmarked.root, hmarked.renderCount⟩
  swapIn := hI.swapIn
  operation := False.elim
  mount := False.elim

variable {α β : Type} {allowed : Allowance} {I : Page → Prop} {p : Page} {id : ComponentId} {cb : Callbacks}

/-! ## Operations -/

section Records

variable {R : Component → Component → Prop} (hR : ∀ c, R c c)

include hR

/-- The records of a page on which one was set. -/
theorem rel_setComponent {c c' : Component} (hc : p.component? id = some c) (h : R c c') (other : ComponentId) :
    Option.Rel R (p.component? other) ((p.setComponent id c').component? other) := by
  rw [component?_setComponent hc]
  split
  · next heq =>
    rw [← heq, hc]
    exact .some h
  · exact Component.rel_of_eq hR rfl

/-- The records of a page on which a field was written. -/
theorem rel_write {field : String} {value : Value} (h : ∀ c : Component, R c (c.write field value).2.2)
    (p : Page) (id other : ComponentId) :
    Option.Rel R (p.component? other) ((p.write id field value).2.component? other) := by
  rw [component?_write]
  split
  · cases p.component? other with
    | none => exact .none
    | some c => exact .some (h c)
  · exact Component.rel_of_eq hR rfl

end Records

namespace Invariant

variable (hI : Invariant allowed I)

include hI

/-- A component is marked. -/
theorem update (h : I p) (id : ComponentId) {f : Component → Component} (hf : ∀ c : Component, c.Marked (f c))
    (herror : allowed.timely ∨ ∀ c, (f c).lastError = c.lastError) : I (p.updateComponent id f) := by
  cases hc : p.component? id with
  | none =>
    refine hI.aside h rfl ?_
    rw [component?] at hc
    rw [updateComponent, List.modify_eq_set_getElem?, hc]
    rfl
  | some c =>
    have hset : p.updateComponent id f = p.setComponent id (f c) := by
      rw [component?] at hc
      rw [updateComponent, setComponent, List.modify_eq_set_getElem?, hc]
      rfl
    rw [hset]
    exact hI.mark h hc (hf c) (herror.imp_right fun hkept => hkept c)

/-- Entries are logged. -/
theorem record (h : I p) (entries : List Entry) : I (p.record entries) :=
  hI.aside h rfl rfl

/-- An expression is evaluated. -/
theorem value (h : I p) (id : ComponentId) (e : Expression) : I (p.value id e).2 := by
  rw [Page.value]
  split
  · exact h
  · exact hI.record h _

/-- A source is evaluated. -/
theorem evaluate (h : I p) (id : ComponentId) (source : String) : I (p.evaluate id source).2 := by
  rw [Page.evaluate]
  split
  · exact h
  · next c hc =>
    obtain ⟨hmarked, herror⟩ := c.marked_evaluate source
    exact hI.record (hI.mark h hc hmarked (Or.inr herror)) _

/-- A deferred action is asked for. -/
theorem requestFollowUp (h : I p) (id : ComponentId) : I (p.requestFollowUp id) :=
  hI.update h id (fun _ => ⟨⟨rfl, rfl, rfl, rfl⟩, rfl, rfl, rfl⟩) (Or.inr fun _ => rfl)

/-- The request for a deferred action is taken. -/
theorem takeFollowUp (h : I p) (id : ComponentId) : I (p.takeFollowUp id).2 := by
  rw [Page.takeFollowUp]
  split
  · exact h
  · next c hc => exact hI.mark h hc ⟨⟨rfl, rfl, rfl, rfl⟩, rfl, rfl, rfl⟩ (Or.inr rfl)

/-- A timer of a component has fired. -/
theorem fired (h : I p) (id : ComponentId) :
    I (p.updateComponent id fun c => { c with scheduler := c.scheduler.fired }) :=
  hI.update h id (fun _ => ⟨⟨rfl, rfl, rfl, rfl⟩, rfl, rfl, rfl⟩) (Or.inr fun _ => rfl)

/-- The last error is taken. -/
theorem takeError (htimely : allowed.timely) (h : I p) (id : ComponentId) : I (p.takeError id).2 :=
  hI.update h id (fun _ => ⟨⟨rfl, rfl, rfl, rfl⟩, rfl, rfl, rfl⟩) (Or.inl htimely)

/-- What a selector means is removed. -/
theorem removeMatching (hworks : allowed.works) (h : I p) (selector : String) : I (p.removeMatching selector) := by
  rw [Page.removeMatching]
  split
  · exact hI.operation hworks (.remove _) nofun (Or.inr not_false) h
  · exact h

/-- A node is stored under a name. -/
theorem keepNode (h : I p) (store : Option String) (n : NodeId) : I (p.keepNode store n) := by
  cases store with
  | none => exact h
  | some name => exact hI.aside h rfl rfl

end Invariant

/-! ## Runs -/

/-- If a run ends, then on a page of which something holds. -/
def Leads (I : Page → Prop) (m : Run α) (p : Page) : Prop :=
  ∀ a p', m p = some (a, p') → I p'

namespace Leads

/-- Answering. -/
theorem pure (h : I p) (a : α) : Leads I (pure a : Run α) p := by
  intro b p' hrun
  cases hrun
  exact h

/-- An operation that runs nothing else. -/
theorem plain {f : Page → α × Page} (h : I (f p).2) : Leads I (Run.plain f) p := by
  intro a p' hrun
  have hpage : (f p).2 = p' := congrArg Prod.snd (Option.some.inj hrun)
  rwa [← hpage]

/-- A change of the page. -/
theorem modify {f : Page → Page} (h : I (f p)) : Leads I (modify f : Run PUnit) p := by
  intro a p' hrun
  cases hrun
  exact h

/-- A look at the page. -/
theorem view (h : I p) (f : Page → α) : Leads I (Run.look f) p := by
  intro a p' hrun
  cases hrun
  exact h

/-- One run after another. -/
theorem bind {m : Run α} {f : α → Run β} (hm : Leads I m p) (hf : ∀ a p', I p' → Leads I (f a) p') :
    Leads I (m >>= f) p := by
  intro b p'' hrun
  obtain ⟨a, p', hfirst, hrest⟩ := bind_eq_some.mp hrun
  exact hf a p' (hm a p' hfirst) b p'' hrest

/-- A run after a look at the page. -/
theorem look (f : Page → α) {k : α → Run β} (h : Leads I (k (f p)) p) : Leads I (Run.look f >>= k) p :=
  h

/-- A run during which a component is kept alive. -/
theorem whileRunning (hI : Invariant allowed I) {m : Run α} (h : I p) (hm : ∀ q, I q → Leads I m q) :
    Leads I (whileRunning id m) p := by
  intro a p' hrun
  obtain ⟨q, hbody, hpage⟩ := whileRunning_eq_some.mp hrun
  have hrunning : I { p with running := id :: p.running } := hI.aside h rfl rfl
  exact hI.aside (hm _ hrunning a q hbody) (hpage ▸ rfl) (hpage ▸ rfl)

/-- A run with a node that a script names. -/
theorem withNode {ref : NodeRef} {next : NodeId → Run Reply} (h : I p)
    (hnext : ∀ n, p.node? ref = some n → Leads I (next n) p) : Leads I (withNode ref next) p := by
  refine .look _ ?_
  cases hnode : p.node? ref with
  | none => exact .pure h _
  | some n => exact hnext n hnode

end Leads

/-- Listeners and renders that are run from inside others keep a property. -/
structure Callbacks.Keep (cb : Callbacks) (allowed : Allowance) (I : Page → Prop) : Prop where
  listener : ∀ {p} listener event, listener.Admitted allowed → I p → Leads I (cb.listener listener event) p
  render : ∀ {p} id, I p → Leads I (cb.render id) p

/-- Listeners are run one after another. -/
theorem leads_runListeners (hcb : cb.Keep allowed I) (h : I p) (event : Event) {listeners : List Listener}
    (hall : ∀ listener ∈ listeners, listener.Admitted allowed) :
    Leads I (runListeners (cb.listener · event) listeners) p := by
  induction listeners generalizing p with
  | nil => exact .pure h _
  | cons listener rest ih =>
    refine .bind (hcb.listener listener event (hall listener List.mem_cons_self) h) fun result p' h' => ?_
    cases result with
    | error e => exact .pure h' _
    | ok u => exact ih h' fun other hmem => hall other (List.mem_cons_of_mem _ hmem)

section Engine

variable (hI : Invariant allowed I) (hcb : cb.Keep allowed I)

include hI hcb

/-- An event is dispatched. -/
theorem leads_dispatch (h : I p) (target : NodeId) (event : String) (detail : Value) :
    Leads I (dispatch cb target event detail) p := by
  refine .look _ ?_
  dsimp only
  split
  · refine .bind (leads_runListeners hcb h _ ((hI.carries h).listenersFor target event)) fun result p' h' => ?_
    cases result with
    | error e => exact .pure h' _
    | ok u => exact .pure h' _
  · exact .pure h _

/-- An event is dispatched on what a selector means. -/
theorem leads_dispatchMatching (h : I p) (selector event : String) :
    Leads I (dispatchMatching cb selector event) p := by
  refine .look _ ?_
  cases p.document.query? selector with
  | none => exact .pure h _
  | some target => exact .bind (leads_dispatch hI hcb h target event .null) fun result p' h' => .pure h' _

/-- A program is run. -/
theorem leads_runProgram (h : I p) {program : Program} (hprogram : allowed.works ∨ program.Gentle) :
    Leads I (runProgram cb id program) p := by
  induction program generalizing p with
  | done | fail e => exact .pure h _
  | get field next ih => exact .look _ (ih _ h (hprogram.imp_right fun hnext => hnext _))
  | set field value next ih =>
    exact .bind (.plain (hI.write id field value h)) fun answer p' h' =>
      ih answer h' (hprogram.imp_right fun hnext => hnext answer)
  | evaluate source next ih =>
    exact .bind (.plain (hI.evaluate h id source)) fun answer p' h' =>
      ih answer h' (hprogram.imp_right fun hnext => hnext answer)
  | render next ih =>
    exact .bind (hcb.render id h) fun answer p' h' => ih answer h' (hprogram.imp_right fun hnext => hnext answer)
  | renderCount next ih => exact .look _ (ih _ h (hprogram.imp_right fun hnext => hnext _))
  | requestFollowUp next ih => exact .bind (.modify (hI.requestFollowUp h id)) fun _ p' h' => ih h' hprogram
  | takeFollowUp next ih =>
    exact .bind (.plain (hI.takeFollowUp h id)) fun answer p' h' =>
      ih answer h' (hprogram.imp_right fun hnext => hnext answer)
  | dispatch selector event next ih =>
    exact .bind (leads_dispatchMatching hI hcb h selector event) fun answer p' h' =>
      ih answer h' (hprogram.imp_right fun hnext => hnext answer)
  | remove selector next ih =>
    have hworks : allowed.works := hprogram.resolve_right not_false
    exact .bind (.modify (hI.removeMatching hworks h selector)) fun _ p' h' => ih h' (Or.inl hworks)
  | note entry next ih => exact .bind (.modify (hI.record h _)) fun _ p' h' => ih h' hprogram

/-- A component is rendered and its hook runs. -/
theorem leads_renderNow (h : I p) (id : ComponentId) : Leads I (renderNow cb id) p := by
  refine .bind (.plain (hI.swapIn id h)) fun result p' h' => ?_
  cases result with
  | error e => exact .pure h' _
  | ok u =>
    refine .look _ ?_
    cases hhook : (p'.component? id).bind Component.hook with
    | none => exact .pure h' _
    | some program =>
      obtain ⟨c, hc, hprogram⟩ := Option.bind_eq_some_iff.mp hhook
      exact leads_runProgram hI hcb h' ((hI.gentle h' hc).imp_right fun hgentle => hgentle.hook hprogram)

/-- An action of a handler is run. -/
theorem leads_runAction (h : I p) (id : ComponentId) (event : Event) (action : Action Expression Value) :
    Leads I (runAction cb id event action) p := by
  cases action with
  | assign target e =>
    refine .bind (.plain (hI.value h id e)) fun result p' h' => ?_
    cases result with
    | error e => exact .pure h' _
    | ok value =>
      refine .bind (.plain (hI.write id target value h')) fun result p'' h'' => ?_
      cases result with
      | error e => exact .pure h'' _
      | ok changed => exact .pure h'' _
  | invoke method arguments =>
    refine .look _ ?_
    cases hbody : (p.component? id).bind (·.methods.lookup method) with
    | none => exact .pure h _
    | some body =>
      obtain ⟨c, hc, hlookup⟩ := Option.bind_eq_some_iff.mp hbody
      exact leads_runProgram hI hcb h ((hI.gentle h hc).imp_right fun hgentle => hgentle.methods hlookup _)

/-- The actions of a handler are run. -/
theorem leads_runActions (h : I p) (id : ComponentId) (event : Event) (actions : List (Action Expression Value)) :
    Leads I (runActions cb id event actions) p := by
  induction actions generalizing p with
  | nil => exact .pure h _
  | cons action rest ih =>
    refine .bind (leads_runAction hI hcb h id event action) fun result p' h' => ?_
    cases result with
    | error e => exact .pure h' _
    | ok u => exact ih h'

/-- A handler is run. -/
theorem leads_runHandler (h : I p) (id : ComponentId) (handler : Handler) (event : Event) :
    Leads I (runHandler cb id handler event) p := by
  refine .look _ ?_
  split
  · refine .bind (.whileRunning hI h fun q hq => leads_runActions hI hcb hq id event _) fun result p' h' => ?_
    cases result with
    | error e => exact .pure h' _
    | ok u => exact .pure h' _
  · exact .pure h _

/-- A timer fires. -/
theorem leads_fire (htimely : allowed.timely) (h : I p) (id : ComponentId) : Leads I (fire cb id) p := by
  refine .bind (.modify (hI.fired h id)) fun _ q hq => .look _ ?_
  split
  · refine .bind (.whileRunning hI hq fun r hr => leads_renderNow hI hcb hr id) fun result p' h' => ?_
    cases result with
    | ok u => exact .pure h' _
    | error e =>
      have hkept : I (p'.updateComponent id fun c => { c with lastError := some e }) :=
        hI.update h' id (fun _ => ⟨⟨rfl, rfl, rfl, rfl⟩, rfl, rfl, rfl⟩) (Or.inl htimely)
      exact .bind (.modify hkept) fun _ p'' h'' => .pure h'' _
  · exact .pure hq _

/-- Time moves forward. -/
theorem leads_advance (htimely : allowed.timely) (h : I p) (milliseconds : Nat) :
    Leads I (advance cb milliseconds) p := by
  intro firings p' hrun
  exact @ClockHost.advance_holds _ _ _ Unit (host cb) (fun p _ => I p) (fun account _ => account)
    (fun _ h => hI.aside h rfl rfl) (fun h hfire => leads_fire hI hcb htimely h _ _ _ hfire) _ _ _ _ () _ h hrun

/-- Time moves until no timer is left. -/
theorem leads_settle (htimely : allowed.timely) (h : I p) : Leads I (settle cb) p := by
  intro firings p' hrun
  exact @ClockHost.settle_holds _ _ _ Unit (host cb) (fun p _ => I p) (fun account _ => account)
    (fun _ h => hI.aside h rfl rfl) (fun h hfire => leads_fire hI hcb htimely h _ _ _ hfire) _ _ _ _ () _ h hrun

/-- A request to a component is answered. -/
theorem leads_request (h : I p) (id : ComponentId) (file : Option String) {request : Request}
    (hrequest : allowed.timely ∨ request ≠ .takeError) : Leads I (Page.request cb id file request) p := by
  cases request with
  | set field value =>
    refine .bind (.plain (hI.write id field value h)) fun result p' h' => ?_
    cases result with
    | ok changed => exact .pure h' _
    | error e => exact .pure h' _
  | get field => exact .look _ (.pure h _)
  | data | name => exact .view h _
  | evaluate source =>
    refine .bind (.plain (hI.evaluate h id source)) fun result p' h' => ?_
    cases result with
    | ok value => exact .pure h' _
    | error e => exact .pure h' _
  | computed field =>
    refine .plain ?_
    split
    · exact hI.record h _
    · exact h
  | render =>
    refine .bind (leads_renderNow hI hcb h id) fun result p' h' => ?_
    cases result with
    | ok u => exact .pure h' _
    | error e => exact .pure h' _
  | requestFollowUp => exact .bind (.modify (hI.requestFollowUp h id)) fun _ p' h' => .pure h' _
  | takeFollowUp => exact .bind (.plain (hI.takeFollowUp h id)) fun taken p' h' => .pure h' _
  | takeError =>
    have htimely : allowed.timely := hrequest.resolve_right fun hother => hother rfl
    refine .bind (.plain (hI.takeError htimely h id)) fun result p' h' => ?_
    cases result with
    | none => exact .pure h' _
    | some e => exact .pure h' _

/-- A component is built. -/
theorem leads_build (hworks : allowed.works) (h : I p) (name : String) (b : Blueprint) :
    Leads I (build cb name b) p := by
  refine .look _ ?_
  cases hprepare : b.prepare p.document with
  | error e => exact .pure h _
  | ok c =>
    refine .look _ (.bind (.modify (hI.mount hworks h hprepare)) fun _ q hq => ?_)
    refine .bind (.whileRunning hI hq fun r hr => leads_renderNow hI hcb hr _) fun result p' h' => ?_
    cases result with
    | error e => exact .pure h' _
    | ok u => exact .bind (.modify (hI.aside h' rfl rfl)) fun _ p'' h'' => .pure h'' _

/-- A component is built by a script. -/
theorem leads_buildPlan (hworks : allowed.works) (h : I p) (store : String) (file : Option String) (plan : Plan) :
    Leads I (buildPlan cb store file plan) p := by
  have hfinish (b : Blueprint) : Leads I (buildPlan.finish cb store file b) p := by
    refine .bind (leads_build hI hcb hworks h store b) fun result p' h' => ?_
    cases result with
    | error e => exact .pure h' _
    | ok id => exact .view h' _
  rw [buildPlan]
  split
  · exact hfinish _
  · exact .withNode h fun n _ => hfinish _

/-- A step of the host is done. -/
theorem leads_perform (h : I p) {step : Step} (hstep : step.Admitted allowed p) : Leads I (perform cb step) p := by
  obtain ⟨hgentle, htimeless, hloose⟩ := hstep
  cases step with
  | body | timers => exact .view h _
  | ask ref question => exact .withNode h fun n _ => .view h _
  | query selector store =>
    refine .plain ?_
    split
    · exact hI.keepNode h store _
    · exact h
  | dispatch ref event detail =>
    exact .withNode h fun n _ => .bind (leads_dispatch hI hcb h n event detail) fun result p' h' => .pure h' _
  | advance milliseconds =>
    have htimely : allowed.timely := htimeless.resolve_right (by simp [Step.Timeless])
    exact .bind (leads_advance hI hcb htimely h milliseconds) fun fired p' h' => .view h' _
  | idle =>
    have htimely : allowed.timely := htimeless.resolve_right (by simp [Step.Timeless])
    exact .bind (leads_settle hI hcb htimely h) fun fired p' h' => .view h' _
  | drop name => exact .plain (hI.aside h rfl rfl)
  | component name file request =>
    have hrequest : allowed.timely ∨ request ≠ .takeError := by
      refine htimeless.imp_right fun htimeless heq => ?_
      rw [heq, Step.Timeless] at htimeless
      exact htimeless
    refine .look _ ?_
    cases p.handles.lookup name with
    | none => exact .pure h _
    | some id => exact .whileRunning hI h fun q hq => leads_request hI hcb hq id file hrequest
  | createElement tag store =>
    have hworks : allowed.works := hgentle.resolve_right not_false
    exact .plain (hI.keepNode (hI.operation hworks (.createElement tag) nofun (Or.inr not_false) h) store _)
  | createText text store =>
    have hworks : allowed.works := hgentle.resolve_right not_false
    exact .plain (hI.keepNode (hI.operation hworks (.createText text) nofun (Or.inr not_false) h) store _)
  | edit ref edit =>
    have hworks : allowed.works := hgentle.resolve_right not_false
    refine .withNode h fun n _ => .plain ?_
    cases edit with
    | setAttribute name value =>
      exact hI.operation hworks (.setAttribute n name value) nofun (Or.inr not_false) h
    | removeAttribute name => exact hI.operation hworks (.removeAttribute n name) nofun (Or.inr not_false) h
    | addClass name => exact hI.operation hworks (.addClass n name) nofun (Or.inr not_false) h
    | setStyle property value =>
      exact hI.operation hworks (.setStyle n property value) nofun (Or.inr not_false) h
    | remove => exact hI.operation hworks (.remove n) nofun (Or.inr not_false) h
  | append ref child =>
    have hworks : allowed.works := hgentle.resolve_right not_false
    refine .withNode h fun n hn => .withNode h fun m hm => .plain (hI.operation hworks (.append n m) nofun ?_ h)
    exact hloose.imp_right fun hloose hentwines => hloose ⟨n, m, hn, hm, hentwines⟩
  | replace ref new =>
    have hworks : allowed.works := hgentle.resolve_right not_false
    refine .withNode h fun n hn => .withNode h fun m hm => .plain (hI.operation hworks (.replace n m) nofun ?_ h)
    exact hloose.imp_right fun hloose hentwines => hloose ⟨n, m, hn, hm, hentwines⟩
  | listen ref event label failure steps =>
    have hworks : allowed.works := hgentle.resolve_right not_false
    refine .withNode h fun n _ => .plain
      (hI.operation hworks (.addListener n event _) (fun listener hadded => ?_) (Or.inr not_false) h)
    cases hadded
    rw [Step.Timeless] at htimeless
    exact ⟨trivial, Or.inl hworks, htimeless, hloose.imp_right Classical.not_not.mp⟩
  | build store file plan => exact leads_buildPlan hI hcb (hgentle.resolve_right not_false) h store file plan

/-- Steps of a script are done. -/
theorem leads_performLogged (h : I p) {steps : List Step} (hgentle : allowed.works ∨ ∀ step ∈ steps, step.Gentle)
    (htimeless : allowed.timely ∨ Step.AllTimeless steps) (hloose : allowed.entwines ∨ Step.AllLoose steps) :
    Leads I (performLogged cb steps) p := by
  induction steps generalizing p with
  | nil => exact .pure h _
  | cons step rest ih =>
    rw [Step.AllTimeless] at htimeless
    rw [Step.AllLoose] at hloose
    have hstep : step.Admitted allowed p :=
      ⟨hgentle.imp_right fun hall => hall step List.mem_cons_self, htimeless.imp_right And.left,
        hloose.imp_right fun hall => hall.1.not_entwines p⟩
    refine .bind (leads_perform hI hcb h hstep) fun reply p' h' => ?_
    refine .bind (.modify (hI.record h' _)) fun _ p'' h'' => ?_
    exact ih h'' (hgentle.imp_right fun hall other hmem => hall other (List.mem_cons_of_mem _ hmem))
      (htimeless.imp_right And.right) (hloose.imp_right And.right)

/-- A listener is run. -/
theorem leads_runListener (h : I p) {listener : Listener} (hlistener : listener.Admitted allowed)
    (event : Event) : Leads I (runListener cb listener event) p := by
  cases listener with
  | bound id handler => exact leads_runHandler hI hcb h id handler event
  | scripted label failure steps =>
    refine .bind (.modify (hI.record h _)) fun _ p' h' => ?_
    refine .bind (leads_performLogged hI hcb h' hlistener.gentle hlistener.timeless hlistener.loose) fun _ p'' h'' => ?_
    cases failure with
    | none => exact .pure h'' _
    | some message => exact .pure h'' _

end Engine

/-- However deep listeners and renders are nested, they keep what the operations keep. -/
theorem Invariant.keep_callbacks (hI : Invariant allowed I) (fuel : Nat) :
    (callbacks fuel).Keep allowed I := by
  induction fuel with
  | zero => exact ⟨fun _ _ _ _ => nofun, fun _ _ => nofun⟩
  | succ fuel ih =>
    exact ⟨fun listener event hlistener h => leads_runListener hI ih h hlistener event,
      fun id h => leads_renderNow hI ih h id⟩

/-- Nested runs keep what is steady. -/
theorem Steady.keep_callbacks (hI : Steady I) (fuel : Nat) : (callbacks fuel).Keep .gentle I :=
  hI.invariant.keep_callbacks fuel

/-- A step of a script is done from outside. -/
theorem leads_step (hI : Invariant allowed I) (h : I p) {step : Step} (hstep : step.Admitted allowed p)
    {fuel : Nat} : Leads I (Page.step fuel step) p := by
  have hcleared : I { p with latest := [] } := hI.aside h rfl rfl
  have hadmitted : step.Admitted allowed { p with latest := [] } :=
    ⟨hstep.gentle, hstep.timeless, hstep.loose.imp_right (mt (Step.entwines_latest p [] step).mp)⟩
  exact leads_perform hI (hI.keep_callbacks fuel) hcleared hadmitted

/-- The pages that a host comes to from a page by whole steps of a script, all of which leave the document alone. -/
inductive ReachesGently : Page → Page → Prop
  | refl (p : Page) : ReachesGently p p
  | step {p q q' : Page} {fuel : Nat} {step : Step} {reply : Reply} (h : ReachesGently p q) (hstep : step.Gentle)
      (hrun : Page.step fuel step q = some (reply, q')) : ReachesGently p q'

/-- What the operations keep holds on every page that the host comes to. -/
theorem Steady.reachesGently (hI : Steady I) {q : Page} (h : I p) (hreach : ReachesGently p q) : I q := by
  induction hreach with
  | refl => exact h
  | @step q _ _ _ _ _ hstep hrun ih =>
    exact leads_step hI.invariant ih ⟨Or.inr hstep, Or.inl trivial, Or.inl trivial⟩ _ _ hrun

end Page

end ReactiveTemplate
