import ReactiveTemplate.Proofs.Page.Calm

/-!
# Events without a render

The dispatch of an event renders nothing at once if the listeners that it reaches write only to fields
that may be written. What they write is left to the timers that they arm.
-/

namespace ReactiveTemplate

open Json

/-- Kin are restrained alike. -/
theorem Component.Kin.restrained {c c' : Component} (h : Kin c c') (hr : c.Restrained) :
    c'.Restrained := by
  have hmono : ∀ {program : Program}, program.Modest c.Writable → program.Modest c'.Writable := by
    intro program hmodest
    exact hmodest.mono h.writable
  constructor
  · intro name body hbody arguments
    rw [h.methods] at hbody
    exact hmono (hr.methods hbody arguments)
  · intro program hprogram
    rw [h.hook] at hprogram
    exact hmono (hr.hook hprogram)

namespace Page

variable {α β : Type} {p p' : Page} {id : ComponentId}

/-- The methods and the hook of a component of the page are restrained. -/
def Restrained (p : Page) (id : ComponentId) : Prop :=
  ∀ c, p.component? id = some c → c.Restrained

/-- Who is restrained stays so. -/
theorem Undisturbed.restrained (h : Undisturbed p p') (hr : p.Restrained id) : p'.Restrained id := by
  intro c' hc'
  obtain ⟨c, hc, hmoved⟩ := h.before hc'
  exact hmoved.restrained (hr c hc)

/-- Who is alive stays so, and nobody comes alive. -/
theorem Undisturbed.isAlive (h : Undisturbed p p') (id : ComponentId) : p'.isAlive id = p.isAlive id := by
  rw [Page.isAlive, Page.isAlive, h.handles, h.running]

/-! ## Handlers -/

/-- An action of a handler renders nothing. -/
theorem calm_runAction (cb : Callbacks) (event : Event) {action : Action Expression Value}
    (hr : p.Restrained id) (hw : ∀ target e, action = .assign target e → p.Writable id target) :
    Calm (runAction cb id event action) p := by
  cases action with
  | assign target e =>
    refine .bind (.plain (undisturbed_value p id e)) fun result p' hp' => ?_
    cases result with
    | error e => exact .pure _
    | ok value =>
      have hwrite := undisturbed_write (hp'.writable (hw target e rfl)) value
      refine .bind (.plain hwrite) fun result p'' _ => ?_
      cases result with
      | error e => exact .pure _
      | ok changed => exact .pure _
  | invoke method arguments =>
    refine .look _ ?_
    cases hbody : (p.component? id).bind (·.methods.lookup method) with
    | none => exact .pure _
    | some body =>
      obtain ⟨c, hc, hlookup⟩ := Option.bind_eq_some_iff.mp hbody
      exact calm_runProgram cb (((hr c hc).methods hlookup _).mono (writable_of_component? hc))

/-- Actions of a handler render nothing, whether they come to their end or fail. -/
theorem calm_runActions (cb : Callbacks) (event : Event) {actions : List (Action Expression Value)}
    (hr : p.Restrained id) (hw : ∀ target e, .assign target e ∈ actions → p.Writable id target) :
    Calm (runActions cb id event actions) p := by
  induction actions generalizing p with
  | nil => exact .pure _
  | cons action rest ih =>
    have hfirst := calm_runAction cb event hr fun target e heq => hw target e (heq ▸ List.mem_cons_self)
    refine .bind hfirst fun result p' hp' => ?_
    cases result with
    | error e => exact .pure _
    | ok u =>
      refine ih (hp'.restrained hr) fun target e hmem => hp'.writable ?_
      exact hw target e (List.mem_cons_of_mem _ hmem)

/-- A handler renders nothing. -/
theorem calm_runHandler (cb : Callbacks) (event : Event) {handler : Handler}
    (hr : p.isAlive id = true → p.Restrained id)
    (hw : ∀ target e, .assign target e ∈ handler.actions → p.Writable id target) :
    Calm (runHandler cb id handler event) p := by
  refine .look _ ?_
  cases halive : p.isAlive id with
  | false => exact .pure _
  | true =>
    have hactions : Calm (runActions cb id event handler.actions)
        { p with running := id :: p.running } := calm_runActions cb event (hr halive) hw
    refine .bind (.whileRunning hactions) fun result p' _ => ?_
    cases result with
    | error e => exact .pure _
    | ok u => exact .pure _

/-! ## Listeners of the host -/

/-- A request that renders nothing, writes only to a field that may be written, and leaves deferred
actions alone. -/
def Request.Considerate (p : Page) (name : String) : Request → Prop
  | .set field _ => ∀ id, p.handles.lookup name = some id → p.Writable id field
  | .render | .requestFollowUp | .takeFollowUp => False
  | _ => True

/-- A step that only looks at the page, or makes a considerate request. -/
def Step.Considerate (p : Page) : Step → Prop
  | .body | .ask _ _ | .query _ _ | .timers => True
  | .component name _ request => request.Considerate p name
  | _ => False

/-- The page tolerates a listener that writes only to fields that may be written. -/
def Tolerates (p : Page) : Listener → Prop
  | .bound id handler => ∀ target e, .assign target e ∈ handler.actions → p.Writable id target
  | .scripted _ _ steps => ∀ step ∈ steps, step.Considerate p

/-- Who is considerate stays so. -/
theorem Undisturbed.considerate (h : Undisturbed p p') {step : Step} (hs : step.Considerate p) :
    step.Considerate p' := by
  cases step with
  | body | ask | query | timers => exact trivial
  | component name file request =>
    cases request with
    | set field value =>
      intro id hid
      rw [h.handles] at hid
      exact h.writable (hs id hid)
    | get | data | evaluate | computed | takeError | name => exact trivial
    | render | requestFollowUp | takeFollowUp => exact hs.elim
  | createElement | createText | edit | append | replace | dispatch | listen | advance | idle | build
  | drop => exact hs.elim

/-- Listeners that are tolerated stay so. -/
theorem Undisturbed.tolerates (h : Undisturbed p p') {listener : Listener}
    (hl : p.Tolerates listener) : p'.Tolerates listener := by
  cases listener with
  | bound id handler => exact fun target e hmem => h.writable (hl target e hmem)
  | scripted label failure steps => exact fun step hstep => h.considerate (hl step hstep)

/-- A considerate request renders nothing. -/
theorem calm_request (cb : Callbacks) (file : Option String) {name : String} {request : Request}
    (hid : p.handles.lookup name = some id) (h : request.Considerate p name) :
    Calm (Page.request cb id file request) p := by
  cases request with
  | set field value =>
    refine .bind (.plain (undisturbed_write (h id hid) value)) fun result p' _ => ?_
    cases result with
    | error e => exact .pure _
    | ok changed => exact .pure _
  | get field => exact .look _ (.pure _)
  | data => exact .view _
  | evaluate source =>
    refine .bind (.plain (undisturbed_evaluate p id source)) fun result p' _ => ?_
    cases result with
    | error e => exact .pure _
    | ok value => exact .pure _
  | computed field =>
    refine .plain ?_
    split
    · exact .record p _
    · exact .refl p
  | takeError =>
    refine .bind (.plain (undisturbed_takeError p id)) fun result p' _ => ?_
    cases result with
    | none => exact .pure _
    | some e => exact .pure _
  | name => exact .view _
  | render | requestFollowUp | takeFollowUp => exact h.elim

/-- A considerate step renders nothing. -/
theorem calm_perform (cb : Callbacks) {step : Step} (h : step.Considerate p) :
    Calm (perform cb step) p := by
  cases step with
  | body | timers => exact .view _
  | ask ref question =>
    refine .look _ ?_
    cases p.node? ref with
    | none => exact .pure _
    | some n => exact .view _
  | query selector store =>
    refine .plain ?_
    split
    · cases store with
      | none => exact .refl p
      | some name => exact .of_eq rfl rfl rfl rfl
    · exact .refl p
  | component name file request =>
    refine .look _ ?_
    cases hid : p.handles.lookup name with
    | none => exact .pure _
    | some id =>
      have hrequest : Calm (Page.request cb id file request) { p with running := id :: p.running } :=
        calm_request cb file hid h
      exact .whileRunning hrequest
  | createElement | createText | edit | append | replace | dispatch | listen | advance | idle | build
  | drop => exact h.elim

/-- Considerate steps render nothing. -/
theorem calm_performLogged (cb : Callbacks) {steps : List Step} (h : ∀ step ∈ steps, step.Considerate p) :
    Calm (performLogged cb steps) p := by
  induction steps generalizing p with
  | nil => exact .pure _
  | cons step rest ih =>
    refine .bind (calm_perform cb (h step List.mem_cons_self)) fun reply p' hp' => ?_
    refine .bind (.modify (.record p' _)) fun _ p'' hp'' => ih fun other hmem => ?_
    exact hp''.considerate (hp'.considerate (h other (List.mem_cons_of_mem _ hmem)))

/-! ## Dispatch -/

/-- A listener that is tolerated renders nothing. -/
theorem calm_runListener (cb : Callbacks) (event : Event) {listener : Listener}
    (hr : ∀ id, p.isAlive id = true → p.Restrained id) (h : p.Tolerates listener) :
    Calm (runListener cb listener event) p := by
  cases listener with
  | bound id handler => exact calm_runHandler cb event (hr id) h
  | scripted label failure steps =>
    refine .bind (.modify (.record p _)) fun _ p' hp' => ?_
    have hsteps := calm_performLogged cb fun step hstep => hp'.considerate (h step hstep)
    refine .bind hsteps fun _ p'' _ => ?_
    cases failure with
    | none => exact .pure _
    | some message => exact .pure _

/-- A listener that is tolerated renders nothing however deep it is nested. -/
theorem calm_listener (fuel : Nat) (event : Event) {listener : Listener}
    (hr : ∀ id, p.isAlive id = true → p.Restrained id) (h : p.Tolerates listener) :
    Calm ((callbacks fuel).listener listener event) p := by
  cases fuel with
  | zero =>
    intro a p' hrun
    cases hrun
  | succ fuel => exact calm_runListener (callbacks fuel) event hr h

/-- Listeners that are tolerated render nothing, one after another. -/
theorem calm_runListeners (fuel : Nat) (event : Event) {listeners : List Listener}
    (hr : ∀ id, p.isAlive id = true → p.Restrained id) (h : ∀ l ∈ listeners, p.Tolerates l) :
    Calm (runListeners ((callbacks fuel).listener · event) listeners) p := by
  induction listeners generalizing p with
  | nil => exact .pure _
  | cons listener rest ih =>
    refine .bind (calm_listener fuel event hr (h listener List.mem_cons_self)) fun result p' hp' => ?_
    cases result with
    | error e => exact .pure _
    | ok u =>
      refine ih (fun id halive => ?_) fun l hl => ?_
      · rw [hp'.isAlive] at halive
        exact hp'.restrained (hr id halive)
      · exact hp'.tolerates (h l (List.mem_cons_of_mem _ hl))

/-- The dispatch of an event that reaches only listeners that are tolerated renders nothing. -/
theorem calm_dispatch (fuel : Nat) (target : NodeId) (event : String) (detail : Value)
    (hr : ∀ id, p.isAlive id = true → p.Restrained id)
    (h : ∀ l ∈ p.document.listenersFor target event, p.Tolerates l) :
    Calm (dispatch (callbacks fuel) target event detail) p := by
  refine .look _ ?_
  dsimp only
  split
  · refine .bind (calm_runListeners fuel ⟨event, detail, target⟩ hr h) fun result p' _ => ?_
    cases result with
    | error e => exact .pure _
    | ok u => exact .pure _
  · exact .pure _

end Page

end ReactiveTemplate
