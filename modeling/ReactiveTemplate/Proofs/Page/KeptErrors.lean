import ReactiveTemplate.Proofs.Page.Validation

/-!
# Errors that are kept

Nobody waits for a render that a timer started, so its error is kept with the component until it is asked for.
A later render that succeeds does not discard it. What is kept is the error of the last render that failed,
however many have succeeded since. Told here are the histories of a page on which listeners do not move the clock
themselves, so that what came of the timers is known in order.
-/

namespace ReactiveTemplate.Page

open Json

deriving instance DecidableEq for Firing

/-! ### Histories -/

/-- What bears on the errors that are kept: a timer fired, or the error of a component was asked for. -/
inductive Incident where
  | fired (firing : Firing)
  | taken (id : ComponentId)

/-- What an incident leaves of the error of a component, if it bears on it at all. -/
def Incident.leaves? (id : ComponentId) : Incident → Option (Option Error)
  | fired ⟨other, some (.error e)⟩ => if other = id then some (some e) else none
  | fired _ => none
  | taken other => if other = id then some none else none

/-- The error of a component that is kept after some incidents, of which the newest is the first. -/
def kept (id : ComponentId) (history : List Incident) : Option Error :=
  (history.findSome? (·.leaves? id)).getD none

/-- The pages that a host comes to with listeners that do not move the clock, and what happened meanwhile, the
newest first. -/
inductive ReachedWithIncidents : Page → List Incident → Prop
  | start {d : Document Listener} (hd : d.Carries Listener.Timeless) : ReachedWithIncidents (ofDocument d) []
  | step {p p' : Page} {history : List Incident} {fuel : Nat} {step : Step} {reply : Reply}
      (h : ReachedWithIncidents p history) (hstep : step.Timeless) (hrun : Page.step fuel step p = some (reply, p')) :
      ReachedWithIncidents p' history
  | build {p p' : Page} {history : List Incident} {fuel : Nat} {name : String} {b : Blueprint}
      {answer : Except Error ComponentId} (h : ReachedWithIncidents p history)
      (hrun : build (callbacks fuel) name b p = some (answer, p')) : ReachedWithIncidents p' history
  | advance {p p' : Page} {history : List Incident} {fuel milliseconds : Nat} {firings : List Firing}
      (h : ReachedWithIncidents p history) (hrun : advance (callbacks fuel) milliseconds p = some (firings, p')) :
      ReachedWithIncidents p' ((firings.map .fired).reverse ++ history)
  | settle {p p' : Page} {history : List Incident} {fuel : Nat} {firings : List Firing}
      (h : ReachedWithIncidents p history) (hrun : settle (callbacks fuel) p = some (firings, p')) :
      ReachedWithIncidents p' ((firings.map .fired).reverse ++ history)
  | take {p : Page} {history : List Incident} (h : ReachedWithIncidents p history) (id : ComponentId) :
      ReachedWithIncidents (p.takeError id).2 (.taken id :: history)

variable {p p' : Page} {id other : ComponentId} {e : Error} {history : List Incident} {fuel : Nat}

/-- The newest incident counts for the component that it bears on. -/
theorem kept_cons {incident : Incident} {error : Option Error}
    (h : incident.leaves? other = if id = other then some error else none) :
    kept other (incident :: history) = if id = other then error else kept other history := by
  rw [kept, List.findSome?_cons, h]
  by_cases heq : id = other
  · rw [if_pos heq, if_pos heq]
    rfl
  · rw [if_neg heq, if_neg heq]
    rfl

/-- A render that failed leaves its error. -/
theorem kept_failed :
    kept other (.fired ⟨id, some (.error e)⟩ :: history) = if id = other then some e else kept other history :=
  kept_cons rfl

/-- Asking leaves no error. -/
theorem kept_taken : kept other (.taken id :: history) = if id = other then none else kept other history :=
  kept_cons rfl

/-- An error is left only by a render that failed with it. -/
theorem Incident.eq_of_leaves? {incident : Incident} (h : incident.leaves? id = some (some e)) :
    incident = .fired ⟨id, some (.error e)⟩ := by
  rw [leaves?.eq_def] at h
  split at h
  · split at h
    · next heq =>
      cases h
      rw [heq]
    · cases h
  · cases h
  · split at h <;> cases h

/-- An incident does not bear on a component if it is neither a render of it that failed nor a question. -/
theorem Incident.leaves?_eq_none_iff {incident : Incident} :
    incident.leaves? id = none ↔ incident ≠ .taken id ∧ ∀ e, incident ≠ .fired ⟨id, some (.error e)⟩ := by
  constructor
  · intro h
    refine ⟨fun heq => ?_, fun e heq => ?_⟩ <;> simp [heq, leaves?] at h
  · rintro ⟨htaken, hfailed⟩
    rw [leaves?.eq_def]
    split
    · next other e => exact if_neg fun heq => hfailed e (by rw [heq])
    · rfl
    · next other => exact if_neg fun heq => htaken (by rw [heq])

/-- What is kept is the error of the last render that failed, if it was not asked for since. -/
theorem kept_eq_some_iff :
    kept id history = some e ↔
      ∃ later earlier, history = later ++ .fired ⟨id, some (.error e)⟩ :: earlier ∧ .taken id ∉ later ∧
        ∀ e', .fired ⟨id, some (.error e')⟩ ∉ later := by
  have hkept : kept id history = some e ↔ history.findSome? (·.leaves? id) = some (some e) := by
    rw [kept]
    cases history.findSome? (·.leaves? id) <;> simp
  rw [hkept, List.findSome?_eq_some_iff]
  constructor
  · rintro ⟨later, incident, earlier, rfl, hleaves, hlater⟩
    refine ⟨later, earlier, by rw [Incident.eq_of_leaves? hleaves], fun hmem => ?_, fun e' hmem => ?_⟩
    · exact (Incident.leaves?_eq_none_iff.mp (hlater _ hmem)).1 rfl
    · exact (Incident.leaves?_eq_none_iff.mp (hlater _ hmem)).2 e' rfl
  · rintro ⟨later, earlier, rfl, htaken, hfailed⟩
    refine ⟨later, _, earlier, rfl, if_pos rfl, fun incident hmem => Incident.leaves?_eq_none_iff.mpr ⟨?_, ?_⟩⟩
    · exact fun heq => htaken (heq ▸ hmem)
    · exact fun e' heq => hfailed e' (heq ▸ hmem)

/-! ### Pages -/

/-- Two records of a component with which the same error is kept. -/
def SameError (c c' : Component) : Prop :=
  c'.lastError = c.lastError

/-- The same error is kept with the same record. -/
theorem SameError.refl (c : Component) : SameError c c :=
  rfl

/-- The errors that the components keep, on a page on which listeners do not move the clock. -/
structure Keeping (errors : ComponentId → Option Error) (p : Page) : Prop where
  timeless : p.document.Carries Listener.Timeless
  errors : ∀ id, (p.component? id).bind Component.lastError = errors id

variable {errors : ComponentId → Option Error}

/-- Nothing happens to the errors. -/
theorem Keeping.keep (h : Keeping errors p)
    (hrel : ∀ id, Option.Rel SameError (p.component? id) (p'.component? id))
    (htimeless : p'.document.Carries Listener.Timeless) : Keeping errors p' where
  timeless := htimeless
  errors id := by
    rw [← h.errors id]
    have hrecords := hrel id
    generalize p.component? id = record, p'.component? id = record' at hrecords
    cases hrecords with
    | none => rfl
    | some hsame => exact hsame

/-- Runs that neither move the clock nor take errors leave the errors alone. -/
theorem invariant_keeping (errors : ComponentId → Option Error) : Invariant .timeless (Keeping errors) where
  gentle _ _ := Or.inl trivial
  carries h := h.timeless.mono fun htimeless => ⟨Or.inl trivial, Or.inr htimeless, Or.inl trivial⟩
  aside {p p'} h hdocument hcomponents := by
    refine h.keep (fun id => Component.rel_of_eq .refl ?_) (hdocument ▸ h.timeless)
    rw [component?, hcomponents, component?]
  write {p} id field value h := by
    refine h.keep (rel_write .refl (fun c => ?_) p id) ?_
    · rw [SameError, Component.write]
      split <;> rfl
    · rw [document_write]
      exact h.timeless
  mark h hc _ herror := h.keep (rel_setComponent .refl hc (herror.resolve_left not_false)) h.timeless
  swapIn {p} id h := by
    refine h.keep (rel_swapIn (fun _ _ _ => rfl) p id) ?_
    cases hc : p.component? id with
    | none =>
      rw [swapIn, hc]
      exact h.timeless
    | some c => exact carries_swapIn h.timeless hc (fun _ => trivial) rfl
  operation _ _ o ho _ h :=
    h.keep (fun _ => Component.rel_of_eq .refl rfl)
      (h.timeless.operation o fun listener hadded => (ho listener hadded).2.timeless.resolve_left not_false)
  mount _ {p b c} h hprepare := by
    refine ⟨h.timeless, fun id => ?_⟩
    rw [← h.errors id, component?, component?, List.getElem?_append]
    split
    · rfl
    · next hlt =>
      -- The component that was put on the page has not been rendered yet.
      obtain ⟨_, _, _, _, _, _, _, rfl⟩ := Blueprint.exists_of_prepare hprepare
      rw [List.getElem?_eq_none (Nat.le_of_not_lt hlt), List.getElem?_singleton]
      split <;> rfl

/-- The error of a component is replaced. -/
theorem Keeping.set (h : Keeping errors p) {error : Option Error}
    (hid : error.isSome → ∃ c, p.component? id = some c) :
    Keeping (fun other => if id = other then error else errors other)
      (p.updateComponent id fun c => { c with lastError := error }) where
  timeless := h.timeless
  errors other := by
    rw [component?_updateComponent]
    split
    · next heq =>
      subst heq
      cases hc : p.component? id with
      | some c => rfl
      | none =>
        cases error with
        | none => rfl
        | some e =>
          obtain ⟨c, hfound⟩ := hid rfl
          rw [hc] at hfound
          cases hfound
    · exact h.errors other

/-- A render that fails is one of a component that is there. -/
theorem exists_of_renderNow_error {cb : Callbacks} (hrun : renderNow cb id p = some (.error e, p')) :
    ∃ c, p.component? id = some c := by
  cases hc : p.component? id with
  | some c => exact ⟨c, rfl⟩
  | none =>
    have hswap : p.swapIn id = (.ok (), p) := by rw [swapIn, hc]
    rw [renderNow, Run.plain_bind, hswap] at hrun
    dsimp only at hrun
    rw [Run.look_bind, hc] at hrun
    cases hrun

/-- When a timer fires, its render leaves an error if it fails, and nothing else happens to the errors. -/
theorem Keeping.fire {firing : Firing} (h : Keeping (kept · history) p)
    (hrun : fire (callbacks fuel) id p = some (firing, p')) :
    Keeping (kept · (.fired firing :: history)) p' := by
  have hkeeping := invariant_keeping (kept · history)
  rw [Page.fire, modify_bind, Run.look_bind] at hrun
  have hfired := hkeeping.fired h id
  generalize (p.updateComponent id fun c => { c with scheduler := c.scheduler.fired }) = q at hfired hrun
  split at hrun
  · obtain ⟨result, after, hwhile, hend⟩ := bind_eq_some.mp hrun
    have hrendered : Keeping (kept · history) after :=
      Leads.whileRunning hkeeping hfired
        (fun r hr => leads_renderNow hkeeping (hkeeping.keep_callbacks fuel) hr id) _ _ hwhile
    cases result with
    | ok u =>
      cases hend
      exact hrendered
    | error e =>
      cases hend
      have hthere : ∃ c, after.component? id = some c := by
        obtain ⟨r, hrender, rfl⟩ := whileRunning_eq_some.mp hwhile
        obtain ⟨c, hc⟩ := exists_of_renderNow_error hrender
        obtain ⟨c', hc', _⟩ := (Ensues.refl.resumes.renderNow hrender).ensues.lasts hc
        exact ⟨c', hc'⟩
      simp only [kept_failed]
      exact hrendered.set fun _ => hthere
  · cases hrun
    exact hfired

/-- The errors that components keep are those that the history tells of. -/
theorem ReachedWithIncidents.keeping (h : ReachedWithIncidents p history) : Keeping (kept · history) p := by
  induction h with
  | start hd => exact ⟨hd, fun _ => rfl⟩
  | step _ hstep hrun ih =>
    exact leads_step (invariant_keeping _) ih ⟨Or.inl trivial, Or.inr hstep, Or.inl trivial⟩ _ _ hrun
  | @build _ _ history _ _ _ _ _ hrun ih =>
    have hkeeping := invariant_keeping (kept · history)
    exact leads_build hkeeping (hkeeping.keep_callbacks _) trivial ih _ _ _ _ hrun
  | @advance _ _ history fuel _ _ _ hrun ih =>
    rw [← List.foldl_flip_cons_eq_append]
    exact @ClockHost.advance_holds _ _ _ (List Incident) (host (callbacks fuel)) (fun q told => Keeping (kept · told) q)
      (fun told firing => .fired firing :: told) (fun _ h => (invariant_keeping _).aside h rfl rfl)
      (fun h hfire => h.fire hfire) _ _ _ _ history _ ih hrun
  | @settle _ _ history fuel _ _ hrun ih =>
    rw [← List.foldl_flip_cons_eq_append]
    exact @ClockHost.settle_holds _ _ _ (List Incident) (host (callbacks fuel)) (fun q told => Keeping (kept · told) q)
      (fun told firing => .fired firing :: told) (fun _ h => (invariant_keeping _).aside h rfl rfl)
      (fun h hfire => h.fire hfire) _ _ _ _ history _ ih hrun
  | @take q _ _ id ih =>
    simp only [kept_taken]
    have hnothing : (none : Option Error).isSome → ∃ c, q.component? id = some c := nofun
    exact ih.set hnothing

/-- An error is answered exactly when a render that a timer started has failed with it, no such render of the
component has failed since, and none of its errors was taken since. Renders that have succeeded since do not
matter. -/
theorem ReachedWithIncidents.takeError_iff (h : ReachedWithIncidents p history) (id : ComponentId) (e : Error) :
    (p.takeError id).1 = some e ↔
      ∃ later earlier, history = later ++ .fired ⟨id, some (.error e)⟩ :: earlier ∧ .taken id ∉ later ∧
        ∀ e', .fired ⟨id, some (.error e')⟩ ∉ later := by
  rw [takeError, h.keeping.errors id]
  exact kept_eq_some_iff

/-- A lamp that is shown as long as it is lit. -/
def lamp : Blueprint where
  mount := .selector "div"
  name := none
  template := some "<p v-if='lit'>x</p>"
  data := .object [("lit", .bool true)]
  interval := 10
  methods := []
  computed := []
  hook := none

/-- The page with the lamp. -/
def lighted : Except Error ComponentId × Page :=
  (build (callbacks 2) "lamp" lamp stage).get (by decide +kernel)

/-- The page after a write that leaves nothing to be shown. -/
def dimmed : Reply × Page :=
  (step 3 (.component "lamp" none (.set "lit" (.bool false))) lighted.2).get (by decide +kernel)

/-- The page when the render has failed that this write led to. -/
def outage : List Firing × Page :=
  (advance (callbacks 3) 10 dimmed.2).get (by decide +kernel)

/-- The page after a write that lights the lamp again. -/
def relighted : Reply × Page :=
  (step 3 (.component "lamp" none (.set "lit" (.bool true))) outage.2).get (by decide +kernel)

/-- The page when the render has succeeded that this write led to. -/
def recovered : List Firing × Page :=
  (advance (callbacks 3) 10 relighted.2).get (by decide +kernel)

/-- What happened to the lamp: a render failed, and one succeeded after it. -/
theorem reachedWithIncidents_recovered :
    ReachedWithIncidents recovered.2
      [.fired ⟨0, some (.ok ())⟩, .fired ⟨0, some (.error (.structural (.topLevelNodes 0)))⟩] := by
  have hbuild : build (callbacks 2) "lamp" lamp stage = some lighted := (Option.some_get _).symm
  have hdim : Page.step 3 (.component "lamp" none (.set "lit" (.bool false))) lighted.2 = some dimmed :=
    (Option.some_get _).symm
  have hfail : advance (callbacks 3) 10 dimmed.2 = some outage := (Option.some_get _).symm
  have hlight : Page.step 3 (.component "lamp" none (.set "lit" (.bool true))) outage.2 = some relighted :=
    (Option.some_get _).symm
  have hrecover : advance (callbacks 3) 10 relighted.2 = some recovered := (Option.some_get _).symm
  have hfailed : outage.1 = [⟨0, some (.error (.structural (.topLevelNodes 0)))⟩] := by decide +kernel
  have hrendered : recovered.1 = [⟨0, some (.ok ())⟩] := by decide +kernel
  have htimeless (value : Value) : Step.Timeless (.component "lamp" none (.set "lit" value)) := by
    simp [Step.Timeless]
  have hlighted : ReachedWithIncidents lighted.2 [] := .build (.start carries_stage) (eq_some_of_fst hbuild rfl)
  have hdimmed : ReachedWithIncidents dimmed.2 [] := .step hlighted (htimeless _) (eq_some_of_fst hdim rfl)
  have hout := hdimmed.advance (eq_some_of_fst hfail hfailed)
  have hrelighted := hout.step (htimeless _) (eq_some_of_fst hlight rfl)
  exact hrelighted.advance (eq_some_of_fst hrecover hrendered)

/-- The lamp is shown again, and its error is still there. -/
theorem ReachedWithIncidents.takeError_recovered :
    ReachedWithIncidents recovered.2
        [.fired ⟨0, some (.ok ())⟩, .fired ⟨0, some (.error (.structural (.topLevelNodes 0)))⟩] ∧
      (recovered.2.takeError 0).1 = some (.structural (.topLevelNodes 0)) := by
  refine ⟨reachedWithIncidents_recovered, (reachedWithIncidents_recovered.takeError_iff 0 _).mpr ?_⟩
  refine ⟨[.fired ⟨0, some (.ok ())⟩], [], rfl, fun hmem => ?_, fun e' hmem => ?_⟩
  · cases List.mem_singleton.mp hmem
  · cases List.mem_singleton.mp hmem

/-- The last render that a timer started has succeeded, and yet an error is answered. -/
theorem takeError_after_success :
    (∃ history, ReachedWithIncidents recovered.2 (.fired ⟨0, some (.ok ())⟩ :: history)) ∧
      (recovered.2.takeError 0).1 = some (.structural (.topLevelNodes 0)) :=
  ⟨⟨_, reachedWithIncidents_recovered⟩, by decide +kernel⟩

end ReactiveTemplate.Page
