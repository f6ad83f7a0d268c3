import ReactiveTemplate.Proofs.Page.Steady

/-!
# What a handler does

A handler runs its actions in order, up to the first that fails. An assignment evaluates its value without any scope,
on the fields as the actions before it have left them; a call passes on what its handler was bound with, and the
event. As long as methods do no more than read and write, the dispatch renders nothing: the document, the root and
the number of renders are the same at every moment of it, and what is written is left to a later render.
-/

namespace ReactiveTemplate

open Json

/-- The value that a method gets for an argument when an event is dispatched. -/
def Argument.received (event : Event) : Argument Value → Value
  | .event => event.toValue
  | .given value => value

/-- The store after a write to a field, which changes nothing if there is no such field or its value is strictly
equal. -/
def Store.overwrite (store : Store) (field : String) (value : Value) : Store :=
  match store.write? field value with
  | some (_, store) => store
  | none => store

/-- The methods of a component do no more than read, evaluate and write. -/
def Component.Modest (c : Component) : Prop :=
  ∀ {name body}, c.methods.lookup name = some body → ∀ arguments, (body arguments).Modest fun _ => True

/-- Kin are modest alike. -/
theorem Component.Kin.modest {c c' : Component} (h : c.Kin c') (hc : c.Modest) : c'.Modest :=
  fun hbody arguments => hc (h.methods ▸ hbody) arguments

/-- A write puts the value into the store. -/
theorem Component.store_write (c : Component) (field : String) (value : Value) :
    (c.write field value).2.2.store = c.store.overwrite field value := by
  rw [write, Store.overwrite, Store.write?]
  cases c.store.find? field with
  | none => rfl
  | some old =>
    rw [Option.map_some]
    cases Expression.strictEqual old value with
    | true => rfl
    | false => cases Store.isPrivate field <;> rfl

/-- A write that changes the value of a public field is a request to the scheduler. Any other leaves it alone. -/
theorem Component.scheduler_write (c : Component) (field : String) (value : Value) :
    ((c.write field value).1 = .ok true ∧ Store.isPrivate field = false) ∧
        ((c.write field value).2.1, (c.write field value).2.2.scheduler) = c.scheduler.request ∨
      ¬ ((c.write field value).1 = .ok true ∧ Store.isPrivate field = false) ∧
        ((c.write field value).2.1, (c.write field value).2.2.scheduler) = (false, c.scheduler) := by
  rw [write, Store.write?]
  cases c.store.find? field with
  | none => simp
  | some old =>
    rw [Option.map_some]
    cases Expression.strictEqual old value with
    | true => simp
    | false =>
      cases Store.isPrivate field with
      | true => simp
      | false => simp [requestRender, Scheduler.request]

/-- A write asks for a render exactly if it changes the value of a public field. -/
theorem Component.pending_write (c : Component) (field : String) (value : Value) :
    (c.write field value).2.2.scheduler.pending = true ↔
      c.scheduler.pending = true ∨ (c.write field value).1 = .ok true ∧ Store.isPrivate field = false := by
  rcases c.scheduler_write field value with ⟨hchanged, hrequest⟩ | ⟨hkept, hsame⟩
  · obtain ⟨_, hscheduler⟩ := Prod.mk.inj hrequest
    rw [hscheduler]
    exact iff_of_true rfl (Or.inr hchanged)
  · obtain ⟨_, hscheduler⟩ := Prod.mk.inj hsame
    rw [hscheduler, or_iff_left hkept]

/-- A write arms a timer exactly if it changes the value of a public field while no render is pending. -/
theorem Component.arms_write (c : Component) (field : String) (value : Value) :
    (c.write field value).2.1 = true ↔
      c.scheduler.pending = false ∧ (c.write field value).1 = .ok true ∧ Store.isPrivate field = false := by
  rcases c.scheduler_write field value with ⟨hchanged, hrequest⟩ | ⟨hkept, hsame⟩
  · obtain ⟨harms, _⟩ := Prod.mk.inj hrequest
    rw [harms, and_iff_left hchanged, Bool.not_eq_true']
  · obtain ⟨harms, _⟩ := Prod.mk.inj hsame
    rw [harms]
    exact iff_of_false Bool.false_ne_true fun h => hkept h.2

/-- A write leaves the delay of the scheduler as it is. -/
theorem Component.interval_write (c : Component) (field : String) (value : Value) :
    (c.write field value).2.2.scheduler.interval = c.scheduler.interval := by
  rcases c.scheduler_write field value with ⟨_, hrequest⟩ | ⟨_, hsame⟩
  · rw [(Prod.mk.inj hrequest).2]
  · rw [(Prod.mk.inj hsame).2]

namespace Page

variable {p p' q r : Page} {id : ComponentId} {c : Component} {cb : Callbacks} {occurrence : Event}

/-! ### Moments -/

/-- A moment of a run: the page when a command is given, and the field and the value if it is a write. -/
structure Moment where
  page : Page
  written : Option (String × Value)

/-- The store after what is written at a moment. -/
def Moment.onto (store : Store) (m : Moment) : Store :=
  match m.written with
  | some (field, value) => store.overwrite field value
  | none => store

/-- The value of a public field of a component is changed at a moment. -/
def Moment.Alters (id : ComponentId) (m : Moment) : Prop :=
  ∃ field value, m.written = some (field, value) ∧ (m.page.write id field value).1 = .ok true ∧
    Store.isPrivate field = false

/-- Between two pages nothing happened that can be seen: the document is the same, no render was completed, and at
most one component was written to. -/
structure Still (id : ComponentId) (p q : Page) : Prop where
  document : q.document = p.document
  handles : q.handles = p.handles
  others : ∀ other, other ≠ id → q.component? other = p.component? other
  record : ∀ {c}, p.component? id = some c → ∃ c', q.component? id = some c' ∧ c.Touched c'

namespace Still

/-- Nothing happened. -/
theorem refl (id : ComponentId) (p : Page) : Still id p p :=
  ⟨rfl, rfl, fun _ _ => rfl, fun {c} hc => ⟨c, hc, .refl c⟩⟩

/-- First nothing happened, and then nothing. -/
theorem trans (h : Still id p q) (h' : Still id q r) : Still id p r where
  document := h'.document.trans h.document
  handles := h'.handles.trans h.handles
  others other hne := (h'.others other hne).trans (h.others other hne)
  record hc := by
    obtain ⟨c', hc', htouched⟩ := h.record hc
    obtain ⟨c'', hc'', hmore⟩ := h'.record hc'
    exact ⟨c'', hc'', htouched.toKin.trans hmore.toKin, hmore.root.trans htouched.root,
      hmore.renderCount.trans htouched.renderCount⟩

end Still

/-- What a run does to a page through the commands at some moments: all the time nothing happens that can be seen, and
at the end everything was written in order to the store of one component. A render of it is pending if one was before,
or if the value of a public field was changed. -/
structure Passage (id : ComponentId) (p : Page) (moments : List Moment) (p' : Page) : Prop where
  meanwhile : ∀ m ∈ moments, Still id p m.page
  still : Still id p p'
  store : ∀ {c c'}, p.component? id = some c → p'.component? id = some c' →
    c'.store = moments.foldl Moment.onto c.store
  pending : ∀ {c c'}, p.component? id = some c → p'.component? id = some c' →
    (c'.scheduler.pending = true ↔ c.scheduler.pending = true ∨ ∃ m ∈ moments, m.Alters id)

namespace Passage

variable {moments more : List Moment}

/-- No command was given. -/
theorem refl (id : ComponentId) (p : Page) : Passage id p [] p where
  meanwhile _ hm := absurd hm List.not_mem_nil
  still := .refl id p
  store hc hc' := by
    rw [hc] at hc'
    cases hc'
    rfl
  pending hc hc' := by
    rw [hc] at hc'
    cases hc'
    simp

/-- One part of a run after another. -/
theorem trans (h : Passage id p moments q) (h' : Passage id q more r) : Passage id p (moments ++ more) r where
  meanwhile m hm := (List.mem_append.mp hm).elim (h.meanwhile m) fun hm => h.still.trans (h'.meanwhile m hm)
  still := h.still.trans h'.still
  store hc hc'' := by
    obtain ⟨c', hc', _⟩ := h.still.record hc
    rw [h'.store hc' hc'', h.store hc hc', List.foldl_append]
  pending hc hc'' := by
    obtain ⟨c', hc', _⟩ := h.still.record hc
    rw [h'.pending hc' hc'', h.pending hc hc', or_assoc]
    simp only [List.mem_append, or_and_right, exists_or]

/-- A command that writes nothing. -/
theorem look (h : Still id p q)
    (hrecord : ∀ {c c'}, p.component? id = some c → q.component? id = some c' →
      c'.store = c.store ∧ c'.scheduler = c.scheduler) : Passage id p [⟨p, none⟩] q where
  meanwhile m hm := by
    rw [List.mem_singleton.mp hm]
    exact .refl id p
  still := h
  store hc hc' := (hrecord hc hc').1
  pending hc hc' := by
    rw [(hrecord hc hc').2]
    simp [Moment.Alters]

/-- A command that is only noted in the log. -/
theorem record (id : ComponentId) (p : Page) (entries : List Entry) : Passage id p [⟨p, none⟩] (p.record entries) := by
  refine look ⟨rfl, rfl, fun _ _ => rfl, fun {c} hc => ⟨c, hc, .refl c⟩⟩ fun {c c'} hc hc' => ?_
  have hsame : some c = some c' := hc.symm.trans hc'
  cases hsame
  exact ⟨rfl, rfl⟩

/-- A source is evaluated. -/
theorem evaluate (id : ComponentId) (p : Page) (source : String) :
    Passage id p [⟨p, none⟩] (p.evaluate id source).2 := by
  rw [Page.evaluate]
  cases hc : p.component? id with
  | none => exact record id p []
  | some c =>
    have hrecord (other : ComponentId) := component?_setComponent hc (c.evaluate source).2.2 other
    obtain ⟨hmarked, _⟩ := c.marked_evaluate source
    refine look ⟨rfl, rfl, fun other hne => (hrecord other).trans (if_neg hne.symm), fun {c₀} hc₀ => ?_⟩
      fun {c₀ c'} hc₀ hc' => ?_
    · rw [hc] at hc₀
      cases hc₀
      exact ⟨_, (hrecord id).trans (if_pos rfl), hmarked.toKin, hmarked.root, hmarked.renderCount⟩
    · rw [hc] at hc₀
      cases hc₀
      cases ((hrecord id).trans (if_pos rfl)).symm.trans hc'
      rw [Component.evaluate]
      split <;> exact ⟨rfl, rfl⟩

/-- A field is written. -/
theorem write (id : ComponentId) (p : Page) (field : String) (value : Value) :
    Passage id p [⟨p, some (field, value)⟩] (p.write id field value).2 := by
  have hrecord (other : ComponentId) := component?_write p id field value other
  have hanswer {c : Component} (hc : p.component? id = some c) :
      (p.write id field value).1 = (c.write field value).1 := by
    rw [Page.write, hc]
  have hhandles : (p.write id field value).2.handles = p.handles := by
    rw [Page.write]
    split
    · rfl
    · dsimp only
      split <;> rfl
  refine ⟨fun m hm => ?_, ⟨document_write p id field value, hhandles, fun other hne => ?_, fun {c} hc => ?_⟩,
    fun {c c'} hc hc' => ?_, fun {c c'} hc hc' => ?_⟩
  · rw [List.mem_singleton.mp hm]
    exact .refl id p
  · rw [hrecord, if_neg hne.symm]
  · exact ⟨_, by rw [hrecord, if_pos rfl, hc, Option.map_some], c.touched_write field value⟩
  · rw [hrecord, if_pos rfl, hc, Option.map_some] at hc'
    cases hc'
    exact c.store_write field value
  · rw [hrecord, if_pos rfl, hc, Option.map_some] at hc'
    cases hc'
    rw [c.pending_write, ← hanswer hc]
    simp [Moment.Alters]

end Passage

/-! ### Methods -/

/-- How a program that only reads and writes runs on a component: with which result, through which moments, and to
which page. -/
inductive Runs (id : ComponentId) : Page → Program → Except Error Unit → List Moment → Page → Prop
  | done {p : Page} : Runs id p .done (.ok ()) [] p
  | fail {p : Page} {e : Error} : Runs id p (.fail e) (.error e) [] p
  | get {p p' : Page} {field : String} {next : Option Value → Program} {result : Except Error Unit}
      {moments : List Moment} (h : Runs id p (next (p.field? id field)) result moments p') :
      Runs id p (.get field next) result (⟨p, none⟩ :: moments) p'
  | set {p p' : Page} {field : String} {value : Value} {next : Except Error Bool → Program}
      {result : Except Error Unit} {moments : List Moment}
      (h : Runs id (p.write id field value).2 (next (p.write id field value).1) result moments p') :
      Runs id p (.set field value next) result (⟨p, some (field, value)⟩ :: moments) p'
  | evaluate {p p' : Page} {source : String} {next : Except Error Value → Program} {result : Except Error Unit}
      {moments : List Moment}
      (h : Runs id (p.evaluate id source).2 (next (p.evaluate id source).1) result moments p') :
      Runs id p (.evaluate source next) result (⟨p, none⟩ :: moments) p'
  | renderCount {p p' : Page} {next : Nat → Program} {result : Except Error Unit} {moments : List Moment}
      (h : Runs id p (next (((p.component? id).map Component.renderCount).getD 0)) result moments p') :
      Runs id p (.renderCount next) result (⟨p, none⟩ :: moments) p'
  | note {p p' : Page} {entry : Note} {next : Program} {result : Except Error Unit} {moments : List Moment}
      (h : Runs id (p.addNotes [entry]) next result moments p') :
      Runs id p (.note entry next) result (⟨p, none⟩ :: moments) p'

/-- What the run of a program does to the page. -/
theorem Runs.passage {program : Program} {result : Except Error Unit} {moments : List Moment}
    (h : Runs id p program result moments p') : Passage id p moments p' := by
  induction h with
  | done | fail => exact .refl id _
  | get _ ih | renderCount _ ih => exact (Passage.record id _ []).trans ih
  | set _ ih => exact (Passage.write id _ _ _).trans ih
  | evaluate _ ih => exact (Passage.evaluate id _ _).trans ih
  | note _ ih => exact (Passage.record id _ _).trans ih

/-- A program that only reads and writes comes to an end, whatever it is answered. -/
theorem exists_runs (cb : Callbacks) (id : ComponentId) {program : Program} (h : program.Modest fun _ => True)
    (p : Page) :
    ∃ result moments p', runProgram cb id program p = some (result, p') ∧ Runs id p program result moments p' := by
  induction program generalizing p with
  | done => exact ⟨_, _, _, rfl, .done⟩
  | fail e => exact ⟨_, _, _, rfl, .fail⟩
  | get field next ih =>
    obtain ⟨result, moments, p', hrun, hruns⟩ := ih _ (h _) p
    exact ⟨_, _, _, hrun, .get hruns⟩
  | renderCount next ih =>
    obtain ⟨result, moments, p', hrun, hruns⟩ := ih _ (h _) p
    exact ⟨_, _, _, hrun, .renderCount hruns⟩
  | set field value next ih =>
    obtain ⟨result, moments, p', hrun, hruns⟩ := ih _ (h.2 _) (p.write id field value).2
    exact ⟨_, _, _, hrun, .set hruns⟩
  | evaluate source next ih =>
    obtain ⟨result, moments, p', hrun, hruns⟩ := ih _ (h _) (p.evaluate id source).2
    exact ⟨_, _, _, hrun, .evaluate hruns⟩
  | note entry next ih =>
    obtain ⟨result, moments, p', hrun, hruns⟩ := ih h (p.addNotes [entry])
    exact ⟨_, _, _, hrun, .note hruns⟩
  | render next | requestFollowUp next | takeFollowUp next | dispatch selector event next
  | remove selector next => exact h.elim

/-! ### Actions -/

/-- How an action runs on a component. The value that is assigned is that of its expression without any scope, with
the fields that the component has at this moment. A method gets the arguments that the action was bound with, and the
event. -/
inductive Acts (id : ComponentId) (occurrence : Event) (p : Page) :
    Action Expression Value → Except Error Unit → List Moment → Page → Prop
  | assign {c : Component} {target : String} {e : Expression} {value : Value} (hc : p.component? id = some c)
      (hvalue : e.eval .empty c.resolver = .ok value) :
      Acts id occurrence p (.assign target e)
        (((p.addNotes (c.value e).2).write id target value).1.map fun _ => ())
        [⟨p, none⟩, ⟨p.addNotes (c.value e).2, some (target, value)⟩]
        ((p.addNotes (c.value e).2).write id target value).2
  | unresolved {c : Component} {target : String} {e : Expression} {error : ResolutionError}
      (hc : p.component? id = some c) (herror : e.eval .empty c.resolver = .error error) :
      Acts id occurrence p (.assign target e) (.error (.resolution error)) [⟨p, none⟩] (p.addNotes (c.value e).2)
  | missing {c : Component} {method : String} {arguments : List (Argument Value)} (hc : p.component? id = some c)
      (hmethod : c.methods.lookup method = none) :
      Acts id occurrence p (.invoke method arguments) (.error (.resolution ⟨.method, method⟩)) [] p
  | invoke {c : Component} {method : String} {arguments : List (Argument Value)} {body : List Value → Program}
      {result : Except Error Unit} {moments : List Moment} {p' : Page} (hc : p.component? id = some c)
      (hmethod : c.methods.lookup method = some body)
      (hruns : Runs id p (body (arguments.map (Argument.received occurrence))) result moments p') :
      Acts id occurrence p (.invoke method arguments) result moments p'

/-- What an action does to the page. -/
theorem Acts.passage {action : Action Expression Value} {result : Except Error Unit} {moments : List Moment}
    (h : Acts id occurrence p action result moments p') : Passage id p moments p' := by
  cases h with
  | assign hc hvalue => exact (Passage.record id p _).trans (.write id _ _ _)
  | unresolved hc herror => exact .record id p _
  | missing hc hmethod => exact .refl id p
  | invoke hc hmethod hruns => exact hruns.passage

/-- An action comes to an end if methods only read and write. -/
theorem exists_acts (cb : Callbacks) (occurrence : Event) (hc : p.component? id = some c) (hmodest : c.Modest)
    (action : Action Expression Value) :
    ∃ result moments p', runAction cb id occurrence action p = some (result, p') ∧
      Acts id occurrence p action result moments p' := by
  cases action with
  | assign target e =>
    rw [runAction, Run.plain_bind, value, hc]
    dsimp only
    cases hvalue : e.eval .empty c.resolver with
    | error error =>
      have hfailed : (c.value e).1 = .error (.resolution error) := by
        rw [Component.value, hvalue]
        rfl
      rw [hfailed]
      exact ⟨_, _, _, rfl, .unresolved hc hvalue⟩
    | ok value =>
      have hdone : (c.value e).1 = .ok value := by
        rw [Component.value, hvalue]
        rfl
      rw [hdone]
      dsimp only
      rw [Run.plain_bind]
      refine ⟨_, _, _, ?_, .assign hc hvalue⟩
      cases ((p.addNotes (c.value e).2).write id target value).1 <;> rfl
  | invoke method arguments =>
    rw [runAction, Run.look_bind, hc, Option.bind_some]
    cases hmethod : c.methods.lookup method with
    | none => exact ⟨_, _, _, rfl, .missing hc hmethod⟩
    | some body =>
      obtain ⟨result, moments, p', hrun, hruns⟩ :=
        exists_runs cb id (hmodest hmethod (arguments.map (Argument.received occurrence))) p
      exact ⟨result, moments, p', hrun, .invoke hc hmethod hruns⟩

/-- How some actions run: in order, up to the first that fails. -/
inductive ActsAll (id : ComponentId) (occurrence : Event) :
    Page → List (Action Expression Value) → Except Error Unit → List Moment → Page → Prop
  | done {p : Page} : ActsAll id occurrence p [] (.ok ()) [] p
  | stopped {p p' : Page} {action : Action Expression Value} {rest : List (Action Expression Value)} {e : Error}
      {moments : List Moment} (h : Acts id occurrence p action (.error e) moments p') :
      ActsAll id occurrence p (action :: rest) (.error e) moments p'
  | next {p q r : Page} {action : Action Expression Value} {rest : List (Action Expression Value)}
      {result : Except Error Unit} {moments more : List Moment} (h : Acts id occurrence p action (.ok ()) moments q)
      (hrest : ActsAll id occurrence q rest result more r) :
      ActsAll id occurrence p (action :: rest) result (moments ++ more) r

/-- What some actions do to the page. -/
theorem ActsAll.passage {actions : List (Action Expression Value)} {result : Except Error Unit}
    {moments : List Moment} (h : ActsAll id occurrence p actions result moments p') : Passage id p moments p' := by
  induction h with
  | done => exact .refl id _
  | stopped h => exact h.passage
  | next h _ ih => exact h.passage.trans ih

/-- Actions come to an end if methods only read and write. -/
theorem exists_actsAll (cb : Callbacks) (occurrence : Event) (hc : p.component? id = some c) (hmodest : c.Modest)
    (actions : List (Action Expression Value)) :
    ∃ result moments p', runActions cb id occurrence actions p = some (result, p') ∧
      ActsAll id occurrence p actions result moments p' := by
  induction actions generalizing p c with
  | nil => exact ⟨_, _, _, rfl, .done⟩
  | cons action rest ih =>
    obtain ⟨result, moments, q, hrun, hacts⟩ := exists_acts cb occurrence hc hmodest action
    cases result with
    | error e => exact ⟨_, _, _, bind_eq_some.mpr ⟨_, _, hrun, rfl⟩, .stopped hacts⟩
    | ok u =>
      obtain ⟨c', hc', htouched⟩ := hacts.passage.still.record hc
      obtain ⟨result, more, r, hrest, hall⟩ := ih hc' (htouched.toKin.modest hmodest)
      exact ⟨_, _, _, bind_eq_some.mpr ⟨_, _, hrun, hrest⟩, .next hacts hall⟩

/-! ### Handlers -/

/-- A handler of a component that is alive runs its actions, and after it the same components are kept alive as
before. -/
theorem exists_runHandler (cb : Callbacks) (occurrence : Event) (hc : p.component? id = some c) (hmodest : c.Modest)
    (halive : p.isAlive id = true) (handler : Handler) :
    ∃ result moments p', runHandler cb id handler occurrence p =
        some (result.mapError .engine, { p' with running := p.running }) ∧
      ActsAll id occurrence { p with running := id :: p.running } handler.actions result moments p' := by
  have hrunning : ({ p with running := id :: p.running } : Page).component? id = some c := hc
  obtain ⟨result, moments, p', hrun, hall⟩ := exists_actsAll cb occurrence hrunning hmodest handler.actions
  refine ⟨result, moments, p', ?_, hall⟩
  rw [runHandler, Run.look_bind, halive, if_pos rfl]
  refine bind_eq_some.mpr ⟨result, _, whileRunning_eq_some.mpr ⟨p', hrun, rfl⟩, ?_⟩
  cases result <;> rfl

end Page

end ReactiveTemplate
