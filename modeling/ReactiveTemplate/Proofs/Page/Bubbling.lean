import ReactiveTemplate.Proofs.Document.Counting
import ReactiveTemplate.Proofs.Document.Listeners
import ReactiveTemplate.Proofs.Document.Reachable
import ReactiveTemplate.Proofs.Page.Calm

/-!
# The listeners that a dispatch calls

Which listeners a dispatch calls is settled when it begins: those of the target, then those of each ancestor up to
the top. Each is called on the page that the one before it has left, and whatever the listeners do to the page, the
list stays what it was. Only a listener that fails ends it early.
-/

namespace ReactiveTemplate.Page

open Json

variable {cb : Callbacks} {p p' : Page} {listener : Listener} {listeners : List Listener} {occurrence : Event}

/-- A call of a listener for an event, and what came of it. -/
structure Call where
  listener : Listener
  event : Event
  result : Except ListenerError Unit

/-- Calls one after another, each on the page that the one before it has left. -/
inductive Calls (cb : Callbacks) : Page → List Call → Page → Prop
  | nil {p : Page} : Calls cb p [] p
  | cons {p q p' : Page} {listener : Listener} {event : Event} {result : Except ListenerError Unit}
      {calls : List Call} (hcall : cb.listener listener event p = some (result, q)) (hrest : Calls cb q calls p') :
      Calls cb p (⟨listener, event, result⟩ :: calls) p'

/-- One call more. -/
theorem Calls.concat_iff {calls : List Call} {call : Call} :
    Calls cb p (calls ++ [call]) p' ↔
      ∃ q, Calls cb p calls q ∧ cb.listener call.listener call.event q = some (call.result, p') := by
  induction calls generalizing p with
  | nil =>
    constructor
    · intro h
      obtain _ | ⟨hcall, hrest⟩ := h
      cases hrest
      exact ⟨p, .nil, hcall⟩
    · rintro ⟨q, hcalls, hcall⟩
      cases hcalls
      exact .cons hcall .nil
  | cons first calls ih =>
    constructor
    · intro h
      obtain _ | ⟨hfirst, hrest⟩ := h
      obtain ⟨q, hcalls, hcall⟩ := ih.mp hrest
      exact ⟨q, .cons hfirst hcalls, hcall⟩
    · rintro ⟨q, hcalls, hcall⟩
      obtain _ | ⟨hfirst, hrest⟩ := hcalls
      exact .cons hfirst (ih.mpr ⟨q, hrest, hcall⟩)

/-- A call of a listener that goes well. -/
def Call.well (occurrence : Event) (listener : Listener) : Call :=
  ⟨listener, occurrence, .ok ()⟩

/-- The calls that a fixed list of listeners comes to for an event, and the answer: all of them and how many they
are, if they go well; or else those up to the first that fails, and its error. -/
inductive Concludes (fixed : List Listener) (occurrence : Event) : List Call → Except ListenerError Nat → Prop
  | all : Concludes fixed occurrence (fixed.map (Call.well occurrence)) (.ok fixed.length)
  | failed {front rest : List Listener} {last : Listener} {e : ListenerError} (hfixed : fixed = front ++ last :: rest) :
      Concludes fixed occurrence (front.map (Call.well occurrence) ++ [⟨last, occurrence, .error e⟩]) (.error e)

/-- If the answer is a number, all listeners were called. -/
theorem Concludes.of_ok {calls : List Call} {ran : Nat} (h : Concludes listeners occurrence calls (.ok ran)) :
    calls = listeners.map (Call.well occurrence) ∧ ran = listeners.length := by
  generalize hanswer : (.ok ran : Except ListenerError Nat) = answer at h
  cases h with
  | all => exact ⟨rfl, Except.ok.inj hanswer⟩
  | failed => cases hanswer

/-! ### Running a list of listeners -/

/-- The first listener goes well, and the others follow. -/
theorem runListeners_cons_of_ok {q : Page} (hcall : cb.listener listener occurrence p = some (.ok (), q)) :
    runListeners (cb.listener · occurrence) (listener :: listeners) p =
      runListeners (cb.listener · occurrence) listeners q := by
  rw [runListeners, bind_of_some hcall]

/-- The first listener does not go well, and that is all. -/
theorem runListeners_cons_of_not_ok (hcall : ∀ q, cb.listener listener occurrence p ≠ some (.ok (), q)) :
    runListeners (cb.listener · occurrence) (listener :: listeners) p = cb.listener listener occurrence p := by
  rw [runListeners]
  cases hresult : cb.listener listener occurrence p with
  | none => exact bind_of_none hresult
  | some out =>
    obtain ⟨result, q⟩ := out
    cases result with
    | ok => exact absurd hresult (hcall q)
    | error e => exact bind_of_some hresult

/-- All listeners of a list go well if each does, one after another. -/
theorem runListeners_eq_ok_iff :
    runListeners (cb.listener · occurrence) listeners p = some (.ok (), p') ↔
      Calls cb p (listeners.map (Call.well occurrence)) p' := by
  induction listeners generalizing p with
  | nil =>
    constructor
    · intro h
      cases h
      exact .nil
    · intro h
      cases h
      rfl
  | cons listener listeners ih =>
    constructor
    · intro h
      by_cases hok : ∃ q, cb.listener listener occurrence p = some (.ok (), q)
      · obtain ⟨q, hcall⟩ := hok
        rw [runListeners_cons_of_ok hcall] at h
        exact .cons hcall (ih.mp h)
      · rw [runListeners_cons_of_not_ok (not_exists.mp hok)] at h
        exact absurd ⟨p', h⟩ hok
    · intro h
      obtain _ | ⟨hcall, hrest⟩ := h
      rw [runListeners_cons_of_ok hcall]
      exact ih.mpr hrest

/-- A list of listeners does not go well exactly if one of them does not, after those before it went well; the
others are not called. -/
theorem runListeners_eq_iff_of_not_ok {r : Option (Except ListenerError Unit × Page)}
    (hr : ∀ q, r ≠ some (.ok (), q)) :
    runListeners (cb.listener · occurrence) listeners p = r ↔
      ∃ front last rest q, listeners = front ++ last :: rest ∧ Calls cb p (front.map (Call.well occurrence)) q ∧
        cb.listener last occurrence q = r := by
  induction listeners generalizing p with
  | nil =>
    constructor
    · intro h
      exact absurd h.symm (hr p)
    · rintro ⟨front, last, rest, q, hlisteners, _⟩
      exact absurd hlisteners.symm (List.append_ne_nil_of_right_ne_nil front (List.cons_ne_nil last rest))
  | cons listener listeners ih =>
    constructor
    · intro h
      by_cases hok : ∃ q, cb.listener listener occurrence p = some (.ok (), q)
      · obtain ⟨q, hcall⟩ := hok
        rw [runListeners_cons_of_ok hcall] at h
        obtain ⟨front, last, rest, q', rfl, hcalls, hlast⟩ := ih.mp h
        exact ⟨listener :: front, last, rest, q', rfl, .cons hcall hcalls, hlast⟩
      · rw [runListeners_cons_of_not_ok (not_exists.mp hok)] at h
        exact ⟨[], listener, listeners, p, rfl, .nil, h⟩
    · rintro ⟨front, last, rest, q, hlisteners, hcalls, hlast⟩
      cases front with
      | nil =>
        obtain ⟨rfl, rfl⟩ := List.cons.inj hlisteners
        cases hcalls
        rw [runListeners_cons_of_not_ok fun q hcall => hr q (hlast.symm.trans hcall), hlast]
      | cons first front =>
        obtain ⟨rfl, rfl⟩ := List.cons.inj hlisteners
        obtain _ | ⟨hcall, hrest⟩ := hcalls
        rw [runListeners_cons_of_ok hcall]
        exact ih.mpr ⟨front, last, rest, q, rfl, hrest, hlast⟩

/-- A dispatch on a live node runs the listeners that the node and its ancestors have when it begins. -/
theorem dispatch_of_contains {target : NodeId} (htarget : p.document.contains target = true) (cb : Callbacks)
    (event : String) (detail : Value) :
    dispatch cb target event detail p =
      (runListeners (cb.listener · ⟨event, detail, target⟩) (p.document.listenersFor target event) p).map
        fun out => (out.1.map fun _ => (p.document.listenersFor target event).length, out.2) := by
  rw [dispatch, Run.look_bind, if_pos htarget]
  cases hrun : runListeners (cb.listener · ⟨event, detail, target⟩) (p.document.listenersFor target event) p with
  | none => exact bind_of_none hrun
  | some out =>
    obtain ⟨result, q⟩ := out
    refine bind_eq_some.mpr ⟨result, q, hrun, ?_⟩
    cases result <;> rfl

/-- In every document that is reached, one path leads up from a live node. A dispatch on the node calls listeners of
a list that is settled when the dispatch begins: those that the node has for the event, in the order in which they
were added, then those of its parent, and so on along the path. Whatever the listeners do to the page, the calls are
those that the list comes to, each with the node as the target of the event; the dispatch does not come to an end
only if one of the calls does not. -/
theorem dispatch_calls {target : NodeId} (hd : p.document.Reachable) (htarget : p.document.contains target = true)
    (cb : Callbacks) (event : String) (detail : Value) :
    ∃ path, (∀ path', p.document.Ascends target path' ↔ path' = path) ∧
      (∀ answer p', dispatch cb target event detail p = some (answer, p') ↔
        ∃ calls, Calls cb p calls p' ∧
          Concludes (path.flatMap (p.document.listenersAt · event)) ⟨event, detail, target⟩ calls answer) ∧
      (dispatch cb target event detail p = none ↔
        ∃ front last rest q, path.flatMap (p.document.listenersAt · event) = front ++ last :: rest ∧
          Calls cb p (front.map (Call.well ⟨event, detail, target⟩)) q ∧
            cb.listener last ⟨event, detail, target⟩ q = none) ∧
      ∀ n name listener, (p.document.addListener n name listener).1 = .ok () → ∀ m name',
        (p.document.addListener n name listener).2.listenersAt m name' =
          p.document.listenersAt m name' ++ if m = n ∧ name' = name then [listener] else [] := by
  have hup := hd.wellFormed.linked.ascends_lineage target
  have hdispatch := dispatch_of_contains htarget cb event detail
  refine ⟨p.document.lineage target, fun path' => ⟨fun h => h.unique hup, fun h => h ▸ hup⟩, fun answer p' => ?_, ?_,
    fun _ _ _ hdone => Document.listenersAt_addListener hdone⟩
  · rw [hdispatch, Option.map_eq_some_iff]
    constructor
    · rintro ⟨⟨result, q⟩, hrun, hanswer⟩
      cases hanswer
      cases result with
      | ok => exact ⟨_, runListeners_eq_ok_iff.mp hrun, .all⟩
      | error e =>
        obtain ⟨front, last, rest, r, hfixed, hcalls, hlast⟩ := (runListeners_eq_iff_of_not_ok (by simp)).mp hrun
        exact ⟨_, Calls.concat_iff.mpr ⟨r, hcalls, hlast⟩, .failed hfixed⟩
    · rintro ⟨calls, hcalls, hconcludes⟩
      cases hconcludes with
      | all => exact ⟨(.ok (), p'), runListeners_eq_ok_iff.mpr hcalls, rfl⟩
      | @failed front rest last e hfixed =>
        obtain ⟨r, hcalls, hlast⟩ := Calls.concat_iff.mp hcalls
        exact ⟨(.error e, p'),
          (runListeners_eq_iff_of_not_ok (by simp)).mpr ⟨front, last, rest, r, hfixed, hcalls, hlast⟩, rfl⟩
  · rw [hdispatch, Option.map_eq_none_iff]
    exact runListeners_eq_iff_of_not_ok (by simp)

/-- A listener that does nothing. -/
def quiet (label : String) : Listener :=
  .scripted (some label) none []

/-- A listener that frees what is around the button, adds another listener to the body and dispatches a click of its
own there. -/
def clearing : Listener :=
  .scripted (some "clearing") none
    [.edit (.exactly ⟨1, 0⟩) .remove, .listen (.named "body") "click" (some "late") none [],
      .dispatch (.named "body") "click" .null]

/-- A button in a box on the body, with listeners on each of them. -/
def toolbar : Document Listener :=
  ([.createElement "div", .createElement "button", .append ⟨1, 0⟩ ⟨2, 0⟩, .append ⟨0, 0⟩ ⟨1, 0⟩,
    .addListener ⟨0, 0⟩ "click" (quiet "body"), .addListener ⟨2, 0⟩ "click" clearing,
    .addListener ⟨1, 0⟩ "click" (quiet "box"), .addListener ⟨2, 0⟩ "keydown" (quiet "key"),
    .addListener ⟨2, 0⟩ "click" (quiet "button")] : List (Document.Operation Listener)).foldl
    (fun d o => o.apply d) .empty

/-- The first listener frees the button while its click is dispatched. All four listeners are called nevertheless,
and the one that was added meanwhile is not. -/
theorem dispatch_calls_toolbar :
    (ofDocument toolbar).document.Reachable ∧ (ofDocument toolbar).document.contains ⟨2, 0⟩ = true ∧
      ∃ p', dispatch (callbacks 3) ⟨2, 0⟩ "click" .null (ofDocument toolbar) = some (.ok 4, p') ∧
        Calls (callbacks 3) (ofDocument toolbar)
          ([clearing, quiet "button", quiet "box", quiet "body"].map (Call.well ⟨"click", .null, ⟨2, 0⟩⟩)) p' ∧
        p'.document.contains ⟨2, 0⟩ = false ∧ (p'.document.listenersAt ⟨0, 0⟩ "click").length = 2 := by
  have hlisten {d : Document Listener} (h : d.Reachable) (n : NodeId) (event : String) (listener : Listener) :
      ((Document.Operation.addListener n event listener).apply d).Reachable :=
    .operation h _ id
  have hreached : toolbar.Reachable := by
    simp only [toolbar, List.foldl_cons, List.foldl_nil]
    refine hlisten (hlisten (hlisten (hlisten (hlisten (.operation (.operation (.operation (.operation .empty
      (.createElement "div") id) (.createElement "button") id) (.append ⟨1, 0⟩ ⟨2, 0⟩) ?_)
      (.append ⟨0, 0⟩ ⟨1, 0⟩) ?_) _ _ _) _ _ _) _ _ _) _ _ _) _ _ _
    · exact Document.Operation.not_entwines_append (by decide +kernel) (by decide)
    · exact Document.Operation.not_entwines_append (by decide +kernel) (by decide)
  have hbutton : (ofDocument toolbar).document.contains ⟨2, 0⟩ = true := by decide +kernel
  -- Said of any run, so that nothing is evaluated here.
  have hread {r : Option (Except ListenerError Nat × Page)} (h : (r.map fun out =>
      (out.1.toOption, out.2.document.contains ⟨2, 0⟩, (out.2.document.listenersAt ⟨0, 0⟩ "click").length)) =
        some (some 4, false, 2)) :
      ∃ p', r = some (.ok 4, p') ∧ p'.document.contains ⟨2, 0⟩ = false ∧
        (p'.document.listenersAt ⟨0, 0⟩ "click").length = 2 := by
    obtain ⟨⟨answer, p'⟩, rfl, hend⟩ := Option.map_eq_some_iff.mp h
    obtain ⟨hanswer, hgone, hlate⟩ := by simpa only [Prod.mk.injEq] using hend
    cases answer with
    | error e => cases hanswer
    | ok ran =>
      cases hanswer
      exact ⟨p', rfl, hgone, hlate⟩
  obtain ⟨p', hrun, hgone, hlate⟩ :=
    hread (r := dispatch (callbacks 3) ⟨2, 0⟩ "click" .null (ofDocument toolbar)) (by decide +kernel)
  obtain ⟨path, hpath, hdispatch, _⟩ := dispatch_calls hreached hbutton (callbacks 3) "click" .null
  obtain rfl : [⟨2, 0⟩, ⟨1, 0⟩, ⟨0, 0⟩] = path := (hpath _).mp (.up rfl (.up rfl (.top rfl)))
  obtain ⟨calls, hcalls, hconcludes⟩ := (hdispatch _ _).mp hrun
  obtain ⟨rfl, _⟩ := hconcludes.of_ok
  exact ⟨hreached, hbutton, p', hrun, hcalls, hgone, hlate⟩

end ReactiveTemplate.Page
