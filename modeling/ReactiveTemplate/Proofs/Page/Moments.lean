import ReactiveTemplate.Proofs.Page.Rendering
import ReactiveTemplate.Proofs.Page.Steady

/-!
# The moments of runs

A handler, a method or a hook runs in the midst of other runs, on a page that no host ever gets to see. Such pages are
moments: they come of one another by the single operations through which runs act on a page, of which each is whole.
Every whole run leads from a moment to a moment. Whether nodes may be put below themselves on the way is a parameter,
for on such a cycle neither an event nor the release of a node would come to an end.
-/

namespace ReactiveTemplate.Page

open Json

variable {entwines entwines' : Prop} {p q r : Page} {fuel : Nat}

/-- The pages that come of a page by the operations through which programs, renders, events, timers and hosts
act on it. They are the moments of all runs, those in the midst of a run included. Listeners that the host adds
are not listeners of a component; `entwines` says whether an operation may put a node below itself. -/
inductive Ensues (entwines : Prop) (p : Page) : Page → Prop
  | refl : Ensues entwines p p
  | aside {q r : Page} (h : Ensues entwines p q) (hdocument : r.document = q.document)
      (hcomponents : r.components = q.components) : Ensues entwines p r
  | write {q : Page} (h : Ensues entwines p q) (id : ComponentId) (field : String) (value : Value) :
      Ensues entwines p (q.write id field value).2
  | mark {q : Page} {id : ComponentId} {c c' : Component} (h : Ensues entwines p q) (hc : q.component? id = some c)
      (hmarked : c.Marked c') : Ensues entwines p (q.setComponent id c')
  | swapIn {q : Page} (h : Ensues entwines p q) (id : ComponentId) : Ensues entwines p (q.swapIn id).2
  | operation {q : Page} (h : Ensues entwines p q) (o : Document.Operation Listener)
      (ho : ∀ listener ∈ o.listener?, listener.Scripted) (hloose : entwines ∨ ¬ o.Entwines q.document) :
      Ensues entwines p { q with document := o.apply q.document }
  | mount {q : Page} {b : Blueprint} {c : Component} (h : Ensues entwines p q)
      (hprepare : b.prepare q.document = .ok c) : Ensues entwines p { q with components := q.components ++ [c] }

/-- What comes of what came of a page. -/
theorem Ensues.trans (h : p.Ensues entwines q) (h' : q.Ensues entwines r) : p.Ensues entwines r := by
  induction h' with
  | refl => exact h
  | aside _ hdocument hcomponents ih => exact .aside ih hdocument hcomponents
  | write _ id field value ih => exact .write ih id field value
  | mark _ hc hmarked ih => exact .mark ih hc hmarked
  | swapIn _ id ih => exact .swapIn ih id
  | operation _ o ho hloose ih => exact .operation ih o ho hloose
  | mount _ hprepare ih => exact .mount ih hprepare

/-- What comes of a page still does so if more is allowed. -/
theorem Ensues.mono (h : p.Ensues entwines q) (hmore : entwines → entwines') : p.Ensues entwines' q := by
  induction h with
  | refl => exact .refl
  | aside _ hdocument hcomponents ih => exact .aside ih hdocument hcomponents
  | write _ id field value ih => exact .write ih id field value
  | mark _ hc hmarked ih => exact .mark ih hc hmarked
  | swapIn _ id ih => exact .swapIn ih id
  | operation _ o ho hloose ih => exact .operation ih o ho (hloose.imp_left hmore)
  | mount _ hprepare ih => exact .mount ih hprepare

/-! ### Whole runs -/

/-- A moment that came of a page. If no node may be put below itself, then no listener that is there by now puts a
node below another one, so that whatever runs next goes on like that. -/
structure Resumes (entwines : Prop) (p q : Page) : Prop where
  ensues : p.Ensues entwines q
  carries : q.document.Carries fun listener => entwines ∨ listener.Loose

/-- Wherever nodes may be put below themselves, runs go on from every moment. -/
theorem Ensues.resumes (h : p.Ensues True q) : p.Resumes True q :=
  ⟨h, fun _ _ _ _ _ _ => Or.inl trivial⟩

/-- Whatever runs, it leads from moment to moment. -/
theorem invariant_resumes (entwines : Prop) (p : Page) : Invariant (.entwining entwines) (Resumes entwines p) where
  gentle _ _ := Or.inl trivial
  carries h := h.carries.mono fun hloose => ⟨Or.inl trivial, Or.inl trivial, hloose⟩
  aside h hdocument hcomponents := ⟨.aside h.ensues hdocument hcomponents, hdocument ▸ h.carries⟩
  write {q} id field value h := by
    refine ⟨.write h.ensues id field value, ?_⟩
    rw [document_write]
    exact h.carries
  mark h hc hmarked _ := ⟨.mark h.ensues hc hmarked, h.carries⟩
  swapIn {q} id h := by
    refine ⟨.swapIn h.ensues id, ?_⟩
    cases hc : q.component? id with
    | none =>
      rw [swapIn, hc]
      exact h.carries
    | some c => exact carries_swapIn h.carries hc (fun _ => Or.inr trivial) rfl
  operation _ _ o ho hloose h :=
    ⟨.operation h.ensues o (fun listener hadded => (ho listener hadded).1) hloose,
      h.carries.operation o fun listener hadded => (ho listener hadded).2.loose⟩
  mount _ _ _ _ h hprepare := ⟨.mount h.ensues hprepare, h.carries⟩

namespace Resumes

/-- A step of a script leads to a moment, if it may be done where it is done. -/
theorem step {step : Step} {reply : Reply} (h : p.Resumes entwines q) (hstep : entwines ∨ ¬ step.Entwines q)
    (hrun : Page.step fuel step q = some (reply, r)) : p.Resumes entwines r :=
  leads_step (invariant_resumes entwines p) h ⟨Or.inl trivial, Or.inl trivial, hstep⟩ _ _ hrun

/-- Building a component leads to a moment, however it ends. -/
theorem build {name : String} {b : Blueprint} {answer : Except Error ComponentId} (h : p.Resumes entwines q)
    (hrun : Page.build (callbacks fuel) name b q = some (answer, r)) : p.Resumes entwines r := by
  have hinvariant := invariant_resumes entwines p
  exact leads_build hinvariant (hinvariant.keep_callbacks fuel) trivial h _ _ _ _ hrun

/-- A dispatch leads to a moment, however it ends. -/
theorem dispatch {target : NodeId} {event : String} {detail : Value} {answer : Except ListenerError Nat}
    (h : p.Resumes entwines q) (hrun : Page.dispatch (callbacks fuel) target event detail q = some (answer, r)) :
    p.Resumes entwines r := by
  have hinvariant := invariant_resumes entwines p
  exact leads_dispatch hinvariant (hinvariant.keep_callbacks fuel) h _ _ _ _ _ hrun

/-- A render and its hook lead to a moment, however they end. -/
theorem renderNow {id : ComponentId} {answer : Except Error Unit} (h : p.Resumes entwines q)
    (hrun : Page.renderNow (callbacks fuel) id q = some (answer, r)) : p.Resumes entwines r := by
  have hinvariant := invariant_resumes entwines p
  exact leads_renderNow hinvariant (hinvariant.keep_callbacks fuel) h _ _ _ hrun

/-- An action of a handler leads to a moment, however it ends. -/
theorem runAction {id : ComponentId} {event : Event} {action : Action Expression Value} {answer : Except Error Unit}
    (h : p.Resumes entwines q) (hrun : Page.runAction (callbacks fuel) id event action q = some (answer, r)) :
    p.Resumes entwines r := by
  have hinvariant := invariant_resumes entwines p
  exact leads_runAction hinvariant (hinvariant.keep_callbacks fuel) h _ _ _ _ _ hrun

end Resumes

end ReactiveTemplate.Page
