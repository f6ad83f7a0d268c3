import ReactiveTemplate.Proofs.Component.Mounting
import ReactiveTemplate.Proofs.Document.Listeners
import ReactiveTemplate.Proofs.Document.Reachable
import ReactiveTemplate.Proofs.Page.Calm

/-!
# What runs are allowed to do

Some properties of a page hold only as long as neither programs nor the host work on the document by themselves, some
only as long as no listener moves the clock or takes errors, some only as long as no node is put below itself, and
others whatever is done. An allowance says which of these things a run may do. Programs, listeners and steps of a
script are admitted by it as far as they can be told from what is written in them; only an operation that the host
does from outside is judged by the page on which it is done.
-/

namespace ReactiveTemplate

open Json

/-! ### Working on the document -/

/-- A program that leaves the document alone, but for the renders and events that it starts. -/
def Program.Gentle : Program → Prop
  | done | fail _ => True
  | get _ next => ∀ answer, (next answer).Gentle
  | set _ _ next => ∀ answer, (next answer).Gentle
  | evaluate _ next => ∀ answer, (next answer).Gentle
  | render next => ∀ answer, (next answer).Gentle
  | renderCount next => ∀ answer, (next answer).Gentle
  | requestFollowUp next => next.Gentle
  | takeFollowUp next => ∀ answer, (next answer).Gentle
  | dispatch _ _ next => ∀ answer, (next answer).Gentle
  | remove _ _ => False
  | note _ next => next.Gentle

/-- The methods and the hook of a component leave the document alone. -/
structure Component.Gentle (c : Component) : Prop where
  methods : ∀ {name body}, c.methods.lookup name = some body → ∀ arguments, (body arguments).Gentle
  hook : ∀ {program}, c.hook = some program → program.Gentle

/-- Kin are gentle alike. -/
theorem Component.Kin.gentle {c c' : Component} (h : c.Kin c') (hc : c.Gentle) : c'.Gentle where
  methods hbody arguments := hc.methods (h.methods ▸ hbody) arguments
  hook hprogram := hc.hook (h.hook ▸ hprogram)

/-- The methods and the hook that a component is to have leave the document alone. -/
structure Blueprint.Gentle (b : Blueprint) : Prop where
  methods : ∀ {name body}, b.methods.lookup name = some body → ∀ arguments, (body arguments).Gentle
  hook : ∀ {program}, b.hook = some program → program.Gentle

/-- A component is as gentle as its blueprint. -/
theorem Blueprint.Gentle.of_prepare {L : Type} {b : Blueprint} {d : Document L} {c : Component} (hb : b.Gentle)
    (h : b.prepare d = .ok c) : c.Gentle := by
  obtain ⟨hmethods, hhook, _⟩ := prepare_ok h
  refine ⟨fun hbody => ?_, fun hprogram => ?_⟩
  · rw [hmethods] at hbody
    exact hb.methods hbody
  · rw [hhook] at hprogram
    exact hb.hook hprogram

/-- A step by which the host leaves the document alone, but for what components do. -/
def Page.Step.Gentle : Page.Step → Prop
  | .createElement _ _ | .createText _ _ | .edit _ _ | .append _ _ | .replace _ _ => False
  | .listen _ _ _ _ _ | .build _ _ _ => False
  | _ => True

/-- A listener of a component, or a script that leaves the document alone. -/
def Listener.Gentle : Listener → Prop
  | bound _ _ => True
  | scripted _ _ steps => ∀ step ∈ steps, step.Gentle

/-- A listener that is not one of a component. -/
def Listener.Scripted : Listener → Prop
  | bound _ _ => False
  | scripted _ _ _ => True

/-! ### Moving the clock -/

namespace Page

mutual

/-- A step that neither moves the clock nor takes an error, and adds no listener that does. -/
def Step.Timeless : Step → Prop
  | .advance _ | .idle => False
  | .component _ _ .takeError => False
  | .listen _ _ _ _ steps => Step.AllTimeless steps
  | _ => True

/-- Steps that neither move the clock nor take errors. -/
def Step.AllTimeless : List Step → Prop
  | [] => True
  | step :: rest => Step.Timeless step ∧ Step.AllTimeless rest

end

end Page

/-- A listener of a component, or a script that neither moves the clock nor takes errors. -/
def Listener.Timeless : Listener → Prop
  | bound _ _ => True
  | scripted _ _ steps => Page.Step.AllTimeless steps

/-! ### Putting nodes below themselves -/

namespace Page

mutual

/-- A step that puts no node below another one, and adds no listener that does. -/
def Step.Loose : Step → Prop
  | .append _ _ | .replace _ _ => False
  | .listen _ _ _ _ steps => Step.AllLoose steps
  | _ => True

/-- Steps that put no node below another one. -/
def Step.AllLoose : List Step → Prop
  | [] => True
  | step :: rest => Step.Loose step ∧ Step.AllLoose rest

end

/-- On this page the step puts a node below itself, or it adds a listener that puts nodes below others. -/
def Step.Entwines (p : Page) : Step → Prop
  | .append ref child => ∃ n m, p.node? ref = some n ∧ p.node? child = some m ∧
      Document.Operation.Entwines p.document (.append n m)
  | .replace ref new => ∃ n m, p.node? ref = some n ∧ p.node? new = some m ∧
      Document.Operation.Entwines p.document (.replace n m)
  | .listen _ _ _ _ steps => ¬ Step.AllLoose steps
  | _ => False

/-- A loose step puts no node below itself, on whatever page. -/
theorem Step.Loose.not_entwines {step : Step} (h : step.Loose) (p : Page) : ¬ step.Entwines p := by
  cases step with
  | append | replace => exact h.elim
  | listen ref event label failure steps =>
    rw [Step.Loose] at h
    exact not_not_intro h
  | _ => exact not_false

/-- Which node a script means does not depend on what the last step has logged. -/
theorem node?_latest (p : Page) (entries : List Entry) (ref : NodeRef) :
    ({ p with latest := entries } : Page).node? ref = p.node? ref := by
  induction ref with
  | child parent position ih => rw [node?, node?, ih]
  | named | matching | rootOf | exactly => rfl

/-- Nor does whether a step puts a node below itself. -/
theorem Step.entwines_latest (p : Page) (entries : List Entry) (step : Step) :
    step.Entwines { p with latest := entries } ↔ step.Entwines p := by
  cases step with
  | append | replace => simp only [Step.Entwines, node?_latest]
  | _ => exact Iff.rfl

end Page

/-- A listener of a component, or a script that puts no node below another one. -/
def Listener.Loose : Listener → Prop
  | bound _ _ => True
  | scripted _ _ steps => Page.Step.AllLoose steps

/-! ### Allowances -/

/-- What a run may do: `works` says whether programs and the host may work on the document by themselves, `timely`
whether listeners may move the clock and take errors, and `entwines` whether nodes may be put below themselves. -/
structure Allowance where
  works : Prop
  timely : Prop
  entwines : Prop

namespace Allowance

/-- A run may do anything. -/
abbrev anything : Allowance := ⟨True, True, True⟩

/-- A run may do anything but work on the document. -/
abbrev gentle : Allowance := ⟨False, True, True⟩

/-- A run may do anything, but its listeners move no clock and take no errors. -/
abbrev timeless : Allowance := ⟨True, False, True⟩

/-- A run may do anything, and `entwines` says whether it may put nodes below themselves. -/
abbrev entwining (entwines : Prop) : Allowance := ⟨True, True, entwines⟩

end Allowance

/-- A listener that may be there. -/
structure Listener.Admitted (allowed : Allowance) (listener : Listener) : Prop where
  gentle : allowed.works ∨ listener.Gentle
  timeless : allowed.timely ∨ listener.Timeless
  loose : allowed.entwines ∨ listener.Loose

/-- A step that may be done on a page. -/
structure Page.Step.Admitted (allowed : Allowance) (p : Page) (step : Page.Step) : Prop where
  gentle : allowed.works ∨ step.Gentle
  timeless : allowed.timely ∨ step.Timeless
  loose : allowed.entwines ∨ ¬ step.Entwines p

/-- Anything may be done. -/
theorem Page.Step.admitted_anything (p : Page) (step : Page.Step) : step.Admitted .anything p :=
  ⟨Or.inl trivial, Or.inl trivial, Or.inl trivial⟩

/-- Any listeners may be there. -/
theorem Document.carries_anything (d : Document Listener) : d.Carries (Listener.Admitted .anything) :=
  fun _ _ _ _ _ _ => ⟨Or.inl trivial, Or.inl trivial, Or.inl trivial⟩

end ReactiveTemplate
