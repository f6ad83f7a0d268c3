import ReactiveTemplate.Clock.Script
import ReactiveTemplate.Proofs.Clock.Order
import ReactiveTemplate.Proofs.Clock.Running

/-!
# What happens on a clock

A run of a script is a sequence of occurrences: tasks are registered, schedulers are requested, timers
fire one by one, time passes, and timers are cleared away. Callbacks and the script outside are not told
apart, so that what holds along every such sequence holds inside callbacks too. In an orderly sequence time
passes no timer that waits, and none is cleared away.
-/

namespace ReactiveTemplate.ClockScript

/-! ### Tasks -/

namespace Task

/-- The scheduler whose pending request a task stands for. -/
def scheduler? : Task → Option Nat
  | requested n _ _ => some n
  | _ => none

/-- The steps that a task follows; a loop registers itself again. -/
def steps : Task → List Step
  | callback _ steps | requested _ _ steps => steps
  | loop delay => [.loop delay]

/-- The label that a task leaves in the log. -/
def label? : Task → Option String
  | callback label _ | requested _ label _ => some label
  | loop _ => none

/-- What a task does before it follows its steps. -/
def enter (task : Task) (s : State) : State :=
  { s with
    schedulers := match task.scheduler? with
      | some n => s.schedulers.modify n Scheduler.fired
      | none => s.schedulers
    log := s.log ++ task.label?.toList.map fun label => (label, s.clock.now) }

@[simp]
theorem clock_enter (task : Task) (s : State) : (task.enter s).clock = s.clock :=
  rfl

@[simp]
theorem log_enter (task : Task) (s : State) :
    (task.enter s).log = s.log ++ task.label?.toList.map fun label => (label, s.clock.now) :=
  rfl

end Task

/-! ### Occurrences -/

/-- A request of a scheduler: when it was made, and what the timer is made of that is armed if the request
is taken. -/
structure Request where
  time : Nat
  interval : Nat
  number : Nat
  scheduler : Nat
  label : String
  steps : List Step

/-- The timer that is armed for a request. -/
def Request.timer (r : Request) : Timer Task :=
  ⟨r.time + r.interval, r.number, .requested r.scheduler r.label r.steps⟩

/-- Something that happens on a clock. -/
inductive Occurrence where
  | registered (timer : Timer Task)
  | requested (request : Request) (taken : Bool)
  | fired (timer : Timer Task) (time : Nat)
  /-- The clock was set to a time. -/
  | passed (time : Nat)
  /-- The timers that waited were taken away. -/
  | cleared (timers : List (Timer Task))

namespace Occurrence

/-- The timer that waits from then on. -/
def placed? : Occurrence → Option (Timer Task)
  | registered timer => some timer
  | requested request true => some request.timer
  | _ => none

/-- The timer that fires, and the time. -/
def firing? : Occurrence → Option (Timer Task × Nat)
  | fired timer time => some (timer, time)
  | _ => none

/-- What a callback leaves in the log. -/
def noted : Occurrence → List (String × Nat)
  | fired timer time => timer.task.label?.toList.map fun label => (label, time)
  | _ => []

/-- The timers that neither fire nor wait from then on. -/
def lost : Occurrence → List (Timer Task)
  | cleared timers => timers
  | _ => []

/-- Time passes only up to a time by which no timer is due, and never back, and no timer is cleared away. -/
def Orderly (s : State) : Occurrence → Prop
  | passed target => s.clock.popDue? target = none ∧ s.clock.now ≤ target
  | cleared _ => False
  | _ => True

end Occurrence

/-- One occurrence leads from a state to the next. -/
inductive Happens : State → Occurrence → State → Prop
  | register {s : State} {delay : Nat} {task : Task} (h : task.scheduler? = none) :
      Happens s (.registered ⟨s.clock.now + delay, s.clock.registered, task⟩)
        { s with clock := s.clock.after delay task }
  | request {s s' : State} {n : Nat} {scheduler : Scheduler} {label : String} {steps : List Step}
      {taken : Bool} (hn : s.schedulers[n]? = some scheduler)
      (h : ClockScript.request n label steps s = some (taken, s')) :
      Happens s (.requested ⟨s.clock.now, scheduler.interval, s.clock.registered, n, label, steps⟩ taken) s'
  | fire {s : State} {timer : Timer Task} {rest : List (Timer Task)} {target : Nat} {clock : Clock Task}
      (htimers : s.clock.timers = timer :: rest)
      (h : s.clock.popDue? target = some (timer.task, clock)) :
      Happens s (.fired timer clock.now) (timer.task.enter { s with clock })
  | pass {s : State} (target : Nat) : Happens s (.passed target) { s with clock := s.clock.setTime target }
  | clear {s : State} : Happens s (.cleared s.clock.timers) { s with clock := s.clock.clear }

/-- Occurrences lead from a state to another, one after the other, each of which may happen where it does. -/
inductive Path (may : State → Occurrence → Prop) : State → List Occurrence → State → Prop
  | nil {s : State} : Path may s [] s
  | cons {s mid s' : State} {o : Occurrence} {history : List Occurrence} (hmay : may s o) (h : Happens s o mid)
      (hrest : Path may mid history s') : Path may s (o :: history) s'

/-- Whatever occurrences lead from a state to another. -/
abbrev Evolves : State → List Occurrence → State → Prop :=
  Path fun _ _ => True

namespace Path

variable {may : State → Occurrence → Prop} {s mid s' : State} {o : Occurrence} {first second : List Occurrence}

/-- One occurrence is a path. -/
theorem single (hmay : may s o) (h : Happens s o s') : Path may s [o] s' :=
  .cons hmay h .nil

/-- A path in two parts. -/
theorem append_iff : Path may s (first ++ second) s' ↔ ∃ mid, Path may s first mid ∧ Path may mid second s' := by
  constructor
  · intro h
    induction first generalizing s with
    | nil => exact ⟨s, .nil, h⟩
    | cons o rest ih =>
      cases h with
      | cons hmay h hrest =>
        obtain ⟨mid, hfirst, hsecond⟩ := ih hrest
        exact ⟨mid, .cons hmay h hfirst, hsecond⟩
  · intro h
    obtain ⟨mid, hfirst, hsecond⟩ := h
    induction hfirst with
    | nil => exact hsecond
    | cons hmay h _ ih => exact .cons hmay h (ih hsecond)

/-- One path after another. -/
theorem trans (hfirst : Path may s first mid) (hsecond : Path may mid second s') :
    Path may s (first ++ second) s' :=
  append_iff.mpr ⟨mid, hfirst, hsecond⟩

end Path

/-! ### Steps of callbacks -/

mutual

/-- A step of a callback: it registers and requests, and so do the callbacks that come of it. -/
def Step.Plain : Step → Prop
  | .timeout _ _ andThen | .request _ _ andThen => PlainAll andThen
  | .loop _ | .look => True
  | .advance _ | .idle | .clear => False

/-- All steps are those of a callback. -/
def PlainAll : List Step → Prop
  | [] => True
  | step :: rest => step.Plain ∧ PlainAll rest

end

/-- A step of a script: one of a callback, or one that moves the clock. -/
def Step.Proper : Step → Prop
  | .advance _ | .idle => True
  | step => step.Plain

/-- All timers that wait have plain steps. -/
def State.Calm (s : State) : Prop :=
  ∀ timer ∈ s.clock.timers, PlainAll timer.task.steps

/-- A request of a scheduler that there is. -/
theorem request_eq {s : State} {n : Nat} {scheduler : Scheduler} (hn : s.schedulers[n]? = some scheduler)
    (label : String) (steps : List Step) :
    request n label steps s = some (!scheduler.pending,
      if scheduler.pending then s
      else { s with
        schedulers := s.schedulers.set n { scheduler with pending := true }
        clock := s.clock.after scheduler.interval (.requested n label steps) }) := by
  rw [request, get_bind, hn]
  cases hpending : scheduler.pending with
  | false =>
    simp only [Scheduler.request, hpending]
    rfl
  | true =>
    have hsame : s.schedulers.set n { scheduler with pending := true } = s.schedulers := by
      rw [← hpending]
      obtain ⟨hlt, rfl⟩ := List.getElem?_eq_some_iff.mp hn
      exact List.set_getElem_self hlt
    simp only [Scheduler.request, hpending, modify_bind, hsame]
    rfl

/-- A request of a scheduler that there is not. -/
theorem request_of_none {s : State} {n : Nat} (hn : s.schedulers[n]? = none) (label : String)
    (steps : List Step) : request n label steps s = some (false, s) := by
  rw [request, get_bind, hn]
  rfl

/-- A task notes what it has to, and then follows its steps. -/
theorem fire_eq (fuel : Nat) (task : Task) :
    (host (fuel + 1)).fire task =
      modify task.enter >>= fun _ => performAll (host fuel) fuel task.steps := by
  cases task with
  | callback label steps => rfl
  | requested n label steps => rfl
  | loop delay =>
    funext s
    have henter : (Task.loop delay).enter s = s := by
      simp [Task.enter, Task.scheduler?, Task.label?]
    rw [modify_bind, henter]
    rfl

/-- A calm state stays calm with one more timer. -/
theorem State.Calm.after {s : State} (h : s.Calm) (delay : Nat) {task : Task} (htask : PlainAll task.steps)
    (schedulers : List Scheduler) : State.Calm { s with clock := s.clock.after delay task, schedulers } := by
  intro timer htimer
  rcases List.mem_cons.mp ((Clock.perm_place _ _).mem_iff.mp htimer) with rfl | htimer
  · exact htask
  · exact h timer htimer

/-- When the first timer of a calm state fires, its task follows plain steps, and the state stays calm. -/
theorem State.Calm.enter {s : State} {timer : Timer Task} {rest : List (Timer Task)} {clock : Clock Task}
    {target : Nat} (h : s.Calm) (htimers : s.clock.timers = timer :: rest)
    (hdue : s.clock.popDue? target = some (timer.task, clock)) :
    State.Calm (timer.task.enter { s with clock }) ∧ PlainAll timer.task.steps := by
  obtain ⟨_, _, rfl⟩ := Clock.popDue?_eq_some htimers hdue
  rw [Calm, htimers] at h
  obtain ⟨hsteps, hrest⟩ := List.forall_mem_cons.mp h
  exact ⟨hrest, hsteps⟩

/-- What a callback noted on a path is what was added to the log. -/
theorem Path.log_eq {may : State → Occurrence → Prop} {s s' : State} {history : List Occurrence}
    (h : Path may s history s') : s'.log = s.log ++ history.flatMap Occurrence.noted := by
  induction h with
  | nil => simp
  | @cons s mid s' o history _ h _ ih =>
    have hlog : mid.log = s.log ++ o.noted := by
      cases h with
      | register _ => simp [Occurrence.noted]
      | request hn h =>
        rw [request_eq hn] at h
        cases h
        split <;> simp [Occurrence.noted]
      | fire _ _ => rfl
      | pass _ => simp [Occurrence.noted]
      | clear => simp [Occurrence.noted]
    rw [ih, hlog, List.flatMap_cons, List.append_assoc]

end ReactiveTemplate.ClockScript
