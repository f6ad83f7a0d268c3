import ReactiveTemplate.Proofs.Clock.Chronicles

/-!
# Timers fire in order and on time

A host is tame if the tasks of its timers register further ones and otherwise leave the clock alone. Between
those tasks anybody may register timers and move time forward. Then every timer fires once at most and at
its deadline, all of them in their order, and time does not move past one that was not fired.
-/

namespace ReactiveTemplate

/-- A clock on which tasks were registered and nothing else was done. -/
inductive Clock.Registers {τ : Type} : Clock τ → Clock τ → Prop
  | refl (c : Clock τ) : Registers c c
  | after {c c' : Clock τ} (h : Registers c c') (delay : Nat) (task : τ) : Registers c (c'.after delay task)

namespace Clock.Registers

variable {τ : Type} {c c' c'' : Clock τ} {fired : List (Clock.Firing τ)}

/-- Tasks are registered one after another. -/
theorem trans (h : c.Registers c') (h' : c'.Registers c'') : c.Registers c'' := by
  induction h' with
  | refl => exact h
  | after _ delay task ih => exact ih.after delay task

/-- Registering takes no time. -/
theorem now_eq (h : c.Registers c') : c'.now = c.now := by
  induction h with
  | refl => rfl
  | after _ delay task ih => exact ih

/-- Registering keeps what is true of the timers that fired. -/
theorem punctual (h : c.Registers c') (hpunctual : c.Punctual fired) : c'.Punctual fired := by
  induction h with
  | refl => exact hpunctual
  | after _ delay task ih => exact ih.after delay task

end Clock.Registers

namespace ClockHost

variable {σ τ ρ : Type}

/-- In the states of which `I` holds, the tasks of timers register further ones, leave the clock alone
otherwise, and keep `I`. -/
structure Tame (host : ClockHost σ τ ρ) (I : σ → Prop) : Prop where
  clock_setClock : ∀ c s, host.clock (host.setClock c s) = c
  pass : ∀ {s} time, I s → I (host.setClock ((host.clock s).setTime time) s)
  fire : ∀ {s s' task c target answer}, I s → (host.clock s).popDue? target = some (task, c) →
    host.fire task (host.setClock c s) = some (answer, s') → I s' ∧ c.Registers (host.clock s')

/-- The states that a host comes to from a state, with the timers that fired on the way: a task is
registered, whatever else is done in the meantime; the first timer fires; or time passes in which none is due. -/
inductive Course (host : ClockHost σ τ ρ) (I : σ → Prop) (s₀ : σ) : List (Clock.Firing τ) → σ → Prop
  | start : Course host I s₀ [] s₀
  | register {fired : List (Clock.Firing τ)} {s s' : σ} {delay : Nat} {task : τ} (h : Course host I s₀ fired s)
      (hI : I s') (hclock : host.clock s' = (host.clock s).after delay task) : Course host I s₀ fired s'
  | fire {fired : List (Clock.Firing τ)} {s s' : σ} {timer : Timer τ} {rest : List (Timer τ)} {target : Nat}
      {c : Clock τ} {answer : ρ} (h : Course host I s₀ fired s) (htimers : (host.clock s).timers = timer :: rest)
      (hdue : (host.clock s).popDue? target = some (timer.task, c))
      (hfire : host.fire timer.task (host.setClock c s) = some (answer, s')) :
      Course host I s₀ (fired ++ [⟨timer, c.now⟩]) s'
  | pass {fired : List (Clock.Firing τ)} {s : σ} {target : Nat} (h : Course host I s₀ fired s)
      (hdue : (host.clock s).popDue? target = none) (hnow : (host.clock s).now ≤ target) :
      Course host I s₀ fired (host.setClock ((host.clock s).setTime target) s)

namespace Tame

variable {host : ClockHost σ τ ρ} {I : σ → Prop} {s₀ s s' : σ} {fired : List (Clock.Firing τ)} {answers : List ρ}
  {fuel : Nat}

section Moves

variable (h : host.Tame I)

include h

/-- What a course keeps, and what is true of the clock and the timers that fired on it. -/
theorem course_holds (hI : I s₀) (hstart : (host.clock s₀).Punctual []) (hcourse : host.Course I s₀ fired s) :
    I s ∧ (host.clock s).Punctual fired := by
  induction hcourse with
  | start => exact ⟨hI, hstart⟩
  | @register fired s s' delay task _ hnext hclock ih =>
    rw [hclock]
    exact ⟨hnext, ih.2.after delay task⟩
  | fire _ htimers hdue hfire ih =>
    obtain ⟨hnext, hregisters⟩ := h.fire ih.1 hdue hfire
    obtain ⟨_, _, rfl⟩ := Clock.popDue?_eq_some htimers hdue
    exact ⟨hnext, hregisters.punctual (ih.2.fire htimers)⟩
  | @pass fired s target _ hdue hnow ih =>
    rw [h.clock_setClock]
    exact ⟨h.pass target ih.1, ih.2.pass hdue hnow⟩

/-- Timers fire until none is due, one for each answer. -/
theorem course_drains {target : Nat} (hI : I s) (hcourse : host.Course I s₀ fired s)
    (hnow : (host.clock s).now ≤ target) (hrun : host.Drains target s answers s') :
    ∃ more, host.Course I s₀ (fired ++ more) s' ∧ I s' ∧ more.length = answers.length ∧
      (host.clock s').now ≤ target ∧ (host.clock s').popDue? target = none := by
  induction hrun generalizing fired with
  | none hdue => exact ⟨[], by rwa [List.append_nil], hI, rfl, hnow, hdue⟩
  | @fire s mid s' task c answer later hdue hfire _ ih =>
    obtain ⟨hmid, hregisters⟩ := h.fire hI hdue hfire
    obtain ⟨timer, rest, htimers, rfl, hdeadline, hc⟩ := Clock.exists_of_popDue? hdue
    -- The task takes no time, so that the target still lies ahead.
    have hmidnow : (host.clock mid).now ≤ target := by
      rw [hregisters.now_eq, hc]
      exact Nat.max_le.mpr ⟨hnow, hdeadline⟩
    obtain ⟨more, hend, hlast, hlength, hle, hnone⟩ := ih hmid (hcourse.fire htimers hdue hfire) hmidnow
    rw [List.append_assoc] at hend
    exact ⟨_, hend, hlast, congrArg (· + 1) hlength, hle, hnone⟩

/-- Time moves forward by what was asked, and one timer fires for each answer. -/
theorem course_advance {milliseconds : Nat} (hI : I s) (hcourse : host.Course I s₀ fired s)
    (hrun : host.advance fuel milliseconds s = some (answers, s')) :
    ∃ more, host.Course I s₀ (fired ++ more) s' ∧ I s' ∧ more.length = answers.length ∧
      (host.clock s').now = (host.clock s).now + milliseconds ∧
      (host.clock s').popDue? (host.clock s').now = none := by
  obtain ⟨mid, hdrains, rfl⟩ := drains_of_advance hrun
  obtain ⟨more, hmore, hmid, hlength, hnow, hnone⟩ :=
    h.course_drains hI hcourse (Nat.le_add_right _ milliseconds) hdrains
  refine ⟨more, hmore.pass hnone hnow, h.pass _ hmid, hlength, ?_, ?_⟩
  · rw [h.clock_setClock]
    rfl
  · rw [h.clock_setClock]
    exact Clock.popDue?_setTime_eq_none.mpr hnone

/-- Time moves until no timer is left, and one timer fires for each answer. -/
theorem course_settles {before : Nat} (hI : I s) (hcourse : host.Course I s₀ fired s)
    (hrun : host.Settles before s answers s') :
    ∃ more, host.Course I s₀ (fired ++ more) s' ∧ more.length = answers.length := by
  induction hrun generalizing fired with
  | stop _ => exact ⟨[], by rwa [List.append_nil], rfl⟩
  | advance _ _ hfirst _ ih =>
    obtain ⟨more, hmore, hmid, hlength, _⟩ := h.course_advance hI hcourse hfirst
    obtain ⟨further, hfurther, hcount⟩ := ih hmid hmore
    rw [List.append_assoc] at hfurther
    exact ⟨_, hfurther, by rw [List.length_append, List.length_append, hlength, hcount]⟩

end Moves

/-- However a tame host goes on from a clock that has just started: the timers that fired did so at their
deadlines, in the order of deadlines and numbers, and no deadline of a timer that waits has passed. Moving
time forward takes as long as was asked, leaves no timer that is due and has fired none that is not, and
gives an answer for each that fired; and so does moving time until no timer is left. -/
theorem fires_in_order (h : host.Tame I) (hI : I s₀) (hstart : host.clock s₀ = .start) :
    (∀ fired s, host.Course I s₀ fired s → (host.clock s).Punctual fired) ∧
    (∀ fired s fuel milliseconds answers s', host.Course I s₀ fired s →
      host.advance fuel milliseconds s = some (answers, s') →
      ∃ more, host.Course I s₀ (fired ++ more) s' ∧ more.length = answers.length ∧
        (host.clock s').now = (host.clock s).now + milliseconds ∧
        (∀ timer ∈ (host.clock s').timers, (host.clock s').now < timer.deadline) ∧
        ∀ firing ∈ fired ++ more, firing.timer.deadline ≤ (host.clock s').now) ∧
    ∀ fired s fuel answers s', host.Course I s₀ fired s → host.settle fuel 0 s = some (answers, s') →
      ∃ more, host.Course I s₀ (fired ++ more) s' ∧ more.length = answers.length := by
  have hempty : (host.clock s₀).Punctual [] := hstart ▸ .start
  refine ⟨fun fired s hcourse => (h.course_holds hI hempty hcourse).2,
    fun fired s fuel milliseconds answers s' hcourse hrun => ?_, fun fired s fuel answers s' hcourse hrun => ?_⟩
  · obtain ⟨more, hmore, _, hlength, hnow, hnone⟩ :=
      h.course_advance (h.course_holds hI hempty hcourse).1 hcourse hrun
    have hpunctual := (h.course_holds hI hempty hmore).2
    exact ⟨more, hmore, hlength, hnow, hpunctual.lt_deadline hnone, hpunctual.past⟩
  · exact h.course_settles (h.course_holds hI hempty hcourse).1 hcourse (settles_of_settle hrun)

end Tame

end ClockHost

/-! ### Scripts -/

namespace ClockScript

/-- A request of a scheduler registers a task at most. -/
theorem registers_request {n : Nat} {label : String} {andThen : List Step} {s s' : State} {taken : Bool}
    (hrun : request n label andThen s = some (taken, s')) : s.clock.Registers s'.clock := by
  cases hn : s.schedulers[n]? with
  | none =>
    rw [request_of_none hn] at hrun
    cases hrun
    exact .refl _
  | some scheduler =>
    rw [request_eq hn] at hrun
    cases hrun
    split
    · exact .refl _
    · exact (Clock.Registers.refl _).after _ _

/-- A plain step registers tasks. -/
theorem registers_perform (host : ClockHost State Task Unit) (fuel : Nat) {step : Step} {s s' : State}
    {reply : Reply} (h : step.Plain) (hrun : perform host fuel step s = some (reply, s')) :
    s.clock.Registers s'.clock := by
  have hregister {delay : Nat} {task : Task} {answer : Reply}
      (hrun : (register delay task >>= fun _ => pure answer) s = some (reply, s')) :
      s.clock.Registers s'.clock := by
    cases hrun
    exact (Clock.Registers.refl _).after delay task
  cases step with
  | timeout delay label andThen => exact hregister hrun
  | loop delay => exact hregister hrun
  | request n label andThen =>
    obtain ⟨taken, mid, hrequest, hend⟩ := bind_eq_some.mp hrun
    cases hend
    exact registers_request hrequest
  | look =>
    cases hrun
    exact .refl _
  | advance milliseconds => cases h
  | idle => cases h
  | clear => cases h

/-- Plain steps register tasks. -/
theorem registers_performAll (host : ClockHost State Task Unit) (fuel : Nat) {steps : List Step} {s s' : State}
    {answer : Unit} (h : PlainAll steps) (hrun : performAll host fuel steps s = some (answer, s')) :
    s.clock.Registers s'.clock := by
  induction steps generalizing s with
  | nil =>
    cases hrun
    exact .refl _
  | cons step rest ih =>
    obtain ⟨reply, mid, hfirst, hrest⟩ := bind_eq_some.mp hrun
    exact (registers_perform host fuel h.1 hfirst).trans (ih h.2 hrest)

/-- The host of a script is tame while all timers that wait have plain steps. -/
theorem tame_host (depth : Nat) : (host depth).Tame State.Calm where
  clock_setClock _ _ := rfl
  pass _ hcalm := hcalm
  fire {s s' task c target answer} hcalm hdue hfire := by
    obtain ⟨timer, rest, htimers, rfl, _⟩ := Clock.exists_of_popDue? hdue
    obtain ⟨hentered, hsteps⟩ := hcalm.enter htimers hdue
    obtain ⟨_, _, htold⟩ := exists_chronicle_of_fire hfire
    cases depth with
    | zero => cases hfire
    | succ depth =>
      rw [fire_eq, modify_bind] at hfire
      exact ⟨(htold.orderly hsteps hentered).2.1, registers_performAll (host depth) depth hsteps hfire⟩

/-- A state with two timers, of which the one that was registered last fires first and registers another one
for the same time. -/
def chiming : State where
  clock := ((Clock.start.after 5 (.callback "second" [])).after 3
    (.callback "first" [.timeout 0 "echo" []]))
  schedulers := []
  log := []

/-- After three milliseconds the first timer has fired, and the one that it registered. -/
theorem fires_in_order_chiming :
    (host 3).Tame State.Calm ∧ (State.start []).Calm ∧ (host 3).clock (.start []) = .start ∧
      ∃ fired s', (host 3).Course State.Calm (.start []) fired s' ∧ fired.length = 2 ∧
        s'.log = [("first", 3), ("echo", 3)] ∧ s'.clock.now = 3 ∧ s'.clock.Punctual fired ∧
        ∀ timer ∈ s'.clock.timers, s'.clock.now < timer.deadline := by
  have hcalm : (State.start []).Calm := by simp [State.Calm, State.start, Clock.start]
  have hsecond : PlainAll (Task.callback "second" []).steps := trivial
  have hfirst : PlainAll (Task.callback "first" [.timeout 0 "echo" []]).steps := ⟨trivial, trivial⟩
  have hone := hcalm.after 5 hsecond []
  have hboth : chiming.Calm := hone.after 3 hfirst []
  have hcourse : (host 3).Course State.Calm (.start []) [] chiming :=
    (ClockHost.Course.start.register hone rfl).register hboth rfl
  obtain ⟨hpunctual, hadvance, _⟩ := (tame_host 3).fires_in_order hcalm rfl
  obtain ⟨more, hmore, hlength, hnow, hahead, _⟩ := hadvance [] chiming 9 3 [(), ()] _ hcourse rfl
  exact ⟨tame_host 3, hcalm, rfl, more, _, hmore, hlength, rfl, hnow, hpunctual more _ hmore, hahead⟩

end ClockScript

end ReactiveTemplate
