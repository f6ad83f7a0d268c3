import ReactiveTemplate.Proofs.Clock.Steps

/-!
# Chronicles of a run

A chronicle tells what happens in a run of a script, and what the steps answer: a callback is told where it runs,
behind the firing of its timer. It is told of the script, without fuel and without regard to how the run is computed.
Every run that comes to an end has a chronicle, and no other chronicle can be told of the same script from the same
state.
-/

namespace ReactiveTemplate.ClockScript

/-! ### Chronicles -/

/-- What there is to do: a step, or steps one after the other; to fire timers as long as one is due by some time; or
to move time until no timer is left, when some have fired before. -/
inductive Work where
  | step (step : Step)
  | steps (steps : List Step)
  | drain (target : Nat)
  | settle (fired : Nat)

/-- From one state to another some work is done, with these answers, and this is what happens. -/
inductive Chronicle : Work → State → List Reply → List Occurrence → State → Prop
  | timeout {s : State} {delay : Nat} {label : String} {andThen : List Step} :
      Chronicle (.step (.timeout delay label andThen)) s [.nothing]
        [.registered ⟨s.clock.now + delay, s.clock.registered, .callback label andThen⟩]
        { s with clock := s.clock.after delay (.callback label andThen) }
  | loop {s : State} {delay : Nat} :
      Chronicle (.step (.loop delay)) s [.nothing]
        [.registered ⟨s.clock.now + delay, s.clock.registered, .loop delay⟩]
        { s with clock := s.clock.after delay (.loop delay) }
  | request {s s' : State} {n : Nat} {scheduler : Scheduler} {label : String} {andThen : List Step} {taken : Bool}
      (hn : s.schedulers[n]? = some scheduler)
      (hrun : ClockScript.request n label andThen s = some (taken, s')) :
      Chronicle (.step (.request n label andThen)) s [.armed taken]
        [.requested ⟨s.clock.now, scheduler.interval, s.clock.registered, n, label, andThen⟩ taken] s'
  /-- A request of a scheduler that there is not. -/
  | stray {s : State} {n : Nat} {label : String} {andThen : List Step} (hn : s.schedulers[n]? = none) :
      Chronicle (.step (.request n label andThen)) s [.armed false] [] s
  | advance {s mid : State} {milliseconds count : Nat} {history : List Occurrence}
      (hdrain : Chronicle (.drain (s.clock.now + milliseconds)) s [.fired count] history mid) :
      Chronicle (.step (.advance milliseconds)) s [.fired count]
        (history ++ [.passed (s.clock.now + milliseconds)])
        { mid with clock := mid.clock.setTime (s.clock.now + milliseconds) }
  | idle {s s' : State} {count : Nat} {history : List Occurrence}
      (hsettle : Chronicle (.settle 0) s [.fired count] history s') :
      Chronicle (.step .idle) s [.fired count] history s'
  | clear {s : State} :
      Chronicle (.step .clear) s [.nothing] [.cleared s.clock.timers] { s with clock := s.clock.clear }
  | look {s : State} : Chronicle (.step .look) s [.nothing] [] s
  | nil {s : State} : Chronicle (.steps []) s [] [] s
  | cons {s mid s' : State} {step : Step} {rest : List Step} {first more : List Reply}
      {history later : List Occurrence} (hfirst : Chronicle (.step step) s first history mid)
      (hrest : Chronicle (.steps rest) mid more later s') :
      Chronicle (.steps (step :: rest)) s (first ++ more) (history ++ later) s'
  | drained {s : State} {target : Nat} (hdue : s.clock.popDue? target = none) :
      Chronicle (.drain target) s [.fired 0] [] s
  /-- The first timer fires, and its callback runs before the next one fires. -/
  | due {s mid s' : State} {target count : Nat} {timer : Timer Task} {rest : List (Timer Task)}
      {clock : Clock Task} {answers : List Reply} {first later : List Occurrence}
      (htimers : s.clock.timers = timer :: rest) (hdue : s.clock.popDue? target = some (timer.task, clock))
      (hcallback : Chronicle (.steps timer.task.steps) (timer.task.enter { s with clock }) answers first mid)
      (hrest : Chronicle (.drain target) mid [.fired count] later s') :
      Chronicle (.drain target) s [.fired (count + 1)] (.fired timer clock.now :: (first ++ later)) s'
  | settled {s : State} {fired : Nat}
      (hend : s.clock.untilNext? = none ∨ ClockHost.idleLimit ≤ fired) :
      Chronicle (.settle fired) s [.fired 0] [] s
  | onward {s mid s' : State} {fired delay count more : Nat} {history later : List Occurrence}
      (hdelay : s.clock.untilNext? = some delay) (hfired : fired < ClockHost.idleLimit)
      (hfirst : Chronicle (.step (.advance delay)) s [.fired count] history mid)
      (hrest : Chronicle (.settle (fired + count)) mid [.fired more] later s') :
      Chronicle (.settle fired) s [.fired (count + more)] (history ++ later) s'

namespace Chronicle

variable {work : Work} {s mid s' s'' : State} {answers answers' : List Reply} {history later : List Occurrence}

/-- The work and the state determine the chronicle. -/
theorem unique (h : Chronicle work s answers history s') (h' : Chronicle work s answers' later s'') :
    answers' = answers ∧ later = history ∧ s'' = s' := by
  induction h generalizing answers' later s'' with
  | timeout | loop | clear | look | nil =>
    cases h'
    exact ⟨rfl, rfl, rfl⟩
  | request hn hrun =>
    cases h' with
    | request hn' hrun' =>
      cases hn.symm.trans hn'
      cases hrun.symm.trans hrun'
      exact ⟨rfl, rfl, rfl⟩
    | stray hn' => cases hn.symm.trans hn'
  | stray hn =>
    cases h' with
    | request hn' _ => cases hn.symm.trans hn'
    | stray _ => exact ⟨rfl, rfl, rfl⟩
  | advance _ ih =>
    cases h' with
    | advance hdrain' =>
      obtain ⟨hcount, rfl, rfl⟩ := ih hdrain'
      exact ⟨hcount, rfl, rfl⟩
  | idle _ ih =>
    cases h' with
    | idle hsettle' => exact ih hsettle'
  | cons _ _ ihfirst ihrest =>
    cases h' with
    | cons hfirst' hrest' =>
      obtain ⟨rfl, rfl, rfl⟩ := ihfirst hfirst'
      obtain ⟨rfl, rfl, rfl⟩ := ihrest hrest'
      exact ⟨rfl, rfl, rfl⟩
  | drained hdue =>
    cases h' with
    | drained _ => exact ⟨rfl, rfl, rfl⟩
    | due _ hdue' _ _ => cases hdue.symm.trans hdue'
  | due htimers hdue _ _ ihcallback ihrest =>
    cases h' with
    | drained hdue' => cases hdue.symm.trans hdue'
    | due htimers' hdue' hcallback' hrest' =>
      cases htimers.symm.trans htimers'
      cases hdue.symm.trans hdue'
      obtain ⟨rfl, rfl, rfl⟩ := ihcallback hcallback'
      obtain ⟨hcount, rfl, rfl⟩ := ihrest hrest'
      cases hcount
      exact ⟨rfl, rfl, rfl⟩
  | settled hend =>
    cases h' with
    | settled _ => exact ⟨rfl, rfl, rfl⟩
    | onward hdelay' hfired' _ _ =>
      rcases hend with hnone | hlimit
      · cases hnone.symm.trans hdelay'
      · exact absurd hfired' (Nat.not_lt_of_le hlimit)
  | onward hdelay hfired _ _ ihfirst ihrest =>
    cases h' with
    | settled hend' =>
      rcases hend' with hnone | hlimit
      · cases hdelay.symm.trans hnone
      · exact absurd hfired (Nat.not_lt_of_le hlimit)
    | onward hdelay' _ hfirst' hrest' =>
      cases hdelay.symm.trans hdelay'
      obtain ⟨hcount, rfl, rfl⟩ := ihfirst hfirst'
      cases hcount
      obtain ⟨hmore, rfl, rfl⟩ := ihrest hrest'
      cases hmore
      exact ⟨rfl, rfl, rfl⟩

/-- One step more is done after several. -/
theorem concat {steps : List Step} {step : Step} (h : Chronicle (.steps steps) s answers history mid)
    (hstep : Chronicle (.step step) mid answers' later s') :
    Chronicle (.steps (steps ++ [step])) s (answers ++ answers') (history ++ later) s' := by
  generalize hwork : Work.steps steps = work at h
  induction h generalizing steps with
  | nil =>
    cases hwork
    have hlast := hstep.cons .nil
    rwa [List.append_nil, List.append_nil] at hlast
  | cons hfirst _ _ ih =>
    cases hwork
    rw [List.append_assoc, List.append_assoc]
    exact hfirst.cons (ih hstep rfl)
  | _ => cases hwork

/-- What happens in a run leads from its start to its end. -/
theorem evolves (h : Chronicle work s answers history s') : Evolves s history s' := by
  induction h with
  | timeout | loop => exact .single trivial (.register rfl)
  | request hn hrun => exact .single trivial (.request hn hrun)
  | stray _ | look | nil | drained _ | settled _ => exact .nil
  | advance _ ih => exact ih.trans (.single trivial (.pass _))
  | idle _ ih => exact ih
  | clear => exact .single trivial .clear
  | cons _ _ ihfirst ihrest | onward _ _ _ _ ihfirst ihrest => exact ihfirst.trans ihrest
  | due htimers hdue _ _ ihcallback ihrest => exact .cons trivial (.fire htimers hdue) (ihcallback.trans ihrest)

end Chronicle

/-! ### Runs have chronicles -/

section Nesting

variable {depth : Nat} {s s' : State} (hfire : ∀ {task : Task} {s s' : State},
  (host depth).fire task s = some ((), s') →
    ∃ answers history, Chronicle (.steps task.steps) (task.enter s) answers history s')

include hfire

/-- Timers fire until none is due. -/
theorem exists_chronicle_of_drains {target : Nat} {fired : List Unit} (hrun : (host depth).Drains target s fired s') :
    ∃ history, Chronicle (.drain target) s [.fired fired.length] history s' := by
  induction hrun with
  | none hdue => exact ⟨[], .drained hdue⟩
  | fire hdue hfirst _ ih =>
    obtain ⟨timer, rest, htimers, rfl, _, _⟩ := Clock.exists_of_popDue? hdue
    obtain ⟨answers, first, hcallback⟩ := hfire hfirst
    obtain ⟨later, hrest⟩ := ih
    exact ⟨_, .due htimers hdue hcallback hrest⟩

/-- Time moves forward. -/
theorem exists_chronicle_of_advance {fuel milliseconds : Nat} {fired : List Unit}
    (hrun : (host depth).advance fuel milliseconds s = some (fired, s')) :
    ∃ history, Chronicle (.step (.advance milliseconds)) s [.fired fired.length] history s' := by
  obtain ⟨mid, hdrains, rfl⟩ := ClockHost.drains_of_advance hrun
  obtain ⟨history, hdrain⟩ := exists_chronicle_of_drains hfire hdrains
  exact ⟨_, .advance hdrain⟩

/-- Time moves until no timer is left. -/
theorem exists_chronicle_of_settles {before : Nat} {fired : List Unit}
    (hrun : (host depth).Settles before s fired s') :
    ∃ history, Chronicle (.settle before) s [.fired fired.length] history s' := by
  induction hrun with
  | stop hend => exact ⟨[], .settled hend⟩
  | advance hdelay hlimit hfirst _ ih =>
    obtain ⟨history, hadvance⟩ := exists_chronicle_of_advance hfire hfirst
    obtain ⟨later, hrest⟩ := ih
    rw [List.length_append]
    exact ⟨_, .onward hdelay hlimit hadvance hrest⟩

/-- A step is done. -/
theorem exists_chronicle_of_step {fuel : Nat} {step : Step} {reply : Reply}
    (hrun : perform (host depth) fuel step s = some (reply, s')) :
    ∃ history, Chronicle (.step step) s [reply] history s' := by
  cases step with
  | timeout delay label andThen =>
    cases hrun
    exact ⟨_, .timeout⟩
  | loop delay =>
    cases hrun
    exact ⟨_, .loop⟩
  | clear =>
    cases hrun
    exact ⟨_, .clear⟩
  | look =>
    cases hrun
    exact ⟨_, .look⟩
  | request n label andThen =>
    obtain ⟨taken, mid, hrequest, hend⟩ := bind_eq_some.mp hrun
    cases hend
    cases hn : s.schedulers[n]? with
    | some scheduler => exact ⟨_, .request hn hrequest⟩
    | none =>
      rw [request_of_none hn] at hrequest
      cases hrequest
      exact ⟨_, .stray hn⟩
  | advance milliseconds =>
    obtain ⟨fired, mid, hadvance, hend⟩ := bind_eq_some.mp hrun
    cases hend
    exact exists_chronicle_of_advance hfire hadvance
  | idle =>
    obtain ⟨fired, mid, hsettle, hend⟩ := bind_eq_some.mp hrun
    cases hend
    obtain ⟨history, hsettled⟩ := exists_chronicle_of_settles hfire (ClockHost.settles_of_settle hsettle)
    exact ⟨history, .idle hsettled⟩

/-- Steps are done. -/
theorem exists_chronicle_of_steps {fuel : Nat} {steps : List Step} {answer : Unit}
    (hrun : performAll (host depth) fuel steps s = some (answer, s')) :
    ∃ answers history, Chronicle (.steps steps) s answers history s' := by
  induction steps generalizing s with
  | nil =>
    cases hrun
    exact ⟨_, _, .nil⟩
  | cons step rest ih =>
    obtain ⟨reply, mid, hfirst, hrest⟩ := bind_eq_some.mp hrun
    obtain ⟨history, hstep⟩ := exists_chronicle_of_step hfire hfirst
    obtain ⟨answers, later, hsteps⟩ := ih hrest
    exact ⟨_, _, hstep.cons hsteps⟩

end Nesting

/-- However deep callbacks nest, what a timer does when it fires is told of the steps of its task. -/
theorem exists_chronicle_of_fire {depth : Nat} {task : Task} {s s' : State}
    (hrun : (host depth).fire task s = some ((), s')) :
    ∃ answers history, Chronicle (.steps task.steps) (task.enter s) answers history s' := by
  induction depth generalizing task s s' with
  | zero => cases hrun
  | succ depth ih =>
    rw [fire_eq, modify_bind] at hrun
    exact exists_chronicle_of_steps ih hrun

/-- Every step that comes to an end has a chronicle. -/
theorem exists_chronicle_of_perform {depth fuel : Nat} {step : Step} {reply : Reply} {s s' : State}
    (hrun : perform (host depth) fuel step s = some (reply, s')) :
    ∃ history, Chronicle (.step step) s [reply] history s' :=
  exists_chronicle_of_step exists_chronicle_of_fire hrun

/-- Every run of steps that comes to an end has a chronicle. -/
theorem exists_chronicle_of_performAll {depth fuel : Nat} {steps : List Step} {answer : Unit} {s s' : State}
    (hrun : performAll (host depth) fuel steps s = some (answer, s')) :
    ∃ answers history, Chronicle (.steps steps) s answers history s' :=
  exists_chronicle_of_steps exists_chronicle_of_fire hrun

/-! ### Orderly runs -/

namespace Work

/-- Work of which nothing disorderly comes: callbacks have plain steps, the script outside has proper ones, and time
is not to go back. -/
def Proper (s : State) : Work → Prop
  | step first => first.Proper
  | steps all => PlainAll all
  | drain target => s.clock.now ≤ target
  | settle _ => True

/-- The time after such work: callbacks take no time, and when timers have fired none is due any more. -/
def Timely (s s' : State) : Work → Prop
  | step first => first.Plain → s'.clock.now = s.clock.now
  | steps _ => s'.clock.now = s.clock.now
  | drain target => s'.clock.now ≤ target ∧ s'.clock.popDue? target = none
  | settle _ => True

end Work

/-- A plain step is proper. -/
theorem Step.Plain.proper {step : Step} (h : step.Plain) : step.Proper := by
  cases step with
  | timeout | request | loop | look => exact h
  | advance | idle | clear => cases h

/-- Proper work is done in order, and leaves plain steps to the timers that wait. -/
theorem Chronicle.orderly {work : Work} {s s' : State} {answers : List Reply} {history : List Occurrence}
    (h : Chronicle work s answers history s') (hwork : work.Proper s) (hcalm : s.Calm) :
    Path Occurrence.Orderly s history s' ∧ s'.Calm ∧ work.Timely s s' := by
  induction h with
  | @timeout s delay label andThen =>
    have hsteps : PlainAll (Task.callback label andThen).steps := hwork
    exact ⟨.single trivial (.register rfl), hcalm.after delay hsteps s.schedulers, fun _ => rfl⟩
  | @loop s delay =>
    have hsteps : PlainAll (Task.loop delay).steps := ⟨trivial, trivial⟩
    exact ⟨.single trivial (.register rfl), hcalm.after delay hsteps s.schedulers, fun _ => rfl⟩
  | @request s s' n scheduler label andThen taken hn hrun =>
    refine ⟨.single trivial (.request hn hrun), ?_⟩
    rw [request_eq hn] at hrun
    cases hrun
    have hsteps : PlainAll (Task.requested n label andThen).steps := hwork
    split
    · exact ⟨hcalm, fun _ => rfl⟩
    · exact ⟨hcalm.after scheduler.interval hsteps _, fun _ => rfl⟩
  | stray _ | look => exact ⟨.nil, hcalm, fun _ => rfl⟩
  | nil => exact ⟨.nil, hcalm, rfl⟩
  | @advance s mid milliseconds count history _ ih =>
    obtain ⟨hpath, hmid, hnow, hnone⟩ := ih (Nat.le_add_right s.clock.now milliseconds) hcalm
    exact ⟨hpath.trans (.single ⟨hnone, hnow⟩ (.pass _)), hmid, fun hplain => hplain.elim⟩
  | idle _ ih =>
    obtain ⟨hpath, hend, _⟩ := ih trivial hcalm
    exact ⟨hpath, hend, fun hplain => hplain.elim⟩
  | clear => exact hwork.elim
  | cons _ _ ihfirst ihrest =>
    obtain ⟨hpath, hmid, hnow⟩ := ihfirst hwork.1.proper hcalm
    obtain ⟨hmore, hend, hlater⟩ := ihrest hwork.2 hmid
    exact ⟨hpath.trans hmore, hend, Eq.trans hlater (hnow hwork.1)⟩
  | drained hdue => exact ⟨.nil, hcalm, hwork, hdue⟩
  | @due s mid s' target count timer rest clock answers first later htimers hdue _ _ ihcallback ihrest =>
    obtain ⟨hentered, hsteps⟩ := hcalm.enter htimers hdue
    obtain ⟨_, hdeadline, rfl⟩ := Clock.popDue?_eq_some htimers hdue
    obtain ⟨hpath, hmid, hnow⟩ := ihcallback hsteps hentered
    -- The callback takes no time, so that the target still lies ahead.
    have hle : mid.clock.now ≤ target := by
      rw [Work.Timely] at hnow
      rw [hnow]
      exact Nat.max_le.mpr ⟨hwork, hdeadline⟩
    obtain ⟨hmore, hend, htimely⟩ := ihrest hle hmid
    exact ⟨.cons trivial (.fire htimers hdue) (hpath.trans hmore), hend, htimely⟩
  | settled _ => exact ⟨.nil, hcalm, trivial⟩
  | onward _ _ _ _ ihfirst ihrest =>
    obtain ⟨hpath, hmid, _⟩ := ihfirst trivial hcalm
    obtain ⟨hmore, hend, _⟩ := ihrest trivial hmid
    exact ⟨hpath.trans hmore, hend, trivial⟩

/-! ### Scripts -/

/-- The states that a script with schedulers of some delays leads to, and what its steps answer. -/
inductive Driven (intervals : List Nat) : List Step → List Reply → State → Prop
  | start : Driven intervals [] [] (.start intervals)
  | step {script : List Step} {replies : List Reply} {s s' : State} {fuel : Nat} {step : Step} {reply : Reply}
      (h : Driven intervals script replies s) (hstep : step.Proper) (hrun : run fuel step s = some (reply, s')) :
      Driven intervals (script ++ [step]) (replies ++ [reply]) s'

/-- A script goes on with steps for which one measure of fuel is enough. -/
theorem Driven.mapM {intervals : List Nat} {script steps : List Step} {replies more : List Reply} {s s' : State}
    {fuel : Nat} (h : Driven intervals script replies s) (hsteps : ∀ step ∈ steps, step.Proper)
    (hrun : steps.mapM (run fuel) s = some (more, s')) :
    Driven intervals (script ++ steps) (replies ++ more) s' := by
  induction steps generalizing script replies more s with
  | nil =>
    cases hrun
    simpa using h
  | cons step rest ih =>
    rw [List.mapM_cons] at hrun
    obtain ⟨reply, mid, hfirst, hrest⟩ := bind_eq_some.mp hrun
    obtain ⟨later, last, hlater, hend⟩ := bind_eq_some.mp hrest
    cases hend
    obtain ⟨hstep, hothers⟩ := List.forall_mem_cons.mp hsteps
    simpa using ih (h.step hstep hfirst) hothers hlater

/-- What happens along a script is told by the chronicle of its steps, and is orderly. -/
theorem Driven.exists_chronicle {intervals : List Nat} {script : List Step} {replies : List Reply} {s : State}
    (h : Driven intervals script replies s) :
    ∃ history, Chronicle (.steps script) (.start intervals) replies history s ∧
      Path Occurrence.Orderly (.start intervals) history s ∧ s.Calm := by
  induction h with
  | start => exact ⟨[], .nil, .nil, by simp [State.Calm, State.start, Clock.start]⟩
  | step _ hstep hrun ih =>
    obtain ⟨history, htold, hpath, hcalm⟩ := ih
    obtain ⟨later, hmore⟩ := exists_chronicle_of_perform hrun
    obtain ⟨hlater, hend, _⟩ := hmore.orderly hstep hcalm
    exact ⟨history ++ later, htold.concat hmore, hpath.trans hlater, hend⟩

end ReactiveTemplate.ClockScript
