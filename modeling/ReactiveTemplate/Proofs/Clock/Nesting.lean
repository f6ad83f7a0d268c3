import ReactiveTemplate.Proofs.Clock.Firings

/-!
# Time seen from nested advances

A callback may itself move the clock, while the advance that runs it has its target fixed already. What is
seen of the time along a run is a tree, with one level for each depth of nesting. Along each level time never
goes back; between two levels it does where a callback came further than the advance around it.
-/

namespace ReactiveTemplate

/-! ### What is seen of the time -/

/-- The time seen at the start of something and at its finish, and what was seen in between: along steps, or
in the callbacks that ran while time was moved forward. -/
inductive Clock.Period where
  | course (start : Nat) (steps : List Clock.Period) (finish : Nat)
  | advance (start : Nat) (callbacks : List Clock.Period) (finish : Nat)

namespace Clock.Period

/-- The time seen first. -/
def start : Period → Nat
  | course start _ _ | advance start _ _ => start

/-- The time seen last. -/
def finish : Period → Nat
  | course _ _ finish | advance _ _ finish => finish

/-- What was seen in between. -/
def parts : Period → List Period
  | course _ parts _ | advance _ parts _ => parts

mutual

/-- All that was seen of the time, in the order in which it was seen. -/
def times : Period → List Nat
  | course start parts finish | advance start parts finish => start :: (allTimes parts ++ [finish])

/-- What was seen in one after another. -/
def allTimes : List Period → List Nat
  | [] => []
  | period :: rest => period.times ++ allTimes rest

end

mutual

/-- Time does not go back along the steps, nor along the callbacks, nor from before an advance to after it. -/
def Ordered : Period → Prop
  | course start steps finish => Chain start steps finish
  | advance start callbacks finish => start ≤ finish ∧ ∃ reached, Chain start callbacks reached

/-- Time does not go back from one to the next, between a time before the first and one after the last. -/
def Chain (before : Nat) : List Period → (after : Nat) → Prop
  | [], after => before ≤ after
  | period :: rest, after => before ≤ period.start ∧ period.Ordered ∧ Chain period.finish rest after

end

mutual

/-- No callback comes further than the advance that runs it. -/
def Contained : Period → Prop
  | course _ steps _ => AllContained steps
  | advance _ callbacks finish => AllContained callbacks ∧ ∀ callback ∈ callbacks, callback.finish ≤ finish

/-- This holds of each. -/
def AllContained : List Period → Prop
  | [] => True
  | period :: rest => period.Contained ∧ AllContained rest

end

/-- Something was seen in one of several. -/
theorem mem_allTimes {periods : List Period} {time : Nat} :
    time ∈ allTimes periods ↔ ∃ period ∈ periods, time ∈ period.times := by
  induction periods with
  | nil => simp [allTimes]
  | cons period rest ih => simp [allTimes, ih]

/-- The last time seen is among those seen. -/
theorem finish_mem_times (period : Period) : period.finish ∈ period.times := by
  cases period <;> simp [times, finish]

mutual

/-- Nothing earlier than the start is seen. -/
theorem Ordered.start_le {period : Period} (h : period.Ordered) :
    ∀ time ∈ period.times, period.start ≤ time := by
  have hseen {start finish : Nat} {inner : List Nat} (hle : start ≤ finish)
      (hinner : ∀ time ∈ inner, start ≤ time) : ∀ time ∈ start :: (inner ++ [finish]), start ≤ time :=
    List.forall_mem_cons.mpr ⟨Nat.le_refl start,
      List.forall_mem_append.mpr ⟨hinner, List.forall_mem_singleton.mpr hle⟩⟩
  cases period with
  | course start steps finish =>
    obtain ⟨hle, hall⟩ := Chain.before_le h
    exact hseen hle hall
  | advance start callbacks finish =>
    obtain ⟨hle, reached, hchain⟩ := h
    exact hseen hle (Chain.before_le hchain).2

/-- Nothing earlier than the time before is seen. -/
theorem Chain.before_le {before after : Nat} {periods : List Period} (h : Chain before periods after) :
    before ≤ after ∧ ∀ time ∈ allTimes periods, before ≤ time := by
  cases periods with
  | nil => exact ⟨h, List.forall_mem_nil _⟩
  | cons period rest =>
    obtain ⟨hbefore, hperiod, hrest⟩ := h
    have hall : ∀ time ∈ period.times, period.start ≤ time := hperiod.start_le
    have hfinish : before ≤ period.finish := Nat.le_trans hbefore (hall _ period.finish_mem_times)
    obtain ⟨hle, hlater⟩ := Chain.before_le hrest
    refine ⟨Nat.le_trans hfinish hle, List.forall_mem_append.mpr ⟨?_, ?_⟩⟩
    · exact fun time htime => Nat.le_trans hbefore (hall time htime)
    · exact fun time htime => Nat.le_trans hfinish (hlater time htime)

end

/-- What is seen without going back ends with the latest. -/
theorem le_finish_of_sorted {period : Period} (h : period.times.Pairwise (· ≤ ·)) :
    ∀ time ∈ period.times, time ≤ period.finish := by
  cases period <;>
  · rw [times, ← List.cons_append] at h ⊢
    refine List.forall_mem_append.mpr ⟨fun time htime => ?_, List.forall_mem_singleton.mpr (Nat.le_refl _)⟩
    exact (List.pairwise_append.mp h).2.2 time htime _ (List.mem_singleton_self _)

/-- If nothing goes back along several, then nothing goes back within one of them. -/
theorem sorted_of_mem {periods : List Period} {period : Period} (h : (allTimes periods).Pairwise (· ≤ ·))
    (hperiod : period ∈ periods) : period.times.Pairwise (· ≤ ·) := by
  induction periods with
  | nil => cases hperiod
  | cons first rest ih =>
    obtain ⟨hfirst, hrest, _⟩ := List.pairwise_append.mp h
    rcases List.mem_cons.mp hperiod with rfl | hperiod
    · exact hfirst
    · exact ih hrest hperiod

/-- No period that time leads through finishes after the time that is reached. -/
theorem Chain.finish_le {before after : Nat} {periods : List Period} (h : Chain before periods after) :
    ∀ period ∈ periods, period.finish ≤ after := by
  induction periods generalizing before with
  | nil => exact List.forall_mem_nil _
  | cons first rest ih => exact List.forall_mem_cons.mpr ⟨(Chain.before_le h.2.2).1, ih h.2.2⟩

/-- What is seen between a start and a finish goes back nowhere if what is seen in between goes back nowhere
and each of its parts finishes in time. -/
theorem sorted_between {start finish : Nat} {periods : List Period} (hle : start ≤ finish)
    (hall : ∀ time ∈ allTimes periods, start ≤ time) :
    (start :: (allTimes periods ++ [finish])).Pairwise (· ≤ ·) ↔
      (allTimes periods).Pairwise (· ≤ ·) ∧ ∀ period ∈ periods, period.finish ≤ finish := by
  have hstart : ∀ time ∈ allTimes periods ++ [finish], start ≤ time :=
    List.forall_mem_append.mpr ⟨hall, List.forall_mem_singleton.mpr hle⟩
  rw [List.pairwise_cons, List.pairwise_append, and_iff_right hstart]
  refine and_congr_right fun hsorted => ⟨fun h period hperiod => ?_, fun h => ?_⟩
  · exact h.2 _ (mem_allTimes.mpr ⟨period, hperiod, period.finish_mem_times⟩) finish (List.mem_singleton_self _)
  · refine ⟨List.pairwise_singleton _ _, fun time htime => List.forall_mem_singleton.mpr ?_⟩
    obtain ⟨period, hperiod, htime⟩ := mem_allTimes.mp htime
    exact Nat.le_trans (le_finish_of_sorted (sorted_of_mem hsorted hperiod) time htime) (h period hperiod)

mutual

/-- Time goes back exactly where a callback came further than the advance around it. -/
theorem Ordered.sorted_iff {period : Period} (h : period.Ordered) :
    period.times.Pairwise (· ≤ ·) ↔ period.Contained := by
  cases period with
  | course start steps finish =>
    -- No step comes further than the last one, so that only advances can contain something later.
    obtain ⟨hle, hall⟩ := Chain.before_le h
    rw [times, sorted_between hle hall, Chain.sorted_iff h, and_iff_left (Chain.finish_le h)]
    rfl
  | advance start callbacks finish =>
    obtain ⟨hle, reached, hchain⟩ := h
    rw [times, sorted_between hle (Chain.before_le hchain).2, Chain.sorted_iff hchain]
    rfl

/-- Along several, time goes back exactly where it does within one of them. -/
theorem Chain.sorted_iff {before after : Nat} {periods : List Period} (h : Chain before periods after) :
    (allTimes periods).Pairwise (· ≤ ·) ↔ AllContained periods := by
  cases periods with
  | nil => exact iff_of_true .nil trivial
  | cons period rest =>
    obtain ⟨_, hperiod, hrest⟩ := h
    rw [allTimes, List.pairwise_append, AllContained, Ordered.sorted_iff hperiod, ← and_assoc,
      Chain.sorted_iff hrest]
    refine and_iff_left_of_imp fun hcontained time htime later hlater => ?_
    have hsorted : period.times.Pairwise (· ≤ ·) := (Ordered.sorted_iff hperiod).mpr hcontained.1
    exact Nat.le_trans (le_finish_of_sorted hsorted time htime) ((Chain.before_le hrest).2 later hlater)

end

end Clock.Period

open Clock (Period)

/-! ### Hosts that watch the time -/

namespace ClockHost

variable {σ τ ρ ρ' : Type}

/-- The host with something else made of what comes of a task. -/
def map (f : ρ → ρ') (host : ClockHost σ τ ρ) : ClockHost σ τ ρ' where
  clock := host.clock
  setClock := host.setClock
  fire task := f <$> host.fire task

section Map

variable (f : ρ → ρ') (host : ClockHost σ τ ρ)

@[simp]
theorem clock_map : (host.map f).clock = host.clock :=
  rfl

@[simp]
theorem setClock_map : (host.map f).setClock = host.setClock :=
  rfl

@[simp]
theorem fire_map (task : τ) : (host.map f).fire task = f <$> host.fire task :=
  rfl

/-- Timers fire as before, and of each answer the other thing is made. -/
theorem drain_map (target fuel : Nat) : (host.map f).drain target fuel = List.map f <$> host.drain target fuel := by
  induction fuel with
  | zero => rfl
  | succ fuel ih =>
    simp only [drain, map_bind, clock_map]
    refine bind_congr fun s => ?_
    cases (host.clock s).popDue? target with
    | none => simp
    | some due => simp [ih]

/-- Time moves forward as before, and of each answer the other thing is made. -/
theorem advance_map (fuel milliseconds : Nat) :
    (host.map f).advance fuel milliseconds = List.map f <$> host.advance fuel milliseconds := by
  simp [advance, drain_map]

/-- Time moves until no timer is left as before, and of each answer the other thing is made. -/
theorem settle_map (fuel fired : Nat) :
    (host.map f).settle fuel fired = List.map f <$> host.settle fuel fired := by
  induction fuel generalizing fired with
  | zero => rfl
  | succ fuel ih =>
    simp only [settle, map_bind, clock_map]
    refine bind_congr fun s => ?_
    cases (host.clock s).untilNext? with
    | none => simp
    | some delay =>
      dsimp only
      split
      · simp
      · simp [advance_map, ih]

end Map

/-- The answer of each task is what it saw of the time. -/
structure Watches (host : ClockHost σ τ Period) : Prop where
  clock_setClock : ∀ c s, host.clock (host.setClock c s) = c
  fire : ∀ {task s period s'}, host.fire task s = some (period, s') →
    period.start = (host.clock s).now ∧ period.finish = (host.clock s').now ∧ period.Ordered

namespace Watches

variable {host : ClockHost σ τ Period} {s s' : σ} {periods : List Period} {fuel : Nat}

/-- Time does not go back while timers fire. -/
theorem chain_drains {target : Nat} (h : host.Watches) (hrun : host.Drains target s periods s') :
    Period.Chain (host.clock s).now periods (host.clock s').now := by
  induction hrun with
  | none _ => exact Nat.le_refl _
  | fire hdue hfire _ ih =>
    obtain ⟨hstart, hfinish, hordered⟩ := h.fire hfire
    refine ⟨?_, hordered, ?_⟩
    · rw [hstart, h.clock_setClock]
      exact Clock.now_le_of_popDue? hdue
    · rw [hfinish]
      exact ih

/-- Time does not go back in the callbacks of an advance, which takes as long as was asked wherever they came. -/
theorem chain_advance {milliseconds : Nat} (h : host.Watches)
    (hrun : host.advance fuel milliseconds s = some (periods, s')) :
    (host.clock s').now = (host.clock s).now + milliseconds ∧
      ∃ reached, Period.Chain (host.clock s).now periods reached := by
  obtain ⟨mid, hdrains, rfl⟩ := drains_of_advance hrun
  refine ⟨?_, _, h.chain_drains hdrains⟩
  rw [h.clock_setClock]
  rfl

end Watches

end ClockHost

/-! ### Scripts that are watched -/

namespace ClockScript

/-- What is seen of the time before something, meanwhile and afterwards. -/
def seen (kind : Nat → List Period → Nat → Period) (m : Run (List Period)) : Run Period := do
  let start := (← get).clock.now
  let periods ← m
  pure (kind start periods (← get).clock.now)

/-- Moves time until no timer is left; gives what was seen in each advance on the way. -/
def watchSettle (host : ClockHost State Task Period) : (fuel fired : Nat) → Run (List Period)
  | 0, _ => fun _ => none
  | fuel + 1, fired => do
    match (host.clock (← get)).untilNext? with
    | none => pure []
    | some delay =>
      if ClockHost.idleLimit ≤ fired then pure []
      else
        let first ← seen .advance (host.advance fuel delay)
        let more ← watchSettle host fuel (fired + first.parts.length)
        pure (first :: more)

/-- Does a step; gives what was seen of the time. -/
def watchPerform (host : ClockHost State Task Period) (fuel : Nat) : Step → Run Period
  | .advance milliseconds => seen .advance (host.advance fuel milliseconds)
  | .idle => seen .course (watchSettle host fuel 0)
  | step => seen .course do
    let _ ← perform (host.map fun _ => ()) fuel step
    pure []

/-- Does steps; gives what was seen of the time in each. -/
def watchAll (host : ClockHost State Task Period) (fuel : Nat) : List Step → Run (List Period)
  | [] => pure []
  | step :: rest => do
    let first ← watchPerform host fuel step
    let more ← watchAll host fuel rest
    pure (first :: more)

/-- The host whose callbacks nest at most `fuel` deep, and give what they saw of the time. -/
def watchHost (fuel : Nat) : ClockHost State Task Period where
  clock := State.clock
  setClock clock s := { s with clock }
  fire := fire fuel
where
  /-- Runs a task. -/
  fire : Nat → Task → Run Period
    | 0, _ => fun _ => none
    | fuel + 1, task =>
      let inner : ClockHost State Task Period :=
        { clock := State.clock, setClock := fun clock s => { s with clock }, fire := fire fuel }
      seen .course do
        modify task.enter
        watchAll inner fuel task.steps

/-! ### Watching changes nothing -/

/-- What was seen meanwhile is what comes of it. -/
theorem seen_eq_some {kind : Nat → List Period → Nat → Period} {m : Run (List Period)} {s s' : State}
    {period : Period} :
    seen kind m s = some (period, s') ↔
      ∃ periods, m s = some (periods, s') ∧ period = kind s.clock.now periods s'.clock.now := by
  rw [seen, get_bind]
  constructor
  · intro hrun
    obtain ⟨periods, mid, hperiods, hend⟩ := bind_eq_some.mp hrun
    cases hend
    exact ⟨periods, hperiods, rfl⟩
  · intro h
    obtain ⟨periods, hperiods, rfl⟩ := h
    exact bind_eq_some.mpr ⟨periods, s', hperiods, rfl⟩

/-- Looking at the time before and afterwards changes nothing. -/
theorem map_seen {α : Type} {kind : Nat → List Period → Nat → Period} {f : Period → α}
    {g : List Period → α} (h : ∀ start periods finish, f (kind start periods finish) = g periods)
    (m : Run (List Period)) : f <$> seen kind m = g <$> m := by
  simp only [seen, map_bind, map_pure, h]
  rfl

/-- Each advance apart, time moves until no timer is left just as otherwise. -/
theorem map_watchSettle (host : ClockHost State Task Period) (fuel fired : Nat) :
    List.flatMap Period.parts <$> watchSettle host fuel fired = host.settle fuel fired := by
  induction fuel generalizing fired with
  | zero => rfl
  | succ fuel ih =>
    simp only [watchSettle, ClockHost.settle, map_bind]
    refine bind_congr fun s => ?_
    cases (host.clock s).untilNext? with
    | none => simp
    | some delay =>
      dsimp only
      split
      · simp
      · have hfirst (m : List Period → Run (List Period)) :
            (seen .advance (host.advance fuel delay) >>= fun first => m first.parts) =
              host.advance fuel delay >>= m := by
          rw [← bind_map_left Period.parts, map_seen (g := id) fun _ _ _ => rfl, id_map]
        have hmore (first : Period) :
            (watchSettle host fuel (fired + first.parts.length) >>= fun more =>
                List.flatMap Period.parts <$> pure (first :: more)) =
              host.settle fuel (fired + first.parts.length) >>= fun more => pure (first.parts ++ more) := by
          rw [← ih]
          simp
        simp only [map_bind, hmore]
        exact hfirst fun periods =>
          host.settle fuel (fired + periods.length) >>= fun more => pure (periods ++ more)

/-- A step does the same whether it is watched or not. -/
theorem map_watchPerform (host : ClockHost State Task Period) (fuel : Nat) (step : Step) :
    (fun _ => ()) <$> watchPerform host fuel step =
      (fun _ => ()) <$> perform (host.map fun _ => ()) fuel step := by
  have hseen (kind : Nat → List Period → Nat → Period) (m : Run (List Period)) :
      (fun _ => ()) <$> seen kind m = (fun _ => ()) <$> m :=
    map_seen (g := fun _ => ()) (fun _ _ _ => rfl) m
  cases step with
  | advance milliseconds => simp [watchPerform, perform, hseen, ClockHost.advance_map]
  | idle => simp [watchPerform, perform, hseen, ClockHost.settle_map, ← map_watchSettle]
  | timeout | request | loop | clear | look => simp [watchPerform, hseen]

/-- Steps do the same whether they are watched or not. -/
theorem map_watchAll (host : ClockHost State Task Period) (fuel : Nat) (steps : List Step) :
    (fun _ => ()) <$> watchAll host fuel steps = performAll (host.map fun _ => ()) fuel steps := by
  induction steps with
  | nil => rfl
  | cons step rest ih =>
    have hfirst (m : Run Unit) :
        (watchPerform host fuel step >>= fun _ => m) =
          perform (host.map fun _ => ()) fuel step >>= fun _ => m := by
      rw [← bind_map_left (fun _ => ()) _ fun _ => m, map_watchPerform, bind_map_left]
    simp only [watchAll, performAll, map_bind, map_pure, ← ih]
    rw [← hfirst]
    simp

/-- The host of a script is the one that watches, if what the callbacks saw is forgotten. -/
theorem map_watchHost (fuel : Nat) : (watchHost fuel).map (fun _ => ()) = host fuel := by
  have hfire (task : Task) : ((watchHost fuel).map fun _ => ()).fire task = (host fuel).fire task := by
    induction fuel generalizing task with
    | zero => rfl
    | succ fuel ih =>
      have hinner : (watchHost fuel).map (fun _ => ()) = host fuel :=
        congrArg (ClockHost.mk State.clock fun clock s => { s with clock }) (funext ih)
      rw [fire_eq, ← hinner, ← map_watchAll]
      exact (map_seen (g := fun _ => ()) (fun _ _ _ => rfl) _).trans (map_bind _ _ _)
  exact congrArg (ClockHost.mk State.clock fun clock s => { s with clock }) (funext hfire)

/-! ### Time along a script -/

section Watching

variable {host : ClockHost State Task Period} {fuel : Nat} {s s' : State} {periods : List Period}
  (h : host.Watches) (hclock : host.clock = State.clock)

include h hclock

/-- Time moved forward is an ordered period. -/
theorem ordered_advance {milliseconds : Nat} {period : Period}
    (hrun : seen .advance (host.advance fuel milliseconds) s = some (period, s')) :
    period.start = s.clock.now ∧ period.finish = s'.clock.now ∧ period.Ordered := by
  obtain ⟨periods, hperiods, rfl⟩ := seen_eq_some.mp hrun
  have hadvance := h.chain_advance hperiods
  rw [hclock] at hadvance
  obtain ⟨hnow, hreached⟩ := hadvance
  exact ⟨rfl, rfl, hnow ▸ Nat.le_add_right _ _, hreached⟩

/-- Time does not go back from one advance to the next until no timer is left. -/
theorem chain_watchSettle {fired : Nat} (hrun : watchSettle host fuel fired s = some (periods, s')) :
    Period.Chain s.clock.now periods s'.clock.now := by
  induction fuel generalizing s periods fired with
  | zero => cases hrun
  | succ fuel ih =>
    rw [watchSettle, get_bind] at hrun
    cases hdelay : (host.clock s).untilNext? with
    | none =>
      rw [hdelay] at hrun
      cases hrun
      exact Nat.le_refl _
    | some delay =>
      rw [hdelay] at hrun
      dsimp only at hrun
      split at hrun
      · cases hrun
        exact Nat.le_refl _
      · obtain ⟨first, mid, hfirst, hrest⟩ := bind_eq_some.mp hrun
        obtain ⟨more, last, hmore, hend⟩ := bind_eq_some.mp hrest
        cases hend
        obtain ⟨hstart, hfinish, hordered⟩ := ordered_advance h hclock hfirst
        exact ⟨Nat.le_of_eq hstart.symm, hordered, hfinish ▸ ih hmore⟩

/-- What is seen in a step is an ordered period. -/
theorem ordered_watchPerform {step : Step} {period : Period}
    (hrun : watchPerform host fuel step s = some (period, s')) :
    period.start = s.clock.now ∧ period.finish = s'.clock.now ∧ period.Ordered := by
  have hstill (hstill : ∀ reply mid, perform (host.map fun _ => ()) fuel step s = some (reply, mid) →
        mid.clock.now = s.clock.now)
      (hrun : seen .course (perform (host.map fun _ => ()) fuel step >>= fun _ => pure []) s = some (period, s')) :
      period.start = s.clock.now ∧ period.finish = s'.clock.now ∧ period.Ordered := by
    obtain ⟨periods, hperiods, rfl⟩ := seen_eq_some.mp hrun
    obtain ⟨reply, mid, hperform, hend⟩ := bind_eq_some.mp hperiods
    cases hend
    exact ⟨rfl, rfl, Nat.le_of_eq (hstill reply _ hperform).symm⟩
  cases step with
  | advance milliseconds => exact ordered_advance h hclock hrun
  | idle =>
    obtain ⟨periods, hperiods, rfl⟩ := seen_eq_some.mp hrun
    exact ⟨rfl, rfl, chain_watchSettle h hclock hperiods⟩
  | request n label andThen =>
    refine hstill (fun reply mid hperform => ?_) hrun
    obtain ⟨taken, mid, hrequest, hend⟩ := bind_eq_some.mp hperform
    cases hend
    exact (registers_request hrequest).now_eq
  | timeout | loop | clear | look =>
    refine hstill (fun reply mid hperform => ?_) hrun
    cases hperform
    rfl

/-- Time does not go back from one step to the next. -/
theorem chain_watchAll {steps : List Step} (hrun : watchAll host fuel steps s = some (periods, s')) :
    Period.Chain s.clock.now periods s'.clock.now := by
  induction steps generalizing s periods with
  | nil =>
    cases hrun
    exact Nat.le_refl _
  | cons step rest ih =>
    obtain ⟨first, mid, hfirst, hrest⟩ := bind_eq_some.mp hrun
    obtain ⟨more, last, hmore, hend⟩ := bind_eq_some.mp hrest
    cases hend
    obtain ⟨hstart, hfinish, hordered⟩ := ordered_watchPerform h hclock hfirst
    exact ⟨Nat.le_of_eq hstart.symm, hordered, hfinish ▸ ih hmore⟩

end Watching

/-- However deep callbacks nest, each answers with what it saw of the time. -/
theorem watches_watchHost (fuel : Nat) : (watchHost fuel).Watches where
  clock_setClock _ _ := rfl
  fire {task s period s'} hfire := by
    induction fuel generalizing task s period s' with
    | zero => cases hfire
    | succ fuel ih =>
      have hinner : (watchHost fuel).Watches := ⟨fun _ _ => rfl, ih⟩
      obtain ⟨periods, hperiods, rfl⟩ := seen_eq_some.mp hfire
      have hchain : Period.Chain (task.enter s).clock.now periods s'.clock.now :=
        chain_watchAll hinner rfl hperiods
      exact ⟨rfl, rfl, hchain⟩

/-- Along a script time does not go back at any one depth of nesting: from one step to the next, from one
callback of an advance to the next, and from before an advance to after it. All the times that are seen, at
whatever depth, go back nowhere exactly if no callback came further than the advance that ran it. -/
theorem times_sorted_iff_contained {fuel : Nat} {steps : List Step} {s s' : State}
    (hrun : performAll (host fuel) fuel steps s = some ((), s')) :
    ∃ periods, watchAll (watchHost fuel) fuel steps s = some (periods, s') ∧
      Period.Chain s.clock.now periods s'.clock.now ∧
      ((Period.allTimes periods).Pairwise (· ≤ ·) ↔ Period.AllContained periods) := by
  rw [← map_watchHost, ← map_watchAll, map_eq_pure_bind] at hrun
  obtain ⟨periods, mid, hperiods, hend⟩ := bind_eq_some.mp hrun
  cases hend
  have hchain : Period.Chain s.clock.now periods s'.clock.now :=
    chain_watchAll (watches_watchHost fuel) rfl hperiods
  exact ⟨periods, hperiods, hchain, hchain.sorted_iff⟩

/-- A callback that moves time by three milliseconds of the five that are left to the advance around it. -/
theorem times_sorted_iff_contained_within :
    ∃ periods s', performAll (host 9) 9 [.timeout 5 "tick" [.advance 3], .advance 10] (.start []) = some ((), s') ∧
      s'.clock.now = 10 ∧ Period.allTimes periods = [0, 0, 0, 5, 5, 8, 8, 10] ∧
      (Period.allTimes periods).Pairwise (· ≤ ·) ∧ Period.AllContained periods := by
  have hrun : performAll (host 9) 9 [.timeout 5 "tick" [.advance 3], .advance 10] (.start []) = some ((), _) := rfl
  obtain ⟨periods, hperiods, _, hsorted⟩ := times_sorted_iff_contained hrun
  cases hperiods
  have hcontained : Period.AllContained
      [.course 0 [] 0, .advance 0 [.course 5 [.advance 5 [] 8] 8] 10] := by
    simp [Period.AllContained, Period.Contained, Period.finish]
  exact ⟨_, _, hrun, rfl, rfl, hsorted.mpr hcontained, hcontained⟩

/-- A callback that moves time by a hundred milliseconds in an advance by ten: what is seen in it is later than
what is seen after the advance. -/
theorem time_goes_back :
    ∃ s', performAll (host 9) 9 [.timeout 5 "early" [.advance 100, .timeout 0 "late" [], .advance 0], .advance 10]
        (.start []) = some ((), s') ∧ s'.log = [("early", 5), ("late", 105)] ∧ s'.clock.now = 10 :=
  ⟨_, rfl, rfl, rfl⟩

end ClockScript

end ReactiveTemplate
