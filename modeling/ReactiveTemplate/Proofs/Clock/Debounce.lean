import ReactiveTemplate.Proofs.Clock.Accounts
import ReactiveTemplate.Proofs.Clock.Chronicles

/-!
# Requests are answered once

A scheduler is pending exactly while a timer armed by it waits, and there is never more than one. So a
request that is taken has its callback run once, on time, and a request that is absorbed leaves no trace.
This is said of the chronicle of a script, at every moment that it tells of, those inside callbacks included.
-/

namespace ReactiveTemplate.ClockScript

/-! ### Pending schedulers -/

/-- The timers among some that a scheduler has armed. -/
def armedBy (n : Nat) (timers : List (Timer Task)) : List (Timer Task) :=
  timers.filter (·.task.scheduler? = some n)

/-- Each scheduler is pending exactly while it has one timer that waits, and it never has more. -/
def State.Counted (s : State) : Prop :=
  ∀ n scheduler, s.schedulers[n]? = some scheduler →
    (armedBy n s.clock.timers).length = if scheduler.pending then 1 else 0

/-- One timer more among those of a scheduler. -/
theorem perm_armedBy_place (n : Nat) (timer : Timer Task) (timers : List (Timer Task)) :
    (armedBy n (Clock.place timer timers)).Perm (armedBy n (timer :: timers)) :=
  (Clock.perm_place timer timers).filter _

/-- A timer that no scheduler has armed, or another one. -/
theorem armedBy_cons_of_ne {n : Nat} {timer : Timer Task} (h : timer.task.scheduler? ≠ some n)
    (timers : List (Timer Task)) : armedBy n (timer :: timers) = armedBy n timers :=
  List.filter_cons_of_neg (by simpa using h)

/-- A timer that a scheduler has armed. -/
theorem armedBy_cons_of_eq {n : Nat} {timer : Timer Task} (h : timer.task.scheduler? = some n)
    (timers : List (Timer Task)) : armedBy n (timer :: timers) = timer :: armedBy n timers :=
  List.filter_cons_of_pos (by simpa using h)

/-- Registering a task of another kind leaves the number of a scheduler's timers alone. -/
theorem length_armedBy_after {n : Nat} {task : Task} (h : task.scheduler? ≠ some n) (clock : Clock Task)
    (delay : Nat) : (armedBy n (clock.after delay task).timers).length = (armedBy n clock.timers).length := by
  have hperm := perm_armedBy_place n ⟨clock.now + delay, clock.registered, task⟩ clock.timers
  rw [armedBy_cons_of_ne h] at hperm
  exact hperm.length_eq

/-- The first timer of a scheduler waits alone. -/
theorem armedBy_after {n : Nat} {clock : Clock Task} (hnone : armedBy n clock.timers = []) (delay : Nat)
    (label : String) (steps : List Step) :
    armedBy n (clock.after delay (.requested n label steps)).timers =
      [⟨clock.now + delay, clock.registered, .requested n label steps⟩] := by
  have hperm := perm_armedBy_place n ⟨clock.now + delay, clock.registered, .requested n label steps⟩ clock.timers
  rw [armedBy_cons_of_eq rfl, hnone] at hperm
  exact List.perm_singleton.mp hperm

/-- Each scheduler is pending exactly while it has one timer that waits or is among some others, and it never has
more. -/
def State.Tallied (s : State) (others : List (Timer Task)) : Prop :=
  ∀ n scheduler, s.schedulers[n]? = some scheduler →
    (armedBy n s.clock.timers).length + (armedBy n others).length = if scheduler.pending then 1 else 0

namespace State.Tallied

variable {s s' : State} {others : List (Timer Task)}

/-- No timer of a scheduler waits while it is not pending, and none is among the others. -/
theorem armedBy_eq_nil (h : s.Tallied others) {n : Nat} {scheduler : Scheduler}
    (hn : s.schedulers[n]? = some scheduler) (hpending : scheduler.pending = false) :
    armedBy n s.clock.timers = [] ∧ armedBy n others = [] := by
  have hnone := h n scheduler hn
  rw [hpending, if_neg (by simp)] at hnone
  exact ⟨List.length_eq_zero_iff.mp (by omega), List.length_eq_zero_iff.mp (by omega)⟩

/-- A request keeps the tally. -/
theorem request (h : s.Tallied others) {n : Nat} {asked : Scheduler} {label : String} {steps : List Step}
    {taken : Bool} (hn : s.schedulers[n]? = some asked)
    (hrun : ClockScript.request n label steps s = some (taken, s')) : s'.Tallied others := by
  rw [request_eq hn] at hrun
  cases hpending : asked.pending with
  | true =>
    simp only [hpending, if_true, Option.some.injEq, Prod.mk.injEq] at hrun
    obtain ⟨_, rfl⟩ := hrun
    exact h
  | false =>
    simp only [hpending, Bool.false_eq_true, if_false, Option.some.injEq, Prod.mk.injEq] at hrun
    obtain ⟨_, rfl⟩ := hrun
    intro m scheduler hm
    by_cases hsame : n = m
    · subst hsame
      obtain ⟨hwaiting, hothers⟩ := h.armedBy_eq_nil hn hpending
      rw [List.getElem?_set_self (List.getElem?_eq_some_iff.mp hn).1, Option.some.injEq] at hm
      subst hm
      rw [armedBy_after hwaiting, hothers]
      rfl
    · rw [List.getElem?_set_ne hsame] at hm
      have hkept : (armedBy m (s.clock.after asked.interval (.requested n label steps)).timers).length =
          (armedBy m s.clock.timers).length :=
        length_armedBy_after (by simpa [Task.scheduler?] using hsame) s.clock asked.interval
      rw [hkept]
      exact h m scheduler hm

/-- The first timer fires, and its scheduler is no longer pending. -/
theorem enter (h : s.Tallied others) {timer : Timer Task} {rest : List (Timer Task)}
    (htimers : s.clock.timers = timer :: rest) (now : Nat) :
    (timer.task.enter { s with clock := { s.clock with now, timers := rest } }).Tallied others := by
  intro n scheduler hn
  change (armedBy n rest).length + _ = _
  cases hscheduler : timer.task.scheduler? with
  | none =>
    have hbefore := h n scheduler (by simpa [Task.enter, hscheduler] using hn)
    rwa [htimers, armedBy_cons_of_ne (by simp [hscheduler])] at hbefore
  | some m =>
    have hmodified : (s.schedulers.modify m Scheduler.fired)[n]? = some scheduler := by
      simpa [Task.enter, hscheduler] using hn
    rw [List.getElem?_modify] at hmodified
    obtain ⟨before, hbefore, hfired⟩ := Option.map_eq_some_iff.mp hmodified
    have hcount := h n before hbefore
    by_cases hsame : m = n
    · rw [if_pos hsame] at hfired
      rw [htimers, armedBy_cons_of_eq (hscheduler.trans (by rw [hsame])), List.length_cons] at hcount
      rw [← hfired]
      change _ = 0
      split at hcount <;> omega
    · rw [if_neg hsame] at hfired
      rwa [htimers, armedBy_cons_of_ne (by simpa [hscheduler] using hsame), hfired] at hcount

/-- The timers that wait are cleared away, and are among the others from then on. -/
theorem clear (h : s.Tallied others) :
    State.Tallied { s with clock := s.clock.clear } (others ++ s.clock.timers) := by
  intro n scheduler hn
  rw [← h n scheduler hn, armedBy, armedBy, armedBy, armedBy, List.filter_append, List.length_append]
  change 0 + _ = _
  omega

/-- An occurrence more keeps the tally, if what it takes away is counted. -/
theorem happens {o : Occurrence} (h : s.Tallied others) (ho : Happens s o s') : s'.Tallied (others ++ o.lost) := by
  have hkeeps (hs' : s'.Tallied others) (hnone : o.lost = []) : s'.Tallied (others ++ o.lost) := by
    rwa [hnone, List.append_nil]
  cases ho with
  | @register delay task htask =>
    refine hkeeps (fun n scheduler hn => ?_) rfl
    have hsame : (armedBy n (s.clock.after delay task).timers).length = (armedBy n s.clock.timers).length :=
      length_armedBy_after (by simp [htask]) s.clock delay
    rw [hsame]
    exact h n scheduler hn
  | request hn hrequest => exact hkeeps (h.request hn hrequest) rfl
  | fire htimers hdue =>
    obtain ⟨_, _, rfl⟩ := Clock.popDue?_eq_some htimers hdue
    exact hkeeps (h.enter htimers _) rfl
  | pass _ => exact hkeeps h rfl
  | clear => exact h.clear

/-- No timer waits at the start, and nothing is pending. -/
theorem start (intervals : List Nat) : (State.start intervals).Tallied [] := by
  intro n scheduler hn
  rw [State.start, List.getElem?_map] at hn
  obtain ⟨interval, _, rfl⟩ := Option.map_eq_some_iff.mp hn
  rfl

end State.Tallied

/-- Schedulers are counted if they are tallied with the timers that wait alone. -/
theorem State.counted_iff {s : State} : s.Counted ↔ s.Tallied [] :=
  Iff.rfl

/-- The tally is kept along a path if what is taken away is counted. -/
theorem Path.tallied {may : State → Occurrence → Prop} {s s' : State} {history : List Occurrence}
    {others : List (Timer Task)} (h : Path may s history s') (hs : s.Tallied others) :
    s'.Tallied (others ++ history.flatMap Occurrence.lost) := by
  induction h generalizing others with
  | nil => simpa using hs
  | cons _ ho _ ih =>
    rw [List.flatMap_cons, ← List.append_assoc]
    exact ih (hs.happens ho)

/-- Nothing is taken away on an orderly path. -/
theorem Path.lost_eq_nil {s s' : State} {history : List Occurrence} (h : Path Occurrence.Orderly s history s') :
    history.flatMap Occurrence.lost = [] := by
  induction h with
  | nil => rfl
  | cons horderly ho _ ih =>
    rw [List.flatMap_cons, ih, List.append_nil]
    cases ho with
    | clear => exact horderly.elim
    | _ => rfl

/-- Along an orderly path from the start all schedulers are counted. -/
theorem Path.counted {intervals : List Nat} {history : List Occurrence} {s : State}
    (h : Path Occurrence.Orderly (.start intervals) history s) : s.Counted := by
  have htallied := h.tallied (.start intervals)
  rw [h.lost_eq_nil] at htallied
  exact State.counted_iff.mpr htallied

/-! ### Schedulers along a path -/

/-- A scheduler keeps its delay, and it becomes pending only by a request. -/
theorem Happens.scheduler {s s' : State} {o : Occurrence} (h : Happens s o s') {n : Nat}
    {after : Scheduler} (hn : s'.schedulers[n]? = some after) :
    ∃ before, s.schedulers[n]? = some before ∧ after.interval = before.interval ∧
      (before.pending = false → after.pending = false ∨ ∃ r taken, o = .requested r taken ∧ r.scheduler = n) := by
  cases h with
  | register _ => exact ⟨after, hn, rfl, Or.inl⟩
  | @request _ m asked label steps taken hm hrequest =>
    by_cases hsame : m = n
    · subst hsame
      refine ⟨asked, hm, ?_, fun _ => Or.inr ⟨_, _, rfl, rfl⟩⟩
      rw [request_eq hm] at hrequest
      cases hrequest
      split at hn
      · rw [hm] at hn
        cases hn
        rfl
      · rw [List.getElem?_set_self (List.getElem?_eq_some_iff.mp hm).1] at hn
        cases hn
        rfl
    · refine ⟨after, ?_, rfl, Or.inl⟩
      rw [request_eq hm] at hrequest
      cases hrequest
      split at hn
      · exact hn
      · rwa [List.getElem?_set_ne hsame] at hn
  | @fire timer rest target clock htimers hdue =>
    cases hscheduler : timer.task.scheduler? with
    | none => exact ⟨after, by simpa [Task.enter, hscheduler] using hn, rfl, Or.inl⟩
    | some m =>
      have hmodified : (s.schedulers.modify m Scheduler.fired)[n]? = some after := by
        simpa [Task.enter, hscheduler] using hn
      rw [List.getElem?_modify] at hmodified
      obtain ⟨before, hbefore, hfired⟩ := Option.map_eq_some_iff.mp hmodified
      refine ⟨before, hbefore, ?_⟩
      rw [← hfired]
      split
      · exact ⟨rfl, fun _ => Or.inl rfl⟩
      · exact ⟨rfl, Or.inl⟩
  | pass _ | clear => exact ⟨after, hn, rfl, Or.inl⟩

namespace Path

variable {may : State → Occurrence → Prop} {s s' : State} {history : List Occurrence} {n : Nat}

/-- A scheduler keeps its delay. -/
theorem interval_eq {after : Scheduler} (h : Path may s history s') (hn : s'.schedulers[n]? = some after) :
    ∃ before, s.schedulers[n]? = some before ∧ after.interval = before.interval := by
  induction h with
  | nil => exact ⟨after, hn, rfl⟩
  | cons _ ho _ ih =>
    obtain ⟨mid, hmid, hafter⟩ := ih hn
    obtain ⟨before, hbefore, heq, _⟩ := ho.scheduler hmid
    exact ⟨before, hbefore, hafter.trans heq⟩

/-- A scheduler that is not pending stays so until a request of it. -/
theorem pending_eq_false (h : Path may s history s')
    (hrequests : ∀ r taken, .requested r taken ∈ history → r.scheduler ≠ n)
    (hpending : ∀ scheduler, s.schedulers[n]? = some scheduler → scheduler.pending = false) :
    ∀ scheduler, s'.schedulers[n]? = some scheduler → scheduler.pending = false := by
  induction h with
  | nil => exact hpending
  | cons _ ho _ ih =>
    refine ih (fun r taken hmem => hrequests r taken (List.mem_cons_of_mem _ hmem)) fun after hafter => ?_
    obtain ⟨before, hbefore, _, hkept⟩ := ho.scheduler hafter
    rcases hkept (hpending before hbefore) with hfalse | ⟨r, taken, rfl, hscheduler⟩
    · exact hfalse
    · exact absurd hscheduler (hrequests r taken List.mem_cons_self)

end Path

/-! ### What an occurrence says about the state before it -/

/-- A request is taken exactly when its scheduler is not pending. -/
theorem Happens.requested {s s' : State} {r : Request} {taken : Bool} (h : Happens s (.requested r taken) s') :
    ∃ scheduler, s.schedulers[r.scheduler]? = some scheduler ∧ r.interval = scheduler.interval ∧
      r.number = s.clock.registered ∧ taken = !scheduler.pending := by
  cases h with
  | request hn hrequest =>
    rw [request_eq hn] at hrequest
    cases hrequest
    exact ⟨_, hn, rfl, rfl, rfl⟩

/-- When a timer of a scheduler fires, the scheduler is no longer pending. -/
theorem Happens.fired {s s' : State} {timer : Timer Task} {time n : Nat}
    (h : Happens s (.fired timer time) s') (hn : timer.task.scheduler? = some n) :
    ∀ scheduler, s'.schedulers[n]? = some scheduler → scheduler.pending = false := by
  cases h with
  | fire _ _ =>
    intro scheduler hscheduler
    have hmodified : (s.schedulers.modify n Scheduler.fired)[n]? = some scheduler := by
      simpa [Task.enter, hn] using hscheduler
    rw [List.getElem?_modify_eq] at hmodified
    obtain ⟨before, _, rfl⟩ := Option.map_eq_some_iff.mp hmodified
    rfl

/-- Tasks that are registered without a request stand for no scheduler. -/
theorem Path.scheduler?_of_registered {may : State → Occurrence → Prop} {s s' : State} {history : List Occurrence}
    (h : Path may s history s') {timer : Timer Task} (hmem : .registered timer ∈ history) :
    timer.task.scheduler? = none := by
  obtain ⟨before, after, rfl⟩ := List.append_of_mem hmem
  obtain ⟨mid, _, hrest⟩ := Path.append_iff.mp h
  cases hrest with
  | cons _ ho _ =>
    cases ho with
    | register htask => exact htask

/-- A request that is taken places its timer. -/
theorem timer_mem_placed {history : List Occurrence} {r : Request} (h : .requested r true ∈ history) :
    r.timer ∈ placed history :=
  List.mem_filterMap.mpr ⟨_, h, rfl⟩

/-! ### Once for every request that is taken -/

/-- What a history says of requests and their callbacks, and what the state after it says of schedulers. -/
structure Debounced (intervals : List Nat) (history : List Occurrence) (s : State) : Prop where
  /-- A scheduler is pending exactly while a timer armed by it waits, and there is never another. -/
  pending : ∀ n scheduler, s.schedulers[n]? = some scheduler →
    (armedBy n s.clock.timers).length = if scheduler.pending then 1 else 0
  /-- A request is taken exactly when its scheduler is not pending; one that is not changes nothing. -/
  answer : ∀ n scheduler label steps, s.schedulers[n]? = some scheduler →
    ∃ s', request n label steps s = some (!scheduler.pending, s') ∧
      (scheduler.pending = true → s' = s) ∧
      (scheduler.pending = false → armedBy n s'.clock.timers =
        [⟨s.clock.now + scheduler.interval, s.clock.registered, .requested n label steps⟩])
  /-- All timers have numbers of their own, those of requests and those of others. -/
  distinct : ((placed history).map Timer.number).Nodup
  /-- The callback of a request that was taken runs at most once, after the delay of its scheduler. -/
  once : ∀ r, .requested r true ∈ history → intervals[r.scheduler]? = some r.interval ∧
    (firingsOf r.number history = [] ∨ firingsOf r.number history = [(r.timer, r.time + r.interval)])
  /-- It has run as soon as the clock has passed that time, or was moved up to it. -/
  due : ∀ r, .requested r true ∈ history →
    (r.time + r.interval < s.clock.now ∨
      (∃ target, history.getLast? = some (.passed target)) ∧ r.time + r.interval ≤ s.clock.now) →
    firingsOf r.number history = [(r.timer, r.time + r.interval)]
  /-- No other callback runs for a scheduler. -/
  taken : ∀ timer time n, .fired timer time ∈ history → timer.task.scheduler? = some n →
    ∃ r, .requested r true ∈ history ∧ r.timer = timer
  /-- After a callback has begun, the next request of its scheduler is taken and arms another timer. -/
  again : ∀ before timer time between r answer after,
    history = before ++ .fired timer time :: (between ++ .requested r answer :: after) →
    timer.task.scheduler? = some r.scheduler →
    (∀ r' answer', .requested r' answer' ∈ between → r'.scheduler ≠ r.scheduler) →
    answer = true ∧ r.number ≠ timer.number

namespace Path

variable {intervals : List Nat} {history : List Occurrence} {s : State}

/-- The timers along a path from the start are accounted for. -/
theorem accounted (h : Path Occurrence.Orderly (.start intervals) history s) : Accounted history s.clock := by
  have hstart : Accounted [] (State.start intervals).clock := .start
  simpa using hstart.path h

/-- A request of a path waits for the delay of its scheduler. -/
theorem interval_of_requested (h : Path Occurrence.Orderly (.start intervals) history s) {r : Request} {answer : Bool}
    (hmem : .requested r answer ∈ history) : intervals[r.scheduler]? = some r.interval := by
  obtain ⟨before, after, rfl⟩ := List.append_of_mem hmem
  obtain ⟨mid, hbefore, hrest⟩ := append_iff.mp h
  cases hrest with
  | cons _ ho _ =>
    obtain ⟨scheduler, hscheduler, hinterval, _, _⟩ := ho.requested
    obtain ⟨first, hfirst, heq⟩ := hbefore.interval_eq hscheduler
    rw [State.start, List.getElem?_map] at hfirst
    obtain ⟨interval, hn, rfl⟩ := Option.map_eq_some_iff.mp hfirst
    rw [hn, hinterval, heq]
    rfl

/-- After the clock was moved up to a time, all deadlines lie behind that time. -/
theorem lt_deadline (h : Path Occurrence.Orderly (.start intervals) history s) {target : Nat}
    (hlast : history.getLast? = some (.passed target)) :
    ∀ timer ∈ s.clock.timers, s.clock.now < timer.deadline := by
  obtain ⟨before, rfl⟩ := List.getLast?_eq_some_iff.mp hlast
  obtain ⟨mid, hbefore, hrest⟩ := append_iff.mp h
  cases hrest with
  | cons horderly ho hnil =>
    cases hnil
    cases ho with
    | pass _ =>
      intro timer htimer
      exact Clock.lt_deadline_of_popDue? horderly.1 hbefore.accounted.sorted timer htimer

/-- Requests are answered once along every path. -/
theorem debounced (h : Path Occurrence.Orderly (.start intervals) history s) : Debounced intervals history s where
  pending := h.counted
  answer := by
    intro n scheduler label steps hn
    refine ⟨_, request_eq hn label steps, fun hpending => by rw [hpending]; rfl, fun hpending => ?_⟩
    rw [hpending]
    exact armedBy_after ((State.counted_iff.mp h.counted).armedBy_eq_nil hn hpending).1 _ _ _
  distinct := h.accounted.nodup_numbers
  once := by
    intro r hmem
    refine ⟨h.interval_of_requested hmem, ?_⟩
    rcases h.accounted.waits_or_fired (timer_mem_placed hmem) with ⟨_, hnone⟩ | hfired
    · exact Or.inl hnone
    · exact Or.inr hfired
  due := by
    intro r hmem hdue
    rcases h.accounted.waits_or_fired (timer_mem_placed hmem) with ⟨hwaits, _⟩ | hfired
    · rcases hdue with hpassed | ⟨⟨target, hlast⟩, hreached⟩
      · exact absurd (h.accounted.ahead _ hwaits) (Nat.not_le_of_lt hpassed)
      · exact absurd (h.lt_deadline hlast _ hwaits) (Nat.not_lt_of_le hreached)
    · exact hfired
  taken := by
    intro timer time n hfired hn
    obtain ⟨o, hmem, hplaced⟩ := List.mem_filterMap.mp (h.accounted.placed_of_fired hfired)
    cases o with
    | registered other =>
      obtain rfl : other = timer := Option.some.inj hplaced
      rw [h.scheduler?_of_registered hmem] at hn
      cases hn
    | requested r answer =>
      cases answer with
      | true => exact ⟨r, hmem, Option.some.inj hplaced⟩
      | false => cases hplaced
    | fired | passed | cleared => cases hplaced
  again := by
    intro before timer time between r answer after hhistory hn hbetween
    subst hhistory
    obtain ⟨first, hbefore, hrest⟩ := append_iff.mp h
    cases hrest with
    | @cons _ second _ _ _ horderly hfired hrest =>
      obtain ⟨third, hsteps, hlast⟩ := append_iff.mp hrest
      cases hlast with
      | cons _ hrequested _ =>
        obtain ⟨scheduler, hscheduler, _, hnumber, hanswer⟩ := hrequested.requested
        have hpending := hsteps.pending_eq_false hbetween (hfired.fired hn) scheduler hscheduler
        have haccounted : Accounted (before ++ .fired timer time :: between) third.clock :=
          (hbefore.trans (.cons horderly hfired hsteps)).accounted
        have hmem : .fired timer time ∈ before ++ .fired timer time :: between := by simp
        have hlt := haccounted.number_lt timer (haccounted.placed_of_fired hmem)
        rw [hanswer, hpending, hnumber]
        exact ⟨rfl, Nat.ne_of_gt hlt⟩

end Path

/-- Every script with schedulers of some delays has one chronicle, which accounts for its answers, its state at the end
and its log. At every moment that the chronicle tells of, those inside callbacks included, each scheduler is pending
exactly if one timer of it waits; every request that was taken has been answered once or is still to be, and no other
has. -/
theorem requests_debounced {intervals : List Nat} {script : List Step} {replies : List Reply} {s : State}
    (h : Driven intervals script replies s) :
    ∃ history, Chronicle (.steps script) (.start intervals) replies history s ∧
      (∀ replies' history' s', Chronicle (.steps script) (.start intervals) replies' history' s' →
        replies' = replies ∧ history' = history ∧ s' = s) ∧
      s.log = history.flatMap Occurrence.noted ∧
      ∀ before after, history = before ++ after →
        ∃ moment, Path Occurrence.Orderly (.start intervals) before moment ∧
          Path Occurrence.Orderly moment after s ∧ Debounced intervals before moment := by
  obtain ⟨history, htold, hpath, _⟩ := h.exists_chronicle
  refine ⟨history, htold, fun replies' history' s' h' => htold.unique h', ?_, fun before after hsplit => ?_⟩
  · simpa [State.start] using hpath.log_eq
  · rw [hsplit] at hpath
    obtain ⟨moment, hbefore, hafter⟩ := Path.append_iff.mp hpath
    exact ⟨moment, hbefore, hafter, hbefore.debounced⟩

/-- Two schedulers, of which the first is asked twice. Its callback asks it twice again, and a plain timer asks the
second one, which has no delay. -/
def crowded : List Step :=
  [.request 0 "first" [.request 0 "again" [], .request 0 "late" []], .request 0 "absorbed" [],
    .timeout 5 "tick" [.request 1 "other" []], .advance 10]

/-- The state after these steps. -/
def calmed : State where
  clock := ⟨10, 4, [⟨20, 3, .requested 0 "again" []⟩]⟩
  schedulers := [⟨10, true⟩, ⟨0, false⟩]
  log := [("tick", 5), ("other", 5), ("first", 10)]

/-- What happens in these steps. -/
def bustle : List Occurrence :=
  [.requested ⟨0, 10, 0, 0, "first", [.request 0 "again" [], .request 0 "late" []]⟩ true,
    .requested ⟨0, 10, 1, 0, "absorbed", []⟩ false,
    .registered ⟨5, 1, .callback "tick" [.request 1 "other" []]⟩,
    .fired ⟨5, 1, .callback "tick" [.request 1 "other" []]⟩ 5,
    .requested ⟨5, 0, 2, 1, "other", []⟩ true,
    .fired ⟨5, 2, .requested 1 "other" []⟩ 5,
    .fired ⟨10, 0, .requested 0 "first" [.request 0 "again" [], .request 0 "late" []]⟩ 10,
    .requested ⟨10, 10, 3, 0, "again", []⟩ true,
    .requested ⟨10, 10, 4, 0, "late", []⟩ false,
    .passed 10]

/-- The chronicle of these steps. -/
theorem chronicle_crowded :
    Chronicle (.steps crowded) (.start [10, 0]) [.armed true, .armed false, .nothing, .fired 3] bustle calmed := by
  -- The answers, the history and the state are found on the way, and compared at the end.
  have htold : ∃ answers history s, Chronicle (.steps crowded) (.start [10, 0]) answers history s ∧
      answers = [.armed true, .armed false, .nothing, .fired 3] ∧ history = bustle ∧ s = calmed :=
    ⟨_, _, _, .cons (.request rfl rfl) (.cons (.request rfl rfl) (.cons .timeout (.cons
      (.advance (.due rfl rfl (.cons (.request rfl rfl) .nil) (.due rfl rfl .nil
        (.due rfl rfl (.cons (.request rfl rfl) (.cons (.request rfl rfl) .nil)) (.drained rfl))))) .nil))),
      rfl, rfl, rfl⟩
  obtain ⟨_, _, _, htold, rfl, rfl, rfl⟩ := htold
  exact htold

/-- The callback of the first request runs once, after ten milliseconds, and the first of the requests that it makes
is taken; the timer of that one waits. The callback of the request that was absorbed never runs. -/
theorem requests_debounced_crowded :
    Driven [10, 0] crowded [.armed true, .armed false, .nothing, .fired 3] calmed ∧
      Chronicle (.steps crowded) (.start [10, 0]) [.armed true, .armed false, .nothing, .fired 3] bustle calmed ∧
      calmed.log = bustle.flatMap Occurrence.noted ∧ Debounced [10, 0] bustle calmed ∧
      firingsOf 0 bustle = [(⟨10, 0, .requested 0 "first" [.request 0 "again" [], .request 0 "late" []]⟩, 10)] ∧
      firingsOf 3 bustle = [] ∧ armedBy 0 calmed.clock.timers = [⟨20, 3, .requested 0 "again" []⟩] := by
  have hdriven : Driven [10, 0] crowded [.armed true, .armed false, .nothing, .fired 3] calmed := by
    have hproper : ∀ step ∈ crowded, step.Proper := by simp [crowded, Step.Proper, Step.Plain, PlainAll]
    have hrun : crowded.mapM (run 9) (.start [10, 0]) =
        some ([.armed true, .armed false, .nothing, .fired 3], calmed) := rfl
    exact Driven.start.mapM hproper hrun
  obtain ⟨history, htold, hunique, hlog, hall⟩ := requests_debounced hdriven
  obtain ⟨_, rfl, _⟩ := hunique _ _ _ chronicle_crowded
  obtain ⟨moment, _, hend, hdebounced⟩ := hall bustle [] (List.append_nil _).symm
  cases hend
  exact ⟨hdriven, htold, hlog, hdebounced, rfl, rfl, rfl⟩

end ReactiveTemplate.ClockScript
