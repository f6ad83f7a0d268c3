import ReactiveTemplate.Proofs.Clock.Debounce

/-!
# Schedulers whose timers are cleared away

Clearing a clock takes away the timers that wait, and tells no scheduler. A scheduler that was pending then stays
pending, though nothing is left that would end this: all its requests are absorbed from then on. As long as no timer
of it was cleared away, a scheduler is pending exactly while one of its timers waits. All this holds for every run
of a script, whatever its callbacks do.
-/

namespace ReactiveTemplate.ClockScript

variable {s s' : State} {history : List Occurrence} {lost : List (Timer Task)} {n : Nat}

/-! ### Schedulers along a run -/

/-- No scheduler comes or goes with an occurrence. -/
theorem Happens.length_schedulers {o : Occurrence} (h : Happens s o s') :
    s'.schedulers.length = s.schedulers.length := by
  cases h with
  | register _ => rfl
  | request hn hrequest =>
    rw [request_eq hn] at hrequest
    cases hrequest
    split
    · rfl
    · exact List.length_set
  | fire _ _ =>
    rw [Task.enter]
    dsimp only
    split
    · exact List.length_modify _ _ _
    · rfl
  | pass _ | clear => rfl

/-- No scheduler comes or goes along a path. -/
theorem Path.length_schedulers {may : State → Occurrence → Prop} (h : Path may s history s') :
    s'.schedulers.length = s.schedulers.length := by
  induction h with
  | nil => rfl
  | cons _ ho _ ih => exact ih.trans ho.length_schedulers

/-- A scheduler is pending though no timer of it waits. -/
def State.Stuck (s : State) (n : Nat) : Prop :=
  ∃ scheduler, s.schedulers[n]? = some scheduler ∧ scheduler.pending = true ∧ armedBy n s.clock.timers = []

/-- A scheduler is stuck exactly if the timer of it that is counted does not wait. -/
theorem State.Tallied.stuck_iff {others : List (Timer Task)} (h : s.Tallied others) (hn : n < s.schedulers.length) :
    s.Stuck n ↔ armedBy n others ≠ [] := by
  have hscheduler := List.getElem?_eq_getElem hn
  have htally := h n _ hscheduler
  constructor
  · rintro ⟨scheduler, hsame, hpending, hnone⟩ hothers
    rw [hscheduler] at hsame
    cases hsame
    rw [hnone, hothers, hpending] at htally
    cases htally
  · intro hothers
    have hpos := List.length_pos_iff.mpr hothers
    refine ⟨_, hscheduler, ?_⟩
    split at htally
    · next hpending => exact ⟨hpending, List.length_eq_zero_iff.mp (by omega)⟩
    · omega

/-- A stuck scheduler absorbs every request. -/
theorem State.Stuck.request (h : s.Stuck n) (label : String) (steps : List Step) :
    ClockScript.request n label steps s = some (false, s) := by
  obtain ⟨scheduler, hn, hpending, _⟩ := h
  rw [request_eq hn, hpending]
  rfl

/-- How a scheduler stands when some timers were cleared away. -/
structure Standing (s : State) (lost : List (Timer Task)) (n : Nat) (scheduler : Scheduler) : Prop where
  /-- The scheduler is pending exactly if one timer of it waits or was cleared away; there are never two. -/
  tally : (armedBy n s.clock.timers).length + (armedBy n lost).length = if scheduler.pending then 1 else 0
  /-- It is stuck exactly if a timer of it was cleared away. -/
  stuck_iff : s.Stuck n ↔ armedBy n lost ≠ []
  /-- Once it is stuck it stays so whatever comes, and absorbs every request. -/
  stays : s.Stuck n → ∀ {later s'}, Evolves s later s' →
    s'.Stuck n ∧ ∀ label steps, request n label steps s' = some (false, s')
  /-- While it is not stuck, a timer of it waits after every request, which is taken if none waited before. -/
  served : ¬ s.Stuck n → ∀ label steps, ∃ s', request n label steps s = some (!scheduler.pending, s') ∧
    (armedBy n s'.clock.timers).length = 1
  /-- If the clock is cleared now, the next request arms a timer exactly if the scheduler is not pending. -/
  cleared : ∀ label steps, ∃ s', request n label steps { s with clock := s.clock.clear } =
    some (!scheduler.pending, s') ∧ (armedBy n s'.clock.timers).length = if scheduler.pending then 0 else 1

/-- Every scheduler stands so, whatever has happened since the start. -/
theorem Path.standing {intervals : List Nat} (h : Evolves (.start intervals) history s) {scheduler : Scheduler}
    (hn : s.schedulers[n]? = some scheduler) : Standing s (history.flatMap Occurrence.lost) n scheduler := by
  have htallied : s.Tallied (history.flatMap Occurrence.lost) := h.tallied (.start intervals)
  have hlt := (List.getElem?_eq_some_iff.mp hn).1
  have hstuck := htallied.stuck_iff hlt
  refine ⟨htallied n scheduler hn, hstuck, fun hs later s' hlater => ?_, fun hs label steps => ?_,
    fun label steps => ?_⟩
  · have hstays : s'.Stuck n := by
      refine ((hlater.tallied htallied).stuck_iff (hlater.length_schedulers ▸ hlt)).mpr fun hnone => hstuck.mp hs ?_
      rw [armedBy, List.filter_append, List.append_eq_nil_iff] at hnone
      exact hnone.1
    exact ⟨hstays, hstays.request⟩
  · refine ⟨_, request_eq hn label steps, ?_⟩
    have hlost := Classical.not_not.mp (mt hstuck.mpr hs)
    have htally := htallied n scheduler hn
    rw [hlost] at htally
    cases hpending : scheduler.pending with
    | true =>
      rw [hpending] at htally
      exact htally
    | false =>
      rw [if_neg Bool.false_ne_true]
      exact congrArg List.length (armedBy_after (htallied.armedBy_eq_nil hn hpending).1 _ _ _)
  · refine ⟨_, request_eq (s := { s with clock := s.clock.clear }) hn label steps, ?_⟩
    cases scheduler.pending with
    | true => rfl
    | false => exact congrArg List.length (armedBy_after rfl _ _ _)

/-- The clock is cleared after a request. The scheduler is pending though no timer waits, and it absorbs the next
request. -/
theorem pending_without_timer :
    ∃ s, performAll (host 9) 9 [.request 0 "first" [], .clear] (.start [10]) = some ((), s) ∧
      s.schedulers = [⟨10, true⟩] ∧ s.clock.timers = [] ∧ request 0 "second" [] s = some (false, s) :=
  ⟨_, rfl, rfl, rfl, rfl⟩

end ReactiveTemplate.ClockScript
