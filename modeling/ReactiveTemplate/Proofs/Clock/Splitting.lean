import ReactiveTemplate.Proofs.Clock.Nesting

/-!
# Time moved on in two parts

Where the tasks of timers take no time, it makes no difference whether time is moved on at once or in two
parts. The timers that are due by the end of the first part come first in any case. What lies between the parts
is only the time that the clock shows, and the next timer sets that to its deadline.
-/

namespace ReactiveTemplate

namespace ClockHost

variable {σ τ ρ : Type}

/-! ### Calls -/

/-- A task that was run, the time that the clock showed then, and what came of it. -/
structure Call (τ ρ : Type) where
  task : τ
  time : Nat
  answer : ρ

/-- The host that tells which tasks were run and when. -/
def calling (host : ClockHost σ τ ρ) : ClockHost σ τ (Call τ ρ) where
  clock := host.clock
  setClock := host.setClock
  fire task := do
    let time := (host.clock (← get)).now
    let answer ← host.fire task
    pure ⟨task, time, answer⟩

/-- Telling which tasks were run changes nothing. -/
theorem map_calling (host : ClockHost σ τ ρ) : host.calling.map Call.answer = host := by
  have hfire (task : τ) : Call.answer <$> host.calling.fire task = host.fire task := by
    simp only [calling, map_bind, map_pure, bind_pure]
    rfl
  simp only [map, hfire]
  rfl

/-- A task is run as before, and it is told which and when. -/
theorem fire_calling {host : ClockHost σ τ ρ} {task : τ} {s s' : σ} {call : Call τ ρ} :
    host.calling.fire task s = some (call, s') ↔
      host.fire task s = some (call.answer, s') ∧ call.task = task ∧ call.time = (host.clock s).now := by
  change (host.fire task >>= fun answer => pure (⟨task, (host.clock s).now, answer⟩ : Call τ ρ)) s = _ ↔ _
  rw [bind_eq_some]
  constructor
  · intro hrun
    obtain ⟨answer, mid, hfire, hend⟩ := hrun
    cases hend
    exact ⟨hfire, rfl, rfl⟩
  · intro h
    obtain ⟨hfire, rfl, htime⟩ := h
    exact ⟨_, _, hfire, by rw [← htime]; rfl⟩

/-! ### Tasks that take no time -/

/-- In the states of which `I` holds, the tasks of timers take no time, and keep `I`. -/
structure Momentary (host : ClockHost σ τ ρ) (I : σ → Prop) : Prop where
  clock_setClock : ∀ c s, host.clock (host.setClock c s) = c
  setClock_setClock : ∀ c c' s, host.setClock c (host.setClock c' s) = host.setClock c s
  pass : ∀ {s} time, I s → I (host.setClock ((host.clock s).setTime time) s)
  fire : ∀ {s s' task c target answer}, I s → (host.clock s).popDue? target = some (task, c) →
    host.fire task (host.setClock c s) = some (answer, s') → I s' ∧ (host.clock s').now = c.now

variable {host : ClockHost σ τ ρ} {I : σ → Prop} {s s' mid : σ} {answers : List ρ} {target later : Nat}

/-- Telling which tasks were run takes no time. -/
theorem Momentary.calling (h : host.Momentary I) : host.calling.Momentary I where
  clock_setClock := h.clock_setClock
  setClock_setClock := h.setClock_setClock
  pass := h.pass
  fire hI hdue hfire := h.fire hI hdue (fire_calling.mp hfire).1

/-- While timers fire that are due by some time, that time is not passed. -/
theorem Momentary.now_le_of_drains (h : host.Momentary I) (hI : I s) (hnow : (host.clock s).now ≤ target)
    (hrun : host.Drains target s answers s') : I s' ∧ (host.clock s').now ≤ target := by
  induction hrun with
  | none _ => exact ⟨hI, hnow⟩
  | fire hdue hfire _ ih =>
    obtain ⟨hmid, hsame⟩ := h.fire hI hdue hfire
    obtain ⟨timer, rest, _, _, hdeadline, rfl⟩ := Clock.exists_of_popDue? hdue
    exact ih hmid (hsame ▸ Nat.max_le.mpr ⟨hnow, hdeadline⟩)

/-! ### Two parts -/

/-- What is due by some time is due by any later one. -/
theorem popDue?_mono {c c' : Clock τ} {task : τ} (hle : target ≤ later)
    (hdue : c.popDue? target = some (task, c')) : c.popDue? later = some (task, c') := by
  obtain ⟨timer, rest, htimers, rfl, hdeadline, rfl⟩ := Clock.exists_of_popDue? hdue
  simp only [Clock.popDue?, htimers]
  exact if_pos (hdeadline.trans hle)

/-- The timers that are due by some time fire first, and those that are due later after them. -/
theorem drains_iff_of_le (hle : target ≤ later) : host.Drains later s answers s' ↔
    ∃ first second mid, answers = first ++ second ∧ host.Drains target s first mid ∧
      host.Drains later mid second s' := by
  constructor
  · intro hrun
    induction hrun with
    | @none s hdue =>
      refine ⟨[], [], s, rfl, .none ?_, .none hdue⟩
      cases hfirst : (host.clock s).popDue? target with
      | none => rfl
      | some due => rw [popDue?_mono hle hfirst] at hdue; cases hdue
    | @fire s between s' task c answer more hdue hfire hrest ih =>
      cases hfirst : (host.clock s).popDue? target with
      | none => exact ⟨[], answer :: more, s, rfl, .none hfirst, .fire hdue hfire hrest⟩
      | some due =>
        obtain ⟨first, second, mid, rfl, hmid, hend⟩ := ih
        rw [popDue?_mono hle hfirst] at hdue
        cases hdue
        exact ⟨answer :: first, second, mid, rfl, .fire hfirst hfire hmid, hend⟩
  · intro h
    obtain ⟨first, second, mid, rfl, hmid, hend⟩ := h
    induction hmid with
    | none _ => exact hend
    | fire hdue hfire _ ih => exact .fire (popDue?_mono hle hdue) hfire (ih hend)

/-- After the timers that are due by some time none is. -/
theorem popDue?_of_drains (hrun : host.Drains target s answers s') : (host.clock s').popDue? target = none := by
  induction hrun with
  | none hdue => exact hdue
  | fire _ _ _ ih => exact ih

/-- The next timer fires at its deadline, whichever time the clock shows of those by which none is due. -/
theorem popDue?_setTime {c : Clock τ} (hnow : c.now ≤ target) (hdue : c.popDue? target = none) :
    (c.setTime target).popDue? later = c.popDue? later := by
  rw [Clock.popDue?_eq_none_iff] at hdue
  simp only [Clock.popDue?, Clock.setTime]
  cases htimers : c.timers with
  | nil => rfl
  | cons timer rest =>
    have hahead : target < timer.deadline := hdue timer (by rw [htimers]; rfl)
    dsimp only
    rw [Nat.max_eq_right (Nat.le_of_lt hahead), Nat.max_eq_right (Nat.le_of_lt (Nat.lt_of_le_of_lt hnow hahead))]

/-- Which time the clock shows makes no difference to what comes later, as long as no timer is due by then. -/
theorem Momentary.elapses_setTime_iff (h : host.Momentary I) (hnow : (host.clock s).now ≤ target)
    (hdue : (host.clock s).popDue? target = none) :
    host.Elapses later (host.setClock ((host.clock s).setTime target) s) answers s' ↔
      host.Elapses later s answers s' := by
  have hsame : (host.clock (host.setClock ((host.clock s).setTime target) s)).popDue? later =
      (host.clock s).popDue? later := by
    rw [h.clock_setClock, popDue?_setTime hnow hdue]
  have hend : host.setClock ((host.clock (host.setClock ((host.clock s).setTime target) s)).setTime later)
      (host.setClock ((host.clock s).setTime target) s) = host.setClock ((host.clock s).setTime later) s := by
    rw [h.setClock_setClock, h.clock_setClock]
    rfl
  constructor
  · intro hrun
    obtain ⟨mid, hdrains, rfl⟩ := hrun
    cases hdrains with
    | none hnone => exact ⟨s, .none (hsame ▸ hnone), hend⟩
    | fire hsome hfire hrest =>
      rw [h.setClock_setClock] at hfire
      exact ⟨mid, .fire (hsame ▸ hsome) hfire hrest, rfl⟩
  · intro hrun
    obtain ⟨mid, hdrains, rfl⟩ := hrun
    cases hdrains with
    | none hnone => exact ⟨_, .none (hsame ▸ hnone), hend.symm⟩
    | fire hsome hfire hrest =>
      rw [← h.setClock_setClock _ ((host.clock s).setTime target) s] at hfire
      exact ⟨mid, .fire (hsame ▸ hsome) hfire hrest, rfl⟩

/-- Time moves on by a sum just as it does by one part and then by the other. -/
theorem Momentary.advance_sum_iff (h : host.Momentary I) (hI : I s) (a b : Nat) :
    (∃ fuel, host.advance fuel (a + b) s = some (answers, s')) ↔
      ∃ first second mid, answers = first ++ second ∧ (∃ fuel, host.advance fuel a s = some (first, mid)) ∧
        ∃ fuel, host.advance fuel b mid = some (second, s') := by
  have hle : (host.clock s).now + a ≤ (host.clock s).now + (a + b) :=
    Nat.add_le_add_left (Nat.le_add_right a b) _
  -- What is reached between the parts differs from what is reached there at once in the time shown only.
  have hbetween {first second : List ρ} {mid : σ} (hmid : host.Drains ((host.clock s).now + a) s first mid) :
      (∃ fuel, host.advance fuel b (host.setClock ((host.clock mid).setTime ((host.clock s).now + a)) mid) =
        some (second, s')) ↔ host.Elapses ((host.clock s).now + (a + b)) mid second s' := by
    have hnow := (h.now_le_of_drains hI (Nat.le_add_right _ a) hmid).2
    rw [advance_eq_some_iff, ← h.elapses_setTime_iff hnow (popDue?_of_drains hmid), h.clock_setClock,
      Clock.setTime, Nat.add_assoc]
  rw [advance_eq_some_iff]
  constructor
  · intro hrun
    obtain ⟨last, hdrains, rfl⟩ := hrun
    obtain ⟨first, second, mid, rfl, hmid, hrest⟩ := (drains_iff_of_le hle).mp hdrains
    exact ⟨first, second, _, rfl, advance_eq_some_iff.mpr ⟨mid, hmid, rfl⟩, (hbetween hmid).mpr ⟨last, hrest, rfl⟩⟩
  · intro hrun
    obtain ⟨first, second, _, rfl, hfirst, hsecond⟩ := hrun
    obtain ⟨mid, hmid, rfl⟩ := advance_eq_some_iff.mp hfirst
    obtain ⟨last, hrest, rfl⟩ := (hbetween hmid).mp hsecond
    exact ⟨last, (drains_iff_of_le hle).mpr ⟨first, second, mid, rfl, hmid, hrest⟩, rfl⟩

/-- Time is moved on by a sum. Exactly if both parts come to an end, then so does the whole. It runs the tasks that
the parts run, in the same order and each at the same time, with as many of them as both parts together; and it
ends in the same state, with the same time and the same timers. -/
theorem Momentary.advance_add (h : host.Momentary I) (hI : I s) (a b : Nat) :
    (∀ fuel milliseconds, host.advance fuel milliseconds =
        List.map Call.answer <$> host.calling.advance fuel milliseconds) ∧
      ∀ calls s', (∃ fuel, host.calling.advance fuel (a + b) s = some (calls, s')) ↔
        ∃ first second mid, calls = first ++ second ∧ calls.length = first.length + second.length ∧
          (∃ fuel, host.calling.advance fuel a s = some (first, mid)) ∧
          ∃ fuel, host.calling.advance fuel b mid = some (second, s') := by
  refine ⟨fun fuel milliseconds => ?_, fun calls s' => (h.calling.advance_sum_iff hI a b).trans ?_⟩
  · conv_lhs => rw [← host.map_calling, advance_map]
  · refine exists_congr fun first => exists_congr fun second => exists_congr fun mid => ?_
    exact and_congr_right fun hcalls => (and_iff_right (by rw [hcalls, List.length_append])).symm

end ClockHost

/-! ### Scripts -/

namespace ClockScript

/-- The callbacks of a script take no time while all timers that wait have plain steps. -/
theorem momentary_host (depth : Nat) : (host depth).Momentary State.Calm where
  clock_setClock _ _ := rfl
  setClock_setClock _ _ _ := rfl
  pass := (tame_host depth).pass
  fire hcalm hdue hfire := by
    obtain ⟨hend, hregisters⟩ := (tame_host depth).fire hcalm hdue hfire
    exact ⟨hend, hregisters.now_eq⟩

/-- Three milliseconds bring the first timer and the one that it registers, two more the other one; and so do five
at once. -/
theorem advance_add_chiming :
    (host 3).Momentary State.Calm ∧ chiming.Calm ∧
      ∃ fuel calls s', (host 3).calling.advance fuel (3 + 2) chiming = some (calls, s') ∧
        calls.map ClockHost.Call.time = [3, 3, 5] ∧ s'.log = [("first", 3), ("echo", 3), ("second", 5)] ∧
        s'.clock.now = 5 ∧ s'.clock.timers = [] := by
  have hcalm : chiming.Calm := by
    have hsecond : PlainAll (Task.callback "second" []).steps := trivial
    have hfirst : PlainAll (Task.callback "first" [.timeout 0 "echo" []]).steps := ⟨trivial, trivial⟩
    have hstart : (State.start []).Calm := by simp [State.Calm, State.start, Clock.start]
    exact (hstart.after 5 hsecond []).after 3 hfirst []
  have hadvance := ((momentary_host 3).advance_add hcalm 3 2).2
  obtain ⟨fuel, hrun⟩ := (hadvance _ _).mpr ⟨_, _, _, rfl, List.length_append, ⟨9, rfl⟩, ⟨9, rfl⟩⟩
  exact ⟨momentary_host 3, hcalm, fuel, _, _, hrun, rfl, rfl, rfl, rfl⟩

end ClockScript

end ReactiveTemplate
