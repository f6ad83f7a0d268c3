import ReactiveTemplate.Proofs.Clock.Splitting

/-!
# Whether time can be moved on until no timer is left

The limit on the number of timers is looked at between two advances, each of which moves time to the next
deadline. So there are finitely many advances, whatever timers are registered on the way. But one advance goes
on as long as timers are due at its time, and tasks may register such timers for ever: only then does moving
time until no timer is left not come to an end. It does if tasks register nothing that is due at once.
-/

namespace ReactiveTemplate

/-- The number of timers that are due by some time. -/
def Clock.dueBy {τ : Type} (c : Clock τ) (time : Nat) : Nat :=
  c.timers.countP (·.deadline ≤ time)

namespace ClockHost

variable {σ τ ρ : Type}

/-- So many timers fire one after another, all of them due by some time. -/
inductive Fires (host : ClockHost σ τ ρ) (target : Nat) : Nat → σ → σ → Prop
  | none {s : σ} : Fires host target 0 s s
  | fire {n : Nat} {s mid s' : σ} {task : τ} {clock : Clock τ} {answer : ρ}
      (hdue : (host.clock s).popDue? target = some (task, clock))
      (hfire : host.fire task (host.setClock clock s) = some (answer, mid)) (hrest : Fires host target n mid s') :
      Fires host target (n + 1) s s'

/-- Time moves to the next deadline as often as the limit allows, and so many timers have fired on the way. -/
inductive Passes (host : ClockHost σ τ ρ) (s₀ : σ) : (fired : Nat) → σ → Prop
  | start : Passes host s₀ 0 s₀
  | advance {fired delay : Nat} {s s' : σ} {answers : List ρ} (h : Passes host s₀ fired s)
      (hfired : fired < idleLimit) (hdelay : (host.clock s).untilNext? = some delay)
      (hrun : host.Elapses ((host.clock s).now + delay) s answers s') : Passes host s₀ (fired + answers.length) s'

/-- By the next deadline as many timers fire as one likes. -/
def Lingers (host : ClockHost σ τ ρ) (s : σ) : Prop :=
  ∃ delay, (host.clock s).untilNext? = some delay ∧ ∀ n, ∃ s', host.Fires ((host.clock s).now + delay) n s s'

/-- In the states of which `I` holds, the tasks of timers come to an end. -/
def Returns (host : ClockHost σ τ ρ) (I : σ → Prop) : Prop :=
  ∀ {s task c target}, I s → (host.clock s).popDue? target = some (task, c) →
    ∃ answer s', host.fire task (host.setClock c s) = some (answer, s')

/-- In these states no more timers are due at the time of a task after it than before. -/
def Defers (host : ClockHost σ τ ρ) (I : σ → Prop) : Prop :=
  ∀ {s s' task c target answer}, I s → (host.clock s).popDue? target = some (task, c) →
    host.fire task (host.setClock c s) = some (answer, s') → (host.clock s').dueBy c.now ≤ c.dueBy c.now

variable {host : ClockHost σ τ ρ} {I : σ → Prop} {s₀ s s' mid : σ} {answers : List ρ} {target n fired : Nat}

/-! ### One advance -/

/-- Timers fire in one way only. -/
theorem drains_unique {others : List ρ} (hrun : host.Drains target s answers s')
    (hother : host.Drains target s others mid) : others = answers ∧ mid = s' := by
  induction hrun generalizing others with
  | none hdue =>
    cases hother with
    | none => exact ⟨rfl, rfl⟩
    | fire hsome => rw [hdue] at hsome; cases hsome
  | fire hdue hfire _ ih =>
    cases hother with
    | none hnone => rw [hdue] at hnone; cases hnone
    | fire hsome hagain hrest =>
      rw [hdue] at hsome
      cases hsome
      rw [hfire] at hagain
      cases hagain
      obtain ⟨rfl, rfl⟩ := ih hrest
      exact ⟨rfl, rfl⟩

/-- No more timers fire than until none is due. -/
theorem Fires.le_length (h : host.Fires target n s mid) (hrun : host.Drains target s answers s') :
    n ≤ answers.length := by
  induction hrun generalizing n with
  | none hdue =>
    cases h with
    | none => exact Nat.le_refl 0
    | fire hsome => rw [hdue] at hsome; cases hsome
  | fire hdue hfire _ ih =>
    cases h with
    | none => exact Nat.zero_le _
    | fire hsome hagain hrest =>
      rw [hdue] at hsome
      cases hsome
      rw [hfire] at hagain
      cases hagain
      exact Nat.succ_le_succ (ih hrest)

/-- Timers fire until none is due, unless as many fire as one likes. -/
theorem Momentary.exists_drains_or_fires (h : host.Momentary I) (hreturns : host.Returns I) (hI : I s)
    (target n : Nat) : (∃ answers s', host.Drains target s answers s') ∨ ∃ s', host.Fires target n s s' := by
  induction n generalizing s with
  | zero => exact Or.inr ⟨s, .none⟩
  | succ n ih =>
    cases hdue : (host.clock s).popDue? target with
    | none => exact Or.inl ⟨[], s, .none hdue⟩
    | some due =>
      obtain ⟨task, clock⟩ := due
      obtain ⟨answer, mid, hfire⟩ := hreturns hI hdue
      rcases ih (h.fire hI hdue hfire).1 with ⟨more, s', hrest⟩ | ⟨s', hrest⟩
      · exact Or.inl ⟨answer :: more, s', .fire hdue hfire hrest⟩
      · exact Or.inr ⟨s', .fire hdue hfire hrest⟩

/-- The next timer fires when time is moved to its deadline. -/
theorem popDue?_untilNext {c : Clock τ} {delay : Nat} (hdelay : c.untilNext? = some delay) :
    c.popDue? (c.now + delay) ≠ none := by
  intro hdue
  rw [Clock.popDue?_eq_none_iff] at hdue
  obtain ⟨timer, htimer, rfl⟩ := Option.map_eq_some_iff.mp hdelay
  have hahead := hdue timer htimer
  omega

/-- Moving time to the next deadline fires a timer. -/
theorem Elapses.ne_nil {delay : Nat} (hdelay : (host.clock s).untilNext? = some delay)
    (hrun : host.Elapses ((host.clock s).now + delay) s answers s') : answers ≠ [] := by
  rintro rfl
  obtain ⟨mid, hdrains, _⟩ := hrun
  cases hdrains with
  | none hdue => exact popDue?_untilNext hdelay hdue

/-! ### All advances -/

/-- What tasks that take no time keep holds after an advance. -/
theorem Momentary.elapses (h : host.Momentary I) (hI : I s) (hnow : (host.clock s).now ≤ target)
    (hrun : host.Elapses target s answers s') : I s' := by
  obtain ⟨mid, hdrains, rfl⟩ := hrun
  exact h.pass target (h.now_le_of_drains hI hnow hdrains).1

/-- What tasks that take no time keep holds between the advances. -/
theorem Momentary.passes (h : host.Momentary I) (hI : I s₀) (hpasses : host.Passes s₀ fired s) : I s := by
  induction hpasses with
  | start => exact hI
  | advance _ _ _ hrun ih => exact h.elapses ih (Nat.le_add_right _ _) hrun

/-- What comes to an end does so from each state on the way. -/
theorem Passes.settles (hpasses : host.Passes s₀ fired s) (hrun : host.Settles 0 s₀ answers s') :
    ∃ more, host.Settles fired s more s' := by
  induction hpasses with
  | start => exact ⟨answers, hrun⟩
  | advance _ hfired hdelay hfirst ih =>
    obtain ⟨more, hmore⟩ := ih
    cases hmore with
    | stop hstop => exact absurd hstop (by simp [hdelay, hfired])
    | advance hsame _ hagain hrest =>
      rw [hdelay] at hsame
      cases hsame
      obtain ⟨mid, hdrains, rfl⟩ := hfirst
      obtain ⟨other, hother, rfl⟩ := drains_of_advance hagain
      obtain ⟨rfl, rfl⟩ := drains_unique hdrains hother
      exact ⟨_, hrest⟩

/-- Between the limit and the timers that fired there is room for finitely many advances only. -/
theorem exists_settles (hends : ∀ fired s, host.Passes s₀ fired s → fired < idleLimit → ∀ delay,
      (host.clock s).untilNext? = some delay → ∃ answers s', host.Elapses ((host.clock s).now + delay) s answers s')
    (hpasses : host.Passes s₀ fired s) : ∃ answers s', host.Settles fired s answers s' := by
  induction hroom : idleLimit - fired using Nat.strongRecOn generalizing fired s with
  | ind room ih =>
    by_cases hfired : fired < idleLimit
    · cases hdelay : (host.clock s).untilNext? with
      | none => exact ⟨[], s, .stop (Or.inl hdelay)⟩
      | some delay =>
        obtain ⟨first, mid, hfirst⟩ := hends fired s hpasses hfired delay hdelay
        have hpos : 0 < first.length := List.length_pos_iff.mpr (hfirst.ne_nil hdelay)
        obtain ⟨more, s', hmore⟩ := ih _ (by omega) (hpasses.advance hfired hdelay hfirst) rfl
        obtain ⟨fuel, hrun⟩ := advance_eq_some_iff.mpr hfirst
        exact ⟨first ++ more, s', .advance hdelay hfired hrun hmore⟩
    · exact ⟨[], s, .stop (Or.inr (Nat.le_of_not_lt hfired))⟩

/-! ### Tasks that register nothing for at once -/

/-- No more timers fire by the next deadline than are due by then. -/
theorem Fires.le_dueBy (h : host.Momentary I) (hdefers : host.Defers I) (hI : I s)
    (hnow : (host.clock s).now ≤ target)
    (hnext : ∀ timer ∈ (host.clock s).timers.head?, target ≤ max (host.clock s).now timer.deadline)
    (hrun : host.Fires target n s s') : n ≤ (host.clock s).dueBy target := by
  induction hrun with
  | none => exact Nat.zero_le _
  | @fire n s mid s' task c answer hdue hfire _ ih =>
    obtain ⟨hmid, hsame⟩ := h.fire hI hdue hfire
    have hless := hdefers hI hdue hfire
    obtain ⟨timer, rest, htimers, _, hdeadline, rfl⟩ := Clock.exists_of_popDue? hdue
    -- From the first timer on, the clock shows the time that is moved to.
    have htime : max (host.clock s).now timer.deadline = target :=
      Nat.le_antisymm (Nat.max_le.mpr ⟨hnow, hdeadline⟩) (hnext timer (by rw [htimers]; rfl))
    simp only [htime] at hsame hless
    have hmore := ih hmid (Nat.le_of_eq hsame) fun other _ => hsame ▸ Nat.le_max_left _ _
    have hone : (host.clock s).dueBy target = rest.countP (·.deadline ≤ target) + 1 := by
      rw [Clock.dueBy, htimers, List.countP_cons_of_pos (by simpa using hdeadline)]
    rw [hone]
    exact Nat.succ_le_succ (hmore.trans hless)

/-- Where tasks register nothing for at once, no more timers fire than are due. -/
theorem Momentary.not_lingers (h : host.Momentary I) (hdefers : host.Defers I) (hI : I s) : ¬host.Lingers s := by
  intro hlingers
  obtain ⟨delay, hdelay, hmany⟩ := hlingers
  obtain ⟨s', hrun⟩ := hmany ((host.clock s).dueBy ((host.clock s).now + delay) + 1)
  obtain ⟨timer, htimer, rfl⟩ := Option.map_eq_some_iff.mp hdelay
  refine absurd (hrun.le_dueBy h hdefers hI (Nat.le_add_right _ _) fun other hother => ?_) (Nat.not_succ_le_self _)
  obtain rfl : timer = other := Option.some.inj (htimer.symm.trans hother)
  omega

/-! ### Until no timer is left -/

/-- What comes to an end does not linger on the way. -/
theorem Passes.not_lingers (hpasses : host.Passes s₀ fired s) (hfired : fired < idleLimit)
    (hrun : host.Settles 0 s₀ answers s') : ¬host.Lingers s := by
  intro hlingers
  obtain ⟨delay, hdelay, hmany⟩ := hlingers
  obtain ⟨more, hmore⟩ := hpasses.settles hrun
  cases hmore with
  | stop hstop => exact absurd hstop (by simp [hdelay, hfired])
  | @advance _ _ _ _ _ _ first _ hsame _ hfirst _ =>
    rw [hdelay] at hsame
    cases hsame
    obtain ⟨_, hdrains, _⟩ := drains_of_advance hfirst
    obtain ⟨_, hfires⟩ := hmany (first.length + 1)
    exact absurd (hfires.le_length hdrains) (Nat.not_succ_le_self _)

/-- What never lingers on the way comes to an end. -/
theorem Momentary.exists_settles_of_not_lingers (h : host.Momentary I) (hreturns : host.Returns I) (hI : I s)
    (hnever : ∀ fired mid, host.Passes s fired mid → fired < idleLimit → ¬host.Lingers mid) :
    ∃ answers s', host.Settles 0 s answers s' := by
  refine exists_settles (fun fired mid hpasses hfired delay hdelay => ?_) .start
  by_contra hnone
  refine hnever fired mid hpasses hfired ⟨delay, hdelay, fun n => ?_⟩
  refine (h.exists_drains_or_fires hreturns (h.passes hI hpasses) _ n).resolve_left fun hdrains => hnone ?_
  obtain ⟨answers, last, hdrains⟩ := hdrains
  exact ⟨answers, _, last, hdrains, rfl⟩

/-- Where tasks come to an end and take no time, moving time until no timer is left comes to an end unless, before
the limit is reached, it comes to a deadline by which as many timers fire as one likes. In particular it does where
tasks register nothing that is due at once, however long they go on registering. -/
theorem Momentary.settle_ends (h : host.Momentary I) (hreturns : host.Returns I) (hI : I s) :
    ((∃ fuel answers s', host.settle fuel 0 s = some (answers, s')) ↔
        ∀ fired mid, host.Passes s fired mid → fired < idleLimit → ¬host.Lingers mid) ∧
      (host.Defers I → ∃ fuel answers s', host.settle fuel 0 s = some (answers, s')) := by
  have hends : (∃ fuel answers s', host.settle fuel 0 s = some (answers, s')) ↔
      ∀ fired mid, host.Passes s fired mid → fired < idleLimit → ¬host.Lingers mid := by
    constructor
    · intro hrun fired mid hpasses hfired
      obtain ⟨fuel, answers, s', hrun⟩ := hrun
      exact hpasses.not_lingers hfired (settles_of_settle hrun)
    · intro hnever
      obtain ⟨answers, s', hrun⟩ := h.exists_settles_of_not_lingers hreturns hI hnever
      obtain ⟨fuel, hfuel⟩ := settle_eq_some_iff.mpr hrun
      exact ⟨fuel, answers, s', hfuel⟩
  exact ⟨hends, fun hdefers => hends.mpr fun fired mid hpasses _ => h.not_lingers hdefers (h.passes hI hpasses)⟩

end ClockHost

/-! ### Scripts -/

namespace ClockScript

/-- Each timer that waits registers itself again after a millisecond. -/
def State.Ticking (s : State) : Prop :=
  ∀ timer ∈ s.clock.timers, timer.task = .loop 1

/-- One more such timer. -/
theorem State.Ticking.after {s : State} (h : s.Ticking) :
    State.Ticking { s with clock := s.clock.after 1 (.loop 1) } := by
  intro timer htimer
  rcases List.mem_cons.mp ((Clock.perm_place _ _).mem_iff.mp htimer) with rfl | htimer
  · rfl
  · exact h timer htimer

/-- The first of these timers is taken off the clock and registers itself again. -/
theorem State.Ticking.fire {target : Nat} {s : State} {task : Task} {c : Clock Task} (h : s.Ticking) (depth : Nat)
    (hdue : s.clock.popDue? target = some (task, c)) :
    State.Ticking { s with clock := c } ∧
      (host (depth + 1)).fire task { s with clock := c } = some ((), { s with clock := c.after 1 (.loop 1) }) := by
  obtain ⟨timer, rest, htimers, rfl, _, rfl⟩ := Clock.exists_of_popDue? hdue
  have htask : timer.task = .loop 1 := h timer (by simp [htimers])
  refine ⟨fun other hother => h other ?_, by rw [htask]; rfl⟩
  rw [htimers]
  exact List.mem_cons_of_mem _ hother

/-- Such timers take no time. -/
theorem momentary_ticking (depth : Nat) : (host (depth + 1)).Momentary State.Ticking where
  clock_setClock _ _ := rfl
  setClock_setClock _ _ _ := rfl
  pass _ h := h
  fire h hdue hfire := by
    obtain ⟨hrest, hfired⟩ := h.fire depth hdue
    cases hfired.symm.trans hfire
    exact ⟨hrest.after, rfl⟩

/-- A timer that registers itself again after each millisecond leaves no moment without timers, and still moving
time until none is left comes to an end. -/
theorem settle_ends_ticking :
    let s : State := ⟨Clock.start.after 1 (.loop 1), [], []⟩
    (host 1).Momentary State.Ticking ∧ (host 1).Returns State.Ticking ∧ (host 1).Defers State.Ticking ∧
      s.Ticking ∧ ∃ fuel answers s', (host 1).settle fuel 0 s = some (answers, s') := by
  intro s
  have hreturns : (host 1).Returns State.Ticking := fun h hdue => ⟨_, _, (h.fire 0 hdue).2⟩
  have hdefers : (host 1).Defers State.Ticking := by
    intro s s' task c target answer h hdue hfire
    cases (h.fire 0 hdue).2.symm.trans hfire
    -- The timer that was registered is due a millisecond later.
    refine Nat.le_of_eq (((Clock.perm_place _ _).countP_eq _).trans (List.countP_cons_of_neg ?_))
    simp
  have hticking : s.Ticking := State.Ticking.after (s := .start []) (by simp [State.Ticking, State.start, Clock.start])
  exact ⟨momentary_ticking 0, hreturns, hdefers, hticking,
    ((momentary_ticking 0).settle_ends hreturns hticking).2 hdefers⟩

/-- The state in which one timer is due that registers itself again at once, after so many registrations. -/
def spinning (registered : Nat) : State :=
  ⟨⟨0, registered + 1, [⟨0, registered, .loop 0⟩]⟩, [], []⟩

/-- Such a timer fires for ever. -/
theorem drain_spinning (depth fuel registered : Nat) : (host depth).drain 0 fuel (spinning registered) = none := by
  induction fuel generalizing registered with
  | zero => rfl
  | succ fuel ih =>
    cases depth with
    | zero => rfl
    | succ depth =>
      have hmore : ((host (depth + 1)).drain 0 fuel >>= fun more => pure (() :: more)) (spinning (registered + 1)) =
          none := bind_of_none (ih (registered + 1))
      exact hmore

/-- One timer that registers itself again at once, and time is never moved on until none is left: however much fuel
there is for it, it is not enough. -/
theorem idle_never_ends :
    run 1 (.loop 0) (.start []) = some (.nothing, spinning 0) ∧ (spinning 0).Calm ∧
      ∀ fuel, run fuel .idle (spinning 0) = none := by
  refine ⟨rfl, ?_, fun fuel => ?_⟩
  · intro timer htimer
    rw [List.mem_singleton.mp htimer]
    exact ⟨trivial, trivial⟩
  · cases fuel with
    | zero => rfl
    | succ fuel =>
      have hadvance : (host (fuel + 1)).advance fuel 0 (spinning 0) = none := by
        rw [ClockHost.advance, get_bind]
        exact bind_of_none (drain_spinning _ _ 0)
      have hsettle : (host (fuel + 1)).settle (fuel + 1) 0 (spinning 0) = none := by
        rw [ClockHost.settle, get_bind]
        exact bind_of_none hadvance
      exact bind_of_none hsettle

end ClockScript

end ReactiveTemplate
