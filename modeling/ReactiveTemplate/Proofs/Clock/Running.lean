import ReactiveTemplate.Clock.Host

/-!
# What holds along a run of a clock

A property of the host that setting the clock keeps, and that the task of every timer keeps, holds after
any number of timers. The property may speak of an account that is kept of what came of the timers.
-/

namespace ReactiveTemplate

/-- A run of two parts. -/
theorem bind_eq_some {σ α β : Type} {m : StateT σ Option α} {f : α → StateT σ Option β} {s s'' : σ}
    {b : β} :
    (m >>= f) s = some (b, s'') ↔ ∃ a s', m s = some (a, s') ∧ f a s' = some (b, s'') := by
  change (m s).bind (fun as => f as.1 as.2) = _ ↔ _
  cases m s with
  | none =>
    constructor
    · intro h
      cases h
    · intro h
      obtain ⟨a, s', hrun, _⟩ := h
      cases hrun
  | some as =>
    constructor
    · intro h
      exact ⟨as.1, as.2, rfl, h⟩
    · intro h
      obtain ⟨a, s', hrun, hrest⟩ := h
      cases hrun
      exact hrest

/-- What comes after a run without a result has none either. -/
theorem bind_of_none {σ α β : Type} {m : StateT σ Option α} {f : α → StateT σ Option β} {s : σ}
    (h : m s = none) : (m >>= f) s = none := by
  change (m s).bind _ = none
  rw [h, Option.bind_none]

/-- What comes after a run with a result goes on from there. -/
theorem bind_of_some {σ α β : Type} {m : StateT σ Option α} {f : α → StateT σ Option β} {s s' : σ} {a : α}
    (h : m s = some (a, s')) : (m >>= f) s = f a s' := by
  change (m s).bind _ = _
  rw [h, Option.bind_some]

/-- A run after a look at the state. -/
theorem get_bind {σ β : Type} (f : σ → StateT σ Option β) (s : σ) :
    ((get : StateT σ Option σ) >>= f) s = f s s :=
  rfl

/-- A run after a change of the state. -/
theorem modify_bind {σ β : Type} (g : σ → σ) (f : PUnit → StateT σ Option β) (s : σ) :
    ((modify g : StateT σ Option PUnit) >>= f) s = f ⟨⟩ (g s) :=
  rfl

namespace ClockHost

section Runs

variable {σ τ ρ : Type} (host : ClockHost σ τ ρ)

/-- Timers fire one after the other, until none is due by some time. -/
inductive Drains (target : Nat) : σ → List ρ → σ → Prop
  | none {s : σ} (hdue : (host.clock s).popDue? target = none) : Drains target s [] s
  | fire {s mid s' : σ} {task : τ} {clock : Clock τ} {first : ρ} {more : List ρ}
      (hdue : (host.clock s).popDue? target = some (task, clock))
      (hfire : host.fire task (host.setClock clock s) = some (first, mid)) (hrest : Drains target mid more s') :
      Drains target s (first :: more) s'

/-- Time moves from one deadline to the next, until no timer is left or too many have fired. -/
inductive Settles : (fired : Nat) → σ → List ρ → σ → Prop
  | stop {fired : Nat} {s : σ} (h : (host.clock s).untilNext? = none ∨ idleLimit ≤ fired) : Settles fired s [] s
  | advance {fired fuel delay : Nat} {s mid s' : σ} {first more : List ρ}
      (hdelay : (host.clock s).untilNext? = some delay) (hfired : fired < idleLimit)
      (hfirst : host.advance fuel delay s = some (first, mid)) (hrest : Settles (fired + first.length) mid more s') :
      Settles fired s (first ++ more) s'

variable {host} {fuel : Nat} {s s' : σ} {answers : List ρ}

/-- Firing timers goes this way. -/
theorem drains_of_drain {target : Nat} (hrun : host.drain target fuel s = some (answers, s')) :
    host.Drains target s answers s' := by
  induction fuel generalizing s answers with
  | zero => cases hrun
  | succ fuel ih =>
    rw [drain, get_bind] at hrun
    cases hdue : (host.clock s).popDue? target with
    | none =>
      rw [hdue] at hrun
      cases hrun
      exact .none hdue
    | some due =>
      obtain ⟨task, clock⟩ := due
      rw [hdue] at hrun
      dsimp only at hrun
      rw [modify_bind] at hrun
      obtain ⟨first, mid, hfirst, hrest⟩ := bind_eq_some.mp hrun
      obtain ⟨more, last, hmore, hend⟩ := bind_eq_some.mp hrest
      cases hend
      exact .fire hdue hfirst (ih hmore)

/-- Moving time forward is firing timers, and setting the time to what was asked. -/
theorem drains_of_advance {milliseconds : Nat} (hrun : host.advance fuel milliseconds s = some (answers, s')) :
    ∃ mid, host.Drains ((host.clock s).now + milliseconds) s answers mid ∧
      s' = host.setClock ((host.clock mid).setTime ((host.clock s).now + milliseconds)) mid := by
  rw [advance, get_bind] at hrun
  obtain ⟨answers, mid, hdrain, hend⟩ := bind_eq_some.mp hrun
  cases hend
  exact ⟨mid, drains_of_drain hdrain, rfl⟩

/-- Moving time until no timer is left goes this way. -/
theorem settles_of_settle {fired : Nat} (hrun : host.settle fuel fired s = some (answers, s')) :
    host.Settles fired s answers s' := by
  induction fuel generalizing s answers fired with
  | zero => cases hrun
  | succ fuel ih =>
    rw [settle, get_bind] at hrun
    cases hdelay : (host.clock s).untilNext? with
    | none =>
      rw [hdelay] at hrun
      cases hrun
      exact .stop (Or.inl hdelay)
    | some delay =>
      rw [hdelay] at hrun
      dsimp only at hrun
      split at hrun
      · next hlimit =>
        cases hrun
        exact .stop (Or.inr hlimit)
      · next hlimit =>
        obtain ⟨first, mid, hfirst, hrest⟩ := bind_eq_some.mp hrun
        obtain ⟨more, last, hmore, hend⟩ := bind_eq_some.mp hrest
        cases hend
        exact .advance hdelay (Nat.lt_of_not_le hlimit) hfirst (ih hmore)

/-- Nothing fires if no timer waits. -/
theorem drains_of_empty {target : Nat} (hempty : (host.clock s).timers = [])
    (hrun : host.Drains target s answers s') : answers = [] ∧ s' = s := by
  cases hrun with
  | none _ => exact ⟨rfl, rfl⟩
  | fire hdue _ _ =>
    rw [Clock.popDue?, hempty] at hdue
    cases hdue

/-- If no timer waits, moving time forward does no more than that. -/
theorem advance_of_empty {milliseconds : Nat} (hempty : (host.clock s).timers = [])
    (hrun : host.advance fuel milliseconds s = some (answers, s')) :
    answers = [] ∧ s' = host.setClock ((host.clock s).setTime ((host.clock s).now + milliseconds)) s := by
  obtain ⟨mid, hdrains, rfl⟩ := drains_of_advance hrun
  obtain ⟨rfl, rfl⟩ := drains_of_empty hempty hdrains
  exact ⟨rfl, rfl⟩

/-- If no timer waits, there is none to wait for. -/
theorem settle_of_empty {fired : Nat} (hempty : (host.clock s).timers = [])
    (hrun : host.settle fuel fired s = some (answers, s')) : answers = [] ∧ s' = s := by
  cases settles_of_settle hrun with
  | stop _ => exact ⟨rfl, rfl⟩
  | advance hdelay _ _ _ =>
    rw [Clock.untilNext?, hempty] at hdelay
    cases hdelay

/-- Firing timers goes as it has to if the fuel is enough for one more than those that fire. -/
theorem drain_of_drains {target : Nat} (hrun : host.Drains target s answers s') (hfuel : answers.length < fuel) :
    host.drain target fuel s = some (answers, s') := by
  induction hrun generalizing fuel with
  | none hdue =>
    obtain ⟨fuel, rfl⟩ := Nat.exists_eq_succ_of_ne_zero (Nat.ne_of_gt hfuel)
    rw [drain, get_bind, hdue]
    rfl
  | fire hdue hfire _ ih =>
    obtain ⟨fuel, rfl⟩ := Nat.exists_eq_succ_of_ne_zero (Nat.ne_of_gt (Nat.zero_lt_of_lt hfuel))
    have hmore := ih (Nat.lt_of_succ_lt_succ hfuel)
    rw [drain, get_bind, hdue]
    dsimp only
    rw [modify_bind]
    exact bind_eq_some.mpr ⟨_, _, hfire, bind_eq_some.mpr ⟨_, _, hmore, rfl⟩⟩

variable (host) in
/-- Time moves on to some time: the timers that are due by then fire, and then it is that time. -/
def Elapses (target : Nat) (s : σ) (answers : List ρ) (s' : σ) : Prop :=
  ∃ mid, host.Drains target s answers mid ∧ s' = host.setClock ((host.clock mid).setTime target) mid

/-- Moving time forward goes as it has to if the fuel is enough for one more than those that fire. -/
theorem advance_of_elapses {milliseconds : Nat}
    (hrun : host.Elapses ((host.clock s).now + milliseconds) s answers s') (hfuel : answers.length < fuel) :
    host.advance fuel milliseconds s = some (answers, s') := by
  obtain ⟨mid, hdrains, rfl⟩ := hrun
  rw [advance, get_bind]
  exact bind_eq_some.mpr ⟨_, _, drain_of_drains hdrains hfuel, rfl⟩

/-- With enough fuel, moving time forward is what it has to be. -/
theorem advance_eq_some_iff {milliseconds : Nat} : (∃ fuel, host.advance fuel milliseconds s = some (answers, s')) ↔
    host.Elapses ((host.clock s).now + milliseconds) s answers s' := by
  refine ⟨fun hrun => ?_, fun hrun => ⟨_, advance_of_elapses hrun (Nat.lt_succ_self _)⟩⟩
  obtain ⟨fuel, hrun⟩ := hrun
  exact drains_of_advance hrun

/-- Moving time until no timer is left goes as it has to if there is enough fuel. -/
theorem settle_of_settles {fired : Nat} (hrun : host.Settles fired s answers s') :
    ∃ least, ∀ fuel, least < fuel → host.settle fuel fired s = some (answers, s') := by
  induction hrun with
  | @stop fired s hstop =>
    refine ⟨0, fun fuel hfuel => ?_⟩
    obtain ⟨fuel, rfl⟩ := Nat.exists_eq_succ_of_ne_zero (Nat.ne_of_gt hfuel)
    rw [settle, get_bind]
    cases hdelay : (host.clock s).untilNext? with
    | none => rfl
    | some delay =>
      have hlimit : idleLimit ≤ fired := hstop.resolve_left (by simp [hdelay])
      dsimp only
      rw [if_pos hlimit]
      rfl
  | @advance fired _ delay s mid s' first more hdelay hfired hfirst _ ih =>
    obtain ⟨least, hmore⟩ := ih
    refine ⟨max first.length least + 1, fun fuel hfuel => ?_⟩
    obtain ⟨fuel, rfl⟩ := Nat.exists_eq_succ_of_ne_zero (Nat.ne_of_gt (Nat.zero_lt_of_lt hfuel))
    obtain ⟨hlength, hleast⟩ := Nat.max_lt.mp (Nat.lt_of_succ_lt_succ hfuel)
    have hadvance := advance_of_elapses (drains_of_advance hfirst) hlength
    rw [settle, get_bind, hdelay]
    dsimp only
    rw [if_neg (Nat.not_le_of_lt hfired)]
    exact bind_eq_some.mpr ⟨_, _, hadvance, bind_eq_some.mpr ⟨_, _, hmore fuel hleast, rfl⟩⟩

/-- With enough fuel, moving time until no timer is left is what it has to be. -/
theorem settle_eq_some_iff {fired : Nat} :
    (∃ fuel, host.settle fuel fired s = some (answers, s')) ↔ host.Settles fired s answers s' := by
  refine ⟨fun hrun => ?_, fun hrun => ?_⟩
  · obtain ⟨fuel, hrun⟩ := hrun
    exact settles_of_settle hrun
  · obtain ⟨least, hfuel⟩ := settle_of_settles hrun
    exact ⟨least + 1, hfuel _ (Nat.lt_succ_self least)⟩

end Runs

section Invariant

variable {σ τ ρ Account : Type} (host : ClockHost σ τ ρ) {P : σ → Account → Prop}
  {enter : Account → ρ → Account}
  (hclock : ∀ {s account} (clock : Clock τ), P s account → P (host.setClock clock s) account)
  (hfire : ∀ {s account task answer s'}, P s account → host.fire task s = some (answer, s') →
    P s' (enter account answer))

include hclock hfire

/-- What holds after the timers that are due by some time. -/
theorem drains_holds {target : Nat} {s s' : σ} {account : Account} {answers : List ρ} (h : P s account)
    (hrun : host.Drains target s answers s') : P s' (answers.foldl enter account) := by
  induction hrun generalizing account with
  | none _ => exact h
  | fire _ hfirst _ ih => exact ih (hfire (hclock _ h) hfirst)

/-- What holds after time has moved forward. -/
theorem advance_holds {fuel milliseconds : Nat} {s s' : σ} {account : Account} {answers : List ρ}
    (h : P s account) (hrun : host.advance fuel milliseconds s = some (answers, s')) :
    P s' (answers.foldl enter account) := by
  obtain ⟨mid, hfired, rfl⟩ := drains_of_advance hrun
  exact hclock _ (drains_holds host hclock hfire h hfired)

/-- What holds after time has moved until no timer is left. -/
theorem settle_holds {fuel fired : Nat} {s s' : σ} {account : Account} {answers : List ρ}
    (h : P s account) (hrun : host.settle fuel fired s = some (answers, s')) :
    P s' (answers.foldl enter account) := by
  replace hrun := settles_of_settle hrun
  induction hrun generalizing account with
  | stop _ => exact h
  | advance _ _ hfirst _ ih =>
    rw [List.foldl_append]
    exact ih (advance_holds host hclock hfire h hfirst)

end Invariant

end ClockHost

end ReactiveTemplate
