/-!
# Virtual clocks

A clock holds a time and the timers that wait for a later one. Time moves only when the clock is told
to. Timers fire in the order of their deadlines, those of one deadline in the order of registration.

`τ` is the type of the tasks that timers carry.

Times, delays and registration numbers are natural numbers without a bound. A clock keeps them in 64 bits, and nothing
is said here of one that comes to the end of these: every time and number below is taken to stay under 2^64. Left out
are clocks that real time moves, and what a run writes to a log when it stops before the clock is idle.
-/

namespace ReactiveTemplate

/-- A task that waits for a time; `number` counts registrations. -/
structure Timer (τ : Type) where
  deadline : Nat
  number : Nat
  task : τ
  deriving Repr

/-- A time in milliseconds, the number of timers registered so far, and the timers that wait, in the
order in which they fire. -/
structure Clock (τ : Type) where
  now : Nat
  registered : Nat
  timers : List (Timer τ)
  deriving Repr

namespace Clock

variable {τ : Type}

/-- The clock at time zero without timers. -/
def start : Clock τ := ⟨0, 0, []⟩

/-- The timers with one more, behind those that are due no later. -/
def place (timer : Timer τ) : List (Timer τ) → List (Timer τ)
  | [] => [timer]
  | first :: rest =>
    if first.deadline ≤ timer.deadline then first :: place timer rest else timer :: first :: rest

/-- The clock with a task to be run after a delay. -/
def after (c : Clock τ) (delay : Nat) (task : τ) : Clock τ :=
  { c with
    registered := c.registered + 1
    timers := place ⟨c.now + delay, c.registered, task⟩ c.timers }

/-- The time until the next timer fires; none is left of it once its deadline has passed. -/
def untilNext? (c : Clock τ) : Option Nat :=
  c.timers.head?.map (·.deadline - c.now)

/-- The task of the next timer if it is due by `target`, and the clock at the time it fires. -/
def popDue? (c : Clock τ) (target : Nat) : Option (τ × Clock τ) :=
  match c.timers with
  | [] => none
  | timer :: rest =>
    if timer.deadline ≤ target then
      some (timer.task, { c with now := max c.now timer.deadline, timers := rest })
    else none

/-- The clock without timers. -/
def clear (c : Clock τ) : Clock τ :=
  { c with timers := [] }

/-- The clock at a time. -/
def setTime (c : Clock τ) (now : Nat) : Clock τ :=
  { c with now }

end Clock

end ReactiveTemplate
