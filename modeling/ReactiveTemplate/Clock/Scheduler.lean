/-!
# Schedulers

A scheduler lets requests come together: while one is pending, further ones are absorbed. The request
that is taken arms a timer, and stops being pending just before the timer's task runs. Delays are whole milliseconds
without a bound; what a clock does with one that does not fit into 64 bits is left out.
-/

namespace ReactiveTemplate

/-- The delay of a scheduler in milliseconds, and whether a request is pending. -/
structure Scheduler where
  interval : Nat
  pending : Bool
  deriving DecidableEq, Repr

namespace Scheduler

/-- The delay if none is given. -/
def defaultInterval : Nat := 10

/-- The scheduler with a delay and nothing pending. -/
def every (interval : Nat) : Scheduler :=
  ⟨interval, false⟩

/-- A request: whether a timer is to be armed for it, and the scheduler after it. -/
def request (s : Scheduler) : Bool × Scheduler :=
  (!s.pending, { s with pending := true })

/-- The scheduler when its timer fires. -/
def fired (s : Scheduler) : Scheduler :=
  { s with pending := false }

end Scheduler

end ReactiveTemplate
