import ReactiveTemplate.Clock.Host
import ReactiveTemplate.Clock.Scheduler

/-!
# Scripts for a clock

A script drives one clock and the schedulers on it, which are counted from zero. Its callbacks leave
their label and the time in a log, and then follow a script of their own, which may do anything the
outer one may.
-/

namespace ReactiveTemplate.ClockScript

/-- A step of a script. -/
inductive Step where
  | timeout (delay : Nat) (label : String) (andThen : List Step)
  | request (scheduler : Nat) (label : String) (andThen : List Step)
  /-- A timer that registers itself again whenever it fires. -/
  | loop (delay : Nat)
  | advance (milliseconds : Nat)
  | idle
  | clear
  | look

/-- What a timer does. -/
inductive Task where
  | callback (label : String) (steps : List Step)
  /-- A callback that stands for the pending request of a scheduler. -/
  | requested (scheduler : Nat) (label : String) (steps : List Step)
  | loop (delay : Nat)

/-- What a step answers. -/
inductive Reply where
  | nothing
  | armed (new : Bool)
  | fired (count : Nat)
  deriving DecidableEq, Repr

/-- The clock and the schedulers, and what callbacks logged with the time. -/
structure State where
  clock : Clock Task
  schedulers : List Scheduler
  log : List (String × Nat)

/-- The state at time zero, with a scheduler for each delay. -/
def State.start (intervals : List Nat) : State :=
  ⟨.start, intervals.map .every, []⟩

/-- A step that the fuel may not be enough for. -/
abbrev Run (α : Type) := StateT State Option α

/-- Registers a task. -/
def register (delay : Nat) (task : Task) : Run Unit :=
  modify fun s => { s with clock := s.clock.after delay task }

/-- Requests something of a scheduler, and says whether a timer was armed for it. -/
def request (n : Nat) (label : String) (andThen : List Step) : Run Bool := do
  match (← get).schedulers[n]? with
  | none => pure false
  | some scheduler =>
    let (new, scheduler) := scheduler.request
    modify fun s => { s with schedulers := s.schedulers.set n scheduler }
    if new then register scheduler.interval (.requested n label andThen)
    pure new

/-- Does a step; `host` runs the tasks of timers. -/
def perform (host : ClockHost State Task Unit) (fuel : Nat) : Step → Run Reply
  | .timeout delay label andThen => do
    register delay (.callback label andThen)
    pure .nothing
  | .request n label andThen => do pure (.armed (← request n label andThen))
  | .loop delay => do
    register delay (.loop delay)
    pure .nothing
  | .advance milliseconds => do pure (.fired (← host.advance fuel milliseconds).length)
  | .idle => do pure (.fired (← host.settle fuel 0).length)
  | .clear => do
    modify fun s => { s with clock := s.clock.clear }
    pure .nothing
  | .look => pure .nothing

/-- Does steps without regard to their answers. -/
def performAll (host : ClockHost State Task Unit) (fuel : Nat) : List Step → Run Unit
  | [] => pure ()
  | step :: rest => do
    let _ ← perform host fuel step
    performAll host fuel rest

/-- Leaves a label and the time in the log. -/
def note (label : String) : Run Unit :=
  modify fun s => { s with log := s.log ++ [(label, s.clock.now)] }

/-- The host whose callbacks nest at most `fuel` deep. -/
def host (fuel : Nat) : ClockHost State Task Unit where
  clock := State.clock
  setClock clock s := { s with clock }
  fire := fire fuel
where
  /-- Runs a task. -/
  fire : Nat → Task → Run Unit
    | 0, _ => fun _ => none
    | fuel + 1, task =>
      let inner : ClockHost State Task Unit :=
        { clock := State.clock, setClock := fun clock s => { s with clock }, fire := fire fuel }
      match task with
      | .callback label steps => do
        note label
        performAll inner fuel steps
      | .requested n label steps => do
        modify fun s => { s with schedulers := s.schedulers.modify n Scheduler.fired }
        note label
        performAll inner fuel steps
      | .loop delay => register delay (.loop delay)

/-- Does a step with fuel for its loops and for the nesting of callbacks. -/
def run (fuel : Nat) (step : Step) : Run Reply :=
  perform (host fuel) fuel step

end ReactiveTemplate.ClockScript
