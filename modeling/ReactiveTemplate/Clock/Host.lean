import ReactiveTemplate.Clock.Basic

/-!
# Running a clock

A host is a state that contains a clock and knows how to run the tasks of its timers. Tasks may
register timers and move the clock themselves, so a run need not end: it is given fuel, and `none`
means that the fuel did not last. More fuel never changes an answer that was reached.
-/

namespace ReactiveTemplate

/-- A state `σ` with a clock in it, and the effect of the tasks of its timers; `ρ` is what comes of a
task. -/
structure ClockHost (σ τ ρ : Type) where
  clock : σ → Clock τ
  setClock : Clock τ → σ → σ
  fire : τ → StateT σ Option ρ

namespace ClockHost

variable {σ τ ρ : Type}

/-- Fires timers as long as one is due by `target`; gives what came of each. -/
def drain (host : ClockHost σ τ ρ) (target : Nat) : (fuel : Nat) → StateT σ Option (List ρ)
  | 0 => fun _ => none
  | fuel + 1 => do
    match (host.clock (← get)).popDue? target with
    | none => pure []
    | some (task, clock) =>
      modify (host.setClock clock)
      let first ← host.fire task
      let more ← drain host target fuel
      pure (first :: more)

/-- Moves time forward, firing every timer due on the way; gives what came of each. -/
def advance (host : ClockHost σ τ ρ) (fuel milliseconds : Nat) : StateT σ Option (List ρ) := do
  let target := (host.clock (← get)).now + milliseconds
  let fired ← host.drain target fuel
  modify fun state => host.setClock ((host.clock state).setTime target) state
  pure fired

/-- A run to idleness is given up once so many timers have fired. -/
def idleLimit : Nat := 10000

/-- Moves time to one deadline after another until no timer is left; gives what came of each. `fired`
counts those that fired before. -/
def settle (host : ClockHost σ τ ρ) : (fuel fired : Nat) → StateT σ Option (List ρ)
  | 0, _ => fun _ => none
  | fuel + 1, fired => do
    match (host.clock (← get)).untilNext? with
    | none => pure []
    | some delay =>
      if idleLimit ≤ fired then pure []
      else
        let first ← host.advance fuel delay
        let more ← settle host fuel (fired + first.length)
        pure (first ++ more)

end ClockHost

end ReactiveTemplate
