import GuardedActions.Bench.Ask
import GuardedActions.Bench.Build
import GuardedActions.Bench.Run

/-!
# Scenarios

A scenario runs steps one after the other on a fresh testbench and collects their answers; the first
fault ends it.
-/

set_option autoImplicit false

namespace GuardedActions.Bench

/-- Take a step. -/
def step (b : Bench) : Step → Except Fault (Answer × Bench)
  | .build s => b.build s
  | .run s withState => b.perform withState s
  | .ask s => b.answer s

/-- The answers to some steps, up to and including the first fault. -/
def answers (b : Bench) : List Step → List (Except Fault Answer)
  | [] => []
  | s :: rest =>
    match b.step s with
    | .error fault => [.error fault]
    | .ok (answer, b) => .ok answer :: answers b rest

/-- The answers to some steps on a fresh testbench. -/
def scenario (steps : List Step) : List (Except Fault Answer) := answers {} steps

end GuardedActions.Bench
