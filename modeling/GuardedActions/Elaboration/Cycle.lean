import GuardedActions.Design

/-!
# Cycles in the call graph

A depth-first search from every action in turn.  A call back to an action on the current path closes
a cycle, which is reported as the part of the path from that action on.  The depth of the search is
bounded by a fuel that the number of actions suffices for.
-/

set_option autoImplicit false

namespace GuardedActions

namespace Cycle

/-- Why a search stopped early. -/
inductive Stop where
  /-- a closed walk: the first action again at the end -/
  | cycle (path : List Nat)
  /-- the search went deeper than its fuel allows -/
  | exhausted
  deriving DecidableEq, Repr, Inhabited

/-- The cycle that a call to `callee` closes; `path` is the current path, latest action first. -/
def close (callee : Nat) (path : List Nat) : List Nat :=
  callee :: (path.takeWhile (· ≠ callee)).reverse ++ [callee]

/-- Search from an action that is neither on the path nor finished.  Returns the finished actions. -/
def visit (next : Nat → List Nat) :
    (fuel : Nat) → (path : List Nat) → (action : Nat) → (finished : List Nat) →
      Except Stop (List Nat)
  | 0, _, _, _ => .error .exhausted
  | fuel + 1, path, action, finished => do
    let finished ← (next action).foldlM
      (fun finished callee =>
        if callee ∈ finished then .ok finished
        else if callee ∈ action :: path then .error (.cycle (close callee (action :: path)))
        else visit next fuel (action :: path) callee finished)
      finished
    .ok (action :: finished)

/-- Search from each of the given actions that is not finished yet. -/
def visitAll (next : Nat → List Nat) (fuel : Nat) (actions : List Nat) :
    Except Stop (List Nat) :=
  actions.foldlM
    (fun finished action =>
      if action ∈ finished then .ok finished else visit next fuel [] action finished)
    []

end Cycle

namespace Registry

variable {σ : Type}

/-- The refusal of a cycle, given as a closed walk. -/
def cycleRefusal (r : Registry σ) (path : List Nat) : Refusal where
  subject := r.nameOf (path.head?.getD 0)
  category := .cyclicCallGraph
  details := " -> ".intercalate (path.map r.nameOf)
  reason := "a method may not reach itself through calls"
  solution := "break the cycle"

/-- The refusal when a search runs out of fuel, which no call graph brings about. -/
def searchExhausted : Refusal where
  subject := "scheduler"
  category := .custom
  label := "search exhausted"

/-- No action reaches itself through calls. -/
def checkAcyclic (r : Registry σ) : Except Refusal Unit :=
  match Cycle.visitAll r.callees (r.actions.length + 1) r.ids with
  | .ok _ => .ok ()
  | .error (.cycle path) => .error (r.cycleRefusal path)
  | .error .exhausted => .error searchExhausted

end Registry

end GuardedActions
