import GuardedActions.Elaboration.Cluster
import GuardedActions.Elaboration.Definition

/-!
# Elaboration

Elaboration checks the main registry of a design and, if all is well, gives it a plan.  The checks
run in a fixed order and the first one that fails decides the refusal.  A failed elaboration leaves the
registry as it was, except that the order and conflicts it got to can be looked at.
-/

set_option autoImplicit false

namespace GuardedActions

namespace Registry

variable {σ : Type}

/-- The refusal of a second elaboration. -/
def alreadyElaborated : Refusal where
  subject := "scheduler"
  category := .alreadyElaborated
  details := "elaborate() called twice"
  solution := "elaborate once before the first cycle"

/-- Look up one of the closures. -/
def closureIn (closures : List Mask) (t : Nat) : Mask := closures[t]?.getD (Mask.none 0)

/-- The ranking that an elaboration with the given closures leaves behind, and the plan or the error
that it ends with. -/
def planWith (r : Registry σ) (closures : List Mask) : Ranking × Except Refusal Plan :=
  let closure := closureIn closures
  let order := r.staticOrder
  match r.checkConflictEnds closure with
  | .error error => (⟨order, r.emptyRows⟩, .error error)
  | .ok () =>
    let ranking : Ranking := ⟨order, r.conflictRows closure⟩
    match r.checkTies closure order with
    | .error error => (ranking, .error error)
    | .ok () =>
      (ranking, .ok
        { closures := closures
          ranking := ranking
          clusters := r.clusters ranking
          callers := r.ids.map (r.rankedCallers closure order) })

end Registry

namespace Design

variable {σ : Type}

/-- The checks that come before closures, and the closures. -/
def analyse (d : Design σ) : Except Refusal (List Mask) := do
  d.main.checkNames
  d.main.checkBodies
  d.checkSites
  d.main.checkAcyclic
  d.main.closures

/-- Elaborate the main registry. -/
def elaborate (d : Design σ) : Design σ × Except Refusal Unit :=
  if d.main.isFrozen then (d, .error Registry.alreadyElaborated)
  else
    match d.analyse with
    | .error error => (d, .error error)
    | .ok closures =>
      match d.main.planWith closures with
      | (ranking, .error error) =>
        ({ d with main := { d.main with ranking := ranking } }, .error error)
      | (ranking, .ok plan) =>
        ({ d with main := { d.main with ranking := ranking, plan := some plan } }, .ok ())

end Design

end GuardedActions
