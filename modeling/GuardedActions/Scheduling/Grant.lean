import GuardedActions.Scheduling.Activation

/-!
# Grants

The last phase of scheduling.  Granted transactions grant the active calls below them; a method that
is granted already is not descended into again.  Of the granted calls of a method the first in caller
order drives it.
-/

set_option autoImplicit false

namespace GuardedActions

/-- Granted actions and call sites. -/
structure Grants where
  /-- granted actions -/
  actions : Mask
  /-- granted call sites -/
  sites : Mask
  deriving DecidableEq, Repr, Inhabited

namespace Machine

variable {σ : Type}

/-- Grant the active calls of an action and everything below them.  The fuel bounds the nesting of
calls. -/
def grantFrom (m : Machine σ) (active : Mask) :
    (fuel : Nat) → (action : Nat) → Grants → Except Fault Grants
  | 0, _, _ => .error .nestingLimit
  | fuel + 1, action, g =>
    (m.design.main.sitesOf action).foldlM
      (fun g s =>
        if active.test s.1 then
          let callee := s.2.callee.id
          let g : Grants := { g with sites := g.sites.insert s.1 }
          if g.actions.test callee then .ok g
          else m.grantFrom active fuel callee { g with actions := g.actions.insert callee }
        else .ok g)
      g

/-- Grant everything below the granted transactions, best priority first. -/
def grantAll (m : Machine σ) (active : Mask) (order winners : List Nat) : Except Fault Grants :=
  let start : Grants :=
    ⟨winners.foldl Mask.insert (Mask.none m.design.main.actions.length),
      Mask.none m.design.main.sites.length⟩
  order.foldlM
    (fun g t => if g.actions.test t then m.grantFrom active m.callDepth t g else .ok g)
    start

/-- The call site that drives a method, if the method is granted. -/
def selectCaller (m : Machine σ) (plan : Plan) (g : Grants) (id : Nat) : Option Nat :=
  if (m.design.main.method? id).isSome && g.actions.test id then
    (plan.callersOf id).find? g.sites.test
  else none

end Machine

end GuardedActions
