import GuardedActions.Mask

/-!
# Elaborated plans

What elaboration works out once and every cycle uses: the closures of the transactions, their static
priority order, the conflict relation, its connected components, and the order in which the call
sites of a method are considered.
-/

set_option autoImplicit false

namespace GuardedActions

/-- A connected component of the conflict relation. -/
structure Cluster where
  /-- transactions of the component, best priority first -/
  members : List Nat
  /-- for every member, the positions of the members it conflicts with -/
  neighbours : List Mask
  deriving DecidableEq, Repr, Inhabited

/-- The static order of transactions and their conflicts. -/
structure Ranking where
  /-- transactions, best priority first -/
  order : List Nat := []
  /-- for every action, the transactions it conflicts with -/
  conflicts : List Mask := []
  deriving DecidableEq, Repr, Inhabited

/-- The outcome of elaboration. -/
structure Plan where
  /-- for every transaction, the actions it reaches through calls, itself included -/
  closures : List Mask
  /-- order and conflicts of the transactions -/
  ranking : Ranking
  /-- connected components of the conflict relation -/
  clusters : List Cluster
  /-- for every method, the call sites that target it, best rank first -/
  callers : List (List Nat)
  deriving DecidableEq, Repr, Inhabited

namespace Ranking

/-- Whether two transactions conflict. -/
def conflict (r : Ranking) (a b : Nat) : Bool := (r.conflicts[a]?.getD (Mask.none 0)).test b

/-- Position of a transaction in the priority order. -/
def rank? (r : Ranking) (t : Nat) : Option Nat := r.order.findIdx? (· == t)

end Ranking

namespace Plan

/-- The actions that a transaction reaches. -/
def closure (p : Plan) (t : Nat) : Mask := p.closures[t]?.getD (Mask.none 0)

/-- The call sites of a method, best rank first. -/
def callersOf (p : Plan) (method : Nat) : List Nat := p.callers[method]?.getD []

/-- Transactions, best priority first. -/
def order (p : Plan) : List Nat := p.ranking.order

end Plan

end GuardedActions
