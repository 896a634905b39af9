import GuardedActions.Encoder
import GuardedActions.Plan

/-!
# Arbitration

The third phase of scheduling.  Inside every cluster the best runnable transaction is granted and its
neighbours are out of the running, until nobody is left.
-/

set_option autoImplicit false

namespace GuardedActions

namespace Cluster

/-- The positions of the members that could run. -/
def candidates (c : Cluster) (runnable : Mask) : Mask :=
  Mask.ofTest c.members.length fun i => (c.members[i]?).any runnable.test

/-- The positions granted out of some candidates.  Every round takes at least one candidate away, so
that one round per member is enough. -/
def pick (c : Cluster) : (rounds : Nat) → (candidates : Mask) → List Nat
  | 0, _ => []
  | rounds + 1, candidates =>
    match Encoder.lowest candidates with
    | none => []
    | some winner =>
      winner :: c.pick rounds
        ((candidates.put winner false).without (c.neighbours[winner]?.getD (Mask.none 0)))

/-- The transactions of the cluster that are granted. -/
def winners (c : Cluster) (runnable : Mask) : List Nat :=
  (c.pick c.members.length (c.candidates runnable)).filterMap fun i => c.members[i]?

end Cluster

/-- The transactions that arbitration grants. -/
def Plan.winners (p : Plan) (runnable : Mask) : List Nat :=
  p.clusters.flatMap fun c => c.winners runnable

end GuardedActions
