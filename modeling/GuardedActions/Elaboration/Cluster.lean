import GuardedActions.Elaboration.Conflict

/-!
# Clusters and caller order

The clusters are the connected components of the conflict relation, found from the best transaction
of each and listed best priority first.  The call sites of a method are ordered by the best rank of a
transaction that reaches their caller.
-/

set_option autoImplicit false

namespace GuardedActions

namespace Cluster

/-- Everything that can be reached from the actions in the queue. -/
def spread (next : Nat → List Nat) : (fuel : Nat) → (queue : List Nat) → (seen : Mask) → Mask
  | _, [], seen => seen
  | 0, _ :: _, seen => seen
  | fuel + 1, a :: queue, seen =>
    let fresh := (next a).filter fun b => !seen.test b
    spread next fuel (queue ++ fresh) (fresh.foldl Mask.insert seen)

/-- The cluster of the given members. -/
def ofMembers (ranking : Ranking) (members : List Nat) : Cluster :=
  ⟨members, members.map fun a =>
    Mask.ofTest members.length fun j => (members[j]?).any (ranking.conflict a)⟩

/-- The clusters of the transactions in the list that no earlier cluster contains. -/
def collect (ranking : Ranking) (size : Nat) : List Nat → (assigned : Mask) → List Cluster
  | [], _ => []
  | t :: rest, assigned =>
    if assigned.test t then collect ranking size rest assigned
    else
      let next a := (ranking.conflicts[a]?.getD (Mask.none 0)).members
      let reached := spread next size [t] ((Mask.none size).insert t)
      ofMembers ranking (ranking.order.filter reached.test) ::
        collect ranking size rest (reached.members.foldl Mask.insert assigned)

end Cluster

namespace Registry

variable {σ : Type}

/-- The clusters of the transactions. -/
def clusters (r : Registry σ) (ranking : Ranking) : List Cluster :=
  Cluster.collect ranking r.actions.length ranking.order (Mask.none r.actions.length)

/-- The rank given to a call site that no transaction reaches. -/
def unreachedRank : Nat := UInt32.size - 1

/-- The best rank of a transaction that reaches the caller of a call site.  A position that is no call
site has rank 0. -/
def rankOfSite (r : Registry σ) (closure : Nat → Mask) (order : List Nat) (site : Nat) : Nat :=
  match r.sites[site]? with
  | none => 0
  | some s => (order.findIdx? fun t => (closure t).test s.caller).getD unreachedRank

/-- The call sites that target a method, best rank first and then by position. -/
def rankedCallers (r : Registry σ) (closure : Nat → Mask) (order : List Nat) (id : Nat) : List Nat :=
  let rank := r.rankOfSite closure order
  (((r.method? id).map fun m => m.callers.map SiteRef.id).getD []).mergeSort fun a b =>
    decide (rank a < rank b) || (rank a == rank b && decide (a ≤ b))

end Registry

end GuardedActions
