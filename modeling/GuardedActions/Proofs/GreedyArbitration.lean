import GuardedActions.Proofs.MutualExclusion

/-!
# Arbitration in static priority order

Arbitration works inside the clusters of the conflict relation, with local positions, neighbour masks
and a priority encoder.  It comes to the same as one scan of all transactions, best rank first.
-/

set_option autoImplicit false

namespace GuardedActions

variable {σ : Type}

/-- Runnable transactions of which no two conflict. -/
structure Ranking.Compatible (ranking : Ranking) (runnable : Mask) (granted : Set Nat) : Prop where
  /-- they are transactions of the order -/
  ordered : ∀ t ∈ granted, t ∈ ranking.order
  /-- they are runnable -/
  runnable : ∀ t ∈ granted, runnable.test t = true
  /-- no two of them conflict -/
  apart : ∀ a ∈ granted, ∀ b ∈ granted, ranking.conflict a b = false

/-- Every runnable transaction that is not granted conflicts with a granted one of strictly better
rank. -/
def Registry.LosersBeaten (r : Registry σ) (ranking : Ranking) (runnable : Mask)
    (granted : Set Nat) : Prop :=
  ∀ t ∈ ranking.order, runnable.test t = true → t ∉ granted →
    ∃ w ∈ granted, ranking.conflict t w = true ∧ r.Outranks w t

/-- The transactions that arbitration grants for a set of runnable ones. -/
structure Registry.GrantsGreedily (r : Registry σ) (plan : Plan) (runnable : Mask)
    (granted : Set Nat) : Prop where
  /-- they are those that the scan grants -/
  greedy : ∀ t, t ∈ granted ↔ t ∈ plan.ranking.greedy runnable
  /-- they are as many as can be granted together -/
  maximal : Maximal (plan.ranking.Compatible runnable) granted
  /-- all others have lost to a better one -/
  beaten : r.LosersBeaten plan.ranking runnable granted
  /-- no other set is like that -/
  unique : ∀ other : Set Nat, plan.ranking.Compatible runnable other →
    r.LosersBeaten plan.ranking runnable other → other = granted

/-- The order of a plan lists the transactions once, best rank first. -/
structure Registry.PriorityOrder (r : Registry σ) (order : List Nat) : Prop where
  /-- the transactions are listed -/
  mem : ∀ t, t ∈ order ↔ (r.transaction? t).isSome
  /-- none is listed twice -/
  nodup : order.Nodup
  /-- higher priority comes first, and the smaller name among equals -/
  ranked : order.Pairwise r.Outranks

namespace Registry.Elaborated

variable {r : Registry σ} {plan : Plan}

theorem selection_iff {runnable : Mask} {granted : Set Nat} :
    Selection r plan.ranking (· ∈ plan.order) runnable (· ∈ granted) ↔
      plan.ranking.Compatible runnable granted ∧
        r.LosersBeaten plan.ranking runnable granted := by
  constructor
  · intro hsel
    refine ⟨⟨fun t ht => (hsel.within ht).1, fun t ht => (hsel.within ht).2,
      fun a ha b hb => hsel.apart ha hb⟩, ?_⟩
    intro t ht hrunnable hlost
    exact hsel.beaten ht hrunnable hlost
  · rintro ⟨hcompatible, hbeaten⟩
    exact ⟨fun ht => ⟨hcompatible.ordered _ ht, hcompatible.runnable _ ht⟩,
      fun ha hb => hcompatible.apart _ ha _ hb, fun ht hrunnable hlost =>
        hbeaten _ ht hrunnable hlost⟩

/-- A set in which every loser is beaten cannot be enlarged. -/
theorem maximal_of_losersBeaten {runnable : Mask} {granted : Set Nat}
    (hcompatible : plan.ranking.Compatible runnable granted)
    (hbeaten : r.LosersBeaten plan.ranking runnable granted) :
    Maximal (plan.ranking.Compatible runnable) granted := by
  refine ⟨hcompatible, fun larger hlarger hsub t ht => ?_⟩
  by_contra hlost
  obtain ⟨w, hw, hconflict, -⟩ := hbeaten t (hlarger.ordered t ht) (hlarger.runnable t ht) hlost
  rw [hlarger.apart t ht w (hsub hw)] at hconflict
  cases hconflict

theorem grantsGreedily (h : r.Elaborated plan) (runnable : Mask) :
    r.GrantsGreedily plan runnable {t | t ∈ plan.winners runnable} := by
  have hsel : Selection r plan.ranking (· ∈ plan.order) runnable
      (· ∈ {t | t ∈ plan.winners runnable}) := h.selection_winners runnable
  obtain ⟨hcompatible, hbeaten⟩ := selection_iff.mp hsel
  refine ⟨h.mem_winners_iff runnable, maximal_of_losersBeaten hcompatible hbeaten, hbeaten, ?_⟩
  intro other hother hotherBeaten
  refine Set.ext fun t => ?_
  exact h.selection_unique (fun ht => ht) (selection_iff.mpr ⟨hother, hotherBeaten⟩) hsel t

end Registry.Elaborated

/-- For every set of runnable transactions, arbitration grants what a scan of all transactions in
priority order grants; this is the only set of runnable transactions without conflicts whose losers
are all beaten by better ones.  The rounds of every cluster come to an end for all candidates, and a
schedule grants the transactions that arbitration picks. -/
theorem Design.Built.arbitration_greedy {d : Design σ} {plan : Plan} (built : d.Built)
    (hplan : d.main.plan = some plan) :
    d.main.PriorityOrder plan.order ∧
      (∀ runnable : Mask,
        d.main.GrantsGreedily plan runnable {t | t ∈ plan.winners runnable}) ∧
      (∀ c ∈ plan.clusters, ∀ candidates : Mask, candidates.size = c.members.length →
        c.Runs candidates (c.pick c.members.length candidates)) ∧
      ∀ (m : Machine σ) (s : Schedule), m.design = d → m.schedule = .ok s →
        ∀ t, (d.main.transaction? t).isSome →
          (s.granted.test t = true ↔ t ∈ plan.winners s.runnable) := by
  have h := built.elaborated hplan
  refine ⟨⟨fun t => h.mem_order, h.nodup_order, h.ranked⟩, h.grantsGreedily, ?_, ?_⟩
  · intro c _ candidates hsize
    refine c.runs_pick _ _ ?_
    rw [← hsize]
    exact Cluster.count_le_size candidates
  · intro m s hdesign hs t ht
    subst hdesign
    exact (Machine.schedules_of_schedule h hplan hs).transaction ht

/-- If all transactions of the accumulator can run, the second of the order loses. -/
theorem Accumulator.grants_greedily : design.main.plan = some plan ∧
    design.main.GrantsGreedily plan ⟨[true, true, true, true, true]⟩
      {t | t ∈ plan.winners ⟨[true, true, true, true, true]⟩} ∧
    plan.winners ⟨[true, true, true, true, true]⟩ = [2, 4] := by
  obtain ⟨-, hgreedy, -⟩ := built.arbitration_greedy plan_eq
  exact ⟨plan_eq, hgreedy _, by cbv⟩

end GuardedActions
