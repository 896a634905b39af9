import GuardedActions.Proofs.Scheduling.Arbitration
import Mathlib

/-!
# Clusters are the connected components of the conflicts

Elaboration floods the conflict relation from every transaction that no earlier flood has reached
(`Cluster.Collected`).  So it finds the connected components of the graph of conflicts, each once, and lists the
members of each by rank, which is a strict total order (`Registry.StrictlyRanked`).  The neighbours of a member are
the places of the members that it conflicts with (`Registry.ConflictComponents`).
-/

set_option autoImplicit false

namespace GuardedActions

namespace Cluster

variable {ranking : Ranking} {c : Cluster}

/-- Whether one position of a cluster is a neighbour of another. -/
def neighbour (c : Cluster) (i j : Nat) : Bool := (c.neighbours[i]?.getD (Mask.none 0)).test j

theorem Component.neighbour_iff (h : c.Component ranking) {i j a b : Nat} (ha : c.members[i]? = some a)
    (hb : c.members[j]? = some b) : c.neighbour i j = true ↔ ranking.conflict a b = true := by
  unfold neighbour
  rw [h.made]
  rw [neighbours_ofMembers ha]
  constructor
  · rintro ⟨b', hb', hconflict⟩
    obtain rfl := Option.some.inj (hb.symm.trans hb')
    exact hconflict
  · exact fun hconflict => ⟨b, hb, hconflict⟩

end Cluster

/-! ## Ranks -/

namespace Registry

variable {σ : Type} {r : Registry σ} {plan : Plan}

/-- Better static ranks make a strict order. -/
theorem Outranks.trans {a b c : Nat} (hab : r.Outranks a b) (hbc : r.Outranks b c) : r.Outranks a c := by
  obtain ⟨x, y, hx, hy, hxy⟩ := hab
  obtain ⟨y', z, hy', hz, hyz⟩ := hbc
  obtain rfl : y = y' := Option.some.inj (hy.symm.trans hy')
  refine ⟨x, z, hx, hz, ?_⟩
  rcases hxy with hxy | ⟨hxy, hname⟩
  · rcases hyz with hyz | ⟨hyz, -⟩
    · exact .inl (by omega)
    · exact .inl (by omega)
  · rcases hyz with hyz | ⟨hyz, hname'⟩
    · exact .inl (by omega)
    · exact .inr ⟨hxy.trans hyz, String.lt_trans hname hname'⟩

/-- The transactions of a registry. -/
abbrev Vertex (r : Registry σ) : Type := {t : Nat // (r.transaction? t).isSome}

/-- The graph of conflicts: its edges are the pairs of transactions that compete. -/
def conflictGraph (r : Registry σ) : SimpleGraph r.Vertex where
  Adj a b := r.Competes a b
  symm := ⟨fun _ _ => Competes.symm⟩
  loopless := ⟨fun _ h => h.1 rfl⟩

/-- The ranks of a plan are the places of the transactions in a strict total order, by priority first, the
higher before the lower, and by name second. -/
structure StrictlyRanked (r : Registry σ) (plan : Plan) : Prop where
  /-- a better static rank is a strict total order of the transactions -/
  order : IsStrictTotalOrder r.Vertex fun a b => r.Outranks a b
  /-- every transaction has a rank, and nothing else has one -/
  ranked : ∀ {t : Nat}, (plan.ranking.rank? t).isSome ↔ (r.transaction? t).isSome
  /-- a rank is a place -/
  place : ∀ {t i : Nat}, plan.ranking.rank? t = some i ↔ plan.order[i]? = some t
  /-- the better transaction has the lower rank -/
  better : ∀ {a b i j : Nat}, plan.ranking.rank? a = some i → plan.ranking.rank? b = some j →
    (i < j ↔ r.Outranks a b)

/-- The neighbours in a cluster are the places of the members that compete with a member. -/
structure Neighbours (r : Registry σ) (c : Cluster) : Prop where
  /-- every member has a row -/
  rows : c.neighbours.length = c.members.length
  /-- a row has a bit for every member -/
  width : ∀ row ∈ c.neighbours, row.size = c.members.length
  /-- a bit tells whether two members compete -/
  bit : ∀ {i j a b : Nat}, c.members[i]? = some a → c.members[j]? = some b →
    (c.neighbour i j = true ↔ r.Competes a b)
  /-- bits are symmetric -/
  symm : ∀ i j, c.neighbour i j = c.neighbour j i
  /-- no member is its own neighbour -/
  diagonal : ∀ i, c.neighbour i i = false

/-- The clusters of a plan are the connected components of the graph of conflicts. -/
structure ConflictComponents (r : Registry σ) (plan : Plan) : Prop where
  /-- members are transactions -/
  member : ∀ c ∈ plan.clusters, ∀ t ∈ c.members, (r.transaction? t).isSome
  /-- every transaction is in just one cluster -/
  partition : ∀ {t : Nat}, (r.transaction? t).isSome →
    ∃! i : Fin plan.clusters.length, t ∈ plan.clusters[i].members
  /-- no cluster is empty -/
  nonempty : ∀ c ∈ plan.clusters, c.members ≠ []
  /-- members are what a path of conflicts joins with a member -/
  connected : ∀ c ∈ plan.clusters, ∀ a b : r.Vertex, a.1 ∈ c.members →
    (b.1 ∈ c.members ↔ r.conflictGraph.Reachable a b)
  /-- no conflict leads from one cluster to another -/
  apart : ∀ {i j : Fin plan.clusters.length}, ∀ a ∈ plan.clusters[i].members,
    ∀ b ∈ plan.clusters[j].members, r.Competes a b → i = j
  /-- there are as many clusters as components -/
  count : plan.clusters.length = Nat.card r.conflictGraph.ConnectedComponent
  /-- ranks increase along the members -/
  increasing : ∀ c ∈ plan.clusters, c.members.Pairwise fun a b =>
    ∃ i j, plan.ranking.rank? a = some i ∧ plan.ranking.rank? b = some j ∧ i < j
  /-- the neighbours are the places of competing members -/
  neighbours : ∀ c ∈ plan.clusters, r.Neighbours c

namespace Elaborated

/-- Of two places in the order the lower one holds the better transaction. -/
theorem outranks_iff (h : r.Elaborated plan) {a b i j : Nat} (ha : plan.order[i]? = some a)
    (hb : plan.order[j]? = some b) : i < j ↔ r.Outranks a b := by
  obtain ⟨hi, rfl⟩ := List.getElem?_eq_some_iff.mp ha
  obtain ⟨hj, rfl⟩ := List.getElem?_eq_some_iff.mp hb
  constructor
  · exact List.pairwise_iff_getElem.mp h.ranked i j hi hj
  · intro hab
    rcases Nat.lt_trichotomy i j with hlt | rfl | hlt
    · exact hlt
    · exact absurd hab hab.asymm
    · exact absurd hab (List.pairwise_iff_getElem.mp h.ranked j i hj hi hlt).asymm

theorem strictlyRanked (h : r.Elaborated plan) : r.StrictlyRanked plan where
  order :=
    { irrefl := fun _ haa => haa.asymm haa
      trans := fun _ _ _ hab hbc => hab.trans hbc
      trichotomous := by
        intro a b hab hba
        obtain ⟨i, hi⟩ := List.mem_iff_getElem?.mp (h.mem_order.mpr a.2)
        obtain ⟨j, hj⟩ := List.mem_iff_getElem?.mp (h.mem_order.mpr b.2)
        rw [← h.outranks_iff hi hj] at hab
        rw [← h.outranks_iff hj hi] at hba
        obtain rfl : i = j := by omega
        exact Subtype.ext (Option.some.inj (hi.symm.trans hj)) }
  ranked := Ranking.isSome_rank?.trans h.mem_order
  place := Ranking.rank?_eq_some h.nodup_order
  better := by
    intro a b i j ha hb
    exact h.outranks_iff ((Ranking.rank?_eq_some h.nodup_order).mp ha)
      ((Ranking.rank?_eq_some h.nodup_order).mp hb)

/-- A path of conflicts is a path in the graph. -/
theorem joined_iff_reachable (h : r.Elaborated plan) {a b : r.Vertex} :
    plan.ranking.Joined a b ↔ r.conflictGraph.Reachable a b := by
  constructor
  · suffices hall : ∀ x, plan.ranking.Joined a x → ∀ hx : (r.transaction? x).isSome,
        r.conflictGraph.Reachable a ⟨x, hx⟩ from fun hab => hall b hab b.2
    intro x hjoined
    induction hjoined with
    | refl => exact fun _ => .refl a
    | tail _ hconflict ih =>
      intro hx
      have hcompetes := h.conflict.mp hconflict
      have hedge : r.conflictGraph.Adj ⟨_, hcompetes.2.1⟩ ⟨_, hx⟩ := hcompetes
      exact (ih hcompetes.2.1).trans hedge.reachable
  · intro hreach
    rw [SimpleGraph.reachable_iff_reflTransGen] at hreach
    exact hreach.lift Subtype.val fun _ _ hedge => h.conflict.mpr hedge

/-- The conflicts of a plan are between its transactions. -/
theorem regular (h : r.Elaborated plan) : plan.ranking.Regular r.actions.length where
  nodup := h.nodup_order
  below := fun ht => lt_length_of_transaction? (h.mem_order.mp ht)
  listed := fun hconflict => h.mem_order.mpr (h.conflict.mp hconflict).2.2.1
  converse := h.conflict_symm

theorem neighbours (h : r.Elaborated plan) {c : Cluster} (hc : c.Component plan.ranking) :
    r.Neighbours c := by
  have hrows : c.neighbours.length = c.members.length := by
    rw [hc.made]
    exact List.length_map _
  -- outside the members there is no bit
  have hinside : ∀ {i j : Nat}, c.neighbour i j = true →
      ∃ a b, c.members[i]? = some a ∧ c.members[j]? = some b := by
    intro i j hbit
    cases ha : c.members[i]? with
    | none =>
      unfold Cluster.neighbour at hbit
      rw [List.getElem?_eq_none (by rw [hrows]; exact List.getElem?_eq_none_iff.mp ha)] at hbit
      exact absurd hbit (by simp [Mask.test_none])
    | some a =>
      unfold Cluster.neighbour at hbit
      rw [hc.made] at hbit
      obtain ⟨b, hb, -⟩ := (Cluster.neighbours_ofMembers ha j).mp hbit
      exact ⟨a, b, rfl, hb⟩
  have hsymm : ∀ {i j : Nat}, c.neighbour i j = true → c.neighbour j i = true := by
    intro i j hbit
    obtain ⟨a, b, ha, hb⟩ := hinside hbit
    exact (hc.neighbour_iff hb ha).mpr (h.conflict_symm ((hc.neighbour_iff ha hb).mp hbit))
  refine ⟨hrows, ?_, ?_, fun i j => Bool.eq_iff_iff.mpr ⟨hsymm, hsymm⟩, fun i => ?_⟩
  · intro row hrow
    rw [hc.made] at hrow
    obtain ⟨a, -, rfl⟩ := List.mem_map.mp hrow
    exact Mask.size_ofTest _ _
  · intro i j a b ha hb
    rw [hc.neighbour_iff ha hb, h.conflict]
  · cases hbit : c.neighbour i i with
    | false => rfl
    | true =>
      obtain ⟨a, -, ha, -⟩ := hinside hbit
      have hself := (hc.neighbour_iff ha ha).mp hbit
      rw [h.conflict_irrefl] at hself
      cases hself

/-- Components that have nothing in common with each other and leave no transaction out are the components
of the graph. -/
theorem conflictComponents (h : r.Elaborated plan)
    (hcomponents : ∀ c ∈ plan.clusters, c.Component plan.ranking)
    (hdisjoint : plan.clusters.Pairwise fun c c' => c.members.Disjoint c'.members) :
    r.ConflictComponents plan := by
  have hat : ∀ i : Fin plan.clusters.length, plan.clusters[i] ∈ plan.clusters := fun i =>
    List.getElem_mem i.2
  have hunique : ∀ {t : Nat} {i j : Fin plan.clusters.length}, t ∈ plan.clusters[i].members →
      t ∈ plan.clusters[j].members → i = j := by
    intro t i j hi hj
    rcases Nat.lt_trichotomy i.1 j.1 with hlt | heq | hlt
    · exact absurd hj (List.pairwise_iff_getElem.mp hdisjoint i j i.2 j.2 hlt hi)
    · exact Fin.ext heq
    · exact absurd hi (List.pairwise_iff_getElem.mp hdisjoint j i j.2 i.2 hlt hj)
  have hmember : ∀ c ∈ plan.clusters, ∀ t ∈ c.members, (r.transaction? t).isSome := fun c hc t ht =>
    h.mem_order.mp ((hcomponents c hc).sublist.subset ht)
  have hfound : ∀ {t : Nat}, (r.transaction? t).isSome →
      ∃ i : Fin plan.clusters.length, t ∈ plan.clusters[i].members := by
    intro t ht
    obtain ⟨c, hc, htc⟩ := h.covered ht
    obtain ⟨i, hi, rfl⟩ := List.mem_iff_getElem.mp hc
    exact ⟨⟨i, hi⟩, htc⟩
  have hconnected : ∀ c ∈ plan.clusters, ∀ a b : r.Vertex, a.1 ∈ c.members →
      (b.1 ∈ c.members ↔ r.conflictGraph.Reachable a b) := by
    intro c hc a b ha
    rw [(hcomponents c hc).mem_iff h.regular ha, h.joined_iff_reachable]
  refine ⟨hmember, ?_, fun c hc => (hcomponents c hc).nonempty, hconnected, ?_, ?_, ?_,
    fun c hc => h.neighbours (hcomponents c hc)⟩
  · intro t ht
    obtain ⟨i, hi⟩ := hfound ht
    exact ⟨i, hi, fun j hj => hunique hj hi⟩
  · intro i j a ha b hb hcompetes
    have hedge : r.conflictGraph.Adj ⟨a, hcompetes.2.1⟩ ⟨b, hcompetes.2.2.1⟩ := hcompetes
    exact hunique ((hconnected _ (hat i) _ _ ha).mpr hedge.reachable) hb
  · -- a cluster stands for the component of any of its members
    have hsome : ∀ i : Fin plan.clusters.length, ∃ v : r.Vertex, v.1 ∈ plan.clusters[i].members := by
      intro i
      obtain ⟨t, ht, -⟩ := (hcomponents _ (hat i)).root
      exact ⟨⟨t, hmember _ (hat i) t ht⟩, ht⟩
    choose pick hpick using hsome
    have hbijective : Function.Bijective fun i => r.conflictGraph.connectedComponentMk (pick i) := by
      constructor
      · intro i j hij
        have hreach := SimpleGraph.ConnectedComponent.exact hij
        exact hunique ((hconnected _ (hat i) _ _ (hpick i)).mpr hreach) (hpick j)
      · intro component
        induction component using SimpleGraph.ConnectedComponent.ind with
        | h v =>
          obtain ⟨i, hi⟩ := hfound v.2
          exact ⟨i, SimpleGraph.ConnectedComponent.sound
            ((hconnected _ (hat i) _ _ (hpick i)).mp hi)⟩
    rw [← Nat.card_eq_of_bijective _ hbijective, Nat.card_fin]
  · intro c hc
    refine (h.ranked.sublist (hcomponents c hc).sublist).imp_of_mem fun {a b} ha hb hab => ?_
    have hrank : ∀ t ∈ c.members, ∃ i, plan.ranking.rank? t = some i := fun t ht =>
      Option.isSome_iff_exists.mp (h.strictlyRanked.ranked.mpr (hmember c hc t ht))
    obtain ⟨i, hi⟩ := hrank a ha
    obtain ⟨j, hj⟩ := hrank b hb
    exact ⟨i, j, hi, hj, (h.strictlyRanked.better hi hj).mpr hab⟩

end Elaborated

end Registry

/-- The clusters of a plan are what flooding its conflicts from every transaction finds. -/
theorem Design.Built.clusters_eq {σ : Type} {d : Design σ} {plan : Plan} (built : d.Built)
    (hplan : d.main.plan = some plan) : plan.clusters =
      Cluster.collect plan.ranking d.main.actions.length plan.order (Mask.none d.main.actions.length) := by
  obtain ⟨before, closures, ranking, -, -, hplanned, hsame⟩ := built.exists_elaborated hplan
  obtain ⟨-, rfl⟩ := Registry.planWith_eq_ok hplanned
  rw [hsame.length]
  rfl

/-- Floods that go round each other find them too, when what each comes to is sorted by rank. -/
theorem Design.Built.clusters_eq_gather {σ : Type} {d : Design σ} {plan : Plan} (built : d.Built)
    (hplan : d.main.plan = some plan) : plan.clusters =
      Cluster.gather plan.ranking d.main.actions.length plan.order (Mask.none d.main.actions.length) := by
  rw [built.clusters_eq hplan]
  exact Cluster.collect_eq_gather (built.elaborated hplan).regular (fun _ ht => ht) (Cluster.assigned_none _ _)

/-- After an elaboration that succeeds the ranks of the transactions are their places in a strict total order,
and the clusters are the connected components of their conflicts. -/
theorem Design.Built.conflict_components {σ : Type} {d : Design σ} {plan : Plan} (built : d.Built)
    (hplan : d.main.plan = some plan) : d.main.StrictlyRanked plan ∧ d.main.ConflictComponents plan := by
  have h := built.elaborated hplan
  have hfound : Cluster.Collected plan.ranking (Mask.none d.main.actions.length) plan.order plan.clusters := by
    rw [built.clusters_eq hplan]
    exact Cluster.collected_collect h.regular (fun _ ht => ht) (Cluster.assigned_none _ _)
  exact ⟨h.strictlyRanked, h.conflictComponents hfound.component hfound.disjoint⟩

/-! ## A chain

Two transactions compete with a third but not with each other. -/

namespace Chain

/-- A body that calls some methods. -/
def visit : List Nat → ActionBody Unit Unit
  | [] => .done ()
  | id :: rest => .call (.perform ⟨.main, id⟩ none) fun _ => visit rest

/-- The registrations. -/
def steps : List (Registration Unit) :=
  [.newMethod .main "left" Shape.empty Shape.empty none,
   .setMethod ⟨.main, 0⟩ (.body fun _ => .done Record.empty),
   .newMethod .main "right" Shape.empty Shape.empty none,
   .setMethod ⟨.main, 1⟩ (.body fun _ => .done Record.empty),
   .newTransaction .main "first" 3 none,
   .setTransaction ⟨.main, 2⟩ (.body (visit [0])),
   .newTransaction .main "middle" 0 none,
   .setTransaction ⟨.main, 3⟩ (.body (visit [0, 1])),
   .newTransaction .main "last" 1 none,
   .setTransaction ⟨.main, 4⟩ (.body (visit [1])),
   .newTransaction .main "alone" 2 none,
   .setTransaction ⟨.main, 5⟩ (.body (visit [])),
   .newCall ⟨.main, 2⟩ ⟨.main, 0⟩,
   .newCall ⟨.main, 3⟩ ⟨.main, 0⟩,
   .newCall ⟨.main, 3⟩ ⟨.main, 1⟩,
   .newCall ⟨.main, 4⟩ ⟨.main, 1⟩]

/-- The design, elaborated. -/
def design : Design Unit := (Design.registerAll steps {}).elaborate.1

/-- What elaboration works out.  The members of the first cluster are listed by rank, which is not the order in which
the flood came to them. -/
def plan : Plan where
  closures := [⟨[false, false, false, false, false, false]⟩, ⟨[false, false, false, false, false, false]⟩,
    ⟨[true, false, true, false, false, false]⟩, ⟨[true, true, false, true, false, false]⟩,
    ⟨[false, true, false, false, true, false]⟩, ⟨[false, false, false, false, false, true]⟩]
  ranking := ⟨[2, 5, 4, 3], [⟨[false, false, false, false, false, false]⟩,
    ⟨[false, false, false, false, false, false]⟩, ⟨[false, false, false, true, false, false]⟩,
    ⟨[false, false, true, false, true, false]⟩, ⟨[false, false, false, true, false, false]⟩,
    ⟨[false, false, false, false, false, false]⟩]⟩
  clusters := [⟨[2, 4, 3], [⟨[false, false, true]⟩, ⟨[false, false, true]⟩, ⟨[true, true, false]⟩]⟩,
    ⟨[5], [⟨[false]⟩]⟩]
  callers := [[0, 1], [3, 2], [], [], [], []]

theorem built : design.Built := .elaborate (.registerAll steps .empty)

theorem plan_eq : design.main.plan = some plan := by cbv

theorem isSome_first : (design.main.transaction? 2).isSome := by cbv

theorem isSome_last : (design.main.transaction? 4).isSome := by cbv

/-- There are two components, and the ends of the chain are in one of them though they do not compete. -/
theorem components_of_chain : design.main.plan = some plan ∧
    Nat.card design.main.conflictGraph.ConnectedComponent = 2 ∧
    design.main.conflictGraph.Reachable ⟨2, isSome_first⟩ ⟨4, isSome_last⟩ ∧ ¬ design.main.Competes 2 4 := by
  obtain ⟨-, hfound⟩ := Design.Built.conflict_components built plan_eq
  refine ⟨plan_eq, hfound.count.symm, ?_, fun hcompetes => ?_⟩
  · exact (hfound.connected _ List.mem_cons_self ⟨2, isSome_first⟩ ⟨4, isSome_last⟩ (by decide)).mp (by decide)
  · have hbit := ((hfound.neighbours _ List.mem_cons_self).bit (i := 0) (j := 1) rfl rfl).mpr hcompetes
    cases hbit

end Chain

end GuardedActions
