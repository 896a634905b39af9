import GuardedActions.Proofs.Elaboration.Conflict
import GuardedActions.Proofs.Elaboration.Flood

/-!
# Clusters are what floods find

Every transaction that no earlier flood has reached begins a flood, and what the flood reaches is a cluster
(`Cluster.Component`).  Clusters have nothing in common with each other and leave no transaction of the static order
out (`Cluster.Collected`).  It makes no difference whether floods begin afresh or go round each other, and whether
members are picked out of the order or sorted by rank (`Cluster.collect_eq_gather`).
-/

set_option autoImplicit false

namespace GuardedActions

namespace Cluster

/-! ## One cluster -/

/-- A cluster of a ranking: members come from the order and keep it, conflicts do not lead out, and
the neighbours of a member are the members it conflicts with. -/
structure Sound (ranking : Ranking) (c : Cluster) : Prop where
  /-- members are transactions of the order, in that order -/
  members : ∃ keep : Nat → Bool, c.members = ranking.order.filter keep
  /-- a transaction that conflicts with a member is a member -/
  closed : ∀ a ∈ c.members, ∀ b ∈ ranking.order, ranking.conflict a b = true → b ∈ c.members
  /-- the neighbours of the member at a position -/
  neighbours : ∀ {i a : Nat}, c.members[i]? = some a → ∀ j,
    (c.neighbours[i]?.getD (Mask.none 0)).test j = true ↔
      ∃ b, c.members[j]? = some b ∧ ranking.conflict a b = true

theorem neighbours_ofMembers {ranking : Ranking} {members : List Nat} {i a : Nat}
    (ha : members[i]? = some a) (j : Nat) :
    ((ofMembers ranking members).neighbours[i]?.getD (Mask.none 0)).test j = true ↔
      ∃ b, members[j]? = some b ∧ ranking.conflict a b = true := by
  unfold ofMembers
  rw [List.getElem?_map, ha]
  simp only [Option.map_some, Option.getD_some]
  rw [Mask.test_ofTest, Bool.and_eq_true, decide_eq_true_iff, Option.any_eq_true]
  constructor
  · rintro ⟨-, hb⟩
    exact hb
  · rintro ⟨b, hb, hconflict⟩
    exact ⟨(List.getElem?_eq_some_iff.mp hb).1, b, hb, hconflict⟩

/-- A cluster is what one transaction is joined with. -/
structure Component (ranking : Ranking) (c : Cluster) : Prop where
  /-- the neighbours are worked out from the members -/
  made : c = ofMembers ranking c.members
  /-- members are picked out of the order -/
  picked : ∃ keep : Nat → Bool, c.members = ranking.order.filter keep
  /-- they are what one of them is joined with -/
  root : ∃ t ∈ c.members, ∀ x, x ∈ c.members ↔ ranking.Joined t x

variable {ranking : Ranking} {size t : Nat} {c : Cluster}

theorem mem_filter_flood (hregular : ranking.Regular size) (ht : t ∈ ranking.order) (x : Nat) :
    x ∈ ranking.order.filter (flood ranking size t).test ↔ ranking.Joined t x := by
  rw [List.mem_filter, test_flood hregular ht]
  exact ⟨And.right, fun hjoined => ⟨hregular.mem_order ht hjoined, hjoined⟩⟩

/-- A flood from a transaction finds a component. -/
theorem component_flood (hregular : ranking.Regular size) (ht : t ∈ ranking.order) :
    Component ranking (ofMembers ranking (ranking.order.filter (flood ranking size t).test)) := by
  have hmem := mem_filter_flood hregular ht
  exact ⟨rfl, ⟨_, rfl⟩, t, (hmem t).mpr .refl, hmem⟩

namespace Component

theorem sublist (h : c.Component ranking) : c.members.Sublist ranking.order := by
  obtain ⟨keep, hkeep⟩ := h.picked
  rw [hkeep]
  exact List.filter_sublist

theorem nonempty (h : c.Component ranking) : c.members ≠ [] := by
  obtain ⟨t, ht, -⟩ := h.root
  exact List.ne_nil_of_mem ht

/-- Members are what any of them is joined with. -/
theorem mem_iff (h : c.Component ranking) (hregular : ranking.Regular size) {a b : Nat} (ha : a ∈ c.members) :
    b ∈ c.members ↔ ranking.Joined a b := by
  obtain ⟨t, -, hmem⟩ := h.root
  have hta : ranking.Joined t a := (hmem a).mp ha
  rw [hmem]
  exact ⟨fun htb => (hregular.symm hta).trans htb, fun hab => hta.trans hab⟩

theorem sound (h : c.Component ranking) : c.Sound ranking := by
  obtain ⟨t, -, hmem⟩ := h.root
  refine ⟨h.picked, fun a ha b _ hconflict => ?_, fun {i a} ha j => ?_⟩
  · exact (hmem b).mpr (((hmem a).mp ha).tail hconflict)
  · rw [h.made]
    exact neighbours_ofMembers ha j

end Component

/-! ## All clusters -/

/-- Clusters that cover a list of transactions, together with what was assigned before. -/
structure Collected (ranking : Ranking) (assigned : Mask) (list : List Nat) (clusters : List Cluster) : Prop where
  /-- every cluster is a component -/
  component : ∀ c ∈ clusters, c.Component ranking
  /-- nothing that was assigned is in a cluster -/
  new : ∀ c ∈ clusters, ∀ x ∈ c.members, assigned.test x = false
  /-- different clusters have nothing in common -/
  disjoint : clusters.Pairwise fun c c' => c.members.Disjoint c'.members
  /-- what was not assigned is in a cluster -/
  covered : ∀ t ∈ list, assigned.test t = true ∨ ∃ c ∈ clusters, t ∈ c.members

variable {list : List Nat} {assigned : Mask}

/-- Adding what a flood of its own reaches is going round what was assigned. -/
theorem insert_members_flood (hregular : ranking.Regular size) (ht : t ∈ ranking.order)
    (h : Assigned ranking size assigned) (hnew : assigned.test t = false) :
    (flood ranking size t).members.foldl Mask.insert assigned = floodPast ranking size t assigned := by
  refine Mask.eq_of_test ?_ fun x => ?_
  · rw [Mask.size_foldl_insert, h.size, (h.floodPast hregular ht hnew).size]
  · rw [Mask.test_foldl_insert, Mask.mem_members, test_flood hregular ht, test_floodPast hregular ht h hnew]
    refine or_congr_right ⟨And.left, fun hjoined => ⟨hjoined, ?_⟩⟩
    rw [h.size]
    exact hregular.below (hregular.mem_order ht hjoined)

theorem collect_of_test (rest : List Nat) (hold : assigned.test t = true) :
    collect ranking size (t :: rest) assigned = collect ranking size rest assigned := by
  rw [collect, if_pos hold]

theorem collect_of_new (rest : List Nat) (hregular : ranking.Regular size) (ht : t ∈ ranking.order)
    (h : Assigned ranking size assigned) (hnew : assigned.test t = false) :
    collect ranking size (t :: rest) assigned =
      ofMembers ranking (ranking.order.filter (flood ranking size t).test) ::
        collect ranking size rest (floodPast ranking size t assigned) := by
  rw [← insert_members_flood hregular ht h hnew, collect, if_neg (by rw [hnew]; exact Bool.false_ne_true)]
  rfl

/-- A flood and the clusters that are collected after it. -/
theorem Collected.cons (hregular : ranking.Regular size) (ht : t ∈ ranking.order)
    (h : Assigned ranking size assigned) (hnew : assigned.test t = false) {rest : List Nat}
    {clusters : List Cluster} (hcollected : Collected ranking (floodPast ranking size t assigned) rest clusters) :
    Collected ranking assigned (t :: rest)
      (ofMembers ranking (ranking.order.filter (flood ranking size t).test) :: clusters) := by
  have hfirst := mem_filter_flood hregular ht
  have hgrown : ∀ x, (floodPast ranking size t assigned).test x = true ↔
      assigned.test x = true ∨ ranking.Joined t x := fun x => test_floodPast hregular ht h hnew
  have hlater : ∀ c ∈ clusters, ∀ x ∈ c.members, ¬ (assigned.test x = true ∨ ranking.Joined t x) := by
    intro c hc x hx hseen
    have hnew' := hcollected.new c hc x hx
    rw [(hgrown x).mpr hseen] at hnew'
    cases hnew'
  constructor
  case component => exact List.forall_mem_cons.mpr ⟨component_flood hregular ht, hcollected.component⟩
  case new =>
    refine List.forall_mem_cons.mpr ⟨fun x hx => h.new hregular hnew ((hfirst x).mp hx), fun c hc x hx => ?_⟩
    exact Bool.eq_false_iff.mpr fun hold => hlater c hc x hx (.inl hold)
  case disjoint =>
    refine List.pairwise_cons.mpr ⟨fun c hc x hx hxc => ?_, hcollected.disjoint⟩
    exact hlater c hc x hxc (.inr ((hfirst x).mp hx))
  case covered =>
    refine List.forall_mem_cons.mpr ⟨.inr ⟨_, List.mem_cons_self, (hfirst t).mpr .refl⟩, fun u hu => ?_⟩
    rcases hcollected.covered u hu with hgrown' | ⟨c, hc, huc⟩
    · rcases (hgrown u).mp hgrown' with hold | hjoined
      · exact .inl hold
      · exact .inr ⟨_, List.mem_cons_self, (hfirst u).mpr hjoined⟩
    · exact .inr ⟨c, List.mem_cons_of_mem _ hc, huc⟩

theorem collected_collect (hregular : ranking.Regular size) (hlist : ∀ t ∈ list, t ∈ ranking.order)
    (h : Assigned ranking size assigned) :
    Collected ranking assigned list (collect ranking size list assigned) := by
  induction list generalizing assigned with
  | nil => exact ⟨nofun, nofun, .nil, nofun⟩
  | cons t rest ih =>
    obtain ⟨ht, hrest⟩ := List.forall_mem_cons.mp hlist
    cases htest : assigned.test t with
    | true =>
      rw [collect_of_test rest htest]
      have hcollected := ih hrest h
      exact ⟨hcollected.component, hcollected.new, hcollected.disjoint,
        List.forall_mem_cons.mpr ⟨.inl htest, hcollected.covered⟩⟩
    | false =>
      rw [collect_of_new rest hregular ht h htest]
      exact (ih hrest (h.floodPast hregular ht htest)).cons hregular ht h htest

end Cluster

/-! ## Sorting by rank -/

namespace Ranking

variable {ranking : Ranking}

/-- A rank is a place in the order. -/
theorem rank?_eq_some (hnodup : ranking.order.Nodup) {t i : Nat} :
    ranking.rank? t = some i ↔ ranking.order[i]? = some t := by
  unfold rank?
  rw [List.findIdx?_eq_some_iff_getElem, List.getElem?_eq_some_iff]
  constructor
  · rintro ⟨hi, heq, -⟩
    exact ⟨hi, beq_iff_eq.mp heq⟩
  · rintro ⟨hi, heq⟩
    refine ⟨hi, beq_iff_eq.mpr heq, fun j hj hsame => ?_⟩
    have hsame := (beq_iff_eq.mp hsame).trans heq.symm
    exact Nat.ne_of_lt hj (hnodup.getElem_inj_iff.mp hsame)

theorem isSome_rank? {t : Nat} : (ranking.rank? t).isSome ↔ t ∈ ranking.order := by
  unfold rank?
  rw [List.findIdx?_isSome, List.any_eq_true]
  simp

/-- Whether the rank of one transaction is no worse than that of another. -/
def noWorse (ranking : Ranking) (a b : Nat) : Bool :=
  decide ((ranking.rank? a).getD 0 ≤ (ranking.rank? b).getD 0)

theorem noWorse_trans (ranking : Ranking) (a b c : Nat) (hab : ranking.noWorse a b = true)
    (hbc : ranking.noWorse b c = true) : ranking.noWorse a c = true := by
  unfold noWorse at *
  rw [decide_eq_true_iff] at *
  exact Nat.le_trans hab hbc

theorem noWorse_total (ranking : Ranking) (a b : Nat) : (ranking.noWorse a b || ranking.noWorse b a) = true := by
  unfold noWorse
  rw [Bool.or_eq_true, decide_eq_true_iff, decide_eq_true_iff]
  exact Nat.le_total _ _

theorem noWorse_antisymm (hnodup : ranking.order.Nodup) {a b : Nat} (ha : a ∈ ranking.order)
    (hb : b ∈ ranking.order) (hab : ranking.noWorse a b = true) (hba : ranking.noWorse b a = true) : a = b := by
  obtain ⟨i, hi⟩ := List.mem_iff_getElem?.mp ha
  obtain ⟨j, hj⟩ := List.mem_iff_getElem?.mp hb
  unfold noWorse at hab hba
  rw [(rank?_eq_some hnodup).mpr hi, (rank?_eq_some hnodup).mpr hj, Option.getD_some, Option.getD_some,
    decide_eq_true_iff] at hab hba
  obtain rfl : i = j := Nat.le_antisymm hab hba
  exact Option.some.inj (hi.symm.trans hj)

/-- The order is sorted by rank. -/
theorem pairwise_noWorse (hnodup : ranking.order.Nodup) :
    ranking.order.Pairwise fun a b => ranking.noWorse a b = true := by
  refine List.pairwise_iff_getElem.mpr fun i j hi hj hij => ?_
  unfold noWorse
  rw [(rank?_eq_some hnodup).mpr (List.getElem?_eq_getElem hi), (rank?_eq_some hnodup).mpr
    (List.getElem?_eq_getElem hj), Option.getD_some, Option.getD_some, decide_eq_true_iff]
  exact Nat.le_of_lt hij

end Ranking

/-! ## Floods that go round each other -/

namespace Cluster

/-- The clusters of the transactions in the list, found by floods that go round what was assigned before.  What a
flood comes to is sorted by rank. -/
def gather (ranking : Ranking) (size : Nat) : List Nat → (assigned : Mask) → List Cluster
  | [], _ => []
  | t :: rest, assigned =>
    if assigned.test t then gather ranking size rest assigned
    else ofMembers ranking ((visitsPast ranking size t assigned).mergeSort ranking.noWorse) ::
      gather ranking size rest (floodPast ranking size t assigned)

variable {ranking : Ranking} {size t : Nat} {list : List Nat} {assigned : Mask}

/-- A flood comes to the members of its cluster, each once, in some order. -/
theorem visitsPast_perm (hregular : ranking.Regular size) (ht : t ∈ ranking.order)
    (h : Assigned ranking size assigned) (hnew : assigned.test t = false) :
    (visitsPast ranking size t assigned).Perm (ranking.order.filter (flood ranking size t).test) := by
  have hnodup := (frontier_floodPast hregular ht h hnew).nodup
  rw [List.append_nil] at hnodup
  refine (List.perm_ext_iff_of_nodup hnodup (hregular.nodup.filter _)).mpr fun x => ?_
  rw [mem_visitsPast hregular ht h hnew, mem_filter_flood hregular ht]

/-- Sorted by rank they stand as they stand in the order. -/
theorem mergeSort_visitsPast (hregular : ranking.Regular size) (ht : t ∈ ranking.order)
    (h : Assigned ranking size assigned) (hnew : assigned.test t = false) :
    (visitsPast ranking size t assigned).mergeSort ranking.noWorse =
      ranking.order.filter (flood ranking size t).test := by
  have hperm := (List.mergeSort_perm _ ranking.noWorse).trans (visitsPast_perm hregular ht h hnew)
  refine hperm.eq_of_pairwise (fun a b ha hb => ?_)
    (List.pairwise_mergeSort ranking.noWorse_trans ranking.noWorse_total _)
    ((Ranking.pairwise_noWorse hregular.nodup).filter _)
  exact Ranking.noWorse_antisymm hregular.nodup (List.mem_of_mem_filter (hperm.mem_iff.mp ha))
    (List.mem_of_mem_filter hb)

/-- Floods that go round each other find the same clusters as floods of their own. -/
theorem collect_eq_gather (hregular : ranking.Regular size) (hlist : ∀ t ∈ list, t ∈ ranking.order)
    (h : Assigned ranking size assigned) :
    collect ranking size list assigned = gather ranking size list assigned := by
  induction list generalizing assigned with
  | nil => rfl
  | cons t rest ih =>
    obtain ⟨ht, hrest⟩ := List.forall_mem_cons.mp hlist
    rw [gather]
    cases htest : assigned.test t with
    | true =>
      rw [if_pos rfl, collect_of_test rest htest]
      exact ih hrest h
    | false =>
      rw [if_neg Bool.false_ne_true, collect_of_new rest hregular ht h htest,
        mergeSort_visitsPast hregular ht h htest]
      exact congrArg _ (ih hrest (h.floodPast hregular ht htest))

end Cluster

namespace Registry

variable {σ : Type} {r : Registry σ} {closure : Nat → Mask}

/-- The conflicts of a registry are between its transactions. -/
theorem regular_staticOrder (hclosed : r.Closed closure) :
    Ranking.Regular ⟨r.staticOrder, r.conflictRows closure⟩ r.actions.length where
  nodup := nodup_staticOrder
  below := fun ht => lt_length_of_transaction? (mem_staticOrder.mp ht)
  listed := fun hconflict => mem_staticOrder.mpr ((conflict_iff hclosed).mp hconflict).2.2.1
  converse := fun hconflict => (conflict_iff hclosed).mpr ((conflict_iff hclosed).mp hconflict).symm

theorem collected_clusters (hclosed : r.Closed closure) :
    Cluster.Collected ⟨r.staticOrder, r.conflictRows closure⟩ (Mask.none r.actions.length) r.staticOrder
      (r.clusters ⟨r.staticOrder, r.conflictRows closure⟩) :=
  Cluster.collected_collect (regular_staticOrder hclosed) (fun _ ht => ht) (Cluster.assigned_none _ _)

end Registry

end GuardedActions
