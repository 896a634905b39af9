import GuardedActions.Proofs.Coherence
import GuardedActions.Proofs.Scheduling.Rank

/-!
# The best caller drives a method

A call site ranks like the best transaction that reaches its caller, whether that transaction is granted
or not: ranks are a matter of elaboration.  Grants are a matter of the cycle.  The call site that drives a
granted method is the granted one of least rank, and no other call site has this rank.
-/

set_option autoImplicit false

namespace GuardedActions

variable {σ : Type}

namespace Plan

variable {plan : Plan}

/-- The first transaction of the static order that meets a condition, and its position. -/
structure Leads (plan : Plan) (p : Nat → Prop) (k t : Nat) : Prop where
  /-- the transaction stands at the position -/
  position : plan.order[k]? = some t
  /-- it meets the condition -/
  meets : p t
  /-- those that meet it do not stand before -/
  least : ∀ {k' t' : Nat}, plan.order[k']? = some t' → p t' → k ≤ k'

/-- The best rank over all transactions whose closure contains an action. -/
def BestRank (plan : Plan) (a k : Nat) : Prop :=
  ∃ t, plan.Leads (fun t => (plan.closure t).test a = true) k t

/-- Of the transactions that meet a condition one comes first. -/
theorem exists_leads {p : Nat → Prop} {t : Nat} (ht : t ∈ plan.order) (hmeets : p t) :
    ∃ k first, plan.Leads p k first := by
  classical
  obtain ⟨n, hn⟩ := List.mem_iff_getElem?.mp ht
  have hsome : ∃ k, ∃ t, plan.order[k]? = some t ∧ p t := ⟨n, t, hn, hmeets⟩
  obtain ⟨first, hposition, hfirst⟩ := Nat.find_spec hsome
  exact ⟨_, first, hposition, hfirst, fun ht' hmeets' => Nat.find_min' hsome ⟨_, ht', hmeets'⟩⟩

/-- The best rank is the position that a search finds. -/
theorem bestRank_iff {a k : Nat} : plan.BestRank a k ↔
    (plan.order.findIdx? fun t => (plan.closure t).test a) = some k := by
  rw [List.findIdx?_eq_some_iff_getElem]
  constructor
  · rintro ⟨t, hposition, htest, hleast⟩
    obtain ⟨hk, rfl⟩ := List.getElem?_eq_some_iff.mp hposition
    refine ⟨hk, htest, fun j hj hearlier => ?_⟩
    exact absurd (hleast (List.getElem?_eq_getElem (Nat.lt_trans hj hk)) hearlier)
      (Nat.not_le_of_lt hj)
  · rintro ⟨hk, htest, hearlier⟩
    refine ⟨plan.order[k], List.getElem?_eq_getElem hk, htest, fun {j t} hj htest => ?_⟩
    obtain ⟨hlt, rfl⟩ := List.getElem?_eq_some_iff.mp hj
    exact Nat.le_of_not_lt fun hjk => hearlier j hjk htest

end Plan

namespace Registry

variable {r : Registry σ} {plan : Plan}

/-- How a plan ranks the call sites of a registry. -/
structure RanksSites (r : Registry σ) (plan : Plan) : Prop where
  /-- closures contain what transactions reach along call sites -/
  closure : ∀ {t : Nat}, (r.transaction? t).isSome → ∀ a,
    ((plan.closure t).test a = true ↔ r.Reaches t a)
  /-- an action in the closure of a transaction has a best rank -/
  exists_rank : ∀ {t a : Nat}, (r.transaction? t).isSome → (plan.closure t).test a = true →
    ∃ k, plan.BestRank a k
  /-- call sites of one method whose callers transactions reach differ in rank -/
  distinct : ∀ {i j : Nat} {u w : Site σ}, r.sites[i]? = some u → r.sites[j]? = some w →
    u.callee = w.callee → ∀ {k : Nat}, plan.BestRank u.caller k → plan.BestRank w.caller k → i = j

theorem rankIn_of_bestRank {i k : Nat} {u : Site σ} (hu : r.sites[i]? = some u)
    (h : plan.BestRank u.caller k) : r.rankIn plan i = k := by
  rw [rankIn_eq hu, Plan.bestRank_iff.mp h, Option.getD_some]

namespace Elaborated

theorem exists_bestRank (h : r.Elaborated plan) {t a : Nat} (ht : (r.transaction? t).isSome)
    (hreach : r.Reaches t a) : ∃ k, plan.BestRank a k := by
  obtain ⟨k, first, hleads⟩ := Plan.exists_leads
    (p := fun t => (plan.closure t).test a = true) (h.mem_order.mpr ht)
    ((h.closed ht a).mpr hreach)
  exact ⟨k, first, hleads⟩

/-- Who has a rank is reached by a transaction. -/
theorem exists_transaction_of_bestRank (h : r.Elaborated plan) {a k : Nat}
    (hrank : plan.BestRank a k) : ∃ t, (r.transaction? t).isSome ∧ r.Reaches t a := by
  obtain ⟨t, hleads⟩ := hrank
  have ht := h.mem_order.mp (List.mem_of_getElem? hleads.position)
  exact ⟨t, ht, (h.closed ht a).mp hleads.meets⟩

theorem ranksSites (h : r.Elaborated plan) : r.RanksSites plan where
  closure := h.closed
  exists_rank := fun ht htest => h.exists_bestRank ht ((h.closed ht _).mp htest)
  distinct := by
    intro i j u w hu hw hcallee k hku hkw
    obtain ⟨t, ht, hreach⟩ := h.exists_transaction_of_bestRank hku
    obtain ⟨t', ht', hreach'⟩ := h.exists_transaction_of_bestRank hkw
    exact h.eq_of_rankIn_eq hu hw hcallee ht hreach ht' hreach'
      ((rankIn_of_bestRank hu hku).trans (rankIn_of_bestRank hw hkw).symm)

/-- The rank of a transaction is its own position: nothing else reaches it. -/
theorem position_of_bestRank (h : r.Elaborated plan) {t k : Nat} (ht : (r.transaction? t).isSome)
    (hrank : plan.BestRank t k) : plan.order[k]? = some t := by
  obtain ⟨best, hleads⟩ := hrank
  have hbest := h.mem_order.mp (List.mem_of_getElem? hleads.position)
  rcases Relation.ReflTransGen.cases_tail ((h.closed hbest t).mp hleads.meets) with
    heq | ⟨b, -, i, u, hu, -, rfl⟩
  · rw [heq]
    exact hleads.position
  · exact absurd rfl (h.callee_ne hu ht)

end Elaborated

end Registry

namespace Machine

variable {m : Machine σ} {plan : Plan} {s : Schedule}

/-- A transaction that is granted and reaches an action along active call sites. -/
def Drives (m : Machine σ) (s : Schedule) (a t : Nat) : Prop :=
  (m.design.main.transaction? t).isSome ∧ s.granted.test t = true ∧
    m.design.main.ActiveReaches s.activeSites t a

/-- The call site that drives a granted method. -/
structure BestDriver (m : Machine σ) (plan : Plan) (s : Schedule) (x i : Nat) (u : Site σ) :
    Prop where
  /-- the call site is selected -/
  selected : s.selectedOf x = some i
  /-- it is a call site of the method -/
  site : m.design.main.sites[i]? = some u ∧ u.callee = ⟨.main, x⟩
  /-- it is granted -/
  granted : s.grantedSites.test i = true
  /-- its rank is less than the ranks of all other granted call sites of the method -/
  least : ∃ k, plan.BestRank u.caller k ∧ ∀ {j : Nat} {w : Site σ},
    m.design.main.sites[j]? = some w → w.callee = ⟨.main, x⟩ → s.grantedSites.test j = true →
      j ≠ i → ∃ k', plan.BestRank w.caller k' ∧ k < k'
  /-- if the method is exclusive, or if only transactions call it in this cycle, the best of the granted
  transactions that reach the method reaches the caller -/
  best : m.design.main.isExclusive x = true ∨
      (∀ {j : Nat} {w : Site σ}, m.design.main.sites[j]? = some w → w.callee = ⟨.main, x⟩ →
        s.grantedSites.test j = true → (m.design.main.transaction? w.caller).isSome) →
    ∃ k t, plan.Leads (m.Drives s x) k t ∧
      m.design.main.ActiveReaches s.activeSites t u.caller

namespace Schedules

/-- What is granted has a best rank. -/
theorem exists_bestRank (h : m.design.main.Elaborated plan) (hs : m.Schedules plan s) {a : Nat}
    (ha : s.granted.test a = true) : ∃ k, plan.BestRank a k := by
  obtain ⟨t, ht, -, hreach⟩ := (hs.granted_iff h).mp ha
  exact h.exists_bestRank ht hreach.reaches

/-- Behind a granted call site stands a transaction that reaches its callee. -/
theorem exists_drives (h : m.design.main.Elaborated plan) (hs : m.Schedules plan s) {x i : Nat}
    {u : Site σ} (hu : m.design.main.sites[i]? = some u) (hcallee : u.callee = ⟨.main, x⟩)
    (hi : s.grantedSites.test i = true) :
    ∃ t, m.Drives s x t ∧ m.design.main.ActiveReaches s.activeSites t u.caller := by
  obtain ⟨hactive, hcaller⟩ := (hs.grantedSites_iff hu).mp hi
  obtain ⟨t, ht, hgranted, hreach⟩ := (hs.granted_iff h).mp hcaller
  have hlast : m.design.main.ActiveReaches s.activeSites t x :=
    hreach.tail ⟨i, u, hu, hactive, rfl, by rw [hcallee]⟩
  exact ⟨t, ⟨ht, hgranted, hlast⟩, hreach⟩

/-- Only one granted transaction reaches an exclusive method. -/
theorem drives_unique (h : m.design.main.Elaborated plan) (hs : m.Schedules plan s) {x t t' : Nat}
    (hx : m.design.main.isExclusive x = true) (ht : m.Drives s x t) (ht' : m.Drives s x t') :
    t = t' := by
  obtain ⟨htransaction, hgranted, hreach⟩ := ht
  obtain ⟨htransaction', hgranted', hreach'⟩ := ht'
  refine winner_unique h ((hs.transaction htransaction).mp hgranted)
    ((hs.transaction htransaction').mp hgranted') fun hne => ?_
  exact ⟨hne, htransaction, htransaction', Or.inl ⟨x, hx, hreach.reaches, hreach'.reaches⟩⟩

/-- If only transactions call a method in this cycle, those that reach it are callers of it. -/
theorem exists_site_of_drives (h : m.design.main.Elaborated plan) (hs : m.Schedules plan s)
    {x t : Nat} (hx : (m.design.main.method? x).isSome)
    (hdirect : ∀ {j : Nat} {w : Site σ}, m.design.main.sites[j]? = some w →
      w.callee = ⟨.main, x⟩ → s.grantedSites.test j = true →
        (m.design.main.transaction? w.caller).isSome) (ht : m.Drives s x t) :
    ∃ j w, m.design.main.sites[j]? = some w ∧ w.callee = ⟨.main, x⟩ ∧ w.caller = t ∧
      s.grantedSites.test j = true := by
  obtain ⟨htransaction, hgranted, hreach⟩ := ht
  rcases Relation.ReflTransGen.cases_tail hreach with
    rfl | ⟨b, hb, j, w, hw, hactive, hcaller, hcallee⟩
  · rw [Registry.method?_eq_none htransaction] at hx
    cases hx
  · have hcallee' : w.callee = ⟨.main, x⟩ := by rw [h.callee_eq hw, hcallee]
    have hj : s.grantedSites.test j = true := by
      rw [hs.grantedSites_iff hw, hcaller]
      exact ⟨hactive, (hs.granted_iff h).mpr ⟨t, htransaction, hgranted, hb⟩⟩
    refine ⟨j, w, hw, hcallee', ?_, hj⟩
    have hw' := hdirect hw hcallee' hj
    rw [hcaller] at hw' ⊢
    -- the caller is a transaction, and calls lead to methods
    rcases Relation.ReflTransGen.cases_tail hb with rfl | ⟨-, -, j', w', hsite, -, -, hback⟩
    · rfl
    · exact absurd hback (h.callee_ne hsite hw')

/-- A selected call site has the least rank of all that are granted. -/
theorem bestDriver (built : m.design.Built) (own : m.design.OwnCallers)
    (hplan : m.design.main.plan = some plan) (hs : m.Schedules plan s) {x i : Nat} {u : Site σ}
    (hselected : s.selectedOf x = some i) (hu : m.design.main.sites[i]? = some u) :
    m.BestDriver plan s x i u := by
  have h := built.elaborated hplan
  obtain ⟨⟨hx, -⟩, hi, u', hu', hcallee⟩ := hs.of_selectedOf built own hplan hselected
  obtain rfl := Option.some.inj (hu.symm.trans hu')
  obtain ⟨k, hk⟩ := hs.exists_bestRank h ((hs.grantedSites_iff hu).mp hi).2
  have hleast : ∀ {j : Nat} {w : Site σ}, m.design.main.sites[j]? = some w →
      w.callee = ⟨.main, x⟩ → s.grantedSites.test j = true →
        ∃ k', plan.BestRank w.caller k' ∧ k ≤ k' := by
    intro j w hw hwcallee hj
    obtain ⟨k', hk'⟩ := hs.exists_bestRank h ((hs.grantedSites_iff hw).mp hj).2
    have hle := hs.rankIn_le_of_selectedOf built hplan hselected hw hwcallee hj
    rw [Registry.rankIn_of_bestRank hu hk, Registry.rankIn_of_bestRank hw hk'] at hle
    exact ⟨k', hk', hle⟩
  refine ⟨hselected, ⟨hu, hcallee⟩, hi, ⟨k, hk, ?_⟩, ?_⟩
  · intro j w hw hwcallee hj hne
    obtain ⟨k', hk', hle⟩ := hleast hw hwcallee hj
    refine ⟨k', hk', Nat.lt_of_le_of_ne hle ?_⟩
    rintro rfl
    exact hne (h.ranksSites.distinct hw hu (hwcallee.trans hcallee.symm) hk' hk)
  · intro hcase
    obtain ⟨t, ht, hreach⟩ := hs.exists_drives h hu hcallee hi
    obtain ⟨n, first, hfirst⟩ := Plan.exists_leads (p := m.Drives s x) (h.mem_order.mpr ht.1) ht
    refine ⟨n, first, hfirst, ?_⟩
    rcases hcase with hexclusive | hdirect
    · rw [hs.drives_unique h hexclusive hfirst.meets ht]
      exact hreach
    · -- the first transaction calls the method itself, and the selected call site ranks no worse
      obtain ⟨j, w, hw, hwcallee, hcaller, hj⟩ := hs.exists_site_of_drives h hx hdirect hfirst.meets
      obtain ⟨k', hk', hle⟩ := hleast hw hwcallee hj
      rw [hcaller] at hk'
      have hn : plan.order[k']? = some first := h.position_of_bestRank hfirst.meets.1 hk'
      have hucaller := hdirect hu hcallee hi
      have hdrives : m.Drives s x u.caller := by
        obtain ⟨hactive, hgranted⟩ := (hs.grantedSites_iff hu).mp hi
        exact ⟨hucaller, hgranted, .single ⟨i, u, hu, hactive, rfl, by rw [hcallee]⟩⟩
      have hposition := h.position_of_bestRank hucaller hk
      have hle' : n ≤ k := hfirst.least hposition hdrives
      obtain rfl : n = k' := (List.getElem?_inj (List.getElem?_eq_some_iff.mp hfirst.position).1
        h.nodup_order).mp (hfirst.position.trans hn.symm)
      obtain rfl : n = k := Nat.le_antisymm hle' hle
      obtain rfl : first = u.caller :=
        Option.some.inj (hfirst.position.symm.trans hposition)
      exact .refl

end Schedules

/-- Under every plan the call sites of one method differ in rank, as far as transactions reach their
callers.  In every schedule the granted call site of least rank drives a granted method. -/
theorem best_caller_drives (built : m.design.Built) (own : m.design.OwnCallers)
    (hplan : m.design.main.plan = some plan) (hs : m.schedule = .ok s) :
    m.design.main.RanksSites plan ∧
      ∀ {x : Nat}, (m.design.main.method? x).isSome → s.granted.test x = true →
        ∃ i u, m.BestDriver plan s x i u := by
  have h := built.elaborated hplan
  have hs := schedules_of_schedule h hplan hs
  refine ⟨h.ranksSites, fun {x} hx hgranted => ?_⟩
  obtain ⟨i, hi⟩ := Option.isSome_iff_exists.mp (hs.isSome_selectedOf built hplan hx hgranted)
  obtain ⟨-, -, u, hu, -⟩ := hs.of_selectedOf built own hplan hi
  exact ⟨i, u, hs.bestDriver built own hplan hi hu⟩

end Machine

/-! ## A relay

Two transactions reach a method through another one, and a third calls it directly. -/

namespace Relay

/-- The method that all transactions reach. -/
def telling : Method Unit where
  input := Shape.empty
  output := Shape.empty
  body := some fun _ => .done Record.empty
  nonexclusive := true
  callers := [⟨.main, 0⟩, ⟨.main, 3⟩]

/-- The method that passes calls on. -/
def relaying : Method Unit where
  input := Shape.empty
  output := Shape.empty
  body := some fun _ => .call (.perform ⟨.main, 0⟩ none) .done
  nonexclusive := true
  callers := [⟨.main, 1⟩, ⟨.main, 2⟩]

/-- The registrations.  The transaction of highest priority does not want to run. -/
def steps : List (Registration Unit) :=
  [.newMethod .main "tell" Shape.empty Shape.empty none,
   .setMethod ⟨.main, 0⟩ .shared,
   .setMethod ⟨.main, 0⟩ (.body fun _ => .done Record.empty),
   .newMethod .main "relay" Shape.empty Shape.empty none,
   .setMethod ⟨.main, 1⟩ .shared,
   .setMethod ⟨.main, 1⟩ (.body fun _ => .call (.perform ⟨.main, 0⟩ none) .done),
   .newTransaction .main "urgent" 3 none,
   .setTransaction ⟨.main, 2⟩ (.request fun _ => .ok false),
   .setTransaction ⟨.main, 2⟩ (.body (.call (.perform ⟨.main, 1⟩ none) fun _ => .done ())),
   .newTransaction .main "steady" 1 none,
   .setTransaction ⟨.main, 3⟩ (.body (.call (.perform ⟨.main, 1⟩ none) fun _ => .done ())),
   .newTransaction .main "direct" 2 none,
   .setTransaction ⟨.main, 4⟩ (.body (.call (.perform ⟨.main, 0⟩ none) fun _ => .done ())),
   .newCall ⟨.main, 1⟩ ⟨.main, 0⟩,
   .newCall ⟨.main, 2⟩ ⟨.main, 1⟩,
   .newCall ⟨.main, 3⟩ ⟨.main, 1⟩,
   .newCall ⟨.main, 4⟩ ⟨.main, 0⟩]

/-- The relay, elaborated. -/
def machine : Machine Unit :=
  { design := (Design.registerAll steps {}).elaborate.1, state := () }

/-- What elaboration works out. -/
def plan : Plan where
  closures := [⟨[false, false, false, false, false]⟩, ⟨[false, false, false, false, false]⟩,
    ⟨[true, true, true, false, false]⟩, ⟨[true, true, false, true, false]⟩,
    ⟨[true, false, false, false, true]⟩]
  ranking := ⟨[2, 4, 3], List.replicate 5 (Mask.none 5)⟩
  clusters := [⟨[2], [⟨[false]⟩]⟩, ⟨[4], [⟨[false]⟩]⟩, ⟨[3], [⟨[false]⟩]⟩]
  callers := [[0, 3], [1, 2], [], [], []]

/-- Its schedule: the call site that only the first transaction would make better drives the method. -/
def schedule : Schedule where
  requested := ⟨[true, true, false, true, true]⟩
  runnable := ⟨[true, true, false, true, true]⟩
  granted := ⟨[true, true, false, true, true]⟩
  activeSites := ⟨[true, false, true, true]⟩
  grantedSites := ⟨[true, false, true, true]⟩
  selected := [.site 0, .site 2, .nothing 0, .nothing 0, .nothing 0]
  early := [none, none, none, none]

theorem built : machine.design.Built := .elaborate (.registerAll steps .empty)

theorem plan_eq : machine.design.main.plan = some plan := by cbv

theorem schedule_eq : machine.schedule = .ok schedule := by cbv

theorem method_cases {id : Nat} {x : Method Unit}
    (h : machine.design.main.method? id = some x) : x = telling ∨ x = relaying := by
  have hmethods : machine.design.main.actions.filterMap Action.method? = [telling, relaying] := by cbv
  obtain ⟨a, ha, hx⟩ := Registry.method?_eq_some.mp h
  have hmem := List.mem_filterMap.mpr ⟨a, List.mem_of_getElem? ha, hx⟩
  rw [hmethods] at hmem
  exact List.mem_pair.mp hmem

theorem ownCallers : machine.design.OwnCallers := by
  intro id x hx c hc
  rcases method_cases hx with rfl | rfl
  · rcases List.mem_pair.mp hc with rfl | rfl
    · rfl
    · rfl
  · rcases List.mem_pair.mp hc with rfl | rfl
    · rfl
    · rfl

/-- The relayed call drives the method, though the direct caller goes before the transaction behind it:
both transactions behind it count for its rank, also the one that does not run. -/
theorem relay_drives : machine.design.main.plan = some plan ∧ machine.schedule = .ok schedule ∧
    machine.BestDriver plan schedule 0 0 ⟨1, ⟨.main, 0⟩, none, none⟩ ∧
    plan.BestRank 1 0 ∧ plan.BestRank 4 1 ∧
    schedule.granted.test 2 = false ∧ schedule.grantedSites.test 3 = true := by
  obtain ⟨-, hdriver⟩ :=
    Machine.best_caller_drives (m := machine) built ownCallers plan_eq schedule_eq
  obtain ⟨i, u, hbest⟩ := hdriver (x := 0) (by cbv) rfl
  have hi : i = 0 := (Option.some.inj hbest.selected).symm
  have hsite : machine.design.main.sites[0]? = some ⟨1, ⟨.main, 0⟩, none, none⟩ := by cbv
  have hu := hbest.site.1
  rw [hi, hsite] at hu
  rw [hi, ← Option.some.inj hu] at hbest
  exact ⟨plan_eq, schedule_eq, hbest, Plan.bestRank_iff.mpr (by decide),
    Plan.bestRank_iff.mpr (by decide), rfl, rfl⟩

end Relay

end GuardedActions
