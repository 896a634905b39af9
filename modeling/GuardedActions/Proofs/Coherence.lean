import GuardedActions.Proofs.Runnability

/-!
# The parts of a schedule fit together

Requests and grants are what can be reached: requests along call sites whose conditions hold, from
transactions that want to run, and grants along active call sites, from granted transactions.  All
other parts of a schedule follow from these.
-/

set_option autoImplicit false

namespace GuardedActions

variable {σ : Type}

/-- The parts of a schedule, as the answers to an inquiry have them. -/
structure Machine.Coherent (m : Machine σ) (s : Schedule) (q : Inquiry σ) : Prop where
  /-- a transaction is requested if it wants to run -/
  requested_transaction : ∀ {t : Nat}, (m.design.main.transaction? t).isSome →
    (s.requested.test t = true ↔ q.Wants m t)
  /-- a method is requested if it is reached from a transaction that wants to run, along call sites
  whose conditions hold -/
  requested_method : ∀ {x : Nat}, (m.design.main.method? x).isSome →
    (s.requested.test x = true ↔ ∃ t, q.Wants m t ∧ q.Reaches m t x)
  /-- a call site is active if its condition holds and its caller is requested -/
  active : ∀ {i : Nat} {u : Site σ}, m.design.main.sites[i]? = some u →
    (s.activeSites.test i = true ↔
      Guard.holds u.condition (q.condition i) = .ok true ∧ s.requested.test u.caller = true)
  /-- a method is granted if it is reached from a granted transaction along active call sites -/
  granted_method : ∀ {x : Nat}, (m.design.main.method? x).isSome →
    (s.granted.test x = true ↔ ∃ t, (m.design.main.transaction? t).isSome ∧
      s.granted.test t = true ∧ m.design.main.ActiveReaches s.activeSites t x)
  /-- a call site is granted if it is active and its caller is granted -/
  granted_site : ∀ {i : Nat} {u : Site σ}, m.design.main.sites[i]? = some u →
    (s.grantedSites.test i = true ↔ s.activeSites.test i = true ∧ s.granted.test u.caller = true)
  /-- early arguments are there if the call site is active and supplies arguments -/
  early : ∀ {i : Nat} {u : Site σ}, m.design.main.sites[i]? = some u →
    ((s.earlyOf i).isSome ↔ s.activeSites.test i = true ∧ u.arguments.isSome)
  /-- they are those that it supplies -/
  supplied : q.Supplies m s
  /-- a call site is selected for an action if it is a granted method -/
  selected : ∀ x, (s.selectedOf x).isSome ↔
    (m.design.main.method? x).isSome ∧ s.granted.test x = true
  /-- it is a granted call site of the method -/
  selected_site : ∀ {x i : Nat}, s.selectedOf x = some i → s.grantedSites.test i = true ∧
    ∃ u : Site σ, m.design.main.sites[i]? = some u ∧ u.callee = ⟨.main, x⟩
  /-- granted actions can run -/
  runnable : ∀ {a : Nat}, s.granted.test a = true → s.runnable.test a = true
  /-- actions that can run are requested -/
  requested : ∀ {a : Nat}, s.runnable.test a = true → s.requested.test a = true
  /-- a granted call site is active and has a granted callee -/
  callee : ∀ {i : Nat} {u : Site σ}, m.design.main.sites[i]? = some u →
    s.grantedSites.test i = true → s.activeSites.test i = true ∧ s.granted.test u.callee.id = true

/-- There is a place for every action and every call site, and for no others. -/
structure Schedule.Sized (s : Schedule) (actions sites : Nat) : Prop where
  /-- requested actions -/
  requested : s.requested.size = actions
  /-- runnable actions -/
  runnable : s.runnable.size = actions
  /-- granted actions -/
  granted : s.granted.size = actions
  /-- drivers -/
  selected : s.selected.length = actions
  /-- active call sites -/
  activeSites : s.activeSites.size = sites
  /-- granted call sites -/
  grantedSites : s.grantedSites.size = sites
  /-- early arguments -/
  early : s.early.length = sites

namespace Machine

variable {m : Machine σ} {plan : Plan} {s : Schedule}

namespace Schedules

/-- A winner can run. -/
theorem runnable_of_winner (h : m.design.main.Elaborated plan) {t : Nat}
    (ht : t ∈ plan.winners s.runnable) : s.runnable.test t = true :=
  ((h.selection_winners s.runnable).within ht).2

/-- What can run is requested. -/
theorem requested_of_runnable (h : m.design.main.Elaborated plan) (hs : m.Schedules plan s) {a : Nat}
    (ha : s.runnable.test a = true) : s.requested.test a = true :=
  ((runnableActions_iff h hs.runnable).mp ha).1

/-- Below a requested action, active call sites lead to requested ones. -/
theorem requested_of_activeReaches (hs : m.Schedules plan s) {a b : Nat}
    (ha : s.requested.test a = true) (hreach : m.design.main.ActiveReaches s.activeSites a b) :
    s.requested.test b = true := by
  rcases Relation.ReflTransGen.cases_tail hreach with rfl | ⟨c, -, i, u, hu, hactive, -, rfl⟩
  · exact ha
  · obtain ⟨v, hv, -, hcallee, -⟩ := hs.exists_active hactive
    obtain rfl := Option.some.inj (hu.symm.trans hv)
    exact hcallee

/-- What is granted can run: a winner can, and what it reaches is ready and requested. -/
theorem runnable_of_granted (h : m.design.main.Elaborated plan) (hs : m.Schedules plan s) {a : Nat}
    (ha : s.granted.test a = true) : s.runnable.test a = true := by
  obtain ⟨t, ht, hreach⟩ := hs.origin ha
  have hrunnable := runnable_of_winner h ht
  rcases Relation.ReflTransGen.cases_tail hreach with rfl | ⟨b, hb, i, u, hu, hactive, rfl, rfl⟩
  · exact hrunnable
  · have hready : ∀ x ∈ m.activeSitesOf s.activation t, m.SiteReady s.activation x := by
      rcases ((runnableActions_iff h hs.runnable).mp hrunnable).2 with ⟨hmethod, -⟩ | ⟨-, hready⟩
      · rw [Registry.method?_eq_none (isSome_of_winner h ht)] at hmethod
        cases hmethod
      · exact hready
    obtain ⟨hmethod, -⟩ := siteReady_of_activeReaches hready hb (i, u)
      (mem_activeSitesOf.mpr ⟨hu, rfl, hactive⟩)
    have hrequested := hs.requested_of_activeReaches (hs.requested_of_runnable h hrunnable) hreach
    exact (runnableActions_iff h hs.runnable).mpr ⟨hrequested, Or.inl ⟨h.callee_method hu, hmethod⟩⟩

/-- Grants are what granted transactions reach along active call sites. -/
theorem granted_iff (h : m.design.main.Elaborated plan) (hs : m.Schedules plan s) {x : Nat} :
    s.granted.test x = true ↔ ∃ t, (m.design.main.transaction? t).isSome ∧
      s.granted.test t = true ∧ m.design.main.ActiveReaches s.activeSites t x := by
  constructor
  · intro hx
    obtain ⟨t, ht, hreach⟩ := hs.origin hx
    have htransaction := isSome_of_winner h ht
    exact ⟨t, htransaction, (hs.transaction htransaction).mpr ht, hreach⟩
  · rintro ⟨t, htransaction, ht, hreach⟩
    exact hs.granted_of_activeReaches h ((hs.transaction htransaction).mp ht) hreach

theorem grantedSites_iff (hs : m.Schedules plan s) {i : Nat} {u : Site σ}
    (hu : m.design.main.sites[i]? = some u) : s.grantedSites.test i = true ↔
      s.activeSites.test i = true ∧ s.granted.test u.caller = true := by
  rw [hs.site]
  constructor
  · rintro ⟨v, hv, hactive, hcaller⟩
    obtain rfl := Option.some.inj (hu.symm.trans hv)
    exact ⟨hactive, hcaller⟩
  · exact fun ⟨hactive, hcaller⟩ => ⟨u, hu, hactive, hcaller⟩

theorem isSome_earlyOf_iff (hs : m.Schedules plan s) {i : Nat} {u : Site σ}
    (hu : m.design.main.sites[i]? = some u) :
    (s.earlyOf i).isSome ↔ s.activeSites.test i = true ∧ u.arguments.isSome := by
  constructor
  · intro hsome
    obtain ⟨args, hargs⟩ := Option.isSome_iff_exists.mp hsome
    obtain ⟨hactive, v, supplier, -, hv, hsupplier, -⟩ := hs.activated.explained.early hargs
    obtain rfl := Option.some.inj (hu.symm.trans hv)
    exact ⟨hactive, by rw [hsupplier]; rfl⟩
  · rintro ⟨hactive, hsupplies⟩
    obtain ⟨args, hargs, -⟩ := hs.early hu hactive hsupplies
    rw [hargs]
    rfl

/-- A call site that is selected is a granted call site of a granted method. -/
theorem of_selectedOf (built : m.design.Built) (own : m.design.OwnCallers)
    (hplan : m.design.main.plan = some plan) (hs : m.Schedules plan s) {x i : Nat}
    (hi : s.selectedOf x = some i) :
    ((m.design.main.method? x).isSome ∧ s.granted.test x = true) ∧
      s.grantedSites.test i = true ∧
        ∃ u : Site σ, m.design.main.sites[i]? = some u ∧ u.callee = ⟨.main, x⟩ := by
  have hselected := hi
  rw [hs.selectedOf] at hi
  split at hi
  · rename_i hgranted
    rw [Bool.and_eq_true] at hgranted
    exact ⟨hgranted, hs.driver_of_selectedOf built own hplan hgranted.1 hgranted.2 hselected⟩
  · cases hi

/-- For every granted method a call site is selected. -/
theorem isSome_selectedOf (built : m.design.Built) (hplan : m.design.main.plan = some plan)
    (hs : m.Schedules plan s) {x : Nat} (hx : (m.design.main.method? x).isSome)
    (hgranted : s.granted.test x = true) : (s.selectedOf x).isSome := by
  obtain ⟨i, u, hu, rfl, hi⟩ := hs.exists_site (built.elaborated hplan) hx hgranted
  obtain ⟨driver, hselected, -⟩ := hs.exists_selectedOf built hplan hu hi
  rw [hselected]
  rfl

theorem sized (h : m.design.main.Elaborated plan) (hs : m.Schedules plan s) :
    s.Sized m.design.main.actions.length m.design.main.sites.length where
  requested := hs.activated.explained.requested_size
  runnable := (foundRunnable_of_runnableActions h hs.runnable).size
  granted := hs.granted_size
  selected := hs.selected_length
  activeSites := hs.activated.explained.sound.active_size
  grantedSites := hs.grantedSites_size
  early := hs.activated.explained.sound.early_length

/-- All parts follow from any answers from which the requests and the early arguments follow. -/
theorem coherent (built : m.design.Built) (own : m.design.OwnCallers)
    (hplan : m.design.main.plan = some plan) (hs : m.Schedules plan s) {q : Inquiry σ}
    (hq : q.Explains m s) (hsupplied : q.Supplies m s) : m.Coherent s q where
  requested_transaction := hq.transaction
  requested_method := fun _ => hq.requested_iff hs
  active := hq.site
  granted_method := fun _ => hs.granted_iff (built.elaborated hplan)
  granted_site := hs.grantedSites_iff
  early := hs.isSome_earlyOf_iff
  supplied := hsupplied
  selected := by
    intro x
    constructor
    · intro hsome
      obtain ⟨i, hi⟩ := Option.isSome_iff_exists.mp hsome
      exact (hs.of_selectedOf built own hplan hi).1
    · rintro ⟨hx, hgranted⟩
      exact hs.isSome_selectedOf built hplan hx hgranted
  selected_site := fun hi => (hs.of_selectedOf built own hplan hi).2
  runnable := hs.runnable_of_granted (built.elaborated hplan)
  requested := hs.requested_of_runnable (built.elaborated hplan)
  callee := fun hu hi => ⟨((hs.grantedSites_iff hu).mp hi).1, hs.callee hu hi⟩

end Schedules

/-- The parts of every schedule fit together, for some answers that were given on the way to it; if no
answer changes on the way, for all that were. -/
theorem coherent_of_schedule (built : m.design.Built) (own : m.design.OwnCallers)
    (hplan : m.design.main.plan = some plan) (hs : m.schedule = .ok s) :
    s.Sized m.design.main.actions.length m.design.main.sites.length ∧
      (∃ q : Inquiry σ, q.Within m s ∧ m.Coherent s q) ∧
        (m.SteadyRequests s → ∀ q : Inquiry σ, q.Within m s → q.Supplies m s →
          m.Coherent s q) := by
  have h := built.elaborated hplan
  have hs := schedules_of_schedule h hplan hs
  obtain ⟨q, hwithin, hq, hsupplied⟩ := hs.exists_inquiry h
  refine ⟨hs.sized h, ⟨q, hwithin, hs.coherent built own hplan hq hsupplied⟩, ?_⟩
  intro hsteady q' hwithin' hsupplied'
  exact hs.coherent built own hplan (hq.of_steady hwithin hsteady hwithin') hsupplied'

end Machine

namespace Accumulator

/-- Asked in the end, the two calls that supply arguments supply those of the schedule. -/
theorem supplies_final : (Inquiry.final machine schedule).Supplies machine schedule := by
  intro i args hargs
  rw [show machine.design = design from rfl, sites_eq]
  match i with
  | 0 | 3 => cases hargs
  | 1 | 2 =>
    obtain rfl := Option.some.inj hargs
    exact ⟨_, _, rfl, rfl, rfl⟩
  | _ + 4 => cases hargs

/-- The schedule of the accumulator, in which a transaction that could run is not granted. -/
theorem coherent_schedule : design.main.plan = some plan ∧ machine.schedule = .ok schedule ∧
    schedule.Sized 5 4 ∧ machine.SteadyRequests schedule ∧
    machine.Coherent schedule (.final machine schedule) ∧
    schedule.runnable.test 3 = true ∧ schedule.granted.test 3 = false := by
  have hactions : design.main.actions.length = 5 := by
    rw [actions_eq]
    rfl
  have hsites : design.main.sites.length = 4 := by
    rw [sites_eq]
    rfl
  obtain ⟨hsized, -, hcoherent⟩ :=
    Machine.coherent_of_schedule (m := machine) built ownCallers plan_eq schedule_eq
  rw [show machine.design = design from rfl, hactions, hsites] at hsized
  have hsteady := steadyRequests (m := machine) rfl schedule
  have hfinal := hcoherent hsteady _ (Inquiry.within_final machine schedule) supplies_final
  exact ⟨plan_eq, schedule_eq, hsized, hsteady, hfinal, rfl, rfl⟩

end Accumulator

end GuardedActions
