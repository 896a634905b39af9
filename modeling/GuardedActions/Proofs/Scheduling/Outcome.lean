import GuardedActions.Proofs.Scheduling.Arbitration
import GuardedActions.Proofs.Scheduling.Readiness
import GuardedActions.Proofs.Scheduling.Requests
import GuardedActions.Scheduling

/-!
# What a schedule promises

The phases of scheduling put together.  The granted transactions are the winners of the arbitration,
grants follow active calls, early arguments are there, and whatever is granted was ready.
-/

set_option autoImplicit false

namespace GuardedActions

variable {σ : Type}

/-- The activation that a schedule was made from. -/
def Schedule.activation (s : Schedule) : Activation :=
  ⟨s.requested, s.activeSites, s.early, s.requested⟩

/-- A schedule that a machine makes under a plan. -/
structure Machine.Schedules (m : Machine σ) (plan : Plan) (s : Schedule) : Prop where
  /-- it is made for the current cycle -/
  cycle : s.cycle = m.cycle
  /-- the activation is complete -/
  activated : m.Activated plan.order s.activation
  /-- the runnable actions are what readiness comes to -/
  runnable : m.runnableActions s.activation = .ok s.runnable
  /-- there is a place for every action among the granted ones -/
  granted_size : s.granted.size = m.design.main.actions.length
  /-- there is a place for every call site among the granted ones -/
  grantedSites_size : s.grantedSites.size = m.design.main.sites.length
  /-- there is an entry for the driver of every action -/
  selected_length : s.selected.length = m.design.main.actions.length
  /-- the granted transactions are the winners -/
  transaction : ∀ {t : Nat}, (m.design.main.transaction? t).isSome →
    (s.granted.test t = true ↔ t ∈ plan.winners s.runnable)
  /-- every grant comes from a winner -/
  origin : ∀ {a : Nat}, s.granted.test a = true →
    ∃ t ∈ plan.winners s.runnable, m.design.main.ActiveReaches s.activeSites t a
  /-- granted call sites are the active ones of granted actions -/
  site : ∀ {i : Nat}, s.grantedSites.test i = true ↔ ∃ u : Site σ, m.design.main.sites[i]? = some u ∧
    s.activeSites.test i = true ∧ s.granted.test u.caller = true
  /-- the callee of a granted call site is granted -/
  callee : ∀ {i : Nat} {u : Site σ}, m.design.main.sites[i]? = some u →
    s.grantedSites.test i = true → s.granted.test u.callee.id = true
  /-- an active call site has supplied what it supplies -/
  early : ∀ {i : Nat} {u : Site σ}, m.design.main.sites[i]? = some u → s.activeSites.test i = true →
    u.arguments.isSome = true → ∃ args, s.earlyOf i = some args ∧
      ∀ {x : Method σ}, m.design.method? u.callee = some x → args.shape = x.input
  /-- the first granted caller drives a granted method, and nothing drives other actions -/
  selectedOf : ∀ id, s.selectedOf id =
    if (m.design.main.method? id).isSome && s.granted.test id then
      (plan.callersOf id).find? s.grantedSites.test
    else none
  /-- a granted call was ready -/
  ready : ∀ {i : Nat} {u : Site σ} {x : Method σ}, m.design.main.sites[i]? = some u →
    s.grantedSites.test i = true → m.design.method? u.callee = some x →
    Guard.holds x.ready (m.viewWith s.activeSites s.early) = .ok true ∧
      Machine.validates (m.viewWith s.activeSites s.early) s.early x i = .ok true

namespace Machine

variable {m : Machine σ}

/-- The phases of a schedule that was made. -/
theorem scheduleWith_eq_ok {plan : Plan} {s : Schedule} (h : m.scheduleWith plan = .ok s) :
    ∃ (a : Activation) (runnable : Mask) (g : Grants), m.activateAll plan.order = .ok a ∧
      m.runnableActions a = .ok runnable ∧
      m.grantAll a.active plan.order (plan.winners runnable) = .ok g ∧ s =
        { cycle := m.cycle
          requested := a.requested
          runnable := runnable
          granted := g.actions
          activeSites := a.active
          grantedSites := g.sites
          selected := m.design.main.ids.map fun id => Driver.ofSite? (m.selectCaller plan g id)
          early := a.early } := by
  unfold scheduleWith at h
  obtain ⟨a, ha, h⟩ := bind_eq_ok.mp h
  obtain ⟨runnable, hrunnable, h⟩ := bind_eq_ok.mp h
  obtain ⟨g, hg, h⟩ := bind_eq_ok.mp h
  exact ⟨a, runnable, g, ha, hrunnable, hg, (Except.ok.inj h).symm⟩

/-- Along active calls from a runnable transaction all calls are ready. -/
theorem siteReady_of_activeReaches {a : Activation} {t b : Nat}
    (ht : ∀ s ∈ m.activeSitesOf a t, m.SiteReady a s)
    (h : m.design.main.ActiveReaches a.active t b) : ∀ s ∈ m.activeSitesOf a b, m.SiteReady a s := by
  induction h with
  | refl => exact ht
  | tail _ hcall ih =>
    obtain ⟨i, u, hu, hactive, rfl, rfl⟩ := hcall
    obtain ⟨hready, -⟩ := ih (i, u) (mem_activeSitesOf.mpr ⟨hu, rfl, hactive⟩)
    cases hready with
    | intro _ callees accepted => exact fun s hs => ⟨callees s hs, accepted s hs⟩

/-- The drivers of a schedule are those that the grants select. -/
theorem selectedOf_map {plan : Plan} {g : Grants} {s : Schedule}
    (hs : s.selected = m.design.main.ids.map fun id => Driver.ofSite? (m.selectCaller plan g id))
    (id : Nat) : s.selectedOf id = m.selectCaller plan g id := by
  unfold Schedule.selectedOf
  rw [hs, List.getElem?_map]
  unfold Registry.ids
  by_cases hid : id < m.design.main.actions.length
  · rw [List.getElem?_range hid, Option.map_some, Option.bind_some, Driver.site?_ofSite?]
  · rw [List.getElem?_eq_none (by rw [List.length_range]; omega)]
    unfold selectCaller
    cases hmethod : (m.design.main.method? id).isSome with
    | false => rfl
    | true => exact absurd (Registry.lt_length_of_method? hmethod) hid

/-- The activation of a schedule, when only requested actions were dealt with. -/
theorem Activated.eq_of_requested {order : List Nat} {a : Activation} (h : m.Activated order a) :
    a = ⟨a.requested, a.active, a.early, a.requested⟩ := by
  have hexpanded : a.expanded = a.requested := by
    apply Mask.eq_of_test
    · rw [h.explained.expanded_size, h.explained.requested_size]
    · exact fun x => ⟨h.explained.expanded, h.expanded⟩
  obtain ⟨requested, active, early, expanded⟩ := a
  simp only at hexpanded ⊢
  rw [hexpanded]

/-- A schedule that is made keeps its promises. -/
theorem schedules_of_schedule {plan : Plan} {s : Schedule} (h : m.design.main.Elaborated plan)
    (hplan : m.design.main.plan = some plan) (hs : m.schedule = .ok s) : m.Schedules plan s := by
  unfold schedule at hs
  rw [hplan] at hs
  obtain ⟨a, runnable, g, ha, hrunnable, hg, rfl⟩ := scheduleWith_eq_ok hs
  have hcallee : ∀ {i : Nat} {u : Site σ}, m.design.main.sites[i]? = some u →
      u.callee.id < m.design.main.actions.length :=
    fun hu => Registry.lt_length_of_method? (h.callee_method hu)
  have hwinner : ∀ t ∈ plan.winners runnable,
      (m.design.main.transaction? t).isSome ∧ runnable.test t = true := by
    intro t ht
    obtain ⟨horder, hrun⟩ := (h.selection_winners runnable).within ht
    exact ⟨h.mem_order.mp horder, hrun⟩
  have hactivated := activateAll_spec hcallee (fun t ht => h.mem_order.mp ht) ha
  have hactivation := hactivated.eq_of_requested
  obtain ⟨hjust, hexpanded⟩ := grantAll_spec hcallee (fun t ht =>
    ⟨h.mem_order.mpr (hwinner t ht).1, Registry.lt_length_of_transaction? (hwinner t ht).1⟩) hg
  have hsite : ∀ {i : Nat}, g.sites.test i = true ↔ ∃ u : Site σ,
      m.design.main.sites[i]? = some u ∧ a.active.test i = true ∧ g.actions.test u.caller = true := by
    intro i
    constructor
    · intro hi
      obtain ⟨u, hu, hactive, hcaller, -⟩ := hjust.site hi
      exact ⟨u, hu, hactive, hcaller⟩
    · rintro ⟨u, hu, hactive, hcaller⟩
      exact hexpanded u.caller hcaller i u hu rfl hactive
  refine ⟨rfl, hactivation ▸ hactivated, hactivation ▸ hrunnable, hjust.actions_size,
    hjust.sites_size, ?_, ?_, hjust.reached, hsite, ?_, ?_, selectedOf_map rfl, ?_⟩
  · unfold Registry.ids
    rw [List.length_map, List.length_range]
  · intro t ht
    constructor
    · intro hgranted
      obtain ⟨w, hw, hreach⟩ := hjust.reached hgranted
      rcases Relation.ReflTransGen.cases_tail hreach with rfl | ⟨b, -, i, u, hu, -, -, rfl⟩
      · exact hw
      · rw [Registry.transaction?_eq_none (h.callee_method hu)] at ht
        cases ht
    · exact hjust.winner t
  · intro i u hu hi
    obtain ⟨v, hv, -, -, hgranted⟩ := hjust.site hi
    obtain rfl : u = v := Option.some.inj (hu.symm.trans hv)
    exact hgranted
  · intro i u hu hactive hsome
    obtain ⟨v, hv, hsupplied⟩ := hactivated.explained.sound.supplied hactive
    obtain rfl : u = v := Option.some.inj (hu.symm.trans hv)
    exact hsupplied hsome
  · intro i u x hu hi hx
    obtain ⟨v, hv, hactive, hcaller⟩ := hsite.mp hi
    obtain rfl : u = v := Option.some.inj (hu.symm.trans hv)
    obtain ⟨t, ht, hreach⟩ := hjust.reached hcaller
    have hcalls : ∀ s ∈ m.activeSitesOf a t, m.SiteReady a s := by
      obtain ⟨htransaction, hrun⟩ := hwinner t ht
      rcases ((runnableActions_iff h hrunnable).mp hrun).2 with ⟨hmethod, -⟩ | ⟨-, hcalls⟩
      · rw [Registry.method?_eq_none htransaction] at hmethod
        cases hmethod
      · exact hcalls
    have hready := siteReady_of_activeReaches hcalls hreach
    obtain ⟨hmethod, haccepted⟩ := hready (i, u) (mem_activeSitesOf.mpr ⟨hu, rfl, hactive⟩)
    refine ⟨?_, haccepted hx⟩
    have hx : m.design.main.method? u.callee.id = some x := by
      rw [h.method?_callee hu] at hx
      exact hx
    cases hmethod with
    | intro own _ _ =>
      rw [hx, Option.bind_some] at own
      exact own

/-! ## Where grants lead -/

namespace Schedules

variable {plan : Plan} {s : Schedule}

theorem selected (hs : m.Schedules plan s) {id : Nat} (hid : (m.design.main.method? id).isSome)
    (hgranted : s.granted.test id = true) :
    s.selectedOf id = (plan.callersOf id).find? s.grantedSites.test := by
  rw [hs.selectedOf, if_pos (by rw [hid, hgranted]; rfl)]

theorem isSome_of_winner (h : m.design.main.Elaborated plan) {t : Nat}
    (ht : t ∈ plan.winners s.runnable) : (m.design.main.transaction? t).isSome :=
  h.mem_order.mp ((h.selection_winners s.runnable).within ht).1

theorem granted_of_activeReaches (h : m.design.main.Elaborated plan)
    (hs : m.Schedules plan s) {t a : Nat} (ht : t ∈ plan.winners s.runnable)
    (hreach : m.design.main.ActiveReaches s.activeSites t a) : s.granted.test a = true := by
  induction hreach with
  | refl => exact (hs.transaction (isSome_of_winner h ht)).mpr ht
  | tail _ hcall ih =>
    obtain ⟨i, u, hu, hactive, rfl, rfl⟩ := hcall
    exact hs.callee hu (hs.site.mpr ⟨u, hu, hactive, ih⟩)

/-- A granted call site has supplied what it supplies. -/
theorem exists_earlyOf (hs : m.Schedules plan s) {i : Nat} {u : Site σ}
    (hu : m.design.main.sites[i]? = some u) (hgranted : s.grantedSites.test i = true)
    (hsome : u.arguments.isSome = true) : ∃ known, s.earlyOf i = some known := by
  obtain ⟨v, -, hactive, -⟩ := hs.site.mp hgranted
  obtain ⟨known, hknown, -⟩ := hs.early hu hactive hsome
  exact ⟨known, hknown⟩

/-- Every granted method has a granted caller. -/
theorem exists_site (h : m.design.main.Elaborated plan) (hs : m.Schedules plan s) {x : Nat}
    (hx : (m.design.main.method? x).isSome) (hgranted : s.granted.test x = true) :
    ∃ (i : Nat) (u : Site σ), m.design.main.sites[i]? = some u ∧ u.callee.id = x ∧
      s.grantedSites.test i = true := by
  obtain ⟨t, ht, hreach⟩ := hs.origin hgranted
  rcases Relation.ReflTransGen.cases_tail hreach with rfl | ⟨b, hb, i, u, hu, hactive, rfl, rfl⟩
  · have htransaction := isSome_of_winner h ht
    rw [Registry.transaction?_eq_none hx] at htransaction
    cases htransaction
  · exact ⟨i, u, hu, rfl, hs.site.mpr ⟨u, hu, hactive, hs.granted_of_activeReaches h ht hb⟩⟩

/-- Every granted method was ready. -/
theorem ready_of_granted (h : m.design.main.Elaborated plan) (hs : m.Schedules plan s) {x : Nat}
    {target : Method σ} (hx : m.design.main.method? x = some target) (hgranted : s.granted.test x = true) :
    Guard.holds target.ready (m.viewWith s.activeSites s.early) = .ok true := by
  have hsome : (m.design.main.method? x).isSome := by rw [hx]; rfl
  obtain ⟨i, u, hu, rfl, hi⟩ := hs.exists_site h hsome hgranted
  exact (hs.ready hu hi ((h.method?_callee hu).trans hx)).1

/-- What is granted and no method is a transaction. -/
theorem transaction_of_granted (h : m.design.main.Elaborated plan) (hs : m.Schedules plan s) {b : Nat}
    (hgranted : s.granted.test b = true) (hmethod : m.design.main.method? b = none) :
    (m.design.main.transaction? b).isSome := by
  obtain ⟨t, ht, hreach⟩ := hs.origin hgranted
  rcases Relation.ReflTransGen.cases_tail hreach with rfl | ⟨_, -, i, u, hu, -, -, rfl⟩
  · exact isSome_of_winner h ht
  · have hsome := h.callee_method hu
    rw [hmethod] at hsome
    cases hsome

/-! ## Which call site drives a method -/

/-- The driver of a granted method is a granted call site that targets it. -/
theorem driver_of_selectedOf (built : m.design.Built) (own : m.design.OwnCallers)
    (hplan : m.design.main.plan = some plan) (hs : m.Schedules plan s) {x driver : Nat}
    (hx : (m.design.main.method? x).isSome) (hgranted : s.granted.test x = true)
    (hselected : s.selectedOf x = some driver) : s.grantedSites.test driver = true ∧
      ∃ w : Site σ, m.design.main.sites[driver]? = some w ∧ w.callee = ⟨.main, x⟩ := by
  rw [hs.selected hx hgranted] at hselected
  exact ⟨List.find?_some hselected,
    (built.mem_callersOf own hplan hx).mp (List.mem_of_find?_eq_some hselected)⟩

/-- What a granted call site targets has a driver, a granted call site. -/
theorem exists_selectedOf (built : m.design.Built) (hplan : m.design.main.plan = some plan)
    (hs : m.Schedules plan s) {i : Nat} {u : Site σ} (hu : m.design.main.sites[i]? = some u)
    (hgranted : s.grantedSites.test i = true) :
    ∃ driver, s.selectedOf u.callee.id = some driver ∧ s.grantedSites.test driver = true := by
  have h := built.elaborated hplan
  have hmem := built.mem_callersOf_of_site hplan hu (h.callee_eq hu)
  rw [hs.selected (h.callee_method hu) (hs.callee hu hgranted)]
  cases hfind : (plan.callersOf u.callee.id).find? s.grantedSites.test with
  | some driver => exact ⟨driver, rfl, List.find?_some hfind⟩
  | none => exact absurd hgranted (List.find?_eq_none.mp hfind i hmem)

end Schedules

end Machine

end GuardedActions
