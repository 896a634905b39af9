import GuardedActions.Proofs.Elaboration.Acyclic
import GuardedActions.Proofs.Elaboration.Cluster
import GuardedActions.Proofs.Frozen

/-!
# Elaborated registries

All that holds of a registry with a plan, whatever was registered before and after the elaboration
that made the plan.  The scheduler and the execution of schedules rely on this and on nothing else
about how a design came to be.
-/

set_option autoImplicit false

namespace GuardedActions

variable {σ : Type}

namespace Registry

/-- A registry together with the plan that elaboration made for it. -/
structure Elaborated (r : Registry σ) (plan : Plan) : Prop where
  /-- no name is used twice -/
  names : r.NamesDistinct
  /-- every action has a body -/
  defined : ∀ {id : Nat} {a : Action σ}, r.action? id = some a → a.isDefined = true
  /-- callers exist -/
  caller_lt : ∀ {i : Nat} {s : Site σ}, r.sites[i]? = some s → s.caller < r.actions.length
  /-- callees belong to the registry -/
  callee_main : ∀ {i : Nat} {s : Site σ}, r.sites[i]? = some s → s.callee.domain = .main
  /-- callees are methods -/
  callee_method : ∀ {i : Nat} {s : Site σ}, r.sites[i]? = some s → (r.method? s.callee.id).isSome
  /-- an action has one call site for a callee -/
  unique : ∀ {i j : Nat} {s u : Site σ}, r.sites[i]? = some s → r.sites[j]? = some u →
    s.caller = u.caller → s.callee = u.callee → i = j
  /-- arguments that a callee needs before arbitration are supplied -/
  in_time : ∀ {i : Nat} {s : Site σ} {x : Method σ}, r.sites[i]? = some s →
    r.method? s.callee.id = some x → x.needsEarly = true → s.arguments.isSome = true
  /-- no action reaches itself -/
  acyclic : r.Acyclic
  /-- closures hold what transactions reach -/
  closed : r.Closed plan.closure
  /-- a transaction reaches nothing through two calls -/
  single : ∀ {t : Nat}, (r.transaction? t).isSome → ∀ {a b x : Nat}, r.Reaches t a →
    r.Reaches t b → r.Calls a x → r.Calls b x → a = b
  /-- no transaction reaches both ends of a declared conflict -/
  apart : r.EndsApart
  /-- the order lists the transactions -/
  mem_order : ∀ {t : Nat}, t ∈ plan.order ↔ (r.transaction? t).isSome
  /-- the order is strict -/
  ranked : plan.order.Pairwise r.Outranks
  /-- the conflicts of the plan are the competing transactions -/
  conflict : ∀ {a b : Nat}, plan.ranking.conflict a b = true ↔ r.Competes a b
  /-- clusters are what arbitration takes them for -/
  clusters : ∀ c ∈ plan.clusters, c.Sound plan.ranking
  /-- every transaction is in a cluster -/
  covered : ∀ {t : Nat}, (r.transaction? t).isSome → ∃ c ∈ plan.clusters, t ∈ c.members

namespace Elaborated

variable {r : Registry σ} {plan : Plan}

theorem exists_methodBody (h : r.Elaborated plan) {id : Nat} {x : Method σ}
    (hx : r.method? id = some x) : ∃ body, x.body = some body := by
  obtain ⟨a, ha, hax⟩ := method?_eq_some.mp hx
  exact Action.exists_body_of_method? hax (h.defined ha)

theorem exists_transactionBody (h : r.Elaborated plan) {id : Nat} {t : Transaction σ}
    (ht : r.transaction? id = some t) : ∃ body, t.body = some body := by
  obtain ⟨a, ha, hat⟩ := transaction?_eq_some.mp ht
  exact Action.exists_body_of_transaction? hat (h.defined ha)

theorem callee_eq (h : r.Elaborated plan) {i : Nat} {u : Site σ} (hu : r.sites[i]? = some u) :
    u.callee = ⟨.main, u.callee.id⟩ := by
  have hdomain := h.callee_main hu
  obtain ⟨caller, ⟨domain, id⟩, condition, arguments⟩ := u
  simp only at hdomain
  rw [hdomain]

theorem callee_ne (h : r.Elaborated plan) {i t : Nat} {u : Site σ} (hu : r.sites[i]? = some u)
    (ht : (r.transaction? t).isSome) : u.callee.id ≠ t := by
  intro heq
  have hnone := transaction?_eq_none (h.callee_method hu)
  rw [heq] at hnone
  rw [hnone] at ht
  cases ht

/-- Calls lead to actions of the registry. -/
theorem lt_length_of_calls (h : r.Elaborated plan) {a b : Nat} (hcall : r.Calls a b) :
    b < r.actions.length := by
  obtain ⟨i, u, hu, -, rfl⟩ := hcall
  exact lt_length_of_method? (h.callee_method hu)

/-- Calls are nested less deep than there are actions. -/
theorem shallow (h : r.Elaborated plan) {a : Nat} (ha : a < r.actions.length) :
    r.Shallow (r.actions.length + 1) a :=
  h.acyclic.shallow h.lt_length_of_calls ha (Nat.le_succ _)

/-- The callee of a call site is looked up in the same registry. -/
theorem method?_callee {d : Design σ} (h : d.main.Elaborated plan) {i : Nat} {u : Site σ}
    (hu : d.main.sites[i]? = some u) : d.method? u.callee = d.main.method? u.callee.id := by
  rw [Design.method?_eq, h.callee_main hu]
  rfl

theorem nameOf_callee {d : Design σ} (h : d.main.Elaborated plan) {i : Nat} {u : Site σ}
    (hu : d.main.sites[i]? = some u) : d.nameOf u.callee = d.main.nameOf u.callee.id := by
  unfold Design.nameOf
  rw [h.callee_main hu]
  rfl

/-- Call sites of a shared method with inputs supply their arguments. -/
theorem supplied_of_shared (h : r.Elaborated plan) {i : Nat} {u : Site σ} {x : Method σ}
    (hu : r.sites[i]? = some u) (hx : r.method? u.callee.id = some x)
    (hshared : x.nonexclusive = true) (hinput : x.input.isEmpty = false) :
    u.arguments.isSome = true := by
  refine h.in_time hu hx ?_
  unfold Method.needsEarly
  simp [hshared, hinput]

/-- Call sites of a method with a validator supply their arguments. -/
theorem supplied_of_validator (h : r.Elaborated plan) {i : Nat} {u : Site σ} {x : Method σ}
    {v : Validator σ} (hu : r.sites[i]? = some u) (hx : r.method? u.callee.id = some x)
    (hvalidator : x.validator = some v) : u.arguments.isSome = true := by
  refine h.in_time hu hx ?_
  unfold Method.needsEarly
  simp [hvalidator]

end Elaborated

end Registry

namespace Registry.SameButCallers

variable {r r' : Registry σ}

/-! ## Facts that callers do not touch -/

theorem namesDistinct (h : r.SameButCallers r') (hr : r.NamesDistinct) : r'.NamesDistinct := by
  intro a b x' y' hx' hy' hname
  have ha := h.name a
  have hb := h.name b
  rw [hx', Option.map_some] at ha
  rw [hy', Option.map_some] at hb
  obtain ⟨x, hx, hxname⟩ := Option.map_eq_some_iff.mp ha.symm
  obtain ⟨y, hy, hyname⟩ := Option.map_eq_some_iff.mp hb.symm
  exact hr hx hy (by rw [hxname, hyname, hname])

theorem competes (h : r.SameButCallers r') : r'.Competes = r.Competes := by
  funext a b
  have hexclusive : r'.isExclusive = r.isExclusive := funext h.isExclusive
  unfold Competes ReachEnds
  rw [h.transaction?, h.transaction?, h.reaches, h.conflicts, hexclusive]

theorem outranks (h : r.SameButCallers r') {a b : Nat} (hab : r.Outranks a b) :
    r'.Outranks a b := by
  obtain ⟨x, y, hx, hy, hrank⟩ := hab
  obtain ⟨extra, hextra⟩ := h.action a
  obtain ⟨more, hmore⟩ := h.action b
  rw [hx, Option.map_some] at hextra
  rw [hy, Option.map_some] at hmore
  refine ⟨_, _, hextra, hmore, ?_⟩
  simpa using hrank

/-- A registry is elaborated if its sites are well formed and it was elaborated before callers were
added. -/
theorem elaborated {plan : Plan} (h : r.SameButCallers r') (hr : r.Elaborated plan) :
    r'.Elaborated plan where
  names := h.namesDistinct hr.names
  defined := by
    intro id a' ha'
    have hdefined := h.isDefined id
    rw [ha', Option.map_some] at hdefined
    obtain ⟨a, ha, heq⟩ := Option.map_eq_some_iff.mp hdefined.symm
    rw [← heq]
    exact hr.defined ha
  caller_lt := by
    intro i s hs
    rw [h.sites] at hs
    rw [h.length]
    exact hr.caller_lt hs
  callee_main := by
    intro i s hs
    rw [h.sites] at hs
    exact hr.callee_main hs
  callee_method := by
    intro i s hs
    rw [h.sites] at hs
    rw [h.isSome_method?]
    exact hr.callee_method hs
  unique := by
    intro i j s u hs hu
    rw [h.sites] at hs hu
    exact hr.unique hs hu
  in_time := by
    intro i s x' hs hx' hneeds
    rw [h.sites] at hs
    obtain ⟨extra, hextra⟩ := h.method? s.callee.id
    rw [hx'] at hextra
    obtain ⟨x, hx, rfl⟩ := Option.map_eq_some_iff.mp hextra.symm
    exact hr.in_time hs hx hneeds
  acyclic := by
    unfold Acyclic
    rw [h.calls]
    exact hr.acyclic
  closed := by
    intro t ht x
    rw [h.transaction?] at ht
    rw [h.reaches]
    exact hr.closed ht x
  single := by
    intro t ht a b x
    rw [h.transaction?] at ht
    rw [h.reaches, h.calls]
    exact hr.single ht
  apart := by
    intro pair hpair hne t ht
    rw [h.conflicts] at hpair
    rw [h.transaction?] at ht
    rw [h.reaches]
    exact hr.apart hpair hne ht
  mem_order := by
    intro t
    rw [h.transaction?]
    exact hr.mem_order
  ranked := hr.ranked.imp h.outranks
  conflict := by
    intro a b
    rw [h.competes]
    exact hr.conflict
  clusters := hr.clusters
  covered := by
    intro t ht
    rw [h.transaction?] at ht
    exact hr.covered ht

end Registry.SameButCallers

namespace Design

theorem WellFormed.caller_lt_main {d : Design σ} (h : d.WellFormed) {i : Nat} {s : Site σ}
    (hs : d.main.sites[i]? = some s) : s.caller < d.main.actions.length :=
  h.caller_lt (show (d.registry .main).sites[i]? = some s from hs)

/-- If no callee belongs to another registry, calls lead to actions of the registry. -/
theorem WellFormed.lt_length_of_calls {d : Design σ} (h : d.WellFormed)
    (hmain : ∀ {i : Nat} {s : Site σ}, d.main.sites[i]? = some s → s.callee.domain = .main) {a b : Nat}
    (hcall : d.main.Calls a b) : b < d.main.actions.length := by
  obtain ⟨i, s, hs, -, rfl⟩ := hcall
  exact Registry.lt_length_of_method? (h.isSome_method? hs (hmain hs))

/-- An elaboration that succeeds makes a plan that fits its registry. -/
theorem elaborated_of_analyse {d : Design σ} {closures : List Mask} {ranking : Ranking} {plan : Plan}
    (hwell : d.WellFormed) (hanalyse : d.analyse = .ok closures)
    (hplan : d.main.planWith closures = (ranking, .ok plan)) : d.main.Elaborated plan := by
  unfold analyse at hanalyse
  obtain ⟨⟨⟩, hnames, hanalyse⟩ := bind_eq_ok.mp hanalyse
  obtain ⟨⟨⟩, hbodies, hanalyse⟩ := bind_eq_ok.mp hanalyse
  obtain ⟨⟨⟩, hsites, hanalyse⟩ := bind_eq_ok.mp hanalyse
  obtain ⟨⟨⟩, hacyclic, hclosures⟩ := bind_eq_ok.mp hanalyse
  obtain ⟨hends, rfl⟩ := Registry.planWith_eq_ok hplan
  have hsound := sitesSound_of_checkSites hsites
  have hmethod : ∀ {i : Nat} {s : Site σ}, d.main.sites[i]? = some s →
      (d.main.method? s.callee.id).isSome :=
    fun hs => hwell.isSome_method? hs (hsound.callee_main hs)
  have hcallee : ∀ {a b : Nat}, d.main.Calls a b → b < d.main.actions.length :=
    hwell.lt_length_of_calls hsound.callee_main
  have hclosed : d.main.Closed (Registry.closureIn closures) :=
    Registry.closed_of_closures hcallee hclosures
  have hnames : d.main.NamesDistinct := Registry.namesDistinct_of_checkNames hnames
  have hclusters := Registry.collected_clusters hclosed
  exact
    { names := hnames
      defined := Registry.isDefined_of_checkBodies hbodies
      caller_lt := hwell.caller_lt_main
      callee_main := hsound.callee_main
      callee_method := hmethod
      unique := hsound.unique
      in_time := hsound.in_time
      acyclic := Registry.acyclic_of_checkAcyclic hwell.caller_lt_main hacyclic
      closed := hclosed
      single := by
        intro t ht a b x
        obtain ⟨closure, -, -, hsingle⟩ := Registry.closures_eq_ok hcallee hclosures ht
        exact hsingle a b x
      apart := Registry.endsApart_of_checkConflictEnds hclosed hends
      mem_order := Registry.mem_staticOrder
      ranked := Registry.pairwise_staticOrder hnames
      conflict := Registry.conflict_iff hclosed
      clusters := fun c hc => (hclusters.component c hc).sound
      covered := by
        intro t ht
        rcases hclusters.covered t (Registry.mem_staticOrder.mpr ht) with hnone | hfound
        · rw [Mask.test_none] at hnone
          cases hnone
        · exact hfound }

/-- The plan of a design fits its main registry. -/
theorem Built.elaborated {d : Design σ} {plan : Plan} (h : d.Built) (hplan : d.main.plan = some plan) :
    d.main.Elaborated plan := by
  obtain ⟨before, closures, ranking, hbuilt, hanalyse, hplanned, hsame⟩ := h.exists_elaborated hplan
  exact hsame.elaborated (elaborated_of_analyse hbuilt.wellFormed hanalyse hplanned)

/-! ## Callers -/

/-- A method whose callers are all in the main registry remembers the call sites that target it. -/
theorem Built.callers_eq {d : Design σ} (h : d.Built) (hown : d.OwnCallers) {id : Nat} {x : Method σ}
    (hx : d.main.method? id = some x) : x.callers.map SiteRef.id = d.main.sitesInto ⟨.main, id⟩ := by
  have hwell := h.wellFormed
  have hfilter : x.callers.filter (fun c => c.domain == .main) = x.callers :=
    List.filter_eq_self.mpr fun c hc => by rw [hown id x hx c hc]; rfl
  have hx : d.method? ⟨.main, id⟩ = some x := hx
  have hcallers := hwell.callers hx .main
  rw [hfilter] at hcallers
  exact hcallers

/-- The caller order of a method lists all call sites of the registry that target it, whatever else it
lists. -/
theorem Built.mem_callersOf_of_site {d : Design σ} {plan : Plan} (h : d.Built)
    (hplan : d.main.plan = some plan) {i id : Nat} {u : Site σ} (hu : d.main.sites[i]? = some u)
    (hcallee : u.callee = ⟨.main, id⟩) : i ∈ plan.callersOf id := by
  have hid : (d.main.method? id).isSome := by
    have hsome := (h.elaborated hplan).callee_method hu
    rw [hcallee] at hsome
    exact hsome
  obtain ⟨before, closures, ranking, hbuilt, hanalyse, hplanned, hsame⟩ := h.exists_elaborated hplan
  obtain ⟨-, rfl⟩ := Registry.planWith_eq_ok hplanned
  rw [hsame.isSome_method?] at hid
  obtain ⟨x, hx⟩ := Option.isSome_iff_exists.mp hid
  have hcallers := hbuilt.wellFormed.callers (show before.method? ⟨.main, id⟩ = some x from hx) .main
  have hi : i ∈ before.main.sitesInto ⟨.main, id⟩ := by
    rw [Registry.mem_sitesInto, ← hsame.sites]
    exact ⟨u, hu, hcallee⟩
  rw [show before.main = before.registry .main from rfl, ← hcallers] at hi
  obtain ⟨c, hc, rfl⟩ := List.mem_map.mp hi
  have hlt := Registry.lt_length_of_method? hid
  unfold Plan.callersOf
  simp only
  rw [List.getElem?_map]
  unfold Registry.ids
  rw [List.getElem?_range hlt, Option.map_some, Option.getD_some]
  unfold Registry.rankedCallers
  simp only
  rw [List.mem_mergeSort, hx, Option.map_some, Option.getD_some]
  exact List.mem_map_of_mem (List.mem_of_mem_filter hc)

/-- The caller order of a method lists callers that the method remembers. -/
theorem Built.exists_caller_of_mem_callersOf {d : Design σ} {plan : Plan} (h : d.Built)
    (hplan : d.main.plan = some plan) {id i : Nat} {x : Method σ} (hx : d.main.method? id = some x)
    (hi : i ∈ plan.callersOf id) : ∃ c ∈ x.callers, c.id = i := by
  obtain ⟨before, closures, ranking, -, -, hplanned, hsame⟩ := h.exists_elaborated hplan
  obtain ⟨-, rfl⟩ := Registry.planWith_eq_ok hplanned
  obtain ⟨extra, hextra⟩ := hsame.method? id
  rw [hx] at hextra
  obtain ⟨y, hy, rfl⟩ := Option.map_eq_some_iff.mp hextra.symm
  have hlt : id < before.main.actions.length := by
    refine Registry.lt_length_of_method? ?_
    rw [hy]
    rfl
  unfold Plan.callersOf at hi
  simp only at hi
  rw [List.getElem?_map] at hi
  unfold Registry.ids at hi
  rw [List.getElem?_range hlt, Option.map_some, Option.getD_some] at hi
  unfold Registry.rankedCallers at hi
  simp only at hi
  rw [List.mem_mergeSort, hy, Option.map_some, Option.getD_some] at hi
  obtain ⟨c, hc, rfl⟩ := List.mem_map.mp hi
  exact ⟨c, List.mem_append_left _ hc, rfl⟩

/-- The caller order of a method lists the call sites that target it. -/
theorem Built.mem_callersOf {d : Design σ} {plan : Plan} (h : d.Built) (hown : d.OwnCallers)
    (hplan : d.main.plan = some plan) {id : Nat} (hid : (d.main.method? id).isSome) {i : Nat} :
    i ∈ plan.callersOf id ↔ ∃ s : Site σ, d.main.sites[i]? = some s ∧ s.callee = ⟨.main, id⟩ := by
  obtain ⟨before, closures, ranking, hbuilt, hanalyse, hplanned, hsame⟩ := h.exists_elaborated hplan
  obtain ⟨-, rfl⟩ := Registry.planWith_eq_ok hplanned
  rw [hsame.isSome_method?] at hid
  obtain ⟨x, hx⟩ := Option.isSome_iff_exists.mp hid
  have hown' : before.OwnCallers := by
    intro id y hy c hc
    obtain ⟨extra, hextra⟩ := hsame.method? id
    rw [hy, Option.map_some] at hextra
    exact hown id _ hextra c (List.mem_append_left _ hc)
  have hlt := Registry.lt_length_of_method? hid
  unfold Plan.callersOf
  simp only
  rw [List.getElem?_map]
  unfold Registry.ids
  rw [List.getElem?_range hlt, Option.map_some, Option.getD_some]
  unfold Registry.rankedCallers
  simp only
  rw [List.mem_mergeSort, hx, Option.map_some, Option.getD_some, hbuilt.callers_eq hown' hx,
    Registry.mem_sitesInto, hsame.sites]

end Design

end GuardedActions
