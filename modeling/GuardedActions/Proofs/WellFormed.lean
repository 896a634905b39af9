import GuardedActions.Proofs.Extension

/-!
# Well-formed designs

In a design that registrations made, every call site has a caller and a callee, declared conflicts are
between actions, and a method remembers exactly the call sites that target it, those of each registry
in the order of their declaration.  Once the main registry has a plan, nothing but a call from the
guest registry can touch it.
-/

set_option autoImplicit false

namespace GuardedActions

variable {σ : Type}

namespace Design

/-- What registrations keep true of a design. -/
structure WellFormed (d : Design σ) : Prop where
  /-- callers exist -/
  caller_lt : ∀ {domain} {i : Nat} {s : Site σ}, (d.registry domain).sites[i]? = some s →
    s.caller < (d.registry domain).actions.length
  /-- callees exist and are methods -/
  callee_method : ∀ {domain} {i : Nat} {s : Site σ}, (d.registry domain).sites[i]? = some s →
    (d.method? s.callee).isSome
  /-- a method knows the call sites that target it -/
  callers : ∀ {ref x}, d.method? ref = some x → ∀ domain,
    (x.callers.filter fun c => c.domain == domain).map SiteRef.id =
      (d.registry domain).sitesInto ref
  /-- declared conflicts are between actions -/
  conflict_lt : ∀ {pair}, pair ∈ d.main.conflicts →
    pair.1 < d.main.actions.length ∧ pair.2 < d.main.actions.length

theorem method?_eq (d : Design σ) (ref : ActionRef) :
    d.method? ref = (d.registry ref.domain).method? ref.id := rfl

/-- A callee of the main registry is one of its methods. -/
theorem WellFormed.isSome_method? {d : Design σ} (h : d.WellFormed) {i : Nat} {s : Site σ}
    (hs : d.main.sites[i]? = some s) (hmain : s.callee.domain = .main) :
    (d.main.method? s.callee.id).isSome := by
  have hsome := h.callee_method (show (d.registry .main).sites[i]? = some s from hs)
  rw [method?_eq, hmain] at hsome
  exact hsome

theorem wellFormed_empty : ({} : Design σ).WellFormed where
  caller_lt := by
    intro domain i s h
    cases domain <;> cases h
  callee_method := by
    intro domain i s h
    cases domain <;> cases h
  callers := by
    intro ref x h
    obtain ⟨domain, id⟩ := ref
    cases domain <;> cases h
  conflict_lt := by
    intro pair h
    cases h

/-- Changes that keep the calls of both registries keep a design well formed. -/
theorem WellFormed.of_extends {d d' : Design σ} (h : d.WellFormed)
    (hext : ∀ domain, (d.registry domain).Extends (d'.registry domain)) : d'.WellFormed := by
  have hsite : ∀ {domain} {i : Nat} {s' : Site σ}, (d'.registry domain).sites[i]? = some s' →
      ∃ s : Site σ, (d.registry domain).sites[i]? = some s ∧ s.caller = s'.caller ∧ s.callee = s'.callee := by
    intro domain i s' hs'
    have hends : ((d.registry domain).sites.map Site.ends)[i]? = some s'.ends := by
      rw [← (hext domain).sites, List.getElem?_map, hs']
      rfl
    rw [List.getElem?_map] at hends
    obtain ⟨s, hs, heq⟩ := Option.map_eq_some_iff.mp hends
    obtain ⟨hcaller, hcallee⟩ := Prod.mk.inj heq
    exact ⟨s, hs, hcaller, hcallee⟩
  refine ⟨?_, ?_, ?_, ?_⟩
  · intro domain i s' hs'
    obtain ⟨s, hs, hcaller, -⟩ := hsite hs'
    rw [← hcaller]
    exact Nat.lt_of_lt_of_le (h.caller_lt hs) (hext domain).length_le
  · intro domain i s' hs'
    obtain ⟨s, hs, -, hcallee⟩ := hsite hs'
    rw [← hcallee, method?_eq]
    exact (hext s.callee.domain).methods s.callee.id (h.callee_method hs)
  · intro ref x' hx' domain
    have hinto : (d'.registry domain).sitesInto ref = (d.registry domain).sitesInto ref := by
      unfold Registry.sitesInto
      rw [(hext domain).sites]
    rw [hinto]
    rcases (hext ref.domain).callers ref.id x' hx' with ⟨x, hx, heq⟩ | ⟨hnone, -, hnil⟩
    · rw [← heq]
      exact h.callers hx domain
    · -- no call site can target a method that did not exist
      rw [hnil]
      symm
      refine List.eq_nil_iff_forall_not_mem.mpr fun i hi => ?_
      obtain ⟨s, hs, hcallee⟩ := Registry.mem_sitesInto.mp hi
      have hsome := h.callee_method hs
      rw [hcallee, method?_eq, hnone] at hsome
      cases hsome
  · intro pair hpair
    have hconflicts : d'.main.conflicts = d.main.conflicts := (hext .main).conflicts
    have hle : d.main.actions.length ≤ d'.main.actions.length := (hext .main).length_le
    rw [hconflicts] at hpair
    have hlt := h.conflict_lt hpair
    exact ⟨Nat.lt_of_lt_of_le hlt.1 hle, Nat.lt_of_lt_of_le hlt.2 hle⟩

/-! ## One registry changes -/

theorem changeRegistry_eq_ok {d d' : Design σ} {domain : Domain}
    {f : Registry σ → Except Fault (Registry σ)} (h : d.changeRegistry domain f = .ok d') :
    ∃ r, f (d.registry domain) = .ok r ∧ d' = d.withRegistry domain r := by
  unfold changeRegistry at h
  obtain ⟨r, hr, heq⟩ := bind_eq_ok.mp h
  exact ⟨r, hr, (Except.ok.inj heq).symm⟩

theorem extends_withRegistry {d : Design σ} {domain : Domain} {r : Registry σ}
    (h : (d.registry domain).Extends r) (other : Domain) :
    (d.registry other).Extends ((d.withRegistry domain r).registry other) := by
  by_cases heq : other = domain
  · rw [heq, registry_withRegistry]
    exact h
  · rw [registry_withRegistry_of_ne d heq]
    exact .of_eq rfl rfl rfl

/-! ## A new call -/

/-- What a method becomes when a call site starts to target it. -/
def remember (c : SiteRef) (x : Method σ) : Method σ := { x with callers := x.callers ++ [c] }

/-- What a new call does to the design. -/
structure NewCall (d : Design σ) (caller callee : ActionRef) (d' : Design σ) : Prop where
  /-- the registry of the caller is not frozen -/
  not_frozen : (d.registry caller.domain).plan = none
  /-- there is one call site more -/
  sites : ∀ domain, (d'.registry domain).sites = (d.registry domain).sites ++
    if domain = caller.domain then [⟨caller.id, callee, none, none⟩] else []
  /-- the callee remembers it -/
  action : ∀ ref, d'.action? ref = if ref = callee then
    (d.action? ref).map (Action.mapMethod
      (remember ⟨caller.domain, (d.registry caller.domain).sites.length⟩)) else d.action? ref
  /-- the other tables are as they were -/
  rest : ∀ domain, (d'.registry domain).actions.length = (d.registry domain).actions.length ∧
    (d'.registry domain).conflicts = (d.registry domain).conflicts ∧
    (d'.registry domain).plan = (d.registry domain).plan
  /-- so is what elaboration entered -/
  ranking : ∀ domain, (d'.registry domain).ranking = (d.registry domain).ranking

theorem newCall_of_declareCall {d d' : Design σ} {caller callee : ActionRef} {id : Nat}
    (h : d.declareCall caller callee = .ok (id, d')) : d.NewCall caller callee d' := by
  unfold declareCall at h
  obtain ⟨u, hallow, hr⟩ := bind_eq_ok.mp h
  obtain ⟨rfl, rfl⟩ := Prod.mk.inj (Except.ok.inj hr)
  obtain ⟨callerDomain, callerId⟩ := caller
  obtain ⟨calleeDomain, calleeId⟩ := callee
  refine ⟨Registry.allow_eq_ok hallow, ?_, ?_, ?_, ?_⟩
  · intro domain
    cases callerDomain <;> cases calleeDomain <;> cases domain <;>
      simp [withRegistry, registry, Registry.modifyAction]
  · rintro ⟨domain, id⟩
    by_cases hid : calleeId = id
    · subst hid
      cases callerDomain <;> cases calleeDomain <;> cases domain <;>
        simp [withRegistry, registry, action?, Registry.action?_modifyAction] <;> rfl
    · have hne : ¬ id = calleeId := fun h => hid h.symm
      cases callerDomain <;> cases calleeDomain <;> cases domain <;>
        simp [withRegistry, registry, action?, Registry.action?_modifyAction, hid, hne] <;> rfl
  · intro domain
    cases callerDomain <;> cases calleeDomain <;> cases domain <;>
      simp [withRegistry, registry, Registry.modifyAction]
  · intro domain
    cases callerDomain <;> cases calleeDomain <;> cases domain <;>
      simp [withRegistry, registry, Registry.modifyAction]

theorem NewCall.method? {d d' : Design σ} {caller callee : ActionRef}
    (h : d.NewCall caller callee d') (ref : ActionRef) :
    d'.method? ref = if ref = callee then
      (d.method? ref).map
        (remember ⟨caller.domain, (d.registry caller.domain).sites.length⟩)
      else d.method? ref := by
  unfold Design.method?
  rw [h.action]
  split
  · cases d.action? ref <;> simp
  · rfl

theorem WellFormed.of_newCall {d d' : Design σ} {caller callee : ActionRef} (h : d.WellFormed)
    (hcaller : (d.action? caller).isSome) (hcallee : (d.method? callee).isSome)
    (hnew : d.NewCall caller callee d') : d'.WellFormed := by
  have hmethods : ∀ ref, (d'.method? ref).isSome = (d.method? ref).isSome := by
    intro ref
    rw [hnew.method?]
    split <;> simp
  have hsite : ∀ {domain} {i : Nat} {s : Site σ}, (d'.registry domain).sites[i]? = some s →
      (d.registry domain).sites[i]? = some s ∨
        (domain = caller.domain ∧ s = ⟨caller.id, callee, none, none⟩) := by
    intro domain i s hs
    rw [hnew.sites] at hs
    rw [List.getElem?_append] at hs
    split at hs
    · exact Or.inl hs
    · split at hs
      · rename_i heq
        exact Or.inr ⟨heq, List.mem_singleton.mp (List.mem_of_getElem? hs)⟩
      · cases hs
  refine ⟨?_, ?_, ?_, ?_⟩
  · intro domain i s hs
    rw [(hnew.rest domain).1]
    rcases hsite hs with hold | ⟨rfl, rfl⟩
    · exact h.caller_lt hold
    · obtain ⟨a, ha⟩ := Option.isSome_iff_exists.mp hcaller
      exact Registry.lt_length_of_action? ha
  · intro domain i s hs
    rw [hmethods]
    rcases hsite hs with hold | ⟨-, rfl⟩
    · exact h.callee_method hold
    · exact hcallee
  · intro ref x' hx' domain
    rw [hnew.method?] at hx'
    have hinto : (d'.registry domain).sitesInto ref = (d.registry domain).sitesInto ref ++
        if ref = callee ∧ domain = caller.domain then [(d.registry domain).sites.length] else [] := by
      by_cases hdomain : domain = caller.domain
      · have hsites := hnew.sites domain
        rw [if_pos hdomain] at hsites
        rw [Registry.sitesInto_append hsites]
        by_cases href : ref = callee
        · simp [href, hdomain]
        · simp [href, Ne.symm href]
      · have hsites := hnew.sites domain
        rw [if_neg hdomain, List.append_nil] at hsites
        unfold Registry.sitesInto
        simp [hsites, hdomain]
    rw [hinto]
    split at hx'
    · rename_i href
      obtain ⟨x, hx, rfl⟩ := Option.map_eq_some_iff.mp hx'
      unfold remember
      rw [List.filter_append, List.map_append, h.callers hx domain]
      by_cases hdomain : domain = caller.domain
      · simp [href, hdomain]
      · simp [hdomain, Ne.symm hdomain]
    · rename_i href
      rw [h.callers hx' domain]
      simp [href]
  · intro pair hpair
    have hrest := hnew.rest .main
    have hconflicts : d'.main.conflicts = d.main.conflicts := hrest.2.1
    have hlength : d'.main.actions.length = d.main.actions.length := hrest.1
    rw [hconflicts] at hpair
    rw [hlength]
    exact h.conflict_lt hpair

/-! ## All steps -/

/-- One registry grows and the other stays as it is. -/
def GrowsIn (d : Design σ) (domain : Domain) (d' : Design σ) : Prop :=
  ∃ r, (d.registry domain).Grows r ∧ d' = d.withRegistry domain r

/-- A new declared conflict. -/
def NewConflict (d : Design σ) (pair : Nat × Nat) (d' : Design σ) : Prop :=
  d.main.plan = none ∧ pair.1 < d.main.actions.length ∧ pair.2 < d.main.actions.length ∧
    d' = { d with main := { d.main with conflicts := d.main.conflicts ++ [pair] } }

theorem growsIn_of_changeRegistry {d d' : Design σ} {domain : Domain}
    {f : Registry σ → Except Fault (Registry σ)} (h : d.changeRegistry domain f = .ok d')
    (hf : ∀ r', f (d.registry domain) = .ok r' → (d.registry domain).Grows r') :
    d.GrowsIn domain d' := by
  obtain ⟨r, hr, rfl⟩ := changeRegistry_eq_ok h
  exact ⟨r, hf r hr, rfl⟩

/-- What a registration can do. -/
theorem register_cases {d d' : Design σ} {step : Registration σ} (h : d.register step = .ok d') :
    (∃ domain, d.GrowsIn domain d') ∨
      (∃ caller callee, (d.action? caller).isSome ∧ (d.method? callee).isSome ∧
        d.NewCall caller callee d') ∨
      ∃ pair, d.NewConflict pair d' := by
  cases step with
  | newMethod domain name input output owner =>
    simp only [register] at h
    refine Or.inl ⟨domain, growsIn_of_changeRegistry h ?_⟩
    intro r' hr'
    obtain ⟨⟨id, r⟩, hnew, rfl⟩ := map_eq_ok.mp hr'
    exact Registry.grows_of_newMethod hnew
  | newTransaction domain name priority owner =>
    simp only [register] at h
    refine Or.inl ⟨domain, growsIn_of_changeRegistry h ?_⟩
    intro r' hr'
    obtain ⟨⟨id, r⟩, hnew, rfl⟩ := map_eq_ok.mp hr'
    exact Registry.grows_of_newTransaction hnew
  | setMethod method setting =>
    simp only [register] at h
    split at h
    · exact Or.inl ⟨method.domain,
        growsIn_of_changeRegistry h fun r' => Registry.grows_of_setMethod⟩
    · cases h
  | setTransaction transaction setting =>
    simp only [register] at h
    split at h
    · exact Or.inl ⟨transaction.domain,
        growsIn_of_changeRegistry h fun r' => Registry.grows_of_setTransaction⟩
    · cases h
  | newCall caller callee =>
    simp only [register] at h
    split at h
    · rename_i hpresent
      obtain ⟨hcaller, hcallee⟩ := Bool.and_eq_true_iff.mp hpresent
      obtain ⟨⟨id, d''⟩, hdeclare, rfl⟩ := map_eq_ok.mp h
      exact Or.inr (Or.inl ⟨caller, callee, hcaller, hcallee, newCall_of_declareCall hdeclare⟩)
    · cases h
  | setCall site setting =>
    simp only [register] at h
    exact Or.inl ⟨site.domain, growsIn_of_changeRegistry h fun r' => Registry.grows_of_setCall⟩
  | newConflict first second =>
    simp only [register] at h
    split at h
    · rename_i hpresent
      obtain ⟨hfirst, hsecond⟩ := Bool.and_eq_true_iff.mp hpresent
      unfold declareConflict at h
      obtain ⟨u, hallow, hrest⟩ := bind_eq_ok.mp h
      split at hrest
      · rename_i hmain
        obtain ⟨firstDomain, firstId⟩ := first
        obtain ⟨secondDomain, secondId⟩ := second
        obtain ⟨rfl, rfl⟩ := hmain
        obtain ⟨a, ha⟩ := Option.isSome_iff_exists.mp hfirst
        obtain ⟨b, hb⟩ := Option.isSome_iff_exists.mp hsecond
        exact Or.inr (Or.inr ⟨(firstId, secondId), Registry.allow_eq_ok hallow,
          Registry.lt_length_of_action? ha, Registry.lt_length_of_action? hb,
          (Except.ok.inj hrest).symm⟩)
      · cases hrest
    · cases h

/-- What an attempt to elaborate can do. -/
theorem elaborate_cases (d : Design σ) :
    d.elaborate.1 = d ∨
      (∃ ranking, d.main.plan = none ∧
        d.elaborate.1 = { d with main := { d.main with ranking := ranking } }) ∨
      ∃ closures ranking plan, d.main.plan = none ∧ d.analyse = .ok closures ∧
        d.main.planWith closures = (ranking, .ok plan) ∧
        d.elaborate.1 =
          { d with main := { d.main with ranking := ranking, plan := some plan } } := by
  unfold elaborate
  split
  · exact Or.inl rfl
  · rename_i hfrozen
    have hplan : d.main.plan = none := by
      simpa [Registry.isFrozen] using hfrozen
    split
    · exact Or.inl rfl
    · rename_i closures hclosures
      split
      · rename_i ranking error hplanned
        exact Or.inr (Or.inl ⟨ranking, hplan, rfl⟩)
      · rename_i ranking plan hplanned
        exact Or.inr (Or.inr ⟨closures, ranking, plan, hplan, hclosures, hplanned, rfl⟩)

/-- Elaboration enters an order, conflicts and maybe a plan, and changes nothing else. -/
theorem exists_elaborate (d : Design σ) : ∃ ranking plan,
    d.elaborate.1 = { d with main := { d.main with ranking := ranking, plan := plan } } := by
  rcases elaborate_cases d with heq | ⟨ranking, hnone, heq⟩ | ⟨closures, ranking, plan, -, -, -, heq⟩
  · exact ⟨d.main.ranking, d.main.plan, heq⟩
  · exact ⟨ranking, d.main.plan, heq⟩
  · exact ⟨ranking, some plan, heq⟩

theorem exists_main_elaborate (d : Design σ) : ∃ ranking plan,
    d.elaborate.1.main = { d.main with ranking := ranking, plan := plan } := by
  obtain ⟨ranking, plan, heq⟩ := exists_elaborate d
  exact ⟨ranking, plan, congrArg Design.main heq⟩

theorem WellFormed.of_mainTables {d : Design σ} (h : d.WellFormed) (ranking : Ranking)
    (plan : Option Plan) :
    ({ d with main := { d.main with ranking := ranking, plan := plan } } : Design σ).WellFormed := by
  refine h.of_extends fun domain => ?_
  cases domain <;> exact .of_eq rfl rfl rfl

theorem WellFormed.of_newConflict {d d' : Design σ} {pair : Nat × Nat} (h : d.WellFormed)
    (hnew : d.NewConflict pair d') : d'.WellFormed := by
  obtain ⟨-, hfirst, hsecond, heq⟩ := hnew
  have htables : ∀ domain, (d'.registry domain).sites = (d.registry domain).sites ∧
      (d'.registry domain).actions = (d.registry domain).actions := by
    intro domain
    rw [heq]
    cases domain <;> exact ⟨rfl, rfl⟩
  have hmethod : ∀ ref, d'.method? ref = d.method? ref := by
    intro ref
    rw [method?_eq, method?_eq]
    unfold Registry.method? Registry.action?
    rw [(htables ref.domain).2]
  refine ⟨?_, ?_, ?_, ?_⟩
  · intro domain i s hs
    rw [(htables domain).1] at hs
    rw [(htables domain).2]
    exact h.caller_lt hs
  · intro domain i s hs
    rw [(htables domain).1] at hs
    rw [hmethod]
    exact h.callee_method hs
  · intro ref x hx domain
    rw [hmethod] at hx
    unfold Registry.sitesInto
    rw [(htables domain).1]
    exact h.callers hx domain
  · intro p hp
    rw [heq] at hp ⊢
    rcases List.mem_append.mp hp with hold | hlast
    · exact h.conflict_lt hold
    · obtain rfl := List.mem_singleton.mp hlast
      exact ⟨hfirst, hsecond⟩

theorem Built.wellFormed {d : Design σ} (h : d.Built) : d.WellFormed := by
  induction h with
  | empty => exact wellFormed_empty
  | register before done ih =>
    rcases register_cases done with ⟨domain, r, hgrows, rfl⟩ | ⟨caller, callee, hcaller, hcallee, hnew⟩ |
      ⟨pair, hnew⟩
    · exact ih.of_extends (extends_withRegistry hgrows.calls)
    · exact ih.of_newCall hcaller hcallee hnew
    · exact ih.of_newConflict hnew
  | @elaborate d before ih =>
    rcases elaborate_cases d with heq | ⟨ranking, -, heq⟩ | ⟨closures, ranking, plan, -, -, -, heq⟩
    · rw [heq]
      exact ih
    · rw [heq]
      exact ih.of_mainTables ranking d.main.plan
    · rw [heq]
      exact ih.of_mainTables ranking (some plan)

end Design

end GuardedActions
