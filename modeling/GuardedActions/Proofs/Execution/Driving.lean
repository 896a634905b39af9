import GuardedActions.Proofs.Scheduling.Exclusion

/-!
# The arguments of a method

A call passes the early arguments of its call site, the record that the body gives, or the record
without fields.  The method runs with what its call passes, or with the early arguments of the call site
that drives it.
-/

set_option autoImplicit false

namespace GuardedActions

variable {σ : Type}

/-- The record that a call passes at a call site: the early arguments, those given, or the record
without fields. -/
inductive Site.Passes (s : Schedule) (i : Nat) (u : Site σ) (target : Method σ) :
    Option Record → Record → Prop where
  /-- the call site supplied its arguments before arbitration -/
  | early {args : Record} (supplies : u.arguments.isSome = true) (known : s.earlyOf i = some args) :
      Passes s i u target none args
  /-- the caller gives arguments -/
  | given {args : Record} (unsupplied : u.arguments = none) (fits : args.shape = target.input) :
      Passes s i u target (some args) args
  /-- there is nothing to pass -/
  | nothing (unsupplied : u.arguments = none) (empty : target.input.isEmpty = true) :
      Passes s i u target none (Record.zero target.input)

/-- A call at a call site that supplied its arguments passes those. -/
theorem Site.Passes.earlyOf_eq {s : Schedule} {i : Nat} {u : Site σ} {target : Method σ}
    {given : Option Record} {args : Record} (h : u.Passes s i target given args)
    (hsupplied : u.arguments.isSome = true) : s.earlyOf i = some args := by
  cases h with
  | early _ known => exact known
  | given unsupplied _ =>
    rw [unsupplied] at hsupplied
    cases hsupplied
  | nothing unsupplied _ =>
    rw [unsupplied] at hsupplied
    cases hsupplied

namespace Machine

variable {m : Machine σ} {s : Schedule}

theorem claimSite_eq_ok {caller i : Nat} {callee : ActionRef} {l : Ledger} {u : Site σ}
    (h : m.claimSite s caller callee l = .ok (i, u)) :
    m.design.main.sites[i]? = some u ∧ u.caller = caller ∧ u.callee = callee ∧
      s.grantedSites.test i = true ∧ l.performed.test i = false := by
  unfold claimSite at h
  simp only at h
  split at h
  · cases h
  · rename_i j v hfind
    split at h
    · cases h
    · rename_i hgranted
      split at h
      · cases h
      · rename_i hfresh
        obtain ⟨rfl, rfl⟩ := Prod.mk.inj (Except.ok.inj h)
        obtain ⟨hv, hcaller, hcallee⟩ := Registry.findSite?_eq_some hfind
        exact ⟨hv, hcaller, hcallee, by simpa using hgranted, by simpa using hfresh⟩

theorem passes_of_passedArguments {caller i : Nat} {callee : ActionRef} {target : Method σ}
    {u : Site σ} {given : Option Record} {args : Record}
    (hearly : u.arguments.isSome = true → ∃ known, s.earlyOf i = some known)
    (h : m.passedArguments s caller callee target i u given = .ok args) :
    u.Passes s i target given args := by
  unfold passedArguments at h
  simp only at h
  cases hsupplier : u.arguments with
  | some supplier =>
    have hsome : u.arguments.isSome = true := by rw [hsupplier]; rfl
    rw [hsupplier] at h
    cases given with
    | some record => cases h
    | none =>
      obtain ⟨known, hknown⟩ := hearly hsome
      simp only [hknown, Option.getD_some] at h
      obtain rfl := Except.ok.inj h
      exact .early hsome hknown
  | none =>
    rw [hsupplier] at h
    cases given with
    | some record =>
      simp only at h
      split at h
      · rename_i hshape
        obtain rfl := Except.ok.inj h
        exact .given hsupplier hshape
      · cases h
    | none =>
      simp only at h
      split at h
      · rename_i hempty
        obtain rfl := Except.ok.inj h
        exact .nothing hsupplier hempty
      · cases h

/-! ## The driving call site -/

variable {plan : Plan}

/-- If a granted method passes the check for several granted callers, its granted callers are at one position. -/
theorem eq_of_checkExclusive (hcheck : m.checkExclusive s = .ok ()) {id : Nat} {x : Method σ}
    (hx : m.design.main.method? id = some x) (hexclusive : x.nonexclusive = false)
    (hgranted : s.granted.test id = true) {a b : SiteRef} (ha : a ∈ x.callers) (hb : b ∈ x.callers)
    (hga : s.grantedSites.test a.id = true) (hgb : s.grantedSites.test b.id = true) : a = b := by
  have hone := of_forM_eq_ok hcheck id (Registry.mem_methods.mpr (by rw [hx]; rfl))
  rw [hx] at hone
  simp only [hexclusive, hgranted, Bool.not_false, Bool.true_and, decide_eq_true_iff] at hone
  split at hone
  · cases hone
  · rename_i hfew
    rw [List.countP_eq_length_filter, Nat.not_lt] at hfew
    have ha : a ∈ x.callers.filter fun c => s.grantedSites.test c.id := List.mem_filter.mpr ⟨ha, hga⟩
    have hb : b ∈ x.callers.filter fun c => s.grantedSites.test c.id := List.mem_filter.mpr ⟨hb, hgb⟩
    obtain ⟨c, hc⟩ := List.length_eq_one_iff.mp (Nat.le_antisymm hfew (List.length_pos_of_mem ha))
    rw [hc] at ha hb
    rw [List.mem_singleton.mp ha, List.mem_singleton.mp hb]

/-- An exclusive method that passes the check for several granted callers is driven by its granted call site. -/
theorem Schedules.selectedOf_of_checkExclusive (built : m.design.Built)
    (hplan : m.design.main.plan = some plan) (hs : m.Schedules plan s) (hcheck : m.checkExclusive s = .ok ())
    {i : Nat} {u : Site σ} (hu : m.design.main.sites[i]? = some u) (hgranted : s.grantedSites.test i = true)
    (hexclusive : m.design.main.isExclusive u.callee.id = true) : s.selectedOf u.callee.id = some i := by
  have h := built.elaborated hplan
  have hcallee := hs.callee hu hgranted
  obtain ⟨x, hx⟩ := Option.isSome_iff_exists.mp (h.callee_method hu)
  have hmem := built.mem_callersOf_of_site hplan hu (h.callee_eq hu)
  obtain ⟨driver, hselected, hdriven⟩ := hs.exists_selectedOf built hplan hu hgranted
  rw [hs.selected (h.callee_method hu) hcallee] at hselected
  obtain ⟨a, ha, hai⟩ := built.exists_caller_of_mem_callersOf hplan hx hmem
  obtain ⟨b, hb, hbi⟩ := built.exists_caller_of_mem_callersOf hplan hx (List.mem_of_find?_eq_some hselected)
  have heq := eq_of_checkExclusive hcheck hx ((Registry.isExclusive_iff hx).mp hexclusive) hcallee ha hb
    (hai ▸ hgranted) (hbi ▸ hdriven)
  rw [hs.selected (h.callee_method hu) hcallee, hselected, ← hbi, ← heq, hai]

/-- A method runs with what its call passes, or with the early arguments of another granted call
site. -/
theorem Schedules.drivingArguments_cases (built : m.design.Built) (own : m.design.OwnCallers)
    (hplan : m.design.main.plan = some plan) (hs : m.Schedules plan s) {i : Nat} {u : Site σ}
    {target : Method σ} (hu : m.design.main.sites[i]? = some u)
    (hgranted : s.grantedSites.test i = true)
    (htarget : m.design.main.method? u.callee.id = some target) (passed : Record) :
    drivingArguments s u.callee.id target i passed = passed ∨
      ∃ (driver : Nat) (w : Site σ), m.design.main.sites[driver]? = some w ∧
        w.callee = u.callee ∧ s.grantedSites.test driver = true ∧ w.arguments.isSome = true ∧
        s.earlyOf driver = some (drivingArguments s u.callee.id target i passed) := by
  have h := built.elaborated hplan
  unfold drivingArguments
  cases hselected : s.selectedOf u.callee.id with
  | none => exact Or.inl rfl
  | some driver =>
    simp only
    split
    · rename_i hother
      rw [Bool.and_eq_true, decide_eq_true_iff, Bool.not_eq_true'] at hother
      obtain ⟨hne, hinput⟩ := hother
      have hsome : (m.design.main.method? u.callee.id).isSome := by rw [htarget]; rfl
      obtain ⟨hdriven, w, hw, hwx⟩ :=
        hs.driver_of_selectedOf built own hplan hsome (hs.callee hu hgranted) hselected
      have hwu : w.callee = u.callee := by rw [hwx, ← h.callee_eq hu]
      -- an exclusive method has no second granted call site
      have hshared : target.nonexclusive = true := by
        by_contra hexclusive
        have hexclusive := (Registry.isExclusive_iff htarget).mpr (Bool.not_eq_true _ ▸ hexclusive)
        exact hne ((hs.exclusive h).sites hexclusive hw hu (by rw [hwx]) rfl hdriven hgranted)
      have hwtarget : m.design.main.method? w.callee.id = some target := by
        rw [hwu]
        exact htarget
      have hsupplied := h.supplied_of_shared hw hwtarget hshared hinput
      obtain ⟨known, hknown⟩ := hs.exists_earlyOf hw hdriven hsupplied
      refine Or.inr ⟨driver, w, hw, hwu, hdriven, hsupplied, ?_⟩
      rw [hknown, Option.getD_some]
    · exact Or.inl rfl

/-- A method with inputs whose call site has supplied its arguments runs with those of the selected call site. -/
theorem Schedules.drivingArguments_early (built : m.design.Built)
    (hplan : m.design.main.plan = some plan) (hs : m.Schedules plan s) {i : Nat} {u : Site σ}
    {target : Method σ} {given : Option Record} {passed : Record}
    (hu : m.design.main.sites[i]? = some u) (hgranted : s.grantedSites.test i = true)
    (hsupplied : u.arguments.isSome = true) (hinput : target.input.isEmpty = false)
    (hpasses : u.Passes s i target given passed) :
    ∃ driver, s.selectedOf u.callee.id = some driver ∧ s.grantedSites.test driver = true ∧
      drivingArguments s u.callee.id target i passed = (s.earlyOf driver).getD Record.empty := by
  obtain ⟨driver, hselected, hdriven⟩ := hs.exists_selectedOf built hplan hu hgranted
  refine ⟨driver, hselected, hdriven, ?_⟩
  have hknown := hpasses.earlyOf_eq hsupplied
  unfold drivingArguments
  rw [hselected]
  simp only
  split
  · rfl
  · rename_i hsame
    have heq : driver = i := by
      by_contra hne
      exact hsame (by simp [hne, hinput])
    rw [heq, hknown, Option.getD_some]

/-- A nonexclusive method with inputs runs with the early arguments of the selected call site, whichever
granted call site comes first. -/
theorem Schedules.drivingArguments_shared (built : m.design.Built)
    (hplan : m.design.main.plan = some plan) (hs : m.Schedules plan s) {i : Nat} {u : Site σ}
    {target : Method σ} {given : Option Record} {passed : Record}
    (hu : m.design.main.sites[i]? = some u) (hgranted : s.grantedSites.test i = true)
    (htarget : m.design.main.method? u.callee.id = some target)
    (hshared : target.nonexclusive = true) (hinput : target.input.isEmpty = false)
    (hpasses : u.Passes s i target given passed) :
    ∃ driver, s.selectedOf u.callee.id = some driver ∧ s.grantedSites.test driver = true ∧
      drivingArguments s u.callee.id target i passed = (s.earlyOf driver).getD Record.empty :=
  have hsupplied := (built.elaborated hplan).supplied_of_shared hu htarget hshared hinput
  hs.drivingArguments_early built hplan hu hgranted hsupplied hinput hpasses

/-- A method without inputs runs with the record without fields. -/
theorem Schedules.drivingArguments_empty (h : m.design.main.Elaborated plan)
    (hs : m.Schedules plan s) {i : Nat} {u : Site σ} {target : Method σ} {given : Option Record}
    {passed : Record} (hu : m.design.main.sites[i]? = some u)
    (hgranted : s.grantedSites.test i = true)
    (htarget : m.design.main.method? u.callee.id = some target)
    (hinput : target.input.isEmpty = true) (hpasses : u.Passes s i target given passed) :
    drivingArguments s u.callee.id target i passed = Record.zero target.input := by
  have hpassed : passed = Record.zero target.input := by
    refine Record.eq_zero_of_isEmpty hinput ?_
    cases hpasses with
    | early supplied known =>
      obtain ⟨v, -, hactive, -⟩ := hs.site.mp hgranted
      obtain ⟨known', hknown', hfits⟩ := hs.early hu hactive supplied
      obtain rfl := Option.some.inj (known.symm.trans hknown')
      exact hfits ((h.method?_callee hu).trans htarget)
    | given _ fits => exact fits
    | nothing _ _ => rfl
  rw [← hpassed]
  unfold drivingArguments
  simp only [hinput, Bool.not_true, Bool.and_false, Bool.false_eq_true, if_false]
  split
  · rfl
  · rfl

/-- A nonexclusive method runs with the same arguments whichever granted call site comes first. -/
theorem Schedules.drivingArguments_congr (built : m.design.Built)
    (hplan : m.design.main.plan = some plan) (hs : m.Schedules plan s) {i j : Nat} {u v : Site σ}
    {target : Method σ} {given given' : Option Record} {passed passed' : Record}
    (hu : m.design.main.sites[i]? = some u) (hv : m.design.main.sites[j]? = some v)
    (hcallee : u.callee.id = v.callee.id) (hgi : s.grantedSites.test i = true)
    (hgj : s.grantedSites.test j = true)
    (htarget : m.design.main.method? u.callee.id = some target)
    (hshared : target.nonexclusive = true) (hi : u.Passes s i target given passed)
    (hj : v.Passes s j target given' passed') :
    drivingArguments s u.callee.id target i passed =
      drivingArguments s v.callee.id target j passed' := by
  have h := built.elaborated hplan
  have hvtarget : m.design.main.method? v.callee.id = some target := hcallee ▸ htarget
  cases hinput : target.input.isEmpty with
  | true =>
    rw [hs.drivingArguments_empty h hu hgi htarget hinput hi,
      hs.drivingArguments_empty h hv hgj hvtarget hinput hj]
  | false =>
    obtain ⟨driver, hselected, -, hargs⟩ :=
      hs.drivingArguments_shared built hplan hu hgi htarget hshared hinput hi
    obtain ⟨driver', hselected', -, hargs'⟩ :=
      hs.drivingArguments_shared built hplan hv hgj hvtarget hshared hinput hj
    rw [hcallee] at hselected
    obtain rfl := Option.some.inj (hselected.symm.trans hselected')
    rw [hargs, hargs']

end Machine

end GuardedActions
