import GuardedActions.Proofs.WellFormed

/-!
# Frozen registries

A main registry with a plan got it from an elaboration that succeeded, and nothing but callers of the
guest registry was added since.  So what holds at the end of an elaboration, and does not speak of
callers, holds for ever.
-/

set_option autoImplicit false

namespace GuardedActions

variable {σ : Type}

namespace Registry

/-- Two registries differ in nothing but callers that the second one added to its methods, and in
what elaboration enters. -/
structure SameButCallers (r r' : Registry σ) : Prop where
  /-- the call sites are the same -/
  sites : r'.sites = r.sites
  /-- the declared conflicts are the same -/
  conflicts : r'.conflicts = r.conflicts
  /-- there are as many actions -/
  length : r'.actions.length = r.actions.length
  /-- actions differ in callers only -/
  action : ∀ id, ∃ extra, r'.action? id = (r.action? id).map
    (Action.mapMethod fun x => { x with callers := x.callers ++ extra })

namespace SameButCallers

variable {r r' r'' : Registry σ}

theorem mapMethod_none (a : Action σ) :
    a.mapMethod (fun x => { x with callers := x.callers ++ [] }) = a := by
  obtain ⟨name, owner, role⟩ := a
  cases role <;> simp [Action.mapMethod]

theorem mapMethod_twice (a : Action σ) (extra more : List SiteRef) :
    (a.mapMethod fun x => { x with callers := x.callers ++ extra }).mapMethod
        (fun x => { x with callers := x.callers ++ more }) =
      a.mapMethod fun x => { x with callers := x.callers ++ (extra ++ more) } := by
  obtain ⟨name, owner, role⟩ := a
  cases role <;> simp [Action.mapMethod]

/-- Two registries with the same tables. -/
theorem of_eq (hactions : r'.actions = r.actions) (hsites : r'.sites = r.sites)
    (hconflicts : r'.conflicts = r.conflicts) : r.SameButCallers r' := by
  refine ⟨hsites, hconflicts, by rw [hactions], ?_⟩
  intro id
  refine ⟨[], ?_⟩
  unfold action?
  rw [hactions]
  cases r.actions[id]? with
  | none => rfl
  | some a => rw [Option.map_some, mapMethod_none]

theorem trans (h : r.SameButCallers r') (h' : r'.SameButCallers r'') : r.SameButCallers r'' := by
  refine ⟨h'.sites.trans h.sites, h'.conflicts.trans h.conflicts, h'.length.trans h.length, ?_⟩
  intro id
  obtain ⟨extra, hextra⟩ := h.action id
  obtain ⟨more, hmore⟩ := h'.action id
  refine ⟨extra ++ more, ?_⟩
  rw [hmore, hextra]
  cases r.action? id with
  | none => rfl
  | some a => simp only [Option.map_some, mapMethod_twice]

/-! ### What the two have in common -/

theorem transaction? (h : r.SameButCallers r') (id : Nat) :
    r'.transaction? id = r.transaction? id := by
  obtain ⟨extra, hextra⟩ := h.action id
  unfold Registry.transaction?
  rw [hextra]
  cases r.action? id <;> simp

theorem method? (h : r.SameButCallers r') (id : Nat) :
    ∃ extra, r'.method? id =
      (r.method? id).map fun x => { x with callers := x.callers ++ extra } := by
  obtain ⟨extra, hextra⟩ := h.action id
  refine ⟨extra, ?_⟩
  unfold Registry.method?
  rw [hextra]
  cases r.action? id <;> simp

theorem isSome_method? (h : r.SameButCallers r') (id : Nat) :
    (r'.method? id).isSome = (r.method? id).isSome := by
  obtain ⟨extra, hextra⟩ := h.method? id
  rw [hextra, Option.isSome_map]

theorem isExclusive (h : r.SameButCallers r') (id : Nat) : r'.isExclusive id = r.isExclusive id := by
  obtain ⟨extra, hextra⟩ := h.method? id
  unfold Registry.isExclusive
  rw [hextra]
  cases r.method? id <;> simp

theorem name (h : r.SameButCallers r') (id : Nat) :
    (r'.action? id).map Action.name = (r.action? id).map Action.name := by
  obtain ⟨extra, hextra⟩ := h.action id
  rw [hextra]
  cases r.action? id <;> simp

theorem isDefined (h : r.SameButCallers r') (id : Nat) :
    (r'.action? id).map Action.isDefined = (r.action? id).map Action.isDefined := by
  obtain ⟨extra, hextra⟩ := h.action id
  rw [hextra]
  cases hid : r.action? id with
  | none => rfl
  | some a =>
    obtain ⟨name, owner, role⟩ := a
    cases role <;> rfl

theorem calls (h : r.SameButCallers r') : r'.Calls = r.Calls := by
  unfold Calls
  rw [h.sites]

theorem reaches (h : r.SameButCallers r') : r'.Reaches = r.Reaches := by
  unfold Reaches
  rw [h.calls]

end SameButCallers

/-- A plan holds the order and the conflicts that elaboration enters with it. -/
theorem ranking_of_planWith {r : Registry σ} {closures : List Mask} {ranking : Ranking} {plan : Plan}
    (h : r.planWith closures = (ranking, .ok plan)) : plan.ranking = ranking := by
  unfold planWith at h
  simp only at h
  split at h
  · cases h
  · split at h
    · cases h
    · obtain ⟨hranking, hplan⟩ := Prod.mk.inj h
      rw [← hranking, ← Except.ok.inj hplan]

end Registry

namespace Design

/-- A registration on a frozen design touches the main registry at most by a call from the guest
registry. -/
theorem register_of_frozen {d d' : Design σ} {step : Registration σ} {plan : Plan}
    (hplan : d.main.plan = some plan) (h : d.register step = .ok d') :
    d.main.SameButCallers d'.main ∧ d'.main.plan = some plan := by
  rcases register_cases h with ⟨domain, r, hgrows, rfl⟩ | ⟨caller, callee, -, -, hnew⟩ | ⟨pair, hnew⟩
  · cases domain with
    | main =>
      have hnone : d.main.plan = none := hgrows.open_before
      rw [hplan] at hnone
      cases hnone
    | guest => exact ⟨.of_eq rfl rfl rfl, hplan⟩
  · have hguest : caller.domain = .guest := by
      cases hdomain : caller.domain with
      | guest => rfl
      | main =>
        have hnone := hnew.not_frozen
        rw [hdomain] at hnone
        have hnone : d.main.plan = none := hnone
        rw [hplan] at hnone
        cases hnone
    obtain ⟨hlength, hconflicts, hplans⟩ := hnew.rest .main
    refine ⟨⟨?_, hconflicts, hlength, ?_⟩, hplans.trans hplan⟩
    · have hsites := hnew.sites .main
      rw [hguest, if_neg (by decide), List.append_nil] at hsites
      exact hsites
    · intro id
      have haction := hnew.action ⟨.main, id⟩
      split at haction
      · exact ⟨_, haction⟩
      · refine ⟨[], ?_⟩
        have haction : d'.main.action? id = d.main.action? id := haction
        rw [haction]
        cases d.main.action? id with
        | none => rfl
        | some a => rw [Option.map_some, Registry.SameButCallers.mapMethod_none]
  · have hnone := hnew.1
    rw [hplan] at hnone
    cases hnone

/-- What elaboration entered into a frozen design stays. -/
theorem ranking_of_frozen {d d' : Design σ} {step : Registration σ} {plan : Plan}
    (hplan : d.main.plan = some plan) (h : d.register step = .ok d') :
    d'.main.ranking = d.main.ranking := by
  rcases register_cases h with ⟨domain, r, hgrows, rfl⟩ | ⟨caller, callee, -, -, hnew⟩ | ⟨pair, hnew⟩
  · cases domain with
    | main =>
      have hnone : d.main.plan = none := hgrows.open_before
      rw [hplan] at hnone
      cases hnone
    | guest => rfl
  · exact hnew.ranking .main
  · have hnone := hnew.1
    rw [hplan] at hnone
    cases hnone

/-- Registrations make no plan. -/
theorem register_of_open {d d' : Design σ} {step : Registration σ} (hopen : d.main.plan = none)
    (h : d.register step = .ok d') : d'.main.plan = none := by
  rcases register_cases h with ⟨domain, r, hgrows, rfl⟩ | ⟨caller, callee, -, -, hnew⟩ | ⟨pair, hnew⟩
  · cases domain with
    | main => exact hgrows.open_after
    | guest => exact hopen
  · exact (hnew.rest .main).2.2.trans hopen
  · rw [hnew.2.2.2]
    exact hopen

/-- A plan comes from an elaboration that succeeded, and only callers were added since. -/
theorem Built.exists_elaborated {d : Design σ} {plan : Plan} (h : d.Built)
    (hplan : d.main.plan = some plan) :
    ∃ (before : Design σ) (closures : List Mask) (ranking : Ranking),
      before.Built ∧ before.analyse = .ok closures ∧
        before.main.planWith closures = (ranking, .ok plan) ∧
        before.main.SameButCallers d.main := by
  induction h with
  | empty => cases hplan
  | @register d d' step built done ih =>
    cases hold : d.main.plan with
    | some old =>
      obtain ⟨hsame, hplan'⟩ := register_of_frozen hold done
      obtain rfl : old = plan := Option.some.inj (hplan'.symm.trans hplan)
      obtain ⟨before, closures, ranking, hbuilt, hclosures, hplanned, hbefore⟩ := ih hold
      exact ⟨before, closures, ranking, hbuilt, hclosures, hplanned, hbefore.trans hsame⟩
    | none =>
      have hnone := register_of_open hold done
      rw [hplan] at hnone
      cases hnone
  | @elaborate d built ih =>
    rcases elaborate_cases d with heq | ⟨ranking, hnone, heq⟩ |
      ⟨closures, ranking, new, hnone, hclosures, hplanned, heq⟩
    · rw [heq] at hplan ⊢
      exact ih hplan
    · rw [heq] at hplan
      rw [hnone] at hplan
      cases hplan
    · rw [heq] at hplan ⊢
      obtain rfl : new = plan := Option.some.inj hplan
      exact ⟨d, closures, ranking, built, hclosures, hplanned, .of_eq rfl rfl rfl⟩

/-- The order and the conflicts that can be asked for are those of the plan. -/
theorem Built.ranking_eq {d : Design σ} {plan : Plan} (h : d.Built)
    (hplan : d.main.plan = some plan) : d.main.ranking = plan.ranking := by
  induction h with
  | empty => cases hplan
  | @register d d' step built done ih =>
    cases hold : d.main.plan with
    | some old =>
      obtain ⟨-, hplan'⟩ := register_of_frozen hold done
      obtain rfl : old = plan := Option.some.inj (hplan'.symm.trans hplan)
      exact (ranking_of_frozen hold done).trans (ih hold)
    | none =>
      have hnone := register_of_open hold done
      rw [hplan] at hnone
      cases hnone
  | @elaborate d built ih =>
    rcases elaborate_cases d with heq | ⟨ranking, hnone, heq⟩ |
      ⟨closures, ranking, new, hnone, hclosures, hplanned, heq⟩
    · rw [heq] at hplan ⊢
      exact ih hplan
    · rw [heq] at hplan
      rw [hnone] at hplan
      cases hplan
    · rw [heq] at hplan ⊢
      obtain rfl : new = plan := Option.some.inj hplan
      exact (Registry.ranking_of_planWith hplanned).symm

end Design

end GuardedActions
