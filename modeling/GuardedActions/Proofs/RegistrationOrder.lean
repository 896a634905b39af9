import GuardedActions.Proofs.Coherence
import GuardedActions.Proofs.Declarations
import GuardedActions.Proofs.Scheduling.Rank
import GuardedActions.Proofs.Scheduling.Valuation

/-!
# The order of registration does not matter

Positions, traversals, clusters and caller orders all come from the order in which a design was
registered.  None of it shows in a schedule: two designs with the same declarations elaborate alike,
and where predicates depend on the committed state they are scheduled alike, up to positions.
-/

set_option autoImplicit false

namespace GuardedActions

variable {σ : Type}

/-- One schedule is another one with actions and call sites at other positions. -/
structure Schedule.Renamed (s : Schedule) (π ρ : Equiv.Perm Nat) (s' : Schedule) : Prop where
  /-- the same actions are requested -/
  requested : ∀ a, s'.requested.test (π a) = s.requested.test a
  /-- the same actions can run -/
  runnable : ∀ a, s'.runnable.test (π a) = s.runnable.test a
  /-- the same actions are granted -/
  granted : ∀ a, s'.granted.test (π a) = s.granted.test a
  /-- the same call sites are active -/
  activeSites : ∀ i, s'.activeSites.test (ρ i) = s.activeSites.test i
  /-- the same call sites are granted -/
  grantedSites : ∀ i, s'.grantedSites.test (ρ i) = s.grantedSites.test i
  /-- early arguments are the same -/
  early : ∀ i, s'.earlyOf (ρ i) = s.earlyOf i

/-- For every action the same call site is selected. -/
def Schedule.SameCallers (s : Schedule) (π ρ : Equiv.Perm Nat) (s' : Schedule) : Prop :=
  ∀ x, s'.selectedOf (π x) = (s.selectedOf x).map ρ

/-- Of the granted call sites of a method no two have the same rank, so that the order of their
declaration decides nothing. -/
def Schedule.RanksApart (s : Schedule) (r : Registry σ) (plan : Plan) : Prop :=
  ∀ (i j : Nat) (u w : Site σ), r.sites[i]? = some u → r.sites[j]? = some w →
    u.callee = w.callee → s.grantedSites.test i = true → s.grantedSites.test j = true →
      r.rankIn plan i = r.rankIn plan j → i = j

namespace Machine

/-- Scheduling ends because some call supplies a record of the wrong shape. -/
def RefusesEarly (m : Machine σ) : Prop :=
  ∃ caller callee, m.schedule = .error (.call caller callee .earlyShape)

/-- Two machines make the same schedule up to positions, or none because of a record of the wrong
shape.  The selected callers are the same where all callers are registered with the methods. -/
def SchedulesAlike (m : Machine σ) (π ρ : Equiv.Perm Nat) (m' : Machine σ) : Prop :=
  (m.RefusesEarly ∧ m'.RefusesEarly) ∨
    ∃ s s', m.schedule = .ok s ∧ m'.schedule = .ok s' ∧ s.Renamed π ρ s' ∧
      (m.design.OwnCallers → m'.design.OwnCallers → s.SameCallers π ρ s')

/-- Two machines in the same state, of which one has a rearranged design, with predicates that answer
alike. -/
structure Counterparts (v : Valuation σ) (π ρ : Equiv.Perm Nat) (plan plan' : Plan)
    (m m' : Machine σ) : Prop where
  /-- the first design is elaborated -/
  elaborated : m.design.main.Elaborated plan
  /-- so is the second -/
  elaborated' : m'.design.main.Elaborated plan'
  /-- one is a rearrangement of the other -/
  rearranged : m.design.main.Rearranged π ρ m'.design.main
  /-- the predicates of the first answer as the valuation says -/
  answers : v.Answers m.design.main
  /-- so do those of the second -/
  answers' : v.Answers m'.design.main
  /-- the states are the same -/
  state : m'.state = m.state

namespace Counterparts

variable {v : Valuation σ} {π ρ : Equiv.Perm Nat} {plan plan' : Plan} {m m' : Machine σ}

theorem symm (c : Counterparts v π ρ plan plan' m m') :
    Counterparts v π.symm ρ.symm plan' plan m' m where
  elaborated := c.elaborated'
  elaborated' := c.elaborated
  rearranged := c.rearranged.symm
  answers := c.answers'
  answers' := c.answers
  state := c.state.symm

/-- What a permutation carries over and its inverse carries back is the same on both sides. -/
theorem eq_of_carried {p p' : Nat → Bool} (h : ∀ a, p a = true → p' (π a) = true)
    (h' : ∀ a, p' a = true → p (π.symm a) = true) (a : Nat) : p' (π a) = p a := by
  rw [Bool.eq_iff_iff]
  constructor
  · intro hp'
    have hp := h' _ hp'
    rw [Equiv.symm_apply_apply] at hp
    exact hp
  · exact h a

/-! ## The same answers

Corresponding predicates answer alike in views of the same state. -/

section Answers

variable {view view' : View σ}

theorem holds_request (c : Counterparts v π ρ plan plan' m m') {t : Nat} {x x' : Transaction σ}
    (hx : m.design.main.transaction? t = some x)
    (hx' : m'.design.main.transaction? (π t) = some x') (hstate : view'.state = view.state) :
    Guard.holds x'.request view' = Guard.holds x.request view := by
  rw [c.answers'.request hx', c.answers.request hx, c.rearranged.nameOf, hstate]

theorem holds_ready (c : Counterparts v π ρ plan plan' m m') {a : Nat} {x x' : Method σ}
    (hx : m.design.main.method? a = some x) (hx' : m'.design.main.method? (π a) = some x')
    (hstate : view'.state = view.state) :
    Guard.holds x'.ready view' = Guard.holds x.ready view := by
  rw [c.answers'.ready hx', c.answers.ready hx, c.rearranged.nameOf, hstate]

theorem accepts (c : Counterparts v π ρ plan plan' m m') {a : Nat} {x x' : Method σ}
    {validator validator' : Validator σ} (hx : m.design.main.method? a = some x)
    (hx' : m'.design.main.method? (π a) = some x') (hvalidator : x.validator = some validator)
    (hvalidator' : x'.validator = some validator') (hstate : view'.state = view.state)
    (args : Record) : validator' view' args = validator view args := by
  rw [c.answers'.accepts hx' hvalidator', c.answers.accepts hx hvalidator, c.rearranged.nameOf,
    hstate]

theorem holds_condition (c : Counterparts v π ρ plan plan' m m') {i : Nat} {u u' : Site σ}
    (hu : m.design.main.sites[i]? = some u) (hu' : m'.design.main.sites[ρ i]? = some u')
    (hrenames : u.Renames π u') (hstate : view'.state = view.state) :
    Guard.holds u'.condition view' = Guard.holds u.condition view := by
  rw [c.answers'.condition hu', c.answers.condition hu, hrenames.caller, hrenames.callee,
    c.rearranged.nameOf, c.rearranged.nameOf, hstate]

theorem supplies (c : Counterparts v π ρ plan plan' m m') {i : Nat} {u u' : Site σ}
    {supplier supplier' : Supplier σ} (hu : m.design.main.sites[i]? = some u)
    (hu' : m'.design.main.sites[ρ i]? = some u') (hrenames : u.Renames π u')
    (hsupplier : u.arguments = some supplier) (hsupplier' : u'.arguments = some supplier')
    (hstate : view'.state = view.state) : supplier' view' = supplier view := by
  rw [c.answers'.arguments hu' hsupplier', c.answers.arguments hu hsupplier, hrenames.caller,
    hrenames.callee, c.rearranged.nameOf, c.rearranged.nameOf, hstate]

end Answers

theorem wants (c : Counterparts v π ρ plan plan' m m') {t : Nat}
    (ht : (Inquiry.outset m).Wants m t) : (Inquiry.outset m').Wants m' (π t) := by
  obtain ⟨x, hx, hholds⟩ := ht
  obtain ⟨x', hx', -⟩ := c.rearranged.exists_transaction hx
  exact ⟨x', hx', (c.holds_request hx hx' c.state).trans hholds⟩

theorem calls (c : Counterparts v π ρ plan plan' m m') {a b : Nat}
    (hab : (Inquiry.outset m).Calls m a b) : (Inquiry.outset m').Calls m' (π a) (π b) := by
  obtain ⟨i, u, hu, hholds, rfl, rfl⟩ := hab
  obtain ⟨u', hu', hrenames⟩ := c.rearranged.exists_site hu
  exact ⟨ρ i, u', hu', (c.holds_condition hu hu' hrenames c.state).trans hholds, hrenames.caller,
    hrenames.callee⟩

theorem reaches (c : Counterparts v π ρ plan plan' m m') {a b : Nat}
    (hab : (Inquiry.outset m).Reaches m a b) : (Inquiry.outset m').Reaches m' (π a) (π b) :=
  Relation.ReflTransGen.lift π (fun _ _ => c.calls) _ _ hab

theorem reaches_back (c : Counterparts v π ρ plan plan' m m') {a b : Nat}
    (hab : (Inquiry.outset m').Reaches m' (π a) (π b)) : (Inquiry.outset m).Reaches m a b := by
  have hback := c.symm.reaches hab
  rw [Equiv.symm_apply_apply, Equiv.symm_apply_apply] at hback
  exact hback

theorem pursued (c : Counterparts v π ρ plan plan' m m') {a : Nat} (ha : m.Pursued a) :
    m'.Pursued (π a) := by
  obtain ⟨t, hwants, hreach⟩ := ha
  exact ⟨π t, c.wants hwants, c.reaches hreach⟩

/-- If a record does not fit in one of the designs, then one does not in the other. -/
theorem misfits (c : Counterparts v π ρ plan plan' m m') (h : m.Misfits) : m'.Misfits := by
  obtain ⟨i, u, hmisfit⟩ := h
  obtain ⟨supplier, args, x, hsupplier, hargs, hx, hshape⟩ := hmisfit.shape
  obtain ⟨u', hu', hrenames⟩ := c.rearranged.exists_site hmisfit.site
  obtain ⟨x', hx', houtline⟩ := c.rearranged.exists_method hx
  have hsome : u'.arguments.isSome := by
    rw [hrenames.arguments, hsupplier]
    rfl
  obtain ⟨supplier', hsupplier'⟩ := Option.isSome_iff_exists.mp hsome
  have hinput : x'.input = x.input := congrArg MethodOutline.input houtline
  refine ⟨ρ i, u', hu', ?_, ?_, supplier', args, x', hsupplier', ?_, ?_, ?_⟩
  · rw [hrenames.caller]
    exact c.pursued hmisfit.caller
  · exact (c.holds_condition hmisfit.site hu' hrenames c.state).trans hmisfit.condition
  · exact (c.supplies hmisfit.site hu' hrenames hsupplier hsupplier' c.state).trans hargs
  · rw [hrenames.callee]
    exact hx'
  · rw [hinput]
    exact hshape

/-! ## Requests -/

variable {s s' : Schedule}

theorem requested (c : Counterparts v π ρ plan plan' m m') (hs : m.Schedules plan s)
    (hs' : m'.Schedules plan' s') {a : Nat} (ha : s.requested.test a = true) :
    s'.requested.test (π a) = true := by
  obtain ⟨hexplains, -⟩ := hs.explains_outset c.elaborated c.answers
  obtain ⟨hexplains', -⟩ := hs'.explains_outset c.elaborated' c.answers'
  exact (hexplains'.requested_iff hs').mpr (c.pursued ((hexplains.requested_iff hs).mp ha))

theorem active (c : Counterparts v π ρ plan plan' m m') (hs : m.Schedules plan s)
    (hs' : m'.Schedules plan' s') {i : Nat} (hi : s.activeSites.test i = true) :
    s'.activeSites.test (ρ i) = true := by
  obtain ⟨hexplains, -⟩ := hs.explains_outset c.elaborated c.answers
  obtain ⟨hexplains', -⟩ := hs'.explains_outset c.elaborated' c.answers'
  obtain ⟨u, hu, -⟩ := hs.exists_active hi
  obtain ⟨hholds, hcaller⟩ := (hexplains.site hu).mp hi
  obtain ⟨u', hu', hrenames⟩ := c.rearranged.exists_site hu
  rw [hexplains'.site hu', hrenames.caller]
  exact ⟨(c.holds_condition hu hu' hrenames c.state).trans hholds, c.requested hs hs' hcaller⟩

theorem activeReaches (c : Counterparts v π ρ plan plan' m m') (hs : m.Schedules plan s)
    (hs' : m'.Schedules plan' s') {a b : Nat}
    (hab : m.design.main.ActiveReaches s.activeSites a b) :
    m'.design.main.ActiveReaches s'.activeSites (π a) (π b) := by
  refine Relation.ReflTransGen.lift π ?_ _ _ hab
  rintro a b ⟨i, u, hu, hactive, rfl, rfl⟩
  obtain ⟨u', hu', hrenames⟩ := c.rearranged.exists_site hu
  exact ⟨ρ i, u', hu', c.active hs hs' hactive, hrenames.caller, hrenames.callee⟩

theorem activeReaches_back (c : Counterparts v π ρ plan plan' m m') (hs : m.Schedules plan s)
    (hs' : m'.Schedules plan' s') {a b : Nat}
    (hab : m'.design.main.ActiveReaches s'.activeSites (π a) (π b)) :
    m.design.main.ActiveReaches s.activeSites a b := by
  have hback := c.symm.activeReaches hs' hs hab
  rw [Equiv.symm_apply_apply, Equiv.symm_apply_apply] at hback
  exact hback

theorem earlyOf (c : Counterparts v π ρ plan plan' m m') (hs : m.Schedules plan s)
    (hs' : m'.Schedules plan' s') {i : Nat} {args : Record} (hargs : s.earlyOf i = some args) :
    s'.earlyOf (ρ i) = some args := by
  obtain ⟨-, hsupplies⟩ := hs.explains_outset c.elaborated c.answers
  obtain ⟨-, hsupplies'⟩ := hs'.explains_outset c.elaborated' c.answers'
  obtain ⟨u, supplier, hu, hsupplier, hsupply⟩ := hsupplies hargs
  obtain ⟨u', hu', hrenames⟩ := c.rearranged.exists_site hu
  have hactive := ((hs.isSome_earlyOf_iff hu).mp (by rw [hargs]; rfl)).1
  have hsome : (s'.earlyOf (ρ i)).isSome := by
    refine (hs'.isSome_earlyOf_iff hu').mpr ⟨c.active hs hs' hactive, ?_⟩
    rw [hrenames.arguments, hsupplier]
    rfl
  obtain ⟨args', hargs'⟩ := Option.isSome_iff_exists.mp hsome
  obtain ⟨w, supplier', hw, hsupplier', hsupply'⟩ := hsupplies' hargs'
  obtain rfl := Option.some.inj (hu'.symm.trans hw)
  have hstate : ((Inquiry.outset m').arguments (ρ i)).state =
      ((Inquiry.outset m).arguments i).state := c.state
  have hsame := (c.supplies hu hu' hrenames hsupplier hsupplier' hstate).trans hsupply
  rw [hargs', Except.ok.inj (hsupply'.symm.trans hsame)]

/-! ## Readiness -/

/-- A call is taken in both designs or in none. -/
theorem takes (c : Counterparts v π ρ plan plan' m m') (hs : m.Schedules plan s)
    (hs' : m'.Schedules plan' s') {i : Nat} {u u' : Site σ}
    (hu : m.design.main.sites[i]? = some u) (hu' : m'.design.main.sites[ρ i]? = some u')
    (hrenames : u.Renames π u') (htakes : m.Takes s i u) : m'.Takes s' (ρ i) u' := by
  intro x' hx'
  rw [c.elaborated'.method?_callee hu', hrenames.callee] at hx'
  obtain ⟨x, hx⟩ := Option.isSome_iff_exists.mp (c.elaborated.callee_method hu)
  obtain ⟨y, hy, houtline⟩ := c.rearranged.exists_method hx
  obtain rfl := Option.some.inj (hx'.symm.trans hy)
  obtain ⟨hready, haccepts⟩ := htakes x ((c.elaborated.method?_callee hu).trans hx)
  constructor
  · exact (c.holds_ready hx hx' c.state).trans hready
  · intro validator' hvalidator'
    have hsome : x'.validator.isSome = x.validator.isSome :=
      congrArg MethodOutline.validator houtline
    rw [hvalidator'] at hsome
    obtain ⟨validator, hvalidator⟩ := Option.isSome_iff_exists.mp hsome.symm
    obtain ⟨args, hargs, haccept⟩ := haccepts validator hvalidator
    exact ⟨args, c.earlyOf hs hs' hargs,
      (c.accepts hx hx' hvalidator hvalidator' c.state args).trans haccept⟩

theorem runnable_transaction (c : Counterparts v π ρ plan plan' m m') (hs : m.Schedules plan s)
    (hs' : m'.Schedules plan' s') {t : Nat} (ht : (m.design.main.transaction? t).isSome)
    (hrunnable : s.runnable.test t = true) : s'.runnable.test (π t) = true := by
  obtain ⟨hexplains, -⟩ := hs.explains_outset c.elaborated c.answers
  obtain ⟨hexplains', -⟩ := hs'.explains_outset c.elaborated' c.answers'
  obtain ⟨hwants, htakes⟩ :=
    ((hs.runnableByNeed c.elaborated hexplains).transaction ht).mp hrunnable
  refine ((hs'.runnableByNeed c.elaborated' hexplains').transaction
    (c.rearranged.isSome_transaction? ht)).mpr ⟨c.wants hwants, ?_⟩
  intro i' u' hu' hreach hholds
  obtain ⟨i, rfl⟩ := ρ.surjective i'
  obtain ⟨u, hu, hrenames⟩ := c.rearranged.exists_site_back hu'
  rw [hrenames.caller] at hreach
  exact c.takes hs hs' hu hu' hrenames (htakes i u hu (c.reaches_back hreach)
    ((c.holds_condition hu hu' hrenames c.state).symm.trans hholds))

theorem runnable_method (c : Counterparts v π ρ plan plan' m m') (hs : m.Schedules plan s)
    (hs' : m'.Schedules plan' s') {a : Nat} (ha : (m.design.main.method? a).isSome)
    (hrunnable : s.runnable.test a = true) : s'.runnable.test (π a) = true := by
  obtain ⟨hexplains, -⟩ := hs.explains_outset c.elaborated c.answers
  obtain ⟨hexplains', -⟩ := hs'.explains_outset c.elaborated' c.answers'
  obtain ⟨x, hx⟩ := Option.isSome_iff_exists.mp ha
  obtain ⟨x', hx', -⟩ := c.rearranged.exists_method hx
  obtain ⟨hrequested, hready, htakes⟩ :=
    ((hs.runnableByNeed c.elaborated hexplains).method hx).mp hrunnable
  refine ((hs'.runnableByNeed c.elaborated' hexplains').method hx').mpr
    ⟨c.requested hs hs' hrequested, (c.holds_ready hx hx' c.state).trans hready, ?_⟩
  intro i' u' hu' hreach hactive
  obtain ⟨i, rfl⟩ := ρ.surjective i'
  obtain ⟨u, hu, hrenames⟩ := c.rearranged.exists_site_back hu'
  rw [hrenames.caller] at hreach
  have hactive := c.symm.active hs' hs hactive
  rw [Equiv.symm_apply_apply] at hactive
  exact c.takes hs hs' hu hu' hrenames
    (htakes i u hu (c.activeReaches_back hs hs' hreach) hactive)

theorem runnable (c : Counterparts v π ρ plan plan' m m') (hs : m.Schedules plan s)
    (hs' : m'.Schedules plan' s') {a : Nat} (ha : s.runnable.test a = true) :
    s'.runnable.test (π a) = true := by
  rcases ((runnableActions_iff c.elaborated hs.runnable).mp ha).2 with ⟨hmethod, -⟩ | ⟨ht, -⟩
  · exact c.runnable_method hs hs' hmethod ha
  · exact c.runnable_transaction hs hs' ht ha

/-! ## Grants -/

/-- The winners in one design are a selection in the other, and there is only one. -/
theorem winner_iff (c : Counterparts v π ρ plan plan' m m') (hs : m.Schedules plan s)
    (hs' : m'.Schedules plan' s') (t : Nat) :
    π t ∈ plan'.winners s'.runnable ↔ t ∈ plan.winners s.runnable := by
  have h := c.elaborated
  have h' := c.elaborated'
  have hwinners' := h'.selection_winners s'.runnable
  have hselection : Selection m.design.main plan.ranking (· ∈ plan.order) s.runnable
      (fun t => π t ∈ plan'.winners s'.runnable) := by
    refine ⟨?_, ?_, ?_⟩
    · intro t ht
      obtain ⟨horder, hrunnable⟩ := hwinners'.within ht
      have hback := c.symm.runnable hs' hs hrunnable
      rw [Equiv.symm_apply_apply] at hback
      exact ⟨h.mem_order.mpr (c.rearranged.transaction_iff.mp (h'.mem_order.mp horder)), hback⟩
    · intro a b ha hb
      cases hconflict : plan.ranking.conflict a b with
      | false => rfl
      | true =>
        have hconflict' := h'.conflict.mpr (c.rearranged.competes (h.conflict.mp hconflict))
        rw [hwinners'.apart ha hb] at hconflict'
        cases hconflict'
    · intro t ht hrunnable hlost
      have ht' := h'.mem_order.mpr (c.rearranged.isSome_transaction? (h.mem_order.mp ht))
      obtain ⟨w', hw', hconflict, hbetter⟩ := hwinners'.beaten ht' (c.runnable hs hs' hrunnable) hlost
      obtain ⟨w, rfl⟩ := π.surjective w'
      have hback := c.rearranged.symm.outranks hbetter
      rw [Equiv.symm_apply_apply, Equiv.symm_apply_apply] at hback
      exact ⟨w, hw', h.conflict.mpr (c.rearranged.competes_iff.mp (h'.conflict.mp hconflict)), hback⟩
  exact h.selection_unique (fun ht => ht) hselection (h.selection_winners s.runnable) t

theorem granted (c : Counterparts v π ρ plan plan' m m') (hs : m.Schedules plan s)
    (hs' : m'.Schedules plan' s') {a : Nat} (ha : s.granted.test a = true) :
    s'.granted.test (π a) = true := by
  obtain ⟨t, ht, hreach⟩ := hs.origin ha
  exact hs'.granted_of_activeReaches c.elaborated' ((c.winner_iff hs hs' t).mpr ht)
    (c.activeReaches hs hs' hreach)

theorem grantedSite (c : Counterparts v π ρ plan plan' m m') (hs : m.Schedules plan s)
    (hs' : m'.Schedules plan' s') {i : Nat} (hi : s.grantedSites.test i = true) :
    s'.grantedSites.test (ρ i) = true := by
  obtain ⟨u, hu, hactive, hcaller⟩ := hs.site.mp hi
  obtain ⟨u', hu', hrenames⟩ := c.rearranged.exists_site hu
  refine hs'.site.mpr ⟨u', hu', c.active hs hs' hactive, ?_⟩
  rw [hrenames.caller]
  exact c.granted hs hs' hcaller

/-- The schedules are the same up to positions. -/
theorem renamed (c : Counterparts v π ρ plan plan' m m') (hs : m.Schedules plan s)
    (hs' : m'.Schedules plan' s') : s.Renamed π ρ s' where
  requested := eq_of_carried (fun _ => c.requested hs hs') (fun _ => c.symm.requested hs' hs)
  runnable := eq_of_carried (fun _ => c.runnable hs hs') (fun _ => c.symm.runnable hs' hs)
  granted := eq_of_carried (fun _ => c.granted hs hs') (fun _ => c.symm.granted hs' hs)
  activeSites := eq_of_carried (fun _ => c.active hs hs') (fun _ => c.symm.active hs' hs)
  grantedSites := eq_of_carried (fun _ => c.grantedSite hs hs') (fun _ => c.symm.grantedSite hs' hs)
  early := by
    intro i
    cases hargs : s.earlyOf i with
    | some args => exact c.earlyOf hs hs' hargs
    | none =>
      cases hargs' : s'.earlyOf (ρ i) with
      | none => rfl
      | some args =>
        have hback := c.symm.earlyOf hs' hs hargs'
        rw [Equiv.symm_apply_apply, hargs] at hback
        cases hback

/-! ## Selected callers -/

/-- The selected call site is the granted one of least rank, on both sides. -/
theorem selectedOf (c : Counterparts v π ρ plan plan' m m') (built : m.design.Built)
    (built' : m'.design.Built) (own : m.design.OwnCallers) (own' : m'.design.OwnCallers)
    (hplan : m.design.main.plan = some plan) (hplan' : m'.design.main.plan = some plan')
    (hs : m.Schedules plan s) (hs' : m'.Schedules plan' s') {x i : Nat}
    (hi : s.selectedOf x = some i) : s'.selectedOf (π x) = some (ρ i) := by
  obtain ⟨⟨hx, hgranted⟩, hsite, u, hu, hcallee⟩ := hs.of_selectedOf built own hplan hi
  have hsome := hs'.isSome_selectedOf built' hplan' (c.rearranged.isSome_method? hx)
    (c.granted hs hs' hgranted)
  obtain ⟨j', hj'⟩ := Option.isSome_iff_exists.mp hsome
  obtain ⟨j, rfl⟩ := ρ.surjective j'
  obtain ⟨-, hsite', w', hw', hcallee'⟩ := hs'.of_selectedOf built' own' hplan' hj'
  obtain ⟨w, hw, hrenames⟩ := c.rearranged.exists_site_back hw'
  obtain ⟨u', hu', hrenames'⟩ := c.rearranged.exists_site hu
  have hj := c.symm.grantedSite hs' hs hsite'
  rw [Equiv.symm_apply_apply] at hj
  have hwx : w.callee = ⟨.main, x⟩ := by
    have hid : π w.callee.id = π x := by rw [← hrenames.callee, hcallee']
    rw [c.elaborated.callee_eq hw, π.injective hid]
  have hux : u'.callee = ⟨.main, π x⟩ := by rw [hrenames'.callee_eq, hcallee]
  -- neither of the two goes before the other
  have hle := hs.rankIn_le_of_selectedOf built hplan hi hw hwx hj
  have hle' := hs'.rankIn_le_of_selectedOf built' hplan' hj' hu' hux (c.grantedSite hs hs' hsite)
  rw [c.rearranged.rankIn c.elaborated c.elaborated' hw,
    c.rearranged.rankIn c.elaborated c.elaborated' hu] at hle'
  have heq := hs.eq_of_rankIn_eq c.elaborated hu hw (by rw [hcallee, hwx]) hsite hj
    (Nat.le_antisymm hle hle')
  rw [hj', heq]

theorem sameCallers (c : Counterparts v π ρ plan plan' m m') (built : m.design.Built)
    (built' : m'.design.Built) (own : m.design.OwnCallers) (own' : m'.design.OwnCallers)
    (hplan : m.design.main.plan = some plan) (hplan' : m'.design.main.plan = some plan')
    (hs : m.Schedules plan s) (hs' : m'.Schedules plan' s') : s.SameCallers π ρ s' := by
  intro x
  cases hi : s.selectedOf x with
  | some i => exact c.selectedOf built built' own own' hplan hplan' hs hs' hi
  | none =>
    cases hi' : s'.selectedOf (π x) with
    | none => rfl
    | some i' =>
      have hback := c.symm.selectedOf built' built own' own hplan' hplan hs' hs hi'
      rw [Equiv.symm_apply_apply, hi] at hback
      cases hback

/-- Counterparts are scheduled alike. -/
theorem schedulesAlike (c : Counterparts v π ρ plan plan' m m') (built : m.design.Built)
    (built' : m'.design.Built) (hplan : m.design.main.plan = some plan)
    (hplan' : m'.design.main.plan = some plan') : m.SchedulesAlike π ρ m' := by
  rcases schedule_cases c.elaborated hplan c.answers with ⟨hfits, s, hm, hs⟩ | ⟨hmisfits, hm⟩
  · rcases schedule_cases c.elaborated' hplan' c.answers' with ⟨-, s', hm', hs'⟩ | ⟨hmisfits', -⟩
    · refine Or.inr ⟨s, s', hm, hm', c.renamed hs hs', fun own own' => ?_⟩
      exact c.sameCallers built built' own own' hplan hplan' hs hs'
    · exact absurd (c.symm.misfits hmisfits') hfits
  · rcases schedule_cases c.elaborated' hplan' c.answers' with ⟨hfits', -⟩ | ⟨-, hm'⟩
    · exact absurd (c.misfits hmisfits) hfits'
    · exact Or.inl ⟨hm, hm'⟩

end Counterparts

end Machine

namespace Design

variable {d d' : Design σ}

theorem rearranged_elaborate {π ρ : Equiv.Perm Nat} (h : d.main.Rearranged π ρ d'.main) :
    d.elaborate.1.main.Rearranged π ρ d'.elaborate.1.main := by
  obtain ⟨ranking, plan, heq⟩ := exists_main_elaborate d
  obtain ⟨ranking', plan', heq'⟩ := exists_main_elaborate d'
  rw [heq, heq']
  exact ⟨h.action, h.site, h.conflict⟩

theorem answers_elaborate {v : Valuation σ} (h : v.Answers d.main) :
    v.Answers d.elaborate.1.main := by
  obtain ⟨ranking, plan, heq⟩ := exists_main_elaborate d
  rw [heq]
  exact ⟨h.request, h.ready, h.accepts, h.condition, h.arguments⟩

/-- Two designs with the same declarations, registered in whatever order each.  Elaboration succeeds
on both or on neither.  If it succeeds, one is a rearrangement of the other, and under every valuation
the two are scheduled alike in every state.  Besides, no schedule depends on which of two granted call
sites was declared first. -/
theorem Built.same_schedules_of_sameDeclarations (built : d.Built) (built' : d'.Built)
    (hopen : d.main.isFrozen = false) (hopen' : d'.main.isFrozen = false)
    (same : d.main.SameDeclarations d'.main) :
    (d.elaborate.2 = .ok () ↔ d'.elaborate.2 = .ok ()) ∧
      (d.elaborate.2 = .ok () → ∃ π ρ : Equiv.Perm Nat, d.main.Rearranged π ρ d'.main ∧
        ∀ (v : Valuation σ) (m m' : Machine σ), v.Answers d.main → v.Answers d'.main →
          m.design = d.elaborate.1 → m'.design = d'.elaborate.1 → m'.state = m.state →
            m.SchedulesAlike π ρ m') ∧
      ∀ (m : Machine σ) (plan : Plan) (s : Schedule), m.design = d.elaborate.1 →
        m.design.main.plan = some plan → m.schedule = .ok s →
          s.RanksApart m.design.main plan := by
  obtain ⟨haccepts, hfrozen⟩ := built.elaborate_eq_ok_iff hopen
  obtain ⟨haccepts', hfrozen'⟩ := built'.elaborate_eq_ok_iff hopen'
  have hboth : d.elaborate.2 = .ok () ↔ d'.elaborate.2 = .ok () := by
    rw [haccepts, haccepts', built.admissible_iff built' same]
  refine ⟨hboth, ?_, ?_⟩
  · intro hok
    obtain ⟨π, ρ, hrearranged⟩ := built.exists_rearranged built' same (haccepts.mp hok)
    obtain ⟨plan, hplan⟩ := Option.isSome_iff_exists.mp (hfrozen.mpr hok)
    obtain ⟨plan', hplan'⟩ := Option.isSome_iff_exists.mp (hfrozen'.mpr (hboth.mp hok))
    refine ⟨π, ρ, hrearranged, ?_⟩
    intro v m m' hv hv' hdesign hdesign' hstate
    have hbuilt : m.design.Built := hdesign ▸ .elaborate built
    have hbuilt' : m'.design.Built := hdesign' ▸ .elaborate built'
    rw [← hdesign] at hplan
    rw [← hdesign'] at hplan'
    have c : Machine.Counterparts v π ρ plan plan' m m' :=
      { elaborated := hbuilt.elaborated hplan
        elaborated' := hbuilt'.elaborated hplan'
        rearranged := by
          rw [hdesign, hdesign']
          exact rearranged_elaborate hrearranged
        answers := by
          rw [hdesign]
          exact answers_elaborate hv
        answers' := by
          rw [hdesign']
          exact answers_elaborate hv'
        state := hstate }
    exact c.schedulesAlike hbuilt hbuilt' hplan hplan'
  · intro m plan s hdesign hplan hs i j u w hu hw hcallee hi hj hrank
    have hbuilt : m.design.Built := hdesign ▸ .elaborate built
    have h := hbuilt.elaborated hplan
    have hs := Machine.schedules_of_schedule h hplan hs
    exact hs.eq_of_rankIn_eq h hu hw hcallee hi hj hrank

end Design

/-! ## The accumulator from back to front -/

namespace Accumulator

/-- The registrations of the accumulator with transactions first, and all in the opposite order. -/
def stepsBackward : List (Registration State) :=
  [.newTransaction .main "watch" 0 none,
   .setTransaction ⟨.main, 0⟩ (.body (callEach [3])),
   .newTransaction .main "step" 1 none,
   .setTransaction ⟨.main, 1⟩ (.body (callEach [4])),
   .newTransaction .main "double" 2 none,
   .setTransaction ⟨.main, 2⟩ (.body (callEach [3, 4])),
   .newMethod .main "read" Shape.empty amount none,
   .setMethod ⟨.main, 3⟩ .shared,
   .setMethod ⟨.main, 3⟩ (.body read),
   .newMethod .main "add" amount Shape.empty none,
   .setMethod ⟨.main, 4⟩ (.validator isSmall),
   .setMethod ⟨.main, 4⟩ (.body add),
   .newCall ⟨.main, 0⟩ ⟨.main, 3⟩,
   .newCall ⟨.main, 1⟩ ⟨.main, 4⟩,
   .setCall ⟨.main, 1⟩ (.arguments fun _ => .ok (record 1)),
   .newCall ⟨.main, 2⟩ ⟨.main, 4⟩,
   .setCall ⟨.main, 2⟩ (.arguments fun view => .ok (record view.state.total)),
   .newCall ⟨.main, 2⟩ ⟨.main, 3⟩]

/-- What the predicates of the accumulator answer. -/
def valuation : Valuation State where
  request := fun _ _ => true
  ready := fun _ _ => true
  accepts := fun _ state args => decide (args.pack.toNat ≤ state.limit)
  condition := fun _ _ _ => true
  arguments := fun caller _ state => if caller = "double" then record state.total else record 1

/-- All that a registry needs to have for its predicates to answer like those of the accumulator. -/
theorem answers_valuation {r : Registry State}
    (htransaction : ∀ x ∈ r.actions, ∀ t, x.transaction? = some t → t.request = none)
    (hmethod : ∀ x ∈ r.actions, ∀ y, x.method? = some y → y.ready = none ∧
      ∀ validator, y.validator = some validator → validator = isSmall)
    (hsite : ∀ u ∈ r.sites, u.condition = none ∧ ∀ supplier, u.arguments = some supplier →
      ∀ view : View State, supplier view = .ok (if r.nameOf u.caller = "double"
        then record view.state.total else record 1)) : valuation.Answers r where
  request := by
    intro t x hx view
    obtain ⟨a, ha, hax⟩ := Registry.transaction?_eq_some.mp hx
    rw [htransaction a (List.mem_of_getElem? ha) x hax]
    rfl
  ready := by
    intro id x hx view
    obtain ⟨a, ha, hax⟩ := Registry.method?_eq_some.mp hx
    rw [(hmethod a (List.mem_of_getElem? ha) x hax).1]
    rfl
  accepts := by
    intro id x validator hx hvalidator view args
    obtain ⟨a, ha, hax⟩ := Registry.method?_eq_some.mp hx
    rw [(hmethod a (List.mem_of_getElem? ha) x hax).2 validator hvalidator]
    rfl
  condition := by
    intro i u hu view
    rw [(hsite u (List.mem_of_getElem? hu)).1]
    rfl
  arguments := by
    intro i u supplier hu hsupplier view
    exact (hsite u (List.mem_of_getElem? hu)).2 supplier hsupplier view

/-- Before the elaboration the accumulator has the same actions and call sites. -/
theorem registered_eq : (Design.registerAll steps {}).main.actions = design.main.actions ∧
    (Design.registerAll steps {}).main.sites = design.main.sites := by
  obtain ⟨ranking, plan, heq⟩ := Design.exists_main_elaborate (Design.registerAll steps {})
  unfold design
  rw [heq]
  exact ⟨rfl, rfl⟩

theorem backward_actions : (Design.registerAll stepsBackward {}).main.actions =
    [⟨"watch", none, .transaction ⟨0, none, some (callEach [3])⟩⟩,
     ⟨"step", none, .transaction ⟨1, none, some (callEach [4])⟩⟩,
     ⟨"double", none, .transaction ⟨2, none, some (callEach [3, 4])⟩⟩,
     ⟨"read", none, .method { reading with callers := [⟨.main, 0⟩, ⟨.main, 3⟩] }⟩,
     ⟨"add", none, .method { adding with callers := [⟨.main, 1⟩, ⟨.main, 2⟩] }⟩] := by cbv

theorem backward_sites : (Design.registerAll stepsBackward {}).main.sites =
    [⟨0, ⟨.main, 3⟩, none, none⟩,
     ⟨1, ⟨.main, 4⟩, none, some fun _ => .ok (record 1)⟩,
     ⟨2, ⟨.main, 4⟩, none, some fun view => .ok (record view.state.total)⟩,
     ⟨2, ⟨.main, 3⟩, none, none⟩] := by cbv

theorem sameDeclarations_backward : (Design.registerAll steps {}).main.SameDeclarations
    (Design.registerAll stepsBackward {}).main where
  actions := by
    rw [registered_eq.1, actions_eq, backward_actions]
    exact (List.reverse_perm _).symm
  sites := by
    have hsites : (Design.registerAll stepsBackward {}).main.sites.map
        (Design.registerAll stepsBackward {}).main.siteOutline =
      ((Design.registerAll steps {}).main.sites.map
        (Design.registerAll steps {}).main.siteOutline).reverse := by cbv
    rw [hsites]
    exact (List.reverse_perm _).symm
  conflicts := by
    have hnone : (Design.registerAll steps {}).main.conflicts = [] := by cbv
    have hnone' : (Design.registerAll stepsBackward {}).main.conflicts = [] := by cbv
    intro first second
    unfold Registry.DeclaresNames Registry.Declares
    rw [hnone, hnone']
    simp

theorem answers_forward : valuation.Answers (Design.registerAll steps {}).main := by
  refine answers_valuation ?_ ?_ ?_
  · rw [registered_eq.1, actions_eq]
    simp [Action.transaction?]
  · rw [registered_eq.1, actions_eq]
    simp [Action.method?, adding, reading]
  · have hname : (Design.registerAll steps {}).main.nameOf 2 = "double" := by cbv
    have hname' : (Design.registerAll steps {}).main.nameOf 3 = "step" := by cbv
    rw [registered_eq.2, sites_eq]
    simp [hname, hname']

theorem answers_backward : valuation.Answers (Design.registerAll stepsBackward {}).main := by
  refine answers_valuation ?_ ?_ ?_
  · rw [backward_actions]
    simp [Action.transaction?]
  · rw [backward_actions]
    simp [Action.method?, adding, reading]
  · have hname : (Design.registerAll stepsBackward {}).main.nameOf 2 = "double" := by cbv
    have hname' : (Design.registerAll stepsBackward {}).main.nameOf 1 = "step" := by cbv
    rw [backward_sites]
    simp [hname, hname']

/-- The accumulator that was registered from back to front, at rest. -/
def backward : Machine State where
  design := (Design.registerAll stepsBackward {}).elaborate.1
  state := ⟨10, 3⟩

theorem ownCallers_backward : backward.design.OwnCallers := by
  obtain ⟨ranking, plan, heq⟩ := Design.exists_main_elaborate (Design.registerAll stepsBackward {})
  intro id x hx c hc
  obtain ⟨a, ha, hax⟩ := Registry.method?_eq_some.mp hx
  have hmem := List.mem_of_getElem? ha
  rw [show backward.design.main = _ from heq] at hmem
  simp only [backward_actions, List.mem_cons, List.not_mem_nil, or_false] at hmem
  rcases hmem with rfl | rfl | rfl | rfl | rfl
  · cases hax
  · cases hax
  · cases hax
  · obtain rfl := Option.some.inj hax
    rcases List.mem_pair.mp hc with rfl | rfl
    · rfl
    · rfl
  · obtain rfl := Option.some.inj hax
    rcases List.mem_pair.mp hc with rfl | rfl
    · rfl
    · rfl

/-- The accumulator and the one from back to front elaborate, have the same schedule up to positions
with the same callers selected, and of the granted call sites of a method no two have the same rank. -/
theorem same_schedules_backward :
    ((Design.registerAll steps {}).main.isFrozen = false ∧
      (Design.registerAll stepsBackward {}).main.isFrozen = false ∧
      (Design.registerAll steps {}).main.SameDeclarations
        (Design.registerAll stepsBackward {}).main ∧
      (Design.registerAll steps {}).elaborate.2 = .ok () ∧
      valuation.Answers (Design.registerAll steps {}).main ∧
      valuation.Answers (Design.registerAll stepsBackward {}).main) ∧
    (Design.registerAll stepsBackward {}).elaborate.2 = .ok () ∧
    (∃ π ρ s', (Design.registerAll steps {}).main.Rearranged π ρ
        (Design.registerAll stepsBackward {}).main ∧ backward.schedule = .ok s' ∧
        schedule.Renamed π ρ s' ∧ schedule.SameCallers π ρ s') ∧
    schedule.RanksApart design.main plan := by
  have hopen : (Design.registerAll steps {}).main.isFrozen = false := by cbv
  have hopen' : (Design.registerAll stepsBackward {}).main.isFrozen = false := by cbv
  have hok : (Design.registerAll steps {}).elaborate.2 = .ok () := by cbv
  obtain ⟨hboth, halike, hranks⟩ := Design.Built.same_schedules_of_sameDeclarations
    (.registerAll steps .empty) (.registerAll stepsBackward .empty) hopen hopen'
    sameDeclarations_backward
  obtain ⟨π, ρ, hrearranged, hschedules⟩ := halike hok
  refine ⟨⟨hopen, hopen', sameDeclarations_backward, hok, answers_forward, answers_backward⟩,
    hboth.mp hok, ?_, hranks machine plan schedule rfl plan_eq schedule_eq⟩
  rcases hschedules valuation machine backward answers_forward answers_backward rfl rfl rfl with
    ⟨⟨caller, callee, hrefused⟩, -⟩ | ⟨s, s', hs, hs', hrenamed, hcallers⟩
  · rw [schedule_eq] at hrefused
    cases hrefused
  · obtain rfl := Except.ok.inj (schedule_eq.symm.trans hs)
    exact ⟨π, ρ, s', hrearranged, hs', hrenamed, hcallers ownCallers ownCallers_backward⟩

end Accumulator

end GuardedActions
