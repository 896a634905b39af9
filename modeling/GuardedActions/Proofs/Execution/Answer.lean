import GuardedActions.Proofs.Execution.Progress

/-!
# How calls are answered and executions complete

A call that is answered opens a granted call site that was not performed, and is answered in one of two
ways: with the result that its callee has returned before, or by running the body of the callee.  An
execution completes if all its stages do.
-/

set_option autoImplicit false

namespace GuardedActions

variable {σ : Type}

namespace Machine

/-- The answer to a call through an open call site. -/
inductive Answered (m : Machine σ) (s : Schedule) (fuel i : Nat) (u : Site σ) (target : Method σ)
    (given : Option Record) (passed : Record) (e : Body.Effects σ Account) :
    Record → Body.Effects σ Account → Prop where
  /-- the callee has returned before -/
  | again {result : Record} (known : e.calls.ledger.resultOf u.callee.id = some result)
      (shared : target.nonexclusive = true) : Answered m s fuel i u target given passed e result
        { e with calls := (e.calls.perform i given).answer i result }
  /-- the body of the callee runs -/
  | first {body : Record → ActionBody σ Record} {result : Record} {e' : Body.Effects σ Account}
      (unknown : e.calls.ledger.resultOf u.callee.id = none)
      (checked : m.checkRun (m.design.nameOf u.callee) target
        (drivingArguments s u.callee.id target i passed) e.state = .ok ())
      (defined : target.body = some body)
      (ran : (body (drivingArguments s u.callee.id target i passed)).run (m.bodyScene u.callee.id)
        (m.answerTraced s fuel u.callee.id)
        { e with
          calls := (e.calls.perform i given).enter u.callee.id
            (drivingArguments s u.callee.id target i passed) } = .ok (result, e'))
      (fits : result.shape = target.output) : Answered m s fuel i u target given passed e result
        { e' with calls := (e'.calls.leave u.callee.id result).answer i result }

variable {m : Machine σ} {s : Schedule}

theorem findSite?_of_claimSite {caller i : Nat} {callee : ActionRef} {l : Ledger} {u : Site σ}
    (h : m.claimSite s caller callee l = .ok (i, u)) :
    m.design.main.findSite? caller callee = some (i, u) := by
  unfold claimSite at h
  simp only at h
  split at h
  · cases h
  · rename_i j v hfind
    split at h
    · cases h
    · split at h
      · cases h
      · obtain ⟨rfl, rfl⟩ := Prod.mk.inj (Except.ok.inj h)
        exact hfind

/-- All that an answered call says. -/
theorem answered_of_answerTraced {fuel caller : Nat} {callee : ActionRef} {given : Option Record}
    {e e' : Body.Effects σ Account} {result : Record}
    (h : m.answerTraced s (fuel + 1) caller (.perform callee given) e = .ok (result, e')) :
    ∃ (i : Nat) (u : Site σ) (target : Method σ) (passed : Record), u.caller = caller ∧
      u.callee = callee ∧ m.Opens s e.calls.ledger i u target given passed ∧
        m.Answered s fuel i u target given passed e result e' := by
  unfold answerTraced at h
  obtain ⟨⟨i, u⟩, hclaim, h⟩ := bind_eq_ok.mp h
  have hfound := findSite?_of_claimSite hclaim
  obtain ⟨-, rfl, rfl, hgranted, hfresh⟩ := claimSite_eq_ok hclaim
  simp only at h
  split at h
  · cases h
  · rename_i target hknown
    obtain ⟨passed, hpassed, h⟩ := bind_eq_ok.mp h
    refine ⟨i, u, target, passed, rfl, rfl, ⟨hfound, hgranted, hfresh, hknown, hpassed⟩, ?_⟩
    split at h
    · rename_i known hresult
      split at h
      · rename_i hshared
        obtain ⟨rfl, rfl⟩ := Prod.mk.inj (Except.ok.inj h)
        exact .again hresult hshared
      · cases h
    · rename_i hnone
      obtain ⟨⟨⟩, hchecked, h⟩ := bind_eq_ok.mp h
      split at h
      · cases h
      · rename_i body hbody
        obtain ⟨⟨returned, e''⟩, hran, h⟩ := bind_eq_ok.mp h
        simp only at h
        split at h
        · rename_i hshape
          obtain ⟨rfl, rfl⟩ := Prod.mk.inj (Except.ok.inj h)
          exact .first hnone hchecked hbody hran hshape
        · cases h

/-- A body that is run directly runs for its caller, and no call site is used. -/
inductive Invoked (m : Machine σ) (s : Schedule) (fuel caller : Nat) (target : ActionRef) (args : Record)
    (e : Body.Effects σ Account) (a : Action σ) : Record → Body.Effects σ Account → Prop where
  /-- the body of a method -/
  | method {x : Method σ} {body : Record → ActionBody σ Record} {result : Record}
      {e' : Body.Effects σ Account} (role : a.method? = some x) (defined : x.body = some body)
      (ran : (body args).run (m.bodyScene caller) (m.answerTraced s fuel caller)
        { e with calls := e.calls.enter target.id args } = .ok (result, e')) :
      Invoked m s fuel caller target args e a result e'
  /-- the body of a transaction -/
  | transaction {t : Transaction σ} {body : ActionBody σ Unit} {e' : Body.Effects σ Account}
      (role : a.transaction? = some t) (defined : t.body = some body)
      (ran : body.run (m.bodyScene caller) (m.answerTraced s fuel caller)
        { e with calls := e.calls.start target.id } = .ok ((), e')) :
      Invoked m s fuel caller target args e a Record.empty e'

/-- All that the answer to a direct call says. -/
theorem invoked_of_answerTraced {fuel caller : Nat} {target : ActionRef} {args result : Record}
    {e e' : Body.Effects σ Account}
    (h : m.answerTraced s (fuel + 1) caller (.invoke target args) e = .ok (result, e')) :
    ∃ a, m.design.action? target = some a ∧ m.Invoked s fuel caller target args e a result e' := by
  unfold answerTraced at h
  cases ha : m.design.action? target with
  | none => simp [ha] at h
  | some a =>
    refine ⟨a, rfl, ?_⟩
    rw [ha, Option.map_some] at h
    cases hrole : a.role with
    | method x =>
      rw [hrole] at h
      simp only at h
      cases hbody : x.body with
      | none => simp [hbody] at h
      | some body =>
        rw [hbody] at h
        exact .method (by rw [Action.method?, hrole]) hbody h
    | transaction t =>
      rw [hrole] at h
      simp only at h
      cases hbody : t.body with
      | none => simp [hbody] at h
      | some body =>
        rw [hbody] at h
        obtain ⟨⟨⟨⟩, e₁⟩, hran, h⟩ := bind_eq_ok.mp h
        obtain ⟨rfl, rfl⟩ := Prod.mk.inj (Except.ok.inj h)
        exact .transaction (by rw [Action.transaction?, hrole]) hbody hran

/-- A call through an open call site has the answer that there is for it. -/
theorem Opens.answerTraced_eq {fuel i : Nat} {u : Site σ} {target : Method σ}
    {given : Option Record} {passed result : Record} {e e' : Body.Effects σ Account}
    (ho : m.Opens s e.calls.ledger i u target given passed)
    (h : m.Answered s fuel i u target given passed e result e') :
    m.answerTraced s (fuel + 1) u.caller (.perform u.callee given) e = .ok (result, e') := by
  unfold answerTraced
  rw [claimSite_of_findSite? ho.found ho.granted ho.fresh, ok_bind]
  simp only
  rw [ho.known]
  simp only
  rw [ho.passed, ok_bind, Account.ledger_perform, Ledger.resultOf_perform]
  cases h with
  | again known shared =>
    rw [known]
    exact if_pos shared
  | first unknown checked defined ran fits =>
    rw [unknown]
    simp only
    rw [checked, ok_bind, defined]
    simp only
    rw [ran, ok_bind]
    exact if_pos fits

/-- Events are never forgotten. -/
theorem mem_events_of_answerTraced {plan : Plan} (h : m.design.main.Elaborated plan)
    (hbodies : m.design.main.OnlyPerforms) :
    ∀ (fuel caller : Nat) (callee : ActionRef) (given : Option Record) (e : Body.Effects σ Account)
      (result : Record) (e' : Body.Effects σ Account),
      m.answerTraced s fuel caller (.perform callee given) e = .ok (result, e') →
      ∀ ev ∈ e.calls.events, ev ∈ e'.calls.events := by
  intro fuel
  induction fuel with
  | zero =>
    intro caller callee given e result e' hrun
    cases hrun
  | succ fuel ih =>
    intro caller callee given e result e' hrun ev hev
    obtain ⟨i, u, target, passed, rfl, rfl, ho, hanswer⟩ := answered_of_answerTraced hrun
    have hu := (Registry.findSite?_eq_some ho.found).1
    have htarget := (h.method?_callee hu).symm.trans ho.known
    cases hanswer with
    | again known shared => simp [hev]
    | first unknown checked defined ran fits =>
      have hafter := Body.run_keeps (P := fun a => ev ∈ a.events)
        (fun callee' given' e₁ result' e₂ he₁ hanswer =>
          ih u.callee.id callee' given' e₁ result' e₂ hanswer ev he₁)
        (hbodies.method htarget defined _) (by simp [hev]) ran
      simp only [Account.events_answer, Account.events_leave]
      exact List.mem_append_left _ (List.mem_append_left _ hafter)

/-- Nor are they while a body runs. -/
theorem mem_events_of_run {plan : Plan} (h : m.design.main.Elaborated plan)
    (hbodies : m.design.main.OnlyPerforms) {fuel caller : Nat} {α : Type} {body : ActionBody σ α}
    (hbody : body.OnlyPerforms) {e e' : Body.Effects σ Account} {r : α}
    (hrun : body.run (m.bodyScene caller) (m.answerTraced s fuel caller) e = .ok (r, e')) :
    ∀ ev ∈ e.calls.events, ev ∈ e'.calls.events := fun ev hev =>
  Body.run_keeps (P := fun a => ev ∈ a.events)
    (fun callee given e₁ result e₂ he₁ hanswer =>
      mem_events_of_answerTraced h hbodies fuel caller callee given e₁ result e₂ hanswer ev he₁)
    hbody hev hrun

/-! ## The stages of an execution -/

/-- The start of an execution with a trace. -/
def traceStart (m : Machine σ) : Body.Effects σ Account :=
  ⟨m.state, m.journal, Account.empty m.design.main.actions.length m.design.main.sites.length⟩

/-- The stages of an execution that completes. -/
theorem executeTracedWith_eq_ok {plan : Plan} {r : Machine σ × List Event} :
    m.executeTracedWith plan s = .ok r ↔ (m.executing s).checkExclusive s = .ok () ∧
      ∃ e e', plan.order.foldlM ((m.executing s).runTransactionTraced s) (m.executing s).traceStart = .ok e ∧
        (m.executing s).checkPerformed s e.calls.ledger = .ok () ∧
        m.parts.foldlM (m.executing s).runHook (e.mapCalls Account.ledger) = .ok e' ∧
        r = ({ m.executing s with state := e'.state, journal := e'.journal }, e.calls.events) := by
  unfold executeTracedWith
  constructor
  · intro h
    obtain ⟨⟨⟩, hexclusive, h⟩ := bind_eq_ok.mp h
    obtain ⟨e, hrun, h⟩ := bind_eq_ok.mp h
    obtain ⟨⟨⟩, hperformed, h⟩ := bind_eq_ok.mp h
    obtain ⟨e', hhooks, h⟩ := bind_eq_ok.mp h
    exact ⟨hexclusive, e, e', hrun, hperformed, hhooks, (Except.ok.inj h).symm⟩
  · rintro ⟨hexclusive, e, e', hrun, hperformed, hhooks, rfl⟩
    exact bind_eq_ok.mpr ⟨(), hexclusive, bind_eq_ok.mpr ⟨e, hrun, bind_eq_ok.mpr
      ⟨(), hperformed, bind_eq_ok.mpr ⟨e', hhooks, rfl⟩⟩⟩⟩

/-- An execution with a trace that completes has a plan, is of the current cycle, and completes under the
plan. -/
theorem executeTraced_eq_ok {r : Machine σ × List Event} : m.executeTraced s = .ok r ↔
    ∃ plan, m.design.main.plan = some plan ∧ s.cycle = m.cycle ∧ m.executeTracedWith plan s = .ok r := by
  unfold executeTraced
  cases m.design.main.plan with
  | none => simp
  | some plan =>
    simp only [Option.some.injEq, exists_eq_left']
    split
    · rename_i hcycle
      exact ⟨fun h => ⟨hcycle, h⟩, And.right⟩
    · rename_i hstale
      exact ⟨nofun, fun h => absurd h.1 hstale⟩

/-- A transaction that runs is granted and its body comes to its end; one that is not granted does
nothing. -/
theorem runTransactionTraced_eq_ok {e e' : Body.Effects σ Account} {t : Nat} :
    m.runTransactionTraced s e t = .ok e' ↔
      (s.granted.test t = true ∧ ∃ x body, m.design.main.transaction? t = some x ∧ x.body = some body ∧
        body.run (m.bodyScene t) (m.answerTraced s m.bodyDepth t)
          { e with calls := e.calls.start t } = .ok ((), e')) ∨
      (s.granted.test t = false ∧ e' = e) := by
  unfold runTransactionTraced
  cases s.granted.test t with
  | false => simp [eq_comm]
  | true =>
    simp only [if_true, true_and, Bool.true_eq_false, false_and, or_false]
    constructor
    · intro h
      split at h
      · cases h
      · rename_i body hbody
        obtain ⟨x, hx, hxbody⟩ := Option.bind_eq_some_iff.mp hbody
        obtain ⟨⟨⟨⟩, e₁⟩, hran, rfl⟩ := map_eq_ok.mp h
        exact ⟨x, body, hx, hxbody, hran⟩
    · rintro ⟨x, body, hx, hxbody, hran⟩
      rw [hx, Option.bind_some, hxbody]
      exact map_eq_ok.mpr ⟨_, hran, rfl⟩

end Machine

end GuardedActions
