import GuardedActions.Proofs.Execution.Answer

/-!
# Executions as steps of an account

Whatever bodies do, and whichever bodies they run directly, an execution writes down a sequence of steps: bodies
start, granted call sites are performed for the first time, methods that have not returned return, and callers
receive what their callees returned (`Machine.steps_of_runTransactionTraced`).  The ledger and the events agree
after any such sequence (`Account.Consistent`): no call site is performed twice, and a method returned at most once,
with the result that all its callers received.
-/

set_option autoImplicit false

namespace GuardedActions

variable {σ : Type}

/-- What holds of every call holds of a whole run, if it holds of doing nothing and of one thing after another. -/
theorem Body.calls_of_run {κ α ρ : Type} {T : ρ → ρ → Prop} (hrefl : ∀ c, T c c)
    (htrans : ∀ {c c' c''}, T c c' → T c' c'' → T c c'') {scene : Scene}
    {answer : κ → Effects σ ρ → Except Fault (Record × Effects σ ρ)}
    (hanswer : ∀ {request e result e'}, answer request e = .ok (result, e') → T e.calls e'.calls)
    {body : Body σ κ α} {e e' : Effects σ ρ} {a : α} (hrun : body.run scene answer e = .ok (a, e')) :
    T e.calls e'.calls := by
  induction body generalizing e with
  | done a' =>
    obtain ⟨-, rfl⟩ := Prod.mk.inj (Except.ok.inj hrun)
    exact hrefl _
  | fail fault => cases hrun
  | look next ih => exact ih _ hrun
  | update state next ih => exact ih (e := { e with state := state }) hrun
  | note text next ih => exact ih (e := { e with journal := e.journal.note text }) hrun
  | report entry next ih => exact ih (e := { e with journal := e.journal.report entry }) hrun
  | call request next ih =>
    unfold run at hrun
    split at hrun
    · cases hrun
    · rename_i result e₁ hcall
      exact htrans (hanswer hcall) (ih result hrun)

theorem Ledger.resultOf_finish_of_ne {l : Ledger} {x y : Nat} (result : Record) (hne : x ≠ y) :
    (l.finish x result).resultOf y = l.resultOf y := by
  unfold resultOf finish
  rw [List.getElem?_set_ne hne]

/-- Some caller of a method went on with a result. -/
def Registry.Received (r : Registry σ) (callee : ActionRef) (result : Record) (events : List Event) : Prop :=
  ∃ (i : Nat) (u : Site σ), r.sites[i]? = some u ∧ u.callee = callee ∧ .answer i result ∈ events

theorem Registry.Received.mono {r : Registry σ} {callee : ActionRef} {result : Record}
    {events events' : List Event} (h : r.Received callee result events) (hgrows : events <+: events') :
    r.Received callee result events' := by
  obtain ⟨i, u, hu, hcallee, hanswer⟩ := h
  exact ⟨i, u, hu, hcallee, hgrows.mem hanswer⟩

namespace Account

variable {m : Machine σ} {s : Schedule} {a b c : Account}

/-- One step of an execution, as it is written down. -/
inductive Step (m : Machine σ) (s : Schedule) (a : Account) : Account → Prop where
  /-- the body of a transaction starts -/
  | start (t : Nat) : Step m s a (a.start t)
  /-- the body of a method starts -/
  | enter (x : Nat) (args : Record) : Step m s a (a.enter x args)
  /-- an open call site is performed -/
  | perform {i : Nat} {u : Site σ} {target : Method σ} {given : Option Record} {passed : Record}
      (opens : m.Opens s a.ledger i u target given passed) : Step m s a (a.perform i given)
  /-- a caller goes on whose callee has returned before -/
  | again {i : Nat} {u : Site σ} {result : Record} (site : m.design.main.sites[i]? = some u)
      (known : a.ledger.resultOf u.callee.id = some result) : Step m s a (a.answer i result)
  /-- a method returns, and the caller that started it goes on -/
  | leave {i : Nat} {u : Site σ} {result : Record} (site : m.design.main.sites[i]? = some u)
      (unknown : a.ledger.resultOf u.callee.id = none) :
      Step m s a ((a.leave u.callee.id result).answer i result)

/-- Any number of steps lead from one account to another. -/
def Steps (m : Machine σ) (s : Schedule) : Account → Account → Prop := Relation.ReflTransGen (Step m s)

theorem Steps.refl (a : Account) : Steps m s a a := Relation.ReflTransGen.refl

theorem Steps.trans (h : Steps m s a b) (h' : Steps m s b c) : Steps m s a c := Relation.ReflTransGen.trans h h'

theorem Step.steps (h : Step m s a b) : Steps m s a b := .single h

/-- Events are added at the end. -/
theorem Step.grows (h : Step m s a b) : a.events <+: b.events := by
  cases h with
  | start t => exact List.prefix_append _ _
  | enter x args => exact List.prefix_append _ _
  | perform opens => exact List.prefix_append _ _
  | again site known => exact List.prefix_append _ _
  | leave site unknown =>
    rw [events_answer, events_leave, List.append_assoc]
    exact List.prefix_append _ _

theorem Steps.grows (h : Steps m s a b) : a.events <+: b.events := by
  induction h with
  | refl => exact List.prefix_rfl
  | tail _ hstep ih => exact ih.trans hstep.grows

/-- An action has returned what it had, or has still not returned. -/
def Keeps (x : Nat) (a b : Account) : Prop := b.ledger.resultOf x = a.ledger.resultOf x

theorem Keeps.refl (x : Nat) (a : Account) : Keeps x a a := Eq.refl _

theorem Keeps.trans {x : Nat} (h : Keeps x a b) (h' : Keeps x b c) : Keeps x a c := Eq.trans h' h

/-! ## Ledger and events -/

/-- The ledger and the events agree. -/
structure Consistent (m : Machine σ) (a : Account) : Prop where
  /-- there is a place for every call site -/
  performed_size : a.ledger.performed.size = m.design.main.sites.length
  /-- there is a place for the result of every action -/
  results_length : a.ledger.results.length = m.design.main.actions.length
  /-- the ledger knows the performed call sites -/
  performed : ∀ i, a.ledger.performed.test i = true ↔ i ∈ a.performed
  /-- no call site is performed twice -/
  performed_nodup : a.performed.Nodup
  /-- results are what methods returned -/
  left : ∀ x result, .leave x result ∈ a.events ↔ a.ledger.resultOf x = some result
  /-- callers received the results of their callees -/
  answered : ∀ i result, .answer i result ∈ a.events → ∃ u : Site σ,
    m.design.main.sites[i]? = some u ∧ a.ledger.resultOf u.callee.id = some result

namespace Consistent

theorem empty (m : Machine σ) :
    (Account.empty m.design.main.actions.length m.design.main.sites.length).Consistent m where
  performed_size := Mask.size_none _
  results_length := List.length_replicate
  performed := by
    intro i
    unfold Account.empty Ledger.start
    rw [Mask.test_none]
    simp [Account.performed]
  performed_nodup := List.nodup_nil
  left := by
    intro x result
    unfold Account.empty
    rw [Ledger.resultOf_start]
    simp
  answered := by
    intro i result hmem
    cases hmem

/-- A call site is performed that was not. -/
theorem perform (h : a.Consistent m) {i : Nat} (given : Option Record) (hi : i < m.design.main.sites.length)
    (hfresh : a.ledger.performed.test i = false) : (a.perform i given).Consistent m where
  performed_size := (Mask.size_insert _ _).trans h.performed_size
  results_length := h.results_length
  performed := by
    intro j
    have hsize : i < a.ledger.performed.size := by
      rw [h.performed_size]
      exact hi
    rw [ledger_perform, performed_perform, List.mem_append, List.mem_singleton, ← h.performed]
    exact Mask.test_insert_iff hsize
  performed_nodup := by
    rw [performed_perform]
    refine List.Nodup.append h.performed_nodup (List.nodup_singleton i) fun j hj hji => ?_
    rw [List.mem_singleton.mp hji, ← h.performed, hfresh] at hj
    cases hj
  left := by simpa using h.left
  answered := by simpa using h.answered

/-- A caller receives the result of its callee. -/
theorem answer (h : a.Consistent m) {i : Nat} {u : Site σ} {result : Record}
    (hu : m.design.main.sites[i]? = some u) (hknown : a.ledger.resultOf u.callee.id = some result) :
    (a.answer i result).Consistent m where
  performed_size := h.performed_size
  results_length := h.results_length
  performed := by simpa using h.performed
  performed_nodup := by simpa using h.performed_nodup
  left := by simpa using h.left
  answered := by
    intro j other hj
    have hj : .answer j other ∈ a.events ∨ (j = i ∧ other = result) := by simpa using hj
    rcases hj with hj | ⟨rfl, rfl⟩
    · exact h.answered j other hj
    · exact ⟨u, hu, hknown⟩

/-- A method returns that did not. -/
theorem leave (h : a.Consistent m) {x : Nat} (result : Record) (hx : x < m.design.main.actions.length)
    (hunknown : a.ledger.resultOf x = none) : (a.leave x result).Consistent m where
  performed_size := h.performed_size
  results_length := (List.length_set ..).trans h.results_length
  performed := by
    intro j
    rw [performed_leave]
    exact h.performed j
  performed_nodup := by simpa using h.performed_nodup
  left := by
    intro y other
    have hleft := h.left y other
    rw [ledger_leave, Ledger.resultOf_finish (h.results_length ▸ hx), events_leave, List.mem_append]
    by_cases heq : x = y
    · rw [← heq, hunknown] at hleft
      rw [if_pos heq]
      simp [← heq, hleft, eq_comm]
    · rw [if_neg heq, hleft]
      simp [Ne.symm heq]
  answered := by
    intro j other hj
    have hj : .answer j other ∈ a.events := by simpa using hj
    obtain ⟨u, hu, hknown⟩ := h.answered j other hj
    have hne : x ≠ u.callee.id := by
      intro heq
      rw [← heq, hunknown] at hknown
      cases hknown
    refine ⟨u, hu, ?_⟩
    rw [ledger_leave, Ledger.resultOf_finish_of_ne result hne]
    exact hknown

/-- Every step keeps the ledger and the events in agreement. -/
theorem step {plan : Plan} (h : m.design.main.Elaborated plan) (ha : a.Consistent m) (hstep : Step m s a b) :
    b.Consistent m := by
  cases hstep with
  | start t =>
    exact ⟨ha.performed_size, ha.results_length, by simpa using ha.performed, by simpa using ha.performed_nodup,
      by simpa using ha.left, by simpa using ha.answered⟩
  | enter x args =>
    exact ⟨ha.performed_size, ha.results_length, by simpa using ha.performed, by simpa using ha.performed_nodup,
      by simpa using ha.left, by simpa using ha.answered⟩
  | perform opens =>
    have hu := (Registry.findSite?_eq_some opens.found).1
    exact ha.perform _ (List.getElem?_eq_some_iff.mp hu).1 opens.fresh
  | again site known => exact ha.answer site known
  | @leave i u result site unknown =>
    have hlt := Registry.lt_length_of_method? (h.callee_method site)
    refine (ha.leave result hlt unknown).answer site ?_
    rw [ledger_leave, Ledger.resultOf_finish (ha.results_length ▸ hlt), if_pos rfl]

theorem steps {plan : Plan} (h : m.design.main.Elaborated plan) (ha : a.Consistent m) (hsteps : Steps m s a b) :
    b.Consistent m := by
  induction hsteps with
  | refl => exact ha
  | tail _ hstep ih => exact ih.step h hstep

/-- A method returned what its callers received. -/
theorem leave_iff (ha : a.Consistent m) {callee : ActionRef} {result : Record}
    (hreceived : m.design.main.Received callee result a.events) (other : Record) :
    .leave callee.id other ∈ a.events ↔ other = result := by
  obtain ⟨i, u, hu, rfl, hanswer⟩ := hreceived
  obtain ⟨v, hv, hknown⟩ := ha.answered i result hanswer
  obtain rfl := Option.some.inj (hu.symm.trans hv)
  rw [ha.left, hknown, Option.some.injEq, eq_comm]

end Consistent

end Account

namespace Machine

variable {m : Machine σ} {s : Schedule} {plan : Plan}

theorem received_of_answerTraced {fuel caller : Nat} {callee : ActionRef} {given : Option Record}
    {e e' : Body.Effects σ Account} {result : Record}
    (h : m.answerTraced s fuel caller (.perform callee given) e = .ok (result, e')) :
    m.design.main.Received callee result e'.calls.events := by
  cases fuel with
  | zero => cases h
  | succ fuel =>
    obtain ⟨i, u, target, passed, -, rfl, ho, hanswer⟩ := answered_of_answerTraced h
    refine ⟨i, u, (Registry.findSite?_eq_some ho.found).1, rfl, ?_⟩
    cases hanswer with
    | again known shared => simp
    | first unknown checked defined ran fits => simp

/-- While an action runs, nothing that reaches it returns: calls lead away from it. -/
theorem keeps_of_answerTraced (h : m.design.main.Elaborated plan) :
    ∀ (fuel caller : Nat) (call : Call) (e : Body.Effects σ Account) (result : Record)
      (e' : Body.Effects σ Account), m.answerTraced s fuel caller call e = .ok (result, e') →
      ∀ x, m.design.main.Reaches x caller → Account.Keeps x e.calls e'.calls := by
  intro fuel
  induction fuel with
  | zero =>
    intro caller call e result e' hcall
    cases hcall
  | succ fuel ih =>
    intro caller call e result e' hcall x hreach
    -- what the calls of a body do not change, the body does not change
    have hrun : ∀ {α : Type} {caller : Nat} {body : ActionBody σ α} {e e' : Body.Effects σ Account} {r : α},
        body.run (m.bodyScene caller) (m.answerTraced s fuel caller) e = .ok (r, e') →
        m.design.main.Reaches x caller → Account.Keeps x e.calls e'.calls := by
      intro α caller body e e' r hran hreach
      exact Body.calls_of_run (.refl x) .trans (fun hcall => ih _ _ _ _ _ hcall x hreach) hran
    cases call with
    | perform callee given =>
      obtain ⟨i, u, target, passed, rfl, rfl, ho, hanswer⟩ := answered_of_answerTraced hcall
      have hu := (Registry.findSite?_eq_some ho.found).1
      have hcalls : m.design.main.Calls u.caller u.callee.id := ⟨i, u, hu, rfl, rfl⟩
      cases hanswer with
      | again known shared => rfl
      | first unknown checked defined ran fits =>
        have hne : u.callee.id ≠ x := by
          rintro rfl
          exact h.acyclic.not_reaches hcalls hreach
        have hbody := hrun ran (hreach.tail hcalls)
        exact (Ledger.resultOf_finish_of_ne _ hne).trans hbody
    | invoke target args =>
      obtain ⟨a, -, hinvoked⟩ := invoked_of_answerTraced hcall
      cases hinvoked with
      | method role defined ran =>
        have hbody := hrun ran hreach
        exact hbody
      | transaction role defined ran =>
        have hbody := hrun ran hreach
        exact hbody

/-- The answer to a call is made in steps. -/
theorem steps_of_answerTraced (h : m.design.main.Elaborated plan) :
    ∀ (fuel caller : Nat) (call : Call) (e : Body.Effects σ Account) (result : Record)
      (e' : Body.Effects σ Account), m.answerTraced s fuel caller call e = .ok (result, e') →
      Account.Steps m s e.calls e'.calls := by
  intro fuel
  induction fuel with
  | zero =>
    intro caller call e result e' hcall
    cases hcall
  | succ fuel ih =>
    intro caller call e result e' hcall
    have hrun : ∀ {α : Type} {caller : Nat} {body : ActionBody σ α} {e e' : Body.Effects σ Account} {r : α},
        body.run (m.bodyScene caller) (m.answerTraced s fuel caller) e = .ok (r, e') →
        Account.Steps m s e.calls e'.calls := by
      intro α caller body e e' r hran
      exact Body.calls_of_run Account.Steps.refl Account.Steps.trans (fun hcall => ih _ _ _ _ _ hcall) hran
    cases call with
    | perform callee given =>
      obtain ⟨i, u, target, passed, rfl, rfl, ho, hanswer⟩ := answered_of_answerTraced hcall
      have hu := (Registry.findSite?_eq_some ho.found).1
      cases hanswer with
      | again known shared =>
        have hknown : (e.calls.perform i given).ledger.resultOf u.callee.id = some result := known
        exact (Account.Step.perform ho).steps.trans (Account.Step.again hu hknown).steps
      | @first body _ e₁ unknown checked defined ran fits =>
        have hbody := hrun ran
        have hkept : Account.Keeps u.callee.id _ e₁.calls := Body.calls_of_run (.refl _) .trans
          (fun hcall => keeps_of_answerTraced h _ _ _ _ _ _ hcall _ .refl) ran
        have hunknown : e₁.calls.ledger.resultOf u.callee.id = none := Eq.trans hkept unknown
        exact (Account.Step.perform ho).steps.trans ((Account.Step.enter _ _).steps.trans
          (hbody.trans (Account.Step.leave hu hunknown).steps))
    | invoke target args =>
      obtain ⟨a, -, hinvoked⟩ := invoked_of_answerTraced hcall
      cases hinvoked with
      | method role defined ran => exact (Account.Step.enter _ _).steps.trans (hrun ran)
      | transaction role defined ran => exact (Account.Step.start _).steps.trans (hrun ran)

/-- So is the run of a body. -/
theorem steps_of_run (h : m.design.main.Elaborated plan) {fuel caller : Nat} {α : Type} {body : ActionBody σ α}
    {e e' : Body.Effects σ Account} {r : α}
    (hrun : body.run (m.bodyScene caller) (m.answerTraced s fuel caller) e = .ok (r, e')) :
    Account.Steps m s e.calls e'.calls :=
  Body.calls_of_run Account.Steps.refl Account.Steps.trans (fun hcall => steps_of_answerTraced h _ _ _ _ _ _ hcall)
    hrun

theorem steps_of_runTransactionTraced (h : m.design.main.Elaborated plan) {t : Nat}
    {e e' : Body.Effects σ Account} (hrun : m.runTransactionTraced s e t = .ok e') :
    Account.Steps m s e.calls e'.calls := by
  rcases runTransactionTraced_eq_ok.mp hrun with ⟨-, x, body, -, -, hran⟩ | ⟨-, rfl⟩
  · exact (Account.Step.start t).steps.trans (steps_of_run h hran)
  · exact .refl _

/-- All transactions that run one after the other leave the ledger and the events in agreement. -/
theorem consistent_of_foldlM (h : m.design.main.Elaborated plan) {order : List Nat} {e : Body.Effects σ Account}
    (hrun : order.foldlM (m.runTransactionTraced s) m.traceStart = .ok e) : e.calls.Consistent m := by
  have hsteps : Account.Steps m s m.traceStart.calls e.calls :=
    foldlM_induction (P := fun e => Account.Steps m s m.traceStart.calls e.calls)
      (fun t _ e e' he hstep => he.trans (steps_of_runTransactionTraced h hstep)) (.refl _) hrun
  exact (Account.Consistent.empty m).steps h hsteps

end Machine

end GuardedActions
