import GuardedActions.Proofs.Execution.Driving
import GuardedActions.Proofs.Execution.Trace

/-!
# What every call keeps

While bodies run, a stack of call sites is open: each of them runs the body of its callee.  The ledger
and the events agree, no call site and no body is used twice, and every body got arguments that one of
its granted call sites passed.  A single call keeps all this, by induction on the nesting of bodies.
-/

set_option autoImplicit false

namespace GuardedActions

variable {σ : Type}

namespace Event

/-- The transaction whose body starts. -/
def started? : Event → Option Nat
  | .start t => some t
  | _ => none

/-- The call site that is performed. -/
def performed? : Event → Option Nat
  | .perform i _ => some i
  | _ => none

/-- The method whose body starts. -/
def entered? : Event → Option Nat
  | .enter x _ => some x
  | _ => none

end Event

namespace Account

/-! ## Reading an account -/

/-- The transactions whose bodies started, in order. -/
def started (a : Account) : List Nat := a.events.filterMap Event.started?

/-- The call sites that were performed, in order. -/
def performed (a : Account) : List Nat := a.events.filterMap Event.performed?

/-- The methods whose bodies started, in order. -/
def entered (a : Account) : List Nat := a.events.filterMap Event.entered?

theorem mem_performed {a : Account} {i : Nat} :
    i ∈ a.performed ↔ ∃ given, .perform i given ∈ a.events := by
  unfold performed
  rw [List.mem_filterMap]
  constructor
  · rintro ⟨ev, hev, hi⟩
    cases ev with
    | perform j given =>
      obtain rfl : j = i := Option.some.inj hi
      exact ⟨given, hev⟩
    | _ => cases hi
  · rintro ⟨given, hev⟩
    exact ⟨_, hev, rfl⟩

theorem mem_entered {a : Account} {x : Nat} :
    x ∈ a.entered ↔ ∃ args, .enter x args ∈ a.events := by
  unfold entered
  rw [List.mem_filterMap]
  constructor
  · rintro ⟨ev, hev, hx⟩
    cases ev with
    | enter y args =>
      obtain rfl : y = x := Option.some.inj hx
      exact ⟨args, hev⟩
    | _ => cases hx
  · rintro ⟨args, hev⟩
    exact ⟨_, hev, rfl⟩

section

variable (a : Account) (t i x : Nat) (given : Option Record) (args result : Record)

@[simp] theorem ledger_start : (a.start t).ledger = a.ledger := rfl

@[simp] theorem ledger_perform : (a.perform i given).ledger = a.ledger.perform i := rfl

@[simp] theorem ledger_enter : (a.enter x args).ledger = a.ledger := rfl

@[simp] theorem ledger_leave : (a.leave x result).ledger = a.ledger.finish x result := rfl

@[simp] theorem ledger_answer : (a.answer i result).ledger = a.ledger := rfl

@[simp] theorem events_start : (a.start t).events = a.events ++ [.start t] := rfl

@[simp] theorem events_perform : (a.perform i given).events = a.events ++ [.perform i given] := rfl

@[simp] theorem events_enter : (a.enter x args).events = a.events ++ [.enter x args] := rfl

@[simp] theorem events_leave : (a.leave x result).events = a.events ++ [.leave x result] := rfl

@[simp] theorem events_answer : (a.answer i result).events = a.events ++ [.answer i result] := rfl

@[simp] theorem started_start : (a.start t).started = a.started ++ [t] := by
  simp [started, start, Event.started?]

@[simp] theorem started_perform : (a.perform i given).started = a.started := by
  simp [started, perform, Event.started?]

@[simp] theorem started_enter : (a.enter x args).started = a.started := by
  simp [started, enter, Event.started?]

@[simp] theorem started_leave : (a.leave x result).started = a.started := by
  simp [started, leave, Event.started?]

@[simp] theorem started_answer : (a.answer i result).started = a.started := by
  simp [started, answer, Event.started?]

@[simp] theorem performed_start : (a.start t).performed = a.performed := by
  simp [performed, start, Event.performed?]

@[simp] theorem performed_perform : (a.perform i given).performed = a.performed ++ [i] := by
  simp [performed, perform, Event.performed?]

@[simp] theorem performed_enter : (a.enter x args).performed = a.performed := by
  simp [performed, enter, Event.performed?]

@[simp] theorem performed_leave : (a.leave x result).performed = a.performed := by
  simp [performed, leave, Event.performed?]

@[simp] theorem performed_answer : (a.answer i result).performed = a.performed := by
  simp [performed, answer, Event.performed?]

@[simp] theorem entered_start : (a.start t).entered = a.entered := by
  simp [entered, start, Event.entered?]

@[simp] theorem entered_perform : (a.perform i given).entered = a.entered := by
  simp [entered, perform, Event.entered?]

@[simp] theorem entered_enter : (a.enter x args).entered = a.entered ++ [x] := by
  simp [entered, enter, Event.entered?]

@[simp] theorem entered_leave : (a.leave x result).entered = a.entered := by
  simp [entered, leave, Event.entered?]

@[simp] theorem entered_answer : (a.answer i result).entered = a.entered := by
  simp [entered, answer, Event.entered?]

end

end Account

/-! ## Bodies that reach the scheduler by their own calls only -/

namespace Body

variable {α : Type}

/-- No run of the body invokes an action directly. -/
def OnlyPerforms : ActionBody σ α → Prop
  | .done _ => True
  | .fail _ => True
  | .look next => ∀ view, (next view).OnlyPerforms
  | .update _ next => next.OnlyPerforms
  | .note _ next => next.OnlyPerforms
  | .report _ next => next.OnlyPerforms
  | .call (.perform _ _) next => ∀ result, (next result).OnlyPerforms
  | .call (.invoke _ _) _ => False

theorem onlyPerforms_step (change : View σ → Except Fault (α × σ)) :
    (Body.step change : ActionBody σ α).OnlyPerforms := by
  intro view
  dsimp only
  split
  · trivial
  · trivial

/-- What every performed call keeps, a whole run keeps. -/
theorem run_keeps {ρ : Type} {P : ρ → Prop} {scene : Scene}
    {answer : Call → Effects σ ρ → Except Fault (Record × Effects σ ρ)}
    (h : ∀ callee args e result e', P e.calls →
      answer (.perform callee args) e = .ok (result, e') → P e'.calls)
    {body : ActionBody σ α} (hbody : body.OnlyPerforms) {e : Effects σ ρ} {r : α × Effects σ ρ}
    (he : P e.calls) (hrun : body.run scene answer e = .ok r) : P r.2.calls := by
  induction body generalizing e with
  | done a =>
    obtain rfl := Except.ok.inj hrun
    exact he
  | fail fault => cases hrun
  | look next ih => exact ih _ (hbody _) he hrun
  | update state next ih => exact ih (e := { e with state := state }) hbody he hrun
  | note text next ih => exact ih (e := { e with journal := e.journal.note text }) hbody he hrun
  | report entry next ih =>
    exact ih (e := { e with journal := e.journal.report entry }) hbody he hrun
  | call request next ih =>
    cases request with
    | invoke target args => exact hbody.elim
    | perform callee args =>
      unfold run at hrun
      split at hrun
      · cases hrun
      · rename_i result e' hanswer
        exact ih result (hbody result) (h callee args e result e' he hanswer) hrun

end Body

/-- All bodies of a registry reach the scheduler by their own calls only. -/
structure Registry.OnlyPerforms (r : Registry σ) : Prop where
  /-- bodies of methods, for all arguments -/
  method : ∀ {id : Nat} {x : Method σ} {body : Record → ActionBody σ Record},
    r.method? id = some x → x.body = some body → ∀ args, (body args).OnlyPerforms
  /-- bodies of transactions -/
  transaction : ∀ {id : Nat} {t : Transaction σ} {body : ActionBody σ Unit},
    r.transaction? id = some t → t.body = some body → body.OnlyPerforms

/-! ## The invariant -/

theorem Ledger.resultOf_start (actions sites x : Nat) : (Ledger.start actions sites).resultOf x = none := by
  unfold Ledger.start Ledger.resultOf
  rw [List.getElem?_replicate]
  split
  · rfl
  · rfl

@[simp] theorem Ledger.resultOf_perform (l : Ledger) (i x : Nat) :
    (l.perform i).resultOf x = l.resultOf x := rfl

theorem Ledger.resultOf_finish {l : Ledger} {x : Nat} {result : Record} (hx : x < l.results.length)
    (y : Nat) : (l.finish x result).resultOf y = if x = y then some result else l.resultOf y := by
  unfold Ledger.resultOf Ledger.finish
  simp only [List.getElem?_set]
  by_cases heq : x = y
  · rw [if_pos heq, if_pos heq, if_pos hx]
    rfl
  · rw [if_neg heq, if_neg heq]

/-- A method runs for one of the open call sites. -/
def Registry.Busy (r : Registry σ) (stack : List Nat) (x : Nat) : Prop :=
  ∃ i ∈ stack, ∃ u : Site σ, r.sites[i]? = some u ∧ u.callee.id = x

theorem Registry.busy_cons {r : Registry σ} {stack : List Nat} {i : Nat} {u : Site σ}
    (hu : r.sites[i]? = some u) {x : Nat} :
    r.Busy (i :: stack) x ↔ u.callee.id = x ∨ r.Busy stack x := by
  constructor
  · rintro ⟨j, hj, v, hv, hx⟩
    rcases List.mem_cons.mp hj with rfl | hj
    · obtain rfl : u = v := Option.some.inj (hu.symm.trans hv)
      exact Or.inl hx
    · exact Or.inr ⟨j, hj, v, hv, hx⟩
  · rintro (hx | ⟨j, hj, v, hv, hx⟩)
    · exact ⟨i, List.mem_cons_self, u, hu, hx⟩
    · exact ⟨j, List.mem_cons_of_mem _ hj, v, hv, hx⟩

/-- What drives the body of a method: a granted call site to it was performed, and what it passed, or
what the driving call site supplied, are the arguments. -/
def Account.Drives (r : Registry σ) (s : Schedule) (events : List Event) (x : Nat) (args : Record) :
    Prop :=
  ∃ (i : Nat) (u : Site σ) (given : Option Record) (target : Method σ) (passed : Record),
    .perform i given ∈ events ∧ r.sites[i]? = some u ∧ u.callee.id = x ∧
      r.method? x = some target ∧ u.Passes s i target given passed ∧
      args = Machine.drivingArguments s x target i passed

theorem Account.Drives.mono {r : Registry σ} {s : Schedule} {events events' : List Event} {x : Nat}
    {args : Record} (h : Account.Drives r s events x args) (hsub : ∀ ev ∈ events, ev ∈ events') :
    Account.Drives r s events' x args := by
  obtain ⟨i, u, given, target, passed, hperform, hrest⟩ := h
  exact ⟨i, u, given, target, passed, hsub _ hperform, hrest⟩

/-- The ledger and the events agree while the call sites of a stack are open. -/
structure Account.Sound (r : Registry σ) (s : Schedule) (stack started : List Nat) (a : Account) :
    Prop where
  /-- there is a place for every call site -/
  performed_size : a.ledger.performed.size = r.sites.length
  /-- there is a place for the result of every action -/
  results_length : a.ledger.results.length = r.actions.length
  /-- the transactions whose bodies started, in order -/
  started : a.started = started
  /-- no call site is performed twice -/
  performed_nodup : a.performed.Nodup
  /-- the ledger knows the performed call sites -/
  performed : ∀ i, a.ledger.performed.test i = true ↔ i ∈ a.performed
  /-- performed call sites are granted -/
  granted : ∀ i ∈ a.performed, s.grantedSites.test i = true
  /-- no body of a method starts twice -/
  entered_nodup : a.entered.Nodup
  /-- the methods whose bodies started are done or still running -/
  entered : ∀ x, x ∈ a.entered ↔ (a.ledger.resultOf x).isSome = true ∨ r.Busy stack x
  /-- a method that still runs has no result yet -/
  busy : ∀ x, r.Busy stack x → a.ledger.resultOf x = none
  /-- results are what bodies returned -/
  left : ∀ x result, .leave x result ∈ a.events ↔ a.ledger.resultOf x = some result
  /-- callers received the results of their callees -/
  answered : ∀ i result, .answer i result ∈ a.events →
    ∃ u : Site σ, r.sites[i]? = some u ∧ a.ledger.resultOf u.callee.id = some result
  /-- every performed call site is answered or open -/
  waiting : ∀ i ∈ a.performed, (∃ result, .answer i result ∈ a.events) ∨ i ∈ stack
  /-- bodies run with the arguments that drive them -/
  driven : ∀ x args, .enter x args ∈ a.events → Account.Drives r s a.events x args

namespace Account.Sound

variable {r : Registry σ} {s : Schedule} {stack started : List Nat} {a : Account}

theorem empty (r : Registry σ) (s : Schedule) :
    (Account.empty r.actions.length r.sites.length).Sound r s [] [] where
  performed_size := Mask.size_none _
  results_length := List.length_replicate
  started := rfl
  performed_nodup := List.nodup_nil
  performed := by
    intro i
    unfold Account.empty Ledger.start
    rw [Mask.test_none]
    simp [Account.performed]
  granted := by
    intro i hi
    cases hi
  entered_nodup := List.nodup_nil
  entered := by
    intro x
    unfold Account.empty Registry.Busy
    rw [Ledger.resultOf_start]
    simp [Account.entered]
  busy := by
    rintro x ⟨i, hi, -⟩
    cases hi
  left := by
    intro x result
    unfold Account.empty
    rw [Ledger.resultOf_start]
    simp
  answered := by
    intro i result hmem
    cases hmem
  waiting := by
    intro i hi
    cases hi
  driven := by
    intro x args hmem
    cases hmem

/-- The body of a transaction starts. -/
theorem start (h : a.Sound r s stack started) (t : Nat) :
    (a.start t).Sound r s stack (started ++ [t]) where
  performed_size := h.performed_size
  results_length := h.results_length
  started := by rw [Account.started_start, h.started]
  performed_nodup := by simpa using h.performed_nodup
  performed := by simpa using h.performed
  granted := by simpa using h.granted
  entered_nodup := by simpa using h.entered_nodup
  entered := by simpa using h.entered
  busy := h.busy
  left := by simpa using h.left
  answered := by simpa using h.answered
  waiting := by simpa using h.waiting
  driven := by
    intro x args hmem
    have hmem : .enter x args ∈ a.events := by simpa using hmem
    exact (h.driven x args hmem).mono fun ev hev => List.mem_append_left _ hev

/-- A granted call site is used for the first time.  What changes with it are the performed call
sites only. -/
theorem performed_append (h : a.Sound r s stack started) {i : Nat}
    (hi : i < r.sites.length) (hfresh : a.ledger.performed.test i = false) :
    (a.performed ++ [i]).Nodup ∧
      ∀ j, (a.ledger.perform i).performed.test j = true ↔ j ∈ a.performed ++ [i] := by
  constructor
  · refine List.Nodup.append h.performed_nodup (List.nodup_singleton i) ?_
    intro j hj hji
    rw [List.mem_singleton.mp hji] at hj
    rw [(h.performed i).mpr hj] at hfresh
    cases hfresh
  · intro j
    have hsize : i < a.ledger.performed.size := by
      rw [h.performed_size]
      exact hi
    unfold Ledger.perform
    rw [Mask.test_insert_iff hsize, h.performed, List.mem_append, List.mem_singleton]

/-- A call site is performed whose callee has returned already. -/
theorem reuse (h : a.Sound r s stack started) {i : Nat} {u : Site σ} {given : Option Record}
    {result : Record} (hu : r.sites[i]? = some u) (hgranted : s.grantedSites.test i = true)
    (hfresh : a.ledger.performed.test i = false)
    (hresult : a.ledger.resultOf u.callee.id = some result) :
    ((a.perform i given).answer i result).Sound r s stack started := by
  obtain ⟨hnodup, hperformed⟩ :=
    h.performed_append (List.getElem?_eq_some_iff.mp hu).1 hfresh
  exact
    { performed_size := (Mask.size_insert _ _).trans h.performed_size
      results_length := h.results_length
      started := by simpa using h.started
      performed_nodup := by simpa using hnodup
      performed := by simpa using hperformed
      granted := by
        intro j hj
        have hj : j ∈ a.performed ++ [i] := by simpa using hj
        rcases List.mem_append.mp hj with hj | hj
        · exact h.granted j hj
        · rw [List.mem_singleton.mp hj]
          exact hgranted
      entered_nodup := by simpa using h.entered_nodup
      entered := by
        intro x
        rw [Account.entered_answer, Account.entered_perform]
        exact h.entered x
      busy := h.busy
      left := by
        intro x result'
        simpa using h.left x result'
      answered := by
        intro j result' hj
        have hj : .answer j result' ∈ a.events ∨ (j = i ∧ result' = result) := by simpa using hj
        rcases hj with hj | ⟨rfl, rfl⟩
        · exact h.answered j result' hj
        · exact ⟨u, hu, hresult⟩
      waiting := by
        intro j hj
        have hj : j ∈ a.performed ++ [i] := by simpa using hj
        rcases List.mem_append.mp hj with hj | hj
        · rcases h.waiting j hj with ⟨result', hanswer⟩ | hopen
          · exact Or.inl ⟨result', by simp [hanswer]⟩
          · exact Or.inr hopen
        · rw [List.mem_singleton.mp hj]
          exact Or.inl ⟨result, by simp⟩
      driven := by
        intro x args hx
        have hx : .enter x args ∈ a.events := by simpa using hx
        refine (h.driven x args hx).mono fun ev hev => ?_
        simp [hev] }

/-- A call site is performed and the body of its callee starts. -/
theorem enter (h : a.Sound r s stack started) {i : Nat} {u : Site σ} {given : Option Record}
    {target : Method σ} {passed : Record} (hu : r.sites[i]? = some u)
    (hgranted : s.grantedSites.test i = true) (hfresh : a.ledger.performed.test i = false)
    (htarget : r.method? u.callee.id = some target) (hpasses : u.Passes s i target given passed)
    (hresult : a.ledger.resultOf u.callee.id = none) (hidle : ¬ r.Busy stack u.callee.id) :
    ((a.perform i given).enter u.callee.id
      (Machine.drivingArguments s u.callee.id target i passed)).Sound r s (i :: stack) started := by
  obtain ⟨hnodup, hperformed⟩ :=
    h.performed_append (List.getElem?_eq_some_iff.mp hu).1 hfresh
  have hnew : u.callee.id ∉ a.entered := by
    intro hmem
    rcases (h.entered _).mp hmem with hsome | hbusy
    · rw [hresult] at hsome
      cases hsome
    · exact hidle hbusy
  exact
    { performed_size := (Mask.size_insert _ _).trans h.performed_size
      results_length := h.results_length
      started := by simpa using h.started
      performed_nodup := by simpa using hnodup
      performed := by simpa using hperformed
      granted := by
        intro j hj
        have hj : j ∈ a.performed ++ [i] := by simpa using hj
        rcases List.mem_append.mp hj with hj | hj
        · exact h.granted j hj
        · rw [List.mem_singleton.mp hj]
          exact hgranted
      entered_nodup := by
        rw [Account.entered_enter, Account.entered_perform]
        refine List.Nodup.append h.entered_nodup (List.nodup_singleton _) ?_
        intro x hx hxi
        rw [List.mem_singleton.mp hxi] at hx
        exact hnew hx
      entered := by
        intro x
        rw [Account.entered_enter, Account.entered_perform, List.mem_append, List.mem_singleton,
          h.entered, Registry.busy_cons hu]
        rw [Account.ledger_enter, Account.ledger_perform, Ledger.resultOf_perform]
        constructor
        · rintro ((hdone | hbusy) | rfl)
          · exact Or.inl hdone
          · exact Or.inr (Or.inr hbusy)
          · exact Or.inr (Or.inl rfl)
        · rintro (hdone | rfl | hbusy)
          · exact Or.inl (Or.inl hdone)
          · exact Or.inr rfl
          · exact Or.inl (Or.inr hbusy)
      busy := by
        intro x hx
        rcases (Registry.busy_cons hu).mp hx with rfl | hx
        · exact hresult
        · exact h.busy x hx
      left := by
        intro x result
        simpa using h.left x result
      answered := by
        intro j result hj
        have hj : .answer j result ∈ a.events := by simpa using hj
        exact h.answered j result hj
      waiting := by
        intro j hj
        have hj : j ∈ a.performed ++ [i] := by simpa using hj
        rcases List.mem_append.mp hj with hj | hj
        · rcases h.waiting j hj with ⟨result', hanswer⟩ | hopen
          · exact Or.inl ⟨result', by simp [hanswer]⟩
          · exact Or.inr (List.mem_cons_of_mem _ hopen)
        · rw [List.mem_singleton.mp hj]
          exact Or.inr List.mem_cons_self
      driven := by
        intro x args hx
        have hx : .enter x args ∈ a.events ∨ (x = u.callee.id ∧
            args = Machine.drivingArguments s u.callee.id target i passed) := by simpa using hx
        rcases hx with hx | ⟨rfl, rfl⟩
        · refine (h.driven x args hx).mono fun ev hev => ?_
          simp [hev]
        · exact ⟨i, u, given, target, passed, by simp, hu, rfl, htarget, hpasses, rfl⟩ }

/-- The body of a method is done, and the caller that started it goes on. -/
theorem leave {i : Nat} {u : Site σ} {result : Record} (h : a.Sound r s (i :: stack) started)
    (hu : r.sites[i]? = some u) (hidle : ¬ r.Busy stack u.callee.id)
    (hlt : u.callee.id < r.actions.length) :
    ((a.leave u.callee.id result).answer i result).Sound r s stack started := by
  have hnone : a.ledger.resultOf u.callee.id = none :=
    h.busy _ ((Registry.busy_cons hu).mpr (Or.inl rfl))
  have hresult : ∀ y, (a.ledger.finish u.callee.id result).resultOf y =
      if u.callee.id = y then some result else a.ledger.resultOf y := by
    refine Ledger.resultOf_finish ?_
    rw [h.results_length]
    exact hlt
  have hkept : ∀ {y : Nat} {result' : Record}, a.ledger.resultOf y = some result' →
      (a.ledger.finish u.callee.id result).resultOf y = some result' := by
    intro y result' hy
    have hne : u.callee.id ≠ y := by
      intro heq
      rw [← heq, hnone] at hy
      cases hy
    rw [hresult, if_neg hne]
    exact hy
  exact
    { performed_size := h.performed_size
      results_length := (List.length_set ..).trans h.results_length
      started := by simpa using h.started
      performed_nodup := by simpa using h.performed_nodup
      performed := by
        intro j
        rw [Account.performed_answer, Account.performed_leave]
        exact h.performed j
      granted := by simpa using h.granted
      entered_nodup := by simpa using h.entered_nodup
      entered := by
        intro x
        rw [Account.entered_answer, Account.entered_leave, h.entered, Registry.busy_cons hu]
        simp only [Account.ledger_answer, Account.ledger_leave]
        rw [hresult]
        by_cases heq : u.callee.id = x
        · rw [if_pos heq]
          simp [heq]
        · rw [if_neg heq]
          simp [heq]
      busy := by
        intro x hx
        simp only [Account.ledger_answer, Account.ledger_leave]
        have hne : u.callee.id ≠ x := fun heq => hidle (heq ▸ hx)
        rw [hresult, if_neg hne]
        exact h.busy x ((Registry.busy_cons hu).mpr (Or.inr hx))
      left := by
        intro x result'
        simp only [Account.ledger_answer, Account.ledger_leave, Account.events_answer,
          Account.events_leave]
        rw [hresult]
        by_cases heq : u.callee.id = x
        · have hleft := h.left x result'
          rw [← heq, hnone] at hleft
          rw [if_pos heq]
          simp [← heq, hleft, eq_comm]
        · rw [if_neg heq, ← h.left]
          simp [Ne.symm heq]
      answered := by
        intro j result' hj
        have hj : .answer j result' ∈ a.events ∨ (j = i ∧ result' = result) := by simpa using hj
        rcases hj with hj | ⟨rfl, rfl⟩
        · obtain ⟨v, hv, hdone⟩ := h.answered j result' hj
          exact ⟨v, hv, hkept hdone⟩
        · refine ⟨u, hu, ?_⟩
          simp only [Account.ledger_answer, Account.ledger_leave]
          rw [hresult, if_pos rfl]
      waiting := by
        intro j hj
        have hj : j ∈ a.performed := by simpa using hj
        rcases h.waiting j hj with ⟨result', hanswer⟩ | hopen
        · exact Or.inl ⟨result', by simp [hanswer]⟩
        · rcases List.mem_cons.mp hopen with rfl | hopen
          · exact Or.inl ⟨result, by simp⟩
          · exact Or.inr hopen
      driven := by
        intro x args hx
        have hx : .enter x args ∈ a.events := by simpa using hx
        refine (h.driven x args hx).mono fun ev hev => ?_
        simp [hev] }

end Account.Sound

end GuardedActions
