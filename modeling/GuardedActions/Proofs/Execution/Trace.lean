import GuardedActions.Execution
import GuardedActions.Proofs.Computation

/-!
# Execution with a trace

The execution of a schedule, with a record of what happens on the side: which bodies start with which
arguments, which call sites are performed, and what methods return and callers receive.  Without the
trace it is the execution itself.
-/

set_option autoImplicit false

namespace GuardedActions

/-- Something that happens while a schedule is executed. -/
inductive Event where
  /-- the body of a transaction starts -/
  | start (transaction : Nat)
  /-- a call site is performed, with or without arguments -/
  | perform (site : Nat) (given : Option Record)
  /-- the body of a method starts -/
  | enter (method : Nat) (args : Record)
  /-- the body of a method is done -/
  | leave (method : Nat) (result : Record)
  /-- the caller at a call site goes on with a result -/
  | answer (site : Nat) (result : Record)
  deriving DecidableEq, Repr

/-- A ledger with the events so far. -/
structure Account where
  /-- the calls made so far -/
  ledger : Ledger
  /-- what happened, in order -/
  events : List Event

namespace Account

/-- Nothing has happened. -/
def empty (actions sites : Nat) : Account := ⟨Ledger.start actions sites, []⟩

/-- The body of a transaction starts. -/
def start (a : Account) (transaction : Nat) : Account :=
  ⟨a.ledger, a.events ++ [.start transaction]⟩

/-- A call site is used. -/
def perform (a : Account) (site : Nat) (given : Option Record) : Account :=
  ⟨a.ledger.perform site, a.events ++ [.perform site given]⟩

/-- The body of a method starts. -/
def enter (a : Account) (method : Nat) (args : Record) : Account :=
  ⟨a.ledger, a.events ++ [.enter method args]⟩

/-- The body of a method is done. -/
def leave (a : Account) (method : Nat) (result : Record) : Account :=
  ⟨a.ledger.finish method result, a.events ++ [.leave method result]⟩

/-- A caller goes on. -/
def answer (a : Account) (site : Nat) (result : Record) : Account :=
  ⟨a.ledger, a.events ++ [.answer site result]⟩

end Account

namespace Body

variable {σ κ α ρ ρ' : Type}

/-- Change what the answering of calls keeps track of. -/
def Effects.mapCalls (f : ρ → ρ') (e : Effects σ ρ) : Effects σ ρ' :=
  ⟨e.state, e.journal, f e.calls⟩

/-- Change it next to a result. -/
def forgetCalls (f : ρ → ρ') (r : α × Effects σ ρ) : α × Effects σ ρ' := (r.1, r.2.mapCalls f)

/-- A run that keeps track of more is the run that keeps track of less, if that is so for every
call. -/
theorem run_forget (scene : Scene) {f : ρ → ρ'}
    {answer : κ → Effects σ ρ → Except Fault (Record × Effects σ ρ)}
    {answer' : κ → Effects σ ρ' → Except Fault (Record × Effects σ ρ')}
    (h : ∀ request e, (answer request e).map (forgetCalls f) = answer' request (e.mapCalls f))
    (body : Body σ κ α) (e : Effects σ ρ) :
    (body.run scene answer e).map (forgetCalls f) = body.run scene answer' (e.mapCalls f) := by
  induction body generalizing e with
  | done a => rfl
  | fail fault => rfl
  | look next ih => exact ih _ e
  | update state next ih => exact ih _
  | note text next ih => exact ih _
  | report entry next ih => exact ih _
  | call request next ih =>
    unfold run
    rw [← h]
    cases answer request e with
    | error fault => rfl
    | ok r => exact ih r.1 r.2

end Body

namespace Machine

variable {σ : Type}

/-- Make a call for the action `caller` and write down what happens. -/
def answerTraced (m : Machine σ) (s : Schedule) :
    (fuel : Nat) → (caller : Nat) → Call → Body.Effects σ Account →
      Except Fault (Record × Body.Effects σ Account)
  | 0, _, _, _ => .error .nestingLimit
  | fuel + 1, caller, .perform callee args, e => do
    let (id, site) ← m.claimSite s caller callee e.calls.ledger
    let e := { e with calls := e.calls.perform id args }
    let name := m.design.nameOf callee
    match m.design.method? callee with
    | none => .error (.unknownName name)
    | some target =>
      let passed ← m.passedArguments s caller callee target id site args
      match e.calls.ledger.resultOf callee.id with
      | some result =>
        if target.nonexclusive then .ok (result, { e with calls := e.calls.answer id result })
        else .error (.method name .executedTwice)
      | none =>
        let actual := drivingArguments s callee.id target id passed
        m.checkRun name target actual e.state
        match target.body with
        | none => .error (.unknownName name)
        | some body =>
          let (result, e) ← (body actual).run (m.bodyScene callee.id)
            (m.answerTraced s fuel callee.id) { e with calls := e.calls.enter callee.id actual }
          if result.shape = target.output then
            .ok (result, { e with calls := (e.calls.leave callee.id result).answer id result })
          else .error (.method name .resultShape)
  | fuel + 1, caller, .invoke target args, e =>
    match (m.design.action? target).map Action.role with
    | none => .error (.unknownName "")
    | some (.method x) =>
      match x.body with
      | none => .error (.unknownName (m.design.nameOf target))
      | some body => (body args).run (m.bodyScene caller) (m.answerTraced s fuel caller)
          { e with calls := e.calls.enter target.id args }
    | some (.transaction t) =>
      match t.body with
      | none => .error (.unknownName (m.design.nameOf target))
      | some body => do
        let (_, e) ← body.run (m.bodyScene caller) (m.answerTraced s fuel caller)
          { e with calls := e.calls.start target.id }
        .ok (Record.empty, e)

/-- Run the body of a transaction if the schedule grants it, and write down what happens. -/
def runTransactionTraced (m : Machine σ) (s : Schedule) (e : Body.Effects σ Account) (t : Nat) :
    Except Fault (Body.Effects σ Account) :=
  if s.granted.test t then
    match (m.design.main.transaction? t).bind Transaction.body with
    | none => .error (.unknownName (m.design.main.nameOf t))
    | some body => (body.run (m.bodyScene t) (m.answerTraced s m.bodyDepth t)
        { e with calls := e.calls.start t }).map Prod.snd
  else .ok e

/-- Execute a schedule whose cycle is the current one on an elaborated design, and return with the
machine what happened. -/
def executeTracedWith (m : Machine σ) (plan : Plan) (s : Schedule) :
    Except Fault (Machine σ × List Event) := do
  let m := { m with last := some s }
  m.checkExclusive s
  let start : Body.Effects σ Account :=
    ⟨m.state, m.journal, Account.empty m.design.main.actions.length m.design.main.sites.length⟩
  let e ← plan.order.foldlM (m.runTransactionTraced s) start
  m.checkPerformed s e.calls.ledger
  let e' ← m.parts.foldlM m.runHook (e.mapCalls Account.ledger)
  .ok ({ m with state := e'.state, journal := e'.journal }, e.calls.events)

/-- Execute a schedule and return with the machine what happened. -/
def executeTraced (m : Machine σ) (s : Schedule) : Except Fault (Machine σ × List Event) :=
  match m.design.main.plan with
  | none => .error .executeUnelaborated
  | some plan =>
    if s.cycle = m.cycle then m.executeTracedWith plan s
    else .error (.staleSchedule s.cycle m.cycle)

/-! ## The trace changes nothing -/

theorem answerTraced_forget (m : Machine σ) (s : Schedule) :
    ∀ (fuel caller : Nat) (call : Call) (e : Body.Effects σ Account),
      (m.answerTraced s fuel caller call e).map (Body.forgetCalls Account.ledger) =
        m.answer s fuel caller call (e.mapCalls Account.ledger) := by
  intro fuel
  induction fuel with
  | zero =>
    intro caller call e
    rfl
  | succ fuel ih =>
    intro caller call e
    cases call with
    | perform callee args =>
      unfold answerTraced answer
      refine map_bind_congr (map_id_eq _) fun found => ?_
      obtain ⟨id, site⟩ := found
      simp only [id_eq, Body.Effects.mapCalls]
      cases m.design.method? callee with
      | none => rfl
      | some target =>
        refine map_bind_congr (map_id_eq _) fun passed => ?_
        simp only [id_eq, Account.perform]
        cases (e.calls.ledger.perform id).resultOf callee.id with
        | some result =>
          simp only
          split
          · rfl
          · rfl
        | none =>
          refine map_bind_congr (map_id_eq _) fun _ => ?_
          cases target.body with
          | none => rfl
          | some body =>
            refine map_bind_congr (Body.run_forget _ (ih callee.id) _ _) fun r => ?_
            by_cases hshape : r.1.shape = target.output
            · rw [if_pos hshape]
              exact (if_pos hshape).symm
            · rw [if_neg hshape]
              exact (if_neg hshape).symm
    | invoke target args =>
      unfold answerTraced answer
      cases (m.design.action? target).map Action.role with
      | none => rfl
      | some role =>
        cases role with
        | method x =>
          simp only
          cases x.body with
          | none => rfl
          | some body => exact Body.run_forget _ (ih caller) _ _
        | transaction t =>
          simp only
          cases t.body with
          | none => rfl
          | some body => exact map_bind_congr (Body.run_forget _ (ih caller) _ _) fun r => rfl

theorem runTransactionTraced_forget (m : Machine σ) (s : Schedule) (e : Body.Effects σ Account)
    (t : Nat) : (m.runTransactionTraced s e t).map (Body.Effects.mapCalls Account.ledger) =
      m.runTransaction s (e.mapCalls Account.ledger) t := by
  unfold runTransactionTraced runTransaction
  split
  · cases (m.design.main.transaction? t).bind Transaction.body with
    | none => rfl
    | some body =>
      simp only
      have hrun := Body.run_forget (m.bodyScene t) (m.answerTraced_forget s m.bodyDepth t)
        body { e with calls := e.calls.start t }
      rw [show e.mapCalls Account.ledger = Body.Effects.mapCalls Account.ledger
        { e with calls := e.calls.start t } from rfl, ← hrun]
      cases body.run (m.bodyScene t) (m.answerTraced s m.bodyDepth t)
        { e with calls := e.calls.start t } with
      | error fault => rfl
      | ok r => rfl
  · rfl

theorem foldlM_forget (m : Machine σ) (s : Schedule) (order : List Nat)
    (e : Body.Effects σ Account) :
    (order.foldlM (m.runTransactionTraced s) e).map (Body.Effects.mapCalls Account.ledger) =
      order.foldlM (m.runTransaction s) (e.mapCalls Account.ledger) := by
  induction order generalizing e with
  | nil => rfl
  | cons t rest ih =>
    rw [List.foldlM_cons, List.foldlM_cons, ← runTransactionTraced_forget]
    cases m.runTransactionTraced s e t with
    | error fault => rfl
    | ok e' => exact ih e'

/-- An execution with a trace, without the trace, is the execution. -/
theorem executeTraced_fst (m : Machine σ) (s : Schedule) :
    (m.executeTraced s).map Prod.fst = m.execute s := by
  unfold executeTraced execute
  cases m.design.main.plan with
  | none => rfl
  | some plan =>
    simp only
    split
    · unfold executeTracedWith executeWith
      refine map_bind_congr (map_id_eq _) fun _ => ?_
      refine map_bind_congr (foldlM_forget _ s plan.order _) fun e => ?_
      refine map_bind_congr (map_id_eq _) fun _ => ?_
      exact map_bind_congr (map_id_eq _) fun e' => rfl
    · rfl

end Machine

end GuardedActions
