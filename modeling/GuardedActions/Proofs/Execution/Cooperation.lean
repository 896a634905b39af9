import GuardedActions.Execution
import GuardedActions.Proofs.Elaborated

/-!
# Cooperating bodies

What the bodies of a design owe to the scheduler.  The obligations speak of the points that an
execution really comes to, not of all that a body could do in another one.
-/

set_option autoImplicit false

namespace GuardedActions

variable {σ : Type}

/-- What a call may give at a call site: nothing where arguments were supplied before arbitration or
the callee takes none, and otherwise a record of the callee's input shape. -/
def Site.Takes (u : Site σ) (target : Method σ) : Option Record → Prop
  | none => u.arguments.isSome = true ∨ target.input.isEmpty = true
  | some record => u.arguments = none ∧ record.shape = target.input

namespace Machine

/-- The machine while it executes a schedule. -/
def executing (m : Machine σ) (s : Schedule) : Machine σ := { m with last := some s }

/-- The start of an execution. -/
def beforeBodies (m : Machine σ) : Body.Effects σ Ledger :=
  ⟨m.state, m.journal, Ledger.start m.design.main.actions.length m.design.main.sites.length⟩

/-- The execution of a schedule comes to a point at which the body of an action still has to run.  The
call sites listed were performed by this run of the body; its result has to fit. -/
inductive ComesTo (m : Machine σ) (plan : Plan) (s : Schedule) :
    {α : Type} → (fits : α → Prop) → (action : Nat) → (done : List Nat) → ActionBody σ α →
      Body.Effects σ Ledger → Prop where
  /-- the turn of a granted transaction -/
  | transaction {before after : List Nat} {t : Nat} {e : Body.Effects σ Ledger}
      {txn : Transaction σ} {body : ActionBody σ Unit} (turn : plan.order = before ++ t :: after)
      (ran : before.foldlM (m.runTransaction s) m.beforeBodies = .ok e)
      (granted : s.granted.test t = true) (known : m.design.main.transaction? t = some txn)
      (defined : txn.body = some body) : ComesTo m plan s (fun _ => True) t [] body e
  /-- the first call of a method -/
  | method {α : Type} {fits : α → Prop} {caller : Nat} {done : List Nat} {callee : ActionRef}
      {given : Option Record} {next : Record → ActionBody σ α} {e : Body.Effects σ Ledger} {i : Nat}
      {u : Site σ} {target : Method σ} {passed : Record} {body : Record → ActionBody σ Record}
      (before : ComesTo m plan s fits caller done (.call (.perform callee given) next) e)
      (claimed : m.claimSite s caller callee e.calls = .ok (i, u))
      (known : m.design.method? callee = some target)
      (passes : m.passedArguments s caller callee target i u given = .ok passed)
      (first : e.calls.resultOf callee.id = none)
      (checked : m.checkRun (m.design.nameOf callee) target
        (drivingArguments s callee.id target i passed) e.state = .ok ())
      (defined : target.body = some body) :
      ComesTo m plan s (fun result => result.shape = target.output) callee.id []
        (body (drivingArguments s callee.id target i passed))
        { e with calls := e.calls.perform i }
  /-- the body has looked around -/
  | look {α : Type} {fits : α → Prop} {action : Nat} {done : List Nat}
      {next : View σ → ActionBody σ α} {e : Body.Effects σ Ledger}
      (before : ComesTo m plan s fits action done (.look next) e) :
      ComesTo m plan s fits action done (next ⟨e.state, m.bodyScene action⟩) e
  /-- the body has replaced the state -/
  | update {α : Type} {fits : α → Prop} {action : Nat} {done : List Nat} {state : σ}
      {next : ActionBody σ α} {e : Body.Effects σ Ledger}
      (before : ComesTo m plan s fits action done (.update state next) e) :
      ComesTo m plan s fits action done next { e with state := state }
  /-- the body has left a note -/
  | note {α : Type} {fits : α → Prop} {action : Nat} {done : List Nat} {text : String}
      {next : ActionBody σ α} {e : Body.Effects σ Ledger}
      (before : ComesTo m plan s fits action done (.note text next) e) :
      ComesTo m plan s fits action done next { e with journal := e.journal.note text }
  /-- the body has logged an entry -/
  | report {α : Type} {fits : α → Prop} {action : Nat} {done : List Nat} {entry : Log.Entry}
      {next : ActionBody σ α} {e : Body.Effects σ Ledger}
      (before : ComesTo m plan s fits action done (.report entry next) e) :
      ComesTo m plan s fits action done next { e with journal := e.journal.report entry }
  /-- a call was answered -/
  | answered {α : Type} {fits : α → Prop} {caller : Nat} {done : List Nat} {callee : ActionRef}
      {given : Option Record} {next : Record → ActionBody σ α} {e e' : Body.Effects σ Ledger}
      {i : Nat} {u : Site σ} {fuel : Nat} {result : Record}
      (before : ComesTo m plan s fits caller done (.call (.perform callee given) next) e)
      (declared : m.design.main.findSite? caller callee = some (i, u))
      (answer : m.answer s fuel caller (.perform callee given) e = .ok (result, e')) :
      ComesTo m plan s fits caller (i :: done) (next result) e'

/-- Two views that a guard may not tell apart: they agree on the part of the state that no body
changes and on everything around it but the grants. -/
structure Agree {κ : Type} (kept : σ → κ) (v v' : View σ) : Prop where
  /-- the kept part of the state -/
  state : kept v.state = kept v'.state
  /-- the cycle -/
  cycle : v.scene.cycle = v'.scene.cycle
  /-- on whose behalf -/
  actor : v.scene.actor = v'.scene.actor
  /-- the directory -/
  lookup : v.scene.lookup = v'.scene.lookup
  /-- the early arguments that wait for methods -/
  pending : v.scene.pending = v'.scene.pending

/-- The guards of methods depend on nothing that bodies change. -/
structure GuardsSteady {κ : Type} (d : Design σ) (kept : σ → κ) : Prop where
  /-- readiness predicates -/
  ready : ∀ {id : Nat} {x : Method σ}, d.main.method? id = some x → ∀ {v v' : View σ},
    Agree kept v v' → Guard.holds x.ready v = Guard.holds x.ready v'
  /-- validators -/
  validator : ∀ {id : Nat} {x : Method σ}, d.main.method? id = some x → ∀ {v v' : View σ},
    Agree kept v v' → ∀ args,
      Validator.accepts x.validator v args = Validator.accepts x.validator v' args

/-- The bodies and hooks that run in the execution of a schedule do what they have to. -/
structure Cooperates {κ : Type} (m : Machine σ) (plan : Plan) (s : Schedule) (kept : σ → κ) :
    Prop where
  /-- bodies do not change the kept part of the state -/
  update : ∀ {α : Type} {fits : α → Prop} {action : Nat} {done : List Nat} {state : σ}
    {next : ActionBody σ α} {e : Body.Effects σ Ledger},
    m.ComesTo plan s fits action done (.update state next) e → kept state = kept e.state
  /-- bodies make no calls but through active call sites, each for the first time -/
  call : ∀ {α : Type} {fits : α → Prop} {action : Nat} {done : List Nat} {call : Call}
    {next : Record → ActionBody σ α} {e : Body.Effects σ Ledger},
    m.ComesTo plan s fits action done (.call call next) e →
    ∃ (callee : ActionRef) (given : Option Record) (i : Nat) (u : Site σ) (target : Method σ),
      call = .perform callee given ∧ m.design.main.findSite? action callee = some (i, u) ∧
        s.activeSites.test i = true ∧ i ∉ done ∧ m.design.method? callee = some target ∧
        u.Takes target given
  /-- bodies do not end before all their active call sites are performed -/
  complete : ∀ {α : Type} {fits : α → Prop} {action : Nat} {done : List Nat} {result : α}
    {e : Body.Effects σ Ledger}, m.ComesTo plan s fits action done (.done result) e →
    ∀ {i : Nat} {u : Site σ}, m.design.main.sites[i]? = some u → u.caller = action →
      s.activeSites.test i = true → i ∈ done
  /-- bodies of methods return records of the output shape -/
  fits : ∀ {α : Type} {fits : α → Prop} {action : Nat} {done : List Nat} {result : α}
    {e : Body.Effects σ Ledger}, m.ComesTo plan s fits action done (.done result) e → fits result
  /-- bodies do not fail on their own -/
  fail : ∀ {α : Type} {fits : α → Prop} {action : Nat} {done : List Nat} {fault : Fault}
    {e : Body.Effects σ Ledger}, ¬ m.ComesTo plan s fits action done (.fail fault : ActionBody σ α) e
  /-- hooks do not fail on their own -/
  hook : ∀ {e e' : Body.Effects σ Ledger} {before after : List (Part σ)} {part : Part σ},
    plan.order.foldlM (m.runTransaction s) m.beforeBodies = .ok e →
    m.parts = before ++ part :: after → before.foldlM m.runHook e = .ok e' →
    ∃ e'', m.runHook e' part = .ok e''

end Machine

end GuardedActions
