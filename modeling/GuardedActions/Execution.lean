import GuardedActions.Scheduling

/-!
# Execution

Executing a schedule runs the bodies of the granted transactions in priority order.  Bodies call
methods through their call sites; each granted call site is used exactly once, and the body of a
method runs once, with the arguments of the call site that drives it, whichever caller comes first.
After the bodies the combinational logic of the components runs.
-/

set_option autoImplicit false

namespace GuardedActions

/-- The calls made so far in a cycle. -/
structure Ledger where
  /-- call sites that were used -/
  performed : Mask
  /-- for every method that ran, what it returned -/
  results : List (Option Record)
  deriving DecidableEq, Repr, Inhabited

namespace Ledger

/-- No calls. -/
def start (actions sites : Nat) : Ledger := ⟨Mask.none sites, List.replicate actions none⟩

/-- A call site is used. -/
def perform (l : Ledger) (site : Nat) : Ledger := { l with performed := l.performed.insert site }

/-- What a method returned, if it ran. -/
def resultOf (l : Ledger) (method : Nat) : Option Record := l.results[method]?.join

/-- A method returned. -/
def finish (l : Ledger) (method : Nat) (result : Record) : Ledger :=
  { l with results := l.results.set method (some result) }

end Ledger

namespace Machine

variable {σ : Type}

/-- The call site by which an action may call a method now. -/
def claimSite (m : Machine σ) (s : Schedule) (caller : Nat) (callee : ActionRef) (l : Ledger) :
    Except Fault (Nat × Site σ) :=
  let fault := Fault.call (m.design.main.nameOf caller) (m.design.nameOf callee)
  match m.design.main.findSite? caller callee with
  | none => .error (fault .undeclared)
  | some (id, site) =>
    if !s.grantedSites.test id then .error (fault .notGranted)
    else if l.performed.test id then .error (fault .performedTwice)
    else .ok (id, site)

/-- The arguments that a call passes: those of the call site, those given, or none. -/
def passedArguments (m : Machine σ) (s : Schedule) (caller : Nat) (callee : ActionRef)
    (target : Method σ) (id : Nat) (site : Site σ) (args : Option Record) :
    Except Fault Record :=
  let fault := Fault.call (m.design.main.nameOf caller) (m.design.nameOf callee)
  match site.arguments, args with
  | some _, some _ => .error (fault .argumentsTwice)
  | some _, none => .ok ((s.earlyOf id).getD Record.empty)
  | none, some record =>
    if record.shape = target.input then .ok record else .error (fault .argumentShape)
  | none, none =>
    if target.input.isEmpty then .ok (Record.zero target.input)
    else .error (fault .missingArguments)

/-- The arguments that a method runs with: those of the call site that drives it, if it has any
inputs, and otherwise those that its first caller passes. -/
def drivingArguments (s : Schedule) (callee : Nat) (target : Method σ) (id : Nat)
    (passed : Record) : Record :=
  match s.selectedOf callee with
  | none => passed
  | some driver =>
    if driver ≠ id && !target.input.isEmpty then (s.earlyOf driver).getD Record.empty else passed

/-- A method that is about to run is ready and accepts its arguments. -/
def checkRun (m : Machine σ) (name : String) (target : Method σ) (args : Record) (state : σ) :
    Except Fault Unit := do
  let view : View σ := ⟨state, m.scene none⟩
  if ← Guard.holds target.ready view then
    if ← Validator.accepts target.validator view args then .ok ()
    else .error (.method name .rejected)
  else .error (.method name .notReady)

/-- The surroundings of a body that runs for an action of the main registry. -/
def bodyScene (m : Machine σ) (id : Nat) : Scene :=
  m.scene (some (⟨.main, id⟩, m.design.main.nameOf id))

/-- Make a call for the action `caller`.  The fuel bounds the nesting of bodies. -/
def answer (m : Machine σ) (s : Schedule) :
    (fuel : Nat) → (caller : Nat) → Call → Body.Effects σ Ledger →
      Except Fault (Record × Body.Effects σ Ledger)
  | 0, _, _, _ => .error .nestingLimit
  | fuel + 1, caller, .perform callee args, e => do
    let (id, site) ← m.claimSite s caller callee e.calls
    let e := { e with calls := e.calls.perform id }
    let name := m.design.nameOf callee
    match m.design.method? callee with
    | none => .error (.unknownName name)
    | some target =>
      let passed ← m.passedArguments s caller callee target id site args
      match e.calls.resultOf callee.id with
      | some result =>
        if target.nonexclusive then .ok (result, e) else .error (.method name .executedTwice)
      | none =>
        let actual := drivingArguments s callee.id target id passed
        m.checkRun name target actual e.state
        match target.body with
        | none => .error (.unknownName name)
        | some body =>
          let (result, e) ←
            (body actual).run (m.bodyScene callee.id) (m.answer s fuel callee.id) e
          if result.shape = target.output then
            .ok (result, { e with calls := e.calls.finish callee.id result })
          else .error (.method name .resultShape)
  | fuel + 1, caller, .invoke target args, e =>
    match (m.design.action? target).map Action.role with
    | none => .error (.unknownName "")
    | some (.method x) =>
      match x.body with
      | none => .error (.unknownName (m.design.nameOf target))
      | some body => (body args).run (m.bodyScene caller) (m.answer s fuel caller) e
    | some (.transaction t) =>
      match t.body with
      | none => .error (.unknownName (m.design.nameOf target))
      | some body => do
        let (_, e) ← body.run (m.bodyScene caller) (m.answer s fuel caller) e
        .ok (Record.empty, e)

/-- Nesting of direct invocations that is followed. -/
def invocationLimit : Nat := 10000

/-- Nesting of bodies that is followed: every call site once, and the direct invocations. -/
def bodyDepth (m : Machine σ) : Nat := m.design.main.sites.length + invocationLimit + 1

/-- Every granted exclusive method has a single granted caller. -/
def checkExclusive (m : Machine σ) (s : Schedule) : Except Fault Unit :=
  m.design.main.methods.forM fun id =>
    match m.design.main.method? id with
    | none => .ok ()
    | some x =>
      let callers := x.callers.countP fun site => s.grantedSites.test site.id
      if !x.nonexclusive && s.granted.test id && decide (1 < callers) then
        .error (.method (m.design.main.nameOf id) (.grantedToMany callers))
      else .ok ()

/-- Run the body of a transaction if the schedule grants it. -/
def runTransaction (m : Machine σ) (s : Schedule) (e : Body.Effects σ Ledger) (t : Nat) :
    Except Fault (Body.Effects σ Ledger) :=
  if s.granted.test t then
    match (m.design.main.transaction? t).bind Transaction.body with
    | none => .error (.unknownName (m.design.main.nameOf t))
    | some body => (body.run (m.bodyScene t) (m.answer s m.bodyDepth t) e).map Prod.snd
  else .ok e

/-- Every granted call site was used. -/
def checkPerformed (m : Machine σ) (s : Schedule) (l : Ledger) : Except Fault Unit :=
  match m.design.main.numberedSites.find? fun x =>
      s.grantedSites.test x.1 && !l.performed.test x.1 with
  | none => .ok ()
  | some (_, site) =>
    .error (.call (m.design.main.nameOf site.caller) (m.design.nameOf site.callee) .neverPerformed)

/-- Run the combinational logic of a component. -/
def runHook (m : Machine σ) (e : Body.Effects σ Ledger) (part : Part σ) :
    Except Fault (Body.Effects σ Ledger) :=
  match part.hook with
  | none => .ok e
  | some hook =>
    (hook.run (m.scene none) (fun request _ => request.elim) e).map Prod.snd

/-- Execute a schedule whose cycle is the current one on an elaborated design. -/
def executeWith (m : Machine σ) (plan : Plan) (s : Schedule) : Except Fault (Machine σ) := do
  let m := { m with last := some s }
  m.checkExclusive s
  let start : Body.Effects σ Ledger :=
    ⟨m.state, m.journal, Ledger.start m.design.main.actions.length m.design.main.sites.length⟩
  let e ← plan.order.foldlM (m.runTransaction s) start
  m.checkPerformed s e.calls
  let e ← m.parts.foldlM m.runHook e
  .ok { m with state := e.state, journal := e.journal }

/-- Execute a schedule. -/
def execute (m : Machine σ) (s : Schedule) : Except Fault (Machine σ) :=
  match m.design.main.plan with
  | none => .error .executeUnelaborated
  | some plan =>
    if s.cycle = m.cycle then m.executeWith plan s
    else .error (.staleSchedule s.cycle m.cycle)

end Machine

end GuardedActions
