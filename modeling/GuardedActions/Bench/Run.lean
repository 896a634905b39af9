import GuardedActions.Bench.Basic

/-!
# Running steps

Steps that change the state of a testbench's machine: stimuli, statements outside of any body, single
phases, whole cycles and session steps.
-/

set_option autoImplicit false

namespace GuardedActions.Bench

/-! ## Statements outside of any body -/

/-- The machine on which statements run, what they know, and whether a return ended them. -/
structure Outside where
  /-- the machine -/
  machine : Machine World
  /-- local knowledge -/
  locals : Locals := {}
  /-- whether a return was met -/
  returned : Bool := false

/-- Run the effects of a statement on the machine as it is now. -/
def Outside.runQuiet (o : Outside) (s : Stmt) : Except Fault Outside := do
  let ((l, returned), e) ← (s.body Home.quiet o.locals).run (o.machine.scene none)
    (fun request _ => request.elim)
    (⟨o.machine.state, o.machine.journal, ()⟩ : Body.Effects World Unit)
  .ok
    { machine := { o.machine with state := e.state, journal := e.journal }
      locals := l
      returned := returned.isSome }

mutual

/-- Run a statement outside of any body, where the machine may be driven. -/
def runOutside (o : Outside) : Stmt → Except Fault Outside
  | .schedule => do
    let _ ← o.machine.schedule
    .ok o
  | .commit => .ok { o with machine := o.machine.commit }
  | .elaborate =>
    match o.machine.elaborate with
    | (m, .ok ()) => .ok { o with machine := m.mapJournal fun j => j.note "" }
    | (m, .error error) => .ok { o with machine := m.mapJournal fun j => j.note error.message }
  | .branch condition yes no => do
    let c ← condition.eval o.machine.view o.locals
    if c != 0 then runAllOutside o yes else runAllOutside o no
  | s => o.runQuiet s

/-- Run statements outside of any body up to the first return. -/
def runAllOutside (o : Outside) : List Stmt → Except Fault Outside
  | [] => .ok o
  | s :: rest => do
    let o ← runOutside o s
    if o.returned then .ok o else runAllOutside o rest

end

/-! ## Schedules -/

/-- Elaborate the machine. -/
def elaborate (b : Bench) : Answer × Bench :=
  match b.machine.elaborate with
  | (m, .ok ()) => (.done, { b with machine := m })
  | (m, .error error) => (.refused error, { b with machine := m })

/-- Stimuli and a whole cycle. -/
def cycle (b : Bench) (stimuli : Stimuli) (withState : Bool) : Except Fault (Answer × Bench) := do
  let b ← b.stimulate stimuli
  let s ← b.machine.schedule
  let m ← b.machine.execute s
  let b := { b with machine := m.commit }
  .ok (b.report (.schedule (b.named s)) withState)

/-- Edit the entries of a mask that stand for actions. -/
def editActions (b : Bench) (edits : List (String × Bool)) (mask : Mask) : Except Fault Mask :=
  edits.foldlM (fun mask e => do .ok (mask.put (← b.action e.1).ref.id e.2)) mask

/-- Edit the early arguments of a call site. -/
def editEarly (b : Bench) (early : List (Option Record)) (edit : Nat × Option (List Nat)) :
    List (Option Record) :=
  let input := (((b.machine.design.main.sites[edit.1]?).bind fun s =>
    b.machine.design.method? s.callee).map Method.input).getD Shape.empty
  early.set edit.1 (edit.2.map fun values => Record.fill input (values.map bitsOf))

/-- Edit what drives an action. -/
def editSelected (b : Bench) (selected : List Driver) (edit : String × Int) :
    Except Fault (List Driver) := do
  let listing ← b.action edit.1
  .ok (selected.set listing.ref.id (Driver.ofInt edit.2))

/-- Edit a schedule. -/
def tamper (b : Bench) (edits : Tampering) (s : Schedule) : Except Fault Schedule := do
  let requested ← b.editActions edits.requested s.requested
  let runnable ← b.editActions edits.runnable s.runnable
  let granted ← b.editActions edits.granted s.granted
  let selected ← edits.selected.foldlM b.editSelected s.selected
  .ok
    { cycle := edits.cycle.getD s.cycle
      requested := requested
      runnable := runnable
      granted := granted
      activeSites := edits.activeSites.foldl (fun mask e => mask.put e.1 e.2) s.activeSites
      grantedSites := edits.grantedSites.foldl (fun mask e => mask.put e.1 e.2) s.grantedSites
      selected := selected
      early := edits.early.foldl b.editEarly s.early }

/-- Apply the clock edge or the reset of a single component. -/
def onPart (b : Bench) (name : String) (f : Part World → World → World) :
    Except Fault (Answer × Bench) :=
  match b.machine.parts.find? fun part => part.name == name with
  | none => .error (.unknownName name)
  | some part =>
    .ok (.count b.machine.cycle.toNat, b.withState (f part b.machine.state))

/-! ## Sessions -/

/-- An observer that leaves a note with the cycle and the names of the granted actions. -/
def noteGrants : Observer := fun cycle s names =>
  ["observed " ++ toString cycle.toNat ++ String.join
    ((names.zipIdx.filter fun x => s.grants x.2).map fun x => " " ++ x.1)]

/-- A report about session steps. -/
def reportSession (b : Bench) (ok : Option Bool) (x : Session World) (withState : Bool) :
    Answer × Bench :=
  let b := b.withSession x
  b.report (.session ok x.control.failed b.grantedNames) withState

/-- Whether an expression is not 0 in the current state of a session. -/
def finished (e : Expr) (x : Session World) : Except Fault Bool := e.guard x.machine.view

/-- Take a running step. -/
def perform (b : Bench) (withState : Bool) : RunStep → Except Fault (Answer × Bench)
  | .set stimuli => do .ok (.done, ← b.stimulate stimuli)
  | .exec stmts => do
    let o ← runAllOutside { machine := b.machine } stmts
    .ok ({ b with machine := o.machine }.report .plain withState)
  | .lateCall method => do
    let listing ← b.action method
    if b.machine.state.kept then .error (.callOutsideCycle listing.name)
    else .error (.unknownName "caller")
  | .elaborate => .ok b.elaborate
  | .schedule slot => do
    let s ← b.machine.schedule
    .ok (.schedule (b.named s), b.store slot s)
  | .execute slot => do
    let m ← b.machine.execute (b.slot slot)
    .ok ({ b with machine := m }.report .plain withState)
  | .commit =>
    let m := b.machine.commit
    .ok (.count m.cycle.toNat, { b with machine := m })
  | .reset =>
    let m := b.machine.reset
    .ok (.count m.cycle.toNat, { b with machine := m })
  | .cycle stimuli => b.cycle stimuli withState
  | .tamper slot edits => do
    let s ← b.tamper edits (b.slot slot)
    .ok (.schedule (b.named s), b.store slot s)
  | .commitComponent name => b.onPart name Part.commit
  | .resetComponent name => b.onPart name Part.reset
  | .observe slot =>
    let tally := b.tally.observe (b.slot slot) (b.machine.design.main.actions.map Action.name)
    .ok (.count tally.cycles.toNat, { b with tally := tally })
  | .control settings =>
    let b := b.withSession (Session.new settings b.machine)
    .ok (.count b.machine.cycle.toNat, b)
  | .observer => do
    let x ← b.session
    .ok (.done, { b with control := some (x.control.observe noteGrants) })
  | .step stimuli => do
    let b ← b.stimulate stimuli
    let x ← (← b.session).step
    .ok (b.reportSession none x withState)
  | .run stimuli steps => do
    let b ← b.stimulate stimuli
    let (ok, x) ← (← b.session).run steps
    .ok (b.reportSession (some ok) x withState)
  | .runTo stimuli e => do
    let b ← b.stimulate stimuli
    let (ok, x) ← (← b.session).runTo (finished e)
    .ok (b.reportSession (some ok) x withState)
  | .sessionReset => do
    let x := (← b.session).reset
    .ok (.progress x.machine.cycle x.control.failed, b.withSession x)

end GuardedActions.Bench
