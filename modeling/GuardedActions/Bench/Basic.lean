import GuardedActions.Bench.Answer
import GuardedActions.Bench.Step
import GuardedActions.Session

/-!
# Testbenches

A testbench has a machine, schedules stored under names, the positions of its requesters, possibly a
session, and a tally that is fed by hand.  This module holds what building, running and asking have
in common: names, views and reports.
-/

set_option autoImplicit false

namespace GuardedActions

/-- The state of a testbench. -/
structure Bench where
  /-- the machine under test -/
  machine : Machine Bench.World := { state := {} }
  /-- stored schedules -/
  slots : List (String × Schedule) := []
  /-- requesters: position among the components, and position of the transaction -/
  requesters : List (Nat × Nat) := []
  /-- the session, if there is one -/
  control : Option RunControl := none
  /-- a tally fed by hand -/
  tally : Tally := {}

namespace Bench

/-- The action that a name stands for. -/
def action (b : Bench) (name : String) : Except Fault Listing := resolve (b.machine.scene none) name

/-- A stored schedule, the empty one if there is none. -/
def slot (b : Bench) (name : String) : Schedule := (b.slots.lookup name).getD {}

/-- Store a schedule. -/
def store (b : Bench) (name : String) (s : Schedule) : Bench :=
  { b with slots := (name, s) :: b.slots.filter fun x => x.1 != name }

/-- Change the simulated state. -/
def withState (b : Bench) (w : World) : Bench := { b with machine := { b.machine with state := w } }

/-- A number with just the bits it needs. -/
def bitsOf (n : Nat) : Bits := Bits.ofNat (n.log2 + 1) n

/-- The session of a bench, which has to have one. -/
def session (b : Bench) : Except Fault (Session World) :=
  match b.control with
  | none => .error (.unknownName "session")
  | some s => .ok ⟨s, b.machine⟩

/-- Take over a session. -/
def withSession (b : Bench) (x : Session World) : Bench :=
  { b with machine := x.machine, control := some x.control }

/-! ## Stimuli -/

/-- The record that a requester is driven with. -/
def driveRecord (a : Requester) (d : Drive) : Except Fault Record :=
  match d.values with
  | none => .ok (Record.zero a.input)
  | some values =>
    match d.fields with
    | none => .ok (Record.fill a.input (values.map bitsOf))
    | some fields => do .ok (Record.fill (← Shape.ofFields fields) (values.map bitsOf))

/-- Apply stimuli: variables, then requesters to disable, to enable and to call. -/
def Stimuli.apply (s : Stimuli) (w : World) : Except Fault World := do
  let w := s.assignments.foldl (fun w v => w.setVariable v.1 v.2) w
  let w ← s.disable.foldlM (fun w name => w.changeRequester name fun a => .ok a.disable) w
  let w ← s.enable.foldlM
    (fun w d => w.changeRequester d.requester fun a => do a.enable (← driveRecord a d)) w
  s.call.foldlM (fun w d => w.changeRequester d.requester fun a => do a.call (← driveRecord a d)) w

/-- Apply stimuli to a bench. -/
def stimulate (b : Bench) (s : Stimuli) : Except Fault Bench := do
  .ok (b.withState (← s.apply b.machine.state))

/-! ## Views -/

/-- Names of the members of a mask. -/
def namesOf (b : Bench) (mask : Mask) : List String :=
  mask.members.map b.machine.design.main.nameOf

/-- A schedule with names. -/
def named (b : Bench) (s : Schedule) : NamedSchedule where
  cycle := s.cycle
  requested := b.namesOf s.requested
  runnable := b.namesOf s.runnable
  granted := b.namesOf s.granted
  activeSites := s.activeSites.members
  grantedSites := s.grantedSites.members
  selected := s.selected.zipIdx.filterMap fun (driver, id) =>
    driver.site?.map fun site => (b.machine.design.main.nameOf id, site)
  early := s.early.zipIdx.filterMap fun (args, id) => args.map fun args => (id, args.text)

/-- Value, whether written, and next value of a cell. -/
def cellState (c : Cell UInt64) : CellState := (c.value, c.hasWrite, c.next)

/-- The committed state of a component; requesters and removed components show none. -/
def componentState (w : World) : Component → Option ComponentState
  | .box x => some (.box x.name
      (x.registers.map fun r => (r.name.element, cellState r.cell))
      (x.arrays.map fun a => (a.name.element, a.cells.toList.map cellState))
      (x.wires.map fun v => (v.name.element, v.get, v.isLive)))
  | .plain name => some (.plain name)
  | .memory x => some (.memory x.name x.entries x.used x.keyShape.text x.dataShape.text)
  | .bank x => some (.bank x.name x.memory.values x.writeWaiting.read x.width x.addressWidth)
  | .station x => some (.station x.name
      (x.slots.values.map fun e => (e.reserved, e.full, e.depends.members))
      x.fencePending (x.readyMask w.robStart).members)
  | .requester _ => none
  | .removed => none

/-- The committed state of all components. -/
def stateView (b : Bench) : List ComponentState :=
  b.machine.state.components.filterMap (componentState b.machine.state)

/-- The requesters: name, whether the last executed schedule grants the call, and outputs. -/
def requesterView (b : Bench) : List (String × Bool × String) :=
  b.requesters.filterMap fun (index, transaction) =>
    ((b.machine.state.components[index]?).bind Component.requester?).map fun a =>
      (a.name, b.machine.grants ⟨.main, transaction⟩, a.outputs.text)

/-- Report, and start collecting for the next report. -/
def report (b : Bench) (head : ReportHead) (withState : Bool) : Answer × Bench :=
  let journal := b.machine.journal
  (.report
    { head := head
      cycle := b.machine.cycle
      requesters := b.requesterView
      notes := journal.notes.toList
      log := journal.log.text
      console := journal.console
      state := if withState then some b.stateView else none },
    { b with machine := b.machine.mapJournal Journal.clearTexts })

/-- Names of the granted transactions of the last executed schedule, best priority first. -/
def grantedNames (b : Bench) : List String :=
  let main := b.machine.design.main
  (main.ranking.order.filter b.machine.latest.grants).map main.nameOf

end Bench

end GuardedActions
