import GuardedActions.Execution
import GuardedActions.Tally
import GuardedActions.Settings

/-!
# Session

A session clocks a machine: every step schedules, executes, notifies the observers and commits one
cycle.  It counts the cycles, stops at a limit, and has failed once a step logged an error.  Observers
see schedules only and answer with notes.
-/

set_option autoImplicit false

namespace GuardedActions

/-- Called after every executed cycle with its number, its schedule and the names of the actions;
returns the notes to leave.  It does nothing else, and of the same cycle it returns the same notes. -/
abbrev Observer : Type := UInt64 → Schedule → List String → List String

/-- The part of a session that is not the machine. -/
structure RunControl where
  /-- how to run -/
  settings : Settings
  /-- counters per action, if they are kept -/
  tally : Option Tally
  /-- who is told about cycles, in the order of registration -/
  observers : List Observer := []
  /-- steps since the start or the last reset -/
  cyclesDone : UInt64 := 0
  /-- whether a step since the start or the last reset logged an error -/
  failed : Bool := false

/-- A session with the machine that it clocks. -/
structure Session (σ : Type) where
  /-- settings and counters -/
  control : RunControl
  /-- the simulated machine -/
  machine : Machine σ

namespace RunControl

/-- Run control with the given settings. -/
def new (settings : Settings) : RunControl where
  settings := settings
  tally := if settings.track then some {} else none

/-- Register an observer. -/
def observe (s : RunControl) (observer : Observer) : RunControl :=
  { s with observers := s.observers ++ [observer] }

/-- Whether no more cycles may be run. -/
def atLimit (s : RunControl) : Bool := decide (s.settings.cycleLimit ≤ s.cyclesDone)

/-- Count one more step. -/
def countStep (s : RunControl) : RunControl := { s with cyclesDone := s.cyclesDone + 1 }

/-- Counters of the actions, and those of the session as a whole. -/
def figures (s : RunControl) : FigureTable :=
  let counted := match s.tally with
    | none => []
    | some x => x.collect []
  FigureTable.enter "_global" [("cycles", s.cyclesDone), ("failed", ActionTally.tick s.failed)] counted

end RunControl

namespace Session

variable {σ : Type}

/-- Start a session on a machine; the log takes over the threshold of the settings. -/
def new (settings : Settings) (m : Machine σ) : Session σ where
  control := RunControl.new settings
  machine := m.mapJournal fun j => { j with log := { j.log with threshold := settings.threshold } }

/-- A console line of the session about a cycle. -/
def lineAt (cycle : UInt64) (message : String) : String :=
  "[SIM @ " ++ toString cycle.toNat ++ "] " ++ message

/-- Print a message about the current cycle, if the session is verbose. -/
def tell (x : Session σ) (message : String) : Session σ :=
  if x.control.settings.verbose then
    { x with machine := x.machine.mapJournal fun j => j.print (lineAt x.machine.cycle message) }
  else x

/-- The machine with an elaborated design. -/
def elaborated (m : Machine σ) : Except Fault (Machine σ) :=
  if m.isFrozen then .ok m
  else
    match m.elaborate with
    | (m, .ok ()) => .ok m
    | (_, .error error) => .error (.refused error)

/-- The message about the transactions that a schedule grants, best priority first. -/
def grantedText (m : Machine σ) (s : Schedule) : String :=
  "granted:" ++ String.join
    ((m.design.main.ranking.order.filter s.grants).map fun t => " " ++ m.design.main.nameOf t)

/-- Tell the tally and the observers about an executed cycle. -/
def notify (x : Session σ) (cycle : UInt64) (s : Schedule) : Session σ :=
  let names := x.machine.design.main.actions.map Action.name
  { control := { x.control with tally := x.control.tally.map fun c => c.observe s names }
    machine := x.machine.mapJournal fun j =>
      x.control.observers.foldl (fun j observer => j.noteAll (observer cycle s names)) j }

/-- Print which transactions ran in a cycle, if the session is verbose. -/
def printCycle (x : Session σ) (cycle : UInt64) (s : Schedule) : Session σ :=
  if x.control.settings.verbose then
    { x with machine := x.machine.mapJournal fun j =>
        j.print (lineAt cycle (grantedText x.machine s)) }
  else x

/-- The session has failed. -/
def fail (x : Session σ) : Session σ :=
  { x with control := { x.control with failed := true } }.tell
    "Simulation failed: error logged"

/-- Evaluate one cycle. -/
def step (x : Session σ) : Except Fault (Session σ) := do
  let m ← elaborated x.machine
  let cycle := m.cycle
  let m := m.mapJournal fun j => { j with log := { j.log with cycle := cycle } }
  let errors := m.journal.log.errors
  let s ← m.schedule
  let m ← m.execute s
  let x := notify { x with machine := m } cycle s
  let x := printCycle ⟨x.control.countStep, x.machine.commit⟩ cycle s
  .ok (if x.machine.journal.log.errors ≠ errors then x.fail else x)

/-- Stop at the limit. -/
def stop (x : Session σ) : Session σ := x.tell "Simulation stopped: maximum cycles reached"

/-- Take a number of steps, unless the limit or a failure comes first.  Tells whether all steps were
taken without a failure. -/
def run : (steps : Nat) → Session σ → Except Fault (Bool × Session σ)
  | 0, x => .ok (true, x)
  | steps + 1, x =>
    if x.control.atLimit then .ok (false, x.stop)
    else do
      let x ← x.step
      if x.control.failed then .ok (false, x) else run steps x

/-- Steps that are left until the limit. -/
def stepsLeft (x : Session σ) : Nat :=
  x.control.settings.cycleLimit.toNat - x.control.cyclesDone.toNat

/-- Take steps until a condition holds, unless the limit or a failure comes first; the fuel bounds the
steps. -/
def runToWithin (finished : Session σ → Except Fault Bool) :
    (fuel : Nat) → Session σ → Except Fault (Bool × Session σ)
  | 0, x => do
    if ← finished x then .ok (true, x) else .ok (false, x.stop)
  | fuel + 1, x => do
    if ← finished x then .ok (true, x)
    else if x.control.atLimit then .ok (false, x.stop)
    else
      let x ← x.step
      if x.control.failed then .ok (false, x) else runToWithin finished fuel x

/-- Take steps until a condition holds, unless the limit or a failure comes first.  Tells whether the
condition came to hold without a failure.  The condition only looks at the session: asking it changes
nothing, and of the same session it says the same whenever it is asked. -/
def runTo (finished : Session σ → Except Fault Bool) (x : Session σ) :
    Except Fault (Bool × Session σ) :=
  runToWithin finished x.stepsLeft x

/-- Put the machine and the counters back to the start. -/
def reset (x : Session σ) : Session σ where
  control :=
    { x.control with
      tally := x.control.tally.map fun _ => {}
      cyclesDone := 0
      failed := false }
  machine := x.machine.reset

end Session

end GuardedActions
