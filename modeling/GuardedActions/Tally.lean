import GuardedActions.Histogram
import GuardedActions.Schedule

/-!
# Tally

Counters per action, fed with one schedule per cycle: how often the action was requested, runnable
and granted, how often it was runnable but not granted, and how long such stalls lasted.
-/

set_option autoImplicit false

namespace GuardedActions

/-- The counters of one action. -/
structure ActionTally where
  /-- cycles in which it was requested -/
  requested : UInt64 := 0
  /-- cycles in which it could run -/
  runnable : UInt64 := 0
  /-- cycles in which it ran -/
  granted : UInt64 := 0
  /-- cycles in which it could run and did not -/
  stalled : UInt64 := 0
  /-- length of the stall that is still going on -/
  openStall : UInt64 := 0
  /-- lengths of the stalls that are over -/
  stalls : Histogram := {}
  deriving DecidableEq, Repr, Inhabited

namespace ActionTally

/-- One if the condition holds, zero otherwise. -/
def tick (condition : Bool) : UInt64 := if condition then 1 else 0

/-- Count one cycle. -/
def observe (c : ActionTally) (requested runnable granted : Bool) : ActionTally :=
  let c := { c with
    requested := c.requested + tick requested
    runnable := c.runnable + tick runnable
    granted := c.granted + tick granted }
  if runnable && !granted then
    { c with stalled := c.stalled + 1, openStall := c.openStall + 1 }
  else if c.openStall = 0 then c
  else { c with stalls := c.stalls.add c.openStall, openStall := 0 }

/-- Length of the longest stall, finished or not. -/
def longestStall (c : ActionTally) : UInt64 :=
  if c.stalls.max < c.openStall then c.openStall else c.stalls.max

/-- The counters that figures show, by name. -/
def figures (c : ActionTally) : List (String × UInt64) :=
  [("requested", c.requested), ("runnable", c.runnable), ("granted", c.granted),
    ("stalled", c.stalled), ("max_stall_run", c.longestStall)]

end ActionTally

/-- Figures by subject and name. -/
abbrev FigureTable : Type := List (String × List (String × UInt64))

namespace FigureTable

/-- Set a figure in a list of figures. -/
def setFigure (name : String) (value : UInt64) : List (String × UInt64) → List (String × UInt64)
  | [] => [(name, value)]
  | (n, v) :: rest => if n = name then (n, value) :: rest else (n, v) :: setFigure name value rest

/-- Set several figures of a subject. -/
def enter (subject : String) (figures : List (String × UInt64)) : FigureTable → FigureTable
  | [] => [(subject, figures)]
  | (s, old) :: rest =>
    if s = subject then (s, figures.foldl (fun all f => setFigure f.1 f.2 all) old) :: rest
    else (s, old) :: enter subject figures rest

end FigureTable

/-- Counters of all actions since the last clearing. -/
structure Tally where
  /-- names of the actions -/
  names : List String := []
  /-- counters of the actions -/
  actions : List ActionTally := []
  /-- cycles counted -/
  cycles : UInt64 := 0
  deriving DecidableEq, Repr, Inhabited

namespace Tally

/-- Make room for actions that were not there before. -/
def extend (x : Tally) (names : List String) : Tally :=
  if x.actions.length < names.length then
    { x with
      names := names
      actions := x.actions ++ List.replicate (names.length - x.actions.length) {} }
  else x

/-- Count one cycle of the actions with the given names. -/
def observe (x : Tally) (s : Schedule) (names : List String) : Tally :=
  let x := x.extend names
  { x with
    cycles := x.cycles + 1
    actions := x.actions.zipIdx.map fun (c, id) =>
      if id < names.length then c.observe (s.requests id) (s.couldRun id) (s.grants id)
      else c }

/-- The counters of the first action with the given name. -/
def lookup? (x : Tally) (name : String) : Option ActionTally := do
  let id ← x.names.findIdx? (· == name)
  x.actions[id]?

/-- Enter the counters of all actions into figures. -/
def collect (x : Tally) (figures : FigureTable) : FigureTable :=
  (x.names.zip x.actions).foldl (fun all (name, c) => FigureTable.enter name c.figures all) figures

end Tally

end GuardedActions
