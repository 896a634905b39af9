import GuardedActions.Bench.World
import GuardedActions.Tally
import GuardedActions.Settings

/-!
# Answers of a testbench

What the steps of a testbench answer, as data: reports about a cycle, schedules with names instead of
positions, the call graph, the committed state, and what predicates say.
-/

set_option autoImplicit false

namespace GuardedActions.Bench

/-- A schedule with action names in place of positions, in the order of the positions. -/
structure NamedSchedule where
  /-- the cycle it was made for -/
  cycle : UInt64
  /-- names of the requested actions -/
  requested : List String
  /-- names of the actions that could run -/
  runnable : List String
  /-- names of the granted actions -/
  granted : List String
  /-- active call sites -/
  activeSites : List Nat
  /-- granted call sites -/
  grantedSites : List Nat
  /-- methods with the call site that drives them -/
  selected : List (String × Nat)
  /-- call sites with their early arguments -/
  early : List (Nat × String)
  deriving Repr, Inhabited

/-- A register array element: committed value, whether it is written, and the next value. -/
abbrev CellState : Type := UInt64 × Bool × UInt64

/-- The committed state of a component. -/
inductive ComponentState where
  /-- registers, arrays and wires; a wire shows its value and whether it is driven -/
  | box (name : String) (registers : List (String × CellState))
      (arrays : List (String × List CellState)) (wires : List (String × UInt64 × Bool))
  /-- a component without state -/
  | plain (name : String)
  /-- size, number of used slots, and shapes -/
  | memory (name : String) (entries used : Nat) (key data : String)
  /-- elements, whether a write waits, and widths -/
  | bank (name : String) (memory : List Bits) (writeWaiting : Bool) (width addressWidth : Nat)
  /-- entries with their dependencies, whether a fence sits in one, and the ready list -/
  | station (name : String) (slots : List (Bool × Bool × List Nat)) (fence : Bool) (ready : List Nat)
  deriving Repr

/-- What a report says besides the journal and the state. -/
inductive ReportHead where
  /-- nothing more -/
  | plain
  /-- the schedule of the cycle -/
  | schedule (s : NamedSchedule)
  /-- a session step or run: what it returned, whether it failed, what was granted last -/
  | session (ok : Option Bool) (failed : Bool) (granted : List String)
  deriving Repr

/-- A report: what happened since the last one. -/
structure Report where
  /-- what depends on the step -/
  head : ReportHead
  /-- current cycle -/
  cycle : UInt64
  /-- requesters: name, whether the call was granted, and outputs -/
  requesters : List (String × Bool × String)
  /-- notes -/
  notes : List String
  /-- text of the log -/
  log : String
  /-- console text -/
  console : String
  /-- committed state, if it was asked for -/
  state : Option (List ComponentState)
  deriving Repr

/-- An action of the call graph. -/
inductive ActionRow where
  /-- a method -/
  | method (id : Nat) (name : String) (owner : Option String) (input output : String)
      (isDefined guarded validated nonexclusive needsEarly : Bool) (callers : Nat)
  /-- a transaction -/
  | transaction (id : Nat) (name : String) (priority : Int) (owner : Option String)
      (isDefined requestable : Bool)
  deriving Repr

/-- A call site of the call graph. -/
structure SiteRow where
  /-- position -/
  id : Nat
  /-- name of the caller -/
  caller : String
  /-- name of the callee -/
  callee : String
  /-- whether the call is conditional -/
  conditional : Bool
  /-- whether the call supplies early arguments -/
  early : Bool
  deriving Repr

/-- The call graph and what elaboration made of it. -/
structure Graph where
  /-- whether it is frozen -/
  elaborated : Bool
  /-- actions in the order of their creation -/
  actions : List ActionRow
  /-- number of methods -/
  methods : Nat
  /-- call sites in the order of their declaration -/
  sites : List SiteRow
  /-- names of the transactions, best priority first -/
  order : List String
  /-- ordered pairs of conflicting transactions -/
  conflicts : List (String × String)
  /-- number of clusters -/
  clusters : Nat
  /-- components with their elements -/
  components : List (String × List String)
  deriving Repr

/-- What the predicates of an action say. -/
structure Probe where
  /-- its call sites: position, whether the condition holds, and the early arguments -/
  sites : List (Nat × Bool × Option String)
  /-- the request predicate of a transaction -/
  request : Option Bool := none
  /-- the readiness predicate of a method -/
  ready : Option Bool := none
  /-- the validator of a method, if arguments were given -/
  valid : Option Bool := none
  deriving Repr

/-- The answer to a step. -/
inductive Answer where
  /-- nothing to tell -/
  | done
  /-- a count, a position or a cycle -/
  | count (n : Nat)
  /-- a position, if there is one -/
  | position (n : Option Nat)
  /-- a machine word -/
  | word (n : UInt64)
  /-- a text -/
  | text (s : String)
  /-- several texts -/
  | texts (s : List String)
  /-- a truth value -/
  | flag (b : Bool)
  /-- several truth values -/
  | flags (b : List Bool)
  /-- a refused design -/
  | refused (error : Refusal)
  /-- a schedule -/
  | schedule (s : NamedSchedule)
  /-- a report -/
  | report (r : Report)
  /-- the call graph -/
  | graph (g : Graph)
  /-- the committed state -/
  | state (s : List ComponentState)
  /-- what predicates say -/
  | probe (p : Probe)
  /-- figures -/
  | figures (s : FigureTable)
  /-- cycles, figures, and the counters of one action of the free-standing tally -/
  | observed (cycles : UInt64) (s : FigureTable) (actions : Option ActionTally)
  /-- cycles and counters of one action of a session's tally, if it keeps them -/
  | tally (m : Option (UInt64 × Option ActionTally))
  /-- settings of a session -/
  | settings (s : Settings)
  /-- cycle, and whether the session failed -/
  | progress (cycle : UInt64) (failed : Bool)
  deriving Repr

end GuardedActions.Bench
