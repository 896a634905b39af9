import GuardedActions.Bench.Stmt
import GuardedActions.Settings

/-!
# Steps of a testbench

A testbench is a list of steps that build a system, run it and ask about it.  Actions are given by
name, call sites by position.
-/

set_option autoImplicit false

namespace GuardedActions.Bench

/-- What a requester is told: field values in the target's shape or another one, or nothing for all
zero. -/
structure Drive where
  /-- name of the requester -/
  requester : String
  /-- values of the fields -/
  values : Option (List Nat) := none
  /-- another shape than the target's -/
  fields : Option (List Field) := none
  deriving Repr, Inhabited

/-- What is done to variables and requesters before a step. -/
structure Stimuli where
  /-- variables to set -/
  assignments : List (String × UInt64) := []
  /-- requesters to disable -/
  disable : List String := []
  /-- requesters to enable -/
  enable : List Drive := []
  /-- requesters to ask for a single call -/
  call : List Drive := []
  deriving Repr, Inhabited

/-- Edits of a stored schedule. -/
structure Tampering where
  /-- another cycle -/
  cycle : Option UInt64 := none
  /-- requested or not -/
  requested : List (String × Bool) := []
  /-- runnable or not -/
  runnable : List (String × Bool) := []
  /-- granted or not -/
  granted : List (String × Bool) := []
  /-- call sites active or not -/
  activeSites : List (Nat × Bool) := []
  /-- call sites granted or not -/
  grantedSites : List (Nat × Bool) := []
  /-- other call sites that drive methods, none for a negative position -/
  selected : List (String × Int) := []
  /-- other early arguments of call sites, or none -/
  early : List (Nat × Option (List Nat)) := []
  deriving Repr, Inhabited

/-- A step that builds a part of the system. -/
inductive BuildStep where
  /-- a box: registers with start values, arrays with sizes and start values, wires with idle values -/
  | box (name : String) (registers : List (String × UInt64)) (arrays : List (String × Nat × UInt64))
      (wires : List (String × UInt64)) (logic : List Stmt)
  /-- a component without anything -/
  | plain (name : String)
  /-- take out the first component of a name -/
  | drop (name : String)
  /-- a method, possibly of a box or of the guest registry, possibly with a body that does nothing -/
  | method (name : String) (input output : List Field) (inBox : Option String) (guest silent : Bool)
  /-- a transaction, possibly of a box -/
  | transaction (name : String) (priority : Int) (inBox : Option String)
  /-- the body of an action -/
  | body (of : String) (stmts : List Stmt)
  /-- the readiness predicate of a method -/
  | ready (of : String) (e : Expr)
  /-- the validator of a method -/
  | validator (of : String) (e : Expr)
  /-- the request predicate of a transaction -/
  | request (of : String) (e : Expr)
  /-- several callers of a method per cycle -/
  | nonexclusive (of : String)
  /-- early arguments for a method -/
  | early (of : String)
  /-- a call, possibly conditional, possibly with early arguments -/
  | calls (caller callee : String) (condition : Option Expr) (args : Option Arguments)
  /-- a condition for an existing call site -/
  | condition (site : Nat) (e : Expr)
  /-- early arguments for an existing call site -/
  | arguments (site : Nat) (args : Arguments)
  /-- a declared conflict -/
  | conflict (a b : String)
  /-- an associative memory -/
  | memory (name : String) (key data : List Field) (entries : Nat)
  /-- a memory bank -/
  | bank (name : String) (data : List Field) (count : Nat) (granularity : Option Nat) (safe : Bool)
  /-- a reservation station -/
  | station (name : String) (config : StationConfig)
  /-- a requester -/
  | requester (name target : String) (priority : Int)
  deriving Repr, Inhabited

/-- A step that runs the system. -/
inductive RunStep where
  /-- stimuli alone -/
  | set (stimuli : Stimuli)
  /-- statements outside of any body -/
  | exec (stmts : List Stmt)
  /-- a call with the right that a body kept -/
  | lateCall (method : String)
  /-- elaboration -/
  | elaborate
  /-- make a schedule and store it -/
  | schedule (slot : String)
  /-- execute a stored schedule -/
  | execute (slot : String)
  /-- the clock edge -/
  | commit
  /-- back to the start -/
  | reset
  /-- stimuli and a whole cycle -/
  | cycle (stimuli : Stimuli)
  /-- edit a stored schedule -/
  | tamper (slot : String) (edits : Tampering)
  /-- the clock edge of a single component -/
  | commitComponent (name : String)
  /-- the start values of a single component -/
  | resetComponent (name : String)
  /-- count a stored schedule in the free-standing tally -/
  | observe (slot : String)
  /-- a new session -/
  | control (settings : Settings)
  /-- an observer that leaves notes -/
  | observer
  /-- stimuli and one session step -/
  | step (stimuli : Stimuli)
  /-- stimuli and a number of session steps -/
  | run (stimuli : Stimuli) (steps : Nat)
  /-- stimuli and session steps until an expression is not 0 -/
  | runTo (stimuli : Stimuli) (e : Expr)
  /-- the session back to the start -/
  | sessionReset
  deriving Repr, Inhabited

/-- A step that asks about the system. -/
inductive AskStep where
  /-- the value of an expression -/
  | eval (e : Expr)
  /-- equality and inequality of stored schedules -/
  | compare (a b : String)
  /-- the schedule executed last -/
  | last
  /-- what a stored schedule and the last executed one say about an action -/
  | is (action slot : String)
  /-- waiting calls of a method -/
  | pending (method : String)
  /-- position of an action -/
  | lookup (name : String)
  /-- whether two transactions conflict -/
  | conflicts (a b : String)
  /-- what the predicates of an action say -/
  | probe (action : String) (args : Option (List Nat))
  /-- the call site from an action to a method -/
  | findSite (caller callee : String)
  /-- the free-standing tally, which may then be cleared -/
  | observed (action : String) (clear : Bool)
  /-- the call graph -/
  | graph
  /-- the committed state -/
  | state
  /-- settings of the session -/
  | settings
  /-- figures of the session -/
  | figures
  /-- counters of an action -/
  | tally (action : String)
  deriving Repr, Inhabited

/-- A step of a testbench. -/
inductive Step where
  /-- build something -/
  | build (s : BuildStep)
  /-- run something; a report then shows the state if asked to -/
  | run (s : RunStep) (withState : Bool)
  /-- ask something -/
  | ask (s : AskStep)
  deriving Repr, Inhabited

end GuardedActions.Bench
