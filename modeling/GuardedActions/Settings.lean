import GuardedActions.Log

/-!
# Settings of a simulation

The defaults, and the variables of the environment that override them.  A variable with a value that
makes no sense is reported as a warning and ignored.
-/

set_option autoImplicit false

namespace GuardedActions

/-- How a simulation runs and what it tells. -/
structure Settings where
  /-- most cycles that a run may take -/
  cycleLimit : UInt64 := 1000000
  /-- whether every cycle prints a line -/
  verbose : Bool := false
  /-- whether counters per action are kept -/
  track : Bool := true
  /-- seed for random stimuli -/
  seed : UInt64 := 42
  /-- threshold of the log -/
  threshold : Log.Level := .warning
  deriving DecidableEq, Repr, Inhabited

/-- The environment variables that settings look at; `none` for an unset one. -/
structure Environment where
  /-- limit on the cycles of a run -/
  cycleLimit : Option String := none
  /-- whether cycles print a line -/
  verbose : Option String := none
  /-- threshold of the log -/
  threshold : Option String := none
  deriving DecidableEq, Repr, Inhabited

namespace Settings

/-- Name of the variable that limits the cycles. -/
def maxCyclesVariable : String := "LATCH_MAX_CYCLES"

/-- Name of the variable that makes cycles print. -/
def verboseVariable : String := "LATCH_VERBOSE"

/-- Name of the variable that sets the threshold of the log. -/
def logLevelVariable : String := "LATCH_LOG_LEVEL"

/-- A positive number of cycles. -/
def parseCycles? (value : String) : Option UInt64 :=
  match Ascii.word? (Ascii.trim value) with
  | some n => if n = 0 then none else some n
  | none => none

/-- A yes or a no; an empty value is a no. -/
def parseFlag? (value : String) : Option Bool :=
  match Ascii.lower (Ascii.trim value) with
  | "1" | "true" | "on" | "yes" => some true
  | "0" | "false" | "off" | "no" | "" => some false
  | _ => none

/-- The name of a log level. -/
def parseLevel? (value : String) : Option Log.Level := Log.Level.parse? (Ascii.trim value)

/-- The warning about a variable that is ignored. -/
def ignoring (name value : String) : Log.Entry :=
  ⟨.warning, "config", "ignoring " ++ name ++ "='" ++ value ++ "'"⟩

/-- Take over the value of one variable: nothing happens if it is unset, and a warning is logged if
it makes no sense. -/
def overlayOne {α : Type} (name : String) (value : Option String) (parse : String → Option α)
    (apply : Settings → α → Settings) (state : Settings × Log) : Settings × Log :=
  match value with
  | none => state
  | some text =>
    match parse text with
    | some a => (apply state.1 a, state.2)
    | none => (state.1, state.2.add (ignoring name text))

/-- Lay the variables of an environment over the defaults. -/
def ofEnvironment (defaults : Settings) (env : Environment) (log : Log) : Settings × Log :=
  overlayOne logLevelVariable env.threshold parseLevel?
    (fun settings level => { settings with threshold := level })
    (overlayOne verboseVariable env.verbose parseFlag?
      (fun settings flag => { settings with verbose := flag })
      (overlayOne maxCyclesVariable env.cycleLimit parseCycles?
        (fun settings cycles => { settings with cycleLimit := cycles })
        (defaults, log)))

end Settings

end GuardedActions
