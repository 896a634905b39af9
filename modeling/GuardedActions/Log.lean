import GuardedActions.Ascii

/-!
# Log

A log writes one line per message that reaches its threshold and counts the errors.  Errors are
counted whether or not they are written.
-/

set_option autoImplicit false

namespace GuardedActions

namespace Log

/-- Severity of a message.  Codes outside the four named ones are legal and order like numbers. -/
structure Level where
  /-- place in the order of severities -/
  code : Int
  deriving DecidableEq, Repr, Inhabited

namespace Level

/-- Detail for debugging. -/
def debug : Level := ⟨0⟩

/-- Routine information. -/
def info : Level := ⟨1⟩

/-- Something unusual. -/
def warning : Level := ⟨2⟩

/-- Something wrong. -/
def error : Level := ⟨3⟩

/-- The name under which messages of a level are written. -/
def name (level : Level) : String :=
  if level = debug then "DEBUG"
  else if level = info then "INFO"
  else if level = warning then "WARNING"
  else if level = error then "ERROR"
  else "UNKNOWN"

/-- The level of the given name, in any letter case. -/
def parse? (name : String) : Option Level :=
  match Ascii.lower name with
  | "debug" => some debug
  | "info" => some info
  | "warning" => some warning
  | "error" => some error
  | _ => none

end Level

/-- One message of a named logger. -/
structure Entry where
  /-- severity -/
  level : Level
  /-- name of the logger -/
  logger : String
  /-- the message -/
  message : String
  deriving DecidableEq, Repr, Inhabited

/-- An entry for an assertion: an error when the condition does not hold. -/
def assertion (logger : String) (holds : Bool) (message : String) : Option Entry :=
  if holds then none else some ⟨.error, logger, message⟩

/-- An entry for a triggered message. -/
def triggered (level : Level) (logger : String) (trigger : Bool) (message : String) : Option Entry :=
  if trigger then some ⟨level, logger, message⟩ else none

end Log

/-- A log with the text written so far. -/
structure Log where
  /-- least level that is written -/
  threshold : Log.Level := .warning
  /-- cycle shown in front of messages -/
  cycle : UInt64 := 0
  /-- number of errors so far, as a 32-bit count -/
  errors : UInt32 := 0
  /-- text written so far -/
  text : String := ""
  deriving Repr, Inhabited

namespace Log

/-- Count an entry if it is an error, and write it if it reaches the threshold. -/
def emit (log : Log) (entry : Entry) : Log :=
  { log with
    errors := if entry.level = .error then log.errors + 1 else log.errors
    text :=
      if entry.level.code < log.threshold.code then log.text
      else log.text ++ entry.level.name ++ ":" ++ entry.logger ++ ":cycle "
        ++ toString log.cycle.toNat ++ "] " ++ entry.message ++ "\n" }

/-- Add an entry.  One below the threshold is dropped at once, unless it is an error, which has to be counted. -/
def add (log : Log) (entry : Entry) : Log :=
  if entry.level.code < log.threshold.code ∧ entry.level ≠ .error then log else log.emit entry

/-- Add an entry if there is one. -/
def add? (log : Log) (entry : Option Entry) : Log :=
  match entry with
  | none => log
  | some entry => log.add entry

/-- Forget the errors counted so far. -/
def forgetErrors (log : Log) : Log := { log with errors := 0 }

/-- Dropping entries early loses none that is counted or written. -/
theorem add_eq_emit (log : Log) (entry : Entry) : log.add entry = log.emit entry := by
  unfold add
  split
  · rename_i hdropped
    unfold emit
    rw [if_neg hdropped.2, if_pos hdropped.1]
  · rfl

@[simp] theorem threshold_add (log : Log) (entry : Entry) :
    (log.add entry).threshold = log.threshold := by rw [add_eq_emit, emit]

@[simp] theorem cycle_add (log : Log) (entry : Entry) : (log.add entry).cycle = log.cycle := by
  rw [add_eq_emit, emit]

theorem errors_add (log : Log) (entry : Entry) :
    (log.add entry).errors = if entry.level = .error then log.errors + 1 else log.errors := by
  rw [add_eq_emit, emit]

end Log

end GuardedActions
