import GuardedActions.Log

/-!
# Journal

Everything that a simulation tells the outside world besides its state: the log, the notes that
bodies and observers leave, and the console text of the session.  Nothing inside the simulated
system reads a journal.
-/

set_option autoImplicit false

namespace GuardedActions

/-- What was told so far. -/
structure Journal where
  /-- log messages and error count -/
  log : Log := {}
  /-- notes in order -/
  notes : Array String := #[]
  /-- console text -/
  console : String := ""
  deriving Repr, Inhabited

namespace Journal

/-- Leave a note. -/
def note (j : Journal) (text : String) : Journal := { j with notes := j.notes.push text }

/-- Leave several notes in order. -/
def noteAll (j : Journal) (texts : List String) : Journal := texts.foldl note j

/-- Log an entry. -/
def report (j : Journal) (entry : Log.Entry) : Journal := { j with log := j.log.add entry }

/-- Write a line to the console. -/
def print (j : Journal) (line : String) : Journal :=
  { j with console := j.console ++ line ++ "\n" }

/-- Forget the texts, keeping the threshold, the cycle and the error count of the log. -/
def clearTexts (j : Journal) : Journal :=
  { j with log := { j.log with text := "" }, notes := #[], console := "" }

@[simp] theorem log_note (j : Journal) (text : String) : (j.note text).log = j.log := rfl

@[simp] theorem log_print (j : Journal) (line : String) : (j.print line).log = j.log := rfl

end Journal

end GuardedActions
