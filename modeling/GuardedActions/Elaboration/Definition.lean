import GuardedActions.Design

/-!
# Checks of single actions and call sites

Names are distinct, every action has a body, and every call site respects its callee: the callee
belongs to the same registry, no earlier call site of the caller targets it, and arguments that it
needs before arbitration are supplied.  Each check reports the first offender.
-/

set_option autoImplicit false

namespace GuardedActions.Registry

variable {σ : Type}

/-- The first name that an earlier entry of the list already has. -/
def firstRepeated : List String → (seen : List String) → Option String
  | [], _ => none
  | name :: rest, seen => if name ∈ seen then some name else firstRepeated rest (name :: seen)

/-- The names of the actions are distinct. -/
def checkNames (r : Registry σ) : Except Refusal Unit :=
  match firstRepeated (r.actions.map Action.name) [] with
  | none => .ok ()
  | some name => .error
      { subject := name
        category := .duplicateName
        details := "name '" ++ name ++ "' is used by more than one action"
        solution := "give every method and transaction a unique name" }

/-- Every action has a body. -/
def checkBodies (r : Registry σ) : Except Refusal Unit :=
  match r.actions.find? fun a => !a.isDefined with
  | none => .ok ()
  | some a => .error
      { subject := a.name
        category := .missingDefinition
        details := if a.isTransaction then "transaction has no body" else "method has no body"
        solution := "call setBody() before elaboration" }

/-- The refusal of a call to a method of another registry. -/
def foreignCallee (caller callee : String) : Refusal where
  subject := caller
  category := .invalidCallSite
  details := "calls '" ++ callee ++ "' owned by a different manager"

/-- The refusal of a second call to the same method. -/
def repeatedCallee (caller callee : String) : Refusal where
  subject := caller
  category := .multipleCalls
  details := "declares more than one call to '" ++ callee ++ "'"
  reason := "a method runs at most once per cycle"
  solution := "merge the calls into a single call site"

/-- The refusal of arguments that come too late. -/
def lateArguments (caller callee : String) : Refusal where
  subject := caller
  category := .invalidCallSite
  details := "call to '" ++ callee ++ "' does not supply early arguments"
  reason := "the callee inspects its arguments before arbitration"
  solution := "use withArguments() on the call site"

end GuardedActions.Registry

namespace GuardedActions.Design

variable {σ : Type}

/-- What is wrong with one call site of the main registry, if anything. -/
def siteFlaw? (d : Design σ) (id : Nat) (site : Site σ) : Option Refusal :=
  let caller := d.main.nameOf site.caller
  let callee := d.nameOf site.callee
  if site.callee.domain ≠ .main then
    some (Registry.foreignCallee caller callee)
  else if (d.main.sitesOf site.caller).any fun s => decide (s.1 < id) && s.2.callee == site.callee then
    some (Registry.repeatedCallee caller callee)
  else if (d.main.method? site.callee.id).any Method.needsEarly && site.arguments.isNone then
    some (Registry.lateArguments caller callee)
  else none

/-- Every call site of the main registry respects its callee. -/
def checkSites (d : Design σ) : Except Refusal Unit :=
  match d.main.numberedSites.findSome? fun s => d.siteFlaw? s.1 s.2 with
  | none => .ok ()
  | some error => .error error

end GuardedActions.Design
