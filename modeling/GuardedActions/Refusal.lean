/-!
# Why a design was refused

A refusal names its subject and a category, and may add details, a reason and a way out.  Its text
holds the parts that are present, in that order.
-/

set_option autoImplicit false

namespace GuardedActions

namespace Refusal

/-- The rule of a well-formed design that was broken. -/
inductive Category where
  /-- two actions share a name -/
  | duplicateName
  /-- a method reaches itself through calls -/
  | cyclicCallGraph
  /-- a method would run more than once for one transaction -/
  | multipleCalls
  /-- a transaction reaches two actions declared to conflict -/
  | conflictingCalls
  /-- an action has no body -/
  | missingDefinition
  /-- two transactions that always compete have equal priority -/
  | ambiguousPriority
  /-- a call site breaks a rule of its callee -/
  | invalidCallSite
  /-- the design is elaborated already -/
  | alreadyElaborated
  /-- described by the refusal's own label -/
  | custom
  /-- a category that has no description -/
  | unknown
  deriving DecidableEq, Repr, Inhabited

namespace Category

/-- The categories in their numbering; a number outside it has no description. -/
def ofCode (code : Int) : Category :=
  match code with
  | 0 => .duplicateName
  | 1 => .cyclicCallGraph
  | 2 => .multipleCalls
  | 3 => .conflictingCalls
  | 4 => .missingDefinition
  | 5 => .ambiguousPriority
  | 6 => .invalidCallSite
  | 7 => .alreadyElaborated
  | 8 => .custom
  | _ => .unknown

/-- The description of a category; `label` describes a custom one. -/
def text (label : String) : Category → String
  | .duplicateName => "duplicate name"
  | .cyclicCallGraph => "cyclic call graph"
  | .multipleCalls => "multiple calls"
  | .conflictingCalls => "conflicting calls"
  | .missingDefinition => "missing definition"
  | .ambiguousPriority => "ambiguous priority"
  | .invalidCallSite => "invalid call site"
  | .alreadyElaborated => "already elaborated"
  | .custom => label
  | .unknown => "unknown error"

end Category

end Refusal

/-- A refused design: what was refused, by which rule, and what to do about it. -/
structure Refusal where
  /-- name of the action, or of the part of the library, that is at fault -/
  subject : String
  /-- the broken rule -/
  category : Refusal.Category := .custom
  /-- description used by a custom category -/
  label : String := ""
  /-- what was found -/
  details : String := ""
  /-- why it is not allowed -/
  reason : String := ""
  /-- how to mend it -/
  solution : String := ""
  deriving DecidableEq, Repr, Inhabited

namespace Refusal

/-- A sentence that is left out when it says nothing. -/
def clause (lead content : String) : String :=
  if content = "" then "" else lead ++ content

/-- Make the category a custom one with the given label. -/
def withLabel (e : Refusal) (label : String) : Refusal :=
  { e with category := .custom, label := label }

/-- The text of a refusal. -/
def message (e : Refusal) : String :=
  "[" ++ e.subject ++ "] Elaboration failed - " ++ e.category.text e.label
    ++ clause ": " e.details ++ clause ". Reason: " e.reason ++ clause ". Solution: " e.solution

@[simp] theorem clause_empty (lead : String) : clause lead "" = "" := by simp [clause]

end Refusal

end GuardedActions
