import GuardedActions.Elaboration.Cycle

/-!
# Closures

The closure of a transaction is the set of actions that it reaches through calls.  It is computed by
following calls from a stack of actions, and a method that is met twice is refused: it would run
twice for one transaction.
-/

set_option autoImplicit false

namespace GuardedActions

namespace Closure

/-- Why the computation of a closure stopped early. -/
inductive Stop where
  /-- a method that two paths reach -/
  | again (method : Nat)
  /-- more actions than the fuel allows -/
  | exhausted
  deriving DecidableEq, Repr, Inhabited

/-- Mark the callees of an action and put them on the stack, the last on top. -/
def expand : (callees : List Nat) → (stack : List Nat) → (reached : Mask) →
    Except Stop (List Nat × Mask)
  | [], stack, reached => .ok (stack, reached)
  | callee :: rest, stack, reached =>
    if reached.test callee then .error (.again callee)
    else expand rest (callee :: stack) (reached.insert callee)

/-- Take actions off the stack until it is empty. -/
def follow (next : Nat → List Nat) : (fuel : Nat) → (stack : List Nat) → (reached : Mask) →
    Except Stop Mask
  | _, [], reached => .ok reached
  | 0, _ :: _, _ => .error .exhausted
  | fuel + 1, action :: stack, reached =>
    match expand (next action) stack reached with
    | .error stop => .error stop
    | .ok (stack, reached) => follow next fuel stack reached

/-- The closure of an action in a graph of `size` actions. -/
def of (next : Nat → List Nat) (size action : Nat) : Except Stop Mask :=
  follow next size [action] ((Mask.none size).insert action)

end Closure

namespace Registry

variable {σ : Type}

/-- The refusal of a method that a transaction reaches twice. -/
def repeatedPath (r : Registry σ) (transaction method : Nat) : Refusal where
  subject := r.nameOf transaction
  category := .multipleCalls
  details := "reaches '" ++ r.nameOf method ++ "' through more than one path"
  reason := "a method runs at most once per transaction"
  solution := "call the method from a single place"

/-- The closure of a transaction, nothing for a method. -/
def closureOf (r : Registry σ) (id : Nat) : Except Refusal Mask :=
  if (r.transaction? id).isSome then
    match Closure.of r.callees r.actions.length id with
    | .ok reached => .ok reached
    | .error (.again method) => .error (r.repeatedPath id method)
    | .error .exhausted => .error searchExhausted
  else .ok (Mask.none r.actions.length)

/-- The closures of all transactions. -/
def closures (r : Registry σ) : Except Refusal (List Mask) := r.ids.mapM r.closureOf

end Registry

end GuardedActions
