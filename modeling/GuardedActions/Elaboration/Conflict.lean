import GuardedActions.Elaboration.Closure

/-!
# Priority order and conflicts

Transactions are ordered by priority, the higher first, and by name among equals.  Two transactions
conflict if both reach some exclusive method, or if each reaches one end of a declared conflict.  A
transaction may not reach both ends of a declared conflict, and two conflicting transactions of equal
priority may not both be always ready.
-/

set_option autoImplicit false

namespace GuardedActions.Registry

variable {σ : Type}

/-- Whether one transaction goes before another in the static order, or is the same. -/
def before (r : Registry σ) (a b : Nat) : Bool :=
  match r.action? a, r.action? b with
  | some x, some y =>
    decide (y.priority < x.priority) || (x.priority == y.priority && decide (x.name ≤ y.name))
  | _, _ => true

/-- Transactions, best priority first. -/
def staticOrder (r : Registry σ) : List Nat := r.transactions.mergeSort r.before

/-- Whether the action at a position is a method that admits one caller per cycle. -/
def isExclusive (r : Registry σ) (id : Nat) : Bool :=
  (r.method? id).any fun m => !m.nonexclusive

/-- Whether two closures share an exclusive method. -/
def shareExclusive (r : Registry σ) (a b : Mask) : Bool :=
  r.ids.any fun id => a.test id && b.test id && r.isExclusive id

/-- Whether a declared conflict has one end in each of two closures. -/
def declaredBetween (r : Registry σ) (a b : Mask) : Bool :=
  r.conflicts.any fun pair =>
    (a.test pair.1 && b.test pair.2) || (a.test pair.2 && b.test pair.1)

/-- Whether two actions are different transactions that may not run in the same cycle. -/
def conflicting (r : Registry σ) (closure : Nat → Mask) (a b : Nat) : Bool :=
  a != b && (r.transaction? a).isSome && (r.transaction? b).isSome &&
    (r.shareExclusive (closure a) (closure b) || r.declaredBetween (closure a) (closure b))

/-- For every action, the transactions it conflicts with. -/
def conflictRows (r : Registry σ) (closure : Nat → Mask) : List Mask :=
  r.ids.map fun a => Mask.ofTest r.actions.length (r.conflicting closure a)

/-- The conflict rows before any conflict is entered. -/
def emptyRows (r : Registry σ) : List Mask := r.ids.map fun _ => Mask.none r.actions.length

/-- The refusal of a transaction that reaches both ends of a declared conflict. -/
def conflictInside (r : Registry σ) (transaction : Nat) (pair : Nat × Nat) : Refusal where
  subject := r.nameOf transaction
  category := .conflictingCalls
  details := "reaches both '" ++ r.nameOf pair.1 ++ "' and '" ++ r.nameOf pair.2
    ++ "', which are declared conflicting"
  reason := "conflicting actions may not fire in the same cycle"
  solution := "split the calls across separate transactions"

/-- No transaction reaches both ends of a declared conflict between two actions. -/
def checkConflictEnds (r : Registry σ) (closure : Nat → Mask) : Except Refusal Unit :=
  let broken (t : Nat) : Option Refusal :=
    (r.conflicts.find? fun pair =>
      pair.1 != pair.2 && (closure t).test pair.1 && (closure t).test pair.2).map (r.conflictInside t)
  match r.transactions.findSome? broken with
  | none => .ok ()
  | some error => .error error

/-- Whether nothing can ever hold a transaction back but arbitration. -/
def neverHeldBack (r : Registry σ) (closure : Nat → Mask) (t : Nat) : Bool :=
  (r.transaction? t).any (fun x => x.request.isNone) &&
    (closure t).members.all fun id =>
      !((r.method? id).any fun m => m.ready.isSome || m.validator.isSome) &&
        (r.sitesOf id).all fun s => s.2.condition.isNone

/-- The first conflicting pair of equal priority, in the static order, that is always ready. -/
def findTie? (r : Registry σ) (closure : Nat → Mask) : List Nat → Option (Nat × Nat)
  | [] => none
  | a :: rest =>
    let equals := rest.takeWhile fun b =>
      ((r.action? a).map Action.priority) == ((r.action? b).map Action.priority)
    match equals.find? fun b =>
        r.conflicting closure a b && r.neverHeldBack closure a && r.neverHeldBack closure b with
    | some b => some (a, b)
    | none => findTie? r closure rest

/-- The refusal of two transactions of which one would never run. -/
def tieRefusal (r : Registry σ) (a b : Nat) : Refusal where
  subject := r.nameOf a
  category := .ambiguousPriority
  details := "conflicts with '" ++ r.nameOf b ++ "' at equal priority "
    ++ toString (((r.action? a).map Action.priority).getD 0)
  reason := "both are always ready, so one would starve"
  solution := "assign distinct priorities"

/-- No two conflicting transactions of equal priority are both always ready. -/
def checkTies (r : Registry σ) (closure : Nat → Mask) (order : List Nat) :
    Except Refusal Unit :=
  match r.findTie? closure order with
  | none => .ok ()
  | some (a, b) => .error (r.tieRefusal a b)

end GuardedActions.Registry
