import GuardedActions.Body

/-!
# Actions

A method is an action that other actions call: it has shapes, a readiness predicate, a validator of
its arguments and a body that returns a record.  A transaction is a top-level action with a request
predicate and a priority.  Every call is declared as a call site, which may be conditional and may
supply its arguments before arbitration.
-/

set_option autoImplicit false

namespace GuardedActions

/-- An action that others call. -/
structure Method (σ : Type) where
  /-- shape of the arguments -/
  input : Shape
  /-- shape of the results -/
  output : Shape
  /-- own readiness, ignoring the methods that the body calls -/
  ready : Option (Guard σ) := none
  /-- arguments that are accepted -/
  validator : Option (Validator σ) := none
  /-- what a run does -/
  body : Option (Record → ActionBody σ Record) := none
  /-- whether several callers may be granted in one cycle -/
  nonexclusive : Bool := false
  /-- whether callers were told to supply their arguments before arbitration -/
  early : Bool := false
  /-- call sites that target the method, in the order of their declaration -/
  callers : List SiteRef := []

/-- A top-level action. -/
structure Transaction (σ : Type) where
  /-- static priority, higher first -/
  priority : Int
  /-- when it wants to run -/
  request : Option (Guard σ) := none
  /-- what a run does -/
  body : Option (ActionBody σ Unit) := none

/-- What distinguishes the two kinds of action. -/
inductive Role (σ : Type) where
  /-- called by others -/
  | method (m : Method σ)
  /-- requested from outside -/
  | transaction (t : Transaction σ)

/-- A named action, possibly owned by a component. -/
structure Action (σ : Type) where
  /-- full name -/
  name : String
  /-- name of the component it belongs to -/
  owner : Option String
  /-- its kind, with the properties of that kind -/
  role : Role σ

/-- A declared call. -/
structure Site (σ : Type) where
  /-- position of the caller in the registry of the call site -/
  caller : Nat
  /-- the method called -/
  callee : ActionRef
  /-- when the call takes place, always if missing -/
  condition : Option (Guard σ) := none
  /-- the arguments, if they are known before arbitration -/
  arguments : Option (Supplier σ) := none

namespace Method

variable {σ : Type}

/-- Whether every call site must supply its arguments before arbitration. -/
def needsEarly (m : Method σ) : Bool :=
  m.early || m.validator.isSome || (m.nonexclusive && !m.input.isEmpty)

end Method

namespace Action

variable {σ : Type}

/-- The method that the action is. -/
def method? (a : Action σ) : Option (Method σ) :=
  match a.role with
  | .method m => some m
  | .transaction _ => none

/-- The transaction that the action is. -/
def transaction? (a : Action σ) : Option (Transaction σ) :=
  match a.role with
  | .method _ => none
  | .transaction t => some t

/-- Whether the action is a transaction. -/
def isTransaction (a : Action σ) : Bool := a.transaction?.isSome

/-- Static priority; methods have none and count as 0. -/
def priority (a : Action σ) : Int :=
  match a.role with
  | .method _ => 0
  | .transaction t => t.priority

/-- Whether the action has a body. -/
def isDefined (a : Action σ) : Bool :=
  match a.role with
  | .method m => m.body.isSome
  | .transaction t => t.body.isSome

/-- Change the method that the action is; a transaction stays as it is. -/
def mapMethod (f : Method σ → Method σ) (a : Action σ) : Action σ :=
  match a.role with
  | .method m => { a with role := .method (f m) }
  | .transaction _ => a

/-- Change the transaction that the action is; a method stays as it is. -/
def mapTransaction (f : Transaction σ → Transaction σ) (a : Action σ) : Action σ :=
  match a.role with
  | .method _ => a
  | .transaction t => { a with role := .transaction (f t) }

/-- The directory entry of an action. -/
def listing (ref : ActionRef) (a : Action σ) : Listing :=
  ⟨ref, a.name, a.method?.map fun m => (m.input, m.output)⟩

end Action

end GuardedActions
