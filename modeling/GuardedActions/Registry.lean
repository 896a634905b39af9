import GuardedActions.Actions
import GuardedActions.Plan

/-!
# Registries

A registry holds the actions and call sites of one domain, each known by its position, together with
the declared conflicts.  Once it has a plan its call graph is frozen and every change is a fault.
-/

set_option autoImplicit false

namespace GuardedActions

/-- The actions and calls of one domain. -/
structure Registry (σ : Type) where
  /-- which domain this is -/
  domain : Domain
  /-- actions in the order of their creation -/
  actions : List (Action σ) := []
  /-- call sites in the order of their declaration -/
  sites : List (Site σ) := []
  /-- declared conflicts -/
  conflicts : List (Nat × Nat) := []
  /-- order and conflicts found by the latest elaboration that got so far -/
  ranking : Ranking := {}
  /-- the outcome of a successful elaboration -/
  plan : Option Plan := none

namespace Registry

variable {σ : Type}

/-! ## Looking things up -/

/-- Whether the call graph is frozen. -/
def isFrozen (r : Registry σ) : Bool := r.plan.isSome

/-- The action at a position. -/
def action? (r : Registry σ) (id : Nat) : Option (Action σ) := r.actions[id]?

/-- The method at a position. -/
def method? (r : Registry σ) (id : Nat) : Option (Method σ) := (r.action? id).bind Action.method?

/-- The transaction at a position. -/
def transaction? (r : Registry σ) (id : Nat) : Option (Transaction σ) :=
  (r.action? id).bind Action.transaction?

/-- The name of the action at a position. -/
def nameOf (r : Registry σ) (id : Nat) : String := ((r.action? id).map Action.name).getD ""

/-- The position of the first action with the given name. -/
def idOf? (r : Registry σ) (name : String) : Option Nat :=
  r.actions.findIdx? fun a => a.name == name

/-- A position in this registry as a reference. -/
def ref (r : Registry σ) (id : Nat) : ActionRef := ⟨r.domain, id⟩

/-- Positions of the actions. -/
def ids (r : Registry σ) : List Nat := List.range r.actions.length

/-- Positions of the methods. -/
def methods (r : Registry σ) : List Nat := r.ids.filter fun id => (r.method? id).isSome

/-- Positions of the transactions. -/
def transactions (r : Registry σ) : List Nat := r.ids.filter fun id => (r.transaction? id).isSome

/-- The call sites with their positions. -/
def numberedSites (r : Registry σ) : List (Nat × Site σ) :=
  r.sites.zipIdx.map fun (site, id) => (id, site)

/-- The call sites that an action declared, with their positions. -/
def sitesOf (r : Registry σ) (caller : Nat) : List (Nat × Site σ) :=
  r.numberedSites.filter fun s => s.2.caller == caller

/-- The first call site from an action to a method. -/
def findSite? (r : Registry σ) (caller : Nat) (callee : ActionRef) : Option (Nat × Site σ) :=
  (r.sitesOf caller).find? fun s => s.2.callee == callee

/-- The actions that an action calls, in the order of declaration. -/
def callees (r : Registry σ) (caller : Nat) : List Nat :=
  (r.sitesOf caller).map fun s => s.2.callee.id

/-! ## Changes -/

/-- A change is allowed as long as the registry is not frozen. -/
def allow (r : Registry σ) (what : Change) : Except Fault Unit :=
  if r.isFrozen then .error (.frozen what) else .ok ()

/-- Replace the action at a position. -/
def modifyAction (r : Registry σ) (id : Nat) (f : Action σ → Action σ) : Registry σ :=
  { r with actions := r.actions.modify id f }

/-- Replace the call site at a position. -/
def modifySite (r : Registry σ) (id : Nat) (f : Site σ → Site σ) : Registry σ :=
  { r with sites := r.sites.modify id f }

/-- Append an action. -/
def push (r : Registry σ) (a : Action σ) : Registry σ := { r with actions := r.actions ++ [a] }

/-- Create a method and return its position. -/
def newMethod (r : Registry σ) (name : String) (input output : Shape) (owner : Option String) :
    Except Fault (Nat × Registry σ) := do
  r.allow (.newMethod name)
  .ok (r.actions.length, r.push ⟨name, owner, .method { input := input, output := output }⟩)

/-- Create a transaction and return its position. -/
def newTransaction (r : Registry σ) (name : String) (priority : Int) (owner : Option String) :
    Except Fault (Nat × Registry σ) := do
  r.allow (.newTransaction name)
  .ok (r.actions.length, r.push ⟨name, owner, .transaction { priority := priority }⟩)

/-- Change the method at a position. -/
def changeMethod (r : Registry σ) (id : Nat) (what : String → Change) (f : Method σ → Method σ) :
    Except Fault (Registry σ) := do
  r.allow (what (r.nameOf id))
  .ok (r.modifyAction id (Action.mapMethod f))

/-- Change the transaction at a position. -/
def changeTransaction (r : Registry σ) (id : Nat) (what : String → Change)
    (f : Transaction σ → Transaction σ) : Except Fault (Registry σ) := do
  r.allow (what (r.nameOf id))
  .ok (r.modifyAction id (Action.mapTransaction f))

/-- Set the readiness predicate of a method. -/
def defineReady (r : Registry σ) (id : Nat) (ready : Guard σ) : Except Fault (Registry σ) :=
  r.changeMethod id .readiness fun m => { m with ready := some ready }

/-- Set the body of a method. -/
def defineMethodBody (r : Registry σ) (id : Nat) (body : Record → ActionBody σ Record) :
    Except Fault (Registry σ) :=
  r.changeMethod id .defineBody fun m => { m with body := some body }

/-- Set the validator of a method. -/
def defineValidator (r : Registry σ) (id : Nat) (validator : Validator σ) : Except Fault (Registry σ) :=
  r.changeMethod id .defineValidator fun m => { m with validator := some validator }

/-- Let several callers of a method be granted in one cycle. -/
def share (r : Registry σ) (id : Nat) : Except Fault (Registry σ) :=
  r.changeMethod id .sharing fun m => { m with nonexclusive := true }

/-- Make the callers of a method supply their arguments before arbitration. -/
def demandEarly (r : Registry σ) (id : Nat) : Except Fault (Registry σ) :=
  r.changeMethod id .earlyDemand fun m => { m with early := true }

/-- Set the request predicate of a transaction. -/
def defineRequest (r : Registry σ) (id : Nat) (request : Guard σ) : Except Fault (Registry σ) :=
  r.changeTransaction id .defineRequest fun t => { t with request := some request }

/-- Set the body of a transaction. -/
def defineTransactionBody (r : Registry σ) (id : Nat) (body : ActionBody σ Unit) :
    Except Fault (Registry σ) :=
  r.changeTransaction id .defineBody fun t => { t with body := some body }

/-- Make a call conditional. -/
def defineCondition (r : Registry σ) (site : Nat) (condition : Guard σ) :
    Except Fault (Registry σ) := do
  match r.sites[site]? with
  | none => .error (.unknownName (toString site))
  | some s =>
    r.allow (.callCondition (r.nameOf s.caller))
    .ok (r.modifySite site fun s => { s with condition := some condition })

/-- Supply the arguments of a call before arbitration. -/
def supplyArguments (r : Registry σ) (site : Nat) (arguments : Supplier σ) :
    Except Fault (Registry σ) := do
  match r.sites[site]? with
  | none => .error (.unknownName (toString site))
  | some s =>
    r.allow (.callArguments (r.nameOf s.caller))
    .ok (r.modifySite site fun s => { s with arguments := some arguments })

end Registry

end GuardedActions
