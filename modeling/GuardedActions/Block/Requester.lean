import GuardedActions.Block

/-!
# Requesters

A requester lets a testbench drive a method.  It has one transaction, which calls the target with the
arguments that the testbench gave: once for every call that it is asked for, or in every cycle while it
is enabled.  It keeps the results of the last call that was granted.
-/

set_option autoImplicit false

namespace GuardedActions

/-- A driver of one method. -/
structure Requester where
  /-- name of the component -/
  name : String
  /-- the method that is driven -/
  target : ActionRef
  /-- name of that method -/
  targetName : String
  /-- shape of its arguments -/
  input : Shape
  /-- arguments of the next call -/
  arguments : Record
  /-- results of the last granted call -/
  outputs : Record
  /-- whether a single call is asked for -/
  armed : Bool := false
  /-- whether a call is asked for in every cycle -/
  enabled : Bool := false
  deriving DecidableEq, Repr

namespace Requester

/-- A requester that asks for nothing. -/
def new (name : String) (target : ActionRef) (targetName : String) (input output : Shape) :
    Requester where
  name := name
  target := target
  targetName := targetName
  input := input
  arguments := Record.zero input
  outputs := Record.zero output

/-- Whether the requester asks for a call. -/
def wantsCall (x : Requester) : Bool := x.armed || x.enabled

/-- Arguments of the shape that the target takes. -/
def acceptArguments (x : Requester) (args : Record) : Except Fault Unit :=
  if args.shape = x.input then .ok () else .error (.requesterArguments x.name x.targetName)

/-- Ask for a single call, which stays asked for until it is granted. -/
def call (x : Requester) (args : Record) : Except Fault Requester := do
  x.acceptArguments args
  .ok { x with arguments := args, armed := true }

/-- Ask for a call in every cycle. -/
def enable (x : Requester) (args : Record) : Except Fault Requester := do
  x.acceptArguments args
  .ok { x with arguments := args, enabled := true }

/-- Ask for nothing any more. -/
def disable (x : Requester) : Requester := { x with enabled := false, armed := false }

/-- A granted call returned. -/
def finish (x : Requester) (outputs : Record) : Requester := { x with outputs := outputs, armed := false }

variable {σ : Type}

/-- Full name of the transaction of a requester. -/
def transactionName (name : String) : String := Block.fullName name "call"

/-- The transaction of a requester at a place. -/
def transaction (place : Place σ Requester) (x : Requester) (priority : Int) : Transaction σ where
  priority := priority
  request := some fun view => do .ok (← place.find x.name view.state).wantsCall
  body := some do
    let result ← Body.ask (.perform x.target none)
    Body.step fun view => place.change x.name (fun x => .ok ((), x.finish result)) view.state

/-- Add a requester at a place to a machine, and return the position of its transaction. -/
def install (place : Place σ Requester) (x : Requester) (priority : Int) (m : Machine σ) :
    Except Fault (Nat × Machine σ) := do
  let m ← m.addPart
    { name := x.name, elements := [], commit := fun state => state, reset := fun state => state }
  let id := m.design.main.actions.length
  let action : Action σ :=
    ⟨transactionName x.name, some x.name, .transaction (x.transaction place priority)⟩
  let design := { m.design with main := m.design.main.push action }
  let (site, design) ← design.declareCall ⟨.main, id⟩ x.target
  let main ← design.main.supplyArguments site fun view => do
    .ok (← place.find x.name view.state).arguments
  .ok (id, { m with design := { design with main := main } })

end Requester

end GuardedActions
