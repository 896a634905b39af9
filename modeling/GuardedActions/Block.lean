import GuardedActions.Machine

/-!
# Blocks

A block is a component given by what it does to a state of its own: methods, internal transactions,
combinational logic and the behaviour of its state elements.  A place says where in the state of a
machine that state is kept; installing a block at a place registers its actions.
-/

set_option autoImplicit false

namespace GuardedActions

/-- A part of a state: how to find it, and how to put back a new value of it. -/
structure Place (σ τ : Type) where
  /-- the part, if it is there -/
  get : σ → Option τ
  /-- replace the part; nothing happens if it is not there -/
  put : σ → τ → σ
  /-- what was put is found again -/
  get_put : ∀ state old new, get state = some old → get (put state new) = some new

namespace Place

variable {σ τ α : Type}

/-- The part, or a fault that names what is missing. -/
def find (place : Place σ τ) (name : String) (state : σ) : Except Fault τ :=
  match place.get state with
  | some x => .ok x
  | none => .error (.unknownName name)

/-- Change the part if it is there. -/
def modify (place : Place σ τ) (f : τ → τ) (state : σ) : σ :=
  match place.get state with
  | some x => place.put state (f x)
  | none => state

/-- Run a change of the part on the whole state. -/
def change (place : Place σ τ) (name : String) (f : τ → Except Fault (α × τ)) (state : σ) :
    Except Fault (α × σ) := do
  let (a, x) ← f (← place.find name state)
  .ok (a, place.put state x)

end Place

/-- A method of a block. -/
structure Port (σ τ : Type) where
  /-- name within the block -/
  name : String
  /-- shape of the arguments -/
  input : Shape := Shape.empty
  /-- shape of the results -/
  output : Shape := Shape.empty
  /-- readiness -/
  ready : Option (View σ → τ → Except Fault Bool) := none
  /-- accepted arguments -/
  validator : Option (View σ → τ → Record → Except Fault Bool) := none
  /-- what a run returns and does to the state of the block -/
  body : View σ → τ → Record → Except Fault (Record × τ)
  /-- whether several callers may be granted in one cycle -/
  nonexclusive : Bool := false

/-- An internal transaction of a block. -/
structure Job (σ τ : Type) where
  /-- name within the block -/
  name : String
  /-- static priority -/
  priority : Int := 0
  /-- when it wants to run -/
  request : View σ → τ → Except Fault Bool
  /-- what a run does to the state of the block -/
  body : View σ → τ → Except Fault τ

/-- A component with a state of its own. -/
structure Block (σ τ : Type) where
  /-- name of the component -/
  name : String
  /-- names of its state elements -/
  elements : List String
  /-- methods in the order of their creation -/
  ports : List (Port σ τ)
  /-- internal transactions, created after the methods -/
  jobs : List (Job σ τ) := []
  /-- combinational logic -/
  hook : Option (View σ → τ → Except Fault τ) := none
  /-- clock edge -/
  commit : τ → τ
  /-- back to the initial values -/
  reset : τ → τ

namespace Port

variable {σ τ : Type}

/-- The readiness predicate of the method, for a block at a place. -/
def guard (place : Place σ τ) (block : String) (ready : View σ → τ → Except Fault Bool) : Guard σ :=
  fun view => do ready view (← place.find block view.state)

/-- The validator of the method, for a block at a place. -/
def validatorAt (place : Place σ τ) (block : String)
    (validator : View σ → τ → Record → Except Fault Bool) : Validator σ :=
  fun view args => do validator view (← place.find block view.state) args

/-- The method, for a block at a place. -/
def method (place : Place σ τ) (block : String) (p : Port σ τ) : Method σ where
  input := p.input
  output := p.output
  ready := p.ready.map (guard place block)
  validator := p.validator.map (validatorAt place block)
  body := some fun args => Body.step fun view =>
    place.change block (fun x => p.body view x args) view.state
  nonexclusive := p.nonexclusive

end Port

namespace Job

variable {σ τ : Type}

/-- The transaction, for a block at a place. -/
def transaction (place : Place σ τ) (block : String) (j : Job σ τ) : Transaction σ where
  priority := j.priority
  request := some fun view => do j.request view (← place.find block view.state)
  body := some (Body.step fun view =>
    place.change block (fun x => (j.body view x).map fun x => ((), x)) view.state)

end Job

namespace Block

variable {σ τ : Type}

/-- Full name of an action or an element of a component. -/
def fullName (component name : String) : String := component ++ "." ++ name

/-- The component as the clock sees it. -/
def part (place : Place σ τ) (b : Block σ τ) : Part σ where
  name := b.name
  elements := b.elements.map (fullName b.name)
  commit := place.modify b.commit
  reset := place.modify b.reset
  hook := b.hook.map fun logic => Body.step fun view =>
    place.change b.name (fun x => (logic view x).map fun x => ((), x)) view.state

/-- The actions of the block in the order of their creation. -/
def actions (place : Place σ τ) (b : Block σ τ) : List (Action σ) :=
  (b.ports.map fun p => ⟨fullName b.name p.name, some b.name, .method (p.method place b.name)⟩) ++
    b.jobs.map fun j =>
      ⟨fullName b.name j.name, some b.name, .transaction (j.transaction place b.name)⟩

/-- Add the component and its actions to a machine. -/
def install (place : Place σ τ) (b : Block σ τ) (m : Machine σ) : Except Fault (Machine σ) := do
  let m ← m.addPart (b.part place)
  let main := m.design.main
  .ok { m with design := { m.design with
    main := { main with actions := main.actions ++ b.actions place } } }

end Block

end GuardedActions
