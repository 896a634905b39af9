import GuardedActions.Elaboration
import GuardedActions.Schedule

/-!
# Machines

A machine is a design together with the simulated state, the components that take part in the clock
edge, the cycle counter, the last executed schedule and the journal.  The journal is written and
never read by what is simulated.
-/

set_option autoImplicit false

namespace GuardedActions

/-- A component as the clock sees it. -/
structure Part (σ : Type) where
  /-- name of the component -/
  name : String
  /-- names of its state elements, the owner in front -/
  elements : List String
  /-- the clock edge of its elements -/
  commit : σ → σ
  /-- back to the initial values of its elements -/
  reset : σ → σ
  /-- logic that runs after all bodies of a cycle -/
  hook : Option (Hook σ) := none

/-- A design with its state. -/
structure Machine (σ : Type) where
  /-- actions and calls -/
  design : Design σ := {}
  /-- components in the order of their creation -/
  parts : List (Part σ) := []
  /-- simulated state -/
  state : σ
  /-- number of the current cycle -/
  cycle : UInt64 := 0
  /-- the schedule executed last -/
  last : Option Schedule := none
  /-- what was told to the outside -/
  journal : Journal := {}

namespace Machine

variable {σ : Type}

/-! ## Looking -/

/-- The schedule executed last, the empty one before the first. -/
def latest (m : Machine σ) : Schedule := m.last.getD {}

/-- Whether the last executed schedule grants an action. -/
def grants (m : Machine σ) (ref : ActionRef) : Bool :=
  ref.domain == .main && m.last.any fun s => s.grants ref.id

/-- The positions of the call sites that target a method, in the order of their declaration. -/
def callersOf (m : Machine σ) (ref : ActionRef) : List Nat :=
  ((m.design.method? ref).map fun x => x.callers.map SiteRef.id).getD []

/-- The early arguments that wait for a method while the given call sites are active. -/
def pendingWith (m : Machine σ) (active : Mask) (early : List (Option Record)) (ref : ActionRef) :
    List Record :=
  Schedule.pendingAt active early (m.callersOf ref)

/-- The early arguments that waited for a method in the last executed schedule. -/
def pending (m : Machine σ) (ref : ActionRef) : List Record :=
  m.pendingWith m.latest.activeSites m.latest.early ref

/-- The surroundings of a body outside of scheduling. -/
def scene (m : Machine σ) (actor : Option (ActionRef × String)) : Scene where
  cycle := m.cycle
  actor := actor
  lookup := m.design.lookup
  granted := m.grants
  pending := m.pending

/-- What a predicate sees outside of scheduling. -/
def view (m : Machine σ) : View σ := ⟨m.state, m.scene none⟩

/-- What a predicate sees while a schedule is being made. -/
def viewWith (m : Machine σ) (active : Mask) (early : List (Option Record)) : View σ :=
  ⟨m.state, { m.scene none with pending := m.pendingWith active early }⟩

/-! ## Elaborating -/

/-- Elaborate the design of the machine. -/
def elaborate (m : Machine σ) : Machine σ × Except Refusal Unit :=
  let (design, result) := m.design.elaborate
  ({ m with design := design }, result)

/-- Whether the design is elaborated. -/
def isFrozen (m : Machine σ) : Bool := m.design.main.isFrozen

/-! ## The clock edge -/

/-- Add a component. -/
def addPart (m : Machine σ) (part : Part σ) : Except Fault (Machine σ) := do
  m.design.main.allow (.newComponent part.name)
  .ok { m with parts := m.parts ++ [part] }

/-- Commit every component and go on to the next cycle. -/
def commit (m : Machine σ) : Machine σ :=
  { m with state := m.parts.foldl (fun state part => part.commit state) m.state
           cycle := m.cycle + 1 }

/-- Put every component and the cycle counter back to the start. -/
def reset (m : Machine σ) : Machine σ :=
  { m with state := m.parts.foldl (fun state part => part.reset state) m.state
           cycle := 0
           last := none }

/-- Change the journal. -/
def mapJournal (m : Machine σ) (f : Journal → Journal) : Machine σ :=
  { m with journal := f m.journal }

end Machine

end GuardedActions
