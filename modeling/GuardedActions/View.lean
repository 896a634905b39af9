import GuardedActions.Record

/-!
# What predicates and bodies see

Actions live in two domains: the main one, which is elaborated and clocked, and the guest one, whose
actions are only registered.  An action is referred to by its domain and its position in it.

Predicates and bodies read the simulated state and a scene: the cycle, the action that runs, the
directory of actions, the grants, and the records that wait as early arguments of a method.
-/

set_option autoImplicit false

namespace GuardedActions

/-- A registry of actions. -/
inductive Domain where
  /-- the registry that is elaborated and clocked -/
  | main
  /-- a registry that is never elaborated -/
  | guest
  deriving DecidableEq, Repr, Inhabited

/-- An action: its domain and its position there. -/
structure ActionRef where
  /-- registry of the action -/
  domain : Domain
  /-- position in that registry -/
  id : Nat
  deriving DecidableEq, Repr, Inhabited

/-- A call site: its domain and its position there. -/
structure SiteRef where
  /-- registry of the caller -/
  domain : Domain
  /-- position in that registry -/
  id : Nat
  deriving DecidableEq, Repr, Inhabited

/-- What a directory tells about an action. -/
structure Listing where
  /-- the action -/
  ref : ActionRef
  /-- its name -/
  name : String
  /-- input and output shape of a method, nothing for a transaction -/
  shapes : Option (Shape × Shape)
  deriving DecidableEq, Repr, Inhabited

/-- The surroundings in which a predicate or a body is evaluated. -/
structure Scene where
  /-- current cycle -/
  cycle : UInt64
  /-- the action on whose behalf a body runs, with its name -/
  actor : Option (ActionRef × String)
  /-- the action of a given name in a domain -/
  lookup : Domain → String → Option Listing
  /-- whether the schedule of the last executed cycle, or of the one being executed, grants an
  action -/
  granted : ActionRef → Bool
  /-- early arguments of the active calls of a method, in the schedule being made or, outside of
  scheduling, in the last executed one -/
  pending : ActionRef → List Record

/-- The simulated state and its surroundings. -/
structure View (σ : Type) where
  /-- simulated state -/
  state : σ
  /-- everything else that may be read -/
  scene : Scene

/-- A predicate on what can be seen.  It only looks: asking it changes nothing, and of the same view it
says the same whenever it is asked.  A function with a memory of its own is no guard. -/
abbrev Guard (σ : Type) : Type := View σ → Except Fault Bool

/-- Arguments computed from what can be seen.  Like a guard it only looks, and it computes the same from
the same view. -/
abbrev Supplier (σ : Type) : Type := View σ → Except Fault Record

/-- A predicate on the arguments of a call.  Like a guard it only looks, and it says the same of the same
arguments in the same view whenever it is asked. -/
abbrev Validator (σ : Type) : Type := View σ → Record → Except Fault Bool

/-- A predicate that may be missing, and then holds. -/
def Guard.holds {σ : Type} (guard : Option (Guard σ)) (view : View σ) : Except Fault Bool :=
  match guard with
  | none => .ok true
  | some g => g view

/-- A validator that may be missing, and then accepts everything. -/
def Validator.accepts {σ : Type} (validator : Option (Validator σ)) (view : View σ) (args : Record) :
    Except Fault Bool :=
  match validator with
  | none => .ok true
  | some v => v view args

@[simp] theorem Guard.holds_none {σ : Type} (view : View σ) : Guard.holds none view = .ok true := rfl

@[simp] theorem Guard.holds_some {σ : Type} (g : Guard σ) (view : View σ) :
    Guard.holds (some g) view = g view := rfl

end GuardedActions
