import GuardedActions.Registry

/-!
# Designs

A design is the pair of a main and a guest registry.  Calls may cross from one to the other: a call
site belongs to the registry of its caller, and the called method remembers it.
-/

set_option autoImplicit false

namespace GuardedActions

/-- Two registries that may name each other's actions. -/
structure Design (σ : Type) where
  /-- the registry that is elaborated and clocked -/
  main : Registry σ := { domain := .main }
  /-- a registry whose actions are only registered -/
  guest : Registry σ := { domain := .guest }

namespace Design

variable {σ : Type}

/-- The registry of a domain. -/
def registry (d : Design σ) : Domain → Registry σ
  | .main => d.main
  | .guest => d.guest

/-- Replace the registry of a domain. -/
def withRegistry (d : Design σ) (domain : Domain) (r : Registry σ) : Design σ :=
  match domain with
  | .main => { d with main := r }
  | .guest => { d with guest := r }

/-- The action that a reference denotes. -/
def action? (d : Design σ) (ref : ActionRef) : Option (Action σ) :=
  (d.registry ref.domain).action? ref.id

/-- The method that a reference denotes. -/
def method? (d : Design σ) (ref : ActionRef) : Option (Method σ) :=
  (d.action? ref).bind Action.method?

/-- The name of the action that a reference denotes. -/
def nameOf (d : Design σ) (ref : ActionRef) : String := (d.registry ref.domain).nameOf ref.id

/-- The first action of a domain with the given name. -/
def lookup (d : Design σ) (domain : Domain) (name : String) : Option Listing := do
  let id ← (d.registry domain).idOf? name
  let a ← (d.registry domain).action? id
  return a.listing ⟨domain, id⟩

/-- Declare a call from one action to a method and return the position of the call site in the
caller's registry. -/
def declareCall (d : Design σ) (caller callee : ActionRef) : Except Fault (Nat × Design σ) := do
  let r := d.registry caller.domain
  r.allow (.newCall (r.nameOf caller.id))
  let id := r.sites.length
  let d := d.withRegistry caller.domain { r with sites := r.sites ++ [⟨caller.id, callee, none, none⟩] }
  let target := d.registry callee.domain
  let remember (m : Method σ) : Method σ := { m with callers := m.callers ++ [⟨caller.domain, id⟩] }
  .ok (id, d.withRegistry callee.domain (target.modifyAction callee.id (Action.mapMethod remember)))

/-- Declare that two actions of the main registry may not run in the same cycle. -/
def declareConflict (d : Design σ) (a b : ActionRef) : Except Fault (Design σ) := do
  d.main.allow .newConflict
  if a.domain = .main ∧ b.domain = .main then
    .ok { d with main := { d.main with conflicts := d.main.conflicts ++ [(a.id, b.id)] } }
  else
    .error (.conflictAcross (d.nameOf a) (d.nameOf b))

@[simp] theorem registry_withRegistry (d : Design σ) (domain : Domain) (r : Registry σ) :
    (d.withRegistry domain r).registry domain = r := by
  cases domain <;> rfl

theorem registry_withRegistry_of_ne (d : Design σ) {domain other : Domain} (h : other ≠ domain)
    (r : Registry σ) : (d.withRegistry domain r).registry other = d.registry other := by
  cases domain <;> cases other <;> first | rfl | exact absurd rfl h

end Design

end GuardedActions
