import GuardedActions.Machine

/-!
# Activation

The first phase of scheduling.  Starting from the transactions whose request predicate holds, the
calls whose condition holds become active and their callees requested.  The condition and the early
arguments of a call site are evaluated at most once per cycle.
-/

set_option autoImplicit false

namespace GuardedActions

/-- The part of a schedule that activation fills in, with the actions it dealt with. -/
structure Activation where
  /-- actions requested so far -/
  requested : Mask
  /-- call sites found active so far -/
  active : Mask
  /-- early arguments supplied so far -/
  early : List (Option Record)
  /-- actions whose call sites were looked at -/
  expanded : Mask
  deriving DecidableEq, Repr, Inhabited

namespace Activation

/-- Nothing is active. -/
def start (actions sites : Nat) : Activation :=
  ⟨Mask.none actions, Mask.none sites, List.replicate sites none, Mask.none actions⟩

/-- A call site becomes active. -/
def activate (a : Activation) (site : Nat) : Activation := { a with active := a.active.insert site }

/-- A call site supplies its arguments. -/
def supply (a : Activation) (site : Nat) (args : Record) : Activation :=
  { a with early := a.early.set site (some args) }

/-- An action is requested. -/
def request (a : Activation) (action : Nat) : Activation :=
  { a with requested := a.requested.insert action }

/-- The call sites of an action are looked at. -/
def expand (a : Activation) (action : Nat) : Activation :=
  { a with expanded := a.expanded.insert action }

end Activation

namespace Machine

variable {σ : Type}

/-- Nesting of calls that no elaborated design exceeds. -/
def callDepth (m : Machine σ) : Nat := m.design.main.actions.length + 1

/-- Make a call site active if its condition holds, and evaluate its early arguments.  The second
component tells whether it did. -/
def activateSite (m : Machine σ) (id : Nat) (site : Site σ) (a : Activation) :
    Except Fault (Activation × Bool) := do
  if ← Guard.holds site.condition (m.viewWith a.active a.early) then
    let a := a.activate id
    match site.arguments with
    | none => .ok (a.request site.callee.id, true)
    | some supplier =>
      let args ← supplier (m.viewWith a.active a.early)
      if (m.design.method? site.callee).all fun callee => args.shape = callee.input then
        .ok ((a.supply id args).request site.callee.id, true)
      else
        .error (.call (m.design.main.nameOf site.caller) (m.design.nameOf site.callee) .earlyShape)
  else .ok (a, false)

/-- Look at the call sites of an action, and in turn at those of the methods that become requested.
The fuel bounds the nesting of calls. -/
def activateFrom (m : Machine σ) :
    (fuel : Nat) → (action : Nat) → Activation → Except Fault Activation
  | 0, _, _ => .error .nestingLimit
  | fuel + 1, action, a =>
    if a.expanded.test action then .ok a
    else
      (m.design.main.sitesOf action).foldlM
        (fun a s => do
          let (a, active) ← m.activateSite s.1 s.2 a
          if active then m.activateFrom fuel s.2.callee.id a else .ok a)
        (a.expand action)

/-- Activate a transaction if its request predicate holds. -/
def activateTransaction (m : Machine σ) (a : Activation) (t : Nat) : Except Fault Activation := do
  if ← Guard.holds ((m.design.main.transaction? t).bind Transaction.request)
      (m.viewWith a.active a.early) then
    m.activateFrom m.callDepth t (a.request t)
  else .ok a

/-- Activate all requesting transactions, best priority first. -/
def activateAll (m : Machine σ) (order : List Nat) : Except Fault Activation :=
  order.foldlM m.activateTransaction
    (Activation.start m.design.main.actions.length m.design.main.sites.length)

end Machine

end GuardedActions
