import GuardedActions.Mask
import GuardedActions.Record

/-!
# Schedules

The scheduling decision for one cycle: what is requested, what could run, and what is granted.
Actions and call sites are known by their positions.
-/

set_option autoImplicit false

namespace GuardedActions

/-- What drives an action: the arguments of a call site, or nothing.  Nothing is written as a negative
number; scheduling writes -1, and an edited schedule that has another one is a different schedule. -/
inductive Driver where
  /-- the arguments of a call site -/
  | site (id : Nat)
  /-- nothing, written as the number `-(mark + 1)` -/
  | nothing (mark : Nat)
  deriving DecidableEq, Repr, Inhabited

namespace Driver

/-- What a number stands for. -/
def ofInt : Int → Driver
  | .ofNat id => .site id
  | .negSucc mark => .nothing mark

/-- The call site that scheduling found; if it found none, what is written as -1. -/
def ofSite? : Option Nat → Driver
  | some id => .site id
  | none => .nothing 0

/-- The call site, if there is one. -/
def site? : Driver → Option Nat
  | .site id => some id
  | .nothing _ => none

@[simp] theorem site?_ofSite? (id : Option Nat) : (ofSite? id).site? = id := by cases id <;> rfl

end Driver

/-- The decision for one cycle. -/
structure Schedule where
  /-- the cycle it was made for -/
  cycle : UInt64 := 0
  /-- transactions that want to run, and methods called by an active call of a requested action -/
  requested : Mask := Mask.none 0
  /-- requested actions whose needs are met -/
  runnable : Mask := Mask.none 0
  /-- actions that run -/
  granted : Mask := Mask.none 0
  /-- call sites whose condition holds and whose caller is requested -/
  activeSites : Mask := Mask.none 0
  /-- active call sites of granted actions -/
  grantedSites : Mask := Mask.none 0
  /-- for every action, what drives it: a call site for a granted method, otherwise nothing -/
  selected : List Driver := []
  /-- for every call site, the arguments it supplied before arbitration -/
  early : List (Option Record) := []
  deriving DecidableEq, Repr, Inhabited

namespace Schedule

/-- Whether an action is requested. -/
def requests (s : Schedule) (action : Nat) : Bool := s.requested.test action

/-- Whether an action could run. -/
def couldRun (s : Schedule) (action : Nat) : Bool := s.runnable.test action

/-- Whether an action runs. -/
def grants (s : Schedule) (action : Nat) : Bool := s.granted.test action

/-- The early arguments of a call site. -/
def earlyOf (s : Schedule) (site : Nat) : Option Record := s.early[site]?.join

/-- The call site that drives a method. -/
def selectedOf (s : Schedule) (method : Nat) : Option Nat := s.selected[method]?.bind Driver.site?

/-- The early arguments of the active ones among some call sites, in order. -/
def pendingAt (active : Mask) (early : List (Option Record)) (sites : List Nat) : List Record :=
  sites.filterMap fun site => if active.test site then early[site]?.join else none

end Schedule

end GuardedActions
