import GuardedActions.Elaboration

/-!
# Registration

A design grows by registrations: new actions, properties of actions, new call sites, properties of
call sites, and declared conflicts.  A registration names the actions and call sites it is about, and
is a fault if there are none of that name.  A design is built if registrations and attempts to
elaborate, in any order, lead to it from the empty design.
-/

set_option autoImplicit false

namespace GuardedActions

/-- A property of a method that can be set. -/
inductive MethodSetting (σ : Type) where
  /-- the readiness predicate -/
  | ready (guard : Guard σ)
  /-- the body -/
  | body (body : Record → ActionBody σ Record)
  /-- the validator of the arguments -/
  | validator (validator : Validator σ)
  /-- several callers may be granted in one cycle -/
  | shared
  /-- callers supply their arguments before arbitration -/
  | early

/-- A property of a transaction that can be set. -/
inductive TransactionSetting (σ : Type) where
  /-- the request predicate -/
  | request (guard : Guard σ)
  /-- the body -/
  | body (body : ActionBody σ Unit)

/-- A property of a call site that can be set. -/
inductive CallSetting (σ : Type) where
  /-- the condition -/
  | condition (guard : Guard σ)
  /-- the arguments, known before arbitration -/
  | arguments (supplier : Supplier σ)

/-- One step in the making of a design. -/
inductive Registration (σ : Type) where
  /-- create a method -/
  | newMethod (domain : Domain) (name : String) (input output : Shape) (owner : Option String)
  /-- create a transaction -/
  | newTransaction (domain : Domain) (name : String) (priority : Int) (owner : Option String)
  /-- set a property of a method -/
  | setMethod (method : ActionRef) (setting : MethodSetting σ)
  /-- set a property of a transaction -/
  | setTransaction (transaction : ActionRef) (setting : TransactionSetting σ)
  /-- declare a call -/
  | newCall (caller callee : ActionRef)
  /-- set a property of a call site -/
  | setCall (site : SiteRef) (setting : CallSetting σ)
  /-- declare a conflict -/
  | newConflict (first second : ActionRef)

namespace Registry

variable {σ : Type}

/-- Set a property of the method at a position. -/
def setMethod (r : Registry σ) (id : Nat) : MethodSetting σ → Except Fault (Registry σ)
  | .ready guard => r.defineReady id guard
  | .body body => r.defineMethodBody id body
  | .validator validator => r.defineValidator id validator
  | .shared => r.share id
  | .early => r.demandEarly id

/-- Set a property of the transaction at a position. -/
def setTransaction (r : Registry σ) (id : Nat) : TransactionSetting σ → Except Fault (Registry σ)
  | .request guard => r.defineRequest id guard
  | .body body => r.defineTransactionBody id body

/-- Set a property of the call site at a position. -/
def setCall (r : Registry σ) (site : Nat) : CallSetting σ → Except Fault (Registry σ)
  | .condition guard => r.defineCondition site guard
  | .arguments supplier => r.supplyArguments site supplier

end Registry

namespace Design

variable {σ : Type}

/-- Change the registry of a domain. -/
def changeRegistry (d : Design σ) (domain : Domain) (f : Registry σ → Except Fault (Registry σ)) :
    Except Fault (Design σ) := do
  let r ← f (d.registry domain)
  .ok (d.withRegistry domain r)

/-- Take a step in the making of a design. -/
def register (d : Design σ) : Registration σ → Except Fault (Design σ)
  | .newMethod domain name input output owner =>
    d.changeRegistry domain fun r => (r.newMethod name input output owner).map Prod.snd
  | .newTransaction domain name priority owner =>
    d.changeRegistry domain fun r => (r.newTransaction name priority owner).map Prod.snd
  | .setMethod method setting =>
    if (d.method? method).isSome then
      d.changeRegistry method.domain fun r => r.setMethod method.id setting
    else .error (.unknownName (d.nameOf method))
  | .setTransaction transaction setting =>
    if ((d.action? transaction).bind Action.transaction?).isSome then
      d.changeRegistry transaction.domain fun r => r.setTransaction transaction.id setting
    else .error (.unknownName (d.nameOf transaction))
  | .newCall caller callee =>
    if (d.action? caller).isSome && (d.method? callee).isSome then
      (d.declareCall caller callee).map Prod.snd
    else .error (.unknownName (d.nameOf callee))
  | .setCall site setting => d.changeRegistry site.domain fun r => r.setCall site.id setting
  | .newConflict first second =>
    if (d.action? first).isSome && (d.action? second).isSome then d.declareConflict first second
    else .error (.unknownName (d.nameOf second))

/-- Registrations and attempts to elaborate lead to the design. -/
inductive Built : Design σ → Prop where
  /-- nothing is registered -/
  | empty : Built {}
  /-- one more registration -/
  | register {d d' : Design σ} {step : Registration σ} (before : Built d)
      (done : d.register step = .ok d') : Built d'
  /-- an attempt to elaborate, whatever its outcome -/
  | elaborate {d : Design σ} (before : Built d) : Built d.elaborate.1

/-- Every call of a method of the main registry is declared by an action of the main registry. -/
def OwnCallers (d : Design σ) : Prop :=
  ∀ id x, d.main.method? id = some x → ∀ c ∈ x.callers, c.domain = .main

/-- The design that a list of registrations makes, up to the first one that is a fault. -/
def registerAll : List (Registration σ) → Design σ → Design σ
  | [], d => d
  | step :: rest, d =>
    match d.register step with
    | .ok d' => registerAll rest d'
    | .error _ => d

theorem Built.registerAll {d : Design σ} (steps : List (Registration σ)) (built : d.Built) :
    (d.registerAll steps).Built := by
  induction steps generalizing d with
  | nil => exact built
  | cons step rest ih =>
    unfold Design.registerAll
    split
    · rename_i d' hd'
      exact ih (.register built hd')
    · exact built

end Design

end GuardedActions
