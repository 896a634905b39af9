import GuardedActions.Refusal
import GuardedActions.Field

/-!
# Faults

Everything that stops a simulation for good.  A fault is a cause; `Fault.message` is the only place
that words it.
-/

set_option autoImplicit false

namespace GuardedActions

/-- The two kinds of priority encoder. -/
inductive EncoderKind where
  /-- priority by absolute index -/
  | linear
  /-- priority by position inside a cyclic window -/
  | ring
  deriving DecidableEq, Repr, Inhabited

/-- The name under which an encoder reports a fault. -/
def EncoderKind.title : EncoderKind → String
  | .linear => "MultiPriorityEncoder"
  | .ring => "RingMultiPriorityEncoder"

/-- The storage that a second write in one cycle hit. -/
inductive WriteTarget where
  /-- a single register -/
  | register
  /-- one element of a register array -/
  | arrayElement (index : Nat)
  /-- a wire -/
  | wire
  deriving DecidableEq, Repr, Inhabited

/-- The words for a write target. -/
def WriteTarget.text : WriteTarget → String
  | .register => "register"
  | .arrayElement index => "register array element " ++ toString index
  | .wire => "wire"

/-- A change that a frozen design refuses. -/
inductive Change where
  /-- a new method -/
  | newMethod (name : String)
  /-- a new transaction -/
  | newTransaction (name : String)
  /-- a new component -/
  | newComponent (name : String)
  /-- a new declared conflict -/
  | newConflict
  /-- a new call site of an action -/
  | newCall (action : String)
  /-- a readiness predicate -/
  | readiness (action : String)
  /-- a body -/
  | defineBody (action : String)
  /-- an argument validator -/
  | defineValidator (action : String)
  /-- leave to have several callers in one cycle -/
  | sharing (action : String)
  /-- the duty of callers to supply arguments before arbitration -/
  | earlyDemand (action : String)
  /-- a request predicate -/
  | defineRequest (action : String)
  /-- a condition on a call site -/
  | callCondition (caller : String)
  /-- early arguments of a call site -/
  | callArguments (caller : String)
  deriving DecidableEq, Repr, Inhabited

/-- The words for a refused change. -/
def Change.text : Change → String
  | .newMethod name => "create method '" ++ name ++ "'"
  | .newTransaction name => "create transaction '" ++ name ++ "'"
  | .newComponent name => "add component '" ++ name ++ "'"
  | .newConflict => "add conflict"
  | .newCall action => "add a call of '" ++ action ++ "'"
  | .readiness action => "set readiness of '" ++ action ++ "'"
  | .defineBody action => "set body of '" ++ action ++ "'"
  | .defineValidator action => "set argument validator of '" ++ action ++ "'"
  | .sharing action => "make nonexclusive of '" ++ action ++ "'"
  | .earlyDemand action => "require early arguments of '" ++ action ++ "'"
  | .defineRequest action => "set request of '" ++ action ++ "'"
  | .callCondition caller => "make call from '" ++ caller ++ "' conditional"
  | .callArguments caller => "set arguments of call from '" ++ caller ++ "'"

/-- What is wrong with one call. -/
inductive CallFault where
  /-- the caller never declared the call -/
  | undeclared
  /-- the schedule does not grant the call site -/
  | notGranted
  /-- the call site was used before in this cycle -/
  | performedTwice
  /-- explicit arguments for a call site that supplies its own -/
  | argumentsTwice
  /-- explicit arguments of another shape -/
  | argumentShape
  /-- no arguments for a callee that takes some -/
  | missingArguments
  /-- early arguments of another shape -/
  | earlyShape
  /-- a granted call site that no body used -/
  | neverPerformed
  deriving DecidableEq, Repr, Inhabited

/-- The message about a call from one action to another. -/
def CallFault.message (caller callee : String) : CallFault → String
  | .undeclared => "'" ++ caller ++ "' calls '" ++ callee ++ "' without a declared call site"
  | .notGranted =>
      "Call from '" ++ caller ++ "' to '" ++ callee ++ "' was not granted this cycle"
  | .performedTwice => "Call from '" ++ caller ++ "' to '" ++ callee ++ "' performed twice"
  | .argumentsTwice => "Call from '" ++ caller ++ "' to '" ++ callee ++ "' passes arguments twice"
  | .argumentShape =>
      "Arguments of call from '" ++ caller ++ "' do not match the input layout of '" ++ callee ++ "'"
  | .missingArguments =>
      "Call from '" ++ caller ++ "' to '" ++ callee ++ "' is missing arguments"
  | .earlyShape =>
      "Early arguments of call from '" ++ caller ++ "' do not match the input layout of '"
        ++ callee ++ "'"
  | .neverPerformed =>
      "Granted call from '" ++ caller ++ "' to '" ++ callee ++ "' was never performed"

/-- What is wrong with one run of a method. -/
inductive MethodFault where
  /-- an exclusive method was granted to several callers -/
  | grantedToMany (callers : Nat)
  /-- an exclusive method would run a second time -/
  | executedTwice
  /-- the readiness predicate does not hold when the method runs -/
  | notReady
  /-- the validator refuses the arguments when the method runs -/
  | rejected
  /-- the body returned a record of another shape -/
  | resultShape
  deriving DecidableEq, Repr, Inhabited

/-- The message about a method. -/
def MethodFault.message (method : String) : MethodFault → String
  | .grantedToMany callers =>
      "Exclusive method '" ++ method ++ "' granted to " ++ toString callers ++ " callers"
  | .executedTwice => "Exclusive method '" ++ method ++ "' executed twice"
  | .notReady => "Method '" ++ method ++ "' executed while not ready"
  | .rejected => "Method '" ++ method ++ "' rejected its arguments after being granted"
  | .resultShape => "Result of '" ++ method ++ "' does not match its output layout"

/-- What is wrong with the shape of a memory bank. -/
inductive BankFault where
  /-- no elements -/
  | noElements
  /-- elements without bits -/
  | emptyElements
  /-- a write granularity that does not divide the element width -/
  | granularity (width : Nat)
  deriving DecidableEq, Repr, Inhabited

/-- The message about a memory bank. -/
def BankFault.message (bank : String) : BankFault → String
  | .noElements => "Memory bank '" ++ bank ++ "' needs at least one element"
  | .emptyElements => "Memory bank '" ++ bank ++ "' has an empty data layout"
  | .granularity width =>
      "Memory bank '" ++ bank ++ "': granularity must divide the width " ++ toString width

/-- What is wrong with the shape of a reservation station. -/
inductive StationFault where
  /-- no entries -/
  | noEntries
  /-- reorder buffer ids of no bits, or of 64 and more -/
  | robWidth
  /-- register ids of no bits, or of 64 and more -/
  | registerWidth
  /-- data of no bits -/
  | dataWidth
  /-- more alignment bits than an address has -/
  | alignment
  deriving DecidableEq, Repr, Inhabited

/-- The complaint about a reservation station. -/
def StationFault.text : StationFault → String
  | .noEntries => "needs at least one entry"
  | .robWidth => "ROB id width must be in [1, 63]"
  | .registerWidth => "register id width must be in [1, 63]"
  | .dataWidth => "data width must be positive"
  | .alignment => "alignment must be narrower than the data width"

/-- The cause that stopped a simulation. -/
inductive Fault where
  /-- an encoder without inputs or without outputs -/
  | encoderSize (kind : EncoderKind)
  /-- a request vector of another width than the encoder's -/
  | requestWidth (kind : EncoderKind) (expected found : Nat)
  /-- a window bound that is no index -/
  | windowBound
  /-- a shape field of no bits -/
  | zeroWidth (field : String)
  /-- two shape fields of one name -/
  | duplicateField (field : String)
  /-- a record initialised with the wrong number of values -/
  | valueCount (found expected : Nat)
  /-- a field name that the record's shape does not have -/
  | missingField (field : String) (fields : List Field)
  /-- a field value that no machine word holds -/
  | wideField (field : String)
  /-- an element written twice between two clock edges -/
  | secondWrite (target : WriteTarget) (owner element : String)
  /-- an array index past the end -/
  | indexOutOfRange (index : Nat) (array : String)
  /-- a change of a design whose call graph is frozen -/
  | frozen (change : Change)
  /-- a conflict declared between actions of different registries -/
  | conflictAcross (first second : String)
  /-- a simulation of a design that does not elaborate -/
  | refused (error : Refusal)
  /-- scheduling a design that is not elaborated -/
  | scheduleUnelaborated
  /-- scheduling from inside a cycle -/
  | scheduleInCycle
  /-- executing a design that is not elaborated -/
  | executeUnelaborated
  /-- a schedule of another cycle -/
  | staleSchedule (scheduled current : UInt64)
  /-- committing from inside a cycle -/
  | commitInCycle
  /-- a call while no cycle is executing -/
  | callOutsideCycle (callee : String)
  /-- a faulty call -/
  | call (caller callee : String) (cause : CallFault)
  /-- a faulty run of a method -/
  | method (name : String) (cause : MethodFault)
  /-- requester arguments of another shape than the target's -/
  | requesterArguments (requester target : String)
  /-- a push into a full associative memory -/
  | noFreeSlot
  /-- a memory bank of an impossible shape -/
  | bank (name : String) (cause : BankFault)
  /-- a memory address past the last element -/
  | addressOutOfRange (address : Nat) (bank : String)
  /-- a reservation station of an impossible shape -/
  | station (name : String) (cause : StationFault)
  /-- a reservation in a station that has no free entry -/
  | noFreeEntry
  /-- a name that denotes nothing -/
  | unknownName (name : String)
  /-- bodies nested deeper than the library follows -/
  | nestingLimit
  deriving DecidableEq, Repr, Inhabited

/-- The message of a fault. -/
def Fault.message : Fault → String
  | .encoderSize kind => kind.title ++ " needs a non-zero input width and output count"
  | .requestWidth kind expected found =>
      kind.title ++ ": expected " ++ toString expected ++ " request bits, got " ++ toString found
  | .windowBound => EncoderKind.ring.title ++ ": window bound out of range"
  | .zeroWidth field => "Layout field '" ++ field ++ "' has zero width"
  | .duplicateField field => "Layout field '" ++ field ++ "' declared twice"
  | .valueCount found expected =>
      "Record initializer has " ++ toString found ++ " values for " ++ toString expected ++ " fields"
  | .missingField field fields =>
      "Record has no field '" ++ field ++ "' in layout " ++ Field.listText fields
  | .wideField field => "Record field '" ++ field ++ "' does not fit into 64 bits"
  | .secondWrite target owner element =>
      "Second write to " ++ target.text ++ " '" ++ owner ++ "." ++ element ++ "' in one cycle"
  | .indexOutOfRange index array =>
      "Index " ++ toString index ++ " out of range for '" ++ array ++ "'"
  | .frozen change => "Cannot " ++ change.text ++ " after elaboration"
  | .conflictAcross first second =>
      "Conflict between '" ++ first ++ "' and '" ++ second ++ "' spans different managers"
  | .refused error => error.message
  | .scheduleUnelaborated => "Cannot schedule before elaboration"
  | .scheduleInCycle => "Cannot schedule while a cycle is executing"
  | .executeUnelaborated => "Cannot execute before elaboration"
  | .staleSchedule scheduled current =>
      "Schedule of cycle " ++ toString scheduled.toNat ++ " executed in cycle "
        ++ toString current.toNat
  | .commitInCycle => "Cannot commit while a cycle is executing"
  | .callOutsideCycle callee => "Call to '" ++ callee ++ "' outside of execution"
  | .call caller callee cause => cause.message caller callee
  | .method name cause => cause.message name
  | .requesterArguments requester target =>
      "Adapter '" ++ requester ++ "' given arguments not matching '" ++ target ++ "'"
  | .noFreeSlot => "push granted with no free slot"
  | .bank name cause => cause.message name
  | .addressOutOfRange address memory =>
      "Address " ++ toString address ++ " out of range for '" ++ memory ++ "'"
  | .station name cause => "Reservation station '" ++ name ++ "': " ++ cause.text
  | .noFreeEntry => "select granted with every slot reserved"
  | .unknownName name => "Unknown name '" ++ name ++ "'"
  | .nestingLimit => "Bodies nested too deeply"

end GuardedActions
