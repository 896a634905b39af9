import GuardedActions.Bench.World

/-!
# Expressions of a testbench

Expressions compute machine words from what a predicate or a body can see.  Arithmetic wraps, and a
truth value is 1 or 0.
-/

set_option autoImplicit false

namespace GuardedActions.Bench

/-- Operators on two words. -/
inductive BinaryOp where
  /-- sum -/
  | add
  /-- difference -/
  | sub
  /-- product -/
  | mul
  /-- remainder, 0 for a divisor of 0 -/
  | mod
  /-- bitwise and -/
  | and
  /-- bitwise or -/
  | or
  /-- bitwise exclusive or -/
  | xor
  /-- equality -/
  | eq
  /-- inequality -/
  | ne
  /-- unsigned order -/
  | lt
  deriving DecidableEq, Repr, Inhabited

/-- A truth value as a word. -/
def truth (b : Bool) : UInt64 := if b then 1 else 0

/-- What an operator computes. -/
def BinaryOp.apply : BinaryOp → UInt64 → UInt64 → UInt64
  | .add, a, b => a + b
  | .sub, a, b => a - b
  | .mul, a, b => a * b
  | .mod, a, b => if b = 0 then 0 else a % b
  | .and, a, b => a &&& b
  | .or, a, b => a ||| b
  | .xor, a, b => a ^^^ b
  | .eq, a, b => truth (a == b)
  | .ne, a, b => truth (a != b)
  | .lt, a, b => truth (decide (a < b))

/-- An expression.  Actions are given by name, and those of the guest registry by a name that starts
with `foreign:`. -/
inductive Expr where
  /-- a constant -/
  | word (value : UInt64)
  /-- a variable -/
  | var (name : String)
  /-- the committed value of a register -/
  | reg (box register : String)
  /-- the value of a register after the next edge -/
  | next (box register : String)
  /-- whether a register is written in this cycle -/
  | written (box register : String)
  /-- the committed value of an array element -/
  | element (box array : String) (index : Expr)
  /-- the value of a wire -/
  | wire (box wire : String)
  /-- whether a wire is driven -/
  | driven (box wire : String)
  /-- a field of the arguments -/
  | arg (field : String)
  /-- a field of the latest result of a call -/
  | out (method field : String)
  /-- the current cycle -/
  | cycle
  /-- whether the running action is granted -/
  | self
  /-- whether an action is granted -/
  | granted (action : String)
  /-- number of waiting calls of a method -/
  | pending (method : String)
  /-- number of waiting calls of a method with a given value of a field -/
  | pendingWith (method field : String) (value : Expr)
  /-- logical negation -/
  | not (operand : Expr)
  /-- an operator on two operands -/
  | binary (op : BinaryOp) (left right : Expr)
  deriving Repr, Inhabited

/-- What a body knows of its own: its arguments, and the latest result of every call. -/
structure Locals where
  /-- arguments, the empty record for a transaction -/
  args : Record := Record.empty
  /-- results of calls, the latest first -/
  results : List (String × Record) := []

/-- The latest result of a call, the empty record before the first. -/
def Locals.result (l : Locals) (method : String) : Record := (l.results.lookup method).getD Record.empty

/-- What the names of guest actions start with. -/
def guestMark : String := "foreign:"

/-- The domain and the proper name that a name stands for. -/
def splitName (name : String) : Domain × String :=
  if name.startsWith guestMark then (.guest, (name.drop guestMark.length).toString) else (.main, name)

/-- The listing of an action given by name. -/
def resolve (scene : Scene) (name : String) : Except Fault Listing :=
  let (domain, proper) := splitName name
  match scene.lookup domain proper with
  | some listing => .ok listing
  | none => .error (.unknownName name)

/-- Number of records with a wanted value of a field.  The field of a record is looked up before the
value is asked for, and without records nothing is asked. -/
def countField (field : String) (wanted : Except Fault UInt64) : List Record → Except Fault UInt64
  | [] => .ok 0
  | r :: rest => do
    let value ← r.getWord field
    let w ← wanted
    let n ← countField field wanted rest
    .ok (truth (value == w) + n)

/-- The index that a word stands for: its low 32 bits. -/
def indexFrom (word : UInt64) : Nat := word.toNat % UInt32.size

namespace Expr

/-- The value of an expression. -/
def eval (view : View World) (l : Locals) : Expr → Except Fault UInt64
  | .word value => .ok value
  | .var name => .ok (view.state.value name)
  | .reg box register => do .ok (← (← view.state.box box).register register).read
  | .next box register => do .ok (← (← view.state.box box).register register).upcoming
  | .written box register => do .ok (truth (← (← view.state.box box).register register).hasWrite)
  | .element box array index => do
    let i ← index.eval view l
    (← (← view.state.box box).array array).read (indexFrom i)
  | .wire box name => do .ok (← (← view.state.box box).wire name).get
  | .driven box name => do .ok (truth (← (← view.state.box box).wire name).isLive)
  | .arg field => l.args.getWord field
  | .out method field => (l.result method).getWord field
  | .cycle => .ok view.scene.cycle
  | .self => .ok (truth (view.scene.actor.any fun a => view.scene.granted a.1))
  | .granted action => do .ok (truth (view.scene.granted (← resolve view.scene action).ref))
  | .pending method => do
    let listing ← resolve view.scene method
    .ok (UInt64.ofNat (view.scene.pending listing.ref).length)
  | .pendingWith method field value => do
    let listing ← resolve view.scene method
    countField field (value.eval view l) (view.scene.pending listing.ref)
  | .not operand => do .ok (truth ((← operand.eval view l) == 0))
  | .binary op left right => do
    let a ← left.eval view l
    let b ← right.eval view l
    .ok (op.apply a b)

/-- A predicate: an expression that is not 0. -/
def guard (e : Expr) : Guard World := fun view => do .ok ((← e.eval view {}) != 0)

/-- A predicate on arguments. -/
def validator (e : Expr) : Validator World := fun view args => do
  .ok ((← e.eval view { args := args }) != 0)

end Expr

/-! ## Records -/

/-- A value for a field: a word, or a field of the arguments or of a result with all its bits. -/
inductive FieldValue where
  /-- the word that an expression computes -/
  | expr (e : Expr)
  /-- a field of the arguments -/
  | rawArg (field : String)
  /-- a field of the latest result of a call -/
  | rawOut (method field : String)
  deriving Repr, Inhabited

/-- The bits of a field value. -/
def FieldValue.eval (view : View World) (l : Locals) : FieldValue → Except Fault Bits
  | .expr e => do .ok (Bits.ofNat 64 (← e.eval view l).toNat)
  | .rawArg field => l.args.get field
  | .rawOut method field => (l.result method).get field

/-- The record of a shape with the given field values, zero where there are none. -/
def recordOf (view : View World) (l : Locals) (shape : Shape) (values : List FieldValue) :
    Except Fault Record := do
  let bits ← (values.take shape.size).mapM fun v => v.eval view l
  .ok (Record.fill shape bits)

/-- Arguments of a call: field values, in the callee's shape or in another one. -/
structure Arguments where
  /-- values of the fields -/
  values : List FieldValue
  /-- another shape than the callee's -/
  fields : Option (List Field) := none
  deriving Repr, Inhabited

/-- The record that arguments stand for, given the shape that the callee takes. -/
def Arguments.eval (view : View World) (l : Locals) (input : Shape) (a : Arguments) :
    Except Fault Record :=
  match a.fields with
  | none => recordOf view l input a.values
  | some fields => do
    let shape ← Shape.ofFields fields
    recordOf view l shape a.values

end GuardedActions.Bench
