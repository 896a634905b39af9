import GuardedActions.Block.Requester
import GuardedActions.Block.AssociativeMemory
import GuardedActions.Block.Bank
import GuardedActions.Block.Station

/-!
# The world of a testbench

The state of a testbench's machine: its components, and variables that the testbench sets.  Besides
the blocks of the library a world has boxes, which hold registers, register arrays and wires of machine
words under names.
-/

set_option autoImplicit false

namespace GuardedActions.Bench

/-- A component whose state elements hold machine words. -/
structure Box where
  /-- name of the component -/
  name : String
  /-- single registers -/
  registers : List (Register UInt64)
  /-- register arrays -/
  arrays : List (RegisterArray UInt64)
  /-- wires -/
  wires : List (Wire UInt64)
  deriving Repr, Inhabited

/-- A component of a world. -/
inductive Component where
  /-- named state elements -/
  | box (x : Box)
  /-- nothing but a name -/
  | plain (name : String)
  /-- an associative memory -/
  | memory (x : AssociativeMemory)
  /-- a memory bank -/
  | bank (x : Bank)
  /-- a reservation station -/
  | station (x : Station)
  /-- a requester -/
  | requester (x : Requester)
  /-- a component that was taken out -/
  | removed

/-- Components and variables. -/
structure World where
  /-- components in the order of their creation -/
  components : List Component := []
  /-- variables that were set -/
  assignments : List (String × UInt64) := []
  /-- whether a body kept its right to make calls -/
  kept : Bool := false

/-- Replace the first entry that passes a test. -/
def modifyFirst {α : Type} (test : α → Bool) (f : α → Except Fault α) (missing : Fault) :
    List α → Except Fault (List α)
  | [] => .error missing
  | x :: rest =>
    if test x then do .ok ((← f x) :: rest)
    else do .ok (x :: (← modifyFirst test f missing rest))

/-- The first entry that passes a test. -/
def findFirst {α : Type} (test : α → Bool) (missing : Fault) (entries : List α) : Except Fault α :=
  match entries.find? test with
  | some x => .ok x
  | none => .error missing

namespace Box

/-- The register of the given name. -/
def register (b : Box) (name : String) : Except Fault (Register UInt64) :=
  findFirst (fun r => r.name.element == name) (.unknownName name) b.registers

/-- The register array of the given name. -/
def array (b : Box) (name : String) : Except Fault (RegisterArray UInt64) :=
  findFirst (fun a => a.name.element == name) (.unknownName name) b.arrays

/-- The wire of the given name. -/
def wire (b : Box) (name : String) : Except Fault (Wire UInt64) :=
  findFirst (fun w => w.name.element == name) (.unknownName name) b.wires

/-- Write a register. -/
def write (b : Box) (name : String) (value : UInt64) : Except Fault Box := do
  let registers ← modifyFirst (fun r => r.name.element == name) (fun r => r.write value)
    (.unknownName name) b.registers
  .ok { b with registers := registers }

/-- Write an element of a register array. -/
def writeElement (b : Box) (name : String) (index : Nat) (value : UInt64) : Except Fault Box := do
  let arrays ← modifyFirst (fun a => a.name.element == name) (fun a => a.write index value)
    (.unknownName name) b.arrays
  .ok { b with arrays := arrays }

/-- Drive a wire. -/
def drive (b : Box) (name : String) (value : UInt64) : Except Fault Box := do
  let wires ← modifyFirst (fun w => w.name.element == name) (fun w => w.drive value)
    (.unknownName name) b.wires
  .ok { b with wires := wires }

/-- The clock edge. -/
def commit (b : Box) : Box :=
  { b with
    registers := b.registers.map Register.commit
    arrays := b.arrays.map RegisterArray.commit
    wires := b.wires.map Wire.commit }

/-- Back to the start values. -/
def reset (b : Box) : Box :=
  { b with
    registers := b.registers.map Register.reset
    arrays := b.arrays.map RegisterArray.reset
    wires := b.wires.map Wire.reset }

/-- The elements in the order of their creation, the owner in front. -/
def elements (b : Box) : List String :=
  b.registers.map (·.name.text) ++ b.arrays.map (·.name.text) ++ b.wires.map (·.name.text)

end Box

namespace Component

/-- The name of a component. -/
def name? : Component → Option String
  | .box x => some x.name
  | .plain name => some name
  | .memory x => some x.name
  | .bank x => some x.name
  | .station x => some x.name
  | .requester x => some x.name
  | .removed => none

/-- The box that a component is. -/
def box? : Component → Option Box
  | .box x => some x
  | _ => none

/-- The requester that a component is. -/
def requester? : Component → Option Requester
  | .requester x => some x
  | _ => none

end Component

namespace World

/-- The value of a variable, 0 if it was never set. -/
def value (w : World) (name : String) : UInt64 := (w.assignments.lookup name).getD 0

/-- Set a variable. -/
def setVariable (w : World) (name : String) (value : UInt64) : World :=
  { w with assignments := (name, value) :: w.assignments.filter fun v => v.1 != name }

/-- The start of the reorder buffer is the variable `rob`. -/
def robStart (w : World) : UInt64 := w.value "rob"

/-- The first component with the given name. -/
def find? (w : World) (name : String) : Option Component :=
  w.components.find? fun c => c.name? == some name

/-- The first box with the given name. -/
def box (w : World) (name : String) : Except Fault Box :=
  match w.components.findSome? fun c => c.box?.filter fun b => b.name == name with
  | some b => .ok b
  | none => .error (.unknownName name)

/-- Change the first box with the given name. -/
def changeBox (w : World) (name : String) (f : Box → Except Fault Box) : Except Fault World := do
  let change (c : Component) : Except Fault Component :=
    match c with
    | .box b => do .ok (.box (← f b))
    | c => .ok c
  let components ← modifyFirst (fun c => c.box?.any fun b => b.name == name) change
    (.unknownName name) w.components
  .ok { w with components := components }

/-- The requester with the given name. -/
def requester (w : World) (name : String) : Except Fault Requester :=
  match w.components.findSome? fun c => c.requester?.filter fun a => a.name == name with
  | some a => .ok a
  | none => .error (.unknownName name)

/-- Change the first requester with the given name. -/
def changeRequester (w : World) (name : String) (f : Requester → Except Fault Requester) :
    Except Fault World := do
  let change (c : Component) : Except Fault Component :=
    match c with
    | .requester a => do .ok (.requester (← f a))
    | c => .ok c
  let components ← modifyFirst (fun c => c.requester?.any fun a => a.name == name) change
    (.unknownName name) w.components
  .ok { w with components := components }

/-- The requesters in the order of their creation. -/
def requesters (w : World) : List Requester := w.components.filterMap Component.requester?

/-- The component at a position, read and written through one kind of component. -/
def place {τ : Type} (index : Nat) (unwrap : Component → Option τ) (wrap : τ → Component)
    (h : ∀ x, unwrap (wrap x) = some x) : Place World τ where
  get w := (w.components[index]?).bind unwrap
  put w x := { w with components := w.components.set index (wrap x) }
  get_put w old new found := by
    obtain ⟨c, hc, _⟩ := Option.bind_eq_some_iff.mp found
    have hlt : index < w.components.length := by
      cases Nat.lt_or_ge index w.components.length with
      | inl hlt => exact hlt
      | inr hge => simp [hge] at hc
    simp [hlt, h]

/-- The box at a position. -/
def boxAt (index : Nat) : Place World Box := place index Component.box? .box fun _ => rfl

/-- The requester at a position. -/
def requesterAt (index : Nat) : Place World Requester :=
  place index Component.requester? .requester fun _ => rfl

/-- The associative memory at a position. -/
def memoryAt (index : Nat) : Place World AssociativeMemory :=
  place index (fun | .memory x => some x | _ => none) .memory fun _ => rfl

/-- The memory bank at a position. -/
def bankAt (index : Nat) : Place World Bank :=
  place index (fun | .bank x => some x | _ => none) .bank fun _ => rfl

/-- The reservation station at a position. -/
def stationAt (index : Nat) : Place World Station :=
  place index (fun | .station x => some x | _ => none) .station fun _ => rfl

end World

end GuardedActions.Bench
