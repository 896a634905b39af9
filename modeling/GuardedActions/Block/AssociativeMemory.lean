import GuardedActions.Block
import GuardedActions.Element
import GuardedActions.Encoder

/-!
# Associative memory

A store of key and data pairs that is searched by key.  A push fills the lowest free slot at the next
edge; a pop returns the data of the lowest slot that holds the key and frees it.  A pop that finds
nothing says so and returns zero.
-/

set_option autoImplicit false

namespace GuardedActions

/-- Slots with a valid bit, a key and a datum each. -/
structure AssociativeMemory where
  /-- name of the component -/
  name : String
  /-- shape that keys are packed from -/
  keyShape : Shape
  /-- shape that data are packed from -/
  dataShape : Shape
  /-- number of slots -/
  entries : Nat
  /-- which slots are in use -/
  valid : RegisterArray Bool
  /-- the key of every slot -/
  keys : RegisterArray Bits
  /-- the datum of every slot -/
  data : RegisterArray Bits
  /-- arguments of a push: `addr` and `data` -/
  pushInput : Shape
  /-- argument of a pop: `addr` -/
  popInput : Shape
  /-- results of a pop: `data` and `not_found` -/
  popOutput : Shape
  deriving Repr

namespace AssociativeMemory

/-- A memory with all slots free. -/
def build (name : String) (keyShape dataShape : Shape) (entries : Nat) :
    Except Fault AssociativeMemory := do
  let _ ← Encoder.build .linear entries 1
  let keyWidth := keyShape.width
  let dataWidth := dataShape.width
  let pushInput ← Shape.ofFields [⟨"addr", keyWidth⟩, ⟨"data", dataWidth⟩]
  let popInput ← Shape.ofFields [⟨"addr", keyWidth⟩]
  let popOutput ← Shape.ofFields [⟨"data", dataWidth⟩, ⟨"not_found", 1⟩]
  .ok
    { name := name
      keyShape := keyShape
      dataShape := dataShape
      entries := entries
      valid := RegisterArray.new ⟨name, "valid"⟩ entries false
      keys := RegisterArray.new ⟨name, "keys"⟩ entries (Bits.ofNat keyWidth 0)
      data := RegisterArray.new ⟨name, "data"⟩ entries (Bits.ofNat dataWidth 0)
      pushInput := pushInput
      popInput := popInput
      popOutput := popOutput }

/-- The slots in use. -/
def validMask (x : AssociativeMemory) : Mask :=
  Mask.ofTest x.entries fun i => (x.valid.cells[i]?).any Cell.value

/-- The slots in use that hold a key. -/
def matching (x : AssociativeMemory) (key : Bits) : Mask :=
  Mask.ofTest x.entries fun i =>
    (x.valid.cells[i]?).any Cell.value && (x.keys.cells[i]?).any fun c => c.value = key

/-- Number of slots in use. -/
def used (x : AssociativeMemory) : Nat := x.validMask.count

/-- Whether a slot is free. -/
def hasRoom (x : AssociativeMemory) : Bool := x.validMask.complement.lowest?.isSome

/-- Put the pair in some arguments into the lowest free slot: its key, then its datum. -/
def push (x : AssociativeMemory) (args : Record) : Except Fault AssociativeMemory :=
  match Encoder.lowest x.validMask.complement with
  | none => .error .noFreeSlot
  | some slot => do
    let keys ← x.keys.write slot (← args.get "addr")
    let data ← x.data.write slot (← args.get "data")
    let valid ← x.valid.write slot true
    .ok { x with keys := keys, data := data, valid := valid }

/-- Take the pair out of the lowest slot that holds a key; the datum, or nothing on a miss. -/
def pop (x : AssociativeMemory) (key : Bits) : Except Fault (Option Bits × AssociativeMemory) :=
  match Encoder.lowest (x.matching key) with
  | none => .ok (none, x)
  | some slot => do
    let datum ← x.data.read slot
    let valid ← x.valid.write slot false
    .ok (some datum, { x with valid := valid })

/-- The record that a pop returns. -/
def popResult (x : AssociativeMemory) : Option Bits → Record
  | some datum => Record.fill x.popOutput [datum, Bits.ofNat 1 0]
  | none => Record.fill x.popOutput [Bits.ofNat 1 0, Bits.ofNat 1 1]

/-- The clock edge. -/
def commit (x : AssociativeMemory) : AssociativeMemory :=
  { x with valid := x.valid.commit, keys := x.keys.commit, data := x.data.commit }

/-- Back to all slots free. -/
def reset (x : AssociativeMemory) : AssociativeMemory :=
  { x with valid := x.valid.reset, keys := x.keys.reset, data := x.data.reset }

/-- The component with its methods `push` and `pop`. -/
def block {σ : Type} (x : AssociativeMemory) : Block σ AssociativeMemory where
  name := x.name
  elements := ["valid", "keys", "data"]
  ports :=
    [ { name := "push"
        input := x.pushInput
        ready := some fun _ x => .ok x.hasRoom
        body := fun _ x args => do
          let x ← x.push args
          .ok (Record.empty, x) },
      { name := "pop"
        input := x.popInput
        output := x.popOutput
        body := fun _ x args => do
          let (datum, x) ← x.pop (← args.get "addr")
          .ok (x.popResult datum, x) } ]
  commit := commit
  reset := reset

end AssociativeMemory

end GuardedActions
