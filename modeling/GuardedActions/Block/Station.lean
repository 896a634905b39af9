import GuardedActions.Block
import GuardedActions.Element
import GuardedActions.Encoder

/-!
# Reservation station

The reservation station of a load/store unit.  An operation reserves an entry, is inserted into it,
waits for its operands and for every older operation that may touch the same address, and is taken
out.  Ages are compared relative to the start of the reorder buffer, and fences hold back new
reservations from the cycle of their insertion until they are taken.
-/

set_option autoImplicit false

namespace GuardedActions

/-- Kinds of memory operation. -/
inductive MemoryOp where
  /-- read from memory -/
  | load
  /-- write to memory -/
  | store
  /-- order memory accesses -/
  | fence
  /-- order instruction fetches -/
  | fenceInstruction
  /-- none of these: an operation that the station only keeps and hands out -/
  | unknown (code : UInt32)
  deriving DecidableEq, Repr, Inhabited

namespace MemoryOp

/-- The operation with a given code. -/
def ofCode (code : UInt32) : MemoryOp :=
  if code = 0 then .load
  else if code = 1 then .store
  else if code = 2 then .fence
  else if code = 3 then .fenceInstruction
  else .unknown code

/-- The code of an operation. -/
def code : MemoryOp → UInt32
  | .load => 0
  | .store => 1
  | .fence => 2
  | .fenceInstruction => 3
  | .unknown code => code

/-- The operation that a field of some arguments stands for: only the low 32 bits count. -/
def ofWord (word : UInt64) : MemoryOp := ofCode word.toUInt32

/-- Whether an operation holds back reservations. -/
def isBarrier : MemoryOp → Bool
  | .fence | .fenceInstruction => true
  | _ => false

@[simp] theorem code_ofCode (code : UInt32) : (ofCode code).code = code := by
  unfold ofCode
  repeat' split
  all_goals simp_all [MemoryOp.code]

/-- The barriers are the operations with the codes 2 and 3. -/
theorem isBarrier_ofCode (code : UInt32) : (ofCode code).isBarrier = (code == 2 || code == 3) := by
  unfold ofCode
  repeat' split
  all_goals simp_all [isBarrier]

end MemoryOp

/-- Shape of a reservation station. -/
structure StationConfig where
  /-- number of entries -/
  entries : Nat := 4
  /-- bits of a reorder buffer id -/
  robWidth : Nat := 5
  /-- bits of a register id -/
  registerWidth : Nat := 6
  /-- bits of a datum or an address -/
  dataWidth : Nat := 32
  /-- low address bits that comparisons ignore -/
  alignment : Nat := 2
  deriving DecidableEq, Repr, Inhabited

namespace StationConfig

/-- What is wrong with a shape, if anything. -/
def flaw? (c : StationConfig) : Option StationFault :=
  if c.entries = 0 then some .noEntries
  else if c.robWidth = 0 ∨ 64 ≤ c.robWidth then some .robWidth
  else if c.registerWidth = 0 ∨ 64 ≤ c.registerWidth then some .registerWidth
  else if c.dataWidth = 0 then some .dataWidth
  else if c.dataWidth ≤ c.alignment then some .alignment
  else none

/-- Bits of an entry id. -/
def idWidth (c : StationConfig) : Nat := max 1 (Bits.needed c.entries)

end StationConfig

/-- One entry of a reservation station. -/
structure StationEntry where
  /-- whether the entry is given away -/
  reserved : Bool := false
  /-- whether the entry holds an operation -/
  full : Bool := false
  /-- the operation -/
  op : MemoryOp := .load
  /-- register that the first operand waits for, 0 for none -/
  tag1 : UInt64 := 0
  /-- register that the second operand waits for, 0 for none -/
  tag2 : UInt64 := 0
  /-- first operand, the base of the address -/
  value1 : Bits
  /-- second operand -/
  value2 : Bits
  /-- offset of the address -/
  offset : Bits
  /-- place in the reorder buffer -/
  robIndex : UInt64 := 0
  /-- register that gets the result -/
  target : UInt64 := 0
  /-- entries that were older and possibly at the same address at insertion -/
  depends : Mask
  deriving DecidableEq, Repr

namespace StationEntry

/-- An entry that holds nothing. -/
def empty (c : StationConfig) : StationEntry where
  value1 := Bits.ofNat c.dataWidth 0
  value2 := Bits.ofNat c.dataWidth 0
  offset := Bits.ofNat c.dataWidth 0
  depends := Mask.none c.entries

/-- The address of an operation whose base is known. -/
def address (e : StationEntry) : Bits := e.value1.add e.offset

/-- Whether the base of the address is known. -/
def addressKnown (e : StationEntry) : Bool := e.tag1 == 0

/-- Whether both operands are known. -/
def operandsKnown (e : StationEntry) : Bool := e.tag1 == 0 && e.tag2 == 0

/-- Whether two operations may touch the same address, up to alignment. -/
def mayCollide (alignment : Nat) (a b : StationEntry) : Bool :=
  !a.addressKnown || !b.addressKnown ||
    a.address.shiftRight alignment == b.address.shiftRight alignment

/-- Give a value to the operands that wait for a register. -/
def wake (e : StationEntry) (tag : UInt64) (value : Bits) : StationEntry :=
  let e := if e.tag1 = tag then { e with tag1 := 0, value1 := value } else e
  if e.tag2 = tag then { e with tag2 := 0, value2 := value } else e

/-- Whether an operand waits for a register. -/
def waitsFor (e : StationEntry) (tag : UInt64) : Bool := e.full && (e.tag1 == tag || e.tag2 == tag)

end StationEntry

/-- A reservation station. -/
structure Station where
  /-- name of the component -/
  name : String
  /-- shape -/
  config : StationConfig
  /-- the entries -/
  slots : RegisterArray StationEntry
  /-- a single field `rs_entry_id` -/
  idShape : Shape
  /-- arguments of an insertion -/
  insertInput : Shape
  /-- arguments of an update -/
  updateInput : Shape
  /-- result of asking for the ready list -/
  readyOutput : Shape
  /-- results of taking an operation -/
  takeOutput : Shape
  deriving Repr

namespace Station

/-- Whether one reorder buffer id is closer to the start of the buffer than another, going round at
`2 ^ robWidth`. -/
def precedes (robWidth : Nat) (start first second : UInt64) : Bool :=
  let mask : UInt64 := (1 <<< UInt64.ofNat robWidth) - 1
  decide (((first - start) &&& mask) < ((second - start) &&& mask))

/-- A station whose entries are empty. -/
def build (name : String) (c : StationConfig) : Except Fault Station := do
  match c.flaw? with
  | some flaw => .error (.station name flaw)
  | none =>
    let idShape ← Shape.ofFields [⟨"rs_entry_id", c.idWidth⟩]
    let insertInput ← Shape.ofFields
      [⟨"rs_entry_id", c.idWidth⟩, ⟨"op", 2⟩, ⟨"rp_s1", c.registerWidth⟩, ⟨"rp_s2", c.registerWidth⟩,
        ⟨"s1_val", c.dataWidth⟩, ⟨"s2_val", c.dataWidth⟩, ⟨"imm", c.dataWidth⟩, ⟨"rob_id", c.robWidth⟩,
        ⟨"rp_dst", c.registerWidth⟩]
    let updateInput ← Shape.ofFields [⟨"reg_id", c.registerWidth⟩, ⟨"reg_val", c.dataWidth⟩]
    let readyOutput ← Shape.ofFields [⟨"ready_list", c.entries⟩]
    let takeOutput ← Shape.ofFields
      [⟨"op", 2⟩, ⟨"s1_val", c.dataWidth⟩, ⟨"s2_val", c.dataWidth⟩, ⟨"imm", c.dataWidth⟩,
        ⟨"rob_id", c.robWidth⟩, ⟨"rp_dst", c.registerWidth⟩]
    .ok
      { name := name
        config := c
        slots := RegisterArray.new ⟨name, "slots"⟩ c.entries (StationEntry.empty c)
        idShape := idShape
        insertInput := insertInput
        updateInput := updateInput
        readyOutput := readyOutput
        takeOutput := takeOutput }

/-! ## Questions about the committed state -/

/-- The committed entry at a position, if there is one. -/
def entry? (x : Station) (i : Nat) : Option StationEntry :=
  (x.slots.cells[i]?).map Cell.value

/-- Whether a fence sits in some entry. -/
def fencePending (x : Station) : Bool :=
  x.slots.values.any fun e => e.full && e.op.isBarrier

/-- The entries that nobody reserved. -/
def freeMask (x : Station) : Mask :=
  Mask.ofTest x.config.entries fun i => (x.entry? i).any fun e => !e.reserved

/-- Whether one of the recorded dependencies of an entry still holds it back. -/
def isBlocked (x : Station) (start : UInt64) (e : StationEntry) : Bool :=
  e.depends.members.any fun j =>
    (x.entry? j).any fun older => older.full && precedes x.config.robWidth start older.robIndex e.robIndex

/-- The entries that may be taken. -/
def readyMask (x : Station) (start : UInt64) : Mask :=
  Mask.ofTest x.config.entries fun i =>
    (x.entry? i).any fun e => e.full && e.operandsKnown && !x.isBlocked start e

/-- The entries that an operation about to be inserted at a position has to wait for. -/
def hazards (x : Station) (start : UInt64) (position : Nat) (e : StationEntry) : Mask :=
  Mask.ofTest x.config.entries fun i =>
    i != position && (x.entry? i).any fun other =>
      other.full && precedes x.config.robWidth start other.robIndex e.robIndex &&
        StationEntry.mayCollide x.config.alignment other e

/-! ## Methods -/

/-- The entry id in some arguments. -/
def idOf (args : Record) : Except Fault Nat := do
  let word ← args.getWord "rs_entry_id"
  .ok word.toNat

/-- Whether one of some records inserts a fence. -/
def insertsFence : List Record → Except Fault Bool
  | [] => .ok false
  | args :: rest => do
    let op ← args.getWord "op"
    if (MemoryOp.ofWord op).isBarrier then .ok true else insertsFence rest

/-- Whether a reservation is possible while some insertions are under way. -/
def selectReady (x : Station) (insertions : List Record) : Except Fault Bool :=
  if x.fencePending then .ok false
  else do
    if ← insertsFence insertions then .ok false else .ok x.freeMask.lowest?.isSome

/-- Reserve the lowest free entry. -/
def select (x : Station) : Except Fault (Record × Station) :=
  match Encoder.lowest x.freeMask with
  | none => .error .noFreeEntry
  | some slot => do
    let e ← x.slots.read slot
    let slots ← x.slots.write slot { e with reserved := true }
    .ok (Record.fill x.idShape [Bits.ofNat 64 slot], { x with slots := slots })

/-- Whether an insertion names an entry that is reserved and empty. -/
def acceptsInsert (x : Station) (args : Record) : Except Fault Bool := do
  let id ← idOf args
  .ok ((x.entry? id).any fun e => decide (id < x.config.entries) && e.reserved && !e.full)

/-- The entry that the arguments of an insertion describe, without its dependencies. -/
def describe (c : StationConfig) (args : Record) : Except Fault StationEntry := do
  let op ← args.getWord "op"
  let tag1 ← args.getWord "rp_s1"
  let tag2 ← args.getWord "rp_s2"
  let value1 ← args.get "s1_val"
  let value2 ← args.get "s2_val"
  let offset ← args.get "imm"
  let robIndex ← args.getWord "rob_id"
  let target ← args.getWord "rp_dst"
  .ok
    { reserved := true
      full := true
      op := MemoryOp.ofWord op
      tag1 := tag1
      tag2 := tag2
      value1 := value1
      value2 := value2
      offset := offset
      robIndex := robIndex
      target := target
      depends := Mask.none c.entries }

/-- Insert an operation into its entry, with the hazards of the moment as its dependencies. -/
def insert (x : Station) (start : UInt64) (args : Record) :
    Except Fault Station := do
  let id ← idOf args
  let e ← describe x.config args
  let slots ← x.slots.write id { e with depends := x.hazards start id e }
  .ok { x with slots := slots }

/-- Hand the value of a register to the entries at the given positions that wait for it. -/
def wakeAll (tag : UInt64) (value : Bits) :
    (positions : List Nat) → RegisterArray StationEntry → Except Fault (RegisterArray StationEntry)
  | [], slots => .ok slots
  | i :: rest, slots => do
    let e ← slots.read i
    if e.waitsFor tag then
      let slots ← slots.write i (e.wake tag value)
      wakeAll tag value rest slots
    else wakeAll tag value rest slots

/-- Hand the value of a register to all entries that wait for it; register 0 is never waited for. -/
def update (x : Station) (args : Record) : Except Fault Station := do
  let tag ← args.getWord "reg_id"
  if tag = 0 then .ok x
  else
    let value ← args.get "reg_val"
    let slots ← wakeAll tag value (List.range x.config.entries) x.slots
    .ok { x with slots := slots }

/-- The ready list as a record, one bit per entry. -/
def readyRecord (x : Station) (start : UInt64) : Record :=
  let ready := x.readyMask start
  let number := ready.members.foldl (fun n i => n + 1 <<< i) 0
  Record.fill x.readyOutput [Bits.ofNat x.config.entries number]

/-- Whether a taking names an entry that is ready. -/
def acceptsTake (x : Station) (start : UInt64) (args : Record) : Except Fault Bool := do
  let id ← idOf args
  .ok ((x.readyMask start).test id)

/-- Take the operation out of an entry. -/
def take (x : Station) (args : Record) : Except Fault (Record × Station) := do
  let id ← idOf args
  let e ← x.slots.read id
  let slots ← x.slots.write id (StationEntry.empty x.config)
  let result := Record.fill x.takeOutput
    [Bits.ofNat 64 e.op.code.toNat, e.value1, e.value2, e.offset, Bits.ofNat 64 e.robIndex.toNat,
      Bits.ofNat 64 e.target.toNat]
  .ok (result, { x with slots := slots })

/-- The clock edge. -/
def commit (x : Station) : Station := { x with slots := x.slots.commit }

/-- Back to all entries empty. -/
def reset (x : Station) : Station := { x with slots := x.slots.reset }

/-- The component with its methods `select`, `insert`, `update`, `get_ready_list` and `take`.  The
start of the reorder buffer is read off the state, and `insertRef` is the method `insert` itself, whose
waiting calls `select` asks about. -/
def block {σ : Type} (x : Station) (start : σ → UInt64) (insertRef : ActionRef) :
    Block σ Station where
  name := x.name
  elements := ["slots"]
  ports :=
    [ { name := "select"
        output := x.idShape
        ready := some fun view x => x.selectReady (view.scene.pending insertRef)
        body := fun _ x _ => x.select },
      { name := "insert"
        input := x.insertInput
        validator := some fun _ x args => x.acceptsInsert args
        body := fun view x args => do
          let x ← x.insert (start view.state) args
          .ok (Record.empty, x) },
      { name := "update"
        input := x.updateInput
        body := fun _ x args => do
          let x ← x.update args
          .ok (Record.empty, x) },
      { name := "get_ready_list"
        output := x.readyOutput
        body := fun view x _ => .ok (x.readyRecord (start view.state), x)
        nonexclusive := true },
      { name := "take"
        input := x.idShape
        output := x.takeOutput
        validator := some fun view x args => x.acceptsTake (start view.state) args
        body := fun _ x args => x.take args } ]
  commit := commit
  reset := reset

end Station

end GuardedActions
