import GuardedActions.Block
import GuardedActions.Element

/-!
# Memory bank

A synchronous memory with one read and one write port.  A read request latches the element at the
next edge, a write takes effect at the next edge, and with a granularity a mask selects the chunks
that are written.  With safe writes, a write to the address that is read in the same cycle waits one
cycle longer, so that the read sees the old contents; otherwise the read sees the write.
-/

set_option autoImplicit false

namespace GuardedActions

/-- Shape and policy of a memory bank. -/
structure BankConfig where
  /-- shape of an element -/
  dataShape : Shape
  /-- number of elements -/
  count : Nat
  /-- number of bits that one mask bit covers, if writes are masked -/
  granularity : Option Nat := none
  /-- whether a write waits when the same address is read -/
  safe : Bool := true
  deriving DecidableEq, Repr

/-- A memory bank with its ports. -/
structure Bank where
  /-- name of the component -/
  name : String
  /-- shape and policy -/
  config : BankConfig
  /-- bits of an element -/
  width : Nat
  /-- bits of an address -/
  addressWidth : Nat
  /-- the elements -/
  memory : RegisterArray Bits
  /-- whether a latched datum waits to be fetched -/
  latchFull : Register Bool
  /-- the latched datum -/
  latched : Register Bits
  /-- whether a write waits -/
  writeWaiting : Register Bool
  /-- the write that waits -/
  delayedWrite : Register Record
  /-- address read in this cycle -/
  readAddress : Wire (Option Nat)
  /-- whether the latched datum is fetched in this cycle -/
  fetched : Wire Bool
  /-- write made in this cycle -/
  writeAsked : Wire (Option Record)
  /-- argument of a read request: `addr` -/
  readInput : Shape
  /-- result of a read: `data` -/
  readOutput : Shape
  /-- arguments of a write: `addr`, `data` and, if writes are masked, `mask` -/
  writeInput : Shape
  deriving Repr

namespace Bank

/-- The width of an element, if the shape is possible. -/
def validWidth (name : String) (config : BankConfig) : Except Fault Nat :=
  if config.count = 0 then .error (.bank name .noElements)
  else
    let width := config.dataShape.width
    if width = 0 then .error (.bank name .emptyElements)
    else
      match config.granularity with
      | none => .ok width
      | some g =>
        if g = 0 ∨ width % g ≠ 0 then .error (.bank name (.granularity width)) else .ok width

/-- A bank whose elements are zero. -/
def build (name : String) (config : BankConfig) : Except Fault Bank := do
  let width ← validWidth name config
  let addressWidth := max 1 (Bits.needed config.count)
  let readInput ← Shape.ofFields [⟨"addr", addressWidth⟩]
  let readOutput ← Shape.ofFields [⟨"data", width⟩]
  let mask : List Field := match config.granularity with
    | none => []
    | some g => [⟨"mask", width / g⟩]
  let writeInput ← Shape.ofFields (⟨"addr", addressWidth⟩ :: ⟨"data", width⟩ :: mask)
  .ok
    { name := name
      config := config
      width := width
      addressWidth := addressWidth
      memory := RegisterArray.new ⟨name, "memory"⟩ config.count (Bits.ofNat width 0)
      latchFull := Register.new ⟨name, "read_valid"⟩ false
      latched := Register.new ⟨name, "read_data"⟩ (Bits.ofNat width 0)
      writeWaiting := Register.new ⟨name, "write_pending"⟩ false
      delayedWrite := Register.new ⟨name, "deferred_write"⟩ Record.empty
      readAddress := Wire.new ⟨name, "read_addr"⟩ none
      fetched := Wire.new ⟨name, "read_consumed"⟩ false
      writeAsked := Wire.new ⟨name, "write_request"⟩ none
      readInput := readInput
      readOutput := readOutput
      writeInput := writeInput }

/-- The address in some arguments. -/
def addressOf (args : Record) : Except Fault Nat := do
  let word ← args.getWord "addr"
  .ok word.toNat

/-- The address in some arguments, if it is that of an element. -/
def boundedAddress (x : Bank) (args : Record) : Except Fault Nat := do
  let address ← addressOf args
  if address < x.config.count then .ok address
  else .error (.addressOutOfRange address x.name)

/-- An old value with the chunks that the mask selects taken from a new one. -/
def mergeChunks (chunk count : Nat) (old new mask : Bits) : Bits :=
  (List.range count).foldl
    (fun merged i =>
      if mask.test i then merged.overwrite (i * chunk) (Bits.slice (i * chunk) chunk new)
      else merged)
    old

/-- Write the arguments of a write to the memory. -/
def writeThrough (x : Bank) (args : Record) : Except Fault Bank := do
  let address ← addressOf args
  let value ← args.get "data"
  match x.config.granularity with
  | none =>
    let memory ← x.memory.write address value
    .ok { x with memory := memory }
  | some chunk =>
    let mask ← args.get "mask"
    let old ← x.memory.read address
    let memory ← x.memory.write address (mergeChunks chunk (x.width / chunk) old value mask)
    .ok { x with memory := memory }

/-- Ask for an element. -/
def startRead (x : Bank) (args : Record) : Except Fault Bank := do
  let address ← x.boundedAddress args
  let readAddress ← x.readAddress.drive (some address)
  .ok { x with readAddress := readAddress }

/-- Fetch the latched datum. -/
def fetch (x : Bank) : Except Fault (Record × Bank) := do
  let fetched ← x.fetched.drive true
  .ok (Record.fill x.readOutput [x.latched.read], { x with fetched := fetched })

/-- Ask for a write. -/
def startWrite (x : Bank) (args : Record) : Except Fault Bank := do
  let _ ← x.boundedAddress args
  let writeAsked ← x.writeAsked.drive (some args)
  .ok { x with writeAsked := writeAsked }

/-- Make the write that waits. -/
def flush (x : Bank) : Except Fault Bank := do
  let x ← x.writeThrough x.delayedWrite.read
  let writeWaiting ← x.writeWaiting.write false
  .ok { x with writeWaiting := writeWaiting }

/-- Put a write off until the next cycle. -/
def defer (x : Bank) (args : Record) : Except Fault Bank := do
  let writeWaiting ← x.writeWaiting.write true
  let delayedWrite ← x.delayedWrite.write args
  .ok { x with writeWaiting := writeWaiting, delayedWrite := delayedWrite }

/-- Whether a write goes to the address that is read in the same cycle. -/
def collides (x : Bank) (args : Record) : Except Fault Bool :=
  match x.readAddress.get with
  | none => .ok false
  | some address => do
    let target ← addressOf args
    .ok (address == target)

/-- Make or put off the write of this cycle. -/
def settleWrite (x : Bank) : Except Fault Bank :=
  match x.writeAsked.get with
  | none => .ok x
  | some args => do
    let collision ← x.collides args
    if x.config.safe && collision then x.defer args else x.writeThrough args

/-- Latch the element read in this cycle, as it will be after the edge. -/
def settleRead (x : Bank) : Except Fault Bank :=
  match x.readAddress.get with
  | some address => do
    let latched ← x.latched.write (← x.memory.upcoming address)
    let latchFull ← x.latchFull.write true
    .ok { x with latched := latched, latchFull := latchFull }
  | none =>
    if x.fetched.get then do
      let latchFull ← x.latchFull.write false
      .ok { x with latchFull := latchFull }
    else .ok x

/-- Combinational logic: the write of this cycle, then the read. -/
def settle (x : Bank) : Except Fault Bank := do
  let x ← x.settleWrite
  x.settleRead

/-- The clock edge. -/
def commit (x : Bank) : Bank :=
  { x with
    memory := x.memory.commit
    latchFull := x.latchFull.commit
    latched := x.latched.commit
    writeWaiting := x.writeWaiting.commit
    delayedWrite := x.delayedWrite.commit
    readAddress := x.readAddress.commit
    fetched := x.fetched.commit
    writeAsked := x.writeAsked.commit }

/-- Back to all elements zero and nothing waiting. -/
def reset (x : Bank) : Bank :=
  { x with
    memory := x.memory.reset
    latchFull := x.latchFull.reset
    latched := x.latched.reset
    writeWaiting := x.writeWaiting.reset
    delayedWrite := x.delayedWrite.reset
    readAddress := x.readAddress.reset
    fetched := x.fetched.reset
    writeAsked := x.writeAsked.reset }

/-- The component with its methods `read_req`, `read_resp` and `write`, and the transaction `flush`
that makes a write that was put off. -/
def block {σ : Type} (x : Bank) : Block σ Bank where
  name := x.name
  elements :=
    ["memory", "read_valid", "read_data", "write_pending", "deferred_write", "read_addr",
      "read_consumed", "write_request"]
  ports :=
    [ { name := "read_req"
        input := x.readInput
        ready := some fun _ x => .ok (!x.writeWaiting.read)
        body := fun _ x args => do
          let x ← x.startRead args
          .ok (Record.empty, x) },
      { name := "read_resp"
        output := x.readOutput
        ready := some fun _ x => .ok x.latchFull.read
        body := fun _ x _ => x.fetch },
      { name := "write"
        input := x.writeInput
        ready := some fun _ x => .ok (!x.writeWaiting.read)
        body := fun _ x args => do
          let x ← x.startWrite args
          .ok (Record.empty, x) } ]
  jobs :=
    [ { name := "flush"
        request := fun _ x => .ok x.writeWaiting.read
        body := fun _ x => x.flush } ]
  hook := some fun _ x => x.settle
  commit := commit
  reset := reset

end Bank

end GuardedActions
