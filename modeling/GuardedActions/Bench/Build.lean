import GuardedActions.Bench.Basic

/-!
# Building steps

Steps that add components, actions, calls and conflicts to the machine of a testbench.  A component is
refused by a frozen design before its shape is looked at.
-/

set_option autoImplicit false

namespace GuardedActions.Bench

/-- Replace the design of the machine. -/
def withDesign (b : Bench) (d : Design World) : Bench :=
  { b with machine := { b.machine with design := d } }

/-- Position of the next component. -/
def nextComponent (b : Bench) : Nat := b.machine.state.components.length

/-- The design takes a new component. -/
def acceptsComponent (b : Bench) (name : String) : Except Fault Unit :=
  b.machine.design.main.allow (.newComponent name)

/-- Add the state of a component; its part is in the machine already. -/
def pushComponent (m : Machine World) (c : Component) : Machine World :=
  { m with state := { m.state with components := m.state.components ++ [c] } }

/-- Change the registry that an action belongs to. -/
def changeRegistry (b : Bench) (domain : Domain)
    (f : Registry World → Except Fault (Registry World)) : Except Fault Bench := do
  let r ← f (b.machine.design.registry domain)
  .ok (b.withDesign (b.machine.design.withRegistry domain r))

/-- Add a box. -/
def addBox (b : Bench) (name : String) (registers : List (String × UInt64))
    (arrays : List (String × Nat × UInt64)) (wires : List (String × UInt64)) (logic : List Stmt) :
    Except Fault Bench := do
  let x : Box :=
    { name := name
      registers := registers.map fun (r, start) => Register.new ⟨name, r⟩ start
      arrays := arrays.map fun (a, size, start) => RegisterArray.new ⟨name, a⟩ size start
      wires := wires.map fun (w, idle) => Wire.new ⟨name, w⟩ idle }
  let place := World.boxAt b.nextComponent
  let m ← b.machine.addPart
    { name := name
      elements := x.elements
      commit := place.modify Box.commit
      reset := place.modify Box.reset
      hook := some (Stmt.hook logic) }
  .ok { b with machine := pushComponent m (.box x) }

/-- Add a component that has a name only. -/
def addPlain (b : Bench) (name : String) : Except Fault Bench := do
  let m ← b.machine.addPart
    { name := name, elements := [], commit := fun w => w, reset := fun w => w }
  .ok { b with machine := pushComponent m (.plain name) }

/-- Add a block with a state of its own. -/
def addBlock {τ : Type} (b : Bench) (place : Place World τ) (block : Block World τ) (c : Component) :
    Except Fault Bench := do
  let m ← block.install place b.machine
  .ok { b with machine := pushComponent m c }

/-- Add an associative memory. -/
def addMemory (b : Bench) (name : String) (key data : List Field) (entries : Nat) :
    Except Fault Bench := do
  let keyShape ← Shape.ofFields key
  let dataShape ← Shape.ofFields data
  b.acceptsComponent name
  let x ← AssociativeMemory.build name keyShape dataShape entries
  b.addBlock (World.memoryAt b.nextComponent) x.block (.memory x)

/-- Add a memory bank. -/
def addBank (b : Bench) (name : String) (data : List Field) (count : Nat) (granularity : Option Nat)
    (safe : Bool) : Except Fault Bench := do
  let dataShape ← Shape.ofFields data
  b.acceptsComponent name
  let x ← Bank.build name ⟨dataShape, count, granularity, safe⟩
  b.addBlock (World.bankAt b.nextComponent) x.block (.bank x)

/-- Add a reservation station, whose second method is the insertion. -/
def addStation (b : Bench) (name : String) (config : StationConfig) : Except Fault Bench := do
  b.acceptsComponent name
  let x ← Station.build name config
  let insertRef : ActionRef := ⟨.main, b.machine.design.main.actions.length + 1⟩
  b.addBlock (World.stationAt b.nextComponent) (x.block World.robStart insertRef) (.station x)

/-- Add a requester and answer with the name of its transaction. -/
def installRequester (b : Bench) (name target : String) (priority : Int) :
    Except Fault (Answer × Bench) := do
  let (listing, input, output) ← Stmt.resolveMethod (b.machine.scene none) target
  let index := b.nextComponent
  let x := Requester.new name listing.ref listing.name input output
  let (id, m) ← x.install (World.requesterAt index) priority b.machine
  .ok (.text (Requester.transactionName name),
    { b with machine := pushComponent m (.requester x), requesters := b.requesters ++ [(index, id)] })

/-- Take out the first component of a name. -/
def dropComponent (b : Bench) (name : String) : Except Fault Bench := do
  let components ← modifyFirst (fun c => c.name? == some name) (fun _ => .ok .removed)
    (.unknownName name) b.machine.state.components
  .ok { b with machine :=
    { b.machine with
      state := { b.machine.state with components := components }
      parts := b.machine.parts.eraseP fun part => part.name == name } }

/-- Full name of an action that may belong to a component. -/
def ownedName (inBox : Option String) (name : String) : String :=
  match inBox with
  | none => name
  | some owner => Block.fullName owner name

/-- Add a method and answer with its position. -/
def installMethod (b : Bench) (name : String) (input output : List Field) (inBox : Option String)
    (guest silent : Bool) : Except Fault (Answer × Bench) := do
  let inputShape ← Shape.ofFields input
  let outputShape ← Shape.ofFields output
  let domain : Domain := if guest then .guest else .main
  let r := b.machine.design.registry domain
  let (id, r) ← r.newMethod (ownedName inBox name) inputShape outputShape inBox
  let r ← if silent then r.defineMethodBody id fun _ => .done Record.empty else .ok r
  .ok (.count id, b.withDesign (b.machine.design.withRegistry domain r))

/-- Add a transaction and answer with its position. -/
def installTransaction (b : Bench) (name : String) (priority : Int) (inBox : Option String) :
    Except Fault (Answer × Bench) := do
  let (id, main) ← b.machine.design.main.newTransaction (ownedName inBox name) priority inBox
  .ok (.count id, b.withDesign { b.machine.design with main := main })

/-- Set the body of an action. -/
def defineBody (b : Bench) (name : String) (stmts : List Stmt) : Except Fault Bench := do
  let listing ← b.action name
  b.changeRegistry listing.ref.domain fun r =>
    match listing.shapes with
    | some (_, output) =>
      r.defineMethodBody listing.ref.id (Stmt.methodBody listing.name output stmts)
    | none => r.defineTransactionBody listing.ref.id (Stmt.transactionBody listing.name stmts)

/-- Change an action of a given name. -/
def changeAction (b : Bench) (name : String)
    (f : Registry World → Nat → Except Fault (Registry World)) : Except Fault Bench := do
  let listing ← b.action name
  b.changeRegistry listing.ref.domain fun r => f r listing.ref.id

/-- Early arguments for a call of a method with the given input shape. -/
def supplier (input : Shape) (args : Arguments) : Supplier World :=
  fun view => args.eval view {} input

/-- Declare a call and answer with its position. -/
def newCall (b : Bench) (caller callee : String) (condition : Option Expr)
    (args : Option Arguments) : Except Fault (Answer × Bench) := do
  let source ← b.action caller
  let (target, input, _) ← Stmt.resolveMethod (b.machine.scene none) callee
  let (site, d) ← b.machine.design.declareCall source.ref target.ref
  let r := d.registry source.ref.domain
  let r ← match condition with
    | none => .ok r
    | some e => r.defineCondition site e.guard
  let r ← match args with
    | none => .ok r
    | some a => r.supplyArguments site (supplier input a)
  .ok (.count site, b.withDesign (d.withRegistry source.ref.domain r))

/-- Supply the arguments of an existing call. -/
def callArguments (b : Bench) (site : Nat) (args : Arguments) : Except Fault Bench := do
  let input := (((b.machine.design.main.sites[site]?).bind fun s =>
    b.machine.design.method? s.callee).map Method.input).getD Shape.empty
  b.changeRegistry .main fun r => r.supplyArguments site (supplier input args)

/-- Declare a conflict. -/
def newConflict (b : Bench) (x y : String) : Except Fault Bench := do
  let x ← b.action x
  let y ← b.action y
  .ok (b.withDesign (← b.machine.design.declareConflict x.ref y.ref))

/-- Take a building step. -/
def build (b : Bench) : BuildStep → Except Fault (Answer × Bench)
  | .box name registers arrays wires logic => do
    .ok (.done, ← b.addBox name registers arrays wires logic)
  | .plain name => do .ok (.done, ← b.addPlain name)
  | .drop name => do .ok (.done, ← b.dropComponent name)
  | .method name input output inBox guest silent => b.installMethod name input output inBox guest silent
  | .transaction name priority inBox => b.installTransaction name priority inBox
  | .body name stmts => do .ok (.done, ← b.defineBody name stmts)
  | .ready name e => do .ok (.done, ← b.changeAction name fun r id => r.defineReady id e.guard)
  | .validator name e => do
    .ok (.done, ← b.changeAction name fun r id => r.defineValidator id e.validator)
  | .request name e => do .ok (.done, ← b.changeAction name fun r id => r.defineRequest id e.guard)
  | .nonexclusive name => do .ok (.done, ← b.changeAction name fun r id => r.share id)
  | .early name => do .ok (.done, ← b.changeAction name fun r id => r.demandEarly id)
  | .calls caller callee condition args => b.newCall caller callee condition args
  | .condition site e => do
    .ok (.done, ← b.changeRegistry .main fun r => r.defineCondition site e.guard)
  | .arguments site args => do .ok (.done, ← b.callArguments site args)
  | .conflict x y => do .ok (.done, ← b.newConflict x y)
  | .memory name key data entries => do .ok (.done, ← b.addMemory name key data entries)
  | .bank name data count granularity safe => do
    .ok (.done, ← b.addBank name data count granularity safe)
  | .station name config => do .ok (.done, ← b.addStation name config)
  | .requester name target priority => b.installRequester name target priority

end GuardedActions.Bench
