import GuardedActions.Bench.Expr

/-!
# Statements of a testbench

Bodies and combinational logic of a testbench are lists of statements.  A statement list becomes a
body of the library; a return ends it, and a body that ends without one returns the empty record.
-/

set_option autoImplicit false

namespace GuardedActions.Bench

/-- A statement. -/
inductive Stmt where
  /-- call a method, with arguments or with those of the call site -/
  | call (method : String) (args : Option Arguments)
  /-- run the body of an action directly, that of a method with the given arguments -/
  | invoke (action : String) (values : List FieldValue)
  /-- one list of statements or another -/
  | branch (condition : Expr) (yes no : List Stmt)
  /-- set a variable -/
  | set (name : String) (value : Expr)
  /-- write a register -/
  | write (box register : String) (value : Expr)
  /-- write an array element -/
  | writeElement (box array : String) (index value : Expr)
  /-- drive a wire -/
  | drive (box wire : String) (value : Expr)
  /-- leave a note with a number -/
  | note (value : Expr)
  /-- log a message if an expression is not 0 -/
  | log (logger : String) (level : Log.Level) (trigger : Expr) (text : String)
  /-- log an error if an expression is 0 -/
  | assert (logger : String) (condition : Expr) (text : String)
  /-- return a record -/
  | ret (result : Arguments)
  /-- keep the right to make calls -/
  | keep
  /-- make a schedule -/
  | schedule
  /-- commit the machine -/
  | commit
  /-- elaborate the machine -/
  | elaborate
  deriving Repr, Inhabited

/-- Where a statement list stands: the shape that a return takes, and how calls are made. -/
structure Home (κ : Type) where
  /-- shape of the results -/
  output : Shape := Shape.empty
  /-- make a call -/
  ask : Call → Body World κ Record

/-- The statements stand in the body of an action. -/
def Home.action (output : Shape) : Home Call := ⟨output, Body.ask⟩

/-- The statements stand where no calls can be made. -/
def Home.quiet : Home Empty := ⟨Shape.empty, fun _ => .fail (.unknownName "caller")⟩

/-- What statements leave: the local knowledge, and the record of a return. -/
abbrev Outcome : Type := Locals × Option Record

namespace Stmt

variable {κ : Type}

/-- Name of the action that a body runs for. -/
def actorName (scene : Scene) : String := (scene.actor.map Prod.snd).getD ""

/-- Make a call, leave a note about its result and remember it. -/
def finishCall (ask : Body World κ Record) (method : String) (noteOf : Record → String) (l : Locals) :
    Body World κ Outcome := do
  let result ← ask
  Body.say (noteOf result)
  return ({ l with results := (method, result) :: l.results }, none)

/-- Change the world by a function of what can be seen. -/
def change (l : Locals) (f : View World → Except Fault World) : Body World κ Outcome := do
  Body.step fun view => (f view).map fun w => ((), w)
  return (l, none)

/-- The method that a name stands for, with its shapes. -/
def resolveMethod (scene : Scene) (name : String) : Except Fault (Listing × Shape × Shape) := do
  let listing ← resolve scene name
  match listing.shapes with
  | some shapes => .ok (listing, shapes)
  | none => .error (.unknownName name)

mutual

/-- The effects of a statement. -/
def body (home : Home κ) (l : Locals) : Stmt → Body World κ Outcome
  | .call method args => do
    let view ← Body.view
    let (listing, input, _) ← Body.ofExcept (resolveMethod view.scene method)
    let record ← Body.ofExcept (args.mapM fun a => a.eval view l input)
    finishCall (home.ask (.perform listing.ref record)) method
      (fun result => "got " ++ actorName view.scene ++ " " ++ listing.name ++ " " ++ result.text) l
  | .invoke action values => do
    let view ← Body.view
    let listing ← Body.ofExcept (resolve view.scene action)
    match listing.shapes with
    | some (input, _) =>
      let record ← Body.ofExcept (recordOf view l input values)
      finishCall (home.ask (.invoke listing.ref record)) action
        (fun result => "invoked " ++ listing.name ++ " " ++ result.text) l
    | none =>
      let _ ← home.ask (.invoke listing.ref Record.empty)
      return (l, none)
  | .branch condition yes no => do
    let view ← Body.view
    let c ← Body.ofExcept (condition.eval view l)
    if c != 0 then bodyAll home l yes else bodyAll home l no
  | .set name value => change l fun view => do
    .ok (view.state.setVariable name (← value.eval view l))
  | .write box register value => change l fun view => do
    let v ← value.eval view l
    view.state.changeBox box fun b => b.write register v
  | .writeElement box array index value => change l fun view => do
    let i ← index.eval view l
    let v ← value.eval view l
    view.state.changeBox box fun b => b.writeElement array (indexFrom i) v
  | .drive box wire value => change l fun view => do
    let v ← value.eval view l
    view.state.changeBox box fun b => b.drive wire v
  | .note value => do
    let view ← Body.view
    let v ← Body.ofExcept (value.eval view l)
    Body.say ("note " ++ toString v.toNat)
    return (l, none)
  | .log logger level trigger text => do
    let view ← Body.view
    let t ← Body.ofExcept (trigger.eval view l)
    Body.log (Log.triggered level logger (t != 0) text)
    return (l, none)
  | .assert logger condition text => do
    let view ← Body.view
    let c ← Body.ofExcept (condition.eval view l)
    Body.log (Log.assertion logger (c != 0) text)
    return (l, none)
  | .ret result => do
    let view ← Body.view
    let record ← Body.ofExcept (result.eval view l home.output)
    return (l, some record)
  | .keep => change l fun view => .ok { view.state with kept := true }
  | .schedule => .fail .scheduleInCycle
  | .commit => .fail .commitInCycle
  | .elaborate => do
    Body.say Registry.alreadyElaborated.message
    return (l, none)

/-- The effects of statements in a row, up to the first return. -/
def bodyAll (home : Home κ) (l : Locals) : List Stmt → Body World κ Outcome
  | [] => .done (l, none)
  | s :: rest => do
    let (l, returned) ← body home l s
    match returned with
    | some record => return (l, some record)
    | none => bodyAll home l rest

end

/-- The body of a method: a note, then the statements. -/
def methodBody (name : String) (output : Shape) (stmts : List Stmt) (args : Record) :
    ActionBody World Record := do
  Body.say ("run " ++ name ++ " " ++ args.text)
  let (_, returned) ← bodyAll (Home.action output) { args := args } stmts
  return returned.getD Record.empty

/-- The body of a transaction: a note, then the statements. -/
def transactionBody (name : String) (stmts : List Stmt) : ActionBody World Unit := do
  Body.say ("run " ++ name)
  let _ ← bodyAll (Home.action Shape.empty) {} stmts
  return ()

/-- Combinational logic made of statements. -/
def hook (stmts : List Stmt) : Body World Empty Unit := do
  let _ ← bodyAll Home.quiet {} stmts
  return ()

end Stmt

end GuardedActions.Bench
