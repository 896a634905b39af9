import GuardedActions.Bench.Basic

/-!
# Asking steps

Steps that answer questions about a testbench and leave it as it is; only reading the free-standing
tally may clear it.
-/

set_option autoImplicit false

namespace GuardedActions.Bench

/-! ## The call graph -/

/-- The row of an action. -/
def actionRow (id : Nat) (a : Action World) : ActionRow :=
  match a.role with
  | .method m => .method id a.name a.owner m.input.text m.output.text m.body.isSome m.ready.isSome
      m.validator.isSome m.nonexclusive m.needsEarly m.callers.length
  | .transaction t => .transaction id a.name t.priority a.owner t.body.isSome t.request.isSome

/-- The row of a call site. -/
def siteRow (d : Design World) (id : Nat) (s : Site World) : SiteRow where
  id := id
  caller := d.main.nameOf s.caller
  callee := d.nameOf s.callee
  conditional := s.condition.isSome
  early := s.arguments.isSome

/-- The ordered pairs of conflicting transactions, in the order of their creation. -/
def conflictPairs (r : Registry World) : List (String × String) :=
  if r.isFrozen then
    r.transactions.flatMap fun a =>
      (r.transactions.filter (r.ranking.conflict a)).map fun c => (r.nameOf a, r.nameOf c)
  else []

/-- The call graph and what elaboration made of it. -/
def graph (b : Bench) : Graph :=
  let d := b.machine.design
  { elaborated := d.main.isFrozen
    actions := d.main.actions.zipIdx.map fun (a, id) => actionRow id a
    methods := d.main.methods.length
    sites := d.main.numberedSites.map fun s => siteRow d s.1 s.2
    order := d.main.ranking.order.map d.main.nameOf
    conflicts := conflictPairs d.main
    clusters := (d.main.plan.map fun p => p.clusters.length).getD 0
    components := b.machine.parts.map fun part => (part.name, part.elements) }

/-! ## Predicates -/

/-- What a call site says: whether its condition holds, and its early arguments. -/
def probeSite (view : View World) (s : Nat × Site World) :
    Except Fault (Nat × Bool × Option String) := do
  let holds ← Guard.holds s.2.condition view
  match s.2.arguments with
  | none => .ok (s.1, holds, none)
  | some supplier => do .ok (s.1, holds, some (← supplier view).text)

/-- What the predicates of an action say. -/
def probe (b : Bench) (name : String) (args : Option (List Nat)) : Except Fault Probe := do
  let listing ← b.action name
  let view := b.machine.view
  let r := b.machine.design.registry listing.ref.domain
  let sites ← (r.sitesOf listing.ref.id).mapM (probeSite view)
  match (r.action? listing.ref.id).map Action.role with
  | none => .error (.unknownName name)
  | some (.transaction t) =>
    .ok { sites := sites, request := some (← Guard.holds t.request view) }
  | some (.method m) =>
    let ready ← Guard.holds m.ready view
    let valid ← args.mapM fun values =>
      Validator.accepts m.validator view (Record.fill m.input (values.map bitsOf))
    .ok { sites := sites, ready := some ready, valid := valid }

/-! ## Answers -/

/-- What a schedule and the last executed one say about an action. -/
def standing (b : Bench) (s : Schedule) (ref : ActionRef) : List Bool :=
  [s.requests ref.id, s.couldRun ref.id, s.grants ref.id, b.machine.grants ref]

/-- Counters of an action of a session's tally. -/
def sessionTally (s : RunControl) (name : String) : Answer :=
  .tally (s.tally.map fun x => (x.cycles, x.lookup? name))

/-- Answer a question. -/
def answer (b : Bench) : AskStep → Except Fault (Answer × Bench)
  | .eval e => do .ok (.word (← e.eval b.machine.view {}), b)
  | .compare x y =>
    let same := decide (b.slot x = b.slot y)
    .ok (.flags [same, !same], b)
  | .last => .ok (.schedule (b.named b.machine.latest), b)
  | .is name slot => do .ok (.flags (b.standing (b.slot slot) (← b.action name).ref), b)
  | .pending name => do
    .ok (.texts ((b.machine.pending (← b.action name).ref).map Record.text), b)
  | .lookup name => .ok (.position (b.machine.design.main.idOf? name), b)
  | .conflicts x y => do
    let x ← b.action x
    let y ← b.action y
    .ok (.flag (b.machine.design.main.ranking.conflict x.ref.id y.ref.id), b)
  | .probe name args => do .ok (.probe (← b.probe name args), b)
  | .findSite caller callee => do
    let source ← b.action caller
    let target ← b.action callee
    let site := (b.machine.design.registry source.ref.domain).findSite? source.ref.id target.ref
    .ok (.position (site.map Prod.fst), b)
  | .observed name clear =>
    .ok (.observed b.tally.cycles (b.tally.collect []) (b.tally.lookup? name),
      if clear then { b with tally := {} } else b)
  | .graph => .ok (.graph b.graph, b)
  | .state => .ok (.state b.stateView, b)
  | .settings => do .ok (.settings (← b.session).control.settings, b)
  | .figures => do .ok (.figures (← b.session).control.figures, b)
  | .tally name => do .ok (sessionTally (← b.session).control name, b)

end GuardedActions.Bench
