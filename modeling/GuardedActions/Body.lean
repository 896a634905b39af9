import GuardedActions.Journal
import GuardedActions.View

/-!
# Bodies

The body of an action is a tree of effects: it looks at the state, replaces it, leaves notes and log
entries, and makes calls, each followed by what the body does with the answer.  The kind of call is a
parameter: bodies of actions call methods, and the hooks of components, which call nothing, take
`Empty`.  `Body.run` interprets a body; what a call does is up to the caller of `run`.
-/

set_option autoImplicit false

namespace GuardedActions

/-- A computation on state `σ` that makes calls of kind `κ` and returns an `α`. -/
inductive Body (σ κ α : Type) : Type where
  /-- return -/
  | done (result : α) : Body σ κ α
  /-- stop the simulation -/
  | fail (fault : Fault) : Body σ κ α
  /-- look at the state and its surroundings -/
  | look (next : View σ → Body σ κ α) : Body σ κ α
  /-- replace the state -/
  | update (state : σ) (next : Body σ κ α) : Body σ κ α
  /-- leave a note -/
  | note (text : String) (next : Body σ κ α) : Body σ κ α
  /-- log an entry -/
  | report (entry : Log.Entry) (next : Body σ κ α) : Body σ κ α
  /-- make a call -/
  | call (request : κ) (next : Record → Body σ κ α) : Body σ κ α

/-- A call made by the body of an action. -/
inductive Call where
  /-- call a method through a declared call site, with explicit arguments or with those of the
  site -/
  | perform (callee : ActionRef) (args : Option Record)
  /-- run the body of an action directly, as part of the running action -/
  | invoke (target : ActionRef) (args : Record)
  deriving DecidableEq, Repr, Inhabited

/-- The body of a method for given arguments, or of a transaction. -/
abbrev ActionBody (σ α : Type) : Type := Body σ Call α

/-- The combinational logic of a component. -/
abbrev Hook (σ : Type) : Type := Body σ Empty Unit

namespace Body

variable {σ κ α β : Type}

/-- Go on with the result of a body. -/
def bind : Body σ κ α → (α → Body σ κ β) → Body σ κ β
  | .done a, f => f a
  | .fail fault, _ => .fail fault
  | .look next, f => .look fun view => (next view).bind f
  | .update state next, f => .update state (next.bind f)
  | .note text next, f => .note text (next.bind f)
  | .report entry next, f => .report entry (next.bind f)
  | .call request next, f => .call request fun answer => (next answer).bind f

instance : Monad (Body σ κ) where
  pure := .done
  bind := bind

/-- What can be seen. -/
def view : Body σ κ (View σ) := .look .done

/-- Replace the state. -/
def put (state : σ) : Body σ κ Unit := .update state (.done ())

/-- Leave a note. -/
def say (text : String) : Body σ κ Unit := .note text (.done ())

/-- Log an entry if there is one. -/
def log (entry : Option Log.Entry) : Body σ κ Unit :=
  match entry with
  | none => .done ()
  | some entry => .report entry (.done ())

/-- Make a call and return its answer. -/
def ask (request : κ) : Body σ κ Record := .call request .done

/-- The result of a computation that may fault. -/
def ofExcept (result : Except Fault α) : Body σ κ α :=
  match result with
  | .ok a => .done a
  | .error fault => .fail fault

/-- Replace the state by a function of what can be seen, which may fault. -/
def step (change : View σ → Except Fault (α × σ)) : Body σ κ α :=
  .look fun view =>
    match change view with
    | .ok (a, state) => .update state (.done a)
    | .error fault => .fail fault

/-- The part of a run that bodies change: the state, the journal, and whatever the answering of calls
keeps track of. -/
structure Effects (σ ρ : Type) where
  /-- simulated state -/
  state : σ
  /-- what was told -/
  journal : Journal
  /-- record of the calls made so far -/
  calls : ρ

variable {ρ : Type}

/-- Run a body in a scene.  `answer` makes the calls. -/
def run (scene : Scene) (answer : κ → Effects σ ρ → Except Fault (Record × Effects σ ρ)) :
    Body σ κ α → Effects σ ρ → Except Fault (α × Effects σ ρ)
  | .done a, e => .ok (a, e)
  | .fail fault, _ => .error fault
  | .look next, e => (next ⟨e.state, scene⟩).run scene answer e
  | .update state next, e => next.run scene answer { e with state := state }
  | .note text next, e => next.run scene answer { e with journal := e.journal.note text }
  | .report entry next, e => next.run scene answer { e with journal := e.journal.report entry }
  | .call request next, e =>
    match answer request e with
    | .error fault => .error fault
    | .ok (result, e) => (next result).run scene answer e

@[simp] theorem run_done (scene : Scene)
    (answer : κ → Effects σ ρ → Except Fault (Record × Effects σ ρ)) (a : α) (e : Effects σ ρ) :
    (Body.done a : Body σ κ α).run scene answer e = .ok (a, e) := rfl

@[simp] theorem run_fail (scene : Scene)
    (answer : κ → Effects σ ρ → Except Fault (Record × Effects σ ρ)) (fault : Fault)
    (e : Effects σ ρ) :
    (Body.fail fault : Body σ κ α).run scene answer e = .error fault := rfl

/-- Running two bodies in a row is running the first and then the second. -/
theorem run_bind (scene : Scene)
    (answer : κ → Effects σ ρ → Except Fault (Record × Effects σ ρ))
    (body : Body σ κ α) (f : α → Body σ κ β) (e : Effects σ ρ) :
    (body.bind f).run scene answer e =
      (body.run scene answer e).bind fun r => (f r.1).run scene answer r.2 := by
  induction body generalizing e with
  | done a => rfl
  | fail fault => rfl
  | look next ih => simp only [bind, run]; exact ih _ e
  | update state next ih => simp only [bind, run]; exact ih _
  | note text next ih => simp only [bind, run]; exact ih _
  | report entry next ih => simp only [bind, run]; exact ih _
  | call request next ih =>
    simp only [bind, run]
    cases answer request e with
    | error fault => rfl
    | ok r => exact ih r.1 r.2

end Body

end GuardedActions
