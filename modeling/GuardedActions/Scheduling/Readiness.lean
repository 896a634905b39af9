import GuardedActions.Scheduling.Activation

/-!
# Readiness

The second phase of scheduling.  A method is ready if its own predicate holds and all its active
calls are ready; a call is ready if its callee is and the callee's validator accepts the early
arguments.  Answers about methods are remembered, so that every predicate is asked at most once.
-/

set_option autoImplicit false

namespace GuardedActions

/-- The answers about methods known so far. -/
abbrev ReadyMemo : Type := List (Option Bool)

namespace Machine

variable {σ : Type}

/-- Whether every one of some questions is answered with yes; the first no ends the asking. -/
def allReady {α : Type} (ask : α → ReadyMemo → Except Fault (Bool × ReadyMemo)) :
    List α → ReadyMemo → Except Fault (Bool × ReadyMemo)
  | [], memo => .ok (true, memo)
  | x :: rest, memo => do
    let (yes, memo) ← ask x memo
    if yes then allReady ask rest memo else .ok (false, memo)

/-- Whether the validator of a method accepts the early arguments of a call site. -/
def validates (view : View σ) (early : List (Option Record)) (callee : Method σ) (site : Nat) :
    Except Fault Bool :=
  match callee.validator with
  | none => .ok true
  | some v =>
    match early[site]?.join with
    | none => .ok false
    | some args => v view args

/-- Whether a call is ready, given how to find out about its callee, and the answers known
afterwards. -/
def askSiteBy (m : Machine σ) (a : Activation)
    (ready : Nat → ReadyMemo → Except Fault (Bool × ReadyMemo)) (s : Nat × Site σ)
    (memo : ReadyMemo) : Except Fault (Bool × ReadyMemo) := do
  let (yes, memo) ← ready s.2.callee.id memo
  if yes then
    match m.design.method? s.2.callee with
    | some callee =>
      let accepted ← validates (m.viewWith a.active a.early) a.early callee s.1
      .ok (accepted, memo)
    | none => .ok (true, memo)
  else .ok (false, memo)

/-- The active call sites of an action. -/
def activeSitesOf (m : Machine σ) (a : Activation) (id : Nat) : List (Nat × Site σ) :=
  (m.design.main.sitesOf id).filter fun s => a.active.test s.1

/-- Whether a method is ready, and the answers known afterwards.  The fuel bounds the nesting of
calls. -/
def askMethod (m : Machine σ) (a : Activation) :
    (fuel : Nat) → (id : Nat) → ReadyMemo → Except Fault (Bool × ReadyMemo)
  | 0, _, _ => .error .nestingLimit
  | fuel + 1, id, memo =>
    match memo[id]?.join with
    | some known => .ok (known, memo)
    | none => do
      let own ← Guard.holds ((m.design.main.method? id).bind Method.ready)
        (m.viewWith a.active a.early)
      let (yes, memo) ←
        if own then
          allReady (m.askSiteBy a (m.askMethod a fuel)) (m.activeSitesOf a id) memo
        else .ok (false, memo)
      .ok (yes, memo.set id (some yes))

/-- Whether a call is ready, and the answers known afterwards. -/
def askSite (m : Machine σ) (a : Activation) (s : Nat × Site σ) (memo : ReadyMemo) :
    Except Fault (Bool × ReadyMemo) :=
  m.askSiteBy a (m.askMethod a m.callDepth) s memo

/-- Find out which requested methods can run. -/
def runnableMethods (m : Machine σ) (a : Activation) (methods : List Nat) (runnable : Mask)
    (memo : ReadyMemo) : Except Fault (Mask × ReadyMemo) :=
  methods.foldlM
    (fun (runnable, memo) id => do
      if a.requested.test id then
        let (yes, memo) ← m.askMethod a m.callDepth id memo
        .ok (if yes then runnable.insert id else runnable, memo)
      else .ok (runnable, memo))
    (runnable, memo)

/-- Find out which requested transactions can run. -/
def runnableTransactions (m : Machine σ) (a : Activation) (transactions : List Nat)
    (runnable : Mask) (memo : ReadyMemo) : Except Fault (Mask × ReadyMemo) :=
  transactions.foldlM
    (fun (runnable, memo) id => do
      if a.requested.test id then
        let (yes, memo) ← allReady (m.askSite a) (m.activeSitesOf a id) memo
        .ok (if yes then runnable.insert id else runnable, memo)
      else .ok (runnable, memo))
    (runnable, memo)

/-- The actions that can run: methods first, then transactions. -/
def runnableActions (m : Machine σ) (a : Activation) : Except Fault Mask := do
  let size := m.design.main.actions.length
  let (runnable, memo) ←
    m.runnableMethods a m.design.main.methods (Mask.none size) (List.replicate size none)
  let (runnable, _) ← m.runnableTransactions a m.design.main.transactions runnable memo
  .ok runnable

end Machine

end GuardedActions
