import GuardedActions.Proofs.Execution.Trace

/-!
# What is simulated does not hear what is told

Bodies leave notes and log entries, and nothing that is simulated reads them.  A machine that has another
journal makes the same schedule, and executing it goes together even if the bodies tell other words: the same
things happen and the states are the same, or both stop with the same fault (`Machine.executeTraced_retell`).
The journals stay related if they do word by word.  If the words are the same, the journals grow by the same
number of errors; if a note is left instead of every error, the errors are known by their messages
(`Machine.errorsIn`).
-/

set_option autoImplicit false

namespace GuardedActions

variable {σ κ α ρ : Type} {J : Journal → Journal → Prop}

/-- Something that a body tells. -/
inductive Word where
  /-- a note -/
  | note (text : String)
  /-- a log entry -/
  | report (entry : Log.Entry)
  deriving DecidableEq, Repr

/-- Take down a word. -/
def Journal.hear (j : Journal) : Word → Journal
  | .note text => j.note text
  | .report entry => j.report entry

/-- What is told instead of every word. -/
abbrev Retelling : Type := Word → List Word

/-- Journals that are related stay so when one hears a word and the other one what is told instead. -/
def Retelling.Keeps (f : Retelling) (J : Journal → Journal → Prop) : Prop :=
  ∀ (word : Word) (j j' : Journal), J j j' → J (j.hear word) ((f word).foldl Journal.hear j')

/-- The second journal has counted some number of errors more. -/
def Journal.Ahead (d : UInt32) (j j' : Journal) : Prop := j'.log.errors = j.log.errors + d

/-- The same words. -/
def Retelling.same : Retelling := fun word => [word]

/-- A note of the message is left instead of every error, failed assertions included, and nothing else is told. -/
def Retelling.notingErrors : Retelling
  | .note _ => []
  | .report entry => if entry.level = .error then [.note entry.message] else []

/-- Journals that hear the same stay as many errors apart as they are. -/
theorem Retelling.same_keeps_ahead (d : UInt32) : same.Keeps (Journal.Ahead d) := by
  intro word j j' h
  cases word with
  | note text => exact h
  | report entry =>
    show (j'.log.add entry).errors = (j.log.add entry).errors + d
    rw [Log.errors_add, Log.errors_add, h]
    split
    · rw [UInt32.add_assoc, UInt32.add_comm d, ← UInt32.add_assoc]
    · rfl

/-- A log counts the notes that another journal gets for errors. -/
theorem Retelling.notingErrors_keeps (start : UInt32) :
    notingErrors.Keeps fun j j' => j.log.errors = start + UInt32.ofNat j'.notes.size := by
  intro word j j' h
  cases word with
  | note text => exact h
  | report entry =>
    show (j.log.add entry).errors = _
    rw [Log.errors_add, notingErrors]
    split
    · show j.log.errors + 1 = _ + UInt32.ofNat (j'.notes.push entry.message).size
      rw [Array.size_push, UInt32.ofNat_add, ← UInt32.add_assoc, ← h]
      rfl
    · exact h

namespace Body

/-- Tell words, and go on. -/
def tell : List Word → Body σ κ α → Body σ κ α
  | [], body => body
  | .note text :: words, body => .note text (tell words body)
  | .report entry :: words, body => .report entry (tell words body)

/-- The body that tells other words. -/
def retell (f : Retelling) : Body σ κ α → Body σ κ α
  | .done a => .done a
  | .fail fault => .fail fault
  | .look next => .look fun view => (next view).retell f
  | .update state next => .update state (next.retell f)
  | .note text next => tell (f (.note text)) (next.retell f)
  | .report entry next => tell (f (.report entry)) (next.retell f)
  | .call request next => .call request fun answer => (next answer).retell f

theorem run_tell (scene : Scene) (answer : κ → Effects σ ρ → Except Fault (Record × Effects σ ρ))
    (words : List Word) (body : Body σ κ α) (e : Effects σ ρ) : (tell words body).run scene answer e =
      body.run scene answer { e with journal := words.foldl Journal.hear e.journal } := by
  induction words generalizing e with
  | nil => rfl
  | cons word words ih =>
    cases word with
    | note text => exact ih { e with journal := e.journal.note text }
    | report entry => exact ih { e with journal := e.journal.report entry }

/-- Two runs are at the same point, with related journals. -/
structure Effects.Beside (J : Journal → Journal → Prop) (e e' : Effects σ ρ) : Prop where
  /-- the states are the same -/
  state : e'.state = e.state
  /-- so are the records of the calls -/
  calls : e'.calls = e.calls
  /-- the journals are related -/
  journal : J e.journal e'.journal

namespace Effects.Beside

variable {e e' : Effects σ ρ}

theorem update (h : e.Beside J e') (state : σ) :
    Beside J { e with state := state } { e' with state := state } :=
  ⟨rfl, h.calls, h.journal⟩

theorem hear (h : e.Beside J e') {f : Retelling} (hf : f.Keeps J) (word : Word) :
    Beside J { e with journal := e.journal.hear word }
      { e' with journal := (f word).foldl Journal.hear e'.journal } :=
  ⟨h.state, h.calls, hf word _ _ h.journal⟩

theorem mapCalls {ρ' : Type} (h : e.Beside J e') (g : ρ → ρ') : (e.mapCalls g).Beside J (e'.mapCalls g) :=
  ⟨h.state, congrArg g h.calls, h.journal⟩

end Effects.Beside

/-- What a body returned, and where it is now, next to each other. -/
def Returned (J : Journal → Journal → Prop) (r r' : α × Effects σ ρ) : Prop := r.1 = r'.1 ∧ r.2.Beside J r'.2

/-- A body and one that tells other words run together if the calls do. -/
theorem run_retell (scene : Scene) {f : Retelling} (hf : f.Keeps J)
    {answer answer' : κ → Effects σ ρ → Except Fault (Record × Effects σ ρ)}
    (hanswer : ∀ request e e', e.Beside J e' → Together (Returned J) (answer request e) (answer' request e'))
    (body : Body σ κ α) {e e' : Effects σ ρ} (h : e.Beside J e') :
    Together (Returned J) (body.run scene answer e) ((body.retell f).run scene answer' e') := by
  induction body generalizing e e' with
  | done a => exact .ok ⟨rfl, h⟩
  | fail fault => exact .error fault
  | look next ih =>
    unfold retell run
    rw [h.state]
    exact ih _ h
  | update state next ih => exact ih (h.update state)
  | note text next ih =>
    rw [retell, run_tell]
    exact ih (h.hear hf (.note text))
  | report entry next ih =>
    rw [retell, run_tell]
    exact ih (h.hear hf (.report entry))
  | call request next ih =>
    unfold retell run
    have hcall := hanswer request e e' h
    revert hcall
    generalize answer request e = x
    generalize answer' request e' = x'
    intro hcall
    cases hcall with
    | error fault => exact .error fault
    | @ok r r' related =>
      obtain ⟨result, e₁⟩ := r
      obtain ⟨result', e₁'⟩ := r'
      obtain ⟨rfl, hbeside⟩ := related
      exact ih result hbeside

/-- The words may be the same. -/
theorem retell_same (body : Body σ κ α) : body.retell .same = body := by
  induction body with
  | done a => rfl
  | fail fault => rfl
  | look next ih => exact congrArg look (funext ih)
  | update state next ih => exact congrArg (update state) ih
  | note text next ih => exact congrArg (note text) ih
  | report entry next ih => exact congrArg (report entry) ih
  | call request next ih => exact congrArg (call request) (funext ih)

end Body

/-! ## Designs whose bodies tell other words -/

/-- The body of the method tells other words. -/
def Method.retell (f : Retelling) (x : Method σ) : Method σ :=
  { x with body := x.body.map fun body args => (body args).retell f }

/-- The body of the transaction tells other words. -/
def Transaction.retell (f : Retelling) (t : Transaction σ) : Transaction σ :=
  { t with body := t.body.map (Body.retell f) }

/-- The body tells other words, whatever the kind of the action. -/
def Role.retell (f : Retelling) : Role σ → Role σ
  | .method x => .method (x.retell f)
  | .transaction t => .transaction (t.retell f)

/-- The body of the action tells other words. -/
def Action.retell (f : Retelling) (a : Action σ) : Action σ := { a with role := a.role.retell f }

/-- The bodies of the actions tell other words. -/
def Registry.retell (f : Retelling) (r : Registry σ) : Registry σ :=
  { r with actions := r.actions.map (Action.retell f) }

/-- The bodies of both registries tell other words. -/
def Design.retell (f : Retelling) (d : Design σ) : Design σ := ⟨d.main.retell f, d.guest.retell f⟩

/-- The logic of the component tells other words. -/
def Part.retell (f : Retelling) (part : Part σ) : Part σ :=
  { part with hook := part.hook.map (Body.retell f) }

/-- The machine tells other words, and has another journal. -/
def Machine.retell (m : Machine σ) (f : Retelling) (j : Journal) : Machine σ :=
  { m with design := m.design.retell f, parts := m.parts.map (Part.retell f), journal := j }

/-- The same machine with another journal. -/
def Machine.withJournal (m : Machine σ) (j : Journal) : Machine σ := m.mapJournal fun _ => j

@[simp] theorem Machine.design_withJournal (m : Machine σ) (j : Journal) : (m.withJournal j).design = m.design := rfl

section

variable (f : Retelling)

theorem Action.method?_retell (a : Action σ) : (a.retell f).method? = a.method?.map (Method.retell f) := by
  obtain ⟨name, owner, role⟩ := a
  cases role with
  | method x => rfl
  | transaction t => rfl

theorem Action.transaction?_retell (a : Action σ) :
    (a.retell f).transaction? = a.transaction?.map (Transaction.retell f) := by
  obtain ⟨name, owner, role⟩ := a
  cases role with
  | method x => rfl
  | transaction t => rfl

theorem Action.listing_retell (a : Action σ) (ref : ActionRef) : (a.retell f).listing ref = a.listing ref := by
  obtain ⟨name, owner, role⟩ := a
  cases role with
  | method x => rfl
  | transaction t => rfl

namespace Registry

variable (r : Registry σ)

theorem action?_retell (id : Nat) : (r.retell f).action? id = (r.action? id).map (Action.retell f) :=
  List.getElem?_map ..

theorem method?_retell (id : Nat) : (r.retell f).method? id = (r.method? id).map (Method.retell f) := by
  unfold method?
  rw [action?_retell]
  cases r.action? id with
  | none => rfl
  | some a => exact a.method?_retell f

theorem transaction?_retell (id : Nat) :
    (r.retell f).transaction? id = (r.transaction? id).map (Transaction.retell f) := by
  unfold transaction?
  rw [action?_retell]
  cases r.action? id with
  | none => rfl
  | some a => exact a.transaction?_retell f

theorem nameOf_retell (id : Nat) : (r.retell f).nameOf id = r.nameOf id := by
  unfold nameOf
  rw [action?_retell]
  cases r.action? id with
  | none => rfl
  | some a => rfl

theorem methods_retell : (r.retell f).methods = r.methods := by
  unfold methods ids
  rw [show (r.retell f).actions.length = r.actions.length from List.length_map _]
  congr 1
  funext id
  rw [method?_retell, Option.isSome_map]

end Registry

namespace Design

variable (d : Design σ)

theorem registry_retell (domain : Domain) : (d.retell f).registry domain = (d.registry domain).retell f := by
  cases domain with
  | main => rfl
  | guest => rfl

theorem action?_retell (ref : ActionRef) : (d.retell f).action? ref = (d.action? ref).map (Action.retell f) := by
  unfold action?
  rw [registry_retell, Registry.action?_retell]

theorem method?_retell (ref : ActionRef) : (d.retell f).method? ref = (d.method? ref).map (Method.retell f) := by
  unfold method?
  rw [action?_retell]
  cases d.action? ref with
  | none => rfl
  | some a => exact a.method?_retell f

theorem nameOf_retell (ref : ActionRef) : (d.retell f).nameOf ref = d.nameOf ref := by
  unfold nameOf
  rw [registry_retell, Registry.nameOf_retell]

theorem lookup_retell : (d.retell f).lookup = d.lookup := by
  funext domain name
  unfold lookup
  have hid : ((d.registry domain).retell f).idOf? name = (d.registry domain).idOf? name := by
    unfold Registry.idOf? Registry.retell
    rw [List.findIdx?_map]
    rfl
  rw [registry_retell, hid]
  cases (d.registry domain).idOf? name with
  | none => rfl
  | some id =>
    simp only [Option.bind_eq_bind, Option.bind_some, Registry.action?_retell]
    cases (d.registry domain).action? id with
    | none => rfl
    | some a => exact congrArg some (a.listing_retell f _)

end Design

end

namespace Machine

open Body (Returned)

variable (m : Machine σ) (f : Retelling) (j : Journal)

@[simp] theorem design_retell : (m.retell f j).design = m.design.retell f := rfl

/-- The words may be the same. -/
theorem retell_same : m.retell .same j = m.withJournal j := by
  have hregistry : ∀ r : Registry σ, r.retell .same = r := by
    intro r
    have hactions : r.actions.map (Action.retell .same) = r.actions := by
      refine (List.map_congr_left fun a _ => ?_).trans (List.map_id _)
      obtain ⟨name, owner, role⟩ := a
      cases role with
      | method x =>
        have hbody : x.body.map (fun body args => (body args).retell .same) = x.body := by
          simp only [Body.retell_same, Option.map_id']
        exact congrArg (fun body => Action.mk name owner (.method { x with body := body })) hbody
      | transaction t =>
        have hbody : t.body.map (Body.retell .same) = t.body := by
          simp only [funext Body.retell_same, Option.map_id']
        exact congrArg (fun body => Action.mk name owner (.transaction { t with body := body })) hbody
    exact congrArg (fun actions => { r with actions := actions }) hactions
  have hparts : m.parts.map (Part.retell .same) = m.parts := by
    refine (List.map_congr_left fun part _ => ?_).trans (List.map_id _)
    have hhook : part.hook.map (Body.retell .same) = part.hook := by
      simp only [funext Body.retell_same, Option.map_id']
    exact congrArg (fun hook => { part with hook := hook }) hhook
  unfold retell Design.retell
  rw [hregistry, hregistry, hparts]
  rfl

/-! ## Schedules -/

theorem activateFrom_withJournal (fuel : Nat) : (m.withJournal j).activateFrom fuel = m.activateFrom fuel := by
  induction fuel with
  | zero => rfl
  | succ fuel ih =>
    funext action a
    unfold activateFrom
    rw [ih]
    rfl

theorem askMethod_withJournal (a : Activation) (fuel : Nat) :
    (m.withJournal j).askMethod a fuel = m.askMethod a fuel := by
  induction fuel with
  | zero => rfl
  | succ fuel ih =>
    funext id memo
    unfold askMethod
    rw [ih]
    rfl

theorem grantFrom_withJournal (active : Mask) (fuel : Nat) :
    (m.withJournal j).grantFrom active fuel = m.grantFrom active fuel := by
  induction fuel with
  | zero => rfl
  | succ fuel ih =>
    funext action g
    unfold grantFrom
    rw [ih]
    rfl

theorem schedule_withJournal : (m.withJournal j).schedule = m.schedule := by
  have hactivate : (m.withJournal j).activateAll = m.activateAll := by
    unfold activateAll activateTransaction
    rw [activateFrom_withJournal]
    rfl
  have hrunnable : (m.withJournal j).runnableActions = m.runnableActions := by
    funext a
    unfold runnableActions runnableMethods runnableTransactions askSite
    rw [askMethod_withJournal]
    rfl
  have hgrant : (m.withJournal j).grantAll = m.grantAll := by
    funext active order winners
    unfold grantAll
    rw [grantFrom_withJournal]
    rfl
  unfold schedule scheduleWith
  rw [hactivate, hrunnable, hgrant]
  rfl

/-! ## What bodies see and what is checked -/

theorem callersOf_retell (ref : ActionRef) : (m.retell f j).callersOf ref = m.callersOf ref := by
  unfold callersOf
  rw [design_retell, Design.method?_retell]
  cases m.design.method? ref with
  | none => rfl
  | some x => rfl

theorem scene_retell (actor : Option (ActionRef × String)) : (m.retell f j).scene actor = m.scene actor := by
  have hpending : (m.retell f j).pending = m.pending := by
    funext ref
    unfold pending pendingWith
    rw [callersOf_retell]
    rfl
  unfold scene
  rw [hpending, design_retell, Design.lookup_retell]
  rfl

theorem bodyScene_retell (id : Nat) : (m.retell f j).bodyScene id = m.bodyScene id := by
  unfold bodyScene
  rw [scene_retell]
  exact congrArg (fun name => m.scene (some (⟨.main, id⟩, name))) (m.design.main.nameOf_retell f id)

theorem claimSite_retell (s : Schedule) (caller : Nat) (callee : ActionRef) (l : Ledger) :
    (m.retell f j).claimSite s caller callee l = m.claimSite s caller callee l := by
  unfold claimSite
  rw [design_retell, Design.nameOf_retell, show (m.design.retell f).main = m.design.main.retell f from rfl,
    Registry.nameOf_retell]
  rfl

theorem passedArguments_retell (s : Schedule) (caller : Nat) (callee : ActionRef) (target : Method σ) (id : Nat)
    (site : Site σ) (args : Option Record) :
    (m.retell f j).passedArguments s caller callee (target.retell f) id site args =
      m.passedArguments s caller callee target id site args := by
  unfold passedArguments
  rw [design_retell, Design.nameOf_retell, show (m.design.retell f).main = m.design.main.retell f from rfl,
    Registry.nameOf_retell]
  rfl

theorem checkRun_retell (name : String) (target : Method σ) (args : Record) (state : σ) :
    (m.retell f j).checkRun name (target.retell f) args state = m.checkRun name target args state := by
  unfold checkRun
  rw [scene_retell]
  rfl

theorem checkExclusive_retell (s : Schedule) : (m.retell f j).checkExclusive s = m.checkExclusive s := by
  unfold checkExclusive
  rw [design_retell, show (m.design.retell f).main = m.design.main.retell f from rfl, Registry.methods_retell]
  congr 1
  funext id
  rw [Registry.method?_retell, Registry.nameOf_retell]
  cases m.design.main.method? id with
  | none => rfl
  | some x => rfl

theorem checkPerformed_retell (s : Schedule) (l : Ledger) :
    (m.retell f j).checkPerformed s l = m.checkPerformed s l := by
  unfold checkPerformed
  rw [show (m.retell f j).design.main.numberedSites = m.design.main.numberedSites from rfl]
  cases m.design.main.numberedSites.find? fun x => s.grantedSites.test x.1 && !l.performed.test x.1 with
  | none => rfl
  | some found =>
    simp only [design_retell, Design.nameOf_retell, show (m.design.retell f).main = m.design.main.retell f from rfl,
      Registry.nameOf_retell]

/-! ## Executions -/

variable {f j} (hf : f.Keeps J)
include hf

/-- A call is made alike. -/
theorem answerTraced_retell (s : Schedule) :
    ∀ (fuel caller : Nat) (call : Call) (e e' : Body.Effects σ Account), e.Beside J e' →
      Together (Returned J) (m.answerTraced s fuel caller call e)
        ((m.retell f j).answerTraced s fuel caller call e') := by
  intro fuel
  induction fuel with
  | zero =>
    intro caller call e e' h
    exact .error Fault.nestingLimit
  | succ fuel ih =>
    rintro caller call ⟨state, journal, calls⟩ ⟨state', journal', calls'⟩ ⟨hstate, hcalls, hjournal⟩
    obtain rfl : state' = state := hstate
    obtain rfl : calls' = calls := hcalls
    cases call with
    | perform callee args =>
      unfold answerTraced
      rw [claimSite_retell]
      refine (Together.of_eq _).bind fun found _ hfound => ?_
      subst hfound
      obtain ⟨id, site⟩ := found
      simp only [design_retell, Design.method?_retell, Design.nameOf_retell]
      cases m.design.method? callee with
      | none => exact .error _
      | some target =>
        simp only [Option.map_some, passedArguments_retell]
        refine (Together.of_eq _).bind fun passed _ hpassed => ?_
        subst hpassed
        cases (calls'.perform id args).ledger.resultOf callee.id with
        | some result =>
          show Together _ (if target.nonexclusive then _ else _) (if target.nonexclusive then _ else _)
          split
          · exact .ok ⟨rfl, rfl, rfl, hjournal⟩
          · exact .error _
        | none =>
          simp only [checkRun_retell, show ∀ passed, drivingArguments s callee.id (target.retell f) id passed =
            drivingArguments s callee.id target id passed from fun _ => rfl]
          refine (Together.of_eq _).bind fun _ _ _ => ?_
          rw [show (target.retell f).body = target.body.map fun body args => (body args).retell f from rfl]
          cases target.body with
          | none => exact .error _
          | some body =>
            simp only [Option.map_some, bodyScene_retell]
            refine (Body.run_retell _ hf (ih callee.id) _ ?_).bind fun r r' hr => ?_
            · exact ⟨rfl, rfl, hjournal⟩
            obtain ⟨result, e⟩ := r
            obtain ⟨result', e'⟩ := r'
            obtain ⟨rfl, hbeside⟩ := hr
            show Together _ (if result.shape = target.output then _ else _)
              (if result.shape = target.output then _ else _)
            split
            · exact .ok ⟨rfl, hbeside.mapCalls fun a => (a.leave callee.id result).answer id result⟩
            · exact .error _
    | invoke target args =>
      unfold answerTraced
      simp only [design_retell, Design.action?_retell, Design.nameOf_retell]
      rw [show ((m.design.action? target).map (Action.retell f)).map Action.role =
        ((m.design.action? target).map Action.role).map (Role.retell f) by rw [Option.map_map, Option.map_map]; rfl]
      cases (m.design.action? target).map Action.role with
      | none => exact .error _
      | some role =>
        cases role with
        | method x =>
          simp only [Option.map_some, Role.retell, Method.retell]
          cases x.body with
          | none => exact .error _
          | some body =>
            simp only [Option.map_some, bodyScene_retell]
            refine Body.run_retell _ hf (ih caller) _ ?_
            exact ⟨rfl, rfl, hjournal⟩
        | transaction t =>
          simp only [Option.map_some, Role.retell, Transaction.retell]
          cases t.body with
          | none => exact .error _
          | some body =>
            simp only [Option.map_some, bodyScene_retell]
            refine (Body.run_retell _ hf (ih caller) _ ?_).bind fun r r' hr => .ok ⟨rfl, hr.2⟩
            exact ⟨rfl, rfl, hjournal⟩

/-- A transaction runs alike. -/
theorem runTransactionTraced_retell (s : Schedule) (t : Nat) {e e' : Body.Effects σ Account}
    (h : e.Beside J e') : Together (Body.Effects.Beside J) (m.runTransactionTraced s e t)
      ((m.retell f j).runTransactionTraced s e' t) := by
  unfold runTransactionTraced
  split
  · have hbody : ((m.retell f j).design.main.transaction? t).bind Transaction.body =
        ((m.design.main.transaction? t).bind Transaction.body).map (Body.retell f) := by
      rw [show (m.retell f j).design.main = m.design.main.retell f from rfl, Registry.transaction?_retell]
      cases m.design.main.transaction? t with
      | none => rfl
      | some x => rfl
    have hname : (m.retell f j).design.main.nameOf t = m.design.main.nameOf t := m.design.main.nameOf_retell f t
    rw [hbody, hname]
    cases (m.design.main.transaction? t).bind Transaction.body with
    | none => exact .error _
    | some body =>
      simp only [Option.map_some, bodyScene_retell]
      refine (Body.run_retell _ hf (m.answerTraced_retell hf s m.bodyDepth t) body ?_).map fun _ _ hr => hr.2
      exact ⟨h.state, congrArg (Account.start · t) h.calls, h.journal⟩
  · exact .ok h

/-- The logic of a component runs alike. -/
theorem runHook_retell (part : Part σ) {e e' : Body.Effects σ Ledger} (h : e.Beside J e') :
    Together (Body.Effects.Beside J) (m.runHook e part) ((m.retell f j).runHook e' (part.retell f)) := by
  unfold runHook
  rw [show (part.retell f).hook = part.hook.map (Body.retell f) from rfl]
  cases part.hook with
  | none => exact .ok h
  | some hook =>
    simp only [Option.map_some, scene_retell]
    exact (Body.run_retell _ hf (fun request => request.elim) hook h).map fun _ _ hr => hr.2

omit hf in
/-- What happened, and the machines afterwards, next to each other. -/
def Executed (f : Retelling) (J : Journal → Journal → Prop) (r r' : Machine σ × List Event) : Prop :=
  r.2 = r'.2 ∧ ∃ j, r'.1 = r.1.retell f j ∧ J r.1.journal j

theorem executeTracedWith_retell (plan : Plan) (s : Schedule) (h : J m.journal j) :
    Together (Executed f J) (m.executeTracedWith plan s) ((m.retell f j).executeTracedWith plan s) := by
  unfold executeTracedWith
  rw [show ({ m.retell f j with last := some s } : Machine σ) =
    Machine.retell { m with last := some s } f j from rfl]
  have hn : J ({ m with last := some s } : Machine σ).journal j := h
  revert hn
  generalize ({ m with last := some s } : Machine σ) = n
  intro hn
  simp only [checkExclusive_retell, checkPerformed_retell]
  refine (Together.of_eq _).bind fun _ _ _ => ?_
  have hlengths : (n.retell f j).design.main.actions.length = n.design.main.actions.length := List.length_map _
  rw [hlengths]
  refine (Together.foldlM (R := Body.Effects.Beside J)
    (fun t _ e e' he => n.runTransactionTraced_retell hf s t he) ?_).bind fun e e' he => ?_
  · exact ⟨rfl, rfl, hn⟩
  rw [he.calls]
  refine (Together.of_eq _).bind fun _ _ _ => ?_
  rw [show (n.retell f j).parts = n.parts.map (Part.retell f) from rfl, List.foldlM_map]
  refine (Together.foldlM (R := Body.Effects.Beside J)
    (fun part _ e e' he => n.runHook_retell hf part he) ?_).bind fun e₁ e₁' he₁ => ?_
  · exact he.mapCalls Account.ledger
  · refine .ok ⟨rfl, e₁'.journal, ?_, he₁.journal⟩
    rw [he₁.state]
    rfl

/-- A schedule is executed alike, and the journals stay related. -/
theorem executeTraced_retell (s : Schedule) (h : J m.journal j) :
    Together (Executed f J) (m.executeTraced s) ((m.retell f j).executeTraced s) := by
  unfold executeTraced
  rw [show (m.retell f j).design.main.plan = m.design.main.plan from rfl]
  cases m.design.main.plan with
  | none => exact .error _
  | some plan =>
    show Together _ (if s.cycle = m.cycle then _ else _) (if s.cycle = m.cycle then _ else _)
    split
    · exact m.executeTracedWith_retell hf plan s h
    · exact .error _

omit hf

/-! ## The same words in another journal -/

/-- A schedule is executed alike whatever was told before, and the journals stay as many errors apart as they
are. -/
theorem executeTraced_withJournal (j : Journal) (s : Schedule) :
    Together (fun r r' => r.2 = r'.2 ∧ ∃ j', r'.1 = r.1.withJournal j' ∧
        r.1.journal.Ahead (j.log.errors - m.journal.log.errors) j')
      (m.executeTraced s) ((m.withJournal j).executeTraced s) := by
  have hahead : m.journal.Ahead (j.log.errors - m.journal.log.errors) j := by
    unfold Journal.Ahead
    rw [UInt32.add_comm, UInt32.sub_add_cancel]
  have htogether := m.executeTraced_retell (Retelling.same_keeps_ahead _) s hahead
  rw [retell_same] at htogether
  refine htogether.mono fun r r' ⟨hevents, j', hj', hahead'⟩ => ?_
  exact ⟨hevents, j', hj'.trans (r.1.retell_same j'), hahead'⟩

/-! ## The errors of an execution -/

/-- The messages of the errors that are logged while a schedule is executed, in order, whether or not they are
written. -/
def errorsIn (m : Machine σ) (s : Schedule) : Except Fault (List String) :=
  ((m.retell .notingErrors {}).execute s).map fun m' => m'.journal.notes.toList

/-- What was told before makes no difference to them. -/
theorem errorsIn_withJournal (j : Journal) (s : Schedule) : (m.withJournal j).errorsIn s = m.errorsIn s := rfl

/-- The log counts them all. -/
theorem execute_errorsIn (s : Schedule) :
    Together (fun (m' : Machine σ) (errors : List String) =>
        m'.journal.log.errors = m.journal.log.errors + UInt32.ofNat errors.length)
      (m.execute s) (m.errorsIn s) := by
  have hstart : m.journal.log.errors = m.journal.log.errors + UInt32.ofNat ({} : Journal).notes.size :=
    (UInt32.add_zero _).symm
  have htogether := m.executeTraced_retell (Retelling.notingErrors_keeps m.journal.log.errors) s hstart
  have hexecute : Together (fun m' n' : Machine σ =>
        m'.journal.log.errors = m.journal.log.errors + UInt32.ofNat n'.journal.notes.size)
      (m.execute s) ((m.retell .notingErrors {}).execute s) := by
    rw [← executeTraced_fst, ← executeTraced_fst]
    refine htogether.map fun r r' hr => ?_
    obtain ⟨-, j, hj, hcount⟩ := hr
    rw [hj]
    exact hcount
  rw [← map_id_eq (m.execute s)]
  exact hexecute.map fun m' n' hcount => hcount.trans (by rw [Array.length_toList])

end Machine

end GuardedActions
