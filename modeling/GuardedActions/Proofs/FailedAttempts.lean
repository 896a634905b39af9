import GuardedActions.Machine
import GuardedActions.Proofs.Elaboration.InPlace
import GuardedActions.Proofs.WellFormed
import Mathlib

/-!
# Failed attempts to elaborate

A machine is prepared by registrations, and now and then somebody tries to elaborate it too early.  Such an
attempt leaves an order and conflicts behind.  Nothing that comes later depends on them: in the end the
machine is elaborated, or refused, as if the attempts had never been made.
-/

set_option autoImplicit false

namespace GuardedActions

variable {σ : Type}

/-- A step in the preparation of a machine. -/
inductive Preparation (σ : Type) where
  /-- a registration -/
  | register (step : Registration σ)
  /-- a new component -/
  | part (part : Part σ)
  /-- an attempt to elaborate -/
  | attempt

namespace Preparation

/-- Whether a step is an attempt to elaborate. -/
def isAttempt : Preparation σ → Bool
  | .attempt => true
  | _ => false

/-- The registrations among some steps. -/
def registrations (steps : List (Preparation σ)) : List (Preparation σ) :=
  steps.filter fun step => !step.isAttempt

end Preparation

namespace Machine

/-- Take a step in the preparation of a machine. -/
def prepareBy (m : Machine σ) : Preparation σ → Except Fault (Machine σ)
  | .register step => (m.design.register step).map fun d => { m with design := d }
  | .part part => m.addPart part
  | .attempt => .ok m.elaborate.1

/-- Prepare a machine step by step. -/
def prepare (m : Machine σ) (steps : List (Preparation σ)) : Except Fault (Machine σ) :=
  steps.foldlM prepareBy m

/-- How elaboration ends: with a refusal, or with the elaborated machine. -/
def verdict (m : Machine σ) : Except Refusal (Machine σ) := m.elaborate.2.map fun _ => m.elaborate.1

/-- Whether all attempts among the steps of a preparation fail. -/
def attemptsFail (m : Machine σ) : List (Preparation σ) → Bool
  | [] => true
  | step :: rest =>
    !(step.isAttempt && m.elaborate.2.isOk) &&
      match m.prepareBy step with
      | .ok m' => m'.attemptsFail rest
      | .error _ => true

end Machine

/-! ## What failed attempts leave -/

/-- The same registry with another order and other conflicts left in it. -/
def Registry.withRanking (r : Registry σ) (ranking : Ranking) : Registry σ :=
  { r with ranking := ranking }

/-- The same design with another order and other conflicts left in its main registry. -/
def Design.withRanking (d : Design σ) (ranking : Ranking) : Design σ :=
  { d with main := d.main.withRanking ranking }

/-- The same machine with another order and other conflicts left in its design. -/
def Machine.withRanking (m : Machine σ) (ranking : Ranking) : Machine σ :=
  { m with design := m.design.withRanking ranking }

/-- A step that is allowed in both cases does the same in both. -/
theorem ok_map_of_allow {ε α β : Type} (allowed : Except ε Unit) (a : α) (f : α → β) :
    (allowed >>= fun _ => Except.ok (f a)) = (allowed >>= fun _ => Except.ok a).map f := by
  cases allowed <;> rfl

namespace Registry

/-- A change of registries that does not look at what attempts left. -/
def Blind (f : Registry σ → Except Fault (Registry σ)) : Prop :=
  ∀ r ranking, f (r.withRanking ranking) = (f r).map (withRanking · ranking)

theorem blind_newMethod (name : String) (input output : Shape) (owner : Option String) :
    Blind (σ := σ) fun r => (r.newMethod name input output owner).map Prod.snd := by
  intro r ranking
  show ((r.allow _ >>= fun _ => Except.ok _).map Prod.snd) =
    ((r.allow _ >>= fun _ => Except.ok _).map Prod.snd).map _
  cases r.allow _ <;> rfl

theorem blind_newTransaction (name : String) (priority : Int) (owner : Option String) :
    Blind (σ := σ) fun r => (r.newTransaction name priority owner).map Prod.snd := by
  intro r ranking
  show ((r.allow _ >>= fun _ => Except.ok _).map Prod.snd) =
    ((r.allow _ >>= fun _ => Except.ok _).map Prod.snd).map _
  cases r.allow _ <;> rfl

theorem blind_changeMethod (id : Nat) (what : String → Change) (f : Method σ → Method σ) :
    Blind fun r => r.changeMethod id what f := fun r ranking =>
  ok_map_of_allow (r.allow (what (r.nameOf id))) (r.modifyAction id (Action.mapMethod f))
    (withRanking · ranking)

theorem blind_changeTransaction (id : Nat) (what : String → Change)
    (f : Transaction σ → Transaction σ) : Blind fun r => r.changeTransaction id what f :=
  fun r ranking =>
    ok_map_of_allow (r.allow (what (r.nameOf id))) (r.modifyAction id (Action.mapTransaction f))
      (withRanking · ranking)

theorem blind_setMethod (id : Nat) (setting : MethodSetting σ) :
    Blind fun r => r.setMethod id setting := by
  cases setting <;> exact blind_changeMethod _ _ _

theorem blind_setTransaction (id : Nat) (setting : TransactionSetting σ) :
    Blind fun r => r.setTransaction id setting := by
  cases setting <;> exact blind_changeTransaction _ _ _

theorem blind_defineCondition (site : Nat) (condition : Guard σ) :
    Blind fun r => r.defineCondition site condition := by
  intro r ranking
  have hsame : (r.withRanking ranking).sites[site]? = r.sites[site]? := rfl
  unfold defineCondition
  beta_reduce
  rw [hsame]
  cases r.sites[site]? with
  | none => rfl
  | some s => exact ok_map_of_allow (r.allow _) (r.modifySite site _) (withRanking · ranking)

theorem blind_supplyArguments (site : Nat) (arguments : Supplier σ) :
    Blind fun r => r.supplyArguments site arguments := by
  intro r ranking
  have hsame : (r.withRanking ranking).sites[site]? = r.sites[site]? := rfl
  unfold supplyArguments
  beta_reduce
  rw [hsame]
  cases r.sites[site]? with
  | none => rfl
  | some s => exact ok_map_of_allow (r.allow _) (r.modifySite site _) (withRanking · ranking)

theorem blind_setCall (site : Nat) (setting : CallSetting σ) :
    Blind fun r => r.setCall site setting := by
  cases setting with
  | condition guard => exact blind_defineCondition site guard
  | arguments supplier => exact blind_supplyArguments site supplier

theorem findTie?_withRanking (r : Registry σ) (ranking : Ranking) (closure : Nat → Mask)
    (l : List Nat) : (r.withRanking ranking).findTie? closure l = r.findTie? closure l := by
  induction l with
  | nil => rfl
  | cons a rest ih =>
    unfold findTie?
    rw [ih]
    rfl

theorem planWith_withRanking (r : Registry σ) (ranking : Ranking) (closures : List Mask) :
    (r.withRanking ranking).planWith closures = r.planWith closures := by
  have hties : ∀ closure order, (r.withRanking ranking).checkTies closure order =
      r.checkTies closure order := by
    intro closure order
    unfold checkTies
    rw [findTie?_withRanking]
    rfl
  unfold planWith
  simp only
  rw [hties]
  rfl

end Registry

namespace Design

theorem action?_withRanking (d : Design σ) (ranking : Ranking) (ref : ActionRef) :
    (d.withRanking ranking).action? ref = d.action? ref := by
  obtain ⟨domain, id⟩ := ref
  cases domain <;> rfl

theorem nameOf_withRanking (d : Design σ) (ranking : Ranking) (ref : ActionRef) :
    (d.withRanking ranking).nameOf ref = d.nameOf ref := by
  obtain ⟨domain, id⟩ := ref
  cases domain <;> rfl

theorem changeRegistry_withRanking {f : Registry σ → Except Fault (Registry σ)}
    (hf : Registry.Blind f) (d : Design σ) (ranking : Ranking) (domain : Domain) :
    (d.withRanking ranking).changeRegistry domain f =
      (d.changeRegistry domain f).map (withRanking · ranking) := by
  cases domain with
  | main =>
    show (f (d.main.withRanking ranking) >>= fun r => Except.ok _) = _
    rw [hf]
    show _ = ((f d.main >>= fun r => Except.ok _).map _)
    cases f d.main <;> rfl
  | guest =>
    show (f d.guest >>= fun r => Except.ok _) = ((f d.guest >>= fun r => Except.ok _).map _)
    cases f d.guest <;> rfl

theorem declareCall_withRanking (d : Design σ) (ranking : Ranking) (caller callee : ActionRef) :
    ((d.withRanking ranking).declareCall caller callee).map Prod.snd =
      ((d.declareCall caller callee).map Prod.snd).map (withRanking · ranking) := by
  have hallow : ((d.withRanking ranking).registry caller.domain).allow
        (.newCall (((d.withRanking ranking).registry caller.domain).nameOf caller.id)) =
      (d.registry caller.domain).allow
        (.newCall ((d.registry caller.domain).nameOf caller.id)) := by
    cases caller.domain <;> rfl
  unfold declareCall
  simp only
  rw [hallow]
  cases (d.registry caller.domain).allow _ with
  | error fault => rfl
  | ok _ =>
    refine congrArg Except.ok ?_
    obtain ⟨callerDomain, callerId⟩ := caller
    obtain ⟨calleeDomain, calleeId⟩ := callee
    cases callerDomain <;> cases calleeDomain <;> rfl

theorem declareConflict_withRanking (d : Design σ) (ranking : Ranking) (a b : ActionRef) :
    (d.withRanking ranking).declareConflict a b =
      (d.declareConflict a b).map (withRanking · ranking) := by
  have hallow : (d.withRanking ranking).main.allow .newConflict = d.main.allow .newConflict := rfl
  unfold declareConflict
  rw [hallow, nameOf_withRanking, nameOf_withRanking]
  cases d.main.allow .newConflict with
  | error fault => rfl
  | ok _ =>
    rw [ok_bind, ok_bind]
    split <;> rfl

/-- A registration does the same whatever attempts left. -/
theorem register_withRanking (d : Design σ) (ranking : Ranking) (step : Registration σ) :
    (d.withRanking ranking).register step = (d.register step).map (withRanking · ranking) := by
  have hmethod : ∀ ref, (d.withRanking ranking).method? ref = d.method? ref := fun ref =>
    congrArg (·.bind Action.method?) (d.action?_withRanking ranking ref)
  cases step with
  | newMethod domain name input output owner =>
    exact changeRegistry_withRanking (Registry.blind_newMethod _ _ _ _) d ranking domain
  | newTransaction domain name priority owner =>
    exact changeRegistry_withRanking (Registry.blind_newTransaction _ _ _) d ranking domain
  | setMethod method setting =>
    simp only [register]
    rw [hmethod, nameOf_withRanking, changeRegistry_withRanking (Registry.blind_setMethod _ _)]
    split <;> rfl
  | setTransaction transaction setting =>
    simp only [register]
    rw [action?_withRanking, nameOf_withRanking, changeRegistry_withRanking (Registry.blind_setTransaction _ _)]
    split <;> rfl
  | newCall caller callee =>
    simp only [register]
    rw [action?_withRanking, hmethod, nameOf_withRanking, declareCall_withRanking]
    split <;> rfl
  | setCall site setting =>
    exact changeRegistry_withRanking (Registry.blind_setCall _ _) d ranking site.domain
  | newConflict first second =>
    simp only [register]
    rw [action?_withRanking, action?_withRanking, nameOf_withRanking, declareConflict_withRanking]
    split <;> rfl

theorem analyse_withRanking (d : Design σ) (ranking : Ranking) :
    (d.withRanking ranking).analyse = d.analyse := by
  have hflaw : (d.withRanking ranking).siteFlaw? = d.siteFlaw? := by
    funext id site
    unfold siteFlaw?
    rw [nameOf_withRanking]
    rfl
  have hsites : (d.withRanking ranking).checkSites = d.checkSites := by
    unfold checkSites
    rw [hflaw]
    rfl
  unfold analyse
  rw [hsites]
  rfl

/-- Elaboration ends the same whatever earlier attempts left, and one that succeeds leaves the same. -/
theorem elaborate_withRanking (d : Design σ) (ranking : Ranking) :
    (d.withRanking ranking).elaborate.2 = d.elaborate.2 ∧
      (d.elaborate.2 = .ok () → (d.withRanking ranking).elaborate.1 = d.elaborate.1) := by
  have hplan : ∀ closures, (d.withRanking ranking).main.planWith closures =
      d.main.planWith closures := d.main.planWith_withRanking ranking
  have hfrozen : (d.withRanking ranking).main.isFrozen = d.main.isFrozen := rfl
  unfold elaborate
  rw [analyse_withRanking, hfrozen]
  split
  · exact ⟨rfl, fun h => nomatch h⟩
  · cases d.analyse with
    | error refusal => exact ⟨rfl, fun h => nomatch h⟩
    | ok closures =>
      simp only [hplan]
      split
      · exact ⟨rfl, fun h => nomatch h⟩
      · exact ⟨rfl, fun _ => rfl⟩

/-- An attempt that fails leaves nothing but an order and conflicts. -/
theorem exists_withRanking (d : Design σ) (h : d.elaborate.2.isOk = false) :
    ∃ ranking, d.elaborate.1 = d.withRanking ranking := by
  unfold elaborate at h ⊢
  cases hfrozen : d.main.isFrozen with
  | true => exact ⟨d.main.ranking, rfl⟩
  | false =>
    rw [hfrozen] at h
    cases hanalyse : d.analyse with
    | error refusal => exact ⟨d.main.ranking, rfl⟩
    | ok closures =>
      rw [hanalyse] at h
      cases hplanned : d.main.planWith closures with
      | mk ranking outcome =>
        cases outcome with
        | error refusal => exact ⟨ranking, by simp only [hplanned]; rfl⟩
        | ok plan =>
          simp only [hplanned] at h
          exact nomatch h

end Design

namespace Machine

variable {m : Machine σ}

theorem verdict_withRanking (m : Machine σ) (ranking : Ranking) :
    (m.withRanking ranking).verdict = m.verdict := by
  obtain ⟨hsame, hdone⟩ := m.design.elaborate_withRanking ranking
  unfold verdict elaborate
  show Except.map _ (m.design.withRanking ranking).elaborate.2 = Except.map _ m.design.elaborate.2
  rw [hsame]
  cases hresult : m.design.elaborate.2 with
  | error refusal => rfl
  | ok _ =>
    refine congrArg Except.ok ?_
    show ({ m with design := (m.design.withRanking ranking).elaborate.1 } : Machine σ) =
      { m with design := m.design.elaborate.1 }
    rw [hdone hresult]

theorem prepareBy_withRanking (m : Machine σ) (ranking : Ranking) {step : Preparation σ}
    (hstep : step.isAttempt = false) :
    (m.withRanking ranking).prepareBy step = (m.prepareBy step).map (withRanking · ranking) := by
  cases step with
  | register step =>
    show ((m.design.withRanking ranking).register step).map _ =
      ((m.design.register step).map _).map _
    rw [m.design.register_withRanking]
    cases m.design.register step <;> rfl
  | part part =>
    exact ok_map_of_allow (m.design.main.allow (.newComponent part.name))
      { m with parts := m.parts ++ [part] } (withRanking · ranking)
  | attempt => cases hstep

/-- The steps of a preparation lead, from machines that differ in what attempts left, to machines that are
elaborated the same, whether the attempts among the steps are made or not. -/
theorem prepare_withRanking {steps : List (Preparation σ)} (h : m.attemptsFail steps = true)
    (ranking : Ranking) : (m.prepare steps).map verdict =
      ((m.withRanking ranking).prepare (Preparation.registrations steps)).map verdict := by
  induction steps generalizing m with
  | nil => exact congrArg Except.ok (m.verdict_withRanking ranking).symm
  | cons step rest ih =>
    unfold attemptsFail at h
    rw [Bool.and_eq_true] at h
    obtain ⟨hfails, hrest⟩ := h
    unfold prepare Preparation.registrations at ih ⊢
    cases hstep : step.isAttempt with
    | true =>
      rw [List.filter_cons_of_neg (by simp [hstep]), List.foldlM_cons]
      cases step with
      | register step => cases hstep
      | part part => cases hstep
      | attempt =>
        have hfailed : m.elaborate.2.isOk = false := by
          simpa [Preparation.isAttempt] using hfails
        obtain ⟨left, hleft⟩ := m.design.exists_withRanking hfailed
        have hmachine : m.prepareBy .attempt = .ok (m.withRanking left) := by
          unfold withRanking
          rw [← hleft]
          rfl
        rw [hmachine] at hrest
        rw [hmachine, ok_bind]
        exact ih hrest
    | false =>
      rw [List.filter_cons_of_pos (by simp [hstep]), List.foldlM_cons, List.foldlM_cons,
        m.prepareBy_withRanking ranking hstep]
      cases hprepared : m.prepareBy step with
      | error fault => rfl
      | ok m' =>
        rw [hprepared] at hrest
        exact ih hrest

end Machine

/-- If all attempts on the way fail, the preparation leads to the machine, the refusal or the fault that it
leads to without them.  An attempt on tables that stay in place between attempts ends like elaboration
whatever it finds in them, and one that succeeds leaves tables that hold the plan and nothing else. -/
theorem Machine.failed_attempts_leave_nothing {m : Machine σ} {steps : List (Preparation σ)}
    (hfailed : m.attemptsFail steps = true) :
    (m.prepare steps).map verdict = (m.prepare (Preparation.registrations steps)).map verdict ∧
      ∀ (d : Design σ) (left : Tables), (d.attempt left).verdict = d.elaborate.2 ∧
        (d.elaborate.2 = .ok () → (d.attempt left).tables = (d.attempt {}).tables ∧
          d.elaborate.1.main.plan =
            some ((d.attempt left).tables.plan d.main.actions.length)) :=
  ⟨prepare_withRanking hfailed m.design.main.ranking, fun d left =>
    ⟨d.verdict_attempt left, fun h => Design.tables_attempt h left⟩⟩

/-! ## A ledger

Two writers that share an exclusive method, elaborated too early twice: once before the bodies are there, and
once while the writers are a tie. -/

namespace Ledger

/-- The actions and calls. -/
def actions : List (Preparation Unit) :=
  [.register (.newMethod .main "post" Shape.empty Shape.empty none),
   .register (.newTransaction .main "left" 1 none),
   .register (.newTransaction .main "right" 1 none),
   .register (.newCall ⟨.main, 1⟩ ⟨.main, 0⟩),
   .register (.newCall ⟨.main, 2⟩ ⟨.main, 0⟩)]

/-- The bodies. -/
def bodies : List (Preparation Unit) :=
  [.register (.setMethod ⟨.main, 0⟩ (.body fun _ => .done Record.empty)),
   .register (.setTransaction ⟨.main, 1⟩ (.body (.call (.perform ⟨.main, 0⟩ none) fun _ => .done ()))),
   .register (.setTransaction ⟨.main, 2⟩ (.body (.call (.perform ⟨.main, 0⟩ none) fun _ => .done ())))]

/-- What breaks the tie, and one more transaction. -/
def repairs : List (Preparation Unit) :=
  [.register (.setTransaction ⟨.main, 2⟩ (.request fun _ => .ok true)),
   .register (.newTransaction .main "late" 0 none),
   .register (.setTransaction ⟨.main, 3⟩ (.body (.done ())))]

/-- The preparation with both attempts. -/
def steps : List (Preparation Unit) := actions ++ [.attempt] ++ bodies ++ [.attempt] ++ repairs

/-- Nothing is registered. -/
def machine : Machine Unit := { state := () }

theorem attemptsFail_steps : machine.attemptsFail steps = true := by cbv

/-- The second attempt leaves an order of two transactions, and the machine is elaborated with three. -/
theorem leaves_nothing : machine.attemptsFail steps = true ∧
    ((machine.prepare (actions ++ [.attempt] ++ bodies ++ [.attempt])).map
      fun m => m.design.main.ranking.order) = .ok [1, 2] ∧
    ((machine.prepare steps).map fun m => m.elaborate.2) = .ok (.ok ()) ∧
    (machine.prepare steps).map Machine.verdict =
      (machine.prepare (Preparation.registrations steps)).map Machine.verdict := by
  obtain ⟨hsame, -⟩ := Machine.failed_attempts_leave_nothing attemptsFail_steps
  exact ⟨attemptsFail_steps, by cbv, by cbv, hsame⟩

end Ledger

end GuardedActions
