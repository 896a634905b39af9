import GuardedActions.Proofs.Block.Cycle
import GuardedActions.Proofs.ExactlyOnce
import GuardedActions.Proofs.Execution.Performing

/-!
# Blocks in a machine

A machine hosts a block if the methods of the block are among its own and nothing else touches the state of the
block.  A cycle of such a machine is a cycle of the block: the bodies of the granted methods run one after the
other, each once, with arguments that were accepted and in a state that the scheduler found ready, and then the
block is committed (`Block.Hosted.exists_cycle`).
-/

set_option autoImplicit false

namespace GuardedActions

variable {σ τ : Type}

/-! ## What a granted method runs with -/

/-- The arguments that the call site which drives a granted method has supplied. -/
def Schedule.argumentsOf (s : Schedule) (method : Nat) : Option Record := (s.selectedOf method).bind s.earlyOf

/-- The arguments that a method runs with if it is granted and its arguments are validated. -/
def Schedule.grantedWith (s : Schedule) (method : Nat) : Option Record :=
  if s.granted.test method then s.argumentsOf method else none

namespace Machine

/-- A granted method may run with some arguments. -/
structure Admits (m : Machine σ) (s : Schedule) (id : Nat) (target : Method σ) (args : Record) : Prop where
  /-- it is granted -/
  granted : s.granted.test id = true
  /-- it was ready when the schedule was made -/
  ready : Guard.holds target.ready (m.viewWith s.activeSites s.early) = .ok true
  /-- the arguments have the input shape -/
  shape : args.shape = target.input
  /-- if its arguments are validated, they were supplied -/
  supplied : target.validator.isSome = true → s.argumentsOf id = some args
  /-- and accepted -/
  accepted : Validator.accepts target.validator (m.viewWith s.activeSites s.early) args = .ok true

variable {m : Machine σ} {plan : Plan} {s : Schedule}

/-- A method that needs its arguments early runs with those that were supplied for it. -/
theorem Schedules.argumentsOf_eq (built : m.design.Built) (own : m.design.OwnCallers)
    (hplan : m.design.main.plan = some plan) (hs : m.Schedules plan s) {i : Nat} {u : Site σ}
    {target : Method σ} {given : Option Record} {passed : Record}
    (hu : m.design.main.sites[i]? = some u) (hgranted : s.grantedSites.test i = true)
    (htarget : m.design.main.method? u.callee.id = some target) (hearly : target.needsEarly = true)
    (hpasses : u.Passes s i target given passed) :
    s.argumentsOf u.callee.id = some (drivingArguments s u.callee.id target i passed) := by
  have h := built.elaborated hplan
  have hsome : (m.design.main.method? u.callee.id).isSome := by rw [htarget]; rfl
  obtain ⟨driver, hselected, -⟩ := hs.exists_selectedOf built hplan hu hgranted
  obtain ⟨hdriven, w, hw, hwx⟩ := hs.driver_of_selectedOf built own hplan hsome (hs.callee hu hgranted) hselected
  have hwu : w.callee = u.callee := by rw [hwx, ← h.callee_eq hu]
  have hwtarget : m.design.main.method? w.callee.id = some target := by
    rw [hwu]
    exact htarget
  obtain ⟨v, hv, hactive, -⟩ := hs.site.mp hdriven
  obtain ⟨known, hknown, hfits⟩ := hs.early hw hactive (h.in_time hw hwtarget hearly)
  unfold Schedule.argumentsOf
  rw [hselected, Option.bind_some, hknown]
  refine congrArg some ?_
  cases hinput : target.input.isEmpty with
  | true =>
    rw [hs.drivingArguments_empty h hu hgranted htarget hinput hpasses,
      Record.eq_zero_of_isEmpty hinput (hfits ((h.method?_callee hw).trans hwtarget))]
  | false =>
    obtain ⟨driver', hselected', -, hargs⟩ := hs.drivingArguments_early built hplan hu hgranted
      (h.in_time hu htarget hearly) hinput hpasses
    obtain rfl := Option.some.inj (hselected.symm.trans hselected')
    rw [hargs, hknown, Option.getD_some]

/-- What was supplied for a granted method was accepted. -/
theorem Schedules.accepts_argumentsOf (built : m.design.Built) (own : m.design.OwnCallers)
    (hplan : m.design.main.plan = some plan) (hs : m.Schedules plan s) {id : Nat} {target : Method σ}
    {args : Record} (htarget : m.design.main.method? id = some target) (hgranted : s.granted.test id = true)
    (hargs : s.argumentsOf id = some args) :
    Validator.accepts target.validator (m.viewWith s.activeSites s.early) args = .ok true := by
  have h := built.elaborated hplan
  have hsome : (m.design.main.method? id).isSome := by rw [htarget]; rfl
  obtain ⟨driver, hselected, hknown⟩ := Option.bind_eq_some_iff.mp hargs
  obtain ⟨hdriven, w, hw, hwx⟩ := hs.driver_of_selectedOf built own hplan hsome hgranted hselected
  have hwtarget : m.design.method? w.callee = some target := by
    rw [hwx]
    exact htarget
  cases hvalidator : target.validator with
  | none => rfl
  | some validator =>
    obtain ⟨-, hvalid⟩ := hs.ready hw hdriven hwtarget
    have hjoin : s.early[driver]?.join = some args := hknown
    unfold validates at hvalid
    rw [hvalidator, hjoin] at hvalid
    exact hvalid

/-- The bodies of an execution run as they may. -/
theorem admits_of_complete (built : m.design.Built) (own : m.design.OwnCallers)
    (hplan : m.design.main.plan = some plan) (hs : m.Schedules plan s) {a : Account}
    (ha : a.Complete m.design.main plan s) {id : Nat} {target : Method σ} {args : Record}
    (htarget : m.design.main.method? id = some target) (henter : .enter id args ∈ a.events) :
    m.Admits s id target args := by
  have h := built.elaborated hplan
  obtain ⟨i, u, given, target', passed, hperform, hu, rfl, htarget', hpasses, rfl⟩ :=
    ha.sound.driven id args henter
  obtain rfl : target = target' := Option.some.inj (htarget.symm.trans htarget')
  have hgranted := ha.sound.granted i (Account.mem_performed.mpr ⟨given, hperform⟩)
  have hcallee := hs.callee hu hgranted
  have hsupplied : target.validator.isSome = true →
      s.argumentsOf u.callee.id = some (drivingArguments s u.callee.id target i passed) := fun hvalidator =>
    hs.argumentsOf_eq built own hplan hu hgranted htarget (by simp [Method.needsEarly, hvalidator]) hpasses
  refine ⟨hcallee, hs.ready_of_granted h htarget hcallee, ?_, hsupplied, ?_⟩
  · exact hs.shape_drivingArguments built own hplan hu hgranted htarget hpasses
  · cases hvalidator : target.validator with
    | none => rfl
    | some validator =>
      rw [← hvalidator]
      exact hs.accepts_argumentsOf built own hplan htarget hcallee (hsupplied (by rw [hvalidator]; rfl))

end Machine

/-! ## Hosting -/

/-- The run of a body that is a single step. -/
theorem Body.run_step_eq_ok {κ α ρ : Type} {scene : Scene}
    {answer : κ → Effects σ ρ → Except Fault (Record × Effects σ ρ)}
    {change : View σ → Except Fault (α × σ)} {e e' : Effects σ ρ} {a : α} :
    (Body.step change).run scene answer e = .ok (a, e') ↔
      ∃ state, change ⟨e.state, scene⟩ = .ok (a, state) ∧ e' = { e with state := state } := by
  simp only [Body.step, Body.run]
  cases change ⟨e.state, scene⟩ with
  | error fault => simp
  | ok r =>
    obtain ⟨b, state⟩ := r
    simp [Body.run, eq_comm]

/-- The part of the state at a place is as before. -/
def Place.Spares (place : Place σ τ) (state state' : σ) : Prop := place.get state' = place.get state

theorem Place.spares_refl (place : Place σ τ) (state : σ) : place.Spares state state := rfl

/-- Components whose clock edges leave a place alone leave it alone together. -/
theorem Place.spares_commit (place : Place σ τ) {parts : List (Part σ)}
    (hparts : ∀ part ∈ parts, ∀ state, place.Spares state (part.commit state)) (state : σ) :
    place.Spares state (parts.foldl (fun state part => part.commit state) state) :=
  List.foldlRecOn parts _ (motive := fun now => place.Spares state now) rfl
    fun now hnow part hpart => (hparts part hpart now).trans hnow

namespace Block

/-- The method of a block at a position of the registry, if the methods of the block come one after the other
from `first` on. -/
def portAt? (b : Block σ τ) (first id : Nat) : Option (Port σ τ) :=
  if first ≤ id then b.ports[id - first]? else none

theorem portAt?_add (b : Block σ τ) (first k : Nat) : b.portAt? first (first + k) = b.ports[k]? := by
  rw [portAt?, if_pos (Nat.le_add_right first k), Nat.add_sub_cancel_left]

theorem getElem?_of_portAt? {b : Block σ τ} {first id : Nat} {p : Port σ τ} (h : b.portAt? first id = some p) :
    first ≤ id ∧ b.ports[id - first]? = some p := by
  unfold portAt? at h
  split at h
  · exact ⟨‹_›, h⟩
  · cases h

/-- A method of a block is found by its name. -/
theorem find?_name {b : Block σ τ} (hnamed : (b.ports.map Port.name).Nodup) {p : Port σ τ} (hp : p ∈ b.ports) :
    b.ports.find? (fun q => q.name == p.name) = some p := by
  cases hfind : b.ports.find? fun q => q.name == p.name with
  | none => exact absurd (beq_self_eq_true p.name) (List.find?_eq_none.mp hfind p hp)
  | some q =>
    have hfound := List.find?_some hfind
    have hname : q.name = p.name := eq_of_beq hfound
    rw [List.inj_on_of_nodup_map hnamed (List.mem_of_find?_eq_some hfind) hp hname]

/-- A name is that of one method. -/
theorem eq_of_portAt? {b : Block σ τ} (hnamed : (b.ports.map Port.name).Nodup) {first id id' : Nat}
    {p p' : Port σ τ} (h : b.portAt? first id = some p) (h' : b.portAt? first id' = some p')
    (hname : p.name = p'.name) : id = id' := by
  obtain ⟨hle, hp⟩ := getElem?_of_portAt? h
  obtain ⟨hle', hp'⟩ := getElem?_of_portAt? h'
  have hsame : (b.ports.map Port.name)[id - first]? = (b.ports.map Port.name)[id' - first]? := by
    rw [List.getElem?_map, List.getElem?_map, hp, hp', Option.map_some, Option.map_some, hname]
  have hlt : id - first < (b.ports.map Port.name).length := by
    rw [List.length_map]
    exact (List.getElem?_eq_some_iff.mp hp).1
  have hposition := (List.getElem?_inj hlt hnamed).mp hsame
  omega

/-- A machine hosts a block without internal transactions: the block keeps its state at a place, its methods
are there from `first` on, and nothing else touches its state.  Who calls the methods is left open. -/
structure Hosted (b : Block σ τ) (place : Place σ τ) (first : Nat) (m : Machine σ) : Prop where
  /-- names tell the methods apart -/
  named : (b.ports.map Port.name).Nodup
  /-- the methods, with the calls that were declared to them -/
  method : ∀ {id : Nat} {p : Port σ τ}, b.portAt? first id = some p → ∃ callers early,
    m.design.main.method? id = some { p.method place b.name with callers := callers, early := early }
  /-- other actions do nothing to its state -/
  other : ∀ {id : Nat} {a : Action σ}, m.design.main.action? id = some a → b.portAt? first id = none →
    a.Within place.Spares
  /-- nor does the combinational logic of components -/
  logic : ∀ {part : Part σ} {hook : Hook σ}, part ∈ m.parts → part.hook = some hook →
    hook.Within place.Spares none
  /-- the block is one of the components, and the clock edge of the others does nothing to its state -/
  edge : ∃ before after, m.parts = before ++ b.part place :: after ∧
    ∀ part ∈ before ++ after, ∀ state, place.Spares state (part.commit state)

/-- The name of what is used. -/
def Use.name : Use → String
  | .call port _ => port
  | .run job => job

/-- An event as a use of the block. -/
def useOf? (b : Block σ τ) (first : Nat) : Event → Option Use
  | .enter id args => (b.portAt? first id).map fun p => .call p.name args
  | _ => none

section

variable (b : Block σ τ) (first id : Nat) (given : Option Record) (args result : Record)

@[simp] theorem useOf?_start : b.useOf? first (.start id) = none := rfl

@[simp] theorem useOf?_perform : b.useOf? first (.perform id given) = none := rfl

@[simp] theorem useOf?_enter : b.useOf? first (.enter id args) =
    (b.portAt? first id).map fun p => .call p.name args := rfl

@[simp] theorem useOf?_leave : b.useOf? first (.leave id result) = none := rfl

@[simp] theorem useOf?_answer : b.useOf? first (.answer id result) = none := rfl

end

/-- A use is what a granted method does in the cycle of a schedule: it is offered and accepted by what was seen
when the schedule was made, and its arguments have their shape and were supplied if they are validated. -/
structure Granted (b : Block σ τ) (first : Nat) (s : Schedule) (asked : View σ) (x : τ) (id : Nat)
    (p : Port σ τ) (args : Record) : Prop where
  /-- it is a method of the block -/
  port : b.portAt? first id = some p
  /-- it is granted -/
  granted : s.granted.test id = true
  /-- it was ready -/
  offered : b.offers asked x (.call p.name args) = .ok true
  /-- the arguments were accepted -/
  accepted : b.accepts asked x (.call p.name args) = .ok true
  /-- they have the input shape -/
  shape : args.shape = p.input
  /-- they were supplied before the methods ran -/
  supplied : p.validator.isSome = true → s.argumentsOf id = some args

/-- The uses of a block in the cycle of a schedule: all its granted methods, once each. -/
structure Performs (b : Block σ τ) (first : Nat) (s : Schedule) (asked : View σ) (x : τ) (uses : List Use) :
    Prop where
  /-- only granted methods -/
  only : ∀ use ∈ uses, ∃ id p args, use = .call p.name args ∧ b.Granted first s asked x id p args
  /-- all granted methods -/
  all : ∀ {id : Nat} {p : Port σ τ}, b.portAt? first id = some p → s.granted.test id = true →
    ∃ args, .call p.name args ∈ uses
  /-- none of them twice -/
  once : (uses.map Use.name).Nodup

/-- What the bodies of the block did so far to its state `x`. -/
def Served (b : Block σ τ) (place : Place σ τ) (first : Nat) (x : τ) (e : Body.Effects σ Account) : Prop :=
  ∃ (turns : List (View σ × Use)) (answers : List Record) (y : τ), b.useEach x turns = .ok (answers, y) ∧
    place.get e.state = some y ∧ turns.map Prod.snd = e.calls.events.filterMap (b.useOf? first)

theorem useEach_concat {b : Block σ τ} {x y y' : τ} {turns : List (View σ × Use)} {answers : List Record}
    {turn : View σ × Use} {answer : Record} (h : b.useEach x turns = .ok (answers, y))
    (huse : b.use turn.1 y turn.2 = .ok (answer, y')) :
    b.useEach x (turns ++ [turn]) = .ok (answers ++ [answer], y') := by
  unfold useEach at h ⊢
  rw [List.foldlM_append, h, ok_bind, List.foldlM_cons, huse]
  rfl

/-- What happens only at places that the block does not look at makes no difference to it. -/
theorem Served.of_spares {b : Block σ τ} {place : Place σ τ} {first : Nat} {x : τ}
    {e e' : Body.Effects σ Account} (h : b.Served place first x e) (hstate : place.Spares e.state e'.state)
    (hevents : e'.calls.events.filterMap (b.useOf? first) = e.calls.events.filterMap (b.useOf? first)) :
    b.Served place first x e' := by
  obtain ⟨turns, answers, y, hrun, hget, hturns⟩ := h
  exact ⟨turns, answers, y, hrun, hstate.trans hget, hturns.trans hevents.symm⟩

namespace Performs

variable {b : Block σ τ} {first : Nat} {s : Schedule} {asked : View σ} {x : τ} {uses : List Use} {id : Nat}
  {p : Port σ τ}

/-- A method of the block is called if and only if it is granted. -/
theorem exists_call_iff (h : b.Performs first s asked x uses) (hnamed : (b.ports.map Port.name).Nodup)
    (hport : b.portAt? first id = some p) :
    (∃ args, .call p.name args ∈ uses) ↔ s.granted.test id = true := by
  constructor
  · rintro ⟨args, hmem⟩
    obtain ⟨id', p', args', huse, hgranted⟩ := h.only _ hmem
    obtain ⟨hname, -⟩ := Use.call.inj huse
    rw [eq_of_portAt? hnamed hport hgranted.port hname]
    exact hgranted.granted
  · exact h.all hport

/-- A method whose arguments are validated is called with those that were supplied for it. -/
theorem call_mem_iff (h : b.Performs first s asked x uses) (hnamed : (b.ports.map Port.name).Nodup)
    (hport : b.portAt? first id = some p) (hvalidator : p.validator.isSome = true) (args : Record) :
    .call p.name args ∈ uses ↔ s.grantedWith id = some args := by
  have hsupplied : ∀ {args}, .call p.name args ∈ uses → s.grantedWith id = some args := by
    intro args hmem
    obtain ⟨id', p', args', huse, hgranted⟩ := h.only _ hmem
    obtain ⟨hname, rfl⟩ := Use.call.inj huse
    obtain rfl := eq_of_portAt? hnamed hport hgranted.port hname
    obtain rfl := Option.some.inj (hport.symm.trans hgranted.port)
    rw [Schedule.grantedWith, if_pos hgranted.granted]
    exact hgranted.supplied hvalidator
  refine ⟨hsupplied, fun hargs => ?_⟩
  obtain ⟨hgranted, -⟩ := Option.ite_none_right_eq_some.mp hargs
  obtain ⟨args', hmem⟩ := h.all hport hgranted
  obtain rfl := Option.some.inj (hargs.symm.trans (hsupplied hmem))
  exact hmem

end Performs

namespace Hosted

variable {b : Block σ τ} {place : Place σ τ} {first : Nat} {m : Machine σ} {plan : Plan} {s : Schedule} {x : τ}

/-- What a machine hosts depends on its actions and components only. -/
theorem of_same (hosted : b.Hosted place first m) {m' : Machine σ} (hdesign : m'.design = m.design)
    (hparts : m'.parts = m.parts) : b.Hosted place first m' where
  named := hosted.named
  method hport := hdesign ▸ hosted.method hport
  other ha hport := hosted.other (hdesign ▸ ha) hport
  logic hpart hhook := hosted.logic (hparts ▸ hpart) hhook
  edge := hparts ▸ hosted.edge

/-- The body of a method of the block is one use of the block. -/
theorem served_of_run (hosted : b.Hosted place first m) {id : Nat} {p : Port σ τ}
    (hport : b.portAt? first id = some p) {callers : List SiteRef} {early : Bool}
    {body : Record → ActionBody σ Record}
    (hbody : ({ p.method place b.name with callers := callers, early := early } : Method σ).body = some body)
    {scene : Scene} {answer : Call → Body.Effects σ Account → Except Fault (Record × Body.Effects σ Account)}
    {args result : Record} {e e' : Body.Effects σ Account} (h : b.Served place first x e)
    (hrun : (body args).run scene answer { e with calls := e.calls.enter id args } = .ok (result, e')) :
    b.Served place first x e' := by
  obtain rfl := Option.some.inj hbody
  obtain ⟨state, hchange, rfl⟩ := Body.run_step_eq_ok.mp hrun
  obtain ⟨y', y'', hget', hused, rfl⟩ := Place.change_eq_ok.mp hchange
  obtain ⟨turns, answers, y, hturns, hget, hevents⟩ := h
  obtain rfl := Option.some.inj (hget.symm.trans hget')
  have hmem : p ∈ b.ports := List.mem_of_getElem? (getElem?_of_portAt? hport).2
  have huse : b.use ⟨e.state, scene⟩ y (.call p.name args) = .ok (result, y'') := by
    unfold use
    simp only [find?_name hosted.named hmem]
    exact hused
  refine ⟨turns ++ [(⟨e.state, scene⟩, .call p.name args)], answers ++ [result], y'',
    useEach_concat hturns huse, place.get_put _ _ _ hget, ?_⟩
  simp [hevents, hport]

/-- A call keeps track of what was done to the block. -/
theorem served_of_answerTraced (hosted : b.Hosted place first m) (h : m.design.main.Elaborated plan)
    (hbodies : m.design.main.OnlyPerforms) :
    ∀ (fuel caller : Nat) (callee : ActionRef) (given : Option Record) (e : Body.Effects σ Account)
      (result : Record) (e' : Body.Effects σ Account), b.Served place first x e →
      m.answerTraced s fuel caller (.perform callee given) e = .ok (result, e') →
      b.Served place first x e' := by
  intro fuel
  induction fuel with
  | zero =>
    intro caller callee given e result e' _ hcall
    cases hcall
  | succ fuel ih =>
    intro caller callee given e result e' hserved hcall
    obtain ⟨i, u, target, passed, -, rfl, ho, hanswer⟩ := Machine.answered_of_answerTraced hcall
    have hperformed : b.Served place first x { e with calls := e.calls.perform i given } :=
      hserved.of_spares rfl (by simp)
    cases hanswer with
    | again known shared => exact hserved.of_spares rfl (by simp)
    | @first body result e₁ unknown checked defined ran fits =>
      have hu := (Registry.findSite?_eq_some ho.found).1
      have htarget := (h.method?_callee hu).symm.trans ho.known
      have hafter : b.Served place first x e₁ := by
        cases hport : b.portAt? first u.callee.id with
        | some p =>
          obtain ⟨callers, early, hmethod⟩ := hosted.method hport
          obtain rfl := Option.some.inj (htarget.symm.trans hmethod)
          exact hosted.served_of_run hport defined hperformed ran
        | none =>
          obtain ⟨a, ha, hmethod⟩ := Registry.method?_eq_some.mp htarget
          refine Body.Within.keeps (P := b.Served place first x) place.spares_refl
            (fun _ _ _ hspares he => he.of_spares hspares rfl) (fun he hcall => ih _ _ _ _ _ _ he hcall)
            (hbodies.method htarget defined _) ((hosted.other ha hport).method hmethod defined _) nofun ?_ ran
          exact hperformed.of_spares rfl (by simp [List.filterMap_cons, hport])
      exact hafter.of_spares rfl (by simp)

/-- So do the transactions that run one after the other. -/
theorem served_of_runTransactionTraced (hosted : b.Hosted place first m) (h : m.design.main.Elaborated plan)
    (hbodies : m.design.main.OnlyPerforms) {t : Nat} {e e' : Body.Effects σ Account}
    (hserved : b.Served place first x e) (hrun : m.runTransactionTraced s e t = .ok e') :
    b.Served place first x e' := by
  rcases Machine.runTransactionTraced_eq_ok.mp hrun with ⟨-, txn, body, htxn, hbody, hran⟩ | ⟨-, rfl⟩
  · obtain ⟨a, ha, htransaction⟩ := Registry.transaction?_eq_some.mp htxn
    have hport : b.portAt? first t = none := by
      cases hport : b.portAt? first t with
      | none => rfl
      | some p =>
        obtain ⟨callers, early, hmethod⟩ := hosted.method hport
        have hsome : (m.design.main.transaction? t).isSome := by rw [htxn]; rfl
        rw [Registry.method?_eq_none hsome] at hmethod
        cases hmethod
    refine Body.Within.keeps (P := b.Served place first x) place.spares_refl
      (fun _ _ _ hspares he => he.of_spares hspares rfl)
      (fun he hcall => hosted.served_of_answerTraced h hbodies _ _ _ _ _ _ _ he hcall)
      (hbodies.transaction htxn hbody) ((hosted.other ha hport).transaction htransaction hbody) nofun ?_ hran
    exact hserved.of_spares rfl (by simp)
  · exact hserved

/-- The clock edge of the machine is that of the block. -/
theorem get_commit (hosted : b.Hosted place first m) (hx : place.get m.state = some x) :
    place.get m.commit.state = some (b.commit x) := by
  obtain ⟨before, after, hparts, hspares⟩ := hosted.edge
  unfold Machine.commit
  rw [hparts, List.foldl_append, List.foldl_cons]
  have hbefore := place.spares_commit (fun part hpart => hspares part (List.mem_append_left _ hpart)) m.state
  have hedge : place.get ((b.part place).commit
      (before.foldl (fun state part => part.commit state) m.state)) = some (b.commit x) := by
    have hget := hbefore.trans hx
    show place.get (place.modify b.commit _) = _
    unfold Place.modify
    rw [hget]
    exact place.get_put _ _ _ hget
  exact (place.spares_commit (fun part hpart => hspares part (List.mem_append_right _ hpart)) _).trans hedge

/-- A method that is admitted is granted to the block. -/
theorem granted_of_admits (hosted : b.Hosted place first m) (hx : place.get m.state = some x) {id : Nat}
    {p : Port σ τ} {args : Record} (hport : b.portAt? first id = some p)
    {callers : List SiteRef} {early : Bool}
    (h : m.Admits s id { p.method place b.name with callers := callers, early := early } args) :
    b.Granted first s (m.viewWith s.activeSites s.early) x id p args := by
  have hmem : p ∈ b.ports := List.mem_of_getElem? (getElem?_of_portAt? hport).2
  have hfind : place.find b.name m.state = .ok x := by
    unfold Place.find
    rw [hx]
  refine ⟨hport, h.granted, ?_, ?_, h.shape, fun hvalidator => ?_⟩
  · have hready := h.ready
    unfold offers
    simp only [find?_name hosted.named hmem]
    cases hdefined : p.ready with
    | none => rfl
    | some ready =>
      simp only [Port.method, hdefined, Option.map_some, Guard.holds_some, Port.guard] at hready
      obtain ⟨x', hx', hready⟩ := bind_eq_ok.mp hready
      obtain rfl := Except.ok.inj (hfind.symm.trans hx')
      exact hready
  · have haccepted := h.accepted
    unfold accepts
    simp only [find?_name hosted.named hmem]
    cases hdefined : p.validator with
    | none => rfl
    | some validator =>
      simp only [Port.method, hdefined, Option.map_some, Validator.accepts, Port.validatorAt] at haccepted
      obtain ⟨x', hx', haccepted⟩ := bind_eq_ok.mp haccepted
      obtain rfl := Except.ok.inj (hfind.symm.trans hx')
      exact haccepted
  · refine h.supplied ?_
    simpa [Port.method] using hvalidator

/-- The uses that a complete execution tells about. -/
theorem performs_of_complete (hosted : b.Hosted place first m) (built : m.design.Built)
    (own : m.design.OwnCallers) (hplan : m.design.main.plan = some plan) (hs : m.Schedules plan s)
    (hx : place.get m.state = some x) {a : Account} (ha : a.Complete m.design.main plan s) :
    b.Performs first s (m.viewWith s.activeSites s.early) x (a.events.filterMap (b.useOf? first)) where
  only := by
    intro use huse
    obtain ⟨ev, hev, hused⟩ := List.mem_filterMap.mp huse
    cases ev with
    | enter id args =>
      obtain ⟨p, hport, rfl⟩ := Option.map_eq_some_iff.mp hused
      obtain ⟨callers, early, hmethod⟩ := hosted.method hport
      have hadmits := Machine.admits_of_complete built own hplan hs ha hmethod hev
      exact ⟨id, p, args, rfl, hosted.granted_of_admits hx hport hadmits⟩
    | _ => cases hused
  all := by
    intro id p hport hgranted
    obtain ⟨callers, early, hmethod⟩ := hosted.method hport
    have hentered : id ∈ a.entered := by
      rw [ha.mem_entered_iff (built.elaborated hplan) hs, hmethod, hgranted]
      rfl
    obtain ⟨args, hargs⟩ := Account.mem_entered.mp hentered
    exact ⟨args, List.mem_filterMap.mpr ⟨_, hargs, by simp [hport]⟩⟩
  once := by
    have hnames : (a.events.filterMap (b.useOf? first)).map Use.name =
        a.entered.filterMap fun id => (b.portAt? first id).map Port.name := by
      unfold Account.entered
      rw [List.map_filterMap, List.filterMap_filterMap]
      congr 1
      funext ev
      cases ev with
      | enter id args =>
        show ((b.portAt? first id).map fun p => Use.call p.name args).map Use.name =
          (b.portAt? first id).map Port.name
        rw [Option.map_map]
        rfl
      | _ => rfl
    rw [hnames]
    refine List.Nodup.filterMap ?_ ha.sound.entered_nodup
    intro id id' name hname hname'
    obtain ⟨p, hport, rfl⟩ := Option.map_eq_some_iff.mp hname
    obtain ⟨p', hport', hsame⟩ := Option.map_eq_some_iff.mp hname'
    exact eq_of_portAt? hosted.named hport hport' hsame.symm

/-- A cycle of the machine is a cycle of the block. -/
theorem exists_cycle (hosted : b.Hosted place first m) (built : m.design.Built) (own : m.design.OwnCallers)
    (hplan : m.design.main.plan = some plan) (hbodies : m.design.main.OnlyPerforms)
    (hs : m.Schedules plan s) {m' : Machine σ} (hrun : m.execute s = .ok m')
    (hx : place.get m.state = some x) : ∃ turns answers y, b.useEach x turns = .ok (answers, y) ∧
      b.Performs first s (m.viewWith s.activeSites s.early) x (turns.map Prod.snd) ∧
      place.get m'.commit.state = some (b.commit y) := by
  have h := built.elaborated hplan
  rw [← Machine.executeTraced_fst] at hrun
  obtain ⟨⟨m', events⟩, htraced, rfl⟩ := map_eq_ok.mp hrun
  obtain ⟨plan', hplan', -, htraced⟩ := Machine.executeTraced_eq_ok.mp htraced
  obtain rfl := Option.some.inj (hplan.symm.trans hplan')
  obtain ⟨-, e, e', hfold, hchecked, hhooks, hr⟩ := Machine.executeTracedWith_eq_ok.mp htraced
  obtain ⟨rfl, rfl⟩ := Prod.mk.inj hr
  have hexecuting : b.Hosted place first (m.executing s) := hosted.of_same rfl rfl
  have hcomplete : e.calls.Complete m.design.main plan s := by
    refine Machine.complete_of_foldlM h hbodies hs ?_ hfold hchecked
    rfl
  have hserved : b.Served place first x e := by
    refine foldlM_induction (P := b.Served place first x) (fun t _ e e' he hstep => ?_) ?_ hfold
    · exact hexecuting.served_of_runTransactionTraced h hbodies he hstep
    · exact ⟨[], [], x, rfl, hx, rfl⟩
  obtain ⟨turns, answers, y, hturns, hget, huses⟩ := hserved
  refine ⟨turns, answers, y, hturns, ?_, ?_⟩
  · rw [huses]
    exact hosted.performs_of_complete built own hplan hs hx hcomplete
  · have hafter : place.get e'.state = some y := by
      have hlogic : place.Spares e.state e'.state :=
        Machine.rel_of_runHook place.spares_refl (fun h h' => h'.trans h) hexecuting.logic hhooks
      exact hlogic.trans hget
    have hdone : b.Hosted place first { m.executing s with state := e'.state, journal := e'.journal } :=
      hosted.of_same rfl rfl
    exact hdone.get_commit hafter

end Hosted

end Block

end GuardedActions
