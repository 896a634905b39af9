import GuardedActions.Block.Requester
import GuardedActions.Proofs.Execution.Account
import Mathlib.Data.List.Induction

/-!
# Installing is registering

Installing a block or a requester adds whole actions to the main registry.  Registrations lead to the same actions:
each is created and then given its properties one by one.  So a machine that is put together from blocks and
requesters has a design that registrations lead to (`Block.built_install`, `Requester.built_install`).  Their bodies
run other actions by calls only.
-/

set_option autoImplicit false

namespace GuardedActions

variable {σ τ : Type}

/-! ## One more action -/

/-- What setting a property makes of a method. -/
def MethodSetting.apply : MethodSetting σ → Method σ → Method σ
  | .ready guard, x => { x with ready := some guard }
  | .body run, x => { x with body := some run }
  | .validator accept, x => { x with validator := some accept }
  | .shared, x => { x with nonexclusive := true }
  | .early, x => { x with early := true }

/-- What setting a property makes of a transaction. -/
def TransactionSetting.apply : TransactionSetting σ → Transaction σ → Transaction σ
  | .request guard, t => { t with request := some guard }
  | .body run, t => { t with body := some run }

theorem Registry.isFrozen_of_allow {r : Registry σ} {what : Change} (h : r.allow what = .ok ()) :
    r.isFrozen = false := by
  unfold allow at h
  split at h
  · cases h
  · exact Bool.eq_false_iff.mpr ‹_›

theorem Registry.modifyAction_push (r : Registry σ) (a : Action σ) (f : Action σ → Action σ) :
    (r.push a).modifyAction r.actions.length f = r.push (f a) := by
  have hactions : (r.actions ++ [a]).modify r.actions.length f = r.actions ++ [f a] := by
    refine List.ext_getElem? fun i => ?_
    rw [List.getElem?_modify]
    by_cases hi : i = r.actions.length
    · simp [hi]
    · rcases Nat.lt_or_gt_of_ne hi with hlt | hgt
      · rw [List.getElem?_append_left hlt, List.getElem?_append_left hlt]
        simp [Ne.symm hi]
      · rw [List.getElem?_eq_none (by simp; omega), List.getElem?_eq_none (by simp; omega)]
        rfl
  unfold modifyAction push
  rw [hactions]

namespace Design

/-- A design with one more action in the main registry. -/
def push (d : Design σ) (a : Action σ) : Design σ := { d with main := d.main.push a }

theorem action?_push (d : Design σ) (a : Action σ) :
    (d.push a).action? ⟨.main, d.main.actions.length⟩ = some a := by
  show (d.main.actions ++ [a])[d.main.actions.length]? = some a
  simp

/-- Other actions are as they were. -/
theorem action?_push_of_ne (d : Design σ) (a : Action σ) {ref : ActionRef}
    (href : ref ≠ ⟨.main, d.main.actions.length⟩) : (d.push a).action? ref = d.action? ref := by
  obtain ⟨domain, id⟩ := ref
  cases domain with
  | guest => rfl
  | main =>
    have hne : id ≠ d.main.actions.length := fun heq => href (by rw [heq])
    show (d.main.actions ++ [a])[id]? = d.main.actions[id]?
    rw [List.getElem?_append]
    split
    · rfl
    · rw [List.getElem?_eq_none (l := [a]) (by rw [List.length_singleton]; omega),
        List.getElem?_eq_none (by omega)]

theorem allow_eq_ok {r : Registry σ} (hopen : r.isFrozen = false) (what : Change) : r.allow what = .ok () := by
  unfold Registry.allow
  rw [hopen]
  rfl

theorem isSome_method?_push (d : Design σ) (a : Action σ) {ref : ActionRef} (h : (d.method? ref).isSome) :
    ((d.push a).method? ref).isSome := by
  obtain ⟨domain, id⟩ := ref
  cases domain with
  | guest => exact h
  | main =>
    obtain ⟨x, hx⟩ := Option.isSome_iff_exists.mp h
    obtain ⟨b, hb, hmethod⟩ := Option.bind_eq_some_iff.mp hx
    have hb : d.main.actions[id]? = some b := hb
    have hb' : (d.main.actions ++ [a])[id]? = some b := by
      rw [List.getElem?_append_left (List.getElem?_eq_some_iff.mp hb).1]
      exact hb
    exact Option.isSome_iff_exists.mpr ⟨x, Option.bind_eq_some_iff.mpr ⟨b, hb', hmethod⟩⟩

variable {d : Design σ} (hopen : d.main.isFrozen = false)
include hopen

theorem register_setMethod (name : String) (owner : Option String) (x : Method σ) (setting : MethodSetting σ) :
    (d.push ⟨name, owner, .method x⟩).register (.setMethod ⟨.main, d.main.actions.length⟩ setting) =
      .ok (d.push ⟨name, owner, .method (setting.apply x)⟩) := by
  have hmethod : ((d.push ⟨name, owner, .method x⟩).method? ⟨.main, d.main.actions.length⟩).isSome := by
    unfold method?
    rw [action?_push]
    rfl
  have hallow : ∀ what, (d.main.push ⟨name, owner, .method x⟩).allow what = .ok () := allow_eq_ok hopen
  unfold register
  simp only [hmethod, if_true]
  cases setting with
  | ready | body | validator | shared | early =>
    simp only [changeRegistry, registry, push, Registry.setMethod, Registry.defineReady, Registry.defineMethodBody,
      Registry.defineValidator, Registry.share, Registry.demandEarly, Registry.changeMethod, hallow, ok_bind,
      Registry.modifyAction_push]
    rfl

theorem register_setTransaction (name : String) (owner : Option String) (t : Transaction σ)
    (setting : TransactionSetting σ) :
    (d.push ⟨name, owner, .transaction t⟩).register (.setTransaction ⟨.main, d.main.actions.length⟩ setting) =
      .ok (d.push ⟨name, owner, .transaction (setting.apply t)⟩) := by
  have htransaction : (((d.push ⟨name, owner, .transaction t⟩).action? ⟨.main, d.main.actions.length⟩).bind
      Action.transaction?).isSome := by
    rw [action?_push]
    rfl
  have hallow : ∀ what, (d.main.push ⟨name, owner, .transaction t⟩).allow what = .ok () := allow_eq_ok hopen
  unfold register
  simp only [htransaction, if_true]
  cases setting with
  | request | body =>
    simp only [changeRegistry, registry, push, Registry.setTransaction, Registry.defineRequest,
      Registry.defineTransactionBody, Registry.changeTransaction, hallow, ok_bind, Registry.modifyAction_push]
    rfl

namespace Built

/-- A method with some properties comes out of registrations. -/
theorem pushMethod (h : d.Built) (name : String) (owner : Option String) (input output : Shape)
    (settings : List (MethodSetting σ)) :
    (d.push ⟨name, owner, .method (settings.foldl (fun x s => s.apply x) { input := input, output := output })⟩).Built := by
  induction settings using List.reverseRecOn with
  | nil =>
    have hdone : d.register (.newMethod .main name input output owner) =
        .ok (d.push ⟨name, owner, .method { input := input, output := output }⟩) := by
      simp only [Design.register, changeRegistry, registry, Registry.newMethod, allow_eq_ok hopen, ok_bind]
      rfl
    exact .register h hdone
  | append_singleton settings setting ih =>
    rw [List.foldl_append]
    exact .register ih (register_setMethod hopen name owner _ setting)

/-- So does a transaction. -/
theorem pushTransaction (h : d.Built) (name : String) (owner : Option String) (priority : Int)
    (settings : List (TransactionSetting σ)) :
    (d.push ⟨name, owner, .transaction (settings.foldl (fun t s => s.apply t) { priority := priority })⟩).Built := by
  induction settings using List.reverseRecOn with
  | nil =>
    have hdone : d.register (.newTransaction .main name priority owner) =
        .ok (d.push ⟨name, owner, .transaction { priority := priority }⟩) := by
      simp only [Design.register, changeRegistry, registry, Registry.newTransaction, allow_eq_ok hopen, ok_bind]
      rfl
    exact .register h hdone
  | append_singleton settings setting ih =>
    rw [List.foldl_append]
    exact .register ih (register_setTransaction hopen name owner _ setting)

end Built

end Design

/-! ## Blocks -/

namespace Block

variable {place : Place σ τ} {b : Block σ τ} {d : Design σ}

/-- The registrations that give a method its properties. -/
def portSettings (place : Place σ τ) (b : Block σ τ) (p : Port σ τ) : List (MethodSetting σ) :=
  (p.ready.map fun ready => MethodSetting.ready (Port.guard place b.name ready)).toList ++
    (p.validator.map fun validator => MethodSetting.validator (Port.validatorAt place b.name validator)).toList ++
    (if p.nonexclusive then [.shared] else []) ++
    [.body fun args => Body.step fun view => place.change b.name (fun x => p.body view x args) view.state]

theorem foldl_portSettings (place : Place σ τ) (b : Block σ τ) (p : Port σ τ) :
    (b.portSettings place p).foldl (fun x s => s.apply x) { input := p.input, output := p.output } =
      p.method place b.name := by
  obtain ⟨name, input, output, ready, validator, body, nonexclusive⟩ := p
  cases ready with
  | none | some =>
    cases validator with
    | none | some =>
      cases nonexclusive with
      | false | true => rfl

/-- Any action of a block comes out of registrations. -/
theorem built_push (built : d.Built) (hopen : d.main.isFrozen = false) {a : Action σ} (ha : a ∈ b.actions place) :
    (d.push a).Built := by
  rcases List.mem_append.mp ha with hport | hjob
  · obtain ⟨p, -, rfl⟩ := List.mem_map.mp hport
    rw [← foldl_portSettings]
    exact built.pushMethod hopen _ _ _ _ _
  · obtain ⟨j, -, rfl⟩ := List.mem_map.mp hjob
    exact built.pushTransaction hopen _ _ j.priority [.request _, .body _]

/-- A machine with a block has a design that registrations lead to if the machine without it has one. -/
theorem built_install {m m' : Machine σ} (built : m.design.Built) (h : b.install place m = .ok m') :
    m'.design.Built := by
  obtain ⟨m₁, hpart, h⟩ := bind_eq_ok.mp h
  obtain rfl := Except.ok.inj h
  obtain ⟨⟨⟩, hallowed, hpart⟩ := bind_eq_ok.mp hpart
  obtain rfl := Except.ok.inj hpart
  have hopen : m.design.main.isFrozen = false := Registry.isFrozen_of_allow hallowed
  have hall : ∀ actions : List (Action σ), actions ⊆ b.actions place → ∀ d : Design σ, d.Built →
      d.main.isFrozen = false →
      ({ d with main := { d.main with actions := d.main.actions ++ actions } } : Design σ).Built := by
    intro actions
    induction actions with
    | nil =>
      intro _ d hd _
      rw [List.append_nil]
      exact hd
    | cons a actions ih =>
      intro hsubset d hd hopen
      have hrest := ih (List.subset_of_cons_subset hsubset) (d.push a)
        (built_push hd hopen (hsubset List.mem_cons_self)) hopen
      unfold Design.push Registry.push at hrest
      rwa [List.append_assoc] at hrest
  exact hall _ (List.Subset.refl _) _ built hopen

/-- The body of a method of a block calls nothing. -/
theorem onlyPerforms_port (place : Place σ τ) (name : String) (p : Port σ τ) {body : Record → ActionBody σ Record}
    (hbody : (p.method place name).body = some body) (args : Record) : (body args).OnlyPerforms := by
  obtain rfl := Option.some.inj hbody
  exact Body.onlyPerforms_step _

end Block

/-! ## Requesters -/

/-- The body of a requester calls its target. -/
theorem Requester.onlyPerforms_transaction (place : Place σ Requester) (x : Requester) (priority : Int)
    {body : ActionBody σ Unit} (hbody : (x.transaction place priority).body = some body) : body.OnlyPerforms := by
  obtain rfl := Option.some.inj hbody
  exact fun _ => Body.onlyPerforms_step _

/-- A machine with a requester has a design that registrations lead to if the machine without it has one. -/
theorem Requester.built_install {place : Place σ Requester} {x : Requester} {priority : Int} {m : Machine σ}
    {r : Nat × Machine σ} (built : m.design.Built) (htarget : (m.design.method? x.target).isSome)
    (h : x.install place priority m = .ok r) : r.2.design.Built := by
  obtain ⟨m₁, hpart, h⟩ := bind_eq_ok.mp h
  obtain ⟨⟨⟩, hallowed, hpart⟩ := bind_eq_ok.mp hpart
  obtain rfl := Except.ok.inj hpart
  have hopen : m.design.main.isFrozen = false := Registry.isFrozen_of_allow hallowed
  obtain ⟨⟨site, design⟩, hdeclare, h⟩ := bind_eq_ok.mp h
  obtain ⟨main, hsupply, h⟩ := bind_eq_ok.mp h
  obtain rfl := Except.ok.inj h
  have hpushed : (m.design.push ⟨transactionName x.name, some x.name,
      .transaction (x.transaction place priority)⟩).Built :=
    built.pushTransaction hopen _ _ priority [.request _, .body _]
  have hcall : (m.design.push ⟨transactionName x.name, some x.name,
      .transaction (x.transaction place priority)⟩).register
        (.newCall ⟨.main, m.design.main.actions.length⟩ x.target) = .ok design := by
    unfold Design.register
    simp only [Design.action?_push, Design.isSome_method?_push m.design _ htarget, Option.isSome_some, Bool.and_self,
      if_true]
    exact map_eq_ok.mpr ⟨_, hdeclare, rfl⟩
  have hsupplied : design.register (.setCall ⟨.main, site⟩ (.arguments fun view => do
      .ok (← place.find x.name view.state).arguments)) = .ok { design with main := main } :=
    bind_eq_ok.mpr ⟨main, hsupply, rfl⟩
  exact .register (.register hpushed hcall) hsupplied

end GuardedActions
