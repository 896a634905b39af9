import GuardedActions.Proofs.Block.Hosted
import GuardedActions.Proofs.Block.Install
import GuardedActions.Proofs.Coherence
import GuardedActions.Proofs.Execution.Steps
import GuardedActions.Proofs.Scheduling.Valuation

/-!
# Requesters in a machine

A machine hosts a requester if one of its transactions and one of its call sites are those of the requester, and
nothing else touches what the requester keeps.  A cycle leaves such a requester as it is, or hands it the result
that its target returned in the cycle.  The transaction is requested if and only if the requester wants a call, and
a cycle that grants it delivers the call: the call site is performed once, with the arguments of the requester
(`Requester.Hosted.cycle`).
-/

set_option autoImplicit false

namespace GuardedActions

variable {σ : Type}

namespace Requester

/-- The arguments that the call site of a requester supplies. -/
def supplier (place : Place σ Requester) (name : String) : Supplier σ := fun view => do
  .ok (← place.find name view.state).arguments

/-- The call site of a requester. -/
def site (place : Place σ Requester) (x : Requester) (t : Nat) : Site σ :=
  ⟨t, x.target, none, some (supplier place x.name)⟩

/-- A machine hosts a requester: its transaction is `t` and its call site `c`, and nothing else touches what is at
its place. -/
structure Hosted (place : Place σ Requester) (x : Requester) (priority : Int) (t c : Nat) (m : Machine σ) :
    Prop where
  /-- the transaction -/
  transaction : m.design.main.transaction? t = some (x.transaction place priority)
  /-- the call of the target -/
  site : m.design.main.sites[c]? = some (x.site place t)
  /-- other actions do nothing to the requester -/
  other : ∀ {ref : ActionRef} {a : Action σ}, m.design.action? ref = some a → ref ≠ ⟨.main, t⟩ →
    a.Within place.Spares
  /-- nor does the combinational logic of components -/
  logic : ∀ {part : Part σ} {hook : Hook σ}, part ∈ m.parts → part.hook = some hook →
    hook.Within place.Spares none
  /-- nor does the clock edge -/
  edge : ∀ part ∈ m.parts, ∀ state, place.Spares state (part.commit state)

/-- A requester that is as it was, or has taken a result over. -/
def Follows (q q' : Requester) : Prop := q' = q ∨ ∃ result, q' = q.finish result

theorem Follows.refl (q : Requester) : q.Follows q := .inl rfl

theorem Follows.of_finish (q : Requester) (result : Record) : q.Follows (q.finish result) := .inr ⟨result, rfl⟩

/-- Of two results that are taken over, the later one stays. -/
theorem Follows.finish_eq {q q' : Requester} (h : q.Follows q') (result : Record) :
    q'.finish result = q.finish result := by
  rcases h with rfl | ⟨result', rfl⟩
  · rfl
  · rfl

variable {place : Place σ Requester} {x q q' : Requester} {priority : Int} {t c : Nat} {m m' : Machine σ}
  {plan : Plan} {s : Schedule}

/-- A requester that is installed in a machine that leaves its place alone is hosted. -/
theorem hosted_install (hwithin : m.Within place.Spares)
    (hedge : ∀ part ∈ m.parts, ∀ state, place.Spares state (part.commit state))
    (h : x.install place priority m = .ok (t, m')) : Hosted place x priority t m.design.main.sites.length m' := by
  obtain ⟨m₁, hpart, h⟩ := bind_eq_ok.mp h
  obtain ⟨⟨⟩, -, hpart⟩ := bind_eq_ok.mp hpart
  obtain rfl := Except.ok.inj hpart
  obtain ⟨⟨c, d⟩, hdeclare, h⟩ := bind_eq_ok.mp h
  obtain ⟨main, hsupply, h⟩ := bind_eq_ok.mp h
  obtain ⟨rfl, rfl⟩ := Prod.mk.inj (Except.ok.inj h)
  have hnew : (m.design.push ⟨transactionName x.name, some x.name,
      .transaction (x.transaction place priority)⟩).NewCall ⟨.main, m.design.main.actions.length⟩ x.target d :=
    Design.newCall_of_declareCall hdeclare
  obtain ⟨⟨⟩, -, hdeclare⟩ := bind_eq_ok.mp hdeclare
  obtain ⟨rfl, -⟩ := Prod.mk.inj (Except.ok.inj hdeclare)
  have hsupply : d.main.supplyArguments m.design.main.sites.length (supplier place x.name) = .ok main := hsupply
  have hsites : d.main.sites = m.design.main.sites ++ [⟨m.design.main.actions.length, x.target, none, none⟩] :=
    hnew.sites .main
  have hlast : d.main.sites[m.design.main.sites.length]? =
      some ⟨m.design.main.actions.length, x.target, none, none⟩ := by
    rw [hsites, List.getElem?_concat_length]
  have hmain : main = d.main.modifySite m.design.main.sites.length fun u =>
      { u with arguments := some (supplier place x.name) } := by
    unfold Registry.supplyArguments at hsupply
    rw [hlast] at hsupply
    obtain ⟨⟨⟩, -, hsupply⟩ := bind_eq_ok.mp hsupply
    exact (Except.ok.inj hsupply).symm
  have hsite : main.sites[m.design.main.sites.length]? = some (x.site place m.design.main.actions.length) := by
    rw [hmain]
    simp only [Registry.modifySite, List.getElem?_modify, hlast, if_true, Option.map_eq_map, Option.map_some]
    rfl
  have haction : ∀ ref, Design.action? { d with main := main } ref = d.action? ref := by
    rintro ⟨domain, id⟩
    cases domain with
    | main =>
      rw [hmain]
      rfl
    | guest => rfl
  refine ⟨?_, hsite, fun {ref a} ha href => ?_, fun {part hook} hpart hhook => ?_, fun part hpart state => ?_⟩
  · show (Design.action? { d with main := main } ⟨.main, m.design.main.actions.length⟩).bind _ = _
    rw [haction, hnew.action, Design.action?_push]
    split
    · rfl
    · rfl
  · rw [haction, hnew.action, Design.action?_push_of_ne _ _ href] at ha
    split at ha
    · obtain ⟨b, hb, rfl⟩ := Option.map_eq_some_iff.mp ha
      exact (hwithin.design.action hb).mapMethod fun hx hbody => (hwithin.design.action hb).method hx hbody
    · exact hwithin.design.action ha
  · rcases List.mem_append.mp hpart with hpart | hpart
    · exact hwithin.hook hpart hhook
    · obtain rfl := List.mem_singleton.mp hpart
      cases hhook
  · rcases List.mem_append.mp hpart with hpart | hpart
    · exact hedge part hpart state
    · obtain rfl := List.mem_singleton.mp hpart
      rfl

/-- An attempt to elaborate leaves a requester where it is. -/
theorem Hosted.elaborate (hosted : Hosted place x priority t c m) : Hosted place x priority t c m.elaborate.1 := by
  obtain ⟨ranking, plan, heq⟩ := Design.exists_elaborate m.design
  show Hosted place x priority t c { m with design := m.design.elaborate.1 }
  rw [heq]
  refine ⟨hosted.transaction, hosted.site, fun {ref a} ha => hosted.other ?_, hosted.logic, hosted.edge⟩
  obtain ⟨domain, id⟩ := ref
  cases domain with
  | main | guest => exact ha

/-! ## What happens to the requester while bodies run -/

/-- While bodies run, a requester stays as it is or takes a result over that a caller of its target received. -/
structure Turns (place : Place σ Requester) (r : Registry σ) (target : ActionRef)
    (e e' : Body.Effects σ Account) : Prop where
  /-- events are added at the end -/
  events : e.calls.events <+: e'.calls.events
  /-- what is at its place -/
  state : place.Spares e.state e'.state ∨ ∃ result, r.Received target result e'.calls.events ∧
    place.get e'.state = (place.get e.state).map fun q => q.finish result

namespace Turns

variable {r : Registry σ} {target : ActionRef} {e e' e'' : Body.Effects σ Account}

theorem of_spares (hevents : e.calls.events <+: e'.calls.events) (hspares : place.Spares e.state e'.state) :
    Turns place r target e e' := ⟨hevents, .inl hspares⟩

theorem trans (h : Turns place r target e e') (h' : Turns place r target e' e'') :
    Turns place r target e e'' := by
  refine ⟨h.events.trans h'.events, ?_⟩
  rcases h'.state with hspares' | ⟨result', hreceived', hget'⟩
  · rcases h.state with hspares | ⟨result, hreceived, hget⟩
    · exact .inl (hspares'.trans hspares)
    · exact .inr ⟨result, hreceived.mono h'.events, hspares'.trans hget⟩
  · refine .inr ⟨result', hreceived', ?_⟩
    rcases h.state with hspares | ⟨result, -, hget⟩
    · rw [hget', hspares]
    · rw [hget', hget, Option.map_map]
      rfl

/-- What is at the place afterwards. -/
theorem follows (h : Turns place r target e e') (hget : place.get e.state = some q') (hq : q.Follows q') :
    ∃ q'', place.get e'.state = some q'' ∧ q.Follows q'' := by
  rcases h.state with hspares | ⟨result, -, hget'⟩
  · exact ⟨q', hspares.trans hget, hq⟩
  · refine ⟨q.finish result, ?_, .of_finish q result⟩
    rw [hget', hget, Option.map_some, hq.finish_eq]

/-- What a body does that touches no requester. -/
theorem of_within {κ α : Type} {scene : Scene}
    {answer : κ → Body.Effects σ Account → Except Fault (Record × Body.Effects σ Account)}
    {body : Body σ κ α} {a : α} (hbody : body.Within place.Spares none)
    (hanswer : ∀ {request e result e'}, answer request e = .ok (result, e') → Turns place r target e e')
    (hrun : body.run scene answer e = .ok (a, e')) : Turns place r target e e' :=
  hbody.run (T := Turns place r target) place.spares_refl (fun _ _ _ hspares => .of_spares List.prefix_rfl hspares)
    (fun h h' => h.trans h') hanswer nofun hrun

end Turns

/-- The run of the transaction of a requester: it calls the target and takes the result over. -/
theorem run_transaction {fuel caller : Nat} {body : ActionBody σ Unit} {e e' : Body.Effects σ Account}
    (hbody : (x.transaction place priority).body = some body)
    (hrun : body.run (m.bodyScene caller) (m.answerTraced s fuel caller) e = .ok ((), e')) :
    ∃ result e₁ q, m.answerTraced s fuel caller (.perform x.target none) e = .ok (result, e₁) ∧
      place.get e₁.state = some q ∧ place.get e'.state = some (q.finish result) ∧ e'.calls = e₁.calls := by
  obtain rfl := Option.some.inj hbody
  rw [show (do
      let result ← Body.ask (.perform x.target none)
      Body.step fun view => place.change x.name (fun x => .ok ((), x.finish result)) view.state :
        ActionBody σ Unit) = (Body.ask (.perform x.target none)).bind _ from rfl, Body.run_bind] at hrun
  obtain ⟨⟨result, e₁⟩, hask, hstep⟩ := bind_eq_ok.mp hrun
  unfold Body.ask Body.run at hask
  split at hask
  · cases hask
  · rename_i result' e₂ hanswer
    obtain ⟨rfl, rfl⟩ := Prod.mk.inj (Except.ok.inj hask)
    obtain ⟨state, hchange, rfl⟩ := Body.run_step_eq_ok.mp hstep
    obtain ⟨q, q', hget, hfinish, rfl⟩ := Place.change_eq_ok.mp hchange
    obtain ⟨-, rfl⟩ := Prod.mk.inj (Except.ok.inj hfinish)
    exact ⟨_, _, q, hanswer, hget, place.get_put _ _ _ hget, rfl⟩

/-- What the scheduler sees of a requester. -/
theorem find_of_saw (hget : place.get m.state = some q) {view : View σ}
    (hview : m.Saw s.activeSites s.early view) (name : String) : place.find name view.state = .ok q := by
  unfold Place.find
  rw [hview.state_eq, hget]

namespace Hosted

/-- Whether a machine hosts a requester depends on its design and its components only. -/
theorem of_same (hosted : Hosted place x priority t c m) (hdesign : m'.design = m.design)
    (hparts : m'.parts = m.parts) : Hosted place x priority t c m' := by
  obtain ⟨htransaction, hsite, hother, hlogic, hedge⟩ := hosted
  rw [← hdesign] at htransaction hsite hother
  rw [← hparts] at hlogic hedge
  exact ⟨htransaction, hsite, hother, hlogic, hedge⟩

theorem action (hosted : Hosted place x priority t c m) {a : Action σ}
    (ha : m.design.action? ⟨.main, t⟩ = some a) : a.transaction? = some (x.transaction place priority) := by
  have htransaction := hosted.transaction
  unfold Registry.transaction? at htransaction
  rw [show m.design.main.action? t = some a from ha] at htransaction
  exact htransaction

/-- A run of the body of a transaction, if the calls that are made in it are as they should be. -/
theorem turns_of_transaction (hosted : Hosted place x priority t c m) {ref : ActionRef} {a : Action σ}
    {txn : Transaction σ} {body : ActionBody σ Unit} {fuel caller : Nat} {e e' : Body.Effects σ Account}
    (ha : m.design.action? ref = some a) (hrole : a.transaction? = some txn) (hbody : txn.body = some body)
    (hanswer : ∀ {call e result e'}, m.answerTraced s fuel caller call e = .ok (result, e') →
      Turns place m.design.main x.target e e')
    (hrun : body.run (m.bodyScene caller) (m.answerTraced s fuel caller) e = .ok ((), e')) :
    Turns place m.design.main x.target e e' := by
  by_cases href : ref = ⟨.main, t⟩
  · subst href
    obtain rfl := Option.some.inj (hrole.symm.trans (hosted.action ha))
    obtain ⟨result, e₁, q, hcall, hget, hfinished, hcalls⟩ := run_transaction hbody hrun
    have hfirst := hanswer hcall
    have hthen : Turns place m.design.main x.target e₁ e' := by
      refine ⟨by rw [hcalls], .inr ⟨result, ?_, ?_⟩⟩
      · rw [hcalls]
        exact Machine.received_of_answerTraced hcall
      · rw [hget, hfinished, Option.map_some]
    exact hfirst.trans hthen
  · exact .of_within ((hosted.other ha href).transaction hrole hbody) hanswer hrun

/-- The body of a method does nothing to the requester by itself. -/
theorem turns_of_method (hosted : Hosted place x priority t c m) {ref : ActionRef} {a : Action σ}
    {method : Method σ} {body : Record → ActionBody σ Record} {args result : Record} {fuel caller : Nat}
    {e e' : Body.Effects σ Account} (ha : m.design.action? ref = some a) (hrole : a.method? = some method)
    (hbody : method.body = some body)
    (hanswer : ∀ {call e result e'}, m.answerTraced s fuel caller call e = .ok (result, e') →
      Turns place m.design.main x.target e e')
    (hrun : (body args).run (m.bodyScene caller) (m.answerTraced s fuel caller) e = .ok (result, e')) :
    Turns place m.design.main x.target e e' := by
  refine .of_within ((hosted.other ha ?_).method hrole hbody args) hanswer hrun
  rintro rfl
  have htransaction := hosted.action ha
  rw [Action.transaction?_eq_none_of_method? hrole] at htransaction
  cases htransaction

theorem turns_of_answerTraced (hosted : Hosted place x priority t c m) (h : m.design.main.Elaborated plan) :
    ∀ (fuel caller : Nat) (call : Call) (e : Body.Effects σ Account) (result : Record)
      (e' : Body.Effects σ Account), m.answerTraced s fuel caller call e = .ok (result, e') →
      Turns place m.design.main x.target e e' := by
  intro fuel
  induction fuel with
  | zero =>
    intro caller call e result e' hcall
    cases hcall
  | succ fuel ih =>
    intro caller call e result e' hcall
    have hgrows := (Machine.steps_of_answerTraced h _ _ _ _ _ _ hcall).grows
    cases call with
    | perform callee given =>
      obtain ⟨i, u, target, passed, rfl, rfl, ho, hanswer⟩ := Machine.answered_of_answerTraced hcall
      cases hanswer with
      | again known shared => exact .of_spares hgrows rfl
      | @first body _ e₁ unknown checked defined ran fits =>
        obtain ⟨a, ha, hrole⟩ := Option.bind_eq_some_iff.mp ho.known
        have hbody := hosted.turns_of_method ha hrole defined (fun hcall => ih _ _ _ _ _ hcall) ran
        refine ⟨hgrows, ?_⟩
        rcases hbody.state with hspares | ⟨result', hreceived, hget⟩
        · exact .inl hspares
        · refine .inr ⟨result', hreceived.mono ?_, hget⟩
          rw [Account.events_answer, Account.events_leave, List.append_assoc]
          exact List.prefix_append _ _
    | invoke target args =>
      obtain ⟨a, ha, hinvoked⟩ := Machine.invoked_of_answerTraced hcall
      refine ⟨hgrows, ?_⟩
      cases hinvoked with
      | method role defined ran =>
        exact (hosted.turns_of_method ha role defined (fun hcall => ih _ _ _ _ _ hcall) ran).state
      | transaction role defined ran =>
        exact (hosted.turns_of_transaction ha role defined (fun hcall => ih _ _ _ _ _ hcall) ran).state

theorem turns_of_runTransactionTraced (hosted : Hosted place x priority t c m)
    (h : m.design.main.Elaborated plan) {t' : Nat} {e e' : Body.Effects σ Account}
    (hrun : m.runTransactionTraced s e t' = .ok e') : Turns place m.design.main x.target e e' := by
  have hgrows := (Machine.steps_of_runTransactionTraced h hrun).grows
  rcases Machine.runTransactionTraced_eq_ok.mp hrun with ⟨-, txn, body, htxn, hbody, hran⟩ | ⟨-, rfl⟩
  · obtain ⟨a, ha, hrole⟩ := Option.bind_eq_some_iff.mp htxn
    have haction : m.design.action? ⟨.main, t'⟩ = some a := ha
    exact ⟨hgrows, (hosted.turns_of_transaction haction hrole hbody
      (fun hcall => hosted.turns_of_answerTraced h _ _ _ _ _ _ hcall) hran).state⟩
  · exact .of_spares List.prefix_rfl rfl

end Hosted

/-! ## The call that is made -/

/-- A call site is performed with arguments, and its caller goes on with a result.  An exclusive method runs with
the same arguments at once. -/
structure Performs (d : Design σ) (s : Schedule) (c : Nat) (u : Site σ) (args result : Record)
    (events : List Event) : Prop where
  /-- the call is made -/
  performed : .perform c none ∈ events
  /-- with the arguments -/
  passes : ∃ target, d.method? u.callee = some target ∧ u.Passes s c target none args
  /-- the body of an exclusive method starts with them -/
  runs : d.main.isExclusive u.callee.id = true →
    [.perform c none, .enter u.callee.id args] <:+: events
  /-- the caller receives the result -/
  answered : .answer c result ∈ events

theorem Performs.mono {d : Design σ} {u : Site σ} {args result : Record} {events events' : List Event}
    (h : Performs d s c u args result events) (hgrows : events <+: events') :
    Performs d s c u args result events' where
  performed := hgrows.mem h.performed
  passes := h.passes
  runs := fun hexclusive => (h.runs hexclusive).trans hgrows.isInfix
  answered := hgrows.mem h.answered

/-- Once a requester was granted, its call is made, and it has taken a result of its target over. -/
def Served (place : Place σ Requester) (d : Design σ) (s : Schedule) (c : Nat) (u : Site σ) (q : Requester)
    (e : Body.Effects σ Account) : Prop :=
  (∃ result, Performs d s c u q.arguments result e.calls.events) ∧
    ∃ result, d.main.Received u.callee result e.calls.events ∧ place.get e.state = some (q.finish result)

theorem Served.mono {d : Design σ} {u : Site σ} {e e' : Body.Effects σ Account} (h : Served place d s c u q e)
    (hturns : Turns place d.main u.callee e e') : Served place d s c u q e' := by
  obtain ⟨⟨result, hperforms⟩, result', hreceived, hget⟩ := h
  refine ⟨⟨result, hperforms.mono hturns.events⟩, ?_⟩
  rcases hturns.state with hspares | ⟨result'', hreceived', hget'⟩
  · exact ⟨result', hreceived.mono hturns.events, hspares.trans hget⟩
  · refine ⟨result'', hreceived', ?_⟩
    rw [hget', hget]
    rfl

/-- What was decided about the call of a granted requester before the bodies run. -/
structure Granted (d : Design σ) (s : Schedule) (c : Nat) (u : Site σ) (args : Record) : Prop where
  /-- its arguments were supplied -/
  early : s.earlyOf c = some args
  /-- an exclusive target is driven by it -/
  drives : d.main.isExclusive u.callee.id = true → s.selectedOf u.callee.id = some c

namespace Hosted

/-- The transaction of the requester makes its call. -/
theorem performs_of_answerTraced (hosted : Hosted place x priority t c m) (h : m.design.main.Elaborated plan)
    {fuel : Nat} {args result : Record} {e e' : Body.Effects σ Account}
    (hgranted : Granted m.design s c (x.site place t) args)
    (hcall : m.answerTraced s fuel t (.perform x.target none) e = .ok (result, e')) :
    Performs m.design s c (x.site place t) args result e'.calls.events := by
  cases fuel with
  | zero => cases hcall
  | succ fuel =>
    obtain ⟨i, u, target, passed, hcaller, hcallee, ho, hanswer⟩ := Machine.answered_of_answerTraced hcall
    have hu := (Registry.findSite?_eq_some ho.found).1
    obtain rfl : i = c := h.unique hu hosted.site hcaller hcallee
    obtain rfl : u = x.site place t := Option.some.inj (hu.symm.trans hosted.site)
    have hpasses := Machine.passes_of_passedArguments (fun _ => ⟨args, hgranted.early⟩) ho.passed
    obtain rfl : args = passed := Option.some.inj (hgranted.early.symm.trans (hpasses.earlyOf_eq rfl))
    have hknown := (h.method?_callee hu).symm.trans ho.known
    cases hanswer with
    | again known shared =>
      refine ⟨by simp, ⟨target, ho.known, hpasses⟩, fun hexclusive => ?_, by simp⟩
      rw [Registry.isExclusive_iff hknown, shared] at hexclusive
      cases hexclusive
    | @first body _ e₁ unknown checked defined ran fits =>
      have hgrows := (Machine.steps_of_run h ran).grows
      have hperformed : .perform i none ∈ e₁.calls.events := hgrows.mem (by simp)
      refine ⟨by simp [hperformed], ⟨target, ho.known, hpasses⟩, fun hexclusive => ?_, by simp⟩
      have hdriving : Machine.drivingArguments s (x.site place t).callee.id target i args = args := by
        unfold Machine.drivingArguments
        rw [hgranted.drives hexclusive]
        simp
      rw [hdriving, Account.events_enter, Account.events_perform, List.append_assoc] at hgrows
      rw [Account.events_answer, Account.events_leave, List.append_assoc]
      exact (List.suffix_append _ _).isInfix.trans (hgrows.trans (List.prefix_append _ _)).isInfix

/-- The granted transaction of the requester serves it. -/
theorem served_of_runTransactionTraced (hosted : Hosted place x priority t c m)
    (h : m.design.main.Elaborated plan) {e e' : Body.Effects σ Account}
    (hget : place.get e.state = some q') (hq : q.Follows q') (hgranted : s.granted.test t = true)
    (hcall : Granted m.design s c (x.site place t) q.arguments)
    (hrun : m.runTransactionTraced s e t = .ok e') : Served place m.design s c (x.site place t) q e' := by
  rcases Machine.runTransactionTraced_eq_ok.mp hrun with ⟨-, txn, body, htxn, hbody, hran⟩ | ⟨hdenied, -⟩
  · obtain rfl := Option.some.inj (htxn.symm.trans hosted.transaction)
    obtain ⟨result, e₁, q₁, hanswer, hget₁, hfinished, hcalls⟩ := run_transaction hbody hran
    have hperforms := hosted.performs_of_answerTraced h hcall hanswer
    have hreceived := Machine.received_of_answerTraced hanswer
    have hturns := hosted.turns_of_answerTraced h _ _ _ _ _ _ hanswer
    obtain ⟨q₂, hget₂, hq₂⟩ := hturns.follows hget hq
    obtain rfl : q₁ = q₂ := Option.some.inj (hget₁.symm.trans hget₂)
    rw [← hcalls] at hperforms hreceived
    refine ⟨⟨result, hperforms⟩, result, hreceived, ?_⟩
    rw [hfinished, hq₂.finish_eq]
  · rw [hgranted] at hdenied
    cases hdenied

/-! ## Scheduling -/

/-- The transaction is requested if and only if the requester wants a call. -/
theorem requested_eq (hosted : Hosted place x priority t c m) (h : m.design.main.Elaborated plan)
    (hs : m.Schedules plan s) (hget : place.get m.state = some q) : s.requested.test t = q.wantsCall := by
  obtain ⟨view, hview, hrequested⟩ := hs.exists_request h t
  have hiff := hrequested _ hosted.transaction
  have hholds : Guard.holds (x.transaction place priority).request view = .ok q.wantsCall := by
    show (do .ok (← place.find x.name view.state).wantsCall : Except Fault Bool) = _
    rw [find_of_saw hget hview]
    rfl
  rw [hholds, Except.ok.injEq] at hiff
  rw [Bool.eq_iff_iff]
  exact hiff

theorem wantsCall_of_granted (hosted : Hosted place x priority t c m) (h : m.design.main.Elaborated plan)
    (hs : m.Schedules plan s) (hget : place.get m.state = some q) (hgranted : s.granted.test t = true) :
    q.wantsCall = true := by
  rw [← hosted.requested_eq h hs hget]
  exact hs.requested_of_runnable h (hs.runnable_of_granted h hgranted)

/-- The call of a granted requester takes place, with its arguments. -/
theorem granted_site (hosted : Hosted place x priority t c m) (built : m.design.Built)
    (hplan : m.design.main.plan = some plan) (hs : m.Schedules plan s) (hget : place.get m.state = some q)
    (hcheck : m.checkExclusive s = .ok ()) (hgranted : s.granted.test t = true) :
    Granted m.design s c (x.site place t) q.arguments := by
  have h := built.elaborated hplan
  have hrequested := hs.requested_of_runnable h (hs.runnable_of_granted h hgranted)
  obtain ⟨view, -, hactive⟩ := hs.exists_condition c
  have hc : s.grantedSites.test c = true :=
    (hs.grantedSites_iff hosted.site).mpr ⟨(hactive _ hosted.site).mpr ⟨rfl, hrequested⟩, hgranted⟩
  refine ⟨?_, fun hexclusive => hs.selectedOf_of_checkExclusive built hplan hcheck hosted.site hc hexclusive⟩
  obtain ⟨args, hearly⟩ := hs.exists_earlyOf hosted.site hc rfl
  obtain ⟨view, hview, hsupplied⟩ := hs.exists_arguments c
  obtain ⟨u, supplier, hu, hsupplier, hargs⟩ := hsupplied args hearly
  obtain rfl := Option.some.inj (hosted.site.symm.trans hu)
  obtain rfl := Option.some.inj hsupplier
  have hargs : (do .ok (← place.find x.name view.state).arguments : Except Fault Record) = .ok args := hargs
  rw [find_of_saw hget hview] at hargs
  rw [hearly, Except.ok.inj hargs]

end Hosted

/-! ## Cycles -/

/-- A call is delivered in a cycle: it is made, once, and the caller receives what the target returned. -/
structure Delivered (d : Design σ) (s : Schedule) (c : Nat) (u : Site σ) (args result : Record)
    (events : List Event) : Prop extends Performs d s c u args result events where
  /-- the call site is performed once -/
  once : (events.filterMap Event.performed?).count c = 1
  /-- the target returned the result, and nothing else -/
  returned : ∀ other, .leave u.callee.id other ∈ events ↔ other = result

/-- A cycle leaves the requester as it is or hands it a result, and if the requester is granted its call is
delivered and the result is that of the target. -/
theorem Hosted.cycle (hosted : Hosted place x priority t c m) (built : m.design.Built)
    (hplan : m.design.main.plan = some plan) (hs : m.Schedules plan s) (hget : place.get m.state = some q)
    {events : List Event} (hrun : m.executeTraced s = .ok (m', events)) :
    ∃ q', place.get m'.commit.state = some q' ∧ q.Follows q' ∧ (s.granted.test t = true →
      ∃ result, q' = q.finish result ∧ Delivered m.design s c (x.site place t) q.arguments result events) := by
  have h := built.elaborated hplan
  obtain ⟨plan', hplan', -, hrun⟩ := Machine.executeTraced_eq_ok.mp hrun
  obtain rfl := Option.some.inj (hplan.symm.trans hplan')
  obtain ⟨hcheck, e, e', hfold, -, hhooks, hr⟩ := Machine.executeTracedWith_eq_ok.mp hrun
  obtain ⟨rfl, rfl⟩ := Prod.mk.inj hr
  have hexecuting : Hosted place x priority t c (m.executing s) := hosted.of_same rfl rfl
  -- the transactions run one after the other; once that of the requester has run, the requester is served
  obtain ⟨⟨q₁, hget₁, hq₁⟩, hserved⟩ := foldlM_forall
    (P := fun e : Body.Effects σ Account => ∃ q', place.get e.state = some q' ∧ q.Follows q')
    (Q := fun t' e => t' = t → s.granted.test t = true → Served place m.design s c (x.site place t) q e)
    (by
      rintro t' - e e' ⟨q', hget', hq'⟩ hstep
      have hturns := hexecuting.turns_of_runTransactionTraced h hstep
      refine ⟨hturns.follows hget' hq', ?_⟩
      rintro rfl hgranted
      have hcall := hosted.granted_site built hplan hs hget hcheck hgranted
      exact hexecuting.served_of_runTransactionTraced h hget' hq' hgranted hcall hstep)
    (by
      rintro t' - e e' - hstep t'' hserved heq hgranted
      exact (hserved heq hgranted).mono (hexecuting.turns_of_runTransactionTraced h hstep))
    ⟨q, hget, .refl q⟩ hfold
  have hlogic : place.Spares e.state e'.state :=
    Machine.rel_of_runHook place.spares_refl (fun h h' => h'.trans h) hexecuting.logic hhooks
  have hedge := (place.spares_commit hosted.edge e'.state).trans hlogic
  refine ⟨q₁, hedge.trans hget₁, hq₁, fun hgranted => ?_⟩
  have htransaction : (m.design.main.transaction? t).isSome := by
    rw [hosted.transaction]
    rfl
  obtain ⟨⟨result, hperforms⟩, result', hreceived', hfinished⟩ :=
    hserved t (h.mem_order.mpr htransaction) rfl hgranted
  obtain rfl := Option.some.inj (hget₁.symm.trans hfinished)
  have hconsistent := Machine.consistent_of_foldlM (m := m.executing s) h hfold
  have hreceived : m.design.main.Received x.target result e.calls.events :=
    ⟨c, _, hosted.site, rfl, hperforms.answered⟩
  obtain rfl : result' = result := by
    have hleft := (hconsistent.leave_iff hreceived' result').mpr rfl
    exact (hconsistent.leave_iff hreceived result').mp hleft
  refine ⟨result', rfl, hperforms, ?_, hconsistent.leave_iff hreceived⟩
  exact List.count_eq_one_of_mem hconsistent.performed_nodup
    (Account.mem_performed.mpr ⟨none, hperforms.performed⟩)

end Requester

end GuardedActions
