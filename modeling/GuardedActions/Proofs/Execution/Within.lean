import GuardedActions.Block.Requester
import GuardedActions.Proofs.Execution.Answer

/-!
# What bodies may do to the state

A body stays within a relation if it replaces the state only after it has looked at it, and only by a state
that is related to the one it saw.  What bodies that stay within a reflexive and transitive relation do,
together with everything that they call, is related to where it began, and so is what a whole execution does.
The actions of blocks and of requesters stay within every relation that contains what the block does to its
own state.
-/

set_option autoImplicit false

namespace GuardedActions

variable {σ τ κ α β ρ : Type} {R : σ → σ → Prop}

namespace Body

/-- A body replaces the state only by states that are related to what it saw.  `now` is the state, if the
body knows it: it looked, and has made no call since then. -/
def Within (R : σ → σ → Prop) : (now : Option σ) → Body σ κ α → Prop
  | _, .done _ => True
  | _, .fail _ => True
  | _, .look next => ∀ view, (next view).Within R (some view.state)
  | now, .update state next => (∃ seen, now = some seen ∧ R seen state) ∧ next.Within R (some state)
  | now, .note _ next => next.Within R now
  | now, .report _ next => next.Within R now
  | _, .call _ next => ∀ answer, (next answer).Within R none

/-- A body that does not know the state at first does no harm if it does. -/
theorem Within.of_none {body : Body σ κ α} (h : body.Within R none) (now : Option σ) : body.Within R now := by
  induction body with
  | done a => trivial
  | fail fault => trivial
  | look next _ => exact h
  | update state next _ =>
    obtain ⟨⟨seen, hseen, -⟩, -⟩ := h
    cases hseen
  | note text next ih => exact ih h
  | report entry next ih => exact ih h
  | call request next _ => exact h

theorem Within.mono {R' : σ → σ → Prop} (hR : ∀ x y, R x y → R' x y) {body : Body σ κ α} {now : Option σ}
    (h : body.Within R now) : body.Within R' now := by
  induction body generalizing now with
  | done a => trivial
  | fail fault => trivial
  | look next ih => exact fun view => ih view (h view)
  | update state next ih =>
    obtain ⟨⟨seen, hseen, hrelated⟩, hnext⟩ := h
    exact ⟨⟨seen, hseen, hR seen state hrelated⟩, ih hnext⟩
  | note text next ih => exact ih h
  | report entry next ih => exact ih h
  | call request next ih => exact fun answer => ih answer (h answer)

theorem Within.bind {body : Body σ κ α} {f : α → Body σ κ β} {now : Option σ} (h : body.Within R now)
    (hf : ∀ a, (f a).Within R none) : (body.bind f).Within R now := by
  induction body generalizing now with
  | done a => exact (hf a).of_none now
  | fail fault => trivial
  | look next ih => exact fun view => ih view (h view)
  | update state next ih => exact ⟨h.1, ih h.2⟩
  | note text next ih => exact ih h
  | report entry next ih => exact ih h
  | call request next ih => exact fun answer => ih answer (h answer)

theorem within_step {change : View σ → Except Fault (α × σ)}
    (h : ∀ view a state, change view = .ok (a, state) → R view.state state) :
    (Body.step change : Body σ κ α).Within R none := by
  intro view
  simp only
  cases hchange : change view with
  | error fault => trivial
  | ok r => exact ⟨⟨view.state, rfl, h view r.1 r.2 hchange⟩, trivial⟩

/-- What a run does, if it holds of every change of the state within the relation, of whatever is told, and
of every call, and if it can be put together from such steps. -/
theorem Within.run {scene : Scene} {answer : κ → Effects σ ρ → Except Fault (Record × Effects σ ρ)}
    {T : Effects σ ρ → Effects σ ρ → Prop} (hrefl : ∀ x, R x x)
    (hstep : ∀ e state journal, R e.state state → T e ⟨state, journal, e.calls⟩)
    (htrans : ∀ {e e' e''}, T e e' → T e' e'' → T e e'')
    (hanswer : ∀ {request e result e'}, answer request e = .ok (result, e') → T e e')
    {body : Body σ κ α} {now : Option σ} (h : body.Within R now) {e e' : Effects σ ρ} {a : α}
    (hnow : ∀ seen, now = some seen → e.state = seen) (hrun : body.run scene answer e = .ok (a, e')) :
    T e e' := by
  induction body generalizing now e with
  | done a' =>
    obtain ⟨-, rfl⟩ := Prod.mk.inj (Except.ok.inj hrun)
    exact hstep e e.state e.journal (hrefl _)
  | fail fault => cases hrun
  | look next ih => exact ih _ (h ⟨e.state, scene⟩) (fun _ hseen => Option.some.inj hseen) hrun
  | update state next ih =>
    obtain ⟨⟨seen, hseen, hrelated⟩, hnext⟩ := h
    have hfirst : T e { e with state := state } := by
      refine hstep e state e.journal ?_
      rw [hnow seen hseen]
      exact hrelated
    exact htrans hfirst (ih hnext (fun _ hstate => Option.some.inj hstate) hrun)
  | note text next ih =>
    exact htrans (hstep e e.state (e.journal.note text) (hrefl _)) (ih h hnow hrun)
  | report entry next ih =>
    exact htrans (hstep e e.state (e.journal.report entry) (hrefl _)) (ih h hnow hrun)
  | call request next ih =>
    unfold Body.run at hrun
    split at hrun
    · cases hrun
    · rename_i result e₁ hcall
      exact htrans (hanswer hcall) (ih result (h result) (fun _ hseen => nomatch hseen) hrun)

end Body

/-! ## Actions of blocks and requesters -/

/-- The bodies of an action stay within a relation. -/
structure Action.Within (R : σ → σ → Prop) (a : Action σ) : Prop where
  /-- the body of a method -/
  method : ∀ {x : Method σ} {body : Record → ActionBody σ Record}, a.method? = some x →
    x.body = some body → ∀ args, (body args).Within R none
  /-- the body of a transaction -/
  transaction : ∀ {t : Transaction σ} {body : ActionBody σ Unit}, a.transaction? = some t →
    t.body = some body → body.Within R none

theorem Place.change_eq_ok {place : Place σ τ} {name : String} {f : τ → Except Fault (α × τ)}
    {state state' : σ} {a : α} : place.change name f state = .ok (a, state') ↔
      ∃ x x', place.get state = some x ∧ f x = .ok (a, x') ∧ state' = place.put state x' := by
  unfold change find
  constructor
  · intro h
    obtain ⟨x, hx, h⟩ := bind_eq_ok.mp h
    obtain ⟨⟨a', x'⟩, hf, h⟩ := bind_eq_ok.mp h
    obtain ⟨rfl, rfl⟩ := Prod.mk.inj (Except.ok.inj h)
    cases hget : place.get state with
    | none => simp [hget] at hx
    | some y =>
      rw [hget] at hx
      obtain rfl := Except.ok.inj hx
      exact ⟨y, x', rfl, hf, rfl⟩
  · rintro ⟨x, x', hget, hf, rfl⟩
    rw [hget, ok_bind, hf]
    rfl

namespace Block

/-- Something that a block does to its state: a method, an internal transaction or its logic runs. -/
def Moves (b : Block σ τ) (x x' : τ) : Prop :=
  (∃ p ∈ b.ports, ∃ view args result, p.body view x args = .ok (result, x')) ∨
  (∃ j ∈ b.jobs, ∃ view, j.body view x = .ok x') ∨
  ∃ logic, b.hook = some logic ∧ ∃ view, logic view x = .ok x'

variable {b : Block σ τ} {place : Place σ τ}

theorem within_port (h : ∀ state x x', place.get state = some x → b.Moves x x' →
      R state (place.put state x')) {p : Port σ τ} (hp : p ∈ b.ports) {body : Record → ActionBody σ Record}
    (hbody : (p.method place b.name).body = some body) (args : Record) : (body args).Within R none := by
  obtain rfl := Option.some.inj hbody
  refine Body.within_step fun view result state hchange => ?_
  obtain ⟨x, x', hget, hmove, rfl⟩ := Place.change_eq_ok.mp hchange
  exact h _ _ _ hget (.inl ⟨p, hp, view, args, result, hmove⟩)

theorem within_actions (h : ∀ state x x', place.get state = some x → b.Moves x x' →
      R state (place.put state x')) {a : Action σ} (ha : a ∈ b.actions place) : a.Within R := by
  rcases List.mem_append.mp ha with hport | hjob
  · obtain ⟨p, hp, rfl⟩ := List.mem_map.mp hport
    refine ⟨fun hx hbody args => ?_, nofun⟩
    obtain rfl := Option.some.inj hx
    exact within_port h hp hbody args
  · obtain ⟨j, hj, rfl⟩ := List.mem_map.mp hjob
    refine ⟨nofun, fun ht hbody => ?_⟩
    obtain rfl := Option.some.inj ht
    obtain rfl := Option.some.inj hbody
    refine Body.within_step fun view result state hchange => ?_
    obtain ⟨x, x', hget, hmove, rfl⟩ := Place.change_eq_ok.mp hchange
    obtain ⟨y, hy, hpair⟩ := map_eq_ok.mp hmove
    obtain ⟨-, rfl⟩ := Prod.mk.inj hpair
    exact h _ _ _ hget (.inr (.inl ⟨j, hj, view, hy⟩))

theorem within_hook (h : ∀ state x x', place.get state = some x → b.Moves x x' →
      R state (place.put state x')) {hook : Hook σ} (hhook : (b.part place).hook = some hook) :
    hook.Within R none := by
  obtain ⟨logic, hlogic, rfl⟩ := Option.map_eq_some_iff.mp hhook
  refine Body.within_step fun view result state hchange => ?_
  obtain ⟨x, x', hget, hmove, rfl⟩ := Place.change_eq_ok.mp hchange
  obtain ⟨y, hy, hpair⟩ := map_eq_ok.mp hmove
  obtain ⟨-, rfl⟩ := Prod.mk.inj hpair
  exact h _ _ _ hget (.inr (.inr ⟨logic, hlogic, view, hy⟩))

end Block

theorem Requester.within_transaction {place : Place σ Requester}
    (h : ∀ state x outputs, place.get state = some x → R state (place.put state (x.finish outputs)))
    (name : String) (owner : Option String) (x : Requester) (priority : Int) :
    (⟨name, owner, .transaction (x.transaction place priority)⟩ : Action σ).Within R := by
  refine ⟨nofun, fun ht hbody => ?_⟩
  obtain rfl := Option.some.inj ht
  obtain rfl := Option.some.inj hbody
  have hask : (Body.ask (Call.perform x.target none) : ActionBody σ Record).Within R none := fun _ => trivial
  refine hask.bind fun outputs => ?_
  refine Body.within_step fun view result state hchange => ?_
  obtain ⟨y, y', hget, hmove, rfl⟩ := Place.change_eq_ok.mp hchange
  obtain ⟨-, rfl⟩ := Prod.mk.inj (Except.ok.inj hmove)
  exact h _ _ _ hget

/-! ## Registrations -/

theorem Action.Within.mapMethod {f : Method σ → Method σ} {a : Action σ} (h : a.Within R)
    (hf : ∀ {x : Method σ} {body : Record → ActionBody σ Record}, a.method? = some x →
      (f x).body = some body → ∀ args, (body args).Within R none) : (a.mapMethod f).Within R where
  method := by
    intro x body hx
    rw [Action.method?_mapMethod] at hx
    obtain ⟨y, hy, rfl⟩ := Option.map_eq_some_iff.mp hx
    exact hf hy
  transaction := by
    intro t body ht
    rw [Action.transaction?_mapMethod] at ht
    exact h.transaction ht

theorem Action.Within.mapTransaction {f : Transaction σ → Transaction σ} {a : Action σ} (h : a.Within R)
    (hf : ∀ {t : Transaction σ} {body : ActionBody σ Unit}, a.transaction? = some t →
      (f t).body = some body → body.Within R none) : (a.mapTransaction f).Within R where
  method := by
    intro x body hx
    rw [Action.method?_mapTransaction] at hx
    exact h.method hx
  transaction := by
    intro t body ht
    rw [Action.transaction?_mapTransaction] at ht
    obtain ⟨y, hy, rfl⟩ := Option.map_eq_some_iff.mp ht
    exact hf hy

/-- The actions of a registry stay within a relation. -/
structure Registry.Within (R : σ → σ → Prop) (r : Registry σ) : Prop where
  /-- every action -/
  action : ∀ {id : Nat} {a : Action σ}, r.action? id = some a → a.Within R

namespace Registry.Within

variable {r r' : Registry σ}

theorem of_actions (h : r.Within R) (hactions : r'.actions = r.actions) : r'.Within R := by
  refine ⟨fun ha => ?_⟩
  unfold action? at ha
  rw [hactions] at ha
  exact h.action ha

theorem append (h : r.Within R) {actions : List (Action σ)} (hactions : ∀ a ∈ actions, a.Within R) :
    ({ r with actions := r.actions ++ actions } : Registry σ).Within R := by
  refine ⟨fun {id a} ha => ?_⟩
  rcases List.mem_append.mp (List.mem_of_getElem? ha) with hold | hnew
  · obtain ⟨j, hj⟩ := List.getElem?_of_mem hold
    exact h.action hj
  · exact hactions a hnew

theorem modifyAction (h : r.Within R) {id : Nat} {f : Action σ → Action σ}
    (hf : ∀ a, a.Within R → (f a).Within R) : (r.modifyAction id f).Within R := by
  refine ⟨fun ha => ?_⟩
  rw [action?_modifyAction] at ha
  split at ha
  · obtain ⟨b, hb, rfl⟩ := Option.map_eq_some_iff.mp ha
    exact hf b (h.action hb)
  · exact h.action ha

theorem newMethod (h : r.Within R) {name : String} {input output : Shape} {owner : Option String} {id : Nat}
    (hr : r.newMethod name input output owner = .ok (id, r')) : r'.Within R := by
  obtain ⟨u, -, hr⟩ := bind_eq_ok.mp hr
  obtain ⟨-, rfl⟩ := Prod.mk.inj (Except.ok.inj hr)
  refine h.append fun a ha => ?_
  obtain rfl := List.mem_singleton.mp ha
  refine ⟨fun hx hbody => ?_, nofun⟩
  obtain rfl := Option.some.inj hx
  cases hbody

theorem newTransaction (h : r.Within R) {name : String} {priority : Int} {owner : Option String} {id : Nat}
    (hr : r.newTransaction name priority owner = .ok (id, r')) : r'.Within R := by
  obtain ⟨u, -, hr⟩ := bind_eq_ok.mp hr
  obtain ⟨-, rfl⟩ := Prod.mk.inj (Except.ok.inj hr)
  refine h.append fun a ha => ?_
  obtain rfl := List.mem_singleton.mp ha
  refine ⟨nofun, fun ht hbody => ?_⟩
  obtain rfl := Option.some.inj ht
  cases hbody

theorem changeMethod (h : r.Within R) {id : Nat} {what : String → Change} {f : Method σ → Method σ}
    (hr : r.changeMethod id what f = .ok r')
    (hf : ∀ {x : Method σ} {body : Record → ActionBody σ Record}, (f x).body = some body →
      x.body = some body ∨ ∀ args, (body args).Within R none) : r'.Within R := by
  obtain ⟨u, -, hr⟩ := bind_eq_ok.mp hr
  obtain rfl := Except.ok.inj hr
  refine h.modifyAction fun a ha => ha.mapMethod fun hx hbody => ?_
  rcases hf hbody with hold | hnew
  · exact ha.method hx hold
  · exact hnew

theorem changeTransaction (h : r.Within R) {id : Nat} {what : String → Change}
    {f : Transaction σ → Transaction σ} (hr : r.changeTransaction id what f = .ok r')
    (hf : ∀ {t : Transaction σ} {body : ActionBody σ Unit}, (f t).body = some body →
      t.body = some body ∨ body.Within R none) : r'.Within R := by
  obtain ⟨u, -, hr⟩ := bind_eq_ok.mp hr
  obtain rfl := Except.ok.inj hr
  refine h.modifyAction fun a ha => ha.mapTransaction fun ht hbody => ?_
  rcases hf hbody with hold | hnew
  · exact ha.transaction ht hold
  · exact hnew

theorem supplyArguments (h : r.Within R) {site : Nat} {arguments : Supplier σ}
    (hr : r.supplyArguments site arguments = .ok r') : r'.Within R := by
  unfold Registry.supplyArguments at hr
  split at hr
  · cases hr
  · obtain ⟨u, -, hr⟩ := bind_eq_ok.mp hr
    obtain rfl := Except.ok.inj hr
    exact h.of_actions rfl

theorem setCall (h : r.Within R) {site : Nat} {setting : CallSetting σ}
    (hr : r.setCall site setting = .ok r') : r'.Within R := by
  cases setting with
  | condition guard =>
    change r.defineCondition site guard = .ok r' at hr
    unfold defineCondition at hr
    split at hr
    · cases hr
    · obtain ⟨u, -, hr⟩ := bind_eq_ok.mp hr
      obtain rfl := Except.ok.inj hr
      exact h.of_actions rfl
  | arguments supplier => exact h.supplyArguments hr

end Registry.Within

/-- A body that is registered stays within a relation. -/
def Registration.Within (R : σ → σ → Prop) : Registration σ → Prop
  | .setMethod _ (.body body) => ∀ args, (body args).Within R none
  | .setTransaction _ (.body body) => body.Within R none
  | _ => True

/-- The actions of a design stay within a relation. -/
structure Design.Within (R : σ → σ → Prop) (d : Design σ) : Prop where
  /-- both registries -/
  registry : ∀ domain, (d.registry domain).Within R

namespace Design.Within

variable {d d' : Design σ}

theorem action (h : d.Within R) {ref : ActionRef} {a : Action σ} (ha : d.action? ref = some a) :
    a.Within R := (h.registry ref.domain).action ha

theorem empty : ({} : Design σ).Within R := by
  refine ⟨fun domain => ⟨fun ha => ?_⟩⟩
  cases domain with
  | main | guest => cases ha

theorem withRegistry (h : d.Within R) (domain : Domain) {r : Registry σ} (hr : r.Within R) :
    (d.withRegistry domain r).Within R := by
  refine ⟨fun other => ?_⟩
  by_cases hother : other = domain
  · subst hother
    rw [registry_withRegistry]
    exact hr
  · rw [registry_withRegistry_of_ne d hother]
    exact h.registry other

theorem declareCall (h : d.Within R) {caller callee : ActionRef} {id : Nat}
    (hd : d.declareCall caller callee = .ok (id, d')) : d'.Within R := by
  obtain ⟨u, -, hd⟩ := bind_eq_ok.mp hd
  obtain ⟨-, rfl⟩ := Prod.mk.inj (Except.ok.inj hd)
  have hr : ({ d.registry caller.domain with
      sites := (d.registry caller.domain).sites ++ [⟨caller.id, callee, none, none⟩] } : Registry σ).Within R :=
    (h.registry caller.domain).of_actions rfl
  have hcaller := h.withRegistry caller.domain hr
  refine hcaller.withRegistry _ ((hcaller.registry callee.domain).modifyAction fun a ha => ha.mapMethod ?_)
  exact fun hx hbody => ha.method hx hbody

/-- A registration whose body stays within the relation. -/
theorem register (h : d.Within R) {step : Registration σ} (hstep : step.Within R)
    (hd : d.register step = .ok d') : d'.Within R := by
  have hchange : ∀ {domain : Domain} {f : Registry σ → Except Fault (Registry σ)},
      d.changeRegistry domain f = .ok d' →
      (∀ {r r' : Registry σ}, r.Within R → f r = .ok r' → r'.Within R) → d'.Within R := by
    intro domain f hd hf
    obtain ⟨r, hr, hd⟩ := bind_eq_ok.mp hd
    obtain rfl := Except.ok.inj hd
    exact h.withRegistry domain (hf (h.registry domain) hr)
  cases step with
  | newMethod domain name input output owner =>
    simp only [Design.register] at hd
    refine hchange hd fun hr hmade => ?_
    obtain ⟨⟨id, r⟩, hnew, rfl⟩ := map_eq_ok.mp hmade
    exact hr.newMethod hnew
  | newTransaction domain name priority owner =>
    simp only [Design.register] at hd
    refine hchange hd fun hr hmade => ?_
    obtain ⟨⟨id, r⟩, hnew, rfl⟩ := map_eq_ok.mp hmade
    exact hr.newTransaction hnew
  | setMethod method setting =>
    simp only [Design.register] at hd
    split at hd
    · refine hchange hd fun hr hset => ?_
      cases setting with
      | body body =>
        refine hr.changeMethod hset fun hbody => .inr ?_
        obtain rfl := Option.some.inj hbody
        exact hstep
      | ready | validator | shared | early => exact hr.changeMethod hset .inl
    · cases hd
  | setTransaction transaction setting =>
    simp only [Design.register] at hd
    split at hd
    · refine hchange hd fun hr hset => ?_
      cases setting with
      | body body =>
        refine hr.changeTransaction hset fun hbody => .inr ?_
        obtain rfl := Option.some.inj hbody
        exact hstep
      | request guard => exact hr.changeTransaction hset .inl
    · cases hd
  | newCall caller callee =>
    simp only [Design.register] at hd
    split at hd
    · obtain ⟨⟨id, d''⟩, hdeclare, rfl⟩ := map_eq_ok.mp hd
      exact h.declareCall hdeclare
    · cases hd
  | setCall site setting =>
    simp only [Design.register] at hd
    exact hchange hd fun hr hset => hr.setCall hset
  | newConflict first second =>
    simp only [Design.register] at hd
    split at hd
    · obtain ⟨u, -, hd⟩ := bind_eq_ok.mp hd
      split at hd
      · obtain rfl := Except.ok.inj hd
        exact h.withRegistry .main ((h.registry .main).of_actions rfl)
      · cases hd
    · cases hd

theorem registerAll {steps : List (Registration σ)} (h : d.Within R) (hsteps : ∀ step ∈ steps, step.Within R) :
    (d.registerAll steps).Within R := by
  induction steps generalizing d with
  | nil => exact h
  | cons step rest ih =>
    unfold Design.registerAll
    split
    · rename_i d' hd'
      exact ih (h.register (hsteps step List.mem_cons_self) hd') fun step hmem =>
        hsteps step (List.mem_cons_of_mem _ hmem)
    · exact h

/-- An attempt to elaborate changes no action. -/
theorem elaborate (h : d.Within R) : d.elaborate.1.Within R := by
  obtain ⟨ranking, plan, heq⟩ := exists_elaborate d
  have hr : ({ d.main with ranking := ranking, plan := plan } : Registry σ).Within R :=
    (h.registry .main).of_actions rfl
  rw [heq]
  exact h.withRegistry .main hr

end Design.Within

/-! ## Executions -/

namespace Machine

variable {m m' : Machine σ} {s : Schedule}

/-- All bodies of a machine, and the logic of its components, stay within a relation. -/
structure Within (R : σ → σ → Prop) (m : Machine σ) : Prop where
  /-- the actions of both registries, which bodies may run directly -/
  design : m.design.Within R
  /-- the logic of the components -/
  hook : ∀ {part : Part σ} {hook : Hook σ}, part ∈ m.parts → part.hook = some hook → hook.Within R none

theorem Within.mono {R' : σ → σ → Prop} (hR : ∀ x y, R x y → R' x y) (h : m.Within R) : m.Within R' where
  design := ⟨fun domain => ⟨fun ha =>
    ⟨fun hx hbody args => (((h.design.registry domain).action ha).method hx hbody args).mono hR,
      fun ht hbody => (((h.design.registry domain).action ha).transaction ht hbody).mono hR⟩⟩⟩
  hook hpart hhook := (h.hook hpart hhook).mono hR

variable (hrefl : ∀ x, R x x) (htrans : ∀ {x y z}, R x y → R y z → R x z)
include hrefl htrans

/-- What a body does within the relation together with what it calls. -/
theorem Within.run {scene : Scene} {α : Type} {body : ActionBody σ α}
    {answer : Call → Body.Effects σ Account → Except Fault (Record × Body.Effects σ Account)}
    {e e' : Body.Effects σ Account} {a : α} (hrun : body.run scene answer e = .ok (a, e'))
    (hanswer : ∀ call e r, answer call e = .ok r → R e.state r.2.state)
    (hbody : body.Within R none) : R e.state e'.state :=
  hbody.run (T := fun e e' => R e.state e'.state) hrefl (fun _ _ _ hR => hR) htrans
    (fun hcall => hanswer _ _ _ hcall) nofun hrun

/-- A call does something within the relation. -/
theorem Within.answer (h : m.Within R) (s : Schedule) :
    ∀ (fuel caller : Nat) (call : Call) (e : Body.Effects σ Account)
      (r : Record × Body.Effects σ Account), m.answerTraced s fuel caller call e = .ok r →
      R e.state r.2.state := by
  intro fuel
  induction fuel with
  | zero =>
    intro caller call e r hcall
    cases hcall
  | succ fuel ih =>
    rintro caller call e ⟨result, e'⟩ hcall
    cases call with
    | perform callee args =>
      obtain ⟨i, u, target, passed, -, rfl, ho, hanswer⟩ := answered_of_answerTraced hcall
      cases hanswer with
      | again known shared => exact hrefl _
      | first unknown checked defined ran fits =>
        obtain ⟨a, ha, hmethod⟩ := Option.bind_eq_some_iff.mp ho.known
        have hafter := Within.run hrefl htrans ran (ih _) ((h.design.action ha).method hmethod defined _)
        exact hafter
    | invoke target args =>
      obtain ⟨a, ha, hinvoked⟩ := invoked_of_answerTraced hcall
      cases hinvoked with
      | method role defined ran =>
        have hafter := Within.run hrefl htrans ran (ih _) ((h.design.action ha).method role defined _)
        exact hafter
      | transaction role defined ran =>
        have hafter := Within.run hrefl htrans ran (ih _) ((h.design.action ha).transaction role defined)
        exact hafter

/-- What the logic of components does within the relation. -/
theorem rel_of_runHook {parts : List (Part σ)} {e e' : Body.Effects σ Ledger}
    (hparts : ∀ {part : Part σ} {hook : Hook σ}, part ∈ parts → part.hook = some hook → hook.Within R none)
    (hrun : parts.foldlM m.runHook e = .ok e') : R e.state e'.state := by
  refine foldlM_induction (P := fun e' => R e.state e'.state) (fun part hpart e₁ e₂ he hstep => ?_) (hrefl _) hrun
  unfold runHook at hstep
  split at hstep
  · obtain rfl := Except.ok.inj hstep
    exact he
  · rename_i hook hhook
    obtain ⟨⟨⟨⟩, e₃⟩, hran, rfl⟩ := map_eq_ok.mp hstep
    refine htrans he ?_
    exact (hparts hpart hhook).run (T := fun e e' => R e.state e'.state) hrefl (fun _ _ _ hR => hR) htrans
      (fun {request} => request.elim) nofun hran

/-- Executing a schedule does something within the relation, and changes nothing else but what was executed
last and what was told. -/
theorem Within.execute (h : m.Within R) {events : List Event}
    (hrun : m.executeTraced s = .ok (m', events)) : R m.state m'.state ∧
      m' = { m with state := m'.state, last := some s, journal := m'.journal } := by
  obtain ⟨plan, -, -, hrun⟩ := executeTraced_eq_ok.mp hrun
  obtain ⟨-, e, e', hbodies, -, hhooks, hr⟩ := executeTracedWith_eq_ok.mp hrun
  obtain ⟨rfl, rfl⟩ := Prod.mk.inj hr
  have hexecuting : (m.executing s).Within R := ⟨h.design, h.hook⟩
  have hafter : R m.state e.state := by
    refine foldlM_induction (P := fun e => R m.state e.state) (fun t _ e e' he hstep => ?_) (hrefl _) hbodies
    rcases runTransactionTraced_eq_ok.mp hstep with ⟨-, x, body, hx, hbody, hran⟩ | ⟨-, rfl⟩
    · obtain ⟨a, ha, htransaction⟩ := Option.bind_eq_some_iff.mp hx
      have haction : m.design.action? ⟨.main, t⟩ = some a := ha
      have hwithin := (h.design.action haction).transaction htransaction hbody
      have hran := Within.run hrefl htrans hran (hexecuting.answer hrefl htrans s _ _) hwithin
      exact htrans he hran
    · exact he
  exact ⟨htrans hafter (rel_of_runHook hrefl htrans h.hook hhooks), rfl⟩

end Machine

end GuardedActions
