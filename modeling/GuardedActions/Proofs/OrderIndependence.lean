import GuardedActions.Proofs.ExactlyOnce
import GuardedActions.Proofs.Execution.Hindsight
import GuardedActions.Proofs.Execution.Replay
import GuardedActions.Proofs.NoFatalError

/-!
# The order of execution does not matter

Bodies that only read committed values, and only write registers and elements of arrays, can run in every
order.  Either every order ends in a fault, or they all complete: the same bodies run with the same
arguments, the same calls return the same results, and the states after the clock edge are equal.
-/

set_option autoImplicit false

namespace GuardedActions

/-! ## Executing in another order -/

/-- Execute a schedule with the granted transactions in a given order. -/
def Machine.executeInOrder {σ : Type} (m : Machine σ) (plan : Plan) (s : Schedule) (order : List Nat) :
    Except Fault (Machine σ × List Event) :=
  m.executeTracedWith { plan with ranking := { plan.ranking with order := order } } s

/-- In the order of their priorities that is the execution of the schedule. -/
theorem Machine.executeInOrder_order {σ : Type} {m : Machine σ} {plan : Plan} {s : Schedule}
    (hplan : m.design.main.plan = some plan) (hcycle : s.cycle = m.cycle) :
    (m.executeInOrder plan s plan.order).map Prod.fst = m.execute s := by
  rw [← executeTraced_fst]
  unfold executeTraced executeInOrder
  rw [hplan]
  simp only
  rw [if_pos hcycle]
  rfl

/-- The stages of an execution that completes. -/
theorem Machine.executeInOrder_eq_ok {σ : Type} {m : Machine σ} {plan : Plan} {s : Schedule}
    {order : List Nat} {r : Machine σ × List Event} :
    m.executeInOrder plan s order = .ok r ↔ (m.executing s).checkExclusive s = .ok () ∧
      ∃ e e', order.foldlM ((m.executing s).runTransactionTraced s) (m.executing s).traceStart = .ok e ∧
        (m.executing s).checkPerformed s e.calls.ledger = .ok () ∧
        m.parts.foldlM (m.executing s).runHook (e.mapCalls Account.ledger) = .ok e' ∧
        r = ({ m.executing s with state := e'.state, journal := e'.journal }, e.calls.events) :=
  executeTracedWith_eq_ok

variable {L : Layout}

/-! ## Stories that come to their end -/

/-- Everything that happens in a completed execution that a story tells. -/
def Story.Happens (y : Story L) (m : Machine (Storage L)) (s : Schedule) : Event → Prop
  | .start t => (m.design.main.transaction? t).isSome ∧ s.granted.test t = true
  | .perform i given => s.grantedSites.test i = true ∧ ∃ (u : Site (Storage L)) (k : Nat),
      m.design.main.sites[i]? = some u ∧ (y.acts m u.caller)[k]? = some (.call u.callee given)
  | .enter x args => (m.design.main.method? x).isSome ∧ s.granted.test x = true ∧ args = y.args x
  | .leave x result =>
    (m.design.main.method? x).isSome ∧ s.granted.test x = true ∧ result = y.results x
  | .answer i result => s.grantedSites.test i = true ∧ ∃ u : Site (Storage L),
      m.design.main.sites[i]? = some u ∧ result = y.results u.callee.id

/-- An action performs a call at one place only. -/
theorem Story.allows_unique {y : Story L} {m : Machine (Storage L)} {s : Schedule} {b k k' : Nat}
    {callee : ActionRef} {given given' : Option Record} (h : ∀ k, y.Allows m s b k)
    (hact : (y.acts m b)[k]? = some (.call callee given))
    (hact' : (y.acts m b)[k']? = some (.call callee given')) : given = given' := by
  rcases Nat.lt_trichotomy k k' with hlt | rfl | hlt
  · exact absurd hact ((h k' hact').2 k hlt given)
  · rw [hact] at hact'
    exact (Act.call.inj (Option.some.inj hact')).2
  · exact absurd hact' ((h k hact).2 k' hlt given')

/-- The logic of a component does not look at the order in which arrays list what was written. -/
def Part.Unordered (part : Part (Storage L)) : Prop :=
  ∀ {hook : Hook (Storage L)}, part.hook = some hook →
    ∀ (scene : Scene) (e e' : Body.Effects (Storage L) Ledger), e.state.Same e'.state →
      Alike (fun r r' => r.2.state.Same r'.2.state) (hook.run scene (fun request _ => request.elim) e)
        (hook.run scene (fun request _ => request.elim) e')

theorem Machine.runHook_alike {m : Machine (Storage L)} {part : Part (Storage L)} (hpart : part.Unordered)
    {e e' : Body.Effects (Storage L) Ledger} (h : e.state.Same e'.state) :
    Alike (fun r r' => r.state.Same r'.state) (m.runHook e part) (m.runHook e' part) := by
  unfold runHook
  cases hhook : part.hook with
  | none => exact .ok h
  | some hook => exact (hpart hhook (m.scene none) e e' h).map fun _ _ hsame => hsame

variable [DecidableEq L.Name] [DecidableEq L.Table]

namespace Machine

variable {m : Machine (Storage L)} {plan : Plan} {s : Schedule} {y : Story L} {started : List Nat}
  {pc pc' : Nat → Nat} {e e' : Body.Effects (Storage L) Account}

/-! ## When nothing runs any more -/

namespace Told

/-- The callee of a performed call site has returned. -/
theorem returned (h : m.Told s y [] started pc e) {i : Nat} {u : Site (Storage L)}
    (hu : m.design.main.sites[i]? = some u) (hi : i ∈ e.calls.performed) :
    e.calls.ledger.resultOf u.callee.id = some (y.results u.callee.id) ∧
      .answer i (y.results u.callee.id) ∈ e.calls.events := by
  rcases h.sound.waiting i hi with ⟨result, hanswer⟩ | hopen
  · obtain ⟨v, hv, hresult⟩ := h.sound.answered i result hanswer
    obtain ⟨w, hw, rfl⟩ := h.tells _ hanswer
    obtain rfl : u = v := Option.some.inj (hu.symm.trans hv)
    obtain rfl : u = w := Option.some.inj (hu.symm.trans hw)
    exact ⟨hresult, hanswer⟩
  · cases hopen

/-- It has done all it does. -/
theorem done_of_performed (h : m.Told s y [] started pc e) {i : Nat} {u : Site (Storage L)}
    (hu : m.design.main.sites[i]? = some u) (hi : i ∈ e.calls.performed) :
    pc u.callee.id = (y.acts m u.callee.id).length :=
  h.complete _ (by rw [(h.returned hu hi).1]; rfl)

end Told

/-- An execution that a story tells has come to its end. -/
structure Ended (m : Machine (Storage L)) (s : Schedule) (y : Story L) (started : List Nat)
    (pc : Nat → Nat) (e : Body.Effects (Storage L) Account) : Prop where
  /-- the story tells it -/
  told : m.Told s y [] started pc e
  /-- the granted transactions have started -/
  mem_started : ∀ t, t ∈ started ↔ (m.design.main.transaction? t).isSome ∧ s.granted.test t = true
  /-- they are done -/
  carried : ∀ t ∈ started, pc t = (y.acts m t).length
  /-- all granted call sites are performed -/
  performed : ∀ i, s.grantedSites.test i = true → i ∈ e.calls.performed

namespace Ended

/-- A granted method has returned. -/
theorem resultOf_eq (h : (m.executing s).Ended s y started pc e)
    (helaborated : m.design.main.Elaborated plan) (hs : m.Schedules plan s) {x : Nat}
    (hx : (m.design.main.method? x).isSome) (hgranted : s.granted.test x = true) :
    e.calls.ledger.resultOf x = some (y.results x) := by
  obtain ⟨i, u, hu, rfl, hi⟩ := hs.exists_site helaborated hx hgranted
  exact (h.told.returned hu (h.performed i hi)).1

/-- Everything granted is done, and nothing else has begun. -/
theorem pc_eq (h : (m.executing s).Ended s y started pc e)
    (helaborated : m.design.main.Elaborated plan) (hs : m.Schedules plan s) (b : Nat) :
    pc b = if s.granted.test b = true then (y.acts (m.executing s) b).length else 0 := by
  split
  · rename_i hgranted
    cases hmethod : m.design.main.method? b with
    | some x =>
      have hx : (m.design.main.method? b).isSome := by rw [hmethod]; rfl
      exact h.told.complete b (by rw [h.resultOf_eq helaborated hs hx hgranted]; rfl)
    | none =>
      exact h.carried b ((h.mem_started b).mpr
        ⟨hs.transaction_of_granted helaborated hgranted hmethod, hgranted⟩)
  · rename_i hnot
    exact h.told.untouched b fun hbegun => hnot (h.told.granted hs.callee hbegun)

/-- The events of an execution that has come to its end. -/
theorem mem_events_iff (h : (m.executing s).Ended s y started pc e)
    (helaborated : m.design.main.Elaborated plan) (hs : m.Schedules plan s)
    (hallows : ∀ b, s.granted.test b = true → ∀ k, y.Allows (m.executing s) s b k) {ev : Event} :
    ev ∈ e.calls.events ↔ y.Happens (m.executing s) s ev := by
  cases ev with
  | start t =>
    have hmem : .start t ∈ e.calls.events ↔ t ∈ e.calls.started := by
      unfold Account.started
      rw [List.mem_filterMap]
      constructor
      · exact fun hev => ⟨_, hev, rfl⟩
      · rintro ⟨ev, hev, ht⟩
        cases ev with
        | start t' =>
          obtain rfl : t' = t := Option.some.inj ht
          exact hev
        | _ => cases ht
    rw [hmem, h.told.sound.started]
    exact h.mem_started t
  | perform i given =>
    constructor
    · intro hev
      exact ⟨h.told.sound.granted i (Account.mem_performed.mpr ⟨given, hev⟩), h.told.tells _ hev⟩
    · rintro ⟨hgranted, u, k, hu, hact⟩
      obtain ⟨given', hev⟩ := Account.mem_performed.mp (h.performed i hgranted)
      obtain ⟨v, k', hv, hact'⟩ := h.told.tells _ hev
      obtain rfl : u = v := Option.some.inj (hu.symm.trans hv)
      obtain ⟨w, hw, -, hcaller⟩ := hs.site.mp hgranted
      obtain rfl : u = w := Option.some.inj (hu.symm.trans hw)
      rw [Story.allows_unique (hallows _ hcaller) hact hact']
      exact hev
  | enter x args =>
    constructor
    · intro hev
      have hentered := Account.mem_entered.mpr ⟨args, hev⟩
      exact ⟨h.told.sound.method_of_entered hentered,
        h.told.granted hs.callee (Or.inr hentered), h.told.tells _ hev⟩
    · rintro ⟨hx, hgranted, rfl⟩
      have hresult := h.resultOf_eq helaborated hs hx hgranted
      obtain ⟨args, hev⟩ := Account.mem_entered.mp
        ((h.told.sound.entered x).mpr (Or.inl (by rw [hresult]; rfl)))
      rw [← show args = y.args x from h.told.tells _ hev]
      exact hev
  | leave x result =>
    constructor
    · intro hev
      have hresult := (h.told.sound.left x result).mp hev
      have hentered := (h.told.sound.entered x).mpr (Or.inl (by rw [hresult]; rfl))
      exact ⟨h.told.sound.method_of_entered hentered,
        h.told.granted hs.callee (Or.inr hentered), h.told.tells _ hev⟩
    · rintro ⟨hx, hgranted, rfl⟩
      exact (h.told.sound.left x _).mpr (h.resultOf_eq helaborated hs hx hgranted)
  | answer i result =>
    constructor
    · intro hev
      exact ⟨h.told.sound.granted i (h.told.answered hev).1, h.told.tells _ hev⟩
    · rintro ⟨hgranted, u, hu, rfl⟩
      exact (h.told.returned hu (h.performed i hgranted)).2

end Ended

/-- All acts of granted actions go through. -/
theorem Rehearsed.allows (hr : (m.executing s).Rehearsed s y)
    (helaborated : m.design.main.Elaborated plan) (hs : m.Schedules plan s) {b : Nat}
    (hgranted : s.granted.test b = true) (k : Nat) : y.Allows (m.executing s) s b k := by
  cases hmethod : m.design.main.method? b with
  | some x => exact (hr.plays hmethod hgranted).allows k
  | none =>
    exact (hr.carries (hs.transaction_of_granted helaborated hgranted hmethod) hgranted).allows k

/-- Two executions of the same story come to the same. -/
theorem Ended.alike {started' : List Nat} (h : (m.executing s).Ended s y started pc e)
    (h' : (m.executing s).Ended s y started' pc' e') (helaborated : m.design.main.Elaborated plan)
    (hs : m.Schedules plan s) (hr : (m.executing s).Rehearsed s y) :
    e.calls.events.Perm e'.calls.events ∧ e.state.Same e'.state := by
  have hallows : ∀ b, s.granted.test b = true → ∀ k, y.Allows (m.executing s) s b k :=
    fun _ hb => hr.allows helaborated hs hb
  constructor
  · refine (List.perm_ext_iff_of_nodup h.told.events_nodup h'.told.events_nodup).mpr fun ev => ?_
    rw [h.mem_events_iff helaborated hs hallows, h'.mem_events_iff helaborated hs hallows]
  · have hpc : pc = pc' :=
      funext fun b => (h.pc_eq helaborated hs b).trans (h'.pc_eq helaborated hs b).symm
    exact h.told.recorded.same (hpc ▸ h'.told.recorded)

/-! ## From one order to another -/

theorem told_traceStart (m : Machine (Storage L)) (s : Schedule) (y : Story L) :
    m.Told s y [] [] (fun _ => 0) m.traceStart where
  sound := Account.Sound.empty m.design.main s
  recorded := .start y m
  within := fun _ => Nat.zero_le _
  untouched := fun _ _ => rfl
  transactions := by
    intro t ht
    cases ht
  performed := by
    intro i u _
    constructor
    · intro hi
      cases hi
    · rintro ⟨k, -, hk, -⟩
      exact absurd hk (Nat.not_lt_zero k)
  complete := by
    intro b hb
    unfold traceStart Account.empty at hb
    rw [Ledger.resultOf_start] at hb
    cases hb
  tells := by
    intro ev hev
    cases hev
  events_nodup := List.nodup_nil
  answered := by
    intro i result hev
    cases hev
  stack_nodup := List.nodup_nil
  stack_performed := by
    intro i hi
    cases hi

section

variable {order : List Nat} (helaborated : m.design.main.Elaborated plan) (hs : m.Schedules plan s)
  (horder : order.Perm plan.order)

include helaborated hs horder

/-- An execution that a story tells shows that its actions play their parts. -/
theorem rehearsed_of_swept (h : (m.executing s).Told s y [] (order.filter s.granted.test) pc e)
    (hswept : (m.executing s).Swept s y order (fun _ => 0) pc (m.executing s).traceStart.calls e.calls)
    (hperformed : ∀ i, s.grantedSites.test i = true → i ∈ e.calls.performed) :
    (m.executing s).Rehearsed s y ∧
      (m.executing s).Ended s y (order.filter s.granted.test) pc e := by
  have hmem : ∀ {t}, t ∈ order ↔ (m.design.main.transaction? t).isSome := fun {t} =>
    horder.mem_iff.trans helaborated.mem_order
  have hended : (m.executing s).Ended s y (order.filter s.granted.test) pc e := by
    refine ⟨h, fun t => ?_, fun t ht => ?_, hperformed⟩
    · rw [List.mem_filter, hmem]
      rfl
    · obtain ⟨ht, hgranted⟩ := List.mem_filter.mp ht
      exact (hswept.carries t ht hgranted).2.2
  refine ⟨⟨fun ht hgranted => (hswept.carries _ (hmem.mpr ht) hgranted).1, ?_, ?_, ?_⟩, hended⟩
  · intro x target hx hgranted
    have hsome : (m.design.main.method? x).isSome := by
      rw [show m.design.main.method? x = some target from hx]
      rfl
    have hresult := hended.resultOf_eq helaborated hs hsome hgranted
    have hentered := (h.sound.entered x).mpr (Or.inl (by rw [hresult]; rfl))
    obtain ⟨target', htarget', hplays⟩ := hswept.plays x hentered (by
      intro hmem
      cases hmem)
    obtain rfl : target = target' := Option.some.inj (hx.symm.trans htarget')
    exact hplays
  · intro i u hu hgranted
    obtain ⟨k, given, -, hact⟩ := (h.performed hu).mp (hperformed i hgranted)
    exact ⟨k, given, hact⟩
  · refine ⟨pc, e.state, h.recorded, fun b hb => ?_⟩
    rw [hended.pc_eq helaborated hs b, if_pos hb]

/-- A story in which everything plays its part comes to its end. -/
theorem ended_of_rehearsed (hr : (m.executing s).Rehearsed s y)
    (h : (m.executing s).Told s y [] (order.filter s.granted.test) pc e)
    (hswept : (m.executing s).Swept s y order (fun _ => 0) pc (m.executing s).traceStart.calls e.calls) :
    (m.executing s).Ended s y (order.filter s.granted.test) pc e := by
  have hmem : ∀ {t}, t ∈ order ↔ (m.design.main.transaction? t).isSome := fun {t} =>
    horder.mem_iff.trans helaborated.mem_order
  have hperform : ∀ {i : Nat} {u : Site (Storage L)}, m.design.main.sites[i]? = some u →
      s.grantedSites.test i = true → pc u.caller = (y.acts (m.executing s) u.caller).length →
      i ∈ e.calls.performed := by
    intro i u hu hi hdone
    obtain ⟨k, given, hact⟩ := hr.calls hu hi
    refine (h.performed hu).mpr ⟨k, given, ?_, hact⟩
    rw [hdone]
    exact (List.getElem?_eq_some_iff.mp hact).1
  -- along active calls from a winner everything is done
  have hdone : ∀ {t b : Nat}, t ∈ plan.winners s.runnable →
      m.design.main.ActiveReaches s.activeSites t b →
      pc b = (y.acts (m.executing s) b).length := by
    intro t b ht hreach
    induction hreach with
    | refl =>
      have htransaction := Schedules.isSome_of_winner helaborated ht
      exact (hswept.carries t (hmem.mpr htransaction) ((hs.transaction htransaction).mpr ht)).2.2
    | tail hreach hcall ih =>
      obtain ⟨i, u, hu, hactive, rfl, rfl⟩ := hcall
      have hi := hs.site.mpr ⟨u, hu, hactive, hs.granted_of_activeReaches helaborated ht hreach⟩
      exact h.done_of_performed hu (hperform hu hi ih)
  refine ⟨h, fun t => ?_, fun t ht => ?_, fun i hi => ?_⟩
  · rw [List.mem_filter, hmem]
    rfl
  · obtain ⟨ht, hgranted⟩ := List.mem_filter.mp ht
    exact (hswept.carries t ht hgranted).2.2
  · obtain ⟨u, hu, -, hcaller⟩ := hs.site.mp hi
    obtain ⟨t, ht, hreach⟩ := hs.origin hcaller
    exact hperform hu hi (hdone ht hreach)

end

/-- A schedule is executed by bodies that are programs, with any arguments and results. -/
theorem scripted_of_schedules (built : m.design.Built) (hplan : m.design.main.plan = some plan)
    (hs : m.Schedules plan s) (hruns : m.design.main.Runs y.programs)
    (hseen : y.seen = m.state.committed) (hsteady : GuardsSteady m.design Storage.committed) :
    (m.executing s).Scripted plan s y where
  elaborated := built.elaborated hplan
  runs := hruns
  seen := hseen
  callee := hs.callee
  early := hs.exists_earlyOf
  exclusive := Schedules.exclusive (m := m) (built.elaborated hplan) hs
  shared := hs.drivingArguments_congr built hplan
  checked := by
    intro x target args state hx hstate name
    have hagree : Agree Storage.committed ⟨state, (m.executing s).scene none⟩
        ⟨m.state, (m.executing s).scene none⟩ := ⟨hstate, rfl, rfl, rfl, rfl⟩
    unfold checkRun
    simp only
    rw [hsteady.ready hx hagree, hsteady.validator hx hagree]
    rfl

section

variable {ps : Programs L} {order order' : List Nat} (built : m.design.Built)
  (hplan : m.design.main.plan = some plan) (hs : m.Schedules plan s)
  (hruns : m.design.main.Runs ps) (hsteady : GuardsSteady m.design Storage.committed)

include built hplan hs hruns hsteady

/-- Granted transactions that run to their ends in one order have a story. -/
theorem exists_story_of_foldlM (horder : order.Perm plan.order)
    (hrun : order.foldlM ((m.executing s).runTransactionTraced s) (m.executing s).traceStart = .ok e)
    (hperformed : (m.executing s).checkPerformed s e.calls.ledger = .ok ()) :
    ∃ (y : Story L) (pc : Nat → Nat), (m.executing s).Scripted plan s y ∧
      (m.executing s).Rehearsed s y ∧
      (m.executing s).Ended s y (order.filter s.granted.test) pc e := by
  have h := built.elaborated hplan
  have hsound : e.calls.Sound m.design.main s [] (order.filter s.granted.test) :=
    sound_of_foldlM (m := m.executing s) h hs.exists_earlyOf hruns.onlyPerforms order []
      (m.executing s).traceStart e (Account.Sound.empty m.design.main s) hrun
  obtain ⟨y, rfl, hseen, hagrees⟩ := hsound.exists_story ps m.state.committed
  have hscripted := scripted_of_schedules built hplan hs hruns hseen hsteady
  obtain ⟨pc, htold, hswept⟩ := swept_of_foldlM hscripted order [] (fun _ => 0) _ e
    (horder.nodup_iff.mpr h.nodup_order)
    (fun t ht => ⟨h.mem_order.mp (horder.mem_iff.mp ht), List.not_mem_nil⟩)
    (told_traceStart (m.executing s) s y) hrun hagrees
  obtain ⟨hrehearsed, hended⟩ := rehearsed_of_swept h hs horder htold hswept fun i hi => by
    obtain ⟨u, hu, -⟩ := hs.site.mp hi
    exact (htold.sound.performed i).mp
      (performed_of_checkPerformed (m := m.executing s) hperformed hu hi)
  exact ⟨y, pc, hscripted, hrehearsed, hended⟩

/-- If they run to their ends in one order, they do in every order, and come to the same. -/
theorem exists_foldlM_of_perm (horder : order.Perm plan.order) (horder' : order'.Perm plan.order)
    (hrun : order.foldlM ((m.executing s).runTransactionTraced s) (m.executing s).traceStart = .ok e)
    (hperformed : (m.executing s).checkPerformed s e.calls.ledger = .ok ()) :
    ∃ e', order'.foldlM ((m.executing s).runTransactionTraced s) (m.executing s).traceStart = .ok e' ∧
      (m.executing s).checkPerformed s e'.calls.ledger = .ok () ∧
      e.calls.events.Perm e'.calls.events ∧ e.state.Same e'.state := by
  have h := built.elaborated hplan
  obtain ⟨y, pc, hscripted, hrehearsed, hended⟩ :=
    exists_story_of_foldlM built hplan hs hruns hsteady horder hrun hperformed
  obtain ⟨e', pc', hrun', htold', hswept'⟩ := hrehearsed.exists_foldlM hscripted order' []
    (fun _ => 0) _ (horder'.nodup_iff.mpr h.nodup_order)
    (fun t ht => ⟨h.mem_order.mp (horder'.mem_iff.mp ht), List.not_mem_nil⟩)
    (told_traceStart (m.executing s) s y)
  have hended' := ended_of_rehearsed h hs horder' hrehearsed htold' hswept'
  refine ⟨e', hrun', checkPerformed_eq_ok fun i hi => ?_, hended.alike hended' h hs hrehearsed⟩
  exact (htold'.sound.performed i).mpr (hended'.performed i hi)

end

/-! ## Whole cycles -/

/-- What a schedule promises whatever the order in which its transactions run. -/
structure OrderIndependent (m : Machine (Storage L)) (plan : Plan) (s : Schedule) : Prop where
  /-- either every order ends in a fault, or they all complete: the same bodies run with the same
  arguments, the same calls return the same results, and after the clock edge the states are equal -/
  alike : ∀ {order order' : List Nat}, order.Perm plan.order → order'.Perm plan.order →
    Alike (fun r r' => r.2.Perm r'.2 ∧ r.1.commit.state = r'.1.commit.state)
      (m.executeInOrder plan s order) (m.executeInOrder plan s order')
  /-- a nonexclusive method with inputs gets the early arguments of the selected call site, whichever
  granted caller comes first -/
  shared : ∀ {order : List Nat}, order.Perm plan.order → ∀ {m' : Machine (Storage L)}
    {events : List Event}, m.executeInOrder plan s order = .ok (m', events) → ∀ {x : Nat}
    {target : Method (Storage L)} {args : Record}, m.design.main.method? x = some target →
    target.nonexclusive = true → target.input.isEmpty = false → .enter x args ∈ events →
    ∃ driver, s.selectedOf x = some driver ∧ s.grantedSites.test driver = true ∧
      args = (s.earlyOf driver).getD Record.empty
  /-- one of the orders is that of the execution -/
  usual : (m.executeInOrder plan s plan.order).map Prod.fst = m.execute s

/-- The outcome of a cycle does not depend on the order in which granted transactions run, if bodies only
read committed values and only write registers and elements of arrays, and the guards of methods depend
on nothing else that can change. -/
theorem orderIndependent_of_schedule {ps : Programs L} {settle : L.Rest → L.Rest}
    (built : m.design.Built) (hplan : m.design.main.plan = some plan) (hs : m.schedule = .ok s)
    (hruns : m.design.main.Runs ps) (hsteady : GuardsSteady m.design Storage.committed)
    (hhooks : ∀ part ∈ m.parts, part.Unordered)
    (hcommit : ∀ x, m.parts.foldl (fun x part => part.commit x) x = x.commit settle) :
    m.OrderIndependent plan s := by
  have hschedules := schedules_of_schedule (built.elaborated hplan) hplan hs
  have hforward : ∀ {order order' : List Nat}, order.Perm plan.order → order'.Perm plan.order →
      ∀ r, m.executeInOrder plan s order = .ok r → ∃ r', m.executeInOrder plan s order' = .ok r' ∧
        (r.2.Perm r'.2 ∧ r.1.commit.state = r'.1.commit.state) := by
    intro order order' horder horder' r hr
    obtain ⟨hexclusive, e, e₁, hrun, hperformed, hhook, rfl⟩ := executeInOrder_eq_ok.mp hr
    obtain ⟨e', hrun', hperformed', hevents, hsame⟩ :=
      exists_foldlM_of_perm built hplan hschedules hruns hsteady horder horder' hrun hperformed
    have halike := Alike.foldlM (l := m.parts) (f := (m.executing s).runHook)
      (g := (m.executing s).runHook) (R := fun r r' => r.state.Same r'.state)
      (fun part hpart _ _ h => runHook_alike (hhooks part hpart) h)
      (show (e.mapCalls Account.ledger).state.Same (e'.mapCalls Account.ledger).state from hsame)
    obtain ⟨e₁', hhook', hsame'⟩ := halike.exists_ok hhook
    refine ⟨_, executeInOrder_eq_ok.mpr
      ⟨hexclusive, e', e₁', hrun', hperformed', hhook', rfl⟩, hevents, ?_⟩
    calc m.parts.foldl (fun x part => part.commit x) e₁.state
        = e₁.state.commit settle := hcommit _
      _ = e₁'.state.commit settle := hsame'.commit_eq settle
      _ = m.parts.foldl (fun x part => part.commit x) e₁'.state := (hcommit _).symm
  refine ⟨fun horder horder' => ?_, ?_, executeInOrder_order hplan hschedules.cycle⟩
  · refine .of_ok (hforward horder horder') fun r' hr' => ?_
    obtain ⟨r, hr, -⟩ := hforward horder' horder r' hr'
    exact ⟨r, hr⟩
  · intro order horder m' events hr x target args hx hshared hinput henter
    obtain ⟨-, e, e₁, hrun, hperformed, -, heq⟩ := executeInOrder_eq_ok.mp hr
    obtain ⟨-, rfl⟩ := Prod.mk.inj heq
    obtain ⟨y, pc, -, -, hended⟩ :=
      exists_story_of_foldlM built hplan hschedules hruns hsteady horder hrun hperformed
    obtain ⟨i, u, given, target', passed, hperform, hu, rfl, htarget', hpasses, rfl⟩ :=
      hended.told.sound.driven x args henter
    obtain rfl : target = target' := Option.some.inj (hx.symm.trans htarget')
    exact hschedules.drivingArguments_shared built hplan hu
      (hended.told.sound.granted i (Account.mem_performed.mpr ⟨given, hperform⟩)) hx hshared hinput
      hpasses

end Machine

/-! ## A pool

A nonexclusive method adds an amount to a total, and two sources use it: each keeps what it was told in a
slot of its own. -/

namespace Pool

open Accumulator (amount record)

/-- One register, and one register array. -/
abbrev layout : Layout := ⟨Unit, Unit, fun _ => Nat, fun _ => Nat, Unit⟩

/-- The method that adds an amount returns the sum. -/
def add (args : Record) : Program layout Record :=
  .look fun seen =>
    .write (.register () (seen.register () + args.pack.toNat))
      (.done (record (seen.register () + args.pack.toNat)))

/-- The method. -/
def adding : Method (Storage layout) where
  input := amount
  output := amount
  body := some fun args => (add args).body
  nonexclusive := true
  callers := [⟨.main, 0⟩, ⟨.main, 1⟩]

/-- A source adds an amount and keeps the sum. -/
def source (slot : Nat) : Program layout Unit :=
  .call ⟨.main, 0⟩ none fun sum => .write (.element () slot sum.pack.toNat) (.done ())

/-- The programs. -/
def programs : Programs layout where
  method := fun _ => add
  transaction := fun id => source (id - 1)

/-- The registrations. -/
def steps : List (Registration (Storage layout)) :=
  [.newMethod .main "add" amount amount none,
   .setMethod ⟨.main, 0⟩ .shared,
   .setMethod ⟨.main, 0⟩ (.body fun args => (add args).body),
   .newTransaction .main "left" 1 none,
   .setTransaction ⟨.main, 1⟩ (.body (source 0).body),
   .newTransaction .main "right" 0 none,
   .setTransaction ⟨.main, 2⟩ (.body (source 1).body),
   .newCall ⟨.main, 1⟩ ⟨.main, 0⟩,
   .setCall ⟨.main, 0⟩ (.arguments fun _ => .ok (record 3)),
   .newCall ⟨.main, 2⟩ ⟨.main, 0⟩,
   .setCall ⟨.main, 1⟩ (.arguments fun _ => .ok (record 4))]

/-- The design, elaborated. -/
def design : Design (Storage layout) := (Design.registerAll steps {}).elaborate.1

/-- What elaboration works out. -/
def plan : Plan where
  closures := [⟨[false, false, false]⟩, ⟨[true, true, false]⟩, ⟨[true, false, true]⟩]
  ranking := ⟨[1, 2], [⟨[false, false, false]⟩, ⟨[false, false, false]⟩, ⟨[false, false, false]⟩]⟩
  clusters := [⟨[1], [⟨[false]⟩]⟩, ⟨[2], [⟨[false]⟩]⟩]
  callers := [[0, 1], [], []]

/-- The pool at rest. -/
def machine : Machine (Storage layout) where
  design := design
  state :=
    { registers := fun _ => Register.new ⟨"pool", "total"⟩ 10
      arrays := fun _ => RegisterArray.new ⟨"pool", "slots"⟩ 2 0
      rest := () }
  parts := [⟨"pool", ["total", "slots"], Storage.commit id, id, none⟩]

/-- Its schedule: both sources are granted, and the first drives the method. -/
def schedule : Schedule where
  requested := ⟨[true, true, true]⟩
  runnable := ⟨[true, true, true]⟩
  granted := ⟨[true, true, true]⟩
  activeSites := ⟨[true, true]⟩
  grantedSites := ⟨[true, true]⟩
  selected := [.site 0, .nothing 0, .nothing 0]
  early := [some (record 3), some (record 4)]

theorem built : design.Built := .elaborate (.registerAll steps .empty)

theorem plan_eq : design.main.plan = some plan := by cbv

theorem schedule_eq : machine.schedule = .ok schedule := by cbv

theorem actions_eq : design.main.actions =
    [⟨"add", none, .method adding⟩, ⟨"left", none, .transaction ⟨1, none, some (source 0).body⟩⟩,
     ⟨"right", none, .transaction ⟨0, none, some (source 1).body⟩⟩] := by cbv

theorem method_cases {id : Nat} {x : Method (Storage layout)}
    (h : design.main.method? id = some x) : x = adding := by
  obtain ⟨a, ha, hx⟩ := Registry.method?_eq_some.mp h
  rw [actions_eq] at ha
  match id with
  | 0 =>
    obtain rfl := Option.some.inj ha
    exact (Option.some.inj hx).symm
  | 1 | 2 =>
    obtain rfl := Option.some.inj ha
    cases hx
  | _ + 3 => cases ha

theorem runs : design.main.Runs programs where
  method := by
    intro id x body hx hbody args
    obtain rfl := method_cases hx
    obtain rfl := Option.some.inj hbody
    rfl
  transaction := by
    intro id t body ht hbody
    obtain ⟨a, ha, ht⟩ := Registry.transaction?_eq_some.mp ht
    rw [actions_eq] at ha
    match id with
    | 0 =>
      obtain rfl := Option.some.inj ha
      cases ht
    | 1 | 2 =>
      obtain rfl := Option.some.inj ha
      obtain rfl := Option.some.inj ht
      exact (Option.some.inj hbody).symm
    | _ + 3 => cases ha

theorem guardsSteady : Machine.GuardsSteady design Storage.committed where
  ready := by
    intro id x hx v v' _
    obtain rfl := method_cases hx
    rfl
  validator := by
    intro id x hx v v' _ args
    obtain rfl := method_cases hx
    rfl

/-- What happens when the second source comes first: the method gets what the first source supplied. -/
theorem events_eq : (machine.executeInOrder plan schedule [2, 1]).map Prod.snd =
    .ok [.start 2, .perform 1 none, .enter 0 (record 3), .leave 0 (record 13),
      .answer 1 (record 13), .start 1, .perform 0 none, .answer 0 (record 13)] := by cbv

theorem orderIndependent_schedule : machine.schedule = .ok schedule ∧
    machine.OrderIndependent plan schedule ∧
    (machine.executeInOrder plan schedule [2, 1]).isOk = true := by
  refine ⟨schedule_eq, ?_, ?_⟩
  · refine Machine.orderIndependent_of_schedule (m := machine) built plan_eq schedule_eq runs
      guardsSteady (fun part hpart => ?_) fun x => rfl
    obtain rfl := List.mem_singleton.mp hpart
    intro hook hnone
    cases hnone
  · obtain ⟨r, hr, -⟩ := map_eq_ok.mp events_eq
    rw [hr]
    rfl

end Pool

end GuardedActions
