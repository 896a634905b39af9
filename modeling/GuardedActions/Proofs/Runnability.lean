import GuardedActions.Proofs.MutualExclusion
import GuardedActions.Proofs.Scheduling.Inquiry

/-!
# When an action can run

A transaction can run if it wants to, and every call that it may come to make is taken: the callee's
own predicate holds and its validator accepts the early arguments.  This speaks of call sites that are
reached and of no path to them, of no memory and of no order in which actions are visited.
-/

set_option autoImplicit false

namespace GuardedActions

variable {σ : Type}

/-- The callee of a call site takes the call: its own predicate holds, and its validator, if it has
one, accepts the early arguments of the call site. -/
def Machine.Takes (m : Machine σ) (s : Schedule) (i : Nat) (u : Site σ) : Prop :=
  ∀ x : Method σ, m.design.method? u.callee = some x →
    Guard.holds x.ready (m.viewWith s.activeSites s.early) = .ok true ∧
      ∀ v, x.validator = some v → ∃ args, s.earlyOf i = some args ∧
        v (m.viewWith s.activeSites s.early) args = .ok true

/-- The runnable actions of a schedule, as the answers to an inquiry have it. -/
structure Machine.RunnableByNeed (m : Machine σ) (s : Schedule) (q : Inquiry σ) : Prop where
  /-- a transaction is runnable if it wants to run and every call that is reached from it along call
  sites whose conditions hold is taken -/
  transaction : ∀ {t : Nat}, (m.design.main.transaction? t).isSome →
    (s.runnable.test t = true ↔ q.Wants m t ∧
      ∀ (i : Nat) (u : Site σ), m.design.main.sites[i]? = some u → q.Reaches m t u.caller →
        Guard.holds u.condition (q.condition i) = .ok true → m.Takes s i u)
  /-- a method is runnable if it is requested, its own predicate holds and every call that is reached
  from it along active call sites is taken -/
  method : ∀ {id : Nat} {x : Method σ}, m.design.main.method? id = some x →
    (s.runnable.test id = true ↔ s.requested.test id = true ∧
      Guard.holds x.ready (m.viewWith s.activeSites s.early) = .ok true ∧
        ∀ (i : Nat) (u : Site σ), m.design.main.sites[i]? = some u →
          m.design.main.ActiveReaches s.activeSites id u.caller →
            s.activeSites.test i = true → m.Takes s i u)

/-- What is runnable depends neither on a memory nor on an order. -/
structure Machine.RunnableAnyhow (m : Machine σ) (s : Schedule) : Prop where
  /-- a requested method gets the answer of an evaluation from scratch -/
  method : ∀ id, (m.design.main.method? id).isSome → s.requested.test id = true →
    m.readyAfresh s.activation m.callDepth id = .ok (s.runnable.test id)
  /-- a requested transaction gets the answer of an evaluation from scratch -/
  transaction : ∀ t, (m.design.main.transaction? t).isSome → s.requested.test t = true →
    m.callsAfresh s.activation t = .ok (s.runnable.test t)
  /-- in every order in which methods and transactions are visited, with a memory that they share, the
  same actions are found runnable -/
  order : ∀ methods transactions : List Nat,
    (∀ id, id ∈ methods ↔ (m.design.main.method? id).isSome) →
      (∀ t, t ∈ transactions ↔ (m.design.main.transaction? t).isSome) →
        m.runnableInOrder s.activation methods transactions = .ok s.runnable

namespace Machine

variable {m : Machine σ} {plan : Plan} {s : Schedule}

theorem validates_eq_true {view : View σ} {early : List (Option Record)} {x : Method σ} {i : Nat} :
    validates view early x i = .ok true ↔ ∀ v, x.validator = some v →
      ∃ args, early[i]?.join = some args ∧ v view args = .ok true := by
  unfold validates
  cases x.validator with
  | none => simp
  | some v => cases early[i]?.join <;> simp

/-- A call is taken if the callee's own predicate holds and the arguments are accepted. -/
theorem takes_iff (h : m.design.main.Elaborated plan) {i : Nat} {u : Site σ}
    (hu : m.design.main.sites[i]? = some u) : m.Takes s i u ↔
      Guard.holds ((m.design.main.method? u.callee.id).bind Method.ready)
          (m.viewWith s.activeSites s.early) = .ok true ∧ m.SiteAccepted s.activation (i, u) := by
  obtain ⟨x, hx⟩ := Option.isSome_iff_exists.mp (h.callee_method hu)
  have hcallee : m.design.method? u.callee = some x := (h.method?_callee hu).trans hx
  unfold Takes SiteAccepted
  simp only [hcallee, hx, Option.bind_some, Option.some.injEq, forall_eq', validates_eq_true]
  rfl

/-- All active calls of an action are ready if every call that is reached along active call sites is
taken. -/
theorem siteReady_iff_takes (h : m.design.main.Elaborated plan) (a : Nat) :
    (∀ x ∈ m.activeSitesOf s.activation a, m.SiteReady s.activation x) ↔
      ∀ (i : Nat) (u : Site σ), m.design.main.sites[i]? = some u →
        m.design.main.ActiveReaches s.activeSites a u.caller →
          s.activeSites.test i = true → m.Takes s i u := by
  constructor
  · intro hready i u hu hreach hactive
    obtain ⟨hmethod, haccepted⟩ := siteReady_of_activeReaches hready hreach (i, u)
      (mem_activeSitesOf.mpr ⟨hu, rfl, hactive⟩)
    cases hmethod with
    | intro own _ _ => exact (takes_iff h hu).mpr ⟨own, haccepted⟩
  · intro htakes
    -- from the callees up: an action is ready once those that it calls are
    induction a using h.acyclic.induction with
    | _ a ih =>
      rintro ⟨i, u⟩ hmem
      obtain ⟨hu, hcaller, hactive⟩ := mem_activeSitesOf.mp hmem
      subst hcaller
      obtain ⟨own, haccepted⟩ := (takes_iff h hu).mp (htakes i u hu .refl hactive)
      have hbelow := ih u.callee.id ⟨i, u, hu, rfl, rfl⟩ fun j v hv hreach hj =>
        htakes j v hv (.head ⟨i, u, hu, hactive, rfl, rfl⟩ hreach) hj
      exact ⟨.intro own (fun x hx => (hbelow x hx).1) (fun x hx => (hbelow x hx).2), haccepted⟩

theorem methodReady_iff_takes (h : m.design.main.Elaborated plan) {id : Nat} {x : Method σ}
    (hx : m.design.main.method? id = some x) : m.MethodReady s.activation id ↔
      Guard.holds x.ready (m.viewWith s.activeSites s.early) = .ok true ∧
        ∀ (i : Nat) (u : Site σ), m.design.main.sites[i]? = some u →
          m.design.main.ActiveReaches s.activeSites id u.caller →
            s.activeSites.test i = true → m.Takes s i u := by
  have hready : (m.design.main.method? id).bind Method.ready = x.ready := by
    rw [hx]
    rfl
  rw [← siteReady_iff_takes h]
  constructor
  · rintro ⟨own, callees, accepted⟩
    rw [hready] at own
    exact ⟨own, fun y hy => ⟨callees y hy, accepted y hy⟩⟩
  · rintro ⟨own, hsites⟩
    rw [← hready] at own
    exact .intro own (fun y hy => (hsites y hy).1) (fun y hy => (hsites y hy).2)

namespace Schedules

/-- The runnable actions follow from any answers from which the requests follow. -/
theorem runnableByNeed (h : m.design.main.Elaborated plan) (hs : m.Schedules plan s)
    {q : Inquiry σ} (hq : q.Explains m s) : m.RunnableByNeed s q where
  transaction := by
    intro t ht
    rw [runnableActions_iff h hs.runnable, ← hq.transaction ht]
    refine and_congr_right fun hrequested => ?_
    have hrequested : s.requested.test t = true := hrequested
    rw [Registry.method?_eq_none ht]
    simp only [ht, Option.isSome_none, Bool.false_eq_true, false_and, true_and, false_or,
      siteReady_iff_takes h, hq.reaches_iff hs hrequested]
    refine forall_congr' fun i => forall_congr' fun u => forall_congr' fun hu =>
      forall_congr' fun hreach => ?_
    have hcaller : s.requested.test u.caller = true :=
      (hq.requested_iff hs).mpr ⟨t, (hq.transaction ht).mp hrequested, hreach⟩
    rw [hq.site hu, and_iff_left hcaller]
  method := by
    intro id x hx
    have hmethod : (m.design.main.method? id).isSome := by
      rw [hx]
      rfl
    rw [runnableActions_iff h hs.runnable, Registry.transaction?_eq_none hmethod, hmethod,
      methodReady_iff_takes h hx]
    simp only [Option.isSome_none, Bool.false_eq_true, false_and, or_false, true_and]
    rfl

theorem runnableAnyhow (h : m.design.main.Elaborated plan) (hs : m.Schedules plan s) :
    m.RunnableAnyhow s := by
  have hfound := foundRunnable_of_runnableActions h hs.runnable
  have hanswer : ∀ {x : Except Fault Bool} {id : Nat}, (∃ yes, x = .ok yes) →
      (s.runnable.test id = true ↔ x = .ok true) → x = .ok (s.runnable.test id) := by
    rintro x id ⟨yes, rfl⟩ hiff
    congr 1
    rw [Bool.eq_iff_iff, hiff, Except.ok.injEq]
  refine ⟨?_, ?_, ?_⟩
  · intro id hid hrequested
    have hmem := Registry.mem_methods.mpr hid
    apply hanswer (hfound.method id hmem hrequested)
    rw [runnableActions_iff h hs.runnable, Registry.transaction?_eq_none hid,
      readyAfresh_eq_true _ _ (shallow_callDepth h (Registry.lt_length_of_method? hid))]
    simp [hid, show s.activation.requested.test id = true from hrequested]
  · intro t ht hrequested
    have hmem := Registry.mem_transactions.mpr ht
    apply hanswer (hfound.transaction t hmem hrequested)
    rw [runnableActions_iff h hs.runnable, Registry.method?_eq_none ht, callsAfresh_eq_true h]
    simp [ht, show s.activation.requested.test t = true from hrequested]
  · intro methods transactions hmethods htransactions
    rw [runnableInOrder_eq h fun id hid => Registry.lt_length_of_method? ((hmethods id).mp hid)]
    apply runnableAfresh_eq_ok.mpr
    apply hfound.congr
    · intro id
      rw [hmethods, Registry.mem_methods]
    · intro t
      rw [htransactions, Registry.mem_transactions]

end Schedules

/-- What is runnable follows from what is asked on the way to a schedule; if no answer changes on the
way, from what is asked in the end.  Evaluations from scratch, and evaluations that share a memory in
any order, find the same. -/
theorem runnable_by_need (built : m.design.Built) (hplan : m.design.main.plan = some plan)
    (hs : m.schedule = .ok s) :
    (∃ q : Inquiry σ, q.Within m s ∧ m.RunnableByNeed s q) ∧
      (m.SteadyRequests s → m.RunnableByNeed s (.final m s)) ∧ m.RunnableAnyhow s := by
  have h := built.elaborated hplan
  have hschedules := schedules_of_schedule h hplan hs
  obtain ⟨q, hwithin, hq, -⟩ := hschedules.exists_inquiry h
  exact ⟨⟨q, hwithin, hschedules.runnableByNeed h hq⟩,
    fun hsteady => hschedules.runnableByNeed h
      (hq.of_steady hwithin hsteady (Inquiry.within_final m s)),
    hschedules.runnableAnyhow h⟩

end Machine

/-! ## An accumulator whose total exceeds its limit -/

namespace Accumulator

/-- The accumulator when its total is no amount that it accepts. -/
def crowded : Machine State := { design := design, state := ⟨2, 3⟩ }

/-- Its schedule: the transaction that adds the total cannot run. -/
def crowdedSchedule : Schedule where
  requested := ⟨[true, true, true, true, true]⟩
  runnable := ⟨[true, true, false, true, true]⟩
  granted := ⟨[true, true, false, true, true]⟩
  activeSites := ⟨[true, true, true, true]⟩
  grantedSites := ⟨[false, false, true, true]⟩
  selected := [.site 2, .site 3, .nothing 0, .nothing 0, .nothing 0]
  early := [none, some (record 3), some (record 1), none]

theorem crowdedSchedule_eq : crowded.schedule = .ok crowdedSchedule := by cbv

theorem request_eq_none {id : Nat} {t : Transaction State}
    (h : design.main.transaction? id = some t) : t.request = none := by
  obtain ⟨a, ha, ht⟩ := Registry.transaction?_eq_some.mp h
  rw [actions_eq] at ha
  match id with
  | 0 | 1 =>
    obtain rfl := Option.some.inj ha
    cases ht
  | 2 | 3 | 4 =>
    obtain rfl := Option.some.inj ha
    obtain rfl := Option.some.inj ht
    rfl
  | _ + 5 => cases ha

theorem condition_eq_none {i : Nat} {u : Site State} (h : design.main.sites[i]? = some u) :
    u.condition = none := by
  rw [sites_eq] at h
  match i with
  | 0 | 1 | 2 | 3 =>
    obtain rfl := Option.some.inj h
    rfl
  | _ + 4 => cases h

/-- No transaction of the accumulator asks before it runs, and no call has a condition. -/
theorem steadyRequests {m : Machine State} (h : m.design = design) (s : Schedule) :
    m.SteadyRequests s where
  request := by
    intro view _ t x hx
    rw [h] at hx
    rw [request_eq_none hx]
    rfl
  condition := by
    intro view _ i u hu
    rw [h] at hu
    rw [condition_eq_none hu]
    rfl

/-- Both transactions that add want to run, and the one whose amount is refused cannot. -/
theorem runnable_crowded : design.main.plan = some plan ∧
    crowded.schedule = .ok crowdedSchedule ∧ crowded.SteadyRequests crowdedSchedule ∧
    crowded.RunnableByNeed crowdedSchedule (.final crowded crowdedSchedule) ∧
    crowded.RunnableAnyhow crowdedSchedule ∧
    crowdedSchedule.runnable.test 2 = false ∧ crowdedSchedule.runnable.test 3 = true := by
  obtain ⟨-, hfinal, hanyhow⟩ :=
    Machine.runnable_by_need (m := crowded) built plan_eq crowdedSchedule_eq
  have hsteady := steadyRequests (m := crowded) rfl crowdedSchedule
  exact ⟨plan_eq, crowdedSchedule_eq, hsteady, hfinal hsteady, hanyhow, rfl, rfl⟩

end Accumulator

end GuardedActions
