import GuardedActions.Proofs.Scheduling.Outcome

/-!
# What scheduling asked, and where

A predicate may look at the arguments that wait for a method, and these grow while a schedule is being
made.  So its answer is that of the moment when it was asked.  For every schedule there are such
moments, one for every question, from whose answers all requests and active call sites follow.
-/

set_option autoImplicit false

namespace GuardedActions

variable {σ : Type}

/-- The views in which scheduling asks its questions. -/
structure Inquiry (σ : Type) where
  /-- where a transaction is asked whether it wants to run -/
  request : Nat → View σ
  /-- where a call site is asked whether it takes place -/
  condition : Nat → View σ
  /-- where a call site is asked for its arguments -/
  arguments : Nat → View σ

namespace Inquiry

/-- All questions are asked on the way to the schedule. -/
structure Within (q : Inquiry σ) (m : Machine σ) (s : Schedule) : Prop where
  /-- transactions are -/
  request : ∀ t, m.Saw s.activeSites s.early (q.request t)
  /-- so are conditions -/
  condition : ∀ i, m.Saw s.activeSites s.early (q.condition i)
  /-- so are suppliers -/
  arguments : ∀ i, m.Saw s.activeSites s.early (q.arguments i)

/-- A transaction wants to run. -/
def Wants (q : Inquiry σ) (m : Machine σ) (t : Nat) : Prop :=
  ∃ x : Transaction σ, m.design.main.transaction? t = some x ∧
    Guard.holds x.request (q.request t) = .ok true

/-- One action calls another through a call site whose condition holds. -/
def Calls (q : Inquiry σ) (m : Machine σ) (a b : Nat) : Prop :=
  ∃ (i : Nat) (u : Site σ), m.design.main.sites[i]? = some u ∧
    Guard.holds u.condition (q.condition i) = .ok true ∧ u.caller = a ∧ u.callee.id = b

/-- One action calls another through any number of call sites whose conditions hold, or is the
other. -/
def Reaches (q : Inquiry σ) (m : Machine σ) : Nat → Nat → Prop := Relation.ReflTransGen (q.Calls m)

/-- The answers are those that the schedule was made from. -/
structure Explains (q : Inquiry σ) (m : Machine σ) (s : Schedule) : Prop where
  /-- a transaction is requested if it wants to run -/
  transaction : ∀ {t : Nat}, (m.design.main.transaction? t).isSome →
    (s.requested.test t = true ↔ q.Wants m t)
  /-- a call site is active if its condition holds and its caller is requested -/
  site : ∀ {i : Nat} {u : Site σ}, m.design.main.sites[i]? = some u →
    (s.activeSites.test i = true ↔
      Guard.holds u.condition (q.condition i) = .ok true ∧ s.requested.test u.caller = true)

/-- Early arguments are those that the call sites supply. -/
def Supplies (q : Inquiry σ) (m : Machine σ) (s : Schedule) : Prop :=
  ∀ {i : Nat} {args : Record}, s.earlyOf i = some args →
    ∃ (u : Site σ) (supplier : Supplier σ), m.design.main.sites[i]? = some u ∧
      u.arguments = some supplier ∧ supplier (q.arguments i) = .ok args

/-- All questions are asked when the schedule is there. -/
def final (m : Machine σ) (s : Schedule) : Inquiry σ where
  request := fun _ => m.viewWith s.activeSites s.early
  condition := fun _ => m.viewWith s.activeSites s.early
  arguments := fun _ => m.viewWith s.activeSites s.early

theorem within_final (m : Machine σ) (s : Schedule) : (final m s).Within m s where
  request := fun _ => m.saw_viewWith _ _
  condition := fun _ => m.saw_viewWith _ _
  arguments := fun _ => m.saw_viewWith _ _

end Inquiry

/-- On the way to a schedule no request predicate and no condition changes its answer. -/
structure Machine.SteadyRequests (m : Machine σ) (s : Schedule) : Prop where
  /-- transactions want the same as in the end -/
  request : ∀ {view : View σ}, m.Saw s.activeSites s.early view → ∀ {t : Nat} {x : Transaction σ},
    m.design.main.transaction? t = some x →
      Guard.holds x.request view = Guard.holds x.request (m.viewWith s.activeSites s.early)
  /-- conditions are the same as in the end -/
  condition : ∀ {view : View σ}, m.Saw s.activeSites s.early view → ∀ {i : Nat} {u : Site σ},
    m.design.main.sites[i]? = some u →
      Guard.holds u.condition view = Guard.holds u.condition (m.viewWith s.activeSites s.early)

namespace Machine.Schedules

variable {m : Machine σ} {plan : Plan} {s : Schedule}

/-- A requested action has a transaction from which it is reached. -/
theorem exists_requesting (hs : m.Schedules plan s) {x : Nat} (hx : s.requested.test x = true) :
    ∃ t, s.requested.test t = true ∧ s.activation.Wants m t ∧
      m.design.main.ActiveReaches s.activeSites t x :=
  hs.activated.explained.requested hx

/-- An active call site joins requested actions. -/
theorem exists_active (hs : m.Schedules plan s) {i : Nat} (hi : s.activeSites.test i = true) :
    ∃ u : Site σ, m.design.main.sites[i]? = some u ∧ s.requested.test u.caller = true ∧
      s.requested.test u.callee.id = true ∧ s.activation.Answered m u.condition true :=
  hs.activated.explained.active hi

/-- Some view explains whether a transaction is requested. -/
theorem exists_request (h : m.design.main.Elaborated plan) (hs : m.Schedules plan s) (t : Nat) :
    ∃ view, m.Saw s.activeSites s.early view ∧ ∀ x : Transaction σ,
      m.design.main.transaction? t = some x →
        (s.requested.test t = true ↔ Guard.holds x.request view = .ok true) := by
  cases ht : m.design.main.transaction? t with
  | none => exact ⟨_, m.saw_viewWith _ _, fun x hx => by cases hx⟩
  | some x =>
    have hsome : (m.design.main.transaction? t).isSome := by rw [ht]; rfl
    have hrequest : (m.design.main.transaction? t).bind Transaction.request = x.request := by
      rw [ht]
      rfl
    cases hrequested : s.requested.test t with
    | true =>
      obtain ⟨t', -, ⟨-, view, hview, hanswer⟩, hreach⟩ := hs.exists_requesting hrequested
      -- no active call leads to a transaction
      rcases Relation.ReflTransGen.cases_tail hreach with rfl | ⟨b, -, i, u, hu, -, -, heq⟩
      · refine ⟨view, hview, fun y hy => ?_⟩
        rw [hrequest] at hanswer
        obtain rfl := Option.some.inj hy
        exact iff_of_true rfl hanswer
      · exact absurd heq (h.callee_ne hu hsome)
    | false =>
      rcases hs.activated.asked t (h.mem_order.mpr hsome) with hrequested' | ⟨view, hview, hanswer⟩
      · have hrequested' : s.requested.test t = true := hrequested'
        rw [hrequested] at hrequested'
        cases hrequested'
      · refine ⟨view, hview, fun y hy => ?_⟩
        rw [hrequest] at hanswer
        obtain rfl := Option.some.inj hy
        rw [hanswer]
        simp

/-- Some view explains whether a call site is active. -/
theorem exists_condition (hs : m.Schedules plan s) (i : Nat) :
    ∃ view, m.Saw s.activeSites s.early view ∧ ∀ u : Site σ, m.design.main.sites[i]? = some u →
      (s.activeSites.test i = true ↔
        Guard.holds u.condition view = .ok true ∧ s.requested.test u.caller = true) := by
  cases hu : m.design.main.sites[i]? with
  | none => exact ⟨_, m.saw_viewWith _ _, fun u hu => by cases hu⟩
  | some u =>
    cases hactive : s.activeSites.test i with
    | true =>
      obtain ⟨v, hv, hcaller, -, view, hview, hanswer⟩ := hs.exists_active hactive
      obtain rfl := Option.some.inj (hu.symm.trans hv)
      refine ⟨view, hview, fun v hv => ?_⟩
      obtain rfl := Option.some.inj hv
      exact iff_of_true rfl ⟨hanswer, hcaller⟩
    | false =>
      cases hcaller : s.requested.test u.caller with
      | false =>
        refine ⟨_, m.saw_viewWith _ _, fun v hv => ?_⟩
        obtain rfl := Option.some.inj hv
        rw [hcaller]
        simp
      | true =>
        rcases hs.activated.settled hcaller i u hu rfl with hactive' | ⟨view, hview, hanswer⟩
        · have hactive' : s.activeSites.test i = true := hactive'
          rw [hactive] at hactive'
          cases hactive'
        · refine ⟨view, hview, fun v hv => ?_⟩
          obtain rfl := Option.some.inj hv
          rw [hanswer]
          simp

/-- Some view explains the early arguments of a call site. -/
theorem exists_arguments (hs : m.Schedules plan s) (i : Nat) :
    ∃ view, m.Saw s.activeSites s.early view ∧ ∀ args, s.earlyOf i = some args →
      ∃ (u : Site σ) (supplier : Supplier σ), m.design.main.sites[i]? = some u ∧
        u.arguments = some supplier ∧ supplier view = .ok args := by
  cases hearly : s.earlyOf i with
  | none => exact ⟨_, m.saw_viewWith _ _, fun args hargs => by cases hargs⟩
  | some args =>
    obtain ⟨-, u, supplier, view, hu, hsupplier, hview, hargs⟩ := hs.activated.explained.early hearly
    refine ⟨view, hview, fun args' hargs' => ?_⟩
    obtain rfl := Option.some.inj hargs'
    exact ⟨u, supplier, hu, hsupplier, hargs⟩

/-- Every schedule follows from the answers to some questions that were asked on the way. -/
theorem exists_inquiry (h : m.design.main.Elaborated plan) (hs : m.Schedules plan s) :
    ∃ q : Inquiry σ, q.Within m s ∧ q.Explains m s ∧ q.Supplies m s := by
  choose request hrequest htransaction using hs.exists_request h
  choose condition hcondition hsite using hs.exists_condition
  choose arguments harguments hsupplied using hs.exists_arguments
  refine ⟨⟨request, condition, arguments⟩, ⟨hrequest, hcondition, harguments⟩,
    ⟨?_, fun {i u} hu => hsite i u hu⟩, fun {i args} hargs => hsupplied i args hargs⟩
  intro t ht
  obtain ⟨x, hx⟩ := Option.isSome_iff_exists.mp ht
  rw [htransaction t x hx]
  constructor
  · exact fun hholds => ⟨x, hx, hholds⟩
  · rintro ⟨y, hy, hholds⟩
    obtain rfl := Option.some.inj (hx.symm.trans hy)
    exact hholds

end Machine.Schedules

namespace Inquiry.Explains

variable {m : Machine σ} {plan : Plan} {s : Schedule} {q : Inquiry σ}

/-- If no answer changes, the questions may be asked anywhere on the way. -/
theorem of_steady (hq : q.Explains m s) (hwithin : q.Within m s) (hsteady : m.SteadyRequests s)
    {q' : Inquiry σ} (hwithin' : q'.Within m s) : q'.Explains m s where
  transaction := by
    intro t ht
    rw [hq.transaction ht]
    refine exists_congr fun x => and_congr_right fun hx => ?_
    rw [hsteady.request (hwithin.request t) hx, hsteady.request (hwithin'.request t) hx]
  site := by
    intro i u hu
    rw [hq.site hu, hsteady.condition (hwithin.condition i) hu,
      hsteady.condition (hwithin'.condition i) hu]

/-- Below a requested action, active call sites are those whose conditions hold. -/
theorem reaches_iff (hq : q.Explains m s) (hs : m.Schedules plan s) {a b : Nat}
    (ha : s.requested.test a = true) :
    m.design.main.ActiveReaches s.activeSites a b ↔ q.Reaches m a b := by
  constructor
  · intro hreach
    refine Relation.ReflTransGen.mono ?_ _ _ hreach
    rintro a b ⟨i, u, hu, hactive, hcaller, hcallee⟩
    exact ⟨i, u, hu, ((hq.site hu).mp hactive).1, hcaller, hcallee⟩
  · intro hreach
    have hboth : m.design.main.ActiveReaches s.activeSites a b ∧ s.requested.test b = true := by
      induction hreach with
      | refl => exact ⟨.refl, ha⟩
      | tail _ hcall ih =>
        obtain ⟨i, u, hu, hholds, rfl, rfl⟩ := hcall
        have hactive := (hq.site hu).mpr ⟨hholds, ih.2⟩
        obtain ⟨v, hv, -, hcallee, -⟩ := hs.exists_active hactive
        obtain rfl := Option.some.inj (hu.symm.trans hv)
        exact ⟨ih.1.tail ⟨i, u, hu, hactive, rfl, rfl⟩, hcallee⟩
    exact hboth.1

/-- What is requested is what can be reached from transactions that want to run. -/
theorem requested_iff (hq : q.Explains m s) (hs : m.Schedules plan s) {x : Nat} :
    s.requested.test x = true ↔ ∃ t, q.Wants m t ∧ q.Reaches m t x := by
  constructor
  · intro hx
    obtain ⟨t, ht, hwants, hreach⟩ := hs.exists_requesting hx
    exact ⟨t, (hq.transaction hwants.1).mp ht, (hq.reaches_iff hs ht).mp hreach⟩
  · rintro ⟨t, hwants, hreach⟩
    have htransaction : (m.design.main.transaction? t).isSome := by
      obtain ⟨y, hy, -⟩ := hwants
      rw [hy]
      rfl
    have ht := (hq.transaction htransaction).mpr hwants
    have hreach := (hq.reaches_iff hs ht).mpr hreach
    rcases Relation.ReflTransGen.cases_tail hreach with rfl | ⟨b, -, i, u, hu, hactive, -, rfl⟩
    · exact ht
    · obtain ⟨v, hv, -, hcallee, -⟩ := hs.exists_active hactive
      obtain rfl := Option.some.inj (hu.symm.trans hv)
      exact hcallee

end Inquiry.Explains

end GuardedActions
