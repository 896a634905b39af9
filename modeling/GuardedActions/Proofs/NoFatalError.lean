import GuardedActions.Proofs.Execution.Discipline
import GuardedActions.Proofs.MutualExclusion

/-!
# Schedules keep their promise

A schedule that was made in the same cycle executes without a fault, provided that the guards of
methods depend on nothing that bodies change, and that the bodies do what they have to.
-/

set_option autoImplicit false

namespace GuardedActions

variable {σ : Type}

namespace Machine

variable {κ : Type} {m : Machine σ} {plan : Plan} {s : Schedule} {kept : σ → κ}

/-! ## The checks before a body -/

/-- A guard sees the same in the execution of a schedule as it saw when the schedule was made. -/
theorem agree_executing {state : σ} (h : kept state = kept m.state) :
    Agree kept ⟨state, (m.executing s).scene none⟩ (m.viewWith s.activeSites s.early) where
  state := h
  cycle := rfl
  actor := rfl
  lookup := rfl
  pending := rfl

/-- A method that is granted through a call site passes the checks before its body runs. -/
theorem Schedules.checkRun_eq_ok (built : m.design.Built) (own : m.design.OwnCallers)
    (hplan : m.design.main.plan = some plan) (hs : m.Schedules plan s)
    (hsteady : GuardsSteady m.design kept) {i : Nat} {u : Site σ} {target : Method σ}
    {given : Option Record} {passed : Record} {state : σ}
    (hu : m.design.main.sites[i]? = some u) (hgranted : s.grantedSites.test i = true)
    (htarget : m.design.main.method? u.callee.id = some target)
    (hpasses : u.Passes s i target given passed) (hkept : kept state = kept m.state) :
    (m.executing s).checkRun (m.design.nameOf u.callee) target
      (drivingArguments s u.callee.id target i passed) state = .ok () := by
  have h := built.elaborated hplan
  have hagree := agree_executing (s := s) hkept
  have hmethod : ∀ {v : Site σ}, v.callee = u.callee → m.design.method? v.callee = some target := by
    intro v hv
    rw [hv, h.method?_callee hu]
    exact htarget
  obtain ⟨hready, haccepts⟩ := hs.ready hu hgranted (hmethod rfl)
  have hholds : Guard.holds target.ready ⟨state, (m.executing s).scene none⟩ = .ok true := by
    rw [hsteady.ready htarget hagree]
    exact hready
  have haccepted : Validator.accepts target.validator ⟨state, (m.executing s).scene none⟩
      (drivingArguments s u.callee.id target i passed) = .ok true := by
    rw [hsteady.validator htarget hagree]
    cases hvalidator : target.validator with
    | none => rfl
    | some v =>
      -- whatever drives the method was validated before arbitration
      have hvalid : ∀ {j : Nat} {w : Site σ} {args : Record}, m.design.main.sites[j]? = some w →
          s.grantedSites.test j = true → w.callee = u.callee → s.earlyOf j = some args →
          v (m.viewWith s.activeSites s.early) args = .ok true := by
        intro j w args hw hj hcallee hearly
        obtain ⟨-, hvalidates⟩ := hs.ready hw hj (hmethod hcallee)
        unfold validates at hvalidates
        unfold Schedule.earlyOf at hearly
        rw [hvalidator] at hvalidates
        simp only at hvalidates
        rw [hearly] at hvalidates
        exact hvalidates
      have hpassed := hpasses.earlyOf_eq (h.supplied_of_validator hu htarget hvalidator)
      show v (m.viewWith s.activeSites s.early) (drivingArguments s u.callee.id target i passed) = _
      rcases hs.drivingArguments_cases built own hplan hu hgranted htarget passed with
        heq | ⟨driver, w, hw, hwu, hdriven, -, hearly⟩
      · rw [heq]
        exact hvalid hu hgranted rfl hpassed
      · exact hvalid hw hdriven hwu hearly
  unfold checkRun
  simp only
  rw [hholds, ok_bind, if_pos rfl, haccepted, ok_bind, if_pos rfl]

theorem prepared_of_schedules (built : m.design.Built) (own : m.design.OwnCallers)
    (hplan : m.design.main.plan = some plan) (hs : m.Schedules plan s)
    (hsteady : GuardsSteady m.design kept)
    (hcooperates : (m.executing s).Cooperates plan s kept) :
    (m.executing s).Prepared plan s kept where
  elaborated := built.elaborated hplan
  cooperates := hcooperates
  site := hs.site
  callee := hs.callee
  exclusive := Schedules.exclusive (m := m) (built.elaborated hplan) hs
  early := hs.exists_earlyOf
  checked := fun hu hgranted htarget hpasses hkept =>
    hs.checkRun_eq_ok built own hplan hsteady hu hgranted htarget hpasses hkept

/-! ## One transaction after the other -/

/-- Between two transactions nothing runs, and the finished ones have performed their calls. -/
structure Between (m : Machine σ) (s : Schedule) (kept : σ → κ) (finished : List Nat)
    (e : Body.Effects σ Ledger) : Prop where
  /-- the ledger is in order -/
  sound : e.calls.Sound m.design.main s (fun _ => False) (· ∈ finished.filter s.granted.test)
  /-- nobody has changed the kept part of the state -/
  kept : kept e.state = kept m.state

/-- The body of a granted transaction may start. -/
theorem Between.begin (h : m.design.main.Elaborated plan) {before : List Nat} {t : Nat}
    {e : Body.Effects σ Ledger} (he : m.Between s kept before e) (hbefore : before ⊆ plan.order)
    (hfirst : t ∉ before) (ht : (m.design.main.transaction? t).isSome)
    (hgranted : s.granted.test t = true) :
    m.Situated s kept [] (fun x => x = t) (· ∈ before.filter s.granted.test) t [] e := by
  have hnone : e.calls.resultOf t = none := by
    cases hresult : e.calls.resultOf t with
    | none => rfl
    | some result =>
      obtain ⟨i, u, hu, heq, -⟩ := he.sound.called t (by rw [hresult]; rfl)
      exact absurd heq (h.callee_ne hu ht)
  refine ⟨he.sound.begin hnone, he.kept, rfl, ?_, hgranted, ?_, ?_, List.nodup_nil, ?_⟩
  · rintro x rfl
    exact .refl
  · intro x hx
    exact h.mem_order.mp (hbefore (List.mem_filter.mp hx).1)
  · intro i u hu hcaller
    constructor
    · intro hi
      rcases he.sound.origin i u hu hi with hfalse | hdone | hfinished
      · exact hfalse.elim
      · rw [hcaller, hnone] at hdone
        cases hdone
      · rw [hcaller] at hfinished
        exact absurd (List.mem_filter.mp hfinished).1 hfirst
    · intro hi
      cases hi
  · intro i hi
    cases hi

/-- The body of a transaction is done, and has performed its active call sites. -/
theorem Between.retire (h : m.design.main.Elaborated plan) {before done : List Nat} {t : Nat}
    {e : Body.Effects σ Ledger} (ht : (m.design.main.transaction? t).isSome)
    (hafter : m.Situated s kept [] (fun x => x = t) (· ∈ before.filter s.granted.test) t done e)
    (hcomplete : ∀ i (u : Site σ), m.design.main.sites[i]? = some u → u.caller = t →
      s.activeSites.test i = true → i ∈ done) : m.Between s kept (before ++ [t]) e := by
  refine ⟨?_, hafter.kept⟩
  have hretired := hafter.sound.retire (t := t) (fun hu => h.callee_ne hu ht)
    fun i u hu hcaller hactive =>
      (hafter.done i u hu hcaller).mpr (hcomplete i u hu hcaller hactive)
  have hsame : (fun x => x ∈ before.filter s.granted.test ∨ x = t) =
      (· ∈ (before ++ [t]).filter s.granted.test) := by
    funext x
    rw [List.filter_append, List.mem_append, List.filter_cons_of_pos hafter.granted,
      List.filter_nil, List.mem_singleton]
  rw [hsame] at hretired
  exact hretired

/-- The next transaction of the order runs to its end. -/
theorem exists_runTransaction (hm : m.Prepared plan s kept) {before after : List Nat} {t : Nat}
    {e : Body.Effects σ Ledger} (hturn : plan.order = before ++ t :: after)
    (hran : before.foldlM (m.runTransaction s) m.beforeBodies = .ok e)
    (he : m.Between s kept before e) :
    ∃ e', m.runTransaction s e t = .ok e' ∧ m.Between s kept (before ++ [t]) e' := by
  have hbefore : before ⊆ plan.order := by
    rw [hturn]
    exact List.subset_append_left _ _
  have hmem : t ∈ plan.order := by
    rw [hturn]
    exact List.mem_append_right _ List.mem_cons_self
  have hfirst : t ∉ before := by
    have hnodup := hm.elaborated.nodup_order
    rw [hturn] at hnodup
    intro hearlier
    exact (List.nodup_append.mp hnodup).2.2 t hearlier t List.mem_cons_self rfl
  have ht := hm.elaborated.mem_order.mp hmem
  obtain ⟨txn, htxn⟩ := Option.isSome_iff_exists.mp ht
  obtain ⟨body, hbody⟩ := hm.elaborated.exists_transactionBody htxn
  unfold runTransaction
  by_cases hgranted : s.granted.test t = true
  · have hsituated := he.begin hm.elaborated hbefore hfirst ht hgranted
    have hcomes : m.ComesTo plan s (fun _ => True) t [] body e :=
      .transaction hturn hran hgranted htxn hbody
    obtain ⟨result, done, e', hrun, hend, hafter, -⟩ :=
      exists_run hm.cooperates m.bodyDepth (fun hc hs => exists_answer hm _ hc hs (by
        unfold bodyDepth
        omega)) body hcomes hsituated
    refine ⟨e', ?_, .retire hm.elaborated ht hafter fun i u hu hcaller hactive =>
      hm.cooperates.complete hend hu hcaller hactive⟩
    rw [if_pos hgranted, htxn, Option.bind_some, hbody]
    simp only
    rw [hrun]
    rfl
  · refine ⟨e, if_neg hgranted, ?_, he.kept⟩
    rw [List.filter_append, List.filter_cons_of_neg hgranted, List.filter_nil, List.append_nil]
    exact he.sound

theorem between_beforeBodies (m : Machine σ) (s : Schedule) (kept : σ → κ) :
    m.Between s kept [] m.beforeBodies := by
  refine ⟨?_, rfl⟩
  have hsame : (· ∈ ([] : List Nat).filter s.granted.test) = fun _ => False := by
    funext x
    simp
  rw [hsame]
  exact .empty m.design.main s

/-- After the last transaction every granted call site is performed. -/
theorem performed_of_between (h : m.design.main.Elaborated plan) (hs : m.Schedules plan s)
    {e : Body.Effects σ Ledger} (he : m.Between s kept plan.order e) {i : Nat}
    (hgranted : s.grantedSites.test i = true) : e.calls.performed.test i = true := by
  have hall : ∀ {t a : Nat}, t ∈ plan.winners s.runnable →
      m.design.main.ActiveReaches s.activeSites t a → ∀ j (v : Site σ),
      m.design.main.sites[j]? = some v → v.caller = a → s.activeSites.test j = true →
      e.calls.performed.test j = true := by
    intro t a ht hreach
    induction hreach with
    | refl =>
      have htransaction := Schedules.isSome_of_winner h ht
      refine he.sound.complete t (Or.inr (List.mem_filter.mpr ⟨?_, ?_⟩))
      · exact h.mem_order.mpr htransaction
      · exact (hs.transaction htransaction).mpr ht
    | tail _ hcall ih =>
      obtain ⟨j, v, hv, hactive, hcaller, rfl⟩ := hcall
      have hperformed := ih j v hv hcaller hactive
      rcases he.sound.returned j v hv hperformed with hdone | hfalse
      · exact he.sound.complete _ (Or.inl hdone)
      · exact hfalse.elim
  obtain ⟨u, hu, hactive, hcaller⟩ := hs.site.mp hgranted
  obtain ⟨t, ht, hreach⟩ := hs.origin hcaller
  exact hall ht hreach i u hu rfl hactive

theorem checkPerformed_eq_ok {l : Ledger}
    (h : ∀ i, s.grantedSites.test i = true → l.performed.test i = true) :
    m.checkPerformed s l = .ok () := by
  unfold checkPerformed
  split
  · rfl
  · rename_i i u hfind
    have htest := List.find?_some hfind
    rw [Bool.and_eq_true, Bool.not_eq_true'] at htest
    rw [h i htest.1] at htest
    cases htest.2

/-- A schedule executes without a fault in the cycle it was made for, if the guards of methods depend
on nothing that bodies change and the bodies and hooks that run do what they have to.  A method's
early arguments are the same in both phases. -/
theorem execute_eq_ok (built : m.design.Built) (own : m.design.OwnCallers)
    (hplan : m.design.main.plan = some plan) (hs : m.schedule = .ok s)
    (hsteady : GuardsSteady m.design kept) (hcooperates : (m.executing s).Cooperates plan s kept) :
    (∃ m', m.execute s = .ok m') ∧
      ∀ ref, (m.executing s).pending ref = m.pendingWith s.activeSites s.early ref := by
  have h := built.elaborated hplan
  have hschedules := schedules_of_schedule h hplan hs
  have hm := prepared_of_schedules built own hplan hschedules hsteady hcooperates
  refine ⟨?_, fun _ => rfl⟩
  have hexclusive : (m.executing s).checkExclusive s = .ok () :=
    checkExclusive_of_exclusive (m := m.executing s) built own hm.exclusive
  obtain ⟨e, hbodies, hbetween⟩ := exists_foldlM ((m.executing s).Between s kept)
    (between_beforeBodies (m.executing s) s kept) (fun before t after e' hturn hran he' =>
      exists_runTransaction hm hturn hran he')
  have hperformed : (m.executing s).checkPerformed s e.calls = .ok () :=
    checkPerformed_eq_ok fun i hi =>
      performed_of_between h hschedules ⟨hbetween.sound, hbetween.kept⟩ hi
  obtain ⟨e', hhooks, -⟩ := exists_foldlM (l := (m.executing s).parts)
    (f := (m.executing s).runHook) (b := e) (fun _ _ => True) trivial
    (fun before part after e' hparts hran _ => by
      obtain ⟨e'', he''⟩ := hcooperates.hook hbodies hparts hran
      exact ⟨e'', he'', trivial⟩)
  refine ⟨{ m.executing s with state := e'.state, journal := e'.journal }, ?_⟩
  unfold execute
  rw [hplan]
  simp only
  rw [if_pos hschedules.cycle]
  unfold executeWith
  simp only
  have hsame : ({ m with last := some s } : Machine σ) = m.executing s := rfl
  have hstart : (⟨m.state, m.journal, Ledger.start m.design.main.actions.length
      m.design.main.sites.length⟩ : Body.Effects σ Ledger) = (m.executing s).beforeBodies := rfl
  rw [hsame, hexclusive, ok_bind, hstart, hbodies, ok_bind, hperformed, ok_bind]
  have hparts : m.parts = (m.executing s).parts := rfl
  rw [hparts, hhooks, ok_bind]
  rfl

end Machine

namespace Accumulator

theorem guardsSteady : Machine.GuardsSteady design State.limit where
  ready := by
    intro id x hx v v' _
    rcases method_cases hx with ⟨-, rfl⟩ | ⟨-, rfl⟩
    · rfl
    · rfl
  validator := by
    intro id x hx v v' hagree args
    rcases method_cases hx with ⟨-, rfl⟩ | ⟨-, rfl⟩
    · have hlimit : v.state.limit = v'.state.limit := hagree.state
      show isSmall v args = isSmall v' args
      unfold isSmall
      rw [hlimit]
    · rfl

theorem site_cases {i : Nat} {u : Site State} (h : design.main.sites[i]? = some u) :
    (i = 0 ∧ u.caller = 2) ∨ (i = 1 ∧ u.caller = 2) ∨ (i = 2 ∧ u.caller = 3) ∨
      (i = 3 ∧ u.caller = 4) := by
  rw [sites_eq] at h
  match i with
  | 0 =>
    obtain rfl := Option.some.inj h
    exact Or.inl ⟨rfl, rfl⟩
  | 1 =>
    obtain rfl := Option.some.inj h
    exact Or.inr (Or.inl ⟨rfl, rfl⟩)
  | 2 =>
    obtain rfl := Option.some.inj h
    exact Or.inr (Or.inr (Or.inl ⟨rfl, rfl⟩))
  | 3 =>
    obtain rfl := Option.some.inj h
    exact Or.inr (Or.inr (Or.inr ⟨rfl, rfl⟩))
  | _ + 4 => cases h

/-- Methods make no calls, and transactions make those that they have declared. -/
theorem disciplined : machine.Disciplined schedule State.limit where
  method := by
    intro id x body hx _ hbody args _
    have hnone : ∀ (i : Nat) (u : Site State), design.main.sites[i]? = some u → u.caller = id →
        schedule.activeSites.test i = true → i ∈ ([] : List Nat) := by
      intro i u hu hcaller _
      have hid : id = 0 ∨ id = 1 := (method_cases hx).imp And.left And.left
      have hsite := site_cases hu
      omega
    rcases method_cases hx with ⟨-, rfl⟩ | ⟨-, rfl⟩
    · obtain rfl := Option.some.inj hbody
      exact fun view hkept => ⟨hkept, rfl, hnone⟩
    · obtain rfl := Option.some.inj hbody
      exact fun view _ => ⟨rfl, hnone⟩
  transaction := by
    intro id t body ht _ hbody
    rcases transaction_cases ht with ⟨rfl, hcalls⟩ | ⟨rfl, hcalls⟩ | ⟨rfl, hcalls⟩
    · obtain rfl := Option.some.inj (hbody.symm.trans hcalls)
      refine ⟨0, _, reading, by cbv, rfl, by simp, by cbv, Or.inr rfl, fun _ _ => ?_⟩
      refine ⟨1, _, adding, by cbv, rfl, by simp, by cbv, Or.inl rfl, fun _ _ => ?_⟩
      refine ⟨trivial, fun i u hu hcaller _ => ?_⟩
      have hsite := site_cases hu
      rw [List.mem_pair]
      omega
    · obtain rfl := Option.some.inj (hbody.symm.trans hcalls)
      refine ⟨2, _, adding, by cbv, rfl, by simp, by cbv, Or.inl rfl, fun _ _ => ?_⟩
      refine ⟨trivial, fun i u hu hcaller _ => ?_⟩
      have hsite := site_cases hu
      rw [List.mem_singleton]
      omega
    · obtain rfl := Option.some.inj (hbody.symm.trans hcalls)
      refine ⟨3, _, reading, by cbv, rfl, by simp, by cbv, Or.inr rfl, fun _ _ => ?_⟩
      refine ⟨trivial, fun i u hu hcaller _ => ?_⟩
      have hsite := site_cases hu
      rw [List.mem_singleton]
      omega
  hook := by
    intro part hpart
    cases hpart

theorem execute_schedule_eq_ok : machine.schedule = .ok schedule ∧
    (∃ m', machine.execute schedule = .ok m') ∧
      ∀ ref, (machine.executing schedule).pending ref =
        machine.pendingWith schedule.activeSites schedule.early ref := by
  have hschedules := Machine.schedules_of_schedule (m := machine) (built.elaborated plan_eq) plan_eq
    schedule_eq
  have hcooperates := Machine.cooperates_of_disciplined built ownCallers plan_eq hschedules
    disciplined
  exact ⟨schedule_eq,
    Machine.execute_eq_ok built ownCallers plan_eq schedule_eq guardsSteady hcooperates⟩

end Accumulator

end GuardedActions
