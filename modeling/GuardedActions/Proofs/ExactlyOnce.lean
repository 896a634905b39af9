import GuardedActions.Proofs.Execution.Account
import GuardedActions.Proofs.MutualExclusion

/-!
# Exactly-once execution

If an execution of a schedule completes, then whatever the bodies did, every granted transaction ran
once and in the static order, every granted method ran once, every granted call site was performed
once, and nothing else happened.  Bodies ran with the arguments of the call sites that drive them, and
all callers of a method received what its one run returned.
-/

set_option autoImplicit false

namespace GuardedActions

variable {σ : Type}

/-- How often something happened that is to happen once or not at all. -/
def onceIf (wanted : Bool) : Nat := if wanted then 1 else 0

theorem count_eq_onceIf {l : List Nat} {wanted : Bool} {i : Nat} (hnodup : l.Nodup)
    (hmem : i ∈ l ↔ wanted = true) : l.count i = onceIf wanted := by
  unfold onceIf
  split
  · rename_i hwanted
    exact List.count_eq_one_of_mem hnodup (hmem.mpr hwanted)
  · rename_i hnot
    exact List.count_eq_zero.mpr fun hi => hnot (hmem.mp hi)

/-- What happens while a schedule is executed, if all goes well. -/
structure Schedule.ExecutedOnce (r : Registry σ) (plan : Plan) (s : Schedule)
    (events : List Event) : Prop where
  /-- the bodies of the granted transactions run once each, best rank first -/
  transactions : events.filterMap Event.started? = plan.order.filter s.granted.test
  /-- the bodies of the granted methods run once each, and no others -/
  methods : ∀ x, (events.filterMap Event.entered?).count x =
    onceIf ((r.method? x).isSome && s.granted.test x)
  /-- the granted call sites are performed once each, and no others -/
  sites : ∀ i, (events.filterMap Event.performed?).count i = onceIf (s.grantedSites.test i)
  /-- the body of an exclusive method gets what its granted call site passes -/
  exclusive : ∀ {x : Nat} {target : Method σ} {args : Record}, r.method? x = some target →
    target.nonexclusive = false → .enter x args ∈ events → ∀ {i : Nat} {u : Site σ},
    r.sites[i]? = some u → u.callee.id = x → s.grantedSites.test i = true →
    ∃ given, .perform i given ∈ events ∧ u.Passes s i target given args
  /-- the body of a nonexclusive method with inputs gets the early arguments of the driving call
  site -/
  shared : ∀ {x : Nat} {target : Method σ} {args : Record}, r.method? x = some target →
    target.nonexclusive = true → target.input.isEmpty = false → .enter x args ∈ events →
    ∃ driver, s.selectedOf x = some driver ∧ s.grantedSites.test driver = true ∧
      s.earlyOf driver = some args
  /-- a granted method returns one result, and all its callers receive it -/
  results : ∀ {x : Nat}, (r.method? x).isSome → s.granted.test x = true → ∃ result,
    (∀ other, .leave x other ∈ events ↔ other = result) ∧
      ∀ {i : Nat} {u : Site σ}, r.sites[i]? = some u → u.callee.id = x →
        s.grantedSites.test i = true → ∀ other, .answer i other ∈ events ↔ other = result

namespace Machine

variable {m : Machine σ} {plan : Plan} {s : Schedule}

/-! ## One call -/

/-- A call that succeeds keeps the account sound: what it starts is finished when it is done. -/
theorem sound_of_answerTraced (h : m.design.main.Elaborated plan)
    (hearly : ∀ {i : Nat} {u : Site σ}, m.design.main.sites[i]? = some u →
      s.grantedSites.test i = true → u.arguments.isSome = true → ∃ known, s.earlyOf i = some known)
    (hbodies : m.design.main.OnlyPerforms) (started : List Nat) :
    ∀ (fuel caller : Nat) (stack : List Nat) (callee : ActionRef) (given : Option Record)
      (e : Body.Effects σ Account) (result : Record) (e' : Body.Effects σ Account),
      (∀ x, m.design.main.Busy stack x → m.design.main.Reaches x caller) →
      e.calls.Sound m.design.main s stack started →
      m.answerTraced s fuel caller (.perform callee given) e = .ok (result, e') →
      e'.calls.Sound m.design.main s stack started := by
  intro fuel
  induction fuel with
  | zero =>
    intro caller stack callee given e result e' _ _ hrun
    cases hrun
  | succ fuel ih =>
    intro caller stack callee given e result e' hstack hsound hrun
    unfold answerTraced at hrun
    obtain ⟨⟨i, u⟩, hclaim, hrun⟩ := bind_eq_ok.mp hrun
    obtain ⟨hu, rfl, rfl, hgranted, hfresh⟩ := claimSite_eq_ok hclaim
    have hcall : m.design.main.Calls u.caller u.callee.id := ⟨i, u, hu, rfl, rfl⟩
    -- the callee is not running: it would reach its own caller
    have hidle : ¬ m.design.main.Busy stack u.callee.id := fun hbusy =>
      h.acyclic.not_reaches hcall (hstack _ hbusy)
    simp only at hrun
    split at hrun
    · cases hrun
    · rename_i target htarget
      rw [h.method?_callee hu] at htarget
      obtain ⟨passed, hpassed, hrun⟩ := bind_eq_ok.mp hrun
      have hpasses := passes_of_passedArguments (hearly hu hgranted) hpassed
      split at hrun
      · rename_i known hknown
        split at hrun
        · obtain ⟨rfl, rfl⟩ := Prod.mk.inj (Except.ok.inj hrun)
          exact hsound.reuse hu hgranted hfresh hknown
        · cases hrun
      · rename_i hnone
        obtain ⟨_, -, hrun⟩ := bind_eq_ok.mp hrun
        split at hrun
        · cases hrun
        · rename_i body hbody
          obtain ⟨⟨returned, e''⟩, hbodyrun, hrun⟩ := bind_eq_ok.mp hrun
          have hinside := hsound.enter hu hgranted hfresh htarget hpasses hnone hidle
          have hdeeper : ∀ x, m.design.main.Busy (i :: stack) x →
              m.design.main.Reaches x u.callee.id := by
            intro x hx
            rcases (Registry.busy_cons hu).mp hx with rfl | hx
            · exact .refl
            · exact (hstack x hx).tail hcall
          have hafter := Body.run_keeps
            (P := fun a => a.Sound m.design.main s (i :: stack) started)
            (fun callee' given' e₁ result' e₂ he₁ hanswer =>
              ih u.callee.id (i :: stack) callee' given' e₁ result' e₂ hdeeper he₁ hanswer)
            (hbodies.method htarget hbody _) hinside hbodyrun
          simp only at hrun
          split at hrun
          · obtain ⟨rfl, rfl⟩ := Prod.mk.inj (Except.ok.inj hrun)
            exact hafter.leave hu hidle (Registry.lt_length_of_method? (h.callee_method hu))
          · cases hrun

/-! ## All transactions -/

theorem sound_of_foldlM (h : m.design.main.Elaborated plan)
    (hearly : ∀ {i : Nat} {u : Site σ}, m.design.main.sites[i]? = some u →
      s.grantedSites.test i = true → u.arguments.isSome = true → ∃ known, s.earlyOf i = some known)
    (hbodies : m.design.main.OnlyPerforms) :
    ∀ (order started : List Nat) (e e' : Body.Effects σ Account),
      e.calls.Sound m.design.main s [] started →
      order.foldlM (m.runTransactionTraced s) e = .ok e' →
      e'.calls.Sound m.design.main s [] (started ++ order.filter s.granted.test) := by
  intro order
  induction order with
  | nil =>
    intro started e e' hsound hrun
    obtain rfl := foldlM_nil_eq_ok.mp hrun
    rw [List.filter_nil, List.append_nil]
    exact hsound
  | cons t rest ih =>
    intro started e e' hsound hrun
    obtain ⟨e₁, hfirst, hrest⟩ := foldlM_cons_eq_ok.mp hrun
    unfold runTransactionTraced at hfirst
    split at hfirst
    · rename_i hgranted
      split at hfirst
      · cases hfirst
      · rename_i body hbody
        obtain ⟨txn, htxn, hbody⟩ := Option.bind_eq_some_iff.mp hbody
        obtain ⟨r, hbodyrun, rfl⟩ := map_eq_ok.mp hfirst
        have hafter := Body.run_keeps
          (P := fun a => a.Sound m.design.main s [] (started ++ [t]))
          (fun callee given e₁ result e₂ he₁ hanswer =>
            sound_of_answerTraced h hearly hbodies _ _ t [] callee given e₁ result e₂
              (fun x hx => by
                obtain ⟨i, hi, -⟩ := hx
                cases hi) he₁ hanswer)
          (hbodies.transaction htxn hbody) (hsound.start t) hbodyrun
        rw [List.filter_cons_of_pos hgranted]
        have hrest := ih _ _ _ hafter hrest
        rw [List.append_assoc] at hrest
        exact hrest
    · rename_i hnot
      obtain rfl := Except.ok.inj hfirst
      rw [List.filter_cons_of_neg hnot]
      exact ih _ _ _ hsound hrest

/-! ## What the account says in the end -/

theorem performed_of_checkPerformed {l : Ledger} (h : m.checkPerformed s l = .ok ()) {i : Nat}
    {u : Site σ} (hu : m.design.main.sites[i]? = some u) (hgranted : s.grantedSites.test i = true) :
    l.performed.test i = true := by
  unfold checkPerformed at h
  split at h
  · rename_i hnone
    have htest := List.find?_eq_none.mp hnone (i, u) (Registry.mem_numberedSites.mpr hu)
    simpa [hgranted] using htest
  · cases h

end Machine

/-- The account of an execution that has come to its end. -/
structure Account.Complete (r : Registry σ) (plan : Plan) (s : Schedule) (a : Account) : Prop where
  /-- nothing runs any more -/
  sound : a.Sound r s [] (plan.order.filter s.granted.test)
  /-- granted call sites are performed -/
  performed : ∀ {i : Nat} {u : Site σ}, r.sites[i]? = some u → s.grantedSites.test i = true →
    a.ledger.performed.test i = true

namespace Account.Complete

variable {m : Machine σ} {plan : Plan} {s : Schedule} {a : Account}

theorem mem_performed_iff (ha : a.Complete m.design.main plan s) (hs : m.Schedules plan s) {i : Nat} :
    i ∈ a.performed ↔ s.grantedSites.test i = true := by
  constructor
  · exact ha.sound.granted i
  · intro hgranted
    obtain ⟨u, hu, -⟩ := hs.site.mp hgranted
    exact (ha.sound.performed i).mp (ha.performed hu hgranted)

/-- The callee of a granted call site has returned what the call site received. -/
theorem exists_received (ha : a.Complete m.design.main plan s) (hs : m.Schedules plan s) {i : Nat}
    {u : Site σ} (hu : m.design.main.sites[i]? = some u) (hgranted : s.grantedSites.test i = true) :
    ∃ result, .answer i result ∈ a.events ∧ a.ledger.resultOf u.callee.id = some result := by
  rcases ha.sound.waiting i ((ha.mem_performed_iff hs).mpr hgranted) with ⟨result, hanswer⟩ | hopen
  · obtain ⟨v, hv, hresult⟩ := ha.sound.answered i result hanswer
    obtain rfl : u = v := Option.some.inj (hu.symm.trans hv)
    exact ⟨result, hanswer, hresult⟩
  · cases hopen

theorem mem_entered_iff (ha : a.Complete m.design.main plan s) (h : m.design.main.Elaborated plan)
    (hs : m.Schedules plan s) {x : Nat} : x ∈ a.entered ↔
      ((m.design.main.method? x).isSome && s.granted.test x) = true := by
  rw [Bool.and_eq_true]
  constructor
  · intro hx
    obtain ⟨args, hargs⟩ := Account.mem_entered.mp hx
    obtain ⟨i, u, given, target, passed, hperform, hu, rfl, htarget, -⟩ :=
      ha.sound.driven x args hargs
    have hgranted := ha.sound.granted i (Account.mem_performed.mpr ⟨given, hperform⟩)
    exact ⟨by rw [htarget]; rfl, hs.callee hu hgranted⟩
  · rintro ⟨hx, hgranted⟩
    obtain ⟨i, u, hu, rfl, hi⟩ := hs.exists_site h hx hgranted
    obtain ⟨result, -, hresult⟩ := ha.exists_received hs hu hi
    exact (ha.sound.entered _).mpr (Or.inl (by rw [hresult]; rfl))

/-- An exclusive method runs with what its call site passes: no other call site drives it. -/
theorem exclusive_passes (ha : a.Complete m.design.main plan s) (built : m.design.Built)
    (own : m.design.OwnCallers) (hplan : m.design.main.plan = some plan) (hs : m.Schedules plan s)
    {x i : Nat} {target : Method σ} {args : Record} {u : Site σ}
    (hx : m.design.main.method? x = some target) (hexclusive : target.nonexclusive = false)
    (henter : .enter x args ∈ a.events) (hu : m.design.main.sites[i]? = some u)
    (hux : u.callee.id = x) (hi : s.grantedSites.test i = true) :
    ∃ given, .perform i given ∈ a.events ∧ u.Passes s i target given args := by
  have h := built.elaborated hplan
  have hone := hs.exclusive h
  have hexclusive := (Registry.isExclusive_iff hx).mpr hexclusive
  obtain ⟨j, v, given, target', passed, hperform, hv, hvx, hx', hpasses, rfl⟩ :=
    ha.sound.driven x args henter
  obtain rfl : target = target' := Option.some.inj (hx.symm.trans hx')
  have hj := ha.sound.granted j (Account.mem_performed.mpr ⟨given, hperform⟩)
  obtain rfl : i = j := hone.sites hexclusive hu hv hux hvx hi hj
  obtain rfl : u = v := Option.some.inj (hu.symm.trans hv)
  refine ⟨given, hperform, ?_⟩
  unfold Machine.drivingArguments
  split
  · exact hpasses
  · rename_i driver hselected
    have hsome : (m.design.main.method? x).isSome := by rw [hx]; rfl
    have hgranted : s.granted.test x = true := by
      rw [← hux]
      exact hs.callee hu hi
    obtain ⟨hdriven, w, hw, hwx⟩ := hs.driver_of_selectedOf built own hplan hsome hgranted hselected
    obtain rfl : driver = i := hone.sites hexclusive hw hu (by rw [hwx]) hux hdriven hi
    rw [if_neg (by simp)]
    exact hpasses

/-- A nonexclusive method with inputs runs with the early arguments of the call site that drives it. -/
theorem shared_early (ha : a.Complete m.design.main plan s) (built : m.design.Built)
    (own : m.design.OwnCallers) (hplan : m.design.main.plan = some plan) (hs : m.Schedules plan s)
    {x : Nat} {target : Method σ} {args : Record} (hx : m.design.main.method? x = some target)
    (hshared : target.nonexclusive = true) (hinput : target.input.isEmpty = false)
    (henter : .enter x args ∈ a.events) : ∃ driver, s.selectedOf x = some driver ∧
      s.grantedSites.test driver = true ∧ s.earlyOf driver = some args := by
  have h := built.elaborated hplan
  obtain ⟨j, v, given, target', passed, hperform, hv, rfl, hx', hpasses, rfl⟩ :=
    ha.sound.driven x args henter
  obtain rfl : target = target' := Option.some.inj (hx.symm.trans hx')
  have hsome : (m.design.main.method? v.callee.id).isSome := by rw [hx]; rfl
  have hj := ha.sound.granted j (Account.mem_performed.mpr ⟨given, hperform⟩)
  have hgranted := hs.callee hv hj
  obtain ⟨driver, hselected, hdriven, hargs⟩ :=
    hs.drivingArguments_shared built hplan hv hj hx hshared hinput hpasses
  obtain ⟨-, w, hw, hwx⟩ := hs.driver_of_selectedOf built own hplan hsome hgranted hselected
  have hwtarget : m.design.main.method? w.callee.id = some target := by
    rw [hwx]
    exact hx
  obtain ⟨known, hknown⟩ := hs.exists_earlyOf hw hdriven (h.supplied_of_shared hw hwtarget hshared hinput)
  refine ⟨driver, hselected, hdriven, ?_⟩
  rw [hargs, hknown, Option.getD_some]

/-- A granted method has returned one result, and all its callers have received it. -/
theorem exists_result (ha : a.Complete m.design.main plan s) (h : m.design.main.Elaborated plan)
    (hs : m.Schedules plan s) {x : Nat} (hx : (m.design.main.method? x).isSome)
    (hgranted : s.granted.test x = true) : ∃ result,
      (∀ other, .leave x other ∈ a.events ↔ other = result) ∧
        ∀ {i : Nat} {u : Site σ}, m.design.main.sites[i]? = some u → u.callee.id = x →
          s.grantedSites.test i = true → ∀ other, .answer i other ∈ a.events ↔ other = result := by
  obtain ⟨i, u, hu, rfl, hi⟩ := hs.exists_site h hx hgranted
  obtain ⟨result, -, hresult⟩ := ha.exists_received hs hu hi
  refine ⟨result, fun other => ?_, ?_⟩
  · rw [ha.sound.left, hresult, Option.some_inj, eq_comm]
  · intro j v hv hvx hj other
    obtain ⟨received, hanswer, hreceived⟩ := ha.exists_received hs hv hj
    rw [hvx, hresult] at hreceived
    obtain rfl := Option.some.inj hreceived
    constructor
    · intro hother
      obtain ⟨w, hw, hdone⟩ := ha.sound.answered j other hother
      obtain rfl : v = w := Option.some.inj (hv.symm.trans hw)
      rw [hvx, hresult] at hdone
      exact (Option.some.inj hdone).symm
    · rintro rfl
      exact hanswer

theorem executedOnce (ha : a.Complete m.design.main plan s) (built : m.design.Built)
    (own : m.design.OwnCallers) (hplan : m.design.main.plan = some plan) (hs : m.Schedules plan s) :
    s.ExecutedOnce m.design.main plan a.events where
  transactions := ha.sound.started
  methods := fun _ => count_eq_onceIf ha.sound.entered_nodup
    (ha.mem_entered_iff (built.elaborated hplan) hs)
  sites := fun _ => count_eq_onceIf ha.sound.performed_nodup (ha.mem_performed_iff hs)
  exclusive := by
    intro x target args hx hexclusive henter i u hu hux hi
    exact ha.exclusive_passes built own hplan hs hx hexclusive henter hu hux hi
  shared := ha.shared_early built own hplan hs
  results := ha.exists_result (built.elaborated hplan) hs

end Account.Complete

namespace Machine

variable {m : Machine σ} {plan : Plan} {s : Schedule}

/-- The account of transactions that ran one after the other is complete if all granted call sites were
performed. -/
theorem complete_of_foldlM {m' : Machine σ} (h : m.design.main.Elaborated plan)
    (hbodies : m.design.main.OnlyPerforms) (hs : m.Schedules plan s) (hdesign : m'.design = m.design)
    {state : σ} {journal : Journal} {e : Body.Effects σ Account}
    (hfold : plan.order.foldlM (m'.runTransactionTraced s)
      ⟨state, journal, Account.empty m'.design.main.actions.length m'.design.main.sites.length⟩ = .ok e)
    (hchecked : m'.checkPerformed s e.calls.ledger = .ok ()) : e.calls.Complete m.design.main plan s := by
  have hearly : ∀ {i : Nat} {u : Site σ}, m.design.main.sites[i]? = some u →
      s.grantedSites.test i = true → u.arguments.isSome = true →
      ∃ known, s.earlyOf i = some known := hs.exists_earlyOf
  have hstart := Account.Sound.empty m.design.main s
  constructor
  · rw [← hdesign] at h hearly hbodies hstart ⊢
    exact sound_of_foldlM h hearly hbodies plan.order [] _ e hstart hfold
  · intro i u hu hgranted
    rw [← hdesign] at hu
    exact performed_of_checkPerformed hchecked hu hgranted

/-- An execution that completes has done everything that was granted exactly once, and nothing
else. -/
theorem executedOnce_of_execute {m' m'' : Machine σ} (built : m.design.Built)
    (own : m.design.OwnCallers) (hplan : m.design.main.plan = some plan)
    (hbodies : m.design.main.OnlyPerforms) (hs : m.schedule = .ok s) (hdesign : m'.design = m.design)
    (hrun : m'.execute s = .ok m'') :
    ∃ events, m'.executeTraced s = .ok (m'', events) ∧
      s.ExecutedOnce m.design.main plan events := by
  have h := built.elaborated hplan
  have hschedules := schedules_of_schedule h hplan hs
  rw [← executeTraced_fst] at hrun
  obtain ⟨⟨done, events⟩, htraced, rfl⟩ := map_eq_ok.mp hrun
  refine ⟨events, htraced, ?_⟩
  unfold executeTraced at htraced
  rw [hdesign, hplan] at htraced
  simp only at htraced
  split at htraced
  · unfold executeTracedWith at htraced
    obtain ⟨_, -, htraced⟩ := bind_eq_ok.mp htraced
    obtain ⟨e, hfold, htraced⟩ := bind_eq_ok.mp htraced
    obtain ⟨_, hchecked, htraced⟩ := bind_eq_ok.mp htraced
    obtain ⟨e', -, htraced⟩ := bind_eq_ok.mp htraced
    obtain ⟨-, rfl⟩ := Prod.mk.inj (Except.ok.inj htraced)
    have hsame : ({ m' with last := some s } : Machine σ).design = m.design := hdesign
    have hcomplete := complete_of_foldlM h hbodies hschedules hsame hfold hchecked
    exact hcomplete.executedOnce built own hplan hschedules
  · cases htraced

end Machine

namespace Accumulator

theorem onlyPerforms_callEach (ids : List Nat) : (callEach ids).OnlyPerforms := by
  induction ids with
  | nil => trivial
  | cons id rest ih => exact fun _ => ih

theorem onlyPerforms : design.main.OnlyPerforms where
  method := by
    intro id x body hx hbody args
    rcases method_cases hx with ⟨-, rfl⟩ | ⟨-, rfl⟩
    · obtain rfl := Option.some.inj hbody
      exact fun _ => trivial
    · obtain rfl := Option.some.inj hbody
      exact fun _ => trivial
  transaction := by
    intro id t body ht hbody
    rcases transaction_cases ht with ⟨-, hcalls⟩ | ⟨-, hcalls⟩ | ⟨-, hcalls⟩
    all_goals
      obtain rfl := Option.some.inj (hbody.symm.trans hcalls)
      exact onlyPerforms_callEach _

theorem total_eq : (machine.execute schedule).map (fun m => m.state.total) = .ok 6 := by cbv

theorem executedOnce_schedule : machine.schedule = .ok schedule ∧ ∃ m' events,
    machine.execute schedule = .ok m' ∧ machine.executeTraced schedule = .ok (m', events) ∧
      schedule.ExecutedOnce design.main plan events := by
  obtain ⟨m', hm', -⟩ := map_eq_ok.mp total_eq
  obtain ⟨events, htraced, honce⟩ := Machine.executedOnce_of_execute (m := machine) built ownCallers
    plan_eq onlyPerforms schedule_eq rfl hm'
  exact ⟨schedule_eq, m', events, hm', htraced, honce⟩

end Accumulator

end GuardedActions
