import GuardedActions.Proofs.Execution.Telling

/-!
# Playing a story

A story in which everything granted plays its part can be played in every order.  A write that an action
makes is one of those that all actions together can make, and a call finds its call site unused; the callee
has the result of the story already, or its body runs, by induction on the nesting of bodies.
-/

set_option autoImplicit false

namespace GuardedActions

variable {L : Layout} [DecidableEq L.Name] [DecidableEq L.Table]

namespace Machine

/-- Everything granted plays its part in a story, and all acts together can be done. -/
structure Rehearsed (m : Machine (Storage L)) (s : Schedule) (y : Story L) : Prop where
  /-- granted transactions -/
  carries : ∀ {t : Nat}, (m.design.main.transaction? t).isSome → s.granted.test t = true →
    y.Carries m s t
  /-- granted methods -/
  plays : ∀ {x : Nat} {target : Method (Storage L)}, m.design.main.method? x = some target →
    s.granted.test x = true → y.Plays m s x target
  /-- granted call sites are performed -/
  calls : ∀ {i : Nat} {u : Site (Storage L)}, m.design.main.sites[i]? = some u →
    s.grantedSites.test i = true → ∃ (k : Nat) (given : Option Record),
      (y.acts m u.caller)[k]? = some (.call u.callee given)
  /-- all acts together can be done -/
  recorded : ∃ (full : Nat → Nat) (x : Storage L), y.Recorded m full x ∧
    ∀ b, s.granted.test b = true → full b = (y.acts m b).length

variable {m : Machine (Storage L)} {plan : Plan} {s : Schedule} {y : Story L}
  {stack started : List Nat} {pc : Nat → Nat} {b : Nat} {e : Body.Effects (Storage L) Account}

/-- An action makes its next write. -/
theorem Rehearsed.exists_write (hr : m.Rehearsed s y) (h : m.Scripted plan s y)
    (htold : m.Told s y stack started pc e) (hb : s.granted.test b = true) {w : Write L}
    (hact : (y.acts m b)[pc b]? = some (.write w)) : ∃ x, e.state.write w = .ok x := by
  obtain ⟨full, x, hrecorded, hfull⟩ := hr.recorded
  refine htold.recorded.exists_write hrecorded (fun c => ?_) hact ?_
  · by_cases hc : e.calls.Begun c
    · rw [hfull c (htold.granted h.callee hc)]
      exact htold.within c
    · rw [htold.untouched c hc]
      exact Nat.zero_le _
  · rw [hfull b hb]
    exact (List.getElem?_eq_some_iff.mp hact).1

/-! ## One body -/

/-- A program whose calls are answered as the story has it runs to its end. -/
theorem Rehearsed.exists_run (hr : m.Rehearsed s y) (h : m.Scripted plan s y) {fuel : Nat}
    (hstage : m.design.main.OnStage stack started b) (hb : s.granted.test b = true)
    (hallows : ∀ k, y.Allows m s b k)
    (hcall : ∀ (callee : ActionRef) (given : Option Record) (pc : Nat → Nat)
      (e : Body.Effects (Storage L) Account), m.Told s y stack started pc e →
      (y.acts m b)[pc b]? = some (.call callee given) →
      ∃ e', m.answerTraced s fuel b (.perform callee given) e = .ok (y.results callee.id, e') ∧
        m.Leads s y stack started b pc e e' (pc b + 1))
    {α : Type} (p : Program L α) :
    ∀ {pc : Nat → Nat} {e : Body.Effects (Storage L) Account} {r : α},
      m.Told s y stack started pc e → (y.acts m b).drop (pc b) = p.acts y.seen y.results →
      p.outcome y.seen y.results = some r →
      ∃ e', p.body.run (m.bodyScene b) (m.answerTraced s fuel b) e = .ok (r, e') ∧
        m.Leads s y stack started b pc e e' (y.acts m b).length := by
  induction p with
  | done result =>
    intro pc e r htold hdrop houtcome
    obtain rfl := Option.some.inj houtcome
    exact ⟨e, rfl, pc, htold, .refl m s y b pc _, htold.eq_length hdrop⟩
  | fail fault =>
    intro pc e r _ _ houtcome
    cases houtcome
  | look next ih =>
    intro pc e r htold hdrop houtcome
    have hseen : e.state.committed = y.seen := htold.recorded.committed_eq.trans h.seen.symm
    obtain ⟨e', hrun, hleads⟩ := ih y.seen htold hdrop houtcome
    rw [← hseen] at hrun
    exact ⟨e', hrun, hleads⟩
  | write w next ih =>
    intro pc e r htold hdrop houtcome
    obtain ⟨hact, hrest⟩ := act_of_drop hdrop
    obtain ⟨x, hw⟩ := hr.exists_write h htold hb hact
    obtain ⟨e', hrun, pc', htold', honward, hcount⟩ :=
      ih (htold.write hstage hact hw) hrest houtcome
    refine ⟨e', ?_, pc', htold', .trans (.advance (hallows _) (fun _ hc => hc) rfl) honward, hcount⟩
    unfold Program.body Body.run
    simp only
    rw [hw]
    exact hrun
  | note text next ih =>
    intro pc e r htold hdrop houtcome
    exact ih (e := { e with journal := e.journal.note text }) { htold with } hdrop houtcome
  | report entry next ih =>
    intro pc e r htold hdrop houtcome
    exact ih (e := { e with journal := e.journal.report entry }) { htold with } hdrop houtcome
  | call callee given next ih =>
    intro pc e r htold hdrop houtcome
    obtain ⟨hact, hrest⟩ := act_of_drop hdrop
    obtain ⟨e₁, hanswer, pc₁, htold₁, honward₁, hcount₁⟩ := hcall callee given pc e htold hact
    have hrest : (y.acts m b).drop (pc₁ b) =
        (next (y.results callee.id)).acts y.seen y.results := by
      rw [hcount₁, ← Story.advance_self pc b]
      exact hrest
    obtain ⟨e', hrun, pc', htold', honward, hcount⟩ := ih _ htold₁ hrest houtcome
    refine ⟨e', ?_, pc', htold', honward₁.trans honward, hcount⟩
    unfold Program.body Body.run
    rw [hanswer]
    exact hrun

/-! ## One call -/

/-- There are no more open call sites than call sites. -/
theorem Told.stack_length_le (h : m.Told s y stack started pc e) :
    stack.length ≤ m.design.main.sites.length := by
  have hsub : stack ⊆ List.range m.design.main.sites.length := by
    intro i hi
    have hlt := Mask.lt_size_of_test ((h.sound.performed i).mpr (h.stack_performed i hi))
    rw [h.sound.performed_size] at hlt
    exact List.mem_range.mpr hlt
  have hle := (h.stack_nodup.subperm hsub).length_le
  rw [List.length_range] at hle
  exact hle

/-- The call site of the next call was not performed. -/
theorem Told.fresh (h : m.Told s y stack started pc e) {i : Nat} {u : Site (Storage L)}
    (hu : m.design.main.sites[i]? = some u)
    (hfirst : ∀ k < pc u.caller, ∀ other, (y.acts m u.caller)[k]? ≠ some (.call u.callee other)) :
    e.calls.ledger.performed.test i = false := by
  cases htest : e.calls.ledger.performed.test i with
  | false => rfl
  | true =>
    obtain ⟨k, given, hk, hact⟩ := (h.performed hu).mp ((h.sound.performed i).mp htest)
    exact absurd hact (hfirst k hk given)

/-- The result of an exclusive method is not there before its call. -/
theorem Told.nonexclusive_of_result (h : m.Told s y stack started pc e) (hm : m.Scripted plan s y)
    {i : Nat} {u : Site (Storage L)} {target : Method (Storage L)}
    (hu : m.design.main.sites[i]? = some u) (hgranted : s.grantedSites.test i = true)
    (hfresh : e.calls.ledger.performed.test i = false)
    (htarget : m.design.main.method? u.callee.id = some target)
    (hresult : (e.calls.ledger.resultOf u.callee.id).isSome = true) :
    target.nonexclusive = true := by
  by_contra hexclusive
  have hexclusive := (Registry.isExclusive_iff htarget).mpr (Bool.not_eq_true _ ▸ hexclusive)
  obtain ⟨args, hargs⟩ := Account.mem_entered.mp ((h.sound.entered _).mpr (Or.inl hresult))
  obtain ⟨j, v, given, -, -, hperform, hv, hvx, -⟩ := h.sound.driven _ args hargs
  have hj := Account.mem_performed.mpr ⟨given, hperform⟩
  obtain rfl : j = i := hm.exclusive.sites hexclusive hv hu hvx rfl (h.sound.granted j hj) hgranted
  rw [(h.sound.performed j).mpr hj] at hfresh
  cases hfresh

/-- Every call of the story is answered as the story has it. -/
theorem Rehearsed.exists_answerTraced (hr : m.Rehearsed s y) (h : m.Scripted plan s y)
    (started : List Nat) :
    ∀ (fuel caller : Nat) (stack : List Nat) (callee : ActionRef) (given : Option Record)
      (pc : Nat → Nat) (e : Body.Effects (Storage L) Account),
      m.design.main.sites.length + 1 ≤ fuel + stack.length →
      (∀ x, m.design.main.Busy stack x → m.design.main.Reaches x caller) →
      m.design.main.OnStage stack started caller → (∀ k, y.Allows m s caller k) →
      m.Told s y stack started pc e → (y.acts m caller)[pc caller]? = some (.call callee given) →
      ∃ e', m.answerTraced s fuel caller (.perform callee given) e =
          .ok (y.results callee.id, e') ∧
        m.Leads s y stack started caller pc e e' (pc caller + 1) := by
  intro fuel
  induction fuel with
  | zero =>
    intro caller stack callee given pc e hfuel _ _ _ htold _
    have hle := htold.stack_length_le
    omega
  | succ fuel ih =>
    intro caller stack callee given pc e hfuel hstack hstage hallows htold hact
    obtain ⟨⟨i, u, target, passed, rfl, rfl, hfits⟩, hfirst⟩ := hallows _ hact
    have hu := hfits.site
    have hfresh := htold.fresh hu hfirst
    have ho : m.Opens s e.calls.ledger i u target given passed :=
      ⟨hfits.found, hfits.granted, hfresh, hfits.known, hfits.passes⟩
    have hdue : m.Due s y stack started pc e.calls i u given :=
      ⟨hu, hstage, hact, hfits.granted, hfresh, hallows _⟩
    have htarget := (h.elaborated.method?_callee hu).symm.trans hfits.known
    have hidle := h.elaborated.acyclic.not_busy_callee hu hstack
    cases hresult : e.calls.ledger.resultOf u.callee.id with
    | some result =>
      obtain rfl : result = y.results u.callee.id :=
        htold.tells _ ((htold.sound.left _ _).mpr hresult)
      have hshared := htold.nonexclusive_of_result h hu hfits.granted hfresh htarget
        (by rw [hresult]; rfl)
      exact ⟨_, ho.answerTraced_eq (.again hresult hshared), hdue.again htold h.elaborated hresult⟩
    | none =>
      -- the body of the callee runs, one level deeper
      have hgranted := h.callee hu hfits.granted
      have hplays := hr.plays htarget hgranted
      have hpasses := passes_of_passedArguments (h.early hu hfits.granted) hfits.passes
      have hsome : (m.design.main.method? u.callee.id).isSome := by rw [htarget]; rfl
      obtain ⟨body, hbody⟩ := h.elaborated.exists_methodBody htarget
      have hchecked : m.checkRun (m.design.nameOf u.callee) target
          (drivingArguments s u.callee.id target i passed) e.state = .ok () := by
        rw [hfits.driven, h.elaborated.nameOf_callee hu,
          h.checked htarget htold.recorded.committed_eq]
        exact hplays.checked
      have hinside := hdue.enter htold h.elaborated htarget hpasses hfits.driven hresult hidle
      obtain ⟨-, hacts⟩ := hdue.drop_acts htold hsome hresult hidle
      obtain ⟨e₂, hrun, hleads⟩ := hr.exists_run h (Registry.onStage_callee hu started) hgranted
        hplays.allows (fun callee' given' pc' e₃ htold' hact' =>
          ih u.callee.id (i :: stack) callee' given' pc' e₃ (by
            rw [List.length_cons]
            omega) (fun x hx => Registry.reaches_of_busy_cons hu hstack hx)
            (Registry.onStage_callee hu started) hplays.allows htold' hact')
        _ hinside hacts hplays.outcome
      rw [← h.runs.method htarget hbody, ← hfits.driven] at hrun
      exact ⟨_, ho.answerTraced_eq (.first hresult hchecked hbody hrun hplays.shape),
        hdue.leave htold h.elaborated htarget hresult hidle hplays hleads⟩

/-! ## All transactions -/

/-- Transactions run to their ends in every order. -/
theorem Rehearsed.exists_foldlM (hr : m.Rehearsed s y) (h : m.Scripted plan s y) :
    ∀ (order started : List Nat) (pc : Nat → Nat) (e : Body.Effects (Storage L) Account),
      order.Nodup → (∀ t ∈ order, (m.design.main.transaction? t).isSome ∧ t ∉ started) →
      m.Told s y [] started pc e → ∃ e' pc', order.foldlM (m.runTransactionTraced s) e = .ok e' ∧
        m.Told s y [] (started ++ order.filter s.granted.test) pc' e' ∧
        m.Swept s y order pc pc' e.calls e'.calls := by
  intro order
  induction order with
  | nil =>
    intro started pc e _ _ htold
    refine ⟨e, pc, foldlM_nil_eq_ok.mpr rfl, ?_, .nil m s y pc _⟩
    rw [List.filter_nil, List.append_nil]
    exact htold
  | cons t rest ih =>
    intro started pc e hnodup horder htold
    obtain ⟨hnew, hnodup⟩ := List.nodup_cons.mp hnodup
    obtain ⟨ht, hfresh⟩ := horder t List.mem_cons_self
    by_cases hgranted : s.granted.test t = true
    · have hnot := htold.not_begun_transaction ht hfresh
      obtain ⟨hstage, hzero, hacts⟩ := htold.ready ht hfresh
      have hcarries := hr.carries ht hgranted
      obtain ⟨txn, htxn⟩ := Option.isSome_iff_exists.mp ht
      obtain ⟨body, hbody⟩ := h.elaborated.exists_transactionBody htxn
      obtain ⟨e₁, hrun, pc₁, htold₁, honward, hdone⟩ := hr.exists_run h hstage hgranted
        hcarries.allows (fun callee given pc' e₃ htold' hact =>
          hr.exists_answerTraced h (started ++ [t]) m.bodyDepth t [] callee given pc' e₃ (by
            unfold bodyDepth
            rw [List.length_nil]
            omega) (fun x hx => absurd hx (Registry.not_busy_nil x)) hstage hcarries.allows
            htold' hact)
        _ (htold.start ht hgranted hfresh) hacts hcarries.outcome
      obtain ⟨e', pc', hrest, htold', hswept⟩ :=
        ih (started ++ [t]) pc₁ e₁ hnodup (fresh_of_cons hnew horder) htold₁
      refine ⟨e', pc', foldlM_cons_eq_ok.mpr ⟨e₁, ?_, hrest⟩, ?_,
        hswept.cons honward hnot hzero hdone hcarries.outcome⟩
      · unfold runTransactionTraced
        rw [if_pos hgranted, htxn, Option.bind_some, hbody]
        simp only
        rw [h.runs.transaction htxn hbody, hrun]
        rfl
      · rw [List.filter_cons_of_pos hgranted]
        rw [List.append_assoc] at htold'
        exact htold'
    · obtain ⟨e', pc', hrest, htold', hswept⟩ := ih started pc e hnodup
        (fun u hu => horder u (List.mem_cons_of_mem _ hu)) htold
      refine ⟨e', pc', foldlM_cons_eq_ok.mpr ⟨e, if_neg hgranted, hrest⟩, ?_, hswept.skip hgranted⟩
      rw [List.filter_cons_of_neg hgranted]
      exact htold'

end Machine

end GuardedActions
