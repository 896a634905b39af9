import GuardedActions.Proofs.Execution.Telling

/-!
# The story of an execution

An execution that completes is told by the story of the arguments that its methods got and the results
that they returned.  Bodies have done what their programs do when their calls have these results, and all
that they have done goes through in every other execution of the story.
-/

set_option autoImplicit false

namespace GuardedActions

variable {L : Layout}

/-- In a list without repetitions of some attribute, the attribute tells elements apart. -/
theorem eq_of_nodup_filterMap {α β : Type} {f : α → Option β} {l : List α}
    (h : (l.filterMap f).Nodup) {a b : α} {c : β} (ha : a ∈ l) (hb : b ∈ l) (hfa : f a = some c)
    (hfb : f b = some c) : a = b := by
  induction l with
  | nil => cases ha
  | cons x l ih =>
    have hmem : ∀ {z}, z ∈ l → f z = some c → c ∈ l.filterMap f := fun hz hfz =>
      List.mem_filterMap.mpr ⟨_, hz, hfz⟩
    cases hx : f x with
    | none =>
      rw [List.filterMap_cons_none hx] at h
      have hne : ∀ {z}, f z = some c → z ≠ x := by
        rintro z hz rfl
        rw [hz] at hx
        cases hx
      exact ih h ((List.mem_cons.mp ha).resolve_left (hne hfa))
        ((List.mem_cons.mp hb).resolve_left (hne hfb))
    | some d =>
      rw [List.filterMap_cons_some hx] at h
      obtain ⟨hnew, hnodup⟩ := List.nodup_cons.mp h
      have hout : ∀ {z}, z ∈ l → f z = some c → f x ≠ some c := by
        intro z hz hfz hxc
        rw [hx] at hxc
        exact hnew (Option.some.inj hxc ▸ hmem hz hfz)
      rcases List.mem_cons.mp ha with rfl | hal
      · rcases List.mem_cons.mp hb with rfl | hbl
        · rfl
        · exact absurd hfa (hout hbl hfb)
      · rcases List.mem_cons.mp hb with rfl | hbl
        · exact absurd hfb (hout hal hfa)
        · exact ih hnodup hal hbl

/-- A story has the arguments that methods got, and the results that they returned. -/
structure Story.Agrees (y : Story L) (events : List Event) : Prop where
  /-- arguments -/
  enter : ∀ {x : Nat} {args : Record}, .enter x args ∈ events → args = y.args x
  /-- results -/
  leave : ∀ {x : Nat} {result : Record}, .leave x result ∈ events → result = y.results x

theorem Story.Agrees.of_subset {y : Story L} {events events' : List Event} (h : y.Agrees events')
    (hsub : ∀ ev ∈ events, ev ∈ events') : y.Agrees events :=
  ⟨fun hev => h.enter (hsub _ hev), fun hev => h.leave (hsub _ hev)⟩

/-- No body starts twice, so the events say with which arguments it ran. -/
theorem Account.Sound.enter_unique {σ : Type} {r : Registry σ} {s : Schedule}
    {stack started : List Nat} {a : Account} (h : a.Sound r s stack started) {x : Nat}
    {args args' : Record} (henter : .enter x args ∈ a.events) (henter' : .enter x args' ∈ a.events) :
    args = args' := by
  have hnodup := h.entered_nodup
  unfold Account.entered at hnodup
  have heq := eq_of_nodup_filterMap hnodup henter henter' rfl rfl
  exact (Event.enter.inj heq).2

/-- Every account has a story. -/
theorem Account.Sound.exists_story {r : Registry (Storage L)} {s : Schedule}
    {stack started : List Nat} {a : Account} (h : a.Sound r s stack started) (ps : Programs L)
    (seen : Committed L) : ∃ y : Story L, y.programs = ps ∧ y.seen = seen ∧ y.Agrees a.events := by
  classical
  let args : Nat → Record := fun x =>
    if hx : ∃ args, .enter x args ∈ a.events then hx.choose else Record.empty
  refine ⟨⟨ps, seen, args, fun x => (a.ledger.resultOf x).getD Record.empty⟩, rfl, rfl, ?_, ?_⟩
  · intro x given henter
    have hx : ∃ args, .enter x args ∈ a.events := ⟨given, henter⟩
    show given = args x
    rw [show args x = hx.choose from dif_pos hx]
    exact h.enter_unique henter hx.choose_spec
  · intro x result hleave
    show result = (a.ledger.resultOf x).getD Record.empty
    rw [(h.left x result).mp hleave, Option.getD_some]

namespace Machine

variable [DecidableEq L.Name] [DecidableEq L.Table] {m : Machine (Storage L)} {plan : Plan}
  {s : Schedule} {y : Story L}

/-! ## One body -/

/-- A program that runs to its end does what the story has for it. -/
theorem leads_of_run (h : m.Scripted plan s y) {fuel b : Nat} {stack started : List Nat}
    (hstage : m.design.main.OnStage stack started b)
    (hcall : ∀ (callee : ActionRef) (given : Option Record) (pc : Nat → Nat)
      (e : Body.Effects (Storage L) Account) (result : Record)
      (e' : Body.Effects (Storage L) Account), m.Told s y stack started pc e →
      (y.acts m b)[pc b]? = some (.call callee given) →
      m.answerTraced s fuel b (.perform callee given) e = .ok (result, e') →
      y.Agrees e'.calls.events → result = y.results callee.id ∧
        m.Leads s y stack started b pc e e' (pc b + 1))
    {α : Type} (p : Program L α) :
    ∀ {pc : Nat → Nat} {e e' : Body.Effects (Storage L) Account} {r : α},
      m.Told s y stack started pc e → (y.acts m b).drop (pc b) = p.acts y.seen y.results →
      p.body.run (m.bodyScene b) (m.answerTraced s fuel b) e = .ok (r, e') →
      y.Agrees e'.calls.events → p.outcome y.seen y.results = some r ∧
        m.Leads s y stack started b pc e e' (y.acts m b).length := by
  induction p with
  | done result =>
    intro pc e e' r htold hdrop hrun _
    obtain ⟨rfl, rfl⟩ := Prod.mk.inj (Except.ok.inj hrun)
    exact ⟨rfl, pc, htold, .refl m s y b pc _, htold.eq_length hdrop⟩
  | fail fault =>
    intro pc e e' r _ _ hrun _
    cases hrun
  | look next ih =>
    intro pc e e' r htold hdrop hrun hagrees
    have hseen : e.state.committed = y.seen := htold.recorded.committed_eq.trans h.seen.symm
    have hrun : (next e.state.committed).body.run (m.bodyScene b) (m.answerTraced s fuel b) e =
      .ok (r, e') := hrun
    rw [hseen] at hrun
    exact ih y.seen htold hdrop hrun hagrees
  | write w next ih =>
    intro pc e e' r htold hdrop hrun hagrees
    unfold Program.body Body.run at hrun
    simp only at hrun
    split at hrun
    · rename_i x hw
      obtain ⟨hact, hrest⟩ := act_of_drop hdrop
      obtain ⟨houtcome, pc', htold', honward, hcount⟩ :=
        ih (htold.write hstage hact hw) hrest hrun hagrees
      refine ⟨houtcome, pc', htold', .trans (.advance ?_ (fun _ hc => hc) rfl) honward, hcount⟩
      intro callee given hcall'
      rw [hact] at hcall'
      cases hcall'
    · cases hrun
  | note text next ih =>
    intro pc e e' r htold hdrop hrun hagrees
    exact ih (e := { e with journal := e.journal.note text }) { htold with } hdrop hrun hagrees
  | report entry next ih =>
    intro pc e e' r htold hdrop hrun hagrees
    exact ih (e := { e with journal := e.journal.report entry }) { htold with } hdrop hrun hagrees
  | call callee given next ih =>
    intro pc e e' r htold hdrop hrun hagrees
    unfold Program.body Body.run at hrun
    split at hrun
    · cases hrun
    · rename_i result e₁ hanswer
      obtain ⟨hact, hrest⟩ := act_of_drop hdrop
      have hkept := mem_events_of_run h.elaborated h.runs.onlyPerforms
        (Program.onlyPerforms_body _) hrun
      obtain ⟨rfl, pc₁, htold₁, honward₁, hcount₁⟩ :=
        hcall callee given pc e result e₁ htold hact hanswer (hagrees.of_subset hkept)
      have hrest : (y.acts m b).drop (pc₁ b) =
          (next (y.results callee.id)).acts y.seen y.results := by
        rw [hcount₁, ← Story.advance_self pc b]
        exact hrest
      obtain ⟨houtcome, pc', htold', honward, hcount⟩ := ih _ htold₁ hrest hrun hagrees
      exact ⟨houtcome, pc', htold', honward₁.trans honward, hcount⟩

/-! ## One call -/

/-- A call that is answered is what the story has for its caller. -/
theorem leads_of_answerTraced (h : m.Scripted plan s y) (started : List Nat) :
    ∀ (fuel caller : Nat) (stack : List Nat) (callee : ActionRef) (given : Option Record)
      (pc : Nat → Nat) (e : Body.Effects (Storage L) Account) (result : Record)
      (e' : Body.Effects (Storage L) Account),
      (∀ x, m.design.main.Busy stack x → m.design.main.Reaches x caller) →
      m.design.main.OnStage stack started caller → m.Told s y stack started pc e →
      (y.acts m caller)[pc caller]? = some (.call callee given) →
      m.answerTraced s fuel caller (.perform callee given) e = .ok (result, e') →
      y.Agrees e'.calls.events → result = y.results callee.id ∧
        m.Leads s y stack started caller pc e e' (pc caller + 1) := by
  intro fuel
  induction fuel with
  | zero =>
    intro caller stack callee given pc e result e' _ _ _ _ hrun
    cases hrun
  | succ fuel ih =>
    intro caller stack callee given pc e result e' hstack hstage htold hact hrun hagrees
    obtain ⟨i, u, target, passed, rfl, rfl, ho, hanswer⟩ := answered_of_answerTraced hrun
    have hu := (Registry.findSite?_eq_some ho.found).1
    have htarget := (h.elaborated.method?_callee hu).symm.trans ho.known
    have hpasses := passes_of_passedArguments (h.early hu ho.granted) ho.passed
    have hidle := h.elaborated.acyclic.not_busy_callee hu hstack
    have hdue : drivingArguments s u.callee.id target i passed = y.args u.callee.id →
        m.Due s y stack started pc e.calls i u given := fun hdriven =>
      ⟨hu, hstage, hact, ho.granted, ho.fresh,
        htold.allows hact ⟨ho.found, ho.granted, ho.known, ho.passed, hdriven⟩ ho.fresh⟩
    cases hanswer with
    | again known shared =>
      have hleft := (htold.sound.left _ _).mpr known
      obtain rfl : result = y.results u.callee.id := hagrees.leave (by simp [hleft])
      -- the call site that ran the body passed what leads to the same arguments
      obtain ⟨args, henter⟩ := Account.mem_entered.mp
        ((htold.sound.entered u.callee.id).mpr (Or.inl (by rw [known]; rfl)))
      obtain ⟨j, v, given', target', passed', hperform, hv, hvu, htarget', hpasses', rfl⟩ :=
        htold.sound.driven _ _ henter
      obtain rfl : target = target' := Option.some.inj (htarget.symm.trans htarget')
      have hgranted' := htold.sound.granted j (Account.mem_performed.mpr ⟨given', hperform⟩)
      have hdriven : drivingArguments s u.callee.id target i passed = y.args u.callee.id := by
        rw [h.shared hu hv hvu.symm ho.granted hgranted' htarget shared hpasses hpasses', hvu]
        exact htold.tells _ henter
      exact ⟨rfl, (hdue hdriven).again htold h.elaborated known⟩
    | first unknown checked defined ran fits =>
      rename_i body e₂
      have hagrees₂ : y.Agrees e₂.calls.events := hagrees.of_subset fun ev hev => by simp [hev]
      obtain rfl : result = y.results u.callee.id := hagrees.leave (by simp)
      have hdriven : drivingArguments s u.callee.id target i passed = y.args u.callee.id :=
        hagrees₂.enter (mem_events_of_run h.elaborated h.runs.onlyPerforms
          (h.runs.onlyPerforms.method htarget defined _) ran _ (by simp))
      have hinside := (hdue hdriven).enter htold h.elaborated htarget hpasses hdriven unknown hidle
      have hsome : (m.design.main.method? u.callee.id).isSome := by rw [htarget]; rfl
      obtain ⟨hzero, hacts⟩ := (hdue hdriven).drop_acts htold hsome unknown hidle
      rw [h.runs.method htarget defined, hdriven] at ran
      obtain ⟨houtcome, hleads⟩ := leads_of_run h (Registry.onStage_callee hu started)
        (fun callee' given' pc' e₃ result' e₄ htold' hact' hrun' hagrees' =>
          ih u.callee.id (i :: stack) callee' given' pc' e₃ result' e₄
            (fun x hx => Registry.reaches_of_busy_cons hu hstack hx)
            (Registry.onStage_callee hu started) htold' hact' hrun' hagrees')
        _ hinside hacts ran hagrees₂
      have hplays : y.Plays m s u.callee.id target := by
        obtain ⟨pc', -, honward, hcount⟩ := hleads
        refine ⟨?_, honward.allows_all hzero hcount, houtcome, fits⟩
        rw [← h.checked htarget htold.recorded.committed_eq, ← hdriven,
          ← h.elaborated.nameOf_callee hu]
        exact checked
      exact ⟨rfl, (hdue hdriven).leave htold h.elaborated htarget unknown hidle hplays hleads⟩

/-! ## All transactions -/

theorem mem_events_of_foldlM (h : m.Scripted plan s y) {order : List Nat}
    {e e' : Body.Effects (Storage L) Account}
    (hrun : order.foldlM (m.runTransactionTraced s) e = .ok e') :
    ∀ ev ∈ e.calls.events, ev ∈ e'.calls.events := by
  intro ev hev
  refine foldlM_induction (P := fun e => ev ∈ e.calls.events) ?_ hev hrun
  intro e₁ t _ e₂ hev₁ hstep
  unfold runTransactionTraced at hstep
  split at hstep
  · split at hstep
    · cases hstep
    · rename_i body hbody
      obtain ⟨txn, htxn, hbody⟩ := Option.bind_eq_some_iff.mp hbody
      obtain ⟨r, hbodyrun, rfl⟩ := map_eq_ok.mp hstep
      exact mem_events_of_run h.elaborated h.runs.onlyPerforms
        (h.runs.onlyPerforms.transaction htxn hbody) hbodyrun ev (by simp [hev₁])
  · obtain rfl := Except.ok.inj hstep
    exact hev₁

/-- Transactions that run to their ends do what the story has for them. -/
theorem swept_of_foldlM (h : m.Scripted plan s y) :
    ∀ (order started : List Nat) (pc : Nat → Nat) (e e' : Body.Effects (Storage L) Account),
      order.Nodup → (∀ t ∈ order, (m.design.main.transaction? t).isSome ∧ t ∉ started) →
      m.Told s y [] started pc e → order.foldlM (m.runTransactionTraced s) e = .ok e' →
      y.Agrees e'.calls.events → ∃ pc', m.Told s y [] (started ++ order.filter s.granted.test) pc' e' ∧
        m.Swept s y order pc pc' e.calls e'.calls := by
  intro order
  induction order with
  | nil =>
    intro started pc e e' _ _ htold hrun _
    obtain rfl := foldlM_nil_eq_ok.mp hrun
    rw [List.filter_nil, List.append_nil]
    exact ⟨pc, htold, .nil m s y pc _⟩
  | cons t rest ih =>
    intro started pc e e' hnodup horder htold hrun hagrees
    obtain ⟨hnew, hnodup⟩ := List.nodup_cons.mp hnodup
    obtain ⟨ht, hfresh⟩ := horder t List.mem_cons_self
    obtain ⟨e₁, hfirst, hrest⟩ := foldlM_cons_eq_ok.mp hrun
    have hagrees₁ := hagrees.of_subset (mem_events_of_foldlM h hrest)
    unfold runTransactionTraced at hfirst
    split at hfirst
    · rename_i hgranted
      split at hfirst
      · cases hfirst
      · rename_i body hbody
        obtain ⟨txn, htxn, hbody⟩ := Option.bind_eq_some_iff.mp hbody
        obtain ⟨⟨⟨⟩, e₂⟩, hbodyrun, rfl⟩ := map_eq_ok.mp hfirst
        have hnot := htold.not_begun_transaction ht hfresh
        obtain ⟨hstage, hzero, hacts⟩ := htold.ready ht hfresh
        rw [h.runs.transaction htxn hbody] at hbodyrun
        obtain ⟨houtcome, pc₁, htold₁, honward, hdone⟩ := leads_of_run h hstage
          (fun callee given pc' e₃ result e₄ htold' hact hrun' hagrees' =>
            leads_of_answerTraced h (started ++ [t]) _ t [] callee given pc' e₃ result e₄
              (fun x hx => absurd hx (Registry.not_busy_nil x)) hstage htold' hact hrun' hagrees')
          _ (htold.start ht hgranted hfresh) hacts hbodyrun hagrees₁
        obtain ⟨pc', htold', hswept⟩ :=
          ih (started ++ [t]) pc₁ e₂ e' hnodup (fresh_of_cons hnew horder) htold₁ hrest hagrees
        rw [List.filter_cons_of_pos hgranted]
        rw [List.append_assoc] at htold'
        exact ⟨pc', htold', hswept.cons honward hnot hzero hdone houtcome⟩
    · rename_i hgranted
      obtain rfl := Except.ok.inj hfirst
      obtain ⟨pc', htold', hswept⟩ := ih started pc e e' hnodup
        (fun u hu => horder u (List.mem_cons_of_mem _ hu)) htold hrest hagrees
      rw [List.filter_cons_of_neg hgranted]
      exact ⟨pc', htold', hswept.skip hgranted⟩

end Machine

end GuardedActions
