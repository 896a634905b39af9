import GuardedActions.Proofs.Execution.Progress

/-!
# Disciplined bodies

A condition on each body alone that makes all bodies cooperate: whatever it sees, as long as the kept
part of the state is what it was, and whatever its calls return, as long as it has the right shape, the
body makes its calls once each and ends with a result that fits.
-/

set_option autoImplicit false

namespace GuardedActions

variable {σ κ : Type}

/-- A body does what it has to whatever it sees and whatever its calls return.  The call sites listed
are performed already. -/
def Body.Behaves {α : Type} (d : Design σ) (s : Schedule) (kept : σ → κ) (k : κ) (fits : α → Prop)
    (action : Nat) : (used : List Nat) → ActionBody σ α → Prop
  | used, .done result => fits result ∧ ∀ (i : Nat) (u : Site σ), d.main.sites[i]? = some u →
      u.caller = action → s.activeSites.test i = true → i ∈ used
  | _, .fail _ => False
  | used, .look next =>
    ∀ view : View σ, kept view.state = k → Body.Behaves d s kept k fits action used (next view)
  | used, .update state next => kept state = k ∧ Body.Behaves d s kept k fits action used next
  | used, .note _ next => Body.Behaves d s kept k fits action used next
  | used, .report _ next => Body.Behaves d s kept k fits action used next
  | used, .call (.perform callee given) next =>
    ∃ (i : Nat) (u : Site σ) (target : Method σ), d.main.findSite? action callee = some (i, u) ∧
      s.activeSites.test i = true ∧ i ∉ used ∧ d.method? callee = some target ∧
      u.Takes target given ∧ ∀ result : Record, result.shape = target.output →
        Body.Behaves d s kept k fits action (i :: used) (next result)
  | _, .call (.invoke _ _) _ => False

namespace Machine

variable {m : Machine σ} {plan : Plan} {s : Schedule} {kept : σ → κ}

/-- Every granted body is disciplined, and no hook fails. -/
structure Disciplined (m : Machine σ) (s : Schedule) (kept : σ → κ) : Prop where
  /-- bodies of granted methods, for all arguments of the input shape -/
  method : ∀ {id : Nat} {x : Method σ} {body : Record → ActionBody σ Record},
    m.design.main.method? id = some x → s.granted.test id = true → x.body = some body →
    ∀ args : Record, args.shape = x.input →
      (body args).Behaves m.design s kept (kept m.state) (fun result => result.shape = x.output) id []
  /-- bodies of granted transactions -/
  transaction : ∀ {id : Nat} {t : Transaction σ} {body : ActionBody σ Unit},
    m.design.main.transaction? id = some t → s.granted.test id = true → t.body = some body →
      body.Behaves m.design s kept (kept m.state) (fun _ => True) id []
  /-- hooks -/
  hook : ∀ part ∈ m.parts, ∀ e, ∃ e', (m.executing s).runHook e part = .ok e'

/-- Nobody has changed the kept part of the state, and results have the output shapes. -/
structure Steady (m : Machine σ) (kept : σ → κ) (e : Body.Effects σ Ledger) : Prop where
  /-- the kept part of the state -/
  kept : kept e.state = kept m.state
  /-- the results so far -/
  results : ∀ {x : Nat} {result : Record} {target : Method σ}, e.calls.resultOf x = some result →
    m.design.main.method? x = some target → result.shape = target.output

/-- A granted method runs with arguments of its input shape. -/
theorem Schedules.shape_drivingArguments (built : m.design.Built) (own : m.design.OwnCallers)
    (hplan : m.design.main.plan = some plan) (hs : m.Schedules plan s) {i : Nat} {u : Site σ}
    {target : Method σ} {given : Option Record} {passed : Record}
    (hu : m.design.main.sites[i]? = some u) (hgranted : s.grantedSites.test i = true)
    (htarget : m.design.main.method? u.callee.id = some target)
    (hpasses : u.Passes s i target given passed) :
    (drivingArguments s u.callee.id target i passed).shape = target.input := by
  have h := built.elaborated hplan
  have hearly : ∀ {j : Nat} {w : Site σ} {args : Record}, m.design.main.sites[j]? = some w →
      s.grantedSites.test j = true → w.callee = u.callee → w.arguments.isSome = true →
      s.earlyOf j = some args → args.shape = target.input := by
    intro j w args hw hj hwu hsome hargs
    obtain ⟨v, hv, hactive, -⟩ := hs.site.mp hj
    obtain ⟨known, hknown, hshape⟩ := hs.early hw hactive hsome
    obtain rfl : known = args := Option.some.inj (hknown.symm.trans hargs)
    refine hshape ?_
    rw [hwu, h.method?_callee hu]
    exact htarget
  rcases hs.drivingArguments_cases built own hplan hu hgranted htarget passed with
    heq | ⟨driver, w, hw, hwu, hdriven, hsupplied, hknown⟩
  · rw [heq]
    cases hpasses with
    | early supplies known => exact hearly hu hgranted rfl supplies known
    | given _ fits => exact fits
    | nothing _ _ => rfl
  · exact hearly hw hdriven hwu hsupplied hknown

/-! ## Disciplined bodies keep the machine steady -/

/-- What a disciplined body leaves behind, if the calls that it makes leave the machine steady. -/
theorem steady_of_run {d : Design σ} {scene : Scene}
    {answer : Call → Body.Effects σ Ledger → Except Fault (Record × Body.Effects σ Ledger)}
    (hanswer : ∀ {callee : ActionRef} {given : Option Record} {target : Method σ}
      {e e' : Body.Effects σ Ledger} {result : Record}, d.method? callee = some target →
      m.Steady kept e → answer (.perform callee given) e = .ok (result, e') →
      m.Steady kept e' ∧ result.shape = target.output)
    {α : Type} {fits : α → Prop} {action : Nat} (body : ActionBody σ α) :
    ∀ {used : List Nat} {e e' : Body.Effects σ Ledger} {result : α},
      body.Behaves d s kept (kept m.state) fits action used → m.Steady kept e →
      body.run scene answer e = .ok (result, e') → m.Steady kept e' ∧ fits result := by
  induction body with
  | done result =>
    intro used e e' result' hbody he hrun
    obtain ⟨rfl, rfl⟩ := Prod.mk.inj (Except.ok.inj hrun)
    exact ⟨he, hbody.1⟩
  | fail fault =>
    intro used e e' result' _ _ hrun
    cases hrun
  | look next ih =>
    intro used e e' result' hbody he hrun
    exact ih _ (hbody _ he.kept) he hrun
  | update state next ih =>
    intro used e e' result' hbody he hrun
    exact ih (e := { e with state := state }) hbody.2 ⟨hbody.1, he.results⟩ hrun
  | note text next ih =>
    intro used e e' result' hbody he hrun
    exact ih (e := { e with journal := e.journal.note text }) hbody ⟨he.kept, he.results⟩ hrun
  | report entry next ih =>
    intro used e e' result' hbody he hrun
    exact ih (e := { e with journal := e.journal.report entry }) hbody ⟨he.kept, he.results⟩ hrun
  | call call next ih =>
    intro used e e' result' hbody he hrun
    cases call with
    | invoke target args => exact hbody.elim
    | perform callee given =>
      obtain ⟨i, u, target, -, -, -, htarget, -, hnext⟩ := hbody
      unfold Body.run at hrun
      split at hrun
      · cases hrun
      · rename_i result e₁ hcall
        obtain ⟨he₁, hshape⟩ := hanswer htarget he hcall
        exact ih result (hnext result hshape) he₁ hrun

/-- A call that disciplined bodies make leaves the machine steady and returns a record of the output
shape. -/
theorem steady_of_answer (built : m.design.Built) (own : m.design.OwnCallers)
    (hplan : m.design.main.plan = some plan) (hs : m.Schedules plan s)
    (hd : m.Disciplined s kept) :
    ∀ (fuel caller : Nat) {callee : ActionRef} {given : Option Record} {target : Method σ}
      {e e' : Body.Effects σ Ledger} {result : Record}, m.design.method? callee = some target →
      m.Steady kept e →
      (m.executing s).answer s fuel caller (.perform callee given) e = .ok (result, e') →
      m.Steady kept e' ∧ result.shape = target.output := by
  intro fuel
  induction fuel with
  | zero =>
    intro caller callee given target e e' result _ _ hrun
    cases hrun
  | succ fuel ih =>
    intro caller callee given target e e' result htarget he hrun
    have h := built.elaborated hplan
    unfold answer at hrun
    obtain ⟨⟨i, u⟩, hclaim, hrun⟩ := bind_eq_ok.mp hrun
    obtain ⟨hu, rfl, rfl, hgranted, -⟩ := claimSite_eq_ok hclaim
    have hu : m.design.main.sites[i]? = some u := hu
    have hmain := (h.method?_callee hu).symm.trans htarget
    have hexecuting : (m.executing s).design = m.design := rfl
    simp only at hrun
    rw [hexecuting, htarget] at hrun
    simp only at hrun
    obtain ⟨passed, hpassed, hrun⟩ := bind_eq_ok.mp hrun
    split at hrun
    · rename_i known hknown
      split at hrun
      · obtain ⟨rfl, rfl⟩ := Prod.mk.inj (Except.ok.inj hrun)
        exact ⟨⟨he.kept, he.results⟩, he.results hknown hmain⟩
      · cases hrun
    · obtain ⟨_, -, hrun⟩ := bind_eq_ok.mp hrun
      split at hrun
      · cases hrun
      · rename_i body hbody
        obtain ⟨⟨returned, e₁⟩, hbodyrun, hrun⟩ := bind_eq_ok.mp hrun
        have hpasses := passes_of_passedArguments (hs.exists_earlyOf hu hgranted) hpassed
        have hbehaves := hd.method hmain (hs.callee hu hgranted) hbody _
          (hs.shape_drivingArguments built own hplan hu hgranted hmain hpasses)
        have hperformed : m.Steady kept { e with calls := e.calls.perform i } :=
          ⟨he.kept, he.results⟩
        obtain ⟨he₁, hfits⟩ := steady_of_run (fun ht hsteady hcall => ih _ ht hsteady hcall) _
          hbehaves hperformed hbodyrun
        simp only at hrun
        rw [if_pos hfits] at hrun
        obtain ⟨rfl, rfl⟩ := Prod.mk.inj (Except.ok.inj hrun)
        refine ⟨⟨he₁.kept, ?_⟩, hfits⟩
        intro x result target' hresult hx
        unfold Ledger.resultOf Ledger.finish at hresult
        simp only [List.getElem?_set] at hresult
        split at hresult
        · rename_i heq
          subst heq
          obtain rfl : target = target' := Option.some.inj (hmain.symm.trans hx)
          split at hresult
          · obtain rfl := Option.some.inj hresult
            exact hfits
          · cases hresult
        · exact he₁.results hresult hx

theorem steady_of_runTransaction (built : m.design.Built) (own : m.design.OwnCallers)
    (hplan : m.design.main.plan = some plan) (hs : m.Schedules plan s)
    (hd : m.Disciplined s kept) {t : Nat} {e e' : Body.Effects σ Ledger} (he : m.Steady kept e)
    (hrun : (m.executing s).runTransaction s e t = .ok e') : m.Steady kept e' := by
  unfold runTransaction at hrun
  split at hrun
  · rename_i hgranted
    split at hrun
    · cases hrun
    · rename_i body hbody
      obtain ⟨txn, htxn, hdefined⟩ := Option.bind_eq_some_iff.mp hbody
      obtain ⟨⟨⟨⟩, e₁⟩, hbodyrun, rfl⟩ := map_eq_ok.mp hrun
      exact (steady_of_run
        (fun ht hsteady hcall => steady_of_answer built own hplan hs hd _ _ ht hsteady hcall) body
        (hd.transaction htxn hgranted hdefined) he hbodyrun).1
  · obtain rfl := Except.ok.inj hrun
    exact he

theorem steady_beforeBodies (m : Machine σ) (kept : σ → κ) : m.Steady kept m.beforeBodies := by
  refine ⟨rfl, ?_⟩
  intro x result target hresult _
  unfold beforeBodies Ledger.start Ledger.resultOf at hresult
  simp only [List.getElem?_replicate] at hresult
  split at hresult
  · cases hresult
  · cases hresult

/-! ## Disciplined bodies cooperate -/

/-- At every point that an execution comes to, the rest of the body still behaves. -/
theorem behaves_of_comesTo (built : m.design.Built) (own : m.design.OwnCallers)
    (hplan : m.design.main.plan = some plan) (hs : m.Schedules plan s)
    (hd : m.Disciplined s kept) {α : Type} {fits : α → Prop} {action : Nat} {done : List Nat}
    {body : ActionBody σ α} {e : Body.Effects σ Ledger}
    (h : (m.executing s).ComesTo plan s fits action done body e) :
    body.Behaves m.design s kept (kept m.state) fits action done ∧ m.Steady kept e := by
  induction h with
  | transaction turn ran granted known defined =>
    refine ⟨hd.transaction known granted defined, ?_⟩
    exact foldlM_induction (P := m.Steady kept)
      (fun _ _ _ _ he hrun => steady_of_runTransaction built own hplan hs hd he hrun)
      (steady_beforeBodies m kept) ran
  | @method _ _ _ _ _ _ _ _ i u target _ _ before claimed known passes first checked defined ih =>
    obtain ⟨-, he⟩ := ih
    obtain ⟨hsite, rfl, rfl, hgranted, -⟩ := claimSite_eq_ok claimed
    have h := built.elaborated hplan
    have hu : m.design.main.sites[i]? = some u := hsite
    have hmain : m.design.main.method? u.callee.id = some target :=
      (h.method?_callee hu).symm.trans known
    have hpasses := passes_of_passedArguments (hs.exists_earlyOf hu hgranted) passes
    exact ⟨hd.method hmain (hs.callee hu hgranted) defined _
      (hs.shape_drivingArguments built own hplan hu hgranted hmain hpasses), he.kept, he.results⟩
  | look before ih => exact ⟨ih.1 _ ih.2.kept, ih.2⟩
  | update before ih => exact ⟨ih.1.2, ih.1.1, ih.2.results⟩
  | note before ih => exact ⟨ih.1, ih.2.kept, ih.2.results⟩
  | report before ih => exact ⟨ih.1, ih.2.kept, ih.2.results⟩
  | answered before declared answer ih =>
    obtain ⟨⟨i, u, target, hfound, -, -, htarget, -, hnext⟩, he⟩ := ih
    obtain ⟨rfl, rfl⟩ := Prod.mk.inj (Option.some.inj (hfound.symm.trans declared))
    obtain ⟨he', hshape⟩ := steady_of_answer built own hplan hs hd _ _ htarget he answer
    exact ⟨hnext _ hshape, he'⟩

/-- Disciplined bodies cooperate in every schedule that the machine makes. -/
theorem cooperates_of_disciplined (built : m.design.Built) (own : m.design.OwnCallers)
    (hplan : m.design.main.plan = some plan) (hs : m.Schedules plan s)
    (hd : m.Disciplined s kept) : (m.executing s).Cooperates plan s kept where
  update := by
    intro α fits action done state next e h
    obtain ⟨hbody, he⟩ := behaves_of_comesTo built own hplan hs hd h
    exact hbody.1.trans he.kept.symm
  call := by
    intro α fits action done call next e h
    obtain ⟨hbody, -⟩ := behaves_of_comesTo built own hplan hs hd h
    cases call with
    | invoke target args => exact hbody.elim
    | perform callee given =>
      obtain ⟨i, u, target, hfound, hactive, hfresh, htarget, htakes, -⟩ := hbody
      exact ⟨callee, given, i, u, target, rfl, hfound, hactive, hfresh, htarget, htakes⟩
  complete := by
    intro α fits action done result e h i u hu hcaller hactive
    obtain ⟨hbody, -⟩ := behaves_of_comesTo built own hplan hs hd h
    exact hbody.2 i u hu hcaller hactive
  fits := by
    intro α fits action done result e h
    obtain ⟨hbody, -⟩ := behaves_of_comesTo built own hplan hs hd h
    exact hbody.1
  fail := by
    intro α fits action done fault e h
    exact (behaves_of_comesTo built own hplan hs hd h).1
  hook := by
    intro e e' before after part _ hparts _
    refine hd.hook part ?_ e'
    have hparts : m.parts = before ++ part :: after := hparts
    rw [hparts]
    exact List.mem_append_right _ List.mem_cons_self

end Machine

end GuardedActions
