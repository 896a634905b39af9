import GuardedActions.Proofs.Execution.Discipline
import GuardedActions.Proofs.Execution.Within

/-!
# What performed calls keep

Where no body runs an action directly, an execution does what the main registry does: its bodies stay within a
relation if the actions of that registry do.  This holds up to every point that the execution comes to.
-/

set_option autoImplicit false

namespace GuardedActions

variable {σ ρ : Type} {R : σ → σ → Prop}

/-- What holds when a body starts holds when it ends, if changes of the state within the relation, whatever is
told, and performed calls keep it. -/
theorem Body.Within.keeps {α : Type} {scene : Scene}
    {answer : Call → Effects σ ρ → Except Fault (Record × Effects σ ρ)} {P : Effects σ ρ → Prop}
    (hrefl : ∀ x, R x x)
    (hchange : ∀ e state journal, R e.state state → P e → P ⟨state, journal, e.calls⟩)
    (hanswer : ∀ {callee given e result e'}, P e →
      answer (.perform callee given) e = .ok (result, e') → P e')
    {body : ActionBody σ α} (hperforms : body.OnlyPerforms) {now : Option σ} (h : body.Within R now)
    {e e' : Effects σ ρ} {a : α} (hnow : ∀ seen, now = some seen → e.state = seen) (he : P e)
    (hrun : body.run scene answer e = .ok (a, e')) : P e' := by
  induction body generalizing now e with
  | done a' =>
    obtain ⟨-, rfl⟩ := Prod.mk.inj (Except.ok.inj hrun)
    exact he
  | fail fault => cases hrun
  | look next ih =>
    exact ih _ (hperforms _) (h ⟨e.state, scene⟩) (fun _ hseen => Option.some.inj hseen) he hrun
  | update state next ih =>
    obtain ⟨⟨seen, hseen, hrelated⟩, hnext⟩ := h
    have hchanged : P { e with state := state } := by
      refine hchange e state e.journal ?_ he
      rw [hnow seen hseen]
      exact hrelated
    exact ih hperforms hnext (fun _ hstate => Option.some.inj hstate) hchanged hrun
  | note text next ih =>
    have htold := hchange e e.state (e.journal.note text) (hrefl _) he
    exact ih (e := { e with journal := e.journal.note text }) hperforms h hnow htold hrun
  | report entry next ih =>
    have htold := hchange e e.state (e.journal.report entry) (hrefl _) he
    exact ih (e := { e with journal := e.journal.report entry }) hperforms h hnow htold hrun
  | call request next ih =>
    cases request with
    | invoke target args => exact hperforms.elim
    | perform callee given =>
      unfold Body.run at hrun
      split at hrun
      · cases hrun
      · rename_i result e₁ hcall
        exact ih result (hperforms result) (h result) (fun _ hseen => nomatch hseen) (hanswer he hcall) hrun

/-- A run of such a body does something within the relation if its calls do. -/
theorem Body.keeps_state_of_run {α : Type} {scene : Scene}
    {answer : Call → Effects σ ρ → Except Fault (Record × Effects σ ρ)} (hrefl : ∀ x, R x x)
    (htrans : ∀ {x y z}, R x y → R y z → R x z) {body : ActionBody σ α}
    (hperforms : body.OnlyPerforms) (h : body.Within R none)
    (hanswer : ∀ {callee given e result e'},
      answer (.perform callee given) e = .ok (result, e') → R e.state e'.state)
    {e e' : Effects σ ρ} {a : α} (hrun : body.run scene answer e = .ok (a, e')) : R e.state e'.state := by
  refine Body.Within.keeps (P := fun e₁ => R e.state e₁.state) hrefl
    (fun _ _ _ hchange he => htrans he hchange)
    (fun he hcall => htrans he (hanswer hcall)) hperforms h nofun ?_ hrun
  exact hrefl e.state

/-- So far a run of a body was within a relation, and the rest of it stays within it. -/
structure Body.Remains {α : Type} (R : σ → σ → Prop) (start now : σ) (body : ActionBody σ α) :
    Prop where
  /-- what was done -/
  done : R start now
  /-- the rest runs nothing directly -/
  performs : body.OnlyPerforms
  /-- it stays within the relation -/
  within : ∃ known : Option σ, body.Within R known ∧ ∀ seen, known = some seen → now = seen

namespace Machine

variable {m : Machine σ} {plan : Plan} {s : Schedule}
variable (h : m.design.main.Elaborated plan) (hbodies : m.design.main.OnlyPerforms)
  (hwithin : m.design.main.Within R) (hrefl : ∀ x, R x x) (htrans : ∀ {x y z}, R x y → R y z → R x z)
include h hbodies hwithin hrefl htrans

/-- A performed call does something within the relation. -/
theorem within_of_answerTraced :
    ∀ (fuel caller : Nat) (callee : ActionRef) (given : Option Record) (e : Body.Effects σ Account)
      (result : Record) (e' : Body.Effects σ Account),
      m.answerTraced s fuel caller (.perform callee given) e = .ok (result, e') → R e.state e'.state := by
  intro fuel
  induction fuel with
  | zero =>
    intro caller callee given e result e' hcall
    cases hcall
  | succ fuel ih =>
    intro caller callee given e result e' hcall
    obtain ⟨i, u, target, passed, -, rfl, ho, hanswer⟩ := answered_of_answerTraced hcall
    cases hanswer with
    | again known shared => exact hrefl _
    | first unknown checked defined ran fits =>
      have hu := (Registry.findSite?_eq_some ho.found).1
      have htarget := (h.method?_callee hu).symm.trans ho.known
      obtain ⟨a, ha, hmethod⟩ := Registry.method?_eq_some.mp htarget
      have hran := Body.keeps_state_of_run hrefl htrans (hbodies.method htarget defined _)
        ((hwithin.action ha).method hmethod defined _) (fun hcall => ih _ _ _ _ _ _ hcall) ran
      exact hran

theorem within_of_answer {fuel caller : Nat} {callee : ActionRef} {given : Option Record}
    {e e' : Body.Effects σ Ledger} {result : Record}
    (hcall : m.answer s fuel caller (.perform callee given) e = .ok (result, e')) : R e.state e'.state := by
  -- a trace makes no difference
  have hforget := answerTraced_forget m s fuel caller (.perform callee given)
    ⟨e.state, e.journal, ⟨e.calls, []⟩⟩
  obtain ⟨⟨result', e₁⟩, htraced, hpair⟩ := map_eq_ok.mp (hforget.trans hcall)
  obtain ⟨-, rfl⟩ := Prod.mk.inj hpair
  exact within_of_answerTraced h hbodies hwithin hrefl htrans _ _ _ _ _ _ _ htraced

theorem within_of_runTransaction {t : Nat} {e e' : Body.Effects σ Ledger}
    (hrun : m.runTransaction s e t = .ok e') : R e.state e'.state := by
  unfold runTransaction at hrun
  split at hrun
  · split at hrun
    · cases hrun
    · rename_i body hbody
      obtain ⟨txn, htxn, hdefined⟩ := Option.bind_eq_some_iff.mp hbody
      obtain ⟨a, ha, htransaction⟩ := Registry.transaction?_eq_some.mp htxn
      obtain ⟨⟨⟨⟩, e₁⟩, hran, rfl⟩ := map_eq_ok.mp hrun
      exact Body.keeps_state_of_run hrefl htrans (hbodies.transaction htxn hdefined)
        ((hwithin.action ha).transaction htransaction hdefined)
        (fun hcall => within_of_answer h hbodies hwithin hrefl htrans hcall) hran
  · obtain rfl := Except.ok.inj hrun
    exact hrefl _

/-- Up to every point that an execution comes to, it stays within the relation. -/
theorem ComesTo.remains {α : Type} {fits : α → Prop} {action : Nat} {done : List Nat}
    {body : ActionBody σ α} {e : Body.Effects σ Ledger}
    (hcomes : m.ComesTo plan s fits action done body e) : body.Remains R m.state e.state := by
  induction hcomes with
  | transaction turn ran granted known defined =>
    obtain ⟨a, ha, htransaction⟩ := Registry.transaction?_eq_some.mp known
    have hdone := foldlM_induction (P := fun e => R m.state e.state) (fun _ _ _ _ he hrun =>
      htrans he (within_of_runTransaction h hbodies hwithin hrefl htrans hrun)) (hrefl _) ran
    exact ⟨hdone, hbodies.transaction known defined, none,
      (hwithin.action ha).transaction htransaction defined, nofun⟩
  | method before claimed known passes first checked defined ih =>
    obtain ⟨hsite, rfl, rfl, -⟩ := claimSite_eq_ok claimed
    have htarget := (h.method?_callee hsite).symm.trans known
    obtain ⟨a, ha, hmethod⟩ := Registry.method?_eq_some.mp htarget
    exact ⟨ih.done, hbodies.method htarget defined _, none,
      (hwithin.action ha).method hmethod defined _, nofun⟩
  | look before ih =>
    obtain ⟨hdone, hperforms, known, hnext, -⟩ := ih
    exact ⟨hdone, hperforms _, some _, hnext _, fun _ hseen => Option.some.inj hseen⟩
  | update before ih =>
    obtain ⟨hdone, hperforms, known, ⟨⟨seen, hseen, hrelated⟩, hnext⟩, hknown⟩ := ih
    refine ⟨htrans hdone ?_, hperforms, some _, hnext, fun _ hstate => Option.some.inj hstate⟩
    rw [hknown seen hseen]
    exact hrelated
  | note before ih =>
    obtain ⟨hdone, hperforms, known, hnext, hknown⟩ := ih
    exact ⟨hdone, hperforms, known, hnext, hknown⟩
  | report before ih =>
    obtain ⟨hdone, hperforms, known, hnext, hknown⟩ := ih
    exact ⟨hdone, hperforms, known, hnext, hknown⟩
  | answered before declared answer ih =>
    obtain ⟨hdone, hperforms, known, hnext, -⟩ := ih
    have hanswered := within_of_answer h hbodies hwithin hrefl htrans answer
    exact ⟨htrans hdone hanswered, hperforms _, none, hnext _, nofun⟩

end Machine

end GuardedActions
