import GuardedActions.Proofs.CallPath
import GuardedActions.Proofs.Elaboration.Tie
import GuardedActions.Proofs.MutualExclusion

/-!
# Which designs elaborate

Elaboration searches the call graph and compares closures; a design is admissible if it obeys nine
rules that speak of actions, calls and paths alone.  Elaboration succeeds on the admissible designs and
on no others, whatever was registered and however often it was tried before.
-/

set_option autoImplicit false

namespace GuardedActions

variable {σ : Type}

/-- The callee wants to know its arguments before arbitration: it has a validator, it was told to ask
for them, or several callers may share it and it has inputs. -/
def Method.AsksEarly (x : Method σ) : Prop :=
  x.validator.isSome = true ∨ x.early = true ∨ (x.nonexclusive = true ∧ x.input.fields ≠ [])

theorem Method.needsEarly_iff {x : Method σ} : x.needsEarly = true ↔ x.AsksEarly := by
  unfold needsEarly AsksEarly Shape.isEmpty
  simp only [Bool.or_eq_true, Bool.and_eq_true, Bool.not_eq_true', List.isEmpty_eq_false_iff]
  constructor
  · rintro ((hearly | hvalidator) | hshared)
    · exact Or.inr (Or.inl hearly)
    · exact Or.inl hvalidator
    · exact Or.inr (Or.inr hshared)
  · rintro (hvalidator | hearly | hshared)
    · exact Or.inl (Or.inr hvalidator)
    · exact Or.inl (Or.inl hearly)
    · exact Or.inr hshared

namespace Design

/-- The rules for the main registry of a design. -/
structure Admissible (d : Design σ) : Prop where
  /-- no two actions have the same name -/
  names : d.main.NamesDistinct
  /-- every action has a body -/
  defined : ∀ {id : Nat} {a : Action σ}, d.main.action? id = some a → a.isDefined = true
  /-- callees belong to the main registry -/
  own : ∀ {i : Nat} {s : Site σ}, d.main.sites[i]? = some s → s.callee.domain = .main
  /-- no action has two call sites for the same method -/
  once : ∀ {i j : Nat} {s u : Site σ}, d.main.sites[i]? = some s → d.main.sites[j]? = some u →
    s.caller = u.caller → s.callee = u.callee → i = j
  /-- arguments that the callee wants to know before arbitration are supplied -/
  in_time : ∀ {i : Nat} {s : Site σ} {x : Method σ}, d.main.sites[i]? = some s →
    d.main.method? s.callee.id = some x → x.AsksEarly → s.arguments.isSome = true
  /-- no action reaches itself through calls -/
  acyclic : ∀ a, ¬ Relation.TransGen d.main.Calls a a
  /-- a transaction has at most one call path to each method -/
  single : ∀ {t : Nat}, (d.main.transaction? t).isSome → d.main.SinglePaths t
  /-- no transaction reaches both ends of a declared conflict between two actions -/
  apart : d.main.EndsApart
  /-- no two competing transactions of equal priority are both unconditional -/
  untied : ∀ a b, ¬ d.main.Tied a b

variable {d : Design σ}

/-- The two stages of an elaboration that succeeds. -/
theorem elaborate_eq_ok (hopen : d.main.isFrozen = false) : d.elaborate.2 = .ok () ↔
    ∃ closures, d.analyse = .ok closures ∧
      ∃ ranking plan, d.main.planWith closures = (ranking, .ok plan) := by
  unfold elaborate
  rw [hopen, if_neg Bool.false_ne_true]
  cases hanalyse : d.analyse with
  | error refusal => simp
  | ok closures =>
    simp only [Except.ok.injEq, exists_eq_left']
    cases hplanned : d.main.planWith closures with
    | mk ranking result =>
      cases result with
      | error refusal => simp
      | ok plan => simp

/-- The first stage succeeds just if all its checks do. -/
theorem analyse_eq_ok {closures : List Mask} : d.analyse = .ok closures ↔
    d.main.checkNames = .ok () ∧ d.main.checkBodies = .ok () ∧ d.checkSites = .ok () ∧
      d.main.checkAcyclic = .ok () ∧ d.main.closures = .ok closures := by
  unfold analyse
  constructor
  · intro h
    obtain ⟨⟨⟩, hnames, h⟩ := bind_eq_ok.mp h
    obtain ⟨⟨⟩, hbodies, h⟩ := bind_eq_ok.mp h
    obtain ⟨⟨⟩, hsites, h⟩ := bind_eq_ok.mp h
    obtain ⟨⟨⟩, hacyclic, hclosures⟩ := bind_eq_ok.mp h
    exact ⟨hnames, hbodies, hsites, hacyclic, hclosures⟩
  · rintro ⟨hnames, hbodies, hsites, hacyclic, hclosures⟩
    rw [hnames, hbodies, hsites, hacyclic, hclosures]
    rfl

/-- A design that elaborates obeys the rules. -/
theorem Built.admissible (built : d.Built) {closures : List Mask} {ranking : Ranking} {plan : Plan}
    (hanalyse : d.analyse = .ok closures)
    (hplan : d.main.planWith closures = (ranking, .ok plan)) : d.Admissible := by
  have h := elaborated_of_analyse built.wellFormed hanalyse hplan
  obtain ⟨-, hties⟩ := Registry.exists_planWith_iff.mp ⟨ranking, plan, hplan⟩
  have hclosed : d.main.Closed (Registry.closureIn closures) := by
    obtain ⟨-, rfl⟩ := Registry.planWith_eq_ok hplan
    exact h.closed
  refine ⟨h.names, h.defined, h.callee_main, h.unique, ?_, h.acyclic.not_transGen, ?_, h.apart,
    (Registry.checkTies_iff hclosed h.names).mp hties⟩
  · intro i s x hs hx hasks
    exact h.in_time hs hx (Method.needsEarly_iff.mpr hasks)
  · intro t ht x path path' _ hpath hpath'
    apply Registry.CallPath.unique h.acyclic ?_ (h.single ht) hpath hpath' rfl
    intro i j s u hs hu hcaller hcallee
    exact h.unique hs hu hcaller (by rw [h.callee_eq hs, h.callee_eq hu, hcallee])

/-- A design that obeys the rules passes every check. -/
theorem Admissible.exists_plan (h : d.Admissible) (built : d.Built) :
    ∃ closures, d.analyse = .ok closures ∧
      ∃ ranking plan, d.main.planWith closures = (ranking, .ok plan) := by
  have hmethod : ∀ {i : Nat} {s : Site σ}, d.main.sites[i]? = some s →
      (d.main.method? s.callee.id).isSome :=
    fun hs => built.wellFormed.isSome_method? hs (h.own hs)
  have hcallee : ∀ {a b : Nat}, d.main.Calls a b → b < d.main.actions.length :=
    built.wellFormed.lt_length_of_calls h.own
  have hsound : d.SitesSound := ⟨h.own, h.once, fun hs hx hneeds =>
    h.in_time hs hx (Method.needsEarly_iff.mp hneeds)⟩
  have hcycles := Registry.checkAcyclic_of_not_transGen hcallee h.acyclic
  have hacyclic := Registry.acyclic_of_checkAcyclic built.wellFormed.caller_lt_main hcycles
  have htree : ∀ {t : Nat}, (d.main.transaction? t).isSome →
      Closure.Tree d.main.callees t := by
    intro t ht
    have hsingle : d.main.SinglePaths t := h.single ht
    exact hsingle.tree hacyclic hmethod
  obtain ⟨closures, hclosures⟩ := Registry.exists_closures hcallee htree
  have hclosed : d.main.Closed (Registry.closureIn closures) :=
    Registry.closed_of_closures hcallee hclosures
  refine ⟨closures, ?_, ?_⟩
  · exact analyse_eq_ok.mpr ⟨Registry.checkNames_of_namesDistinct h.names,
      Registry.checkBodies_of_isDefined h.defined, checkSites_of_sitesSound hsound, hcycles,
      hclosures⟩
  · exact Registry.exists_planWith_iff.mpr
      ⟨Registry.checkConflictEnds_of_endsApart hclosed h.apart,
        (Registry.checkTies_iff hclosed h.names).mpr h.untied⟩

theorem isFrozen_elaborate (hopen : d.main.isFrozen = false) :
    d.elaborate.1.main.isFrozen = true ↔ d.elaborate.2 = .ok () := by
  rw [elaborate_eq_ok hopen]
  unfold elaborate
  rw [hopen, if_neg Bool.false_ne_true]
  cases hanalyse : d.analyse with
  | error refusal => simp [hopen]
  | ok closures =>
    simp only [Except.ok.injEq, exists_eq_left']
    cases hplanned : d.main.planWith closures with
    | mk ranking result =>
      cases result with
      | error refusal =>
        have hopen : d.main.plan.isSome = false := hopen
        simp [Registry.isFrozen, hopen]
      | ok plan => simp [Registry.isFrozen]

/-- On a design that is not elaborated yet, whatever was registered and tried before, elaboration
succeeds just if the design is admissible, and elaborates the design just if it succeeds. -/
theorem Built.elaborate_eq_ok_iff (built : d.Built) (hopen : d.main.isFrozen = false) :
    (d.elaborate.2 = .ok () ↔ d.Admissible) ∧
      (d.elaborate.1.main.isFrozen = true ↔ d.elaborate.2 = .ok ()) := by
  refine ⟨?_, isFrozen_elaborate hopen⟩
  rw [elaborate_eq_ok hopen]
  constructor
  · rintro ⟨closures, hanalyse, ranking, plan, hplan⟩
    exact built.admissible hanalyse hplan
  · exact fun h => h.exists_plan built

end Design

namespace Accumulator

/-- The registrations of the accumulator, and a call that one of its actions has declared already. -/
def stepsTwice : List (Registration State) := steps ++ [.newCall ⟨.main, 3⟩ ⟨.main, 0⟩]

/-- The registrations of the accumulator are admissible, and elaborate; with a call declared twice they
are not, and stay open. -/
theorem admissible_steps :
    ((Design.registerAll steps {}).main.isFrozen = false ∧
      (Design.registerAll steps {}).elaborate.2 = .ok () ∧
      (Design.registerAll steps {}).Admissible) ∧
    (Design.registerAll stepsTwice {}).main.isFrozen = false ∧
      (Design.registerAll stepsTwice {}).elaborate.1.main.isFrozen = false ∧
      ¬ (Design.registerAll stepsTwice {}).Admissible := by
  have hopen : (Design.registerAll steps {}).main.isFrozen = false := by cbv
  have haccepted : (Design.registerAll steps {}).elaborate.2 = .ok () := by cbv
  have hopen' : (Design.registerAll stepsTwice {}).main.isFrozen = false := by cbv
  have hrefused : (Design.registerAll stepsTwice {}).elaborate.1.main.isFrozen = false := by cbv
  obtain ⟨hiff, -⟩ := Design.Built.elaborate_eq_ok_iff (.registerAll steps .empty) hopen
  obtain ⟨hiff', hfrozen⟩ := Design.Built.elaborate_eq_ok_iff (.registerAll stepsTwice .empty) hopen'
  refine ⟨⟨hopen, haccepted, hiff.mp haccepted⟩, hopen', hrefused, fun hadmissible => ?_⟩
  rw [hfrozen.mpr (hiff'.mpr hadmissible)] at hrefused
  cases hrefused

end Accumulator

end GuardedActions
