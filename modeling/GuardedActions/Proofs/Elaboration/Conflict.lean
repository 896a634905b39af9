import GuardedActions.Elaboration
import GuardedActions.Proofs.Elaboration.Closure
import GuardedActions.Proofs.Elaboration.Order

/-!
# Which transactions compete

Two transactions compete if both reach some exclusive method, or if each reaches one end of a declared
conflict.  This is what the conflict rows of a plan hold.
-/

set_option autoImplicit false

namespace GuardedActions.Registry

variable {σ : Type} {r : Registry σ}

/-- One action reaches the first end of a declared conflict and another one the second. -/
def ReachEnds (r : Registry σ) (a b : Nat) : Prop :=
  ∃ pair ∈ r.conflicts, r.Reaches a pair.1 ∧ r.Reaches b pair.2

/-- Two different transactions may not run in the same cycle. -/
def Competes (r : Registry σ) (a b : Nat) : Prop :=
  a ≠ b ∧ (r.transaction? a).isSome ∧ (r.transaction? b).isSome ∧
    ((∃ x, r.isExclusive x = true ∧ r.Reaches a x ∧ r.Reaches b x) ∨
      r.ReachEnds a b ∨ r.ReachEnds b a)

theorem Competes.symm {a b : Nat} (h : r.Competes a b) : r.Competes b a := by
  obtain ⟨hne, ha, hb, hshare⟩ := h
  refine ⟨hne.symm, hb, ha, ?_⟩
  rcases hshare with ⟨x, hx, hax, hbx⟩ | hends | hends
  · exact Or.inl ⟨x, hx, hbx, hax⟩
  · exact Or.inr (Or.inr hends)
  · exact Or.inr (Or.inl hends)

theorem isExclusive_iff {id : Nat} {x : Method σ} (hx : r.method? id = some x) :
    r.isExclusive id = true ↔ x.nonexclusive = false := by
  unfold isExclusive
  rw [hx, Option.any_some]
  exact iff_of_eq (Bool.not_eq_true' _)

theorem isSome_method?_of_isExclusive {x : Nat} (h : r.isExclusive x = true) :
    (r.method? x).isSome := by
  unfold isExclusive at h
  cases hx : r.method? x with
  | none =>
    rw [hx] at h
    cases h
  | some m => rfl

/-- The masks hold what the transactions reach. -/
def Closed (r : Registry σ) (closure : Nat → Mask) : Prop :=
  ∀ {t : Nat}, (r.transaction? t).isSome → ∀ x, (closure t).test x = true ↔ r.Reaches t x

/-- The closures that elaboration computes are closures. -/
theorem closed_of_closures {closures : List Mask}
    (hcallee : ∀ {a b : Nat}, r.Calls a b → b < r.actions.length)
    (h : r.closures = .ok closures) : r.Closed (closureIn closures) := by
  intro t ht x
  obtain ⟨closure, hclosure, htest, -⟩ := closures_eq_ok hcallee h ht
  unfold closureIn
  rw [hclosure]
  exact htest x

theorem conflicting_iff {closure : Nat → Mask} (hclosed : r.Closed closure) {a b : Nat} :
    r.conflicting closure a b = true ↔ r.Competes a b := by
  unfold conflicting Competes
  rw [Bool.and_eq_true, Bool.and_eq_true, Bool.and_eq_true, bne_iff_ne, and_assoc, and_assoc]
  refine and_congr_right fun _ => and_congr_right fun ha => and_congr_right fun hb => ?_
  have hshare : r.shareExclusive (closure a) (closure b) = true ↔
      ∃ x, r.isExclusive x = true ∧ r.Reaches a x ∧ r.Reaches b x := by
    unfold shareExclusive
    rw [List.any_eq_true]
    constructor
    · rintro ⟨x, -, htest⟩
      rw [Bool.and_eq_true, Bool.and_eq_true, hclosed ha, hclosed hb] at htest
      exact ⟨x, htest.2, htest.1⟩
    · rintro ⟨x, hx, hreach⟩
      refine ⟨x, mem_ids.mpr (lt_length_of_method? (isSome_method?_of_isExclusive hx)), ?_⟩
      rw [Bool.and_eq_true, Bool.and_eq_true, hclosed ha, hclosed hb]
      exact ⟨hreach, hx⟩
  have hends : r.declaredBetween (closure a) (closure b) = true ↔
      r.ReachEnds a b ∨ r.ReachEnds b a := by
    unfold declaredBetween ReachEnds
    rw [List.any_eq_true]
    constructor
    · rintro ⟨pair, hpair, htest⟩
      rw [Bool.or_eq_true, Bool.and_eq_true, Bool.and_eq_true, hclosed ha, hclosed ha, hclosed hb,
        hclosed hb] at htest
      rcases htest with ⟨h1, h2⟩ | ⟨h1, h2⟩
      · exact Or.inl ⟨pair, hpair, h1, h2⟩
      · exact Or.inr ⟨pair, hpair, h2, h1⟩
    · intro htest
      have hpair : ∃ pair ∈ r.conflicts, (r.Reaches a pair.1 ∧ r.Reaches b pair.2) ∨
          (r.Reaches a pair.2 ∧ r.Reaches b pair.1) := by
        rcases htest with ⟨pair, hpair, h1, h2⟩ | ⟨pair, hpair, h1, h2⟩
        · exact ⟨pair, hpair, Or.inl ⟨h1, h2⟩⟩
        · exact ⟨pair, hpair, Or.inr ⟨h2, h1⟩⟩
      obtain ⟨pair, hmem, hreach⟩ := hpair
      refine ⟨pair, hmem, ?_⟩
      rw [Bool.or_eq_true, Bool.and_eq_true, Bool.and_eq_true, hclosed ha, hclosed ha, hclosed hb,
        hclosed hb]
      exact hreach
  rw [Bool.or_eq_true, hshare, hends]

/-- The conflict rows tell which transactions compete. -/
theorem conflict_iff {closure : Nat → Mask} (hclosed : r.Closed closure) {order : List Nat}
    {a b : Nat} : Ranking.conflict ⟨order, r.conflictRows closure⟩ a b = true ↔ r.Competes a b := by
  rw [← conflicting_iff hclosed]
  have hrow : (r.conflictRows closure)[a]?.getD (Mask.none 0) =
      if a < r.actions.length then Mask.ofTest r.actions.length (r.conflicting closure a)
      else Mask.none 0 := by
    unfold conflictRows ids
    rw [List.getElem?_map]
    by_cases ha : a < r.actions.length
    · rw [List.getElem?_range ha, if_pos ha]
      rfl
    · rw [List.getElem?_eq_none (by rw [List.length_range]; omega), if_neg ha]
      rfl
  unfold Ranking.conflict
  rw [hrow]
  constructor
  · intro h
    split at h
    · rw [Mask.test_ofTest, Bool.and_eq_true] at h
      exact h.2
    · rw [Mask.test_none] at h
      cases h
  · intro h
    obtain ⟨-, ha, hb, -⟩ := (conflicting_iff hclosed).mp h
    rw [if_pos (lt_length_of_transaction? ha), Mask.test_ofTest, h]
    simp [lt_length_of_transaction? hb]

/-- No transaction reaches both ends of a declared conflict between two actions. -/
def EndsApart (r : Registry σ) : Prop :=
  ∀ {pair : Nat × Nat}, pair ∈ r.conflicts → pair.1 ≠ pair.2 → ∀ {t : Nat},
    (r.transaction? t).isSome → r.Reaches t pair.1 → ¬ r.Reaches t pair.2

theorem endsApart_of_checkConflictEnds {closure : Nat → Mask} (hclosed : r.Closed closure)
    (h : r.checkConflictEnds closure = .ok ()) : r.EndsApart := by
  unfold checkConflictEnds at h
  simp only at h
  split at h
  · rename_i hnone
    intro pair hpair hne t ht h1 h2
    have hbroken := List.findSome?_eq_none_iff.mp hnone t (mem_transactions.mpr ht)
    rw [Option.map_eq_none_iff] at hbroken
    have htest := List.find?_eq_none.mp hbroken pair hpair
    rw [Bool.and_eq_true, Bool.and_eq_true, bne_iff_ne, hclosed ht, hclosed ht] at htest
    exact htest ⟨⟨hne, h1⟩, h2⟩
  · cases h

theorem checkConflictEnds_of_endsApart {closure : Nat → Mask} (hclosed : r.Closed closure)
    (h : r.EndsApart) : r.checkConflictEnds closure = .ok () := by
  unfold checkConflictEnds
  simp only
  split
  · rfl
  · rename_i error hbroken
    obtain ⟨t, ht, hfound⟩ := List.exists_of_findSome?_eq_some hbroken
    have ht := mem_transactions.mp ht
    obtain ⟨pair, hfind, -⟩ := Option.map_eq_some_iff.mp hfound
    have htest := List.find?_some hfind
    rw [Bool.and_eq_true, Bool.and_eq_true, bne_iff_ne, hclosed ht, hclosed ht] at htest
    exact absurd htest.2 (h (List.mem_of_find?_eq_some hfind) htest.1.1 ht htest.1.2)

/-- An elaboration comes to a plan just if its last two checks succeed. -/
theorem exists_planWith_iff {closures : List Mask} :
    (∃ ranking plan, r.planWith closures = (ranking, .ok plan)) ↔
      r.checkConflictEnds (closureIn closures) = .ok () ∧
        r.checkTies (closureIn closures) r.staticOrder = .ok () := by
  unfold planWith
  simp only
  constructor
  · rintro ⟨ranking, plan, h⟩
    split at h
    · cases h
    · rename_i hends
      split at h
      · cases h
      · rename_i hties
        exact ⟨hends, hties⟩
  · rintro ⟨hends, hties⟩
    rw [hends, hties]
    exact ⟨_, _, rfl⟩

/-- The parts of a plan, when an elaboration comes to one. -/
theorem planWith_eq_ok {closures : List Mask} {ranking : Ranking} {plan : Plan}
    (h : r.planWith closures = (ranking, .ok plan)) :
    r.checkConflictEnds (closureIn closures) = .ok () ∧ plan =
      { closures := closures
        ranking := ⟨r.staticOrder, r.conflictRows (closureIn closures)⟩
        clusters := r.clusters ⟨r.staticOrder, r.conflictRows (closureIn closures)⟩
        callers := r.ids.map (r.rankedCallers (closureIn closures) r.staticOrder) } := by
  unfold planWith at h
  simp only at h
  split at h
  · cases h
  · rename_i hends
    split at h
    · cases h
    · exact ⟨hends, (Except.ok.inj (Prod.mk.inj h).2).symm⟩

end GuardedActions.Registry
