import GuardedActions.Proofs.MutualExclusion

/-!
# What the conflict relation says

The conflicts of an elaborated design can be told from its calls and its declared conflicts alone: no
condition of a call matters, nor the order in which conflicts were declared, nor which of the two
actions was named first.
-/

set_option autoImplicit false

namespace GuardedActions

variable {σ : Type}

namespace Registry

/-- Two actions reach some method that admits one caller per cycle. -/
def ShareExclusive (r : Registry σ) (a b : Nat) : Prop :=
  ∃ (x : Nat) (method : Method σ), r.method? x = some method ∧ method.nonexclusive = false ∧
    r.Reaches a x ∧ r.Reaches b x

/-- Some declared conflict has one end that the first action reaches and one that the second does. -/
def DeclaredBetween (r : Registry σ) (a b : Nat) : Prop :=
  ∃ pair ∈ r.conflicts, (r.Reaches a pair.1 ∧ r.Reaches b pair.2) ∨
    (r.Reaches a pair.2 ∧ r.Reaches b pair.1)

variable {r : Registry σ}

theorem shareExclusive_iff {a b : Nat} : r.ShareExclusive a b ↔
    ∃ x, r.isExclusive x = true ∧ r.Reaches a x ∧ r.Reaches b x := by
  constructor
  · rintro ⟨x, method, hmethod, hexclusive, hreach⟩
    exact ⟨x, (isExclusive_iff hmethod).mpr hexclusive, hreach⟩
  · rintro ⟨x, hexclusive, hreach⟩
    obtain ⟨method, hmethod⟩ :=
      Option.isSome_iff_exists.mp (isSome_method?_of_isExclusive hexclusive)
    exact ⟨x, method, hmethod, (isExclusive_iff hmethod).mp hexclusive, hreach⟩

theorem declaredBetween_iff {a b : Nat} :
    r.DeclaredBetween a b ↔ r.ReachEnds a b ∨ r.ReachEnds b a := by
  unfold ReachEnds
  constructor
  · rintro ⟨pair, hpair, ⟨ha, hb⟩ | ⟨ha, hb⟩⟩
    · exact Or.inl ⟨pair, hpair, ha, hb⟩
    · exact Or.inr ⟨pair, hpair, hb, ha⟩
  · rintro (⟨pair, hpair, ha, hb⟩ | ⟨pair, hpair, hb, ha⟩)
    · exact ⟨pair, hpair, Or.inl ⟨ha, hb⟩⟩
    · exact ⟨pair, hpair, Or.inr ⟨ha, hb⟩⟩

theorem competes_iff {a b : Nat} (ha : (r.transaction? a).isSome) (hb : (r.transaction? b).isSome) :
    r.Competes a b ↔ a ≠ b ∧ (r.ShareExclusive a b ∨ r.DeclaredBetween a b) := by
  unfold Competes
  rw [shareExclusive_iff, declaredBetween_iff]
  constructor
  · rintro ⟨hne, -, -, hshare⟩
    exact ⟨hne, hshare⟩
  · rintro ⟨hne, hshare⟩
    exact ⟨hne, ha, hb, hshare⟩

/-! ## What the relation depends on -/

/-- The parts of two registries that their conflicts are made of: kinds of actions, exclusive methods,
who calls whom, and the declared pairs, whichever way round and in whatever order. -/
structure SameUsers (r r' : Registry σ) : Prop where
  /-- the same actions are transactions -/
  transaction : ∀ id, (r.transaction? id).isSome = (r'.transaction? id).isSome
  /-- the same methods admit one caller per cycle -/
  exclusive : ∀ id, r.isExclusive id = r'.isExclusive id
  /-- the same actions call each other, under whatever conditions -/
  calls : ∀ a b, r.Calls a b ↔ r'.Calls a b
  /-- the same pairs of actions are declared to conflict -/
  declared : ∀ a b, ((a, b) ∈ r.conflicts ∨ (b, a) ∈ r.conflicts) ↔
    ((a, b) ∈ r'.conflicts ∨ (b, a) ∈ r'.conflicts)

variable {r' : Registry σ}

theorem SameUsers.symm (h : r.SameUsers r') : r'.SameUsers r where
  transaction := fun id => (h.transaction id).symm
  exclusive := fun id => (h.exclusive id).symm
  calls := fun a b => (h.calls a b).symm
  declared := fun a b => (h.declared a b).symm

theorem SameUsers.reaches (h : r.SameUsers r') : r.Reaches = r'.Reaches := by
  have hcalls : r.Calls = r'.Calls := by
    funext a b
    exact propext (h.calls a b)
  unfold Reaches
  rw [hcalls]

/-- A declared pair joins the same actions whichever end is named first. -/
theorem SameUsers.declaredBetween (h : r.SameUsers r') {a b : Nat} (hab : r.DeclaredBetween a b) :
    r'.DeclaredBetween a b := by
  unfold DeclaredBetween at hab ⊢
  rw [h.reaches] at hab
  obtain ⟨⟨x, y⟩, hpair, hreach⟩ := hab
  rcases (h.declared x y).mp (Or.inl hpair) with hpair | hpair
  · exact ⟨(x, y), hpair, hreach⟩
  · exact ⟨(y, x), hpair, hreach.symm⟩

theorem SameUsers.competes (h : r.SameUsers r') {a b : Nat} (hab : r.Competes a b) :
    r'.Competes a b := by
  obtain ⟨hne, ha, hb, hshare⟩ := hab
  rw [h.transaction] at ha hb
  refine ⟨hne, ha, hb, ?_⟩
  rcases hshare with ⟨x, hx, hreach⟩ | hends
  · rw [h.exclusive] at hx
    rw [h.reaches] at hreach
    exact Or.inl ⟨x, hx, hreach⟩
  · have hdeclared := h.declaredBetween (declaredBetween_iff.mpr hends)
    exact Or.inr (declaredBetween_iff.mp hdeclared)

end Registry

/-- The conflicts of an elaborated design.  Two transactions conflict just if they are different and
either both reach some exclusive method or each reaches one end of a declared conflict.  So the
relation is symmetric and irreflexive, and any other elaborated design with the same callers, exclusive
methods and declared pairs has the same one. -/
theorem Design.Built.conflict_iff_share {d : Design σ} (built : d.Built)
    (frozen : d.main.isFrozen = true) :
    (∀ a b, (d.main.transaction? a).isSome → (d.main.transaction? b).isSome →
      (d.main.ranking.conflict a b = true ↔
        a ≠ b ∧ (d.main.ShareExclusive a b ∨ d.main.DeclaredBetween a b))) ∧
      (∀ a b, d.main.ranking.conflict a b = d.main.ranking.conflict b a) ∧
      (∀ a, d.main.ranking.conflict a a = false) ∧
      ∀ e : Design σ, e.Built → e.main.isFrozen = true → d.main.SameUsers e.main →
        e.main.ranking.conflict = d.main.ranking.conflict := by
  have hcompetes : ∀ {e : Design σ}, e.Built → e.main.isFrozen = true →
      ∀ a b, e.main.ranking.conflict a b = true ↔ e.main.Competes a b := by
    intro e hbuilt hfrozen a b
    obtain ⟨plan, hplan⟩ := Option.isSome_iff_exists.mp hfrozen
    rw [hbuilt.ranking_eq hplan]
    exact (hbuilt.elaborated hplan).conflict
  have hown := hcompetes built frozen
  refine ⟨?_, ?_, ?_, ?_⟩
  · intro a b ha hb
    rw [hown]
    exact Registry.competes_iff ha hb
  · intro a b
    rw [Bool.eq_iff_iff, hown, hown]
    exact ⟨Registry.Competes.symm, Registry.Competes.symm⟩
  · intro a
    cases hself : d.main.ranking.conflict a a with
    | false => rfl
    | true => exact absurd rfl ((hown a a).mp hself).1
  · intro e hbuilt hfrozen hsame
    funext a b
    rw [Bool.eq_iff_iff, hcompetes hbuilt hfrozen, hown]
    exact ⟨hsame.symm.competes, hsame.competes⟩

/-- The two transactions that add to the accumulator conflict, since both reach its exclusive method;
the one that reads conflicts with neither. -/
theorem Accumulator.conflicts_by_sharing : design.main.isFrozen = true ∧
    design.main.ranking.conflict 2 3 = true ∧ design.main.ShareExclusive 2 3 ∧
    design.main.ranking.conflict 3 4 = false ∧ ¬ design.main.ShareExclusive 3 4 := by
  have hfrozen : design.main.isFrozen = true := by cbv
  have hadders : design.main.ranking.conflict 2 3 = true := by cbv
  have hreader : design.main.ranking.conflict 3 4 = false := by cbv
  have hconflicts : design.main.conflicts = [] := by cbv
  obtain ⟨hiff, -⟩ := built.conflict_iff_share hfrozen
  refine ⟨hfrozen, hadders, ?_, hreader, ?_⟩
  · obtain ⟨-, hshare | ⟨pair, hpair, -⟩⟩ := (hiff 2 3 (by cbv) (by cbv)).mp hadders
    · exact hshare
    · rw [hconflicts] at hpair
      cases hpair
  · intro hshare
    have hconflict := (hiff 3 4 (by cbv) (by cbv)).mpr ⟨by decide, Or.inl hshare⟩
    rw [hreader] at hconflict
    cases hconflict

end GuardedActions
