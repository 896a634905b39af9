import GuardedActions.Elaboration.Conflict
import GuardedActions.Proofs.Elaboration.Definition
import Mathlib.Data.List.Nodup

/-!
# The static order

Elaboration lists every transaction once, those of higher priority first and those of equal priority
by name.
-/

set_option autoImplicit false

namespace GuardedActions.Registry

variable {σ : Type} {r : Registry σ}

/-- One action has a strictly better static rank than another: a higher priority, or the same
priority and a name that comes first. -/
def Outranks (r : Registry σ) (a b : Nat) : Prop :=
  ∃ x y : Action σ, r.action? a = some x ∧ r.action? b = some y ∧
    (y.priority < x.priority ∨ (x.priority = y.priority ∧ x.name < y.name))

/-- Whether one pair of priority and name goes before another, or is the same. -/
def keyBefore (a b : Int × String) : Bool :=
  decide (b.1 < a.1) || (a.1 == b.1 && decide (a.2 ≤ b.2))

theorem keyBefore_iff {a b : Int × String} :
    keyBefore a b = true ↔ b.1 < a.1 ∨ (a.1 = b.1 ∧ a.2 ≤ b.2) := by
  unfold keyBefore
  simp

theorem keyBefore_trans {a b c : Int × String} (hab : keyBefore a b = true)
    (hbc : keyBefore b c = true) : keyBefore a c = true := by
  rw [keyBefore_iff] at *
  rcases hab with hab | ⟨hab, hname⟩
  · rcases hbc with hbc | ⟨hbc, -⟩
    · exact Or.inl (by omega)
    · exact Or.inl (by omega)
  · rcases hbc with hbc | ⟨hbc, hname'⟩
    · exact Or.inl (by omega)
    · exact Or.inr ⟨hab.trans hbc, String.le_trans hname hname'⟩

theorem keyBefore_total (a b : Int × String) : (keyBefore a b || keyBefore b a) = true := by
  rw [Bool.or_eq_true, keyBefore_iff, keyBefore_iff]
  rcases Int.lt_trichotomy a.1 b.1 with h | h | h
  · exact Or.inr (Or.inl h)
  · rcases String.le_total a.2 b.2 with hname | hname
    · exact Or.inl (Or.inr ⟨h, hname⟩)
    · exact Or.inr (Or.inr ⟨h.symm, hname⟩)
  · exact Or.inl (Or.inl h)

/-- The priority and the name that decide about the rank of a position. -/
def rankKey (r : Registry σ) (id : Nat) : Int × String :=
  ((r.action? id).map fun x => (x.priority, x.name)).getD (0, "")

theorem before_eq_keyBefore {a b : Nat} (ha : a ∈ r.transactions) (hb : b ∈ r.transactions) :
    r.before a b = keyBefore (r.rankKey a) (r.rankKey b) := by
  obtain ⟨t, ht⟩ := Option.isSome_iff_exists.mp (mem_transactions.mp ha)
  obtain ⟨u, hu⟩ := Option.isSome_iff_exists.mp (mem_transactions.mp hb)
  obtain ⟨x, hx, -⟩ := transaction?_eq_some.mp ht
  obtain ⟨y, hy, -⟩ := transaction?_eq_some.mp hu
  have hx : r.action? a = some x := hx
  have hy : r.action? b = some y := hy
  unfold before rankKey keyBefore
  rw [hx, hy]
  rfl

theorem perm_staticOrder : r.staticOrder.Perm r.transactions := List.mergeSort_perm _ _

theorem mem_staticOrder {t : Nat} : t ∈ r.staticOrder ↔ (r.transaction? t).isSome := by
  rw [perm_staticOrder.mem_iff, mem_transactions]

theorem nodup_staticOrder : r.staticOrder.Nodup := by
  rw [perm_staticOrder.nodup_iff]
  exact List.Nodup.filter _ List.nodup_range

/-- Of two transactions in the order the first has the better rank. -/
theorem pairwise_staticOrder (hnames : r.NamesDistinct) : r.staticOrder.Pairwise r.Outranks := by
  have hkeys : (r.staticOrder.map r.rankKey).Pairwise fun a b => keyBefore a b = true := by
    have hmap : r.staticOrder.map r.rankKey = (r.transactions.map r.rankKey).mergeSort keyBefore :=
      List.map_mergeSort fun a ha b hb => before_eq_keyBefore ha hb
    rw [hmap]
    have htrans : ∀ a b c, keyBefore a b = true → keyBefore b c = true → keyBefore a c = true :=
      fun _ _ _ => keyBefore_trans
    exact List.pairwise_mergeSort htrans keyBefore_total _
  rw [List.pairwise_map] at hkeys
  refine (hkeys.and nodup_staticOrder).imp_of_mem ?_
  intro a b ha hb hab
  obtain ⟨hle, hne⟩ := hab
  obtain ⟨t, ht⟩ := Option.isSome_iff_exists.mp (mem_staticOrder.mp ha)
  obtain ⟨u, hu⟩ := Option.isSome_iff_exists.mp (mem_staticOrder.mp hb)
  obtain ⟨x, hx, -⟩ := transaction?_eq_some.mp ht
  obtain ⟨y, hy, -⟩ := transaction?_eq_some.mp hu
  have hx : r.action? a = some x := hx
  have hy : r.action? b = some y := hy
  refine ⟨x, y, hx, hy, ?_⟩
  rw [keyBefore_iff] at hle
  unfold rankKey at hle
  rw [hx, hy] at hle
  rcases hle with hlt | ⟨heq, hname⟩
  · exact Or.inl hlt
  · refine Or.inr ⟨heq, ?_⟩
    -- two transactions of one name would be one transaction
    have hdistinct : x.name ≠ y.name := fun h => hne (hnames hx hy h)
    exact Std.lt_of_le_of_ne hname hdistinct

/-- Nothing outranks what outranks it. -/
theorem Outranks.asymm {a b : Nat} (hab : r.Outranks a b) : ¬ r.Outranks b a := by
  rintro ⟨y', x', hy', hx', hba⟩
  obtain ⟨x, y, hx, hy, hab⟩ := hab
  obtain rfl : x = x' := Option.some.inj (hx.symm.trans hx')
  obtain rfl : y = y' := Option.some.inj (hy.symm.trans hy')
  rcases hab with hab | ⟨hab, hname⟩
  · rcases hba with hba | ⟨hba, -⟩
    · omega
    · omega
  · rcases hba with hba | ⟨-, hname'⟩
    · omega
    · exact String.lt_asymm hname hname'

end GuardedActions.Registry
