import GuardedActions.Proofs.Elaboration.Conflict
import Mathlib.Data.List.TakeWhile

/-!
# Ties

A tie is a pair of competing transactions of equal priority that nothing but arbitration can ever hold
back.  The search for one looks at each transaction of the static order and at those of equal priority
that follow it without a gap; the order is sorted, so that it misses none.
-/

set_option autoImplicit false

namespace GuardedActions.Registry

variable {σ : Type} {r : Registry σ}

/-- A transaction is requested in every cycle and always runnable: it has no request predicate, and
nothing that it reaches has a readiness predicate, a validator or a conditional call. -/
structure Unconditional (r : Registry σ) (t : Nat) : Prop where
  /-- it is a transaction without a request predicate -/
  request : ∃ x : Transaction σ, r.transaction? t = some x ∧ x.request = none
  /-- no method below it has a readiness predicate or a validator -/
  method : ∀ {a : Nat} {x : Method σ}, r.Reaches t a → r.method? a = some x →
    x.ready = none ∧ x.validator = none
  /-- no call below it is conditional -/
  call : ∀ {i : Nat} {s : Site σ}, r.sites[i]? = some s → r.Reaches t s.caller → s.condition = none

/-- Two actions have the same priority. -/
def SamePriority (r : Registry σ) (a b : Nat) : Prop :=
  (r.action? a).map Action.priority = (r.action? b).map Action.priority

theorem neverHeldBack_iff {closure : Nat → Mask} (hclosed : r.Closed closure) {t : Nat}
    (ht : (r.transaction? t).isSome) : r.neverHeldBack closure t = true ↔ r.Unconditional t := by
  unfold neverHeldBack
  rw [Bool.and_eq_true, Option.any_eq_true, List.all_eq_true]
  constructor
  · rintro ⟨⟨x, hx, hrequest⟩, hall⟩
    have hbelow : ∀ {a : Nat}, r.Reaches t a →
        ((r.method? a).any fun m => m.ready.isSome || m.validator.isSome) = false ∧
          ((r.sitesOf a).all fun s => s.2.condition.isNone) = true := by
      intro a ha
      have htest := hall a (Mask.mem_members.mpr ((hclosed ht a).mpr ha))
      rw [Bool.and_eq_true, Bool.not_eq_true'] at htest
      exact htest
    refine ⟨⟨x, hx, Option.isNone_iff_eq_none.mp hrequest⟩, ?_, ?_⟩
    · intro a m ha hm
      have htest := (hbelow ha).1
      rw [hm, Option.any_some, Bool.or_eq_false_iff] at htest
      simpa using htest
    · intro i s hs ha
      have htest := List.all_eq_true.mp (hbelow ha).2 (i, s) (mem_sitesOf.mpr ⟨hs, rfl⟩)
      exact Option.isNone_iff_eq_none.mp htest
  · rintro ⟨⟨x, hx, hrequest⟩, hmethod, hcall⟩
    refine ⟨⟨x, hx, Option.isNone_iff_eq_none.mpr hrequest⟩, ?_⟩
    intro a ha
    have ha := (hclosed ht a).mp (Mask.mem_members.mp ha)
    rw [Bool.and_eq_true, Bool.not_eq_true', List.all_eq_true]
    constructor
    · cases hm : r.method? a with
      | none => rfl
      | some m =>
        obtain ⟨hready, hvalidator⟩ := hmethod ha hm
        simp [hready, hvalidator]
    · rintro ⟨i, s⟩ hs
      obtain ⟨hsite, rfl⟩ := mem_sitesOf.mp hs
      exact Option.isNone_iff_eq_none.mpr (hcall hsite ha)

/-! ## The search -/

/-- The priority of one action is not below that of another. -/
def Graded (r : Registry σ) (a b : Nat) : Prop :=
  ∃ x y : Action σ, r.action? a = some x ∧ r.action? b = some y ∧ y.priority ≤ x.priority

theorem Outranks.graded {a b : Nat} (h : r.Outranks a b) : r.Graded a b := by
  obtain ⟨x, y, hx, hy, hrank⟩ := h
  refine ⟨x, y, hx, hy, ?_⟩
  rcases hrank with hlt | ⟨heq, -⟩
  · omega
  · omega

/-- What lies between two actions of the same priority has it too. -/
theorem SamePriority.between {a b c : Nat} (h : r.SamePriority a b) (hac : r.Graded a c)
    (hcb : r.Graded c b) : r.SamePriority a c := by
  obtain ⟨x, y, hx, hy, hle⟩ := hac
  obtain ⟨y', z, hy', hz, hle'⟩ := hcb
  obtain rfl : y = y' := Option.some.inj (hy.symm.trans hy')
  unfold SamePriority at *
  rw [hx, hz] at h
  rw [hx, hy]
  have heq : x.priority = z.priority := Option.some.inj h
  exact congrArg some (by omega)

/-- In a sorted list the actions of the priority of the first one follow it without a gap. -/
theorem mem_equals {a b : Nat} {rest : List Nat} (hsorted : (a :: rest).Pairwise r.Graded)
    (hb : b ∈ rest) (hsame : r.SamePriority a b) :
    b ∈ rest.takeWhile fun b =>
      ((r.action? a).map Action.priority) == ((r.action? b).map Action.priority) := by
  induction rest with
  | nil => cases hb
  | cons c rest ih =>
    obtain ⟨ha, htail⟩ := List.pairwise_cons.mp hsorted
    obtain ⟨hc, hrest⟩ := List.pairwise_cons.mp htail
    have hac : r.SamePriority a c := by
      rcases List.mem_cons.mp hb with rfl | hb
      · exact hsame
      · exact hsame.between (ha c List.mem_cons_self) (hc b hb)
    unfold SamePriority at hac
    rw [List.takeWhile_cons_of_pos (by simpa using hac)]
    rcases List.mem_cons.mp hb with rfl | hb
    · exact List.mem_cons_self
    · apply List.mem_cons_of_mem
      exact ih (List.pairwise_cons.mpr ⟨fun x hx => ha x (List.mem_cons_of_mem _ hx), hrest⟩) hb

/-- The test that the search makes of two transactions of equal priority. -/
def clash (r : Registry σ) (closure : Nat → Mask) (a b : Nat) : Bool :=
  r.conflicting closure a b && r.neverHeldBack closure a && r.neverHeldBack closure b

theorem findTie?_eq_none_iff {closure : Nat → Mask} {list : List Nat}
    (hsorted : list.Pairwise r.Graded) : r.findTie? closure list = none ↔
      list.Pairwise fun a b => r.SamePriority a b → r.clash closure a b = false := by
  induction list with
  | nil => simp [findTie?]
  | cons a rest ih =>
    have hrest := (List.pairwise_cons.mp hsorted).2
    unfold findTie?
    simp only
    rw [List.pairwise_cons]
    split
    · rename_i b hfind
      constructor
      · intro h
        cases h
      · rintro ⟨ha, -⟩
        have hmem := List.mem_of_find?_eq_some hfind
        have hsame := List.mem_takeWhile_imp hmem
        have htest := List.find?_some hfind
        have hfalse := ha b ((List.takeWhile_sublist _).subset hmem) (beq_iff_eq.mp hsame)
        unfold clash at hfalse
        rw [htest] at hfalse
        cases hfalse
    · rename_i hnone
      rw [ih hrest]
      constructor
      · intro h
        refine ⟨fun b hb hsame => ?_, h⟩
        have htest := List.find?_eq_none.mp hnone b (mem_equals hsorted hb hsame)
        exact Bool.eq_false_iff.mpr htest
      · exact fun h => h.2

/-- Two competing transactions of equal priority that nothing but arbitration can hold back. -/
structure Tied (r : Registry σ) (a b : Nat) : Prop where
  /-- they may not run in the same cycle -/
  compete : r.Competes a b
  /-- neither has the better priority -/
  priority : r.SamePriority a b
  /-- the first is never held back -/
  first : r.Unconditional a
  /-- the second is never held back -/
  second : r.Unconditional b

theorem clash_iff {closure : Nat → Mask} (hclosed : r.Closed closure) {a b : Nat} :
    r.clash closure a b = true ↔ r.Competes a b ∧ r.Unconditional a ∧ r.Unconditional b := by
  unfold clash
  rw [Bool.and_eq_true, Bool.and_eq_true, conflicting_iff hclosed, and_assoc]
  constructor
  · rintro ⟨hcompete, ha, hb⟩
    exact ⟨hcompete, (neverHeldBack_iff hclosed hcompete.2.1).mp ha,
      (neverHeldBack_iff hclosed hcompete.2.2.1).mp hb⟩
  · rintro ⟨hcompete, ha, hb⟩
    exact ⟨hcompete, (neverHeldBack_iff hclosed hcompete.2.1).mpr ha,
      (neverHeldBack_iff hclosed hcompete.2.2.1).mpr hb⟩

/-- The last check of elaboration succeeds just if no two transactions are tied. -/
theorem checkTies_iff {closure : Nat → Mask} (hclosed : r.Closed closure) (hnames : r.NamesDistinct) :
    r.checkTies closure r.staticOrder = .ok () ↔ ∀ a b, ¬ r.Tied a b := by
  have hsorted : r.staticOrder.Pairwise r.Graded :=
    (pairwise_staticOrder hnames).imp Outranks.graded
  have hnone : r.checkTies closure r.staticOrder = .ok () ↔
      r.findTie? closure r.staticOrder = none := by
    unfold checkTies
    split
    · rename_i hnone
      simp [hnone]
    · rename_i a b hfind
      simp [hfind]
  rw [hnone, findTie?_eq_none_iff hsorted]
  constructor
  · intro hpair a b htied
    have hsymm : Std.Symm fun a b => r.SamePriority a b → r.clash closure a b = false := by
      refine ⟨fun a b hab hsame => Bool.eq_false_iff.mpr fun hclash => ?_⟩
      obtain ⟨hcompete, hb, ha⟩ := (clash_iff hclosed).mp hclash
      have hclash' := (clash_iff hclosed).mpr ⟨hcompete.symm, ha, hb⟩
      rw [hab hsame.symm] at hclash'
      cases hclash'
    have hfalse := hpair.forall (mem_staticOrder.mpr htied.compete.2.1)
      (mem_staticOrder.mpr htied.compete.2.2.1) htied.compete.1 htied.priority
    rw [(clash_iff hclosed).mpr ⟨htied.compete, htied.first, htied.second⟩] at hfalse
    cases hfalse
  · intro hties
    refine List.pairwise_iff_getElem.mpr fun i j hi hj _ hsame => Bool.eq_false_iff.mpr ?_
    intro hclash
    obtain ⟨hcompete, ha, hb⟩ := (clash_iff hclosed).mp hclash
    exact hties _ _ ⟨hcompete, hsame, ha, hb⟩

end GuardedActions.Registry
