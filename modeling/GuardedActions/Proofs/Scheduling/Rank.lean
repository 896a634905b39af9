import GuardedActions.Proofs.Rearrangement
import GuardedActions.Proofs.Scheduling.Outcome

/-!
# The rank of call sites

Of the granted call sites of a method the first of least rank drives it, and among equals the one that
was declared first would.  But there are no equals: call sites of equal rank are reached by the same
transaction, which calls a method from one place only.
-/

set_option autoImplicit false

namespace GuardedActions

variable {σ : Type}

namespace Registry

/-- The rank of a call site under a plan. -/
def rankIn (r : Registry σ) (plan : Plan) (site : Nat) : Nat :=
  r.rankOfSite plan.closure plan.order site

variable {r : Registry σ} {plan : Plan}

theorem rankIn_eq {i : Nat} {u : Site σ} (hu : r.sites[i]? = some u) : r.rankIn plan i =
    (plan.order.findIdx? fun t => (plan.closure t).test u.caller).getD unreachedRank := by
  unfold rankIn rankOfSite
  rw [hu]

/-- The rank of a call site that a transaction reaches is the position of such a transaction. -/
theorem Elaborated.exists_order_of_rankIn (h : r.Elaborated plan) {i t : Nat} {u : Site σ}
    (hu : r.sites[i]? = some u) (ht : (r.transaction? t).isSome) (hreach : r.Reaches t u.caller) :
    ∃ best, plan.order[r.rankIn plan i]? = some best ∧ (r.transaction? best).isSome ∧
      r.Reaches best u.caller := by
  have hrank : r.rankIn plan i =
      (plan.order.findIdx? fun t => (plan.closure t).test u.caller).getD unreachedRank :=
    rankIn_eq hu
  cases hfound : plan.order.findIdx? fun t => (plan.closure t).test u.caller with
  | none =>
    have hnone := List.findIdx?_eq_none_iff.mp hfound t (h.mem_order.mpr ht)
    rw [(h.closed ht u.caller).mpr hreach] at hnone
    cases hnone
  | some k =>
    rw [hfound, Option.getD_some] at hrank
    obtain ⟨hk, htest, -⟩ := List.findIdx?_eq_some_iff_getElem.mp hfound
    have hbest := h.mem_order.mp (List.getElem_mem hk)
    rw [hrank]
    exact ⟨plan.order[k], List.getElem?_eq_getElem hk, hbest, (h.closed hbest u.caller).mp htest⟩

/-- Two call sites of one callee that transactions reach differ in rank. -/
theorem Elaborated.eq_of_rankIn_eq (h : r.Elaborated plan) {i j t t' : Nat} {u w : Site σ}
    (hu : r.sites[i]? = some u) (hw : r.sites[j]? = some w) (hcallee : u.callee = w.callee)
    (ht : (r.transaction? t).isSome) (hreach : r.Reaches t u.caller)
    (ht' : (r.transaction? t').isSome) (hreach' : r.Reaches t' w.caller)
    (hrank : r.rankIn plan i = r.rankIn plan j) : i = j := by
  obtain ⟨best, hbest, htransaction, hbestReach⟩ := h.exists_order_of_rankIn hu ht hreach
  obtain ⟨best', hbest', -, hbestReach'⟩ := h.exists_order_of_rankIn hw ht' hreach'
  rw [← hrank] at hbest'
  obtain rfl := Option.some.inj (hbest.symm.trans hbest')
  have hcaller : u.caller = w.caller :=
    h.single htransaction hbestReach hbestReach' ⟨i, u, hu, rfl, rfl⟩
      ⟨j, w, hw, rfl, by rw [hcallee]⟩
  exact h.unique hu hw hcaller hcallee

end Registry

/-- The caller order of every method is sorted by rank. -/
theorem Design.Built.pairwise_callersOf {d : Design σ} {plan : Plan} (built : d.Built)
    (hplan : d.main.plan = some plan) (x : Nat) :
    (plan.callersOf x).Pairwise fun i j => d.main.rankIn plan i ≤ d.main.rankIn plan j := by
  obtain ⟨before, closures, ranking, hbuilt, hanalyse, hplanned, hsame⟩ := built.exists_elaborated hplan
  obtain ⟨-, rfl⟩ := Registry.planWith_eq_ok hplanned
  -- the rank of a call site is the same before the elaboration and after it
  have hrank : before.main.rankOfSite (Registry.closureIn closures) before.main.staticOrder =
      d.main.rankOfSite (Registry.closureIn closures) before.main.staticOrder := by
    funext i
    unfold Registry.rankOfSite
    rw [hsame.sites]
  unfold Plan.callersOf
  simp only
  rw [List.getElem?_map]
  cases before.main.ids[x]? with
  | none => exact List.Pairwise.nil
  | some id =>
    rw [Option.map_some, Option.getD_some]
    unfold Registry.rankedCallers
    simp only
    rw [hrank]
    refine (List.pairwise_mergeSort ?_ ?_ _).imp ?_
    · intro i j k hij hjk
      simp only [Bool.or_eq_true, Bool.and_eq_true, decide_eq_true_iff, beq_iff_eq] at hij hjk ⊢
      omega
    · intro i j
      simp only [Bool.or_eq_true, Bool.and_eq_true, decide_eq_true_iff, beq_iff_eq]
      omega
    · intro i j hij
      simp only [Bool.or_eq_true, Bool.and_eq_true, decide_eq_true_iff, beq_iff_eq] at hij
      show d.main.rankOfSite _ _ i ≤ d.main.rankOfSite _ _ j
      exact hij.elim Nat.le_of_lt fun h => Nat.le_of_eq h.1

/-- The first element that passes a test, of a sorted list, is a least one that does. -/
theorem le_of_find?_eq_some {l : List Nat} {rank : Nat → Nat} {p : Nat → Bool} {i j : Nat}
    (hsorted : l.Pairwise fun i j => rank i ≤ rank j) (hi : l.find? p = some i) (hj : j ∈ l)
    (hp : p j = true) : rank i ≤ rank j := by
  obtain ⟨-, before, after, rfl, hbefore⟩ := List.find?_eq_some_iff_append.mp hi
  rcases List.mem_append.mp hj with hj | hj
  · have hnot := hbefore j hj
    rw [hp] at hnot
    cases hnot
  · obtain ⟨-, hlater, -⟩ := List.pairwise_append.mp hsorted
    rcases List.mem_cons.mp hj with rfl | hj
    · exact Nat.le_refl _
    · exact (List.pairwise_cons.mp hlater).1 j hj

namespace Machine.Schedules

variable {m : Machine σ} {plan : Plan} {s : Schedule}

/-- A granted call site is reached by a granted transaction. -/
theorem exists_transaction_of_site (h : m.design.main.Elaborated plan) (hs : m.Schedules plan s)
    {i : Nat} {u : Site σ} (hu : m.design.main.sites[i]? = some u)
    (hi : s.grantedSites.test i = true) :
    ∃ t, (m.design.main.transaction? t).isSome ∧ m.design.main.Reaches t u.caller := by
  obtain ⟨u', hu', -, hcaller⟩ := hs.site.mp hi
  obtain rfl := Option.some.inj (hu.symm.trans hu')
  obtain ⟨t, ht, hreach⟩ := hs.origin hcaller
  exact ⟨t, isSome_of_winner h ht, hreach.reaches⟩

/-- Granted call sites of one method differ in rank. -/
theorem eq_of_rankIn_eq (h : m.design.main.Elaborated plan) (hs : m.Schedules plan s) {i j : Nat}
    {u w : Site σ} (hu : m.design.main.sites[i]? = some u) (hw : m.design.main.sites[j]? = some w)
    (hcallee : u.callee = w.callee) (hi : s.grantedSites.test i = true)
    (hj : s.grantedSites.test j = true)
    (hrank : m.design.main.rankIn plan i = m.design.main.rankIn plan j) : i = j := by
  obtain ⟨t, ht, hreach⟩ := hs.exists_transaction_of_site h hu hi
  obtain ⟨t', ht', hreach'⟩ := hs.exists_transaction_of_site h hw hj
  exact h.eq_of_rankIn_eq hu hw hcallee ht hreach ht' hreach' hrank

/-- No granted call site of a method goes before the selected one. -/
theorem rankIn_le_of_selectedOf (built : m.design.Built) (hplan : m.design.main.plan = some plan)
    (hs : m.Schedules plan s) {x i j : Nat} {w : Site σ} (hi : s.selectedOf x = some i)
    (hw : m.design.main.sites[j]? = some w) (hcallee : w.callee = ⟨.main, x⟩)
    (hj : s.grantedSites.test j = true) :
    m.design.main.rankIn plan i ≤ m.design.main.rankIn plan j := by
  rw [hs.selectedOf] at hi
  split at hi
  · exact le_of_find?_eq_some (built.pairwise_callersOf hplan x) hi
      (built.mem_callersOf_of_site hplan hw hcallee) hj
  · cases hi

end Machine.Schedules

/-! ## Other positions, the same ranks -/

/-- Tests that agree on a list find the same position in it. -/
theorem findIdx?_congr {l : List Nat} {p q : Nat → Bool} (h : ∀ a ∈ l, p a = q a) :
    l.findIdx? p = l.findIdx? q := by
  induction l with
  | nil => rfl
  | cons a l ih =>
    rw [List.findIdx?_cons, List.findIdx?_cons, h a List.mem_cons_self,
      ih fun b hb => h b (List.mem_cons_of_mem _ hb)]

namespace Registry.Rearranged

variable {π ρ : Equiv.Perm Nat} {r r' : Registry σ} {plan plan' : Plan}

/-- The static order lists the same transactions in the same order. -/
theorem order_eq_map (hr : r.Rearranged π ρ r') (h : r.Elaborated plan) (h' : r'.Elaborated plan') :
    plan'.order = plan.order.map π := by
  have hranked : (plan.order.map π).Pairwise r'.Outranks := by
    rw [List.pairwise_map]
    exact h.ranked.imp hr.outranks
  have hmem : ∀ t', t' ∈ plan'.order ↔ t' ∈ plan.order.map π := by
    intro t'
    obtain ⟨t, rfl⟩ := π.surjective t'
    rw [h'.mem_order, hr.transaction_iff, ← h.mem_order,
      List.mem_map_of_injective π.injective]
  have hperm : plan'.order.Perm (plan.order.map π) := by
    rw [List.perm_ext_iff_of_nodup h'.nodup_order (h.nodup_order.map π.injective)]
    exact hmem
  refine hperm.eq_of_pairwise ?_ h'.ranked hranked
  intro a b _ _ hab hba
  exact absurd hba hab.asymm

/-- A call site keeps its rank. -/
theorem rankIn (hr : r.Rearranged π ρ r') (h : r.Elaborated plan) (h' : r'.Elaborated plan') {i : Nat}
    {u : Site σ} (hu : r.sites[i]? = some u) : r'.rankIn plan' (ρ i) = r.rankIn plan i := by
  obtain ⟨u', hu', hrenames⟩ := hr.exists_site hu
  have htest : ∀ t ∈ plan.order,
      (plan'.closure (π t)).test u'.caller = (plan.closure t).test u.caller := by
    intro t ht
    have ht := h.mem_order.mp ht
    rw [Bool.eq_iff_iff, h'.closed (hr.isSome_transaction? ht), h.closed ht, hrenames.caller]
    exact ⟨hr.reaches_back, hr.reaches⟩
  rw [rankIn_eq hu, rankIn_eq hu', hr.order_eq_map h h', List.findIdx?_map]
  exact congrArg (Option.getD · unreachedRank) (findIdx?_congr htest)

end Registry.Rearranged

end GuardedActions
