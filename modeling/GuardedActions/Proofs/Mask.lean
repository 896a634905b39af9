import GuardedActions.Encoder

/-!
# The lowest member of a mask

What an encoder picks out of a request vector, and what the complement of a vector requests.
-/

set_option autoImplicit false

namespace GuardedActions

namespace Mask

theorem test_complement (m : Mask) (i : Nat) :
    m.complement.test i = (decide (i < m.size) && !m.test i) := by
  simp only [test, complement, size, List.getElem?_map]
  by_cases hi : i < m.bits.length
  · simp [hi]
  · simp [hi]

theorem pairwise_members (m : Mask) : m.members.Pairwise (· < ·) :=
  List.Pairwise.filter _ List.pairwise_lt_range

end Mask

namespace Encoder

theorem lowest_eq_none {candidates : Mask} (h : lowest candidates = none) (i : Nat) :
    candidates.test i = false := by
  unfold lowest Mask.lowest? at h
  rw [List.head?_eq_none_iff] at h
  cases htest : candidates.test i with
  | false => rfl
  | true =>
    have hmem := Mask.mem_members.mpr htest
    rw [h] at hmem
    cases hmem

theorem lowest_eq_some {candidates : Mask} {winner : Nat} (h : lowest candidates = some winner) :
    candidates.test winner = true ∧ ∀ i, candidates.test i = true → winner ≤ i := by
  unfold lowest Mask.lowest? at h
  have hsorted := candidates.pairwise_members
  refine ⟨Mask.mem_members.mp (List.mem_of_head? h), fun i hi => ?_⟩
  obtain ⟨rest, hrest⟩ := List.head?_eq_some_iff.mp h
  have hi := Mask.mem_members.mpr hi
  rw [hrest] at hi hsorted
  rcases List.mem_cons.mp hi with rfl | hi
  · exact Nat.le_refl _
  · exact Nat.le_of_lt ((List.pairwise_cons.mp hsorted).1 i hi)

/-- Some request is picked if there is one. -/
theorem isSome_lowest {candidates : Mask} :
    (lowest candidates).isSome = true ↔ ∃ i, candidates.test i = true := by
  cases h : lowest candidates with
  | none => simp [lowest_eq_none h]
  | some winner => simpa using ⟨winner, (lowest_eq_some h).1⟩

end Encoder

end GuardedActions
