import GuardedActions.Proofs.CallGraph
import GuardedActions.Scheduling.Activation

/-!
# What activation leaves behind

Active call sites exist, and one that supplies its arguments has done so, in the shape of its callee's
inputs.
-/

set_option autoImplicit false

namespace GuardedActions

variable {σ : Type}

/-- Where arguments are entered, they and no others change. -/
theorem join_getElem?_set {early : List (Option Record)} {i : Nat} (hi : i < early.length)
    (args : Record) (j : Nat) :
    (early.set i (some args))[j]?.join = if i = j then some args else early[j]?.join := by
  rw [List.getElem?_set]
  by_cases heq : i = j
  · rw [if_pos heq, if_pos heq, if_pos hi]
    rfl
  · rw [if_neg heq, if_neg heq]

/-- Early arguments are those of active call sites. -/
structure Activation.Sound (d : Design σ) (a : Activation) : Prop where
  /-- there is a place for every call site among the active ones -/
  active_size : a.active.size = d.main.sites.length
  /-- there is a place for the arguments of every call site -/
  early_length : a.early.length = d.main.sites.length
  /-- an active call site exists and has supplied what it supplies -/
  supplied : ∀ {i : Nat}, a.active.test i = true → ∃ s : Site σ, d.main.sites[i]? = some s ∧
    (s.arguments.isSome → ∃ args, a.early[i]?.join = some args ∧
      ∀ {x : Method σ}, d.method? s.callee = some x → args.shape = x.input)

namespace Activation.Sound

variable {d : Design σ} {a : Activation}

theorem start (d : Design σ) :
    (Activation.start d.main.actions.length d.main.sites.length).Sound d where
  active_size := Mask.size_none _
  early_length := by simp [Activation.start]
  supplied := by
    intro i hi
    unfold Activation.start at hi
    rw [Mask.test_none] at hi
    cases hi

theorem request (h : a.Sound d) (action : Nat) : (a.request action).Sound d :=
  ⟨h.active_size, h.early_length, h.supplied⟩

theorem expand (h : a.Sound d) (action : Nat) : (a.expand action).Sound d :=
  ⟨h.active_size, h.early_length, h.supplied⟩

/-- A call site without early arguments becomes active. -/
theorem activate (h : a.Sound d) {i : Nat} {s : Site σ} (hs : d.main.sites[i]? = some s)
    (hnone : s.arguments = none) : (a.activate i).Sound d where
  active_size := (Mask.size_insert _ _).trans h.active_size
  early_length := h.early_length
  supplied := by
    intro j hj
    have hi : i < a.active.size := by
      rw [h.active_size]
      exact (List.getElem?_eq_some_iff.mp hs).1
    rcases (Mask.test_insert_iff hi).mp hj with hj | rfl
    · exact h.supplied hj
    · refine ⟨s, hs, fun hsome => ?_⟩
      rw [hnone] at hsome
      cases hsome

/-- A call site becomes active and supplies arguments of the right shape. -/
theorem supply (h : a.Sound d) {i : Nat} {s : Site σ} {args : Record}
    (hs : d.main.sites[i]? = some s)
    (hshape : ∀ {x : Method σ}, d.method? s.callee = some x → args.shape = x.input) :
    ((a.activate i).supply i args).Sound d where
  active_size := (Mask.size_insert _ _).trans h.active_size
  early_length := by
    unfold Activation.supply Activation.activate
    rw [List.length_set]
    exact h.early_length
  supplied := by
    intro j hj
    have hlt : i < d.main.sites.length := (List.getElem?_eq_some_iff.mp hs).1
    have hi : i < a.active.size := by
      rw [h.active_size]
      exact hlt
    show ∃ s, d.main.sites[j]? = some s ∧ (s.arguments.isSome → ∃ args',
      (a.early.set i (some args))[j]?.join = some args' ∧ _)
    rw [join_getElem?_set (by rw [h.early_length]; exact hlt)]
    by_cases heq : i = j
    · subst heq
      rw [if_pos rfl]
      exact ⟨s, hs, fun _ => ⟨args, rfl, hshape⟩⟩
    · rw [if_neg heq]
      rcases (Mask.test_insert_iff hi).mp hj with hj | hj
      · exact h.supplied hj
      · exact absurd hj.symm heq

end Activation.Sound

namespace Machine

variable {m : Machine σ}

theorem sound_of_activateSite {i : Nat} {s : Site σ} {a a' : Activation} {active : Bool}
    (h : a.Sound m.design) (hs : m.design.main.sites[i]? = some s)
    (hrun : m.activateSite i s a = .ok (a', active)) : a'.Sound m.design := by
  unfold activateSite at hrun
  obtain ⟨holds, -, hrun⟩ := bind_eq_ok.mp hrun
  split at hrun
  · simp only at hrun
    split at hrun
    · rename_i hnone
      obtain ⟨rfl, -⟩ := Prod.mk.inj (Except.ok.inj hrun)
      exact (h.activate hs hnone).request _
    · obtain ⟨args, -, hrun⟩ := bind_eq_ok.mp hrun
      split at hrun
      · rename_i hshape
        obtain ⟨rfl, -⟩ := Prod.mk.inj (Except.ok.inj hrun)
        refine (h.supply hs fun {x} hx => ?_).request _
        rw [hx] at hshape
        simpa using hshape
      · cases hrun
  · obtain ⟨rfl, -⟩ := Prod.mk.inj (Except.ok.inj hrun)
    exact h

end Machine

end GuardedActions
