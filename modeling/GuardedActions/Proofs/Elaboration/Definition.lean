import GuardedActions.Elaboration.Definition
import GuardedActions.Proofs.CallGraph
import Mathlib.Tactic.ByContra

/-!
# What the checks of single actions and call sites establish

Each check of elaboration that succeeds leaves a fact about the registry: names are distinct, bodies
are there, and a call site is the only one from its caller to its callee, a method of the main
registry that gets its arguments in time.  Where the fact holds, the check succeeds.
-/

set_option autoImplicit false

namespace GuardedActions

namespace Registry

variable {σ : Type} {r : Registry σ}

/-! ## Names -/

theorem nodup_of_firstRepeated {names seen : List String} (h : firstRepeated names seen = none) :
    names.Nodup ∧ ∀ name ∈ names, name ∉ seen := by
  induction names generalizing seen with
  | nil => simp
  | cons name rest ih =>
    unfold firstRepeated at h
    split at h
    · cases h
    · rename_i hnew
      obtain ⟨hnodup, hfresh⟩ := ih h
      have hhead : name ∉ rest := by
        intro hmem
        exact hfresh name hmem List.mem_cons_self
      refine ⟨List.nodup_cons.mpr ⟨hhead, hnodup⟩, ?_⟩
      intro other hother
      rcases List.mem_cons.mp hother with rfl | hother
      · exact hnew
      · intro hseen
        exact hfresh other hother (List.mem_cons_of_mem _ hseen)

/-- Actions at different positions have different names. -/
def NamesDistinct (r : Registry σ) : Prop :=
  ∀ {a b : Nat} {x y : Action σ}, r.action? a = some x → r.action? b = some y → x.name = y.name →
    a = b

theorem namesDistinct_of_checkNames (h : r.checkNames = .ok ()) : r.NamesDistinct := by
  unfold checkNames at h
  split at h
  · rename_i hnone
    obtain ⟨hnodup, -⟩ := nodup_of_firstRepeated hnone
    intro a b x y hx hy hname
    have hxname : (r.actions.map Action.name)[a]? = some x.name := by
      rw [List.getElem?_map]
      unfold action? at hx
      rw [hx]
      rfl
    have hyname : (r.actions.map Action.name)[b]? = some x.name := by
      rw [List.getElem?_map]
      unfold action? at hy
      rw [hy, hname]
      rfl
    have hlt := (List.getElem?_eq_some_iff.mp hxname).1
    exact (List.getElem?_inj hlt hnodup).mp (hxname.trans hyname.symm)
  · cases h

theorem firstRepeated_eq_none {names seen : List String} (hnodup : names.Nodup)
    (hfresh : ∀ name ∈ names, name ∉ seen) : firstRepeated names seen = none := by
  induction names generalizing seen with
  | nil => rfl
  | cons name rest ih =>
    obtain ⟨hhead, hrest⟩ := List.nodup_cons.mp hnodup
    unfold firstRepeated
    rw [if_neg (hfresh name List.mem_cons_self)]
    refine ih hrest ?_
    intro other hother hseen
    rcases List.mem_cons.mp hseen with rfl | hseen
    · exact hhead hother
    · exact hfresh other (List.mem_cons_of_mem _ hother) hseen

theorem nodup_of_namesDistinct (h : r.NamesDistinct) : (r.actions.map Action.name).Nodup := by
  rw [List.Nodup, List.pairwise_map, List.pairwise_iff_getElem]
  intro a b ha hb hlt hname
  have heq := h (List.getElem?_eq_getElem ha) (List.getElem?_eq_getElem hb) hname
  omega

theorem checkNames_of_namesDistinct (h : r.NamesDistinct) : r.checkNames = .ok () := by
  unfold checkNames
  rw [firstRepeated_eq_none (nodup_of_namesDistinct h) fun _ _ => List.not_mem_nil]

/-! ## Bodies -/

theorem isDefined_of_checkBodies (h : r.checkBodies = .ok ()) {id : Nat} {x : Action σ}
    (hx : r.action? id = some x) : x.isDefined = true := by
  unfold checkBodies at h
  split at h
  · rename_i hnone
    have hmem : x ∈ r.actions := List.mem_of_getElem? hx
    have hdefined := List.find?_eq_none.mp hnone x hmem
    simpa using hdefined
  · cases h

theorem checkBodies_of_isDefined
    (h : ∀ {id : Nat} {x : Action σ}, r.action? id = some x → x.isDefined = true) :
    r.checkBodies = .ok () := by
  have hnone : (r.actions.find? fun a => !a.isDefined) = none := by
    rw [List.find?_eq_none]
    intro x hx
    obtain ⟨id, hid⟩ := List.getElem?_of_mem hx
    simpa using h (show r.action? id = some x from hid)
  unfold checkBodies
  rw [hnone]

end Registry

namespace Design

variable {σ : Type} {d : Design σ}

/-! ## Call sites -/

/-- What is right about every call site of the main registry. -/
structure SitesSound (d : Design σ) : Prop where
  /-- the callee belongs to the main registry -/
  callee_main : ∀ {i : Nat} {s : Site σ}, d.main.sites[i]? = some s → s.callee.domain = .main
  /-- no other call site of the caller has this callee -/
  unique : ∀ {i j : Nat} {s u : Site σ}, d.main.sites[i]? = some s → d.main.sites[j]? = some u →
    s.caller = u.caller → s.callee = u.callee → i = j
  /-- arguments that the callee needs before arbitration are supplied -/
  in_time : ∀ {i : Nat} {s : Site σ} {x : Method σ}, d.main.sites[i]? = some s →
    d.main.method? s.callee.id = some x → x.needsEarly = true → s.arguments.isSome = true

theorem sitesSound_of_checkSites (h : d.checkSites = .ok ()) : d.SitesSound := by
  unfold checkSites at h
  split at h
  · rename_i hnone
    have hflaw : ∀ {i : Nat} {s : Site σ}, d.main.sites[i]? = some s → d.siteFlaw? i s = none := by
      intro i s hs
      exact List.findSome?_eq_none_iff.mp hnone (i, s) (Registry.mem_numberedSites.mpr hs)
    have hmain : ∀ {i : Nat} {s : Site σ}, d.main.sites[i]? = some s → s.callee.domain = .main := by
      intro i s hs
      have hs := hflaw hs
      unfold siteFlaw? at hs
      by_contra hne
      rw [if_pos hne] at hs
      cases hs
    -- the earlier of two call sites would be found by the check of the later one
    have hearlier : ∀ {i j : Nat} {s u : Site σ}, d.main.sites[i]? = some s →
        d.main.sites[j]? = some u → s.caller = u.caller → s.callee = u.callee → ¬ i < j := by
      intro i j s u hs hu hcaller hcallee hlt
      have hj := hflaw hu
      unfold siteFlaw? at hj
      rw [if_neg (by simpa using hmain hu)] at hj
      have hany : ((d.main.sitesOf u.caller).any
          fun x => decide (x.1 < j) && x.2.callee == u.callee) = true := by
        rw [List.any_eq_true]
        refine ⟨(i, s), Registry.mem_sitesOf.mpr ⟨hs, hcaller⟩, ?_⟩
        simp [hlt, hcallee]
      rw [if_pos hany] at hj
      cases hj
    refine ⟨hmain, ?_, ?_⟩
    · intro i j s u hs hu hcaller hcallee
      have hij := hearlier hs hu hcaller hcallee
      have hji := hearlier hu hs hcaller.symm hcallee.symm
      omega
    · intro i s x hs hx hneeds
      have hi := hflaw hs
      unfold siteFlaw? at hi
      by_contra hlate
      have hnone : s.arguments.isNone = true := by simpa using hlate
      rw [if_neg (by simpa using hmain hs)] at hi
      split at hi
      · cases hi
      · rw [hx, Option.any_some, hneeds, hnone] at hi
        cases hi
  · cases h

theorem siteFlaw?_eq_none (h : d.SitesSound) {i : Nat} {s : Site σ}
    (hs : d.main.sites[i]? = some s) : d.siteFlaw? i s = none := by
  have hearlier : ¬ ((d.main.sitesOf s.caller).any
      fun x => decide (x.1 < i) && x.2.callee == s.callee) = true := by
    rw [List.any_eq_true]
    rintro ⟨⟨j, u⟩, hmem, htest⟩
    obtain ⟨hu, hcaller⟩ := Registry.mem_sitesOf.mp hmem
    rw [Bool.and_eq_true, decide_eq_true_iff, beq_iff_eq] at htest
    have heq := h.unique hu hs hcaller htest.2
    omega
  have hlate : ¬ ((d.main.method? s.callee.id).any Method.needsEarly && s.arguments.isNone) = true := by
    rw [Bool.and_eq_true, Option.any_eq_true]
    rintro ⟨⟨x, hx, hneeds⟩, hnone⟩
    have hsome := h.in_time hs hx hneeds
    rw [Option.isNone_iff_eq_none.mp hnone] at hsome
    cases hsome
  unfold siteFlaw?
  simp only
  rw [if_neg (by simpa using h.callee_main hs), if_neg hearlier, if_neg hlate]

theorem checkSites_of_sitesSound (h : d.SitesSound) : d.checkSites = .ok () := by
  have hnone : (d.main.numberedSites.findSome? fun s => d.siteFlaw? s.1 s.2) = none := by
    rw [List.findSome?_eq_none_iff]
    rintro ⟨i, s⟩ hmem
    exact siteFlaw?_eq_none h (Registry.mem_numberedSites.mp hmem)
  unfold checkSites
  rw [hnone]

end Design

end GuardedActions
