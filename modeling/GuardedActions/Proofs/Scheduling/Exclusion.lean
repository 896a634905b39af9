import GuardedActions.Execution
import GuardedActions.Proofs.Scheduling.Outcome

/-!
# Exclusion

A schedule never lets two users of one resource run in the same cycle.  Two granted transactions do
not conflict, an exclusive method has one granted caller, and the ends of a declared conflict are not
both granted, however deep in the calls they are.
-/

set_option autoImplicit false

namespace GuardedActions

variable {σ : Type}

/-- The grants of a schedule exclude one another as the registry asks. -/
structure Schedule.Exclusive (r : Registry σ) (plan : Plan) (s : Schedule) : Prop where
  /-- no two granted transactions conflict -/
  transactions : ∀ {a b : Nat}, (r.transaction? a).isSome → (r.transaction? b).isSome →
    s.granted.test a = true → s.granted.test b = true → a ≠ b → plan.ranking.conflict a b = false
  /-- an exclusive method has at most one granted call site -/
  sites : ∀ {x : Nat}, r.isExclusive x = true → ∀ {i j : Nat} {u v : Site σ},
    r.sites[i]? = some u → r.sites[j]? = some v → u.callee.id = x → v.callee.id = x →
    s.grantedSites.test i = true → s.grantedSites.test j = true → i = j
  /-- the two ends of a declared conflict are not both granted -/
  ends : ∀ {x y : Nat}, (x, y) ∈ r.conflicts → x ≠ y → s.granted.test x = true →
    s.granted.test y = false
  /-- an action that conflicts with itself is reached by at most one granted transaction -/
  self : ∀ {x : Nat}, (x, x) ∈ r.conflicts → ∀ {a b : Nat}, (r.transaction? a).isSome →
    (r.transaction? b).isSome → s.granted.test a = true → s.granted.test b = true →
    r.Reaches a x → r.Reaches b x → a = b

namespace Machine.Schedules

variable {m : Machine σ} {plan : Plan} {s : Schedule}

/-- Winners that compete are the same transaction. -/
theorem winner_unique (h : m.design.main.Elaborated plan) {t u : Nat}
    (ht : t ∈ plan.winners s.runnable) (hu : u ∈ plan.winners s.runnable)
    (hcompete : t ≠ u → m.design.main.Competes t u) : t = u := by
  by_contra hne
  have hconflict := h.conflict.mpr (hcompete hne)
  rw [(h.selection_winners s.runnable).apart ht hu] at hconflict
  cases hconflict

/-- Two granted actions with a common exclusive callee are the same. -/
theorem caller_unique (h : m.design.main.Elaborated plan) (hs : m.Schedules plan s) {a b x : Nat}
    (hx : m.design.main.isExclusive x = true) (ha : s.granted.test a = true)
    (hb : s.granted.test b = true) (hax : m.design.main.Calls a x) (hbx : m.design.main.Calls b x) :
    a = b := by
  obtain ⟨t, ht, hta⟩ := hs.origin ha
  obtain ⟨u, hu, hub⟩ := hs.origin hb
  have htx : m.design.main.Reaches t x := hta.reaches.tail hax
  have hux : m.design.main.Reaches u x := hub.reaches.tail hbx
  obtain rfl : t = u := winner_unique h ht hu fun hne =>
    ⟨hne, isSome_of_winner h ht, isSome_of_winner h hu, Or.inl ⟨x, hx, htx, hux⟩⟩
  exact h.single (isSome_of_winner h ht) hta.reaches hub.reaches hax hbx

theorem exclusive (h : m.design.main.Elaborated plan) (hs : m.Schedules plan s) :
    s.Exclusive m.design.main plan where
  transactions := by
    intro a b ha hb hga hgb _
    exact (h.selection_winners s.runnable).apart ((hs.transaction ha).mp hga)
      ((hs.transaction hb).mp hgb)
  sites := by
    intro x hx i j u v hu hv hux hvx hi hj
    obtain ⟨u', hu', -, hcu⟩ := hs.site.mp hi
    obtain ⟨v', hv', -, hcv⟩ := hs.site.mp hj
    obtain rfl : u = u' := Option.some.inj (hu.symm.trans hu')
    obtain rfl : v = v' := Option.some.inj (hv.symm.trans hv')
    have hcaller : u.caller = v.caller :=
      caller_unique h hs hx hcu hcv ⟨i, u, hu, rfl, hux⟩ ⟨j, v, hv, rfl, hvx⟩
    have hcallee : u.callee = v.callee := by
      rw [h.callee_eq hu, h.callee_eq hv, hux, hvx]
    exact h.unique hu hv hcaller hcallee
  ends := by
    intro x y hpair hne hx
    cases hy : s.granted.test y with
    | false => rfl
    | true =>
      obtain ⟨t, ht, htx⟩ := hs.origin hx
      obtain ⟨u, hu, huy⟩ := hs.origin hy
      obtain rfl : t = u := winner_unique h ht hu fun hne =>
        ⟨hne, isSome_of_winner h ht, isSome_of_winner h hu,
          Or.inr (Or.inl ⟨(x, y), hpair, htx.reaches, huy.reaches⟩)⟩
      exact absurd huy.reaches (h.apart hpair hne (isSome_of_winner h ht) htx.reaches)
  self := by
    intro x hpair a b ha hb hga hgb hax hbx
    exact winner_unique h ((hs.transaction ha).mp hga) ((hs.transaction hb).mp hgb) fun hne =>
      ⟨hne, ha, hb, Or.inr (Or.inl ⟨(x, x), hpair, hax, hbx⟩)⟩

end Machine.Schedules

namespace Machine

variable {m m' : Machine σ} {plan : Plan} {s : Schedule}

/-- A list without repetitions in which all elements that pass a test are the same has at most one of
them. -/
theorem countP_le_one {l : List Nat} {p : Nat → Bool} (hnodup : l.Nodup)
    (hsame : ∀ i ∈ l, ∀ j ∈ l, p i = true → p j = true → i = j) : l.countP p ≤ 1 := by
  rw [List.countP_eq_length_filter]
  have hfilter : (l.filter p).Nodup := hnodup.filter _
  match hlist : l.filter p with
  | [] => exact Nat.zero_le _
  | [_] => exact Nat.le_refl _
  | i :: j :: rest =>
    rw [hlist] at hfilter
    have hi : i ∈ l.filter p := by rw [hlist]; exact List.mem_cons_self
    have hj : j ∈ l.filter p := by
      rw [hlist]
      exact List.mem_cons_of_mem _ List.mem_cons_self
    obtain ⟨hil, hip⟩ := List.mem_filter.mp hi
    obtain ⟨hjl, hjp⟩ := List.mem_filter.mp hj
    have heq := hsame i hil j hjl hip hjp
    rw [heq] at hfilter
    exact absurd List.mem_cons_self (List.nodup_cons.mp hfilter).1

/-- The check for several granted callers finds none. -/
theorem checkExclusive_of_exclusive (built : m.design.Built) (own : m.design.OwnCallers)
    (hs : s.Exclusive m.design.main plan) : m.checkExclusive s = .ok () := by
  unfold checkExclusive
  refine forM_eq_ok fun id hid => ?_
  obtain ⟨x, hx⟩ := Option.isSome_iff_exists.mp (Registry.mem_methods.mp hid)
  rw [hx]
  simp only
  split
  · rename_i htest
    rw [Bool.and_eq_true, Bool.and_eq_true, decide_eq_true_iff, Bool.not_eq_true'] at htest
    obtain ⟨⟨hexclusive, -⟩, hmany⟩ := htest
    have hexclusive := (Registry.isExclusive_iff hx).mpr hexclusive
    have hcount : x.callers.countP (fun c => s.grantedSites.test c.id) =
        (m.design.main.sitesInto ⟨.main, id⟩).countP s.grantedSites.test := by
      rw [← built.callers_eq own hx, List.countP_map]
      rfl
    have hle : (m.design.main.sitesInto ⟨.main, id⟩).countP s.grantedSites.test ≤ 1 := by
      refine countP_le_one (Registry.nodup_sitesInto _ _) ?_
      intro i hi j hj hgi hgj
      obtain ⟨u, hu, hcu⟩ := Registry.mem_sitesInto.mp hi
      obtain ⟨v, hv, hcv⟩ := Registry.mem_sitesInto.mp hj
      exact hs.sites hexclusive hu hv (by rw [hcu]) (by rw [hcv]) hgi hgj
    omega
  · rfl

end Machine

end GuardedActions
