import GuardedActions.Proofs.MutualExclusion

/-!
# Calls from the guest registry

A method remembers the call sites that target it.  Those of the main registry are recorded exactly, and
for good once the main registry is frozen.  A call site of the guest registry is recorded next to them, at
any time, and what is recorded of it is looked up by its position alone: it counts as the call site of the
main registry that has the same position.  `counts_guests` says what this does to the records that
wait for a method and to the check for several granted callers.
-/

set_option autoImplicit false

namespace GuardedActions

variable {σ : Type}

namespace Design

/-- The callers that a method has in the main registry. -/
def ownCallersOf (d : Design σ) (id : Nat) : List Nat :=
  ((d.main.method? id).map fun x =>
    (x.callers.filter fun c => c.domain == .main).map SiteRef.id).getD []

theorem Built.ownCallersOf_eq {d : Design σ} (h : d.Built) {id : Nat}
    (hid : (d.main.method? id).isSome) : d.ownCallersOf id = d.main.sitesInto ⟨.main, id⟩ := by
  obtain ⟨x, hx⟩ := Option.isSome_iff_exists.mp hid
  have hmethod : d.method? ⟨.main, id⟩ = some x := hx
  rw [ownCallersOf, hx, Option.map_some, Option.getD_some]
  exact h.wellFormed.callers hmethod .main

/-- Once the main registry is frozen its own callers stay what they are. -/
theorem Built.ownCallersOf_of_register {d d' : Design σ} {plan : Plan} (h : d.Built)
    (hplan : d.main.plan = some plan) {step : Registration σ} (hstep : d.register step = .ok d')
    {id : Nat} (hid : (d.main.method? id).isSome) : d'.ownCallersOf id = d.ownCallersOf id := by
  obtain ⟨hsame, -⟩ := register_of_frozen hplan hstep
  have hid' : (d'.main.method? id).isSome := by
    rw [hsame.isSome_method?]
    exact hid
  rw [(Built.register h hstep).ownCallersOf_eq hid', h.ownCallersOf_eq hid]
  unfold Registry.sitesInto
  rw [hsame.sites]

/-- A method is called by the call sites of the main registry that target it, and by the positions of
those of the guest registry. -/
theorem Built.callers_perm {d : Design σ} (h : d.Built) {id : Nat} {x : Method σ}
    (hx : d.main.method? id = some x) : (x.callers.map SiteRef.id).Perm
      (d.main.sitesInto ⟨.main, id⟩ ++ d.guest.sitesInto ⟨.main, id⟩) := by
  have hmethod : d.method? ⟨.main, id⟩ = some x := hx
  have hmain := h.wellFormed.callers hmethod .main
  have hguest := h.wellFormed.callers hmethod .guest
  have hother : (fun c : SiteRef => !(c.domain == .main)) = fun c => c.domain == .guest := by
    funext c
    cases c.domain with
    | main => rfl
    | guest => rfl
  have hsplit := (List.filter_append_perm (fun c : SiteRef => c.domain == .main) x.callers).symm
  rw [hother] at hsplit
  have hmap := hsplit.map SiteRef.id
  rw [List.map_append, hmain, hguest] at hmap
  exact hmap

end Design

namespace Machine

variable {m : Machine σ} {plan : Plan} {s : Schedule}

/-- The records that wait for a method are those of its call sites, and once more those of the call sites
that share their position with a guest caller. -/
theorem pendingWith_perm (built : m.design.Built) (active : Mask) (early : List (Option Record))
    {id : Nat} (hid : (m.design.main.method? id).isSome) :
    (m.pendingWith active early ⟨.main, id⟩).Perm
      (Schedule.pendingAt active early (m.design.main.sitesInto ⟨.main, id⟩) ++
        Schedule.pendingAt active early (m.design.guest.sitesInto ⟨.main, id⟩)) := by
  obtain ⟨x, hx⟩ := Option.isSome_iff_exists.mp hid
  have hmethod : m.design.method? ⟨.main, id⟩ = some x := hx
  unfold pendingWith callersOf Schedule.pendingAt
  rw [hmethod, Option.map_some, Option.getD_some, ← List.filterMap_append]
  exact (built.callers_perm hx).filterMap _

/-- The granted callers that are counted for a method. -/
theorem countP_callers (built : m.design.Built) {id : Nat} {x : Method σ}
    (hx : m.design.main.method? id = some x) (granted : Mask) :
    x.callers.countP (fun c => granted.test c.id) =
      (m.design.main.sitesInto ⟨.main, id⟩).countP granted.test +
        (m.design.guest.sitesInto ⟨.main, id⟩).countP granted.test := by
  have hcount := (built.callers_perm hx).countP_eq granted.test
  rw [List.countP_map, List.countP_append] at hcount
  exact hcount

/-- A granted exclusive method has one granted call site of its own. -/
theorem Schedules.countP_sitesInto (h : m.design.main.Elaborated plan) (hs : m.Schedules plan s)
    {id : Nat} (hexclusive : m.design.main.isExclusive id = true) (hgranted : s.granted.test id = true) :
    (m.design.main.sitesInto ⟨.main, id⟩).countP s.grantedSites.test = 1 := by
  have hle : (m.design.main.sitesInto ⟨.main, id⟩).countP s.grantedSites.test ≤ 1 := by
    refine countP_le_one (Registry.nodup_sitesInto _ _) ?_
    intro i hi j hj hgi hgj
    obtain ⟨u, hu, hcu⟩ := Registry.mem_sitesInto.mp hi
    obtain ⟨v, hv, hcv⟩ := Registry.mem_sitesInto.mp hj
    exact (hs.exclusive h).sites hexclusive hu hv (by rw [hcu]) (by rw [hcv]) hgi hgj
  have hpos : 0 < (m.design.main.sitesInto ⟨.main, id⟩).countP s.grantedSites.test := by
    have hmethod := Registry.isSome_method?_of_isExclusive hexclusive
    obtain ⟨i, u, hu, hcallee, hgi⟩ := hs.exists_site h hmethod hgranted
    refine List.countP_pos_iff.mpr ⟨i, Registry.mem_sitesInto.mpr ⟨u, hu, ?_⟩, hgi⟩
    rw [h.callee_eq hu, hcallee]
  omega

/-- The check for several granted callers passes if and only if no guest caller of a granted exclusive
method shares its position with a granted call site. -/
theorem checkExclusive_iff (built : m.design.Built) (h : m.design.main.Elaborated plan)
    (hs : m.Schedules plan s) : m.checkExclusive s = .ok () ↔
      ∀ id, m.design.main.isExclusive id = true → s.granted.test id = true →
        ∀ i ∈ m.design.guest.sitesInto ⟨.main, id⟩, s.grantedSites.test i = false := by
  have hcount : ∀ {id : Nat} {x : Method σ}, m.design.main.method? id = some x →
      x.nonexclusive = false → s.granted.test id = true →
      x.callers.countP (fun c => s.grantedSites.test c.id) =
        1 + (m.design.guest.sitesInto ⟨.main, id⟩).countP s.grantedSites.test := by
    intro id x hx hexclusive hgranted
    rw [countP_callers built hx,
      hs.countP_sitesInto h ((Registry.isExclusive_iff hx).mpr hexclusive) hgranted]
  constructor
  · intro hcheck id hexclusive hgranted i hi
    have hmethod := Registry.isSome_method?_of_isExclusive hexclusive
    obtain ⟨x, hx⟩ := Option.isSome_iff_exists.mp hmethod
    have hshared := (Registry.isExclusive_iff hx).mp hexclusive
    have hone := of_forM_eq_ok hcheck id (Registry.mem_methods.mpr hmethod)
    rw [hx] at hone
    simp only [hshared, hgranted, hcount hx hshared hgranted, Bool.not_false, Bool.true_and,
      decide_eq_true_iff] at hone
    by_contra hgi
    have hpos : 0 < (m.design.guest.sitesInto ⟨.main, id⟩).countP s.grantedSites.test :=
      List.countP_pos_iff.mpr ⟨i, hi, Bool.not_eq_false _ ▸ hgi⟩
    rw [if_pos (by omega)] at hone
    cases hone
  · intro hnone
    unfold checkExclusive
    refine forM_eq_ok fun id hid => ?_
    obtain ⟨x, hx⟩ := Option.isSome_iff_exists.mp (Registry.mem_methods.mp hid)
    rw [hx]
    simp only
    split
    · rename_i htest
      rw [Bool.and_eq_true, Bool.and_eq_true, decide_eq_true_iff, Bool.not_eq_true'] at htest
      obtain ⟨⟨hexclusive, hgranted⟩, hmany⟩ := htest
      have hguests : (m.design.guest.sitesInto ⟨.main, id⟩).countP s.grantedSites.test = 0 := by
        rw [List.countP_eq_zero]
        intro i hi
        rw [hnone id ((Registry.isExclusive_iff hx).mpr hexclusive) hgranted i hi]
        exact Bool.false_ne_true
      rw [hcount hx hexclusive hgranted, hguests] at hmany
      omega
    · rfl

/-- On a frozen main registry the own callers of a method are its call sites and stay so.  Of a schedule
that is made, the records that wait for a method are those of its active call sites and of the active
call sites that share their position with a guest caller; and the check for several granted callers passes
if and only if no guest caller of a granted exclusive method shares its position with a granted call
site.

A schedule has bits for the call sites of the main registry only.  A guest caller whose position lies
beyond them shares it with no call site and counts as neither active nor granted, since `Mask.test` is
false outside the size.  Where looking beyond the bits is not defined, this is said of guest callers
whose positions are below the number of call sites of the main registry. -/
theorem counts_guests (built : m.design.Built) (hplan : m.design.main.plan = some plan)
    (hs : m.schedule = .ok s) :
    (∀ id, (m.design.main.method? id).isSome →
      m.design.ownCallersOf id = m.design.main.sitesInto ⟨.main, id⟩ ∧
      (∀ step d', m.design.register step = .ok d' → d'.ownCallersOf id = m.design.ownCallersOf id) ∧
      (m.pendingWith s.activeSites s.early ⟨.main, id⟩).Perm
        (Schedule.pendingAt s.activeSites s.early (m.design.main.sitesInto ⟨.main, id⟩) ++
          Schedule.pendingAt s.activeSites s.early (m.design.guest.sitesInto ⟨.main, id⟩))) ∧
    (m.checkExclusive s = .ok () ↔
      ∀ id, m.design.main.isExclusive id = true → s.granted.test id = true →
        ∀ i ∈ m.design.guest.sitesInto ⟨.main, id⟩, s.grantedSites.test i = false) := by
  have helaborated := built.elaborated hplan
  have hschedules := schedules_of_schedule helaborated hplan hs
  refine ⟨fun id hid => ⟨built.ownCallersOf_eq hid, ?_, ?_⟩,
    checkExclusive_iff built helaborated hschedules⟩
  · exact fun step d' hstep => built.ownCallersOf_of_register hplan hstep hid
  · exact pendingWith_perm built s.activeSites s.early hid

end Machine

/-! ## An accumulator with a visitor

After the accumulator is elaborated, an action of the guest registry declares two calls.  The second one
has the position of the call site through which `double` adds. -/

namespace Accumulator

/-- The registrations of the visitor. -/
def visit : List (Registration State) :=
  [.newMethod .guest "visit" Shape.empty Shape.empty none,
   .newCall ⟨.guest, 0⟩ ⟨.main, 1⟩,
   .newCall ⟨.guest, 0⟩ ⟨.main, 0⟩]

/-- The accumulator with its visitor. -/
def visited : Machine State := { design := Design.registerAll visit design, state := ⟨10, 3⟩ }

theorem built_visited : visited.design.Built := .registerAll visit built

theorem plan_visited : visited.design.main.plan = some plan := by cbv

theorem schedule_visited : visited.schedule = .ok schedule := by cbv

theorem counts_visitor : visited.design.main.plan = some plan ∧ visited.schedule = .ok schedule ∧
    (visited.pendingWith schedule.activeSites schedule.early ⟨.main, 0⟩).Perm
      ([record 3, record 1] ++ [record 3]) ∧
    (visited.checkExclusive schedule = .ok () ↔
      ∀ id, visited.design.main.isExclusive id = true → schedule.granted.test id = true →
        ∀ i ∈ visited.design.guest.sitesInto ⟨.main, id⟩, schedule.grantedSites.test i = false) := by
  obtain ⟨hmethods, hcheck⟩ := Machine.counts_guests (m := visited) built_visited plan_visited
    schedule_visited
  obtain ⟨-, -, hpending⟩ := hmethods 0 (by cbv)
  refine ⟨plan_visited, schedule_visited, ?_, hcheck⟩
  have hown : Schedule.pendingAt schedule.activeSites schedule.early
      (visited.design.main.sitesInto ⟨.main, 0⟩) = [record 3, record 1] := by cbv
  have hguest : Schedule.pendingAt schedule.activeSites schedule.early
      (visited.design.guest.sitesInto ⟨.main, 0⟩) = [record 3] := by cbv
  rwa [hown, hguest] at hpending

/-- The visitor, which never runs, makes a record wait twice and the cycle fail. -/
theorem visitor_breaks_cycle : visited.design.Built ∧ visited.design.main.plan = some plan ∧
    visited.schedule = .ok schedule ∧
    visited.pendingWith schedule.activeSites schedule.early ⟨.main, 0⟩ =
      [record 3, record 1, record 3] ∧
    visited.execute schedule = .error (.method "add" (.grantedToMany 2)) := by
  refine ⟨built_visited, plan_visited, schedule_visited, ?_, ?_⟩
  · cbv
  · cbv

end Accumulator

end GuardedActions
