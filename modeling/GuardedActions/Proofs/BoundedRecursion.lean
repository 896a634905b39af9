import GuardedActions.Proofs.BestCaller
import GuardedActions.Proofs.Elaboration.Ending
import GuardedActions.Proofs.Scheduling.Descent

/-!
# Recursion is bounded

Elaboration ends on every design.  On a design that it lets through, the three recursions of a schedule end too, in
every state: the actions whose calls are under way at one time are a path in the call graph, which has no cycle, so
that there are no more of them than actions.  Activation looks at the call sites of an action once, and grants
descend below an action once (`Machine.RecursionBounded`).
-/

set_option autoImplicit false

namespace GuardedActions

variable {σ : Type}

/-- Different elements of one kind and different elements of the other kind are different elements. -/
theorem nodup_of_filter {l : List Nat} (kind : Nat → Bool) (h : (l.filter kind).Nodup)
    (h' : (l.filter fun a => !kind a).Nodup) : l.Nodup := by
  refine (List.filter_append_perm kind l).nodup_iff.mp (h.append h' fun a ha ha' => ?_)
  have hnot := (List.mem_filter.mp ha').2
  rw [(List.mem_filter.mp ha).2] at hnot
  cases hnot

namespace Machine

/-- The recursions of a schedule end whatever the state is and whatever the predicates say, and none of them nests
deeper than there are actions. -/
structure RecursionBounded (m : Machine σ) (plan : Plan) : Prop where
  /-- the functions do what their scripts say, with one unit of fuel for each call -/
  unfolds : Script.Unfolds m.activateFrom m.activationBody ∧
    (∀ a, Script.Unfolds (m.askMethod a) (m.readinessBody a)) ∧
    ∀ active, Script.Unfolds (m.grantFrom active) (m.grantBody active)
  /-- activation ends and expands no action twice -/
  activation : ∃ log, Script.EndsWithin m.design.main.callees m.design.main.actions.length m.activateFrom
      m.activationBody (m.activationPhase plan.order) (m.activateAll plan.order) log ∧
    ((log.filter fun c => !c.entry.expanded.test c.action).map Script.Descent.action).Nodup
  /-- readiness ends, whatever is requested and active -/
  readiness : ∀ a : Activation, ∃ log, Script.EndsWithin m.design.main.callees m.design.main.actions.length
    (m.askMethod a) (m.readinessBody a) (m.readinessPhase a) (m.runnableActions a) log
  /-- grants end, whatever is active and whoever won, and descend below no action twice -/
  grants : ∀ (active : Mask) (winners : List Nat), ∃ log,
    Script.EndsWithin m.design.main.callees m.design.main.actions.length (m.grantFrom active)
      (m.grantBody active) (m.grantPhase plan.order winners) (m.grantAll active plan.order winners) log ∧
    (log.map Script.Descent.action).Nodup

variable {m : Machine σ} {plan : Plan}

/-- Calls of transactions come first, calls of methods below them. -/
theorem nodup_grants (h : m.design.main.Elaborated plan) {active : Mask} {winners : List Nat}
    {o : Except Fault Grants} {log : List (Script.Descent Grants)}
    (hends : Script.EndsWithin m.design.main.callees m.design.main.actions.length (m.grantFrom active)
      (m.grantBody active) (m.grantPhase plan.order winners) o log) : (log.map Script.Descent.action).Nodup := by
  have hmethods : (m.entries.dealt log).Nodup :=
    (hends.runs.nodup_dealt (kept_entries h active) (heeds_grantPhase h winners)).1.nodup
  have hown := hends.runs.sublist_own (follows_grantPhase m plan.order winners)
  have hroots : ∀ c ∈ log, (c.callers.length == ([] : List Nat).length) =
      !(m.design.main.method? c.action).isSome := by
    intro c hc
    cases hcallers : c.callers with
    | nil =>
      have hmem : c.action ∈ plan.order := hown.subset (List.mem_map_of_mem (List.mem_filter.mpr
        ⟨hc, by rw [hcallers]; rfl⟩))
      rw [Registry.method?_eq_none (h.mem_order.mp hmem)]
      rfl
    | cons a callers =>
      have hchain := (hends.trail c hc).calls
      rw [hcallers, List.isChain_cons_cons] at hchain
      obtain ⟨i, s, hs, -, hcallee⟩ := Registry.mem_callees.mp hchain.1
      rw [← hcallee, h.callee_method hs]
      rfl
  refine nodup_of_filter (fun a => (m.design.main.method? a).isSome) ?_ ?_
  · rw [List.filter_map]
    exact hmethods
  · rw [List.filter_map]
    rw [List.filter_congr hroots] at hown
    exact h.nodup_order.sublist hown

theorem recursionBounded (h : m.design.main.Elaborated plan) : m.RecursionBounded plan := by
  have hwf : WellFounded fun callee caller => callee ∈ m.design.main.callees caller := by
    have hsame : (fun callee caller => callee ∈ m.design.main.callees caller) =
        fun callee caller => m.design.main.Calls caller callee := by
      funext callee caller
      exact propext Registry.mem_callees
    rw [hsame]
    exact h.acyclic
  have hlt : ∀ a, ∀ b ∈ m.design.main.callees a, b < m.design.main.actions.length := fun a b hb =>
    h.lt_length_of_calls (Registry.mem_callees.mp hb)
  have horder : ∀ t ∈ plan.order, t < m.design.main.actions.length := fun t ht =>
    Registry.lt_length_of_transaction? (h.mem_order.mp ht)
  have hfuel : m.design.main.actions.length ≤ m.callDepth := Nat.le_succ _
  constructor
  case unfolds => exact ⟨m.unfolds_activateFrom, m.unfolds_askMethod, m.unfolds_grantFrom⟩
  case activation =>
    obtain ⟨log, hends⟩ := Script.exists_endsWithin m.unfolds_activateFrom m.along_activationBody hwf hlt
      (follows_activationPhase m plan.order) horder hfuel
    rw [eval_activationPhase] at hends
    exact ⟨log, hends, (hends.runs.nodup_dealt (kept_expansions h) (heeds_activationPhase h)).1.nodup⟩
  case readiness =>
    intro a
    obtain ⟨log, hends⟩ := Script.exists_endsWithin (m.unfolds_askMethod a) (m.along_readinessBody a) hwf hlt
      (follows_readinessPhase m a) (fun b hb => by
        rcases List.mem_append.mp hb with hb | hb
        · obtain ⟨id, hid, hb⟩ := List.mem_flatMap.mp hb
          rw [List.mem_singleton.mp hb]
          exact Registry.lt_length_of_method? (Registry.mem_methods.mp hid)
        · obtain ⟨t, -, hb⟩ := List.mem_flatMap.mp hb
          exact hlt t b hb) hfuel
    rw [eval_readinessPhase] at hends
    exact ⟨log, hends⟩
  case grants =>
    intro active winners
    obtain ⟨log, hends⟩ := Script.exists_endsWithin (m.unfolds_grantFrom active) (m.along_grantBody active) hwf hlt
      (follows_grantPhase m plan.order winners) horder hfuel
    rw [eval_grantPhase] at hends
    exact ⟨log, hends, nodup_grants h hends⟩

end Machine

/-- Elaboration ends on every design, and on a design that it lets through so do the recursions of every
schedule. -/
theorem Design.Built.bounded_recursion {d : Design σ} (built : d.Built) : d.ElaborationEnds ∧
    ∀ {plan : Plan}, d.main.plan = some plan → ∀ m : Machine σ, m.design = d → m.RecursionBounded plan := by
  refine ⟨built.elaborationEnds, ?_⟩
  rintro plan hplan m rfl
  exact Machine.recursionBounded (built.elaborated hplan)

/-- The method that two transactions of the relay reach is expanded once and granted once. -/
theorem Relay.recursion_bounded : (Design.registerAll Relay.steps {}).ElaborationEnds ∧
    Relay.machine.design.main.plan = some Relay.plan ∧ Relay.machine.RecursionBounded Relay.plan := by
  obtain ⟨hends, -⟩ := Design.Built.bounded_recursion (.registerAll Relay.steps .empty)
  obtain ⟨-, hbounded⟩ := Design.Built.bounded_recursion Relay.built
  exact ⟨hends, Relay.plan_eq, hbounded Relay.plan_eq Relay.machine rfl⟩

end GuardedActions
