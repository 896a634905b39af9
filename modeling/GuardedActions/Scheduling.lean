import GuardedActions.Scheduling.Arbitration
import GuardedActions.Scheduling.Grant
import GuardedActions.Scheduling.Readiness

/-!
# Scheduling

A schedule is made in four phases against the committed state: activation, readiness, arbitration and
grants.  Making one changes nothing.
-/

set_option autoImplicit false

namespace GuardedActions.Machine

variable {σ : Type}

/-- The schedule of the current cycle under a plan. -/
def scheduleWith (m : Machine σ) (plan : Plan) : Except Fault Schedule := do
  let a ← m.activateAll plan.order
  let runnable ← m.runnableActions a
  let g ← m.grantAll a.active plan.order (plan.winners runnable)
  .ok
    { cycle := m.cycle
      requested := a.requested
      runnable := runnable
      granted := g.actions
      activeSites := a.active
      grantedSites := g.sites
      selected := m.design.main.ids.map fun id => Driver.ofSite? (m.selectCaller plan g id)
      early := a.early }

/-- The schedule of the current cycle. -/
def schedule (m : Machine σ) : Except Fault Schedule :=
  match m.design.main.plan with
  | none => .error .scheduleUnelaborated
  | some plan => m.scheduleWith plan

end GuardedActions.Machine
