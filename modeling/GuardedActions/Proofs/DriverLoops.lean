import GuardedActions.Proofs.Session
import Mathlib.Algebra.Group.Nat.Defs

/-!
# The loops that drive a session

A driver takes steps until it is over: after a number of them, or when a condition holds.  Before every step it
also looks at the limit, and after every step at whether the session has failed.  Written without any bound
(`Session.Loop`), with a condition that may remember how often it was asked, such a loop has exactly one end,
and takes no more steps than are left until the limit; `Session.run` and `Session.runTo` come to this end.
-/

set_option autoImplicit false

namespace GuardedActions

namespace Session

variable {σ : Type} {x y z : Session σ}

/-- Take a number of steps, whatever they log. -/
def after : (steps : Nat) → Session σ → Except Fault (Session σ)
  | 0, x => .ok x
  | steps + 1, x => x.step >>= after steps

/-- What a driver asks before every step, knowing how many it has taken. -/
abbrev Condition (σ : Type) : Type := Nat → Session σ → Except Fault Bool

/-- The condition of a driver that wants a number of steps. -/
def counts (steps : Nat) : Condition σ := fun taken _ => .ok (decide (taken = steps))

/-- The loop of a driver that has taken `taken` steps so far, and what it ends with after `total` steps. -/
inductive Loop (goal : Condition σ) : (taken : Nat) → Session σ → (total : Nat) →
    Except Fault (Bool × Session σ) → Prop where
  /-- the goal is reached -/
  | reached {taken : Nat} {x : Session σ} (yes : goal taken x = .ok true) : Loop goal taken x taken (.ok (true, x))
  /-- whether it is reached, cannot be told -/
  | unanswered {taken : Nat} {x : Session σ} {fault : Fault} (faults : goal taken x = .error fault) :
      Loop goal taken x taken (.error fault)
  /-- the limit is reached -/
  | stopped {taken : Nat} {x : Session σ} (no : goal taken x = .ok false) (limit : x.control.atLimit = true) :
      Loop goal taken x taken (.ok (false, x.stop))
  /-- the next step faults -/
  | faulty {taken : Nat} {x : Session σ} {fault : Fault} (no : goal taken x = .ok false)
      (limit : x.control.atLimit = false) (step : x.step = .error fault) : Loop goal taken x taken (.error fault)
  /-- the session has failed after the next step -/
  | failed {taken : Nat} {x y : Session σ} (no : goal taken x = .ok false) (limit : x.control.atLimit = false)
      (step : x.step = .ok y) (fails : y.control.failed = true) : Loop goal taken x (taken + 1) (.ok (false, y))
  /-- it goes on after the next step -/
  | next {taken total : Nat} {x y : Session σ} {result : Except Fault (Bool × Session σ)}
      (no : goal taken x = .ok false) (limit : x.control.atLimit = false) (step : x.step = .ok y)
      (fine : y.control.failed = false) (rest : Loop goal (taken + 1) y total result) :
      Loop goal taken x total result

/-- One round of a driver: unless the goal is reached, the limit comes first or the session fails, it goes on. -/
def round (goal : Except Fault Bool) (go : Session σ → Except Fault (Bool × Session σ)) (x : Session σ) :
    Except Fault (Bool × Session σ) := do
  if ← goal then .ok (true, x)
  else if x.control.atLimit then .ok (false, x.stop)
  else
    let y ← x.step
    if y.control.failed then .ok (false, y) else go y

/-! ## The limit -/

theorem stepsLeft_eq_zero : x.stepsLeft = 0 ↔ x.control.atLimit = true := by
  unfold stepsLeft RunControl.atLimit
  rw [decide_eq_true_iff, UInt64.le_iff_toNat_le]
  omega

/-- A step that the limit allows leaves one step less. -/
theorem stepsLeft_step (hlimit : x.control.atLimit = false) (hstep : x.step = .ok y) :
    x.stepsLeft = y.stepsLeft + 1 := by
  obtain ⟨hsettings, hcount, -⟩ := control_step hstep
  have hlt : x.control.cyclesDone.toNat < x.control.settings.cycleLimit.toNat := by
    have hne : x.stepsLeft ≠ 0 := fun hzero => by rw [stepsLeft_eq_zero.mp hzero] at hlimit; cases hlimit
    unfold stepsLeft at hne
    omega
  have hbound : x.control.settings.cycleLimit.toNat < 2 ^ 64 := UInt64.toNat_lt _
  have hadd : (x.control.cyclesDone + 1).toNat = x.control.cyclesDone.toNat + 1 := by
    rw [UInt64.toNat_add, UInt64.toNat_one]
    omega
  unfold stepsLeft
  rw [hsettings, hcount, hadd]
  omega

theorem stepsLeft_lt (x : Session σ) : x.stepsLeft < 2 ^ 64 :=
  Nat.lt_of_le_of_lt (Nat.sub_le _ _) (UInt64.toNat_lt _)

namespace Loop

variable {goal goal' : Condition σ} {taken total total' : Nat} {result result' : Except Fault (Bool × Session σ)}

/-- A loop has one end. -/
theorem unique (h : Loop goal taken x total result) (h' : Loop goal taken x total' result') :
    total' = total ∧ result' = result := by
  induction h with
  | reached yes => cases h' <;> simp_all
  | unanswered faults => cases h' <;> simp_all
  | stopped no limit => cases h' <;> simp_all
  | faulty no limit step => cases h' <;> simp_all
  | failed no limit step fails => cases h' <;> simp_all
  | next no limit step fine rest ih =>
    cases h' with
    | next no' limit' step' fine' rest' =>
      obtain rfl := Except.ok.inj (step.symm.trans step')
      exact ih rest'
    | _ => simp_all

/-- A loop takes no more steps than are left. -/
theorem total_le (h : Loop goal taken x total result) : total ≤ taken + x.stepsLeft := by
  induction h with
  | reached | unanswered | stopped | faulty => exact Nat.le_add_right _ _
  | failed no limit step fails =>
    have hleft := stepsLeft_step limit step
    omega
  | next no limit step fine rest ih =>
    have hleft := stepsLeft_step limit step
    omega

/-- A loop whose next round is this one comes to the end that the round comes to, if the rest does. -/
theorem exists_of_round {go : Session σ → Except Fault (Bool × Session σ)}
    (hgo : ∀ y, x.control.atLimit = false → x.step = .ok y → ∃ total, Loop goal (taken + 1) y total (go y)) :
    ∃ total, Loop goal taken x total (x.round (goal taken x) go) := by
  unfold round
  cases hgoal : goal taken x with
  | error fault => exact ⟨taken, .unanswered hgoal⟩
  | ok answer =>
    cases answer with
    | true => exact ⟨taken, .reached hgoal⟩
    | false =>
      rw [ok_bind, if_neg Bool.false_ne_true]
      cases hlimit : x.control.atLimit with
      | true => exact ⟨taken, .stopped hgoal hlimit⟩
      | false =>
        rw [if_neg Bool.false_ne_true]
        cases hstep : x.step with
        | error fault => exact ⟨taken, .faulty hgoal hlimit hstep⟩
        | ok y =>
          rw [ok_bind]
          cases hfailed : y.control.failed with
          | true => exact ⟨taken + 1, .failed hgoal hlimit hstep hfailed⟩
          | false =>
            obtain ⟨total, hrest⟩ := hgo y hlimit hstep
            exact ⟨total, .next hgoal hlimit hstep hfailed hrest⟩

/-- Every loop comes to its end. -/
theorem exists_end (goal : Condition σ) (taken : Nat) (x : Session σ) :
    ∃ total result, Loop goal taken x total result := by
  induction hleft : x.stepsLeft using Nat.strong_induction_on generalizing taken x with
  | _ left ih =>
    have hrest : ∀ y, ∃ result, x.control.atLimit = false → x.step = .ok y →
        ∃ total, Loop goal (taken + 1) y total result := by
      intro y
      by_cases hnext : x.control.atLimit = false ∧ x.step = .ok y
      · have hless := stepsLeft_step hnext.1 hnext.2
        obtain ⟨total, result, hloop⟩ := ih y.stepsLeft (by omega) (taken + 1) y rfl
        exact ⟨result, fun _ _ => ⟨total, hloop⟩⟩
      · exact ⟨.ok (false, y), fun hlimit hstep => absurd ⟨hlimit, hstep⟩ hnext⟩
    choose go hgo using hrest
    obtain ⟨total, hloop⟩ := exists_of_round hgo
    exact ⟨total, _, hloop⟩

/-- Conditions that give the same answers all along a loop make the same loop. -/
theorem congr {Along : Nat → Session σ → Prop}
    (hgoal : ∀ taken x, Along taken x → goal' taken x = goal taken x)
    (halong : ∀ taken x y, Along taken x → goal taken x = .ok false → x.step = .ok y → Along (taken + 1) y)
    (hstart : Along taken x) (h : Loop goal taken x total result) : Loop goal' taken x total result := by
  induction h with
  | reached yes => exact .reached ((hgoal _ _ hstart).trans yes)
  | unanswered faults => exact .unanswered ((hgoal _ _ hstart).trans faults)
  | stopped no limit => exact .stopped ((hgoal _ _ hstart).trans no) limit
  | faulty no limit step => exact .faulty ((hgoal _ _ hstart).trans no) limit step
  | failed no limit step fails => exact .failed ((hgoal _ _ hstart).trans no) limit step fails
  | next no limit step fine rest ih =>
    exact .next ((hgoal _ _ hstart).trans no) limit step fine (ih (halong _ _ _ hstart no step))

/-- A loop that returns has taken its steps; it tells whether the goal is reached and no step of it left the session
failed. -/
theorem returns {answer : Bool} (h : Loop goal taken x total (.ok (answer, y))) :
    ∃ steps z, total = taken + steps ∧ after steps x = .ok z ∧ (y = z ∨ y = z.stop) ∧
      (answer = true ↔ goal total z = .ok true ∧
        ∀ k < steps, ∀ w, after (k + 1) x = .ok w → w.control.failed = false) := by
  generalize hresult : (Except.ok (answer, y) : Except Fault (Bool × Session σ)) = result at h
  induction h with
  | @reached taken x yes =>
    obtain ⟨rfl, rfl⟩ := Prod.mk.inj (Except.ok.inj hresult)
    exact ⟨0, y, rfl, rfl, .inl rfl, fun _ => ⟨yes, fun k hk => absurd hk (Nat.not_lt_zero k)⟩, fun _ => rfl⟩
  | unanswered | faulty => cases hresult
  | @stopped taken x no limit =>
    obtain ⟨rfl, rfl⟩ := Prod.mk.inj (Except.ok.inj hresult)
    refine ⟨0, x, rfl, rfl, .inr rfl, nofun, fun hanswer => ?_⟩
    rw [no] at hanswer
    exact absurd hanswer.1 nofun
  | @failed taken x x' no limit step fails =>
    obtain ⟨rfl, rfl⟩ := Prod.mk.inj (Except.ok.inj hresult)
    have hafter : after 1 x = .ok y := by
      rw [after, step]
      rfl
    refine ⟨1, y, rfl, hafter, .inl rfl, nofun, fun hanswer => ?_⟩
    have hfine := hanswer.2 0 Nat.one_pos y hafter
    rw [fails] at hfine
    cases hfine
  | @next taken total x x' result no limit step fine rest ih =>
    obtain ⟨steps, z, htotal, hafter, hy, hanswer⟩ := ih hresult
    have hshift : ∀ k, after (k + 1) x = after k x' := by
      intro k
      rw [after, step]
      rfl
    refine ⟨steps + 1, z, by omega, (hshift steps).trans hafter, hy, hanswer.trans ?_⟩
    refine and_congr_right fun _ => ⟨fun hall k hk w hw => ?_, fun hall k hk w hw => ?_⟩
    · rw [hshift] at hw
      cases k with
      | zero =>
        obtain rfl := Except.ok.inj hw
        exact fine
      | succ k => exact hall k (Nat.lt_of_succ_lt_succ hk) w hw
    · exact hall (k + 1) (Nat.succ_lt_succ hk) w ((hshift (k + 1)).trans hw)

end Loop

/-! ## The drivers -/

/-- Taking a number of steps is a loop that counts. -/
theorem loop_run (steps taken : Nat) (x : Session σ) :
    ∃ total, Loop (counts (taken + steps)) taken x total (run steps x) := by
  induction steps generalizing taken x with
  | zero => exact ⟨taken, .reached (by rw [counts, Nat.add_zero, decide_eq_true rfl])⟩
  | succ steps ih =>
    have hno : counts (taken + (steps + 1)) taken x = .ok false := by
      rw [counts, decide_eq_false (by omega)]
    obtain ⟨total, hround⟩ := Loop.exists_of_round (x := x) fun y _ _ => ih (taken + 1) y
    rw [Nat.add_right_comm, Nat.add_assoc, hno] at hround
    exact ⟨total, hround⟩

/-- Taking steps until a condition holds is a loop with this condition: the fuel lasts until the limit. -/
theorem loop_runTo (finished : Session σ → Except Fault Bool) (taken : Nat) (x : Session σ) :
    ∃ total, Loop (fun _ => finished) taken x total (x.runTo finished) := by
  unfold runTo
  induction hfuel : x.stepsLeft generalizing taken x with
  | zero =>
    unfold runToWithin
    cases hfinished : finished x with
    | error fault => exact ⟨taken, .unanswered hfinished⟩
    | ok answer =>
      cases answer with
      | true => exact ⟨taken, .reached hfinished⟩
      | false => exact ⟨taken, .stopped hfinished (stepsLeft_eq_zero.mp hfuel)⟩
  | succ fuel ih =>
    refine Loop.exists_of_round fun y hlimit hstep => ih (taken + 1) y ?_
    have hleft := stepsLeft_step hlimit hstep
    omega

/-! ## What the drivers have in common -/

/-- The number of steps that were taken since a session is told by their counter. -/
theorem Loop.of_counts {n : UInt64} {total : Nat} {result : Except Fault (Bool × Session σ)}
    (h : Loop (counts n.toNat) 0 x total result) :
    Loop (fun _ y => .ok (decide (y.control.cyclesDone - x.control.cyclesDone = n))) 0 x total result := by
  let along (taken : Nat) (y : Session σ) : Prop :=
    taken ≤ n.toNat ∧ y.control.cyclesDone = x.control.cyclesDone + UInt64.ofNat taken
  refine h.congr (?_ : ∀ taken y, along taken y → _) ?_ ?_
  · intro taken y ⟨hle, hcount⟩
    have hback : x.control.cyclesDone + UInt64.ofNat taken - x.control.cyclesDone = UInt64.ofNat taken := by
      rw [UInt64.add_comm, UInt64.add_sub_cancel]
    have hiff : UInt64.ofNat taken = n ↔ taken = n.toNat := by
      rw [← UInt64.toNat_inj, UInt64.toNat_ofNat_of_lt' (Nat.lt_of_le_of_lt hle n.toNat_lt)]
    rw [hcount, hback, counts]
    exact congrArg Except.ok (decide_eq_decide.mpr hiff)
  · intro taken y z ⟨hle, hcount⟩ hno hstep
    have hne : taken ≠ n.toNat := of_decide_eq_false (Except.ok.inj hno)
    refine ⟨by omega, ?_⟩
    rw [(control_step hstep).2.1, hcount, UInt64.add_assoc, UInt64.ofNat_add]
    rfl
  · exact ⟨Nat.zero_le _, (UInt64.add_zero _).symm⟩

/-- The end of a loop with a condition. -/
structure Ends (goal : Condition σ) (x : Session σ) (total : Nat) (result : Except Fault (Bool × Session σ)) :
    Prop where
  /-- the loop comes to it -/
  loop : Loop goal 0 x total result
  /-- and to no other -/
  unique : ∀ {total' : Nat} {result' : Except Fault (Bool × Session σ)}, Loop goal 0 x total' result' →
    total' = total ∧ result' = result
  /-- it takes no more steps than are left until the limit, and none if the limit is passed -/
  within : total ≤ x.control.settings.cycleLimit.toNat - x.control.cyclesDone.toNat
  /-- if it returns, it has taken its steps, and tells whether the goal is reached and none of them left the session
  failed -/
  returns : ∀ {answer : Bool} {y : Session σ}, result = .ok (answer, y) →
    ∃ z, after total x = .ok z ∧ (y = z ∨ y = z.stop) ∧ (answer = true ↔ goal total z = .ok true ∧
      ∀ k < total, ∀ w, after (k + 1) x = .ok w → w.control.failed = false)

theorem Loop.ends {goal : Condition σ} {total : Nat} {result : Except Fault (Bool × Session σ)}
    (h : Loop goal 0 x total result) : Ends goal x total result where
  loop := h
  unique := h.unique
  within := by
    have hle := h.total_le
    rwa [Nat.zero_add] at hle
  returns := by
    rintro answer y rfl
    obtain ⟨steps, z, htotal, hreturns⟩ := h.returns
    obtain rfl : total = steps := htotal.trans (Nat.zero_add steps)
    exact ⟨z, hreturns⟩

theorem run_succ (steps : Nat) (x : Session σ) : run (steps + 1) x =
    if x.control.atLimit then .ok (false, x.stop)
    else x.step >>= fun y => if y.control.failed then .ok (false, y) else run steps y := rfl

/-- Taking more steps is going on after the first ones, if they were all taken. -/
theorem run_add (a b : Nat) (x : Session σ) :
    run (a + b) x = run a x >>= fun r => if r.1 then run b r.2 else .ok r := by
  induction a generalizing x with
  | zero =>
    rw [Nat.zero_add]
    rfl
  | succ a ih =>
    rw [Nat.succ_add, run_succ, run_succ]
    cases x.control.atLimit with
    | true => rfl
    | false =>
      cases x.step with
      | error fault => rfl
      | ok y =>
        simp only [Bool.false_eq_true, if_false, ok_bind]
        cases y.control.failed with
        | true => rfl
        | false => exact ih y

/-- The drivers, from any session: taking steps in two goes is taking them in one; taking a number of them is
taking them until that many are taken; both loops, and with any condition whatever, come to one end within the
limit, and tell whether it is the one that was wanted. -/
theorem driver_loops (x : Session σ) :
    (∀ a b, run (a + b) x = run a x >>= fun r => if r.1 then run b r.2 else .ok r) ∧
    (∀ n : UInt64, run n.toNat x =
      x.runTo fun y => .ok (decide (y.control.cyclesDone - x.control.cyclesDone = n))) ∧
    (∀ n, ∃ total, Ends (counts n) x total (run n x)) ∧
    (∀ finished, ∃ total, Ends (fun _ => finished) x total (x.runTo finished)) ∧
    (∀ goal, ∃ total result, Ends goal x total result) := by
  have hrun : ∀ n, ∃ total, Ends (counts n) x total (run n x) := by
    intro n
    obtain ⟨total, hloop⟩ := loop_run n 0 x
    rw [Nat.zero_add] at hloop
    exact ⟨total, hloop.ends⟩
  have hrunTo : ∀ finished, ∃ total, Ends (fun _ => finished) x total (x.runTo finished) := by
    intro finished
    obtain ⟨total, hloop⟩ := loop_runTo finished 0 x
    exact ⟨total, hloop.ends⟩
  refine ⟨fun a b => run_add a b x, fun n => ?_, hrun, hrunTo, fun goal => ?_⟩
  · obtain ⟨total, hcounts⟩ := hrun n.toNat
    obtain ⟨total', hsince⟩ := hrunTo fun y => .ok (decide (y.control.cyclesDone - x.control.cyclesDone = n))
    exact (hsince.unique hcounts.loop.of_counts).2
  · obtain ⟨total, result, hloop⟩ := Loop.exists_end goal 0 x
    exact ⟨total, result, hloop.ends⟩

end Session

end GuardedActions
