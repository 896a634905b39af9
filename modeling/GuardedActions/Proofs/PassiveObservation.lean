import GuardedActions.Proofs.DriverLoops
import Mathlib

/-!
# Observation is passive

How much a session prints, whether it keeps counters, which messages reach its log and who is told about its
cycles makes no difference to what it simulates.  Two sessions on the same machine that differ in these go
through the same steps, whatever a testbench does, and give the same answers
(`Session.observation_is_passive`).  Both have failed exactly if an error was logged in a step since the last
reset, whether or not it was written (`FailsBy`); the errors of a step are known by the notes that its bodies
leave if they leave one instead of every error (`Machine.errorsIn`).
-/

set_option autoImplicit false

namespace GuardedActions

variable {σ : Type}

/-! ## Watching the steps -/

/-- Something that a testbench does: something to the session, or something to what was told, such as logging
a message, forgetting the errors counted so far or setting the threshold. -/
inductive Deed (σ : Type) where
  /-- to the session -/
  | act (stimulus : Stimulus σ)
  /-- to what was told -/
  | tell (change : Journal → Journal)

/-- A step of a session. -/
structure Moment (σ : Type) where
  /-- what was scheduled and executed -/
  schedule : Schedule
  /-- messages of the errors that were logged -/
  errors : List String
  /-- the state after the clock edge -/
  state : σ
  /-- number of the cycle that comes next -/
  cycle : UInt64
  /-- whether the session has failed -/
  failed : Bool

/-- What a testbench learns from what it did, and the steps that were taken. -/
structure Chapter (σ : Type) where
  /-- what it learns -/
  report : Report σ
  /-- the steps -/
  moments : List (Moment σ)

namespace Session

/-- Take a step and look at it. -/
def moment (x : Session σ) : Except Fault (Moment σ × Session σ) := do
  let m ← elaborated x.machine
  let s ← (dated m).schedule
  let errors ← (dated m).errorsIn s
  let y ← x.step
  .ok (⟨s, errors, y.machine.state, y.machine.cycle, y.control.failed⟩, y)

/-- Take some steps and look at all of them. -/
def moments : (number : Nat) → Session σ → Except Fault (List (Moment σ) × Session σ)
  | 0, x => .ok ([], x)
  | number + 1, x => do
    let first ← x.moment
    let rest ← moments number first.2
    .ok (first.1 :: rest.1, rest.2)

/-- The steps that a stimulus took from one session to the other, by the counter of steps. -/
def stepsTaken (x y : Session σ) : Stimulus σ → Nat
  | .step | .run _ | .runTo _ => (y.control.cyclesDone - x.control.cyclesDone).toNat
  | _ => 0

/-- Do something and look at the steps. -/
def watch (x : Session σ) : Deed σ → Except Fault (Chapter σ × Session σ)
  | .act stimulus => do
    let r ← x.respond stimulus
    let seen ← moments (stepsTaken x r.2 stimulus) x
    .ok (⟨r.1, seen.1⟩, r.2)
  | .tell change =>
    let x := { x with machine := x.machine.mapJournal change }
    .ok (⟨(x.reported none []).1, []⟩, x)

/-- Do several things, one after the other, and look at the steps. -/
def watchAll : List (Deed σ) → Session σ → Except Fault (List (Chapter σ) × Session σ)
  | [], x => .ok ([], x)
  | first :: rest, x => do
    let r ← x.watch first
    let rs ← watchAll rest r.2
    .ok (r.1 :: rs.1, rs.2)

variable {x y z : Session σ}

/-! ## Watching changes nothing -/

theorem moment_snd (x : Session σ) : x.moment.map Prod.snd = x.step := by
  unfold moment
  rw [step_eq]
  cases elaborated x.machine with
  | error fault => rfl
  | ok m =>
    rw [ok_bind, ok_bind]
    cases (dated m).schedule with
    | error fault => rfl
    | ok s =>
      rw [ok_bind, ok_bind]
      have htogether := (dated m).execute_errorsIn s
      revert htogether
      generalize (dated m).execute s = result
      generalize (dated m).errorsIn s = errors
      intro htogether
      cases htogether with
      | error fault => rfl
      | ok related => rfl

theorem moments_snd (number : Nat) (x : Session σ) : (moments number x).map Prod.snd = after number x := by
  induction number generalizing x with
  | zero => rfl
  | succ number ih =>
    unfold moments after
    rw [← moment_snd]
    cases x.moment with
    | error fault => rfl
    | ok first =>
      rw [ok_bind]
      show _ = after number first.2
      rw [← ih]
      cases moments number first.2 with
      | error fault => rfl
      | ok rest => rfl

theorem cyclesDone_after {number : Nat} (h : after number x = .ok y) :
    y.control.cyclesDone = x.control.cyclesDone + UInt64.ofNat number := by
  induction number generalizing x with
  | zero =>
    obtain rfl := Except.ok.inj h
    exact (UInt64.add_zero _).symm
  | succ number ih =>
    obtain ⟨x', hstep, hrest⟩ := bind_eq_ok.mp h
    rw [ih hrest, (control_step hstep).2.1, UInt64.add_assoc, UInt64.add_comm 1, ← UInt64.ofNat_one,
      ← UInt64.ofNat_add]

/-- The counter tells how many steps were taken, if they are fewer than it can count. -/
theorem toNat_cyclesDone_sub {number : Nat} (h : after number x = .ok y) (hnumber : number < 2 ^ 64) :
    (y.control.cyclesDone - x.control.cyclesDone).toNat = number := by
  rw [cyclesDone_after h, UInt64.add_comm, UInt64.add_sub_cancel, UInt64.toNat_ofNat_of_lt' hnumber]

theorem control_stop (x : Session σ) : x.stop.control = x.control := by
  obtain ⟨j, hj⟩ := x.frame_tell "Simulation stopped: maximum cycles reached"
  unfold stop
  rw [hj]

/-- A driver that returns took the steps that are told by the counter. -/
theorem Ends.after_stepsTaken {goal : Condition σ} {total : Nat} {answer : Bool}
    (h : Ends goal x total (.ok (answer, y))) :
    ∃ z, after (y.control.cyclesDone - x.control.cyclesDone).toNat x = .ok z ∧ y.control = z.control := by
  obtain ⟨z, hafter, hy, -⟩ := h.returns rfl
  have hcontrol : y.control = z.control := by
    rcases hy with rfl | rfl
    · rfl
    · exact control_stop z
  have htotal : total < 2 ^ 64 := Nat.lt_of_le_of_lt h.within x.stepsLeft_lt
  refine ⟨z, ?_, hcontrol⟩
  rw [hcontrol, toNat_cyclesDone_sub hafter htotal]
  exact hafter

/-- Whatever is done to a session, the steps that are looked at are those that were taken, and unless it was
reset nothing else made it fail. -/
theorem after_stepsTaken {stimulus : Stimulus σ} {report : Report σ} (h : x.respond stimulus = .ok (report, y)) :
    ∃ z, after (stepsTaken x y stimulus) x = .ok z ∧
      (match stimulus with
        | .reset => y.control.failed = false
        | _ => y.control.failed = z.control.failed) := by
  cases stimulus with
  | change f =>
    obtain ⟨state, -, hy⟩ := map_eq_ok.mp h
    obtain ⟨-, rfl⟩ := Prod.mk.inj hy
    exact ⟨x, rfl, rfl⟩
  | observe observer =>
    obtain ⟨-, rfl⟩ := Prod.mk.inj (Except.ok.inj h)
    exact ⟨x, rfl, rfl⟩
  | evaluate =>
    obtain ⟨s, -, h⟩ := bind_eq_ok.mp h
    obtain ⟨r, -, hy⟩ := map_eq_ok.mp h
    obtain ⟨-, rfl⟩ := Prod.mk.inj hy
    exact ⟨x, rfl, rfl⟩
  | commit =>
    obtain ⟨-, rfl⟩ := Prod.mk.inj (Except.ok.inj h)
    exact ⟨x, rfl, rfl⟩
  | step =>
    obtain ⟨events, -, h⟩ := bind_eq_ok.mp h
    obtain ⟨y', hstep, hy⟩ := map_eq_ok.mp h
    obtain ⟨-, rfl⟩ := Prod.mk.inj hy
    have hafter : after 1 x = .ok y' := by
      rw [after, hstep]
      rfl
    refine ⟨y', ?_, rfl⟩
    show after (y'.control.cyclesDone - x.control.cyclesDone).toNat x = _
    rw [toNat_cyclesDone_sub hafter (by decide)]
    exact hafter
  | run steps =>
    obtain ⟨⟨answer, y'⟩, hrun, hy⟩ := map_eq_ok.mp h
    obtain ⟨-, rfl⟩ := Prod.mk.inj hy
    obtain ⟨total, hloop⟩ := loop_run steps 0 x
    rw [hrun] at hloop
    obtain ⟨z, hafter, hcontrol⟩ := hloop.ends.after_stepsTaken
    exact ⟨z, hafter, congrArg RunControl.failed hcontrol⟩
  | runTo finished =>
    obtain ⟨⟨answer, y'⟩, hrun, hy⟩ := map_eq_ok.mp h
    obtain ⟨-, rfl⟩ := Prod.mk.inj hy
    obtain ⟨total, hloop⟩ := loop_runTo (fun x => finished x.sight) 0 x
    rw [hrun] at hloop
    obtain ⟨z, hafter, hcontrol⟩ := hloop.ends.after_stepsTaken
    exact ⟨z, hafter, congrArg RunControl.failed hcontrol⟩
  | reset =>
    obtain ⟨-, rfl⟩ := Prod.mk.inj (Except.ok.inj h)
    exact ⟨x, rfl, rfl⟩

end Session

namespace RunControl

/-- The same decisions are taken; what is printed, counted and told to observers may differ. -/
structure SameCourse (c c' : RunControl) : Prop where
  /-- the limits are the same -/
  limit : c'.settings.cycleLimit = c.settings.cycleLimit
  /-- as many steps were taken -/
  cyclesDone : c'.cyclesDone = c.cyclesDone
  /-- both have failed, or none -/
  failed : c'.failed = c.failed

theorem stable_sameCourse : Stable SameCourse where
  limit := SameCourse.limit
  cyclesDone := SameCourse.cyclesDone
  failed := SameCourse.failed
  afterStep := fun _ _ _ h => ⟨h.limit, congrArg (· + 1) h.cyclesDone, congrArg (· || _) h.failed⟩
  restart := fun h => ⟨h.limit, rfl, rfl⟩
  observe := fun _ h => ⟨h.limit, h.cyclesDone, h.failed⟩

end RunControl

/-- What is seen apart from the counters. -/
def Sight.withoutFigures (s : Sight σ) : Sight σ := { s with figures := [] }

/-- What is learnt apart from the counters. -/
def Report.withoutFigures (report : Report σ) : Report σ := { report with sight := report.sight.withoutFigures }

/-- What is learnt, with the steps, apart from the counters. -/
def Chapter.withoutFigures (c : Chapter σ) : Chapter σ := { c with report := c.report.withoutFigures }

/-- A condition that is waited for does not look at the counters. -/
def Deed.Impartial : Deed σ → Prop
  | .act (.runTo finished) => ∀ s : Sight σ, finished s = finished s.withoutFigures
  | _ => True

namespace Session.Alike

variable {x y : Session σ}

theorem withoutFigures_sight (h : x.Alike RunControl.SameCourse y) :
    x.sight.withoutFigures = y.sight.withoutFigures := by
  obtain ⟨c, m⟩ := x
  obtain ⟨c', m'⟩ := y
  obtain ⟨hcontrol, j, rfl⟩ := h
  exact congrArg (Sight.mk m.state m.cycle m.last []) hcontrol.failed.symm

/-- A step looks alike. -/
theorem moment (h : x.Alike RunControl.SameCourse y) :
    Together (fun r r' => r.1 = r'.1 ∧ r.2.Alike RunControl.SameCourse r'.2) x.moment y.moment := by
  have hstep := h.step RunControl.stable_sameCourse
  obtain ⟨c, m⟩ := x
  obtain ⟨c', m'⟩ := y
  obtain ⟨-, j, rfl⟩ := h
  unfold Session.moment
  refine (elaborated_together m j).bind fun m m' hm => ?_
  obtain ⟨j, rfl⟩ := hm
  obtain ⟨j', hj'⟩ : ∃ j', dated (m.withJournal j) = (dated m).withJournal j' := ⟨_, rfl⟩
  rw [hj', Machine.schedule_withJournal]
  refine (Together.of_eq _).bind fun s _ hs => ?_
  subst hs
  rw [Machine.errorsIn_withJournal]
  refine (Together.of_eq _).bind fun errors _ herrors => ?_
  subst herrors
  refine hstep.bind fun x' y' h' => .ok ⟨?_, h'⟩
  obtain ⟨hcontrol, j, hmachine⟩ := h'
  rw [hmachine, hcontrol.failed]
  rfl

/-- So do several steps. -/
theorem moments (h : x.Alike RunControl.SameCourse y) (number : Nat) :
    Together (fun r r' => r.1 = r'.1) (Session.moments number x) (Session.moments number y) := by
  induction number generalizing x y with
  | zero => exact .ok rfl
  | succ number ih =>
    unfold Session.moments
    refine h.moment.bind fun first first' hfirst => ?_
    refine (ih hfirst.2).bind fun rest rest' hrest => .ok ?_
    rw [hfirst.1, hrest]

theorem stepsTaken_eq {x' y' : Session σ} (h : x.Alike RunControl.SameCourse y)
    (h' : x'.Alike RunControl.SameCourse y') (stimulus : Stimulus σ) :
    stepsTaken x x' stimulus = stepsTaken y y' stimulus := by
  unfold stepsTaken
  rw [h.control.cyclesDone, h'.control.cyclesDone]

/-- Everything that is done looks alike. -/
theorem watch (h : x.Alike RunControl.SameCourse y) {deed : Deed σ} (himpartial : deed.Impartial) :
    Together (fun r r' => r.1.withoutFigures = r'.1.withoutFigures ∧ r.2.Alike RunControl.SameCourse r'.2)
      (x.watch deed) (y.watch deed) := by
  cases deed with
  | act stimulus =>
    have hunaware : Unaware RunControl.SameCourse stimulus := by
      cases stimulus with
      | runTo finished =>
        intro x y h
        rw [himpartial x.sight, himpartial y.sight, h.withoutFigures_sight]
      | _ => trivial
    refine (h.respond RunControl.stable_sameCourse hunaware).returned.bind fun r r' hr => ?_
    obtain ⟨⟨answer, events, sight⟩, x'⟩ := r
    obtain ⟨⟨answer', events', sight'⟩, y'⟩ := r'
    obtain ⟨⟨rfl, rfl, h'⟩, hx, hy⟩ := hr
    obtain rfl : sight = x'.sight := sight_respond hx
    obtain rfl : sight' = y'.sight := sight_respond hy
    rw [h.stepsTaken_eq h']
    refine (h.moments _).bind fun seen seen' hseen => .ok ⟨?_, h'⟩
    rw [hseen]
    exact congrArg (fun sight => Chapter.mk (Report.mk answer events sight) seen'.1) h'.withoutFigures_sight
  | tell change =>
    obtain ⟨hcontrol, j, hmachine⟩ := h
    have htold : Alike RunControl.SameCourse ({ x with machine := x.machine.mapJournal change } : Session σ)
        { y with machine := y.machine.mapJournal change } := by
      refine ⟨hcontrol, change j, ?_⟩
      rw [hmachine]
      rfl
    refine .ok ⟨?_, htold⟩
    exact congrArg (fun sight => Chapter.mk (Report.mk none [] sight) []) htold.withoutFigures_sight

theorem watchAll (h : x.Alike RunControl.SameCourse y) {deeds : List (Deed σ)}
    (himpartial : ∀ deed ∈ deeds, deed.Impartial) :
    Together (fun r r' => r.1.map Chapter.withoutFigures = r'.1.map Chapter.withoutFigures ∧
        r.2.Alike RunControl.SameCourse r'.2)
      (Session.watchAll deeds x) (Session.watchAll deeds y) := by
  induction deeds generalizing x y with
  | nil => exact .ok ⟨rfl, h⟩
  | cons first rest ih =>
    unfold Session.watchAll
    refine (h.watch (himpartial first List.mem_cons_self)).bind fun r r' hr => ?_
    refine (ih hr.2 fun deed hdeed => himpartial deed (List.mem_cons_of_mem _ hdeed)).bind fun rs rs' hrs => ?_
    exact .ok ⟨by rw [List.map_cons, List.map_cons, hr.1, hrs.1], hrs.2⟩

end Session.Alike

/-! ## Failing -/

/-- Something has failed exactly if an error was logged in one of some steps, and so it had after each of
them. -/
structure FailsBy (failed : Bool) (ms : List (Moment σ)) : Prop where
  /-- now -/
  now : failed = true ↔ ∃ μ ∈ ms, μ.errors ≠ []
  /-- after a step -/
  after_step : ∀ {before later : List (Moment σ)} {μ : Moment σ}, ms = before ++ μ :: later →
    (μ.failed = true ↔ ∃ ν ∈ before ++ [μ], ν.errors ≠ [])

namespace FailsBy

variable {failed : Bool} {ms : List (Moment σ)} {x y : Session σ}

theorem nil : FailsBy false ([] : List (Moment σ)) where
  now := ⟨nofun, fun ⟨_, hμ, _⟩ => absurd hμ List.not_mem_nil⟩
  after_step := fun h => absurd h.symm (List.append_ne_nil_of_right_ne_nil _ (List.cons_ne_nil _ _))

/-- One more step fails if an error is logged, or if the session had failed before. -/
theorem concat (h : FailsBy failed ms) {μ : Moment σ}
    (hfailed : μ.failed = true ↔ failed = true ∨ μ.errors ≠ []) : FailsBy μ.failed (ms ++ [μ]) := by
  have hnow : μ.failed = true ↔ ∃ ν ∈ ms ++ [μ], ν.errors ≠ [] := by
    rw [hfailed, h.now]
    simp only [List.mem_append, List.mem_singleton, or_and_right, exists_or, exists_eq_left]
  refine ⟨hnow, fun {before later ν} heq => ?_⟩
  rcases later.eq_nil_or_concat with rfl | ⟨rest, last, rfl⟩
  · obtain ⟨rfl, hν⟩ := List.append_inj' heq rfl
    obtain rfl := (List.cons.inj hν).1
    exact hnow
  · rw [List.concat_eq_append, ← List.cons_append, ← List.append_assoc] at heq
    exact h.after_step (List.append_inj' heq rfl).1

end FailsBy

namespace Session

variable {x y : Session σ}

/-- A step makes a session fail if it logs an error.  The errors are counted by a 32-bit number. -/
theorem failed_moment {μ : Moment σ} (h : x.moment = .ok (μ, y)) (hfew : μ.errors.length < 2 ^ 32) :
    μ.failed = y.control.failed ∧ (μ.failed = true ↔ x.control.failed = true ∨ μ.errors ≠ []) := by
  obtain ⟨m, hm, h⟩ := bind_eq_ok.mp h
  obtain ⟨s, hs, h⟩ := bind_eq_ok.mp h
  obtain ⟨errors, herrors, h⟩ := bind_eq_ok.mp h
  obtain ⟨y', hstep, h⟩ := bind_eq_ok.mp h
  obtain ⟨rfl, rfl⟩ := Prod.mk.inj (Except.ok.inj h)
  refine ⟨rfl, ?_⟩
  rw [step_eq, hm, ok_bind, hs, ok_bind] at hstep
  obtain ⟨m', hexecute, hy⟩ := bind_eq_ok.mp hstep
  obtain rfl := Except.ok.inj hy
  have hcount : m'.journal.log.errors = m.journal.log.errors + UInt32.ofNat errors.length := by
    have htogether := (dated m).execute_errorsIn s
    rw [hexecute, herrors] at htogether
    cases htogether with
    | ok related => exact related
  have hchanged : decide (m'.journal.log.errors ≠ m.journal.log.errors) = decide (errors ≠ []) := by
    refine decide_eq_decide.mpr (not_congr ?_)
    rw [hcount, UInt32.add_eq_left, UInt32.ofNat_eq_iff_mod_eq_toNat, Nat.mod_eq_of_lt hfew]
    exact List.length_eq_zero_iff
  obtain ⟨j, hj⟩ := frame_conclude { x with machine := m' } m.cycle s m.journal.log.errors
  show (Session.conclude _ _ _ _).control.failed = true ↔ x.control.failed = true ∨ errors ≠ []
  rw [hj]
  show (x.control.failed || decide (m'.journal.log.errors ≠ m.journal.log.errors)) = true ↔ _
  rw [hchanged, Bool.or_eq_true, decide_eq_true_iff]

end Session

/-- The steps since the last reset, after a deed that comes after some of them. -/
def Deed.since (ms : List (Moment σ)) (c : Chapter σ) : Deed σ → List (Moment σ)
  | .act .reset => []
  | _ => ms ++ c.moments

/-- The steps since the last reset, after several deeds that come after some of them. -/
def Chapter.sinceReset (ms : List (Moment σ)) : List (Deed σ) → List (Chapter σ) → List (Moment σ)
  | deed :: deeds, c :: chapters => sinceReset (deed.since ms c) deeds chapters
  | _, _ => ms

namespace FailsBy

variable {ms : List (Moment σ)} {x y : Session σ}

/-- Several steps: an error in any of them is not forgotten. -/
theorem moments (h : FailsBy x.control.failed ms) {number : Nat} {seen : List (Moment σ)}
    (hseen : Session.moments number x = .ok (seen, y)) (hfew : ∀ μ ∈ seen, μ.errors.length < 2 ^ 32) :
    FailsBy y.control.failed (ms ++ seen) := by
  induction number generalizing x ms seen with
  | zero =>
    obtain ⟨rfl, rfl⟩ := Prod.mk.inj (Except.ok.inj hseen)
    rwa [List.append_nil]
  | succ number ih =>
    obtain ⟨⟨first, x'⟩, hfirst, hseen⟩ := bind_eq_ok.mp hseen
    obtain ⟨⟨rest, y'⟩, hrest, hseen⟩ := bind_eq_ok.mp hseen
    obtain ⟨rfl, rfl⟩ := Prod.mk.inj (Except.ok.inj hseen)
    obtain ⟨hflag, hfailed⟩ := Session.failed_moment hfirst (hfew first List.mem_cons_self)
    have hnext := h.concat hfailed
    rw [hflag] at hnext
    have hall := ih hnext hrest fun μ hμ => hfew μ (List.mem_cons_of_mem _ hμ)
    rwa [List.append_assoc] at hall

/-- Whatever is done, nothing but the errors of its steps makes a session fail, and a reset makes good. -/
theorem watch (h : FailsBy x.control.failed ms) {deed : Deed σ} {c : Chapter σ} (hwatch : x.watch deed = .ok (c, y))
    (hfew : ∀ μ ∈ c.moments, μ.errors.length < 2 ^ 32) : FailsBy y.control.failed (deed.since ms c) := by
  cases deed with
  | tell change =>
    obtain ⟨rfl, rfl⟩ := Prod.mk.inj (Except.ok.inj hwatch)
    show FailsBy x.control.failed (ms ++ [])
    rwa [List.append_nil]
  | act stimulus =>
    obtain ⟨⟨report, y'⟩, hrespond, hwatch⟩ := bind_eq_ok.mp hwatch
    obtain ⟨⟨seen, z⟩, hseen, hwatch⟩ := bind_eq_ok.mp hwatch
    obtain ⟨rfl, rfl⟩ := Prod.mk.inj (Except.ok.inj hwatch)
    obtain ⟨z', hafter, hfailed⟩ := Session.after_stepsTaken hrespond
    rw [← Session.moments_snd, hseen] at hafter
    obtain rfl : z = z' := Except.ok.inj hafter
    have hall := h.moments hseen hfew
    cases stimulus with
    | reset =>
      rw [show y'.control.failed = false from hfailed]
      exact .nil
    | _ =>
      rw [show y'.control.failed = z.control.failed from hfailed]
      exact hall

theorem watchAll (h : FailsBy x.control.failed ms) {deeds : List (Deed σ)} {chapters : List (Chapter σ)}
    (hwatch : Session.watchAll deeds x = .ok (chapters, y))
    (hfew : ∀ c ∈ chapters, ∀ μ ∈ c.moments, μ.errors.length < 2 ^ 32) :
    FailsBy y.control.failed (Chapter.sinceReset ms deeds chapters) := by
  induction deeds generalizing x ms chapters with
  | nil =>
    obtain ⟨rfl, rfl⟩ := Prod.mk.inj (Except.ok.inj hwatch)
    exact h
  | cons first rest ih =>
    obtain ⟨⟨c, x'⟩, hfirst, hwatch⟩ := bind_eq_ok.mp hwatch
    obtain ⟨⟨cs, y'⟩, hrest, hwatch⟩ := bind_eq_ok.mp hwatch
    obtain ⟨rfl, rfl⟩ := Prod.mk.inj (Except.ok.inj hwatch)
    exact ih (h.watch hfirst (hfew c List.mem_cons_self)) hrest fun d hd => hfew d (List.mem_cons_of_mem _ hd)

end FailsBy

namespace Session

/-- The session with these observers. -/
def toldTo (observers : List Observer) (x : Session σ) : Session σ :=
  { x with control := { x.control with observers := observers } }

end Session

/-! ## A watchdog

The state counts the cycles, and the watchdog logs an error in the second one. -/

namespace Watchdog

/-- What the watchdog logs. -/
def late : Log.Entry := ⟨.error, "watchdog", "late"⟩

/-- The registrations. -/
def steps : List (Registration Nat) :=
  [.newTransaction .main "watch" 0 none,
   .setTransaction ⟨.main, 0⟩ (.body (.look fun view =>
     if view.state = 1 then .report late (.done ()) else .done ()))]

/-- The watchdog at the start. -/
def machine : Machine Nat where
  design := (Design.registerAll steps {}).elaborate.1
  parts := [{ name := "clock", elements := [], commit := (· + 1), reset := fun _ => 0 }]
  state := 0

/-- The first run fails; after a reset there is another one that stops in time, and one that fails. -/
def deeds : List (Deed Nat) :=
  [.act (.run 5), .act .reset, .act (.runTo fun s => .ok (decide (s.state = 1))),
   .tell fun j => { j with log := j.log.forgetErrors }, .act (.run 5)]

/-- A session whose log takes no message at all. -/
def quiet : Session Nat := (Session.new { threshold := ⟨4⟩ } machine).toldTo []

end Watchdog

end GuardedActions
