import GuardedActions.Proofs.Execution.Journal
import GuardedActions.Proofs.Execution.Within
import GuardedActions.Session

/-!
# Sessions and those who drive them

Between two cycles a testbench changes the state, evaluates, commits, steps, runs and resets; after each of
these it looks at the session.  What it sees depends on nothing that was told.  How far it depends on the
control of the session, its settings, counters and observers, is a parameter: two sessions with related
controls go alike if all that sessions do keeps the relation (`RunControl.Stable`, `Session.Alike`).
-/

set_option autoImplicit false

namespace GuardedActions

variable {σ : Type}

namespace RunControl

/-- What a step leaves: its schedule is counted and so is the step, and it may have logged an error. -/
def afterStep (c : RunControl) (s : Schedule) (names : List String) (erred : Bool) : RunControl :=
  { c with
    tally := c.tally.map fun counters => counters.observe s names
    cyclesDone := c.cyclesDone + 1
    failed := c.failed || erred }

/-- What a reset leaves. -/
def restart (c : RunControl) : RunControl :=
  { c with
    tally := c.tally.map fun _ => {}
    cyclesDone := 0
    failed := false }

/-- A relation that everything that is done to the controls of two sessions keeps, and that makes them come to
the same decisions. -/
structure Stable (C : RunControl → RunControl → Prop) : Prop where
  /-- the limits are the same -/
  limit : ∀ {c c' : RunControl}, C c c' → c'.settings.cycleLimit = c.settings.cycleLimit
  /-- as many steps were taken -/
  cyclesDone : ∀ {c c' : RunControl}, C c c' → c'.cyclesDone = c.cyclesDone
  /-- both have failed, or none -/
  failed : ∀ {c c' : RunControl}, C c c' → c'.failed = c.failed
  /-- steps keep it -/
  afterStep : ∀ {c c' : RunControl} (s : Schedule) (names : List String) (erred : Bool), C c c' →
    C (c.afterStep s names erred) (c'.afterStep s names erred)
  /-- a reset keeps it -/
  restart : ∀ {c c' : RunControl}, C c c' → C c.restart c'.restart
  /-- observers may come -/
  observe : ∀ {c c' : RunControl} (observer : Observer), C c c' → C (c.observe observer) (c'.observe observer)

/-- The controls are the same up to the observers. -/
def SameButObservers (c c' : RunControl) : Prop := ∃ observers, c' = { c with observers := observers }

theorem stable_sameButObservers : Stable SameButObservers where
  limit := by
    rintro c c' ⟨observers, rfl⟩
    rfl
  cyclesDone := by
    rintro c c' ⟨observers, rfl⟩
    rfl
  failed := by
    rintro c c' ⟨observers, rfl⟩
    rfl
  afterStep := by
    rintro c c' s names erred ⟨observers, rfl⟩
    exact ⟨observers, rfl⟩
  restart := by
    rintro c c' ⟨observers, rfl⟩
    exact ⟨observers, rfl⟩
  observe := by
    rintro c c' observer ⟨observers, rfl⟩
    exact ⟨observers ++ [observer], rfl⟩

end RunControl

/-- Two sessions have related controls, and machines that differ in what was told only. -/
structure Session.Alike (C : RunControl → RunControl → Prop) (x y : Session σ) : Prop where
  /-- the controls -/
  control : C x.control y.control
  /-- the machines, up to the journals -/
  machine : ∃ j, y.machine = x.machine.withJournal j

/-- Two sessions differ in what was told, and in who is told, only. -/
abbrev Session.Resembles (x y : Session σ) : Prop := x.Alike RunControl.SameButObservers y

namespace Session

variable {x y : Session σ}

/-! ## What is told changes the journal only -/

theorem frame_tell (x : Session σ) (message : String) :
    ∃ j, x.tell message = ⟨x.control, x.machine.withJournal j⟩ := by
  unfold tell
  split
  · exact ⟨_, rfl⟩
  · exact ⟨x.machine.journal, rfl⟩

theorem frame_printCycle (x : Session σ) (cycle : UInt64) (s : Schedule) :
    ∃ j, x.printCycle cycle s = ⟨x.control, x.machine.withJournal j⟩ ∧ j.log = x.machine.journal.log := by
  unfold printCycle
  split
  · exact ⟨_, rfl, rfl⟩
  · exact ⟨x.machine.journal, rfl, rfl⟩

theorem log_notify (x : Session σ) (cycle : UInt64) (s : Schedule) :
    (x.notify cycle s).machine.journal.log = x.machine.journal.log := by
  have hnotes : ∀ (texts : List String) (j : Journal), (j.noteAll texts).log = j.log := by
    intro texts
    induction texts with
    | nil => exact fun j => rfl
    | cons text texts ih => exact fun j => ih (j.note text)
  have hall : ∀ (observers : List Observer) (names : List String) (j : Journal),
      (observers.foldl (fun j observer => j.noteAll (observer cycle s names)) j).log = j.log := by
    intro observers names
    induction observers with
    | nil => exact fun j => rfl
    | cons observer observers ih =>
      intro j
      rw [List.foldl_cons, ih, hnotes]
  exact hall x.control.observers _ x.machine.journal

/-- The machines that are elaborated resemble each other. -/
theorem elaborated_together (m : Machine σ) (j : Journal) :
    Together (fun m m' => ∃ j, m' = m.withJournal j) (elaborated m) (elaborated (m.withJournal j)) := by
  unfold elaborated
  show Together _ (if m.isFrozen then _ else _) (if m.isFrozen then _ else _)
  split
  · exact .ok ⟨j, rfl⟩
  · unfold Machine.elaborate
    rw [Machine.design_withJournal]
    obtain ⟨design, result⟩ := m.design.elaborate
    cases result with
    | error refusal => exact .error _
    | ok done => exact .ok ⟨j, rfl⟩

/-! ## Steps -/

/-- The journal is ready for a cycle. -/
def dated (m : Machine σ) : Machine σ := m.mapJournal fun j => { j with log := { j.log with cycle := m.cycle } }

/-- What a step does once its schedule is executed; `errors` had been counted before. -/
def conclude (x : Session σ) (cycle : UInt64) (s : Schedule) (errors : UInt32) : Session σ :=
  let x := x.notify cycle s
  let x := printCycle ⟨x.control.countStep, x.machine.commit⟩ cycle s
  if x.machine.journal.log.errors ≠ errors then x.fail else x

theorem step_eq (x : Session σ) : x.step = (elaborated x.machine >>= fun m =>
    (dated m).schedule >>= fun s => (dated m).execute s >>= fun m' =>
      .ok (conclude { x with machine := m' } m.cycle s m.journal.log.errors)) := rfl

/-- A step is counted, and has failed if it logged an error or one before it did. -/
theorem frame_conclude (x : Session σ) (cycle : UInt64) (s : Schedule) (errors : UInt32) :
    ∃ j, x.conclude cycle s errors = ⟨x.control.afterStep s (x.machine.design.main.actions.map Action.name)
      (decide (x.machine.journal.log.errors ≠ errors)), x.machine.commit.withJournal j⟩ := by
  obtain ⟨j, hj, hlog⟩ := frame_printCycle
    ⟨(x.notify cycle s).control.countStep, (x.notify cycle s).machine.commit⟩ cycle s
  have herrors : j.log.errors = x.machine.journal.log.errors :=
    congrArg Log.errors (hlog.trans (log_notify x cycle s))
  unfold conclude
  simp only [hj]
  rw [show ((x.notify cycle s).machine.commit.withJournal j).journal.log.errors = j.log.errors from rfl, herrors]
  unfold RunControl.afterStep
  by_cases hne : x.machine.journal.log.errors ≠ errors
  · rw [if_pos hne, decide_eq_true hne, Bool.or_true]
    exact frame_tell _ _
  · rw [if_neg hne, decide_eq_false hne, Bool.or_false]
    exact ⟨j, rfl⟩

/-- A step of a frozen machine makes a schedule and executes it, and then the clock edge comes. -/
theorem stages_of_step (hfrozen : x.machine.isFrozen = true) (h : x.step = .ok y) :
    ∃ s m events, (dated x.machine).schedule = .ok s ∧ (dated x.machine).executeTraced s = .ok (m, events) ∧
      ∃ names erred j, y = ⟨x.control.afterStep s names erred, m.commit.withJournal j⟩ := by
  have helaborated : elaborated x.machine = .ok x.machine := if_pos hfrozen
  rw [step_eq, helaborated, ok_bind] at h
  obtain ⟨s, hs, h⟩ := bind_eq_ok.mp h
  obtain ⟨m, hrun, h⟩ := bind_eq_ok.mp h
  obtain rfl := Except.ok.inj h
  rw [← Machine.executeTraced_fst] at hrun
  obtain ⟨⟨m, events⟩, htraced, rfl⟩ := map_eq_ok.mp hrun
  obtain ⟨j, hj⟩ := frame_conclude { x with machine := m } x.machine.cycle s x.machine.journal.log.errors
  exact ⟨s, m, events, hs, htraced, _, _, j, hj⟩

/-- What a step leaves of the control, and what it counts. -/
theorem control_step (h : x.step = .ok y) : y.control.settings = x.control.settings ∧
    y.control.cyclesDone = x.control.cyclesDone + 1 ∧
    (x.control.failed = true → y.control.failed = true) := by
  rw [step_eq] at h
  obtain ⟨m, -, h⟩ := bind_eq_ok.mp h
  obtain ⟨s, -, h⟩ := bind_eq_ok.mp h
  obtain ⟨m', -, h⟩ := bind_eq_ok.mp h
  obtain rfl := Except.ok.inj h
  obtain ⟨j, hj⟩ := frame_conclude { x with machine := m' } m.cycle s m.journal.log.errors
  rw [hj]
  refine ⟨rfl, rfl, fun hfailed => ?_⟩
  show (x.control.failed || _) = true
  rw [hfailed, Bool.true_or]

/-! ## Sessions that are alike go alike -/

namespace Alike

variable {C : RunControl → RunControl → Prop}

theorem tell (h : x.Alike C y) (message : String) : (x.tell message).Alike C (y.tell message) := by
  obtain ⟨j, hj⟩ := x.frame_tell message
  obtain ⟨j', hj'⟩ := y.frame_tell message
  obtain ⟨hcontrol, k, hmachine⟩ := h
  rw [hj, hj', hmachine]
  exact ⟨hcontrol, j', rfl⟩

variable (hC : RunControl.Stable C)
include hC

theorem reset (h : x.Alike C y) : x.reset.Alike C y.reset := by
  obtain ⟨c, m⟩ := x
  obtain ⟨c', m'⟩ := y
  obtain ⟨hcontrol, j, rfl⟩ := h
  exact ⟨hC.restart hcontrol, j, rfl⟩

theorem atLimit_eq (h : x.Alike C y) : y.control.atLimit = x.control.atLimit := by
  unfold RunControl.atLimit
  rw [hC.limit h.control, hC.cyclesDone h.control]

theorem stepsLeft_eq (h : x.Alike C y) : y.stepsLeft = x.stepsLeft := by
  unfold stepsLeft
  rw [hC.limit h.control, hC.cyclesDone h.control]

theorem conclude (h : x.Alike C y) {d : UInt32}
    (hd : y.machine.journal.log.errors = x.machine.journal.log.errors + d) (cycle : UInt64) (s : Schedule)
    (errors : UInt32) : (x.conclude cycle s errors).Alike C (y.conclude cycle s (errors + d)) := by
  obtain ⟨j, hj⟩ := frame_conclude x cycle s errors
  obtain ⟨j', hj'⟩ := frame_conclude y cycle s (errors + d)
  have herred : decide (y.machine.journal.log.errors ≠ errors + d) =
      decide (x.machine.journal.log.errors ≠ errors) := by
    rw [hd]
    exact decide_eq_decide.mpr (not_congr (UInt32.add_left_inj d))
  obtain ⟨hcontrol, k, hmachine⟩ := h
  rw [hj, hj', herred, hmachine]
  exact ⟨hC.afterStep s _ _ hcontrol, j', rfl⟩

/-- A step goes alike. -/
theorem step (h : x.Alike C y) : Together (Alike C) x.step y.step := by
  obtain ⟨c, m⟩ := x
  obtain ⟨c', m'⟩ := y
  obtain ⟨hcontrol, j, rfl⟩ := h
  rw [step_eq, step_eq]
  refine (elaborated_together m j).bind fun m m' hm => ?_
  obtain ⟨j, rfl⟩ := hm
  obtain ⟨j', hj', herrors⟩ : ∃ j', dated (m.withJournal j) = (dated m).withJournal j' ∧
      j'.log.errors = j.log.errors := ⟨_, rfl, rfl⟩
  rw [hj', Machine.schedule_withJournal]
  refine (Together.of_eq _).bind fun s _ hs => ?_
  subst hs
  have hexecute : Together (fun m₁ m₁' : Machine σ => ∃ j₁, m₁' = m₁.withJournal j₁ ∧
        j₁.log.errors = m₁.journal.log.errors + (j'.log.errors - m.journal.log.errors))
      ((dated m).execute s) (((dated m).withJournal j').execute s) := by
    rw [← Machine.executeTraced_fst, ← Machine.executeTraced_fst]
    exact ((dated m).executeTraced_withJournal j' s).map fun _ _ hr => hr.2
  refine hexecute.bind fun m₁ m₁' hm₁ => ?_
  obtain ⟨j₁, rfl, hj₁⟩ := hm₁
  have hd : j.log.errors = m.journal.log.errors + (j'.log.errors - m.journal.log.errors) := by
    rw [herrors, UInt32.add_comm, UInt32.sub_add_cancel]
  have hexecuted : Alike C (⟨c, m₁⟩ : Session σ) ⟨c', m₁.withJournal j₁⟩ := ⟨hcontrol, j₁, rfl⟩
  refine .ok ?_
  show Alike C _ (Session.conclude _ m.cycle s j.log.errors)
  rw [hd]
  exact hexecuted.conclude hC hj₁ m.cycle s m.journal.log.errors

/-- So do several steps. -/
theorem run (h : x.Alike C y) (steps : Nat) :
    Together (fun r r' => r.1 = r'.1 ∧ r.2.Alike C r'.2) (Session.run steps x) (Session.run steps y) := by
  induction steps generalizing x y with
  | zero => exact .ok ⟨rfl, h⟩
  | succ steps ih =>
    unfold Session.run
    rw [h.atLimit_eq hC]
    split
    · exact .ok ⟨rfl, h.tell _⟩
    · refine (h.step hC).bind fun x' y' h' => ?_
      rw [hC.failed h'.control]
      split
      · exact .ok ⟨rfl, h'⟩
      · exact ih h'

/-- So do steps until a condition holds, if the condition does not tell the sessions apart. -/
theorem runTo (h : x.Alike C y) {finished : Session σ → Except Fault Bool}
    (hfinished : ∀ {x y : Session σ}, x.Alike C y → finished x = finished y) :
    Together (fun r r' => r.1 = r'.1 ∧ r.2.Alike C r'.2) (x.runTo finished) (y.runTo finished) := by
  unfold Session.runTo
  rw [h.stepsLeft_eq hC]
  generalize x.stepsLeft = fuel
  induction fuel generalizing x y with
  | zero =>
    unfold runToWithin
    rw [hfinished h]
    refine (Together.of_eq _).bind fun done _ hdone => ?_
    subst hdone
    split
    · exact .ok ⟨rfl, h⟩
    · exact .ok ⟨rfl, h.tell _⟩
  | succ fuel ih =>
    unfold runToWithin
    rw [hfinished h]
    refine (Together.of_eq _).bind fun done _ hdone => ?_
    subst hdone
    rw [h.atLimit_eq hC]
    split
    · exact .ok ⟨rfl, h⟩
    · split
      · exact .ok ⟨rfl, h.tell _⟩
      · refine (h.step hC).bind fun x' y' h' => ?_
        rw [hC.failed h'.control]
        split
        · exact .ok ⟨rfl, h'⟩
        · exact ih h'

end Alike

end Session

/-! ## What a testbench does and sees -/

/-- What can be seen of a session between two cycles. -/
structure Sight (σ : Type) where
  /-- the state -/
  state : σ
  /-- number of the cycle -/
  cycle : UInt64
  /-- the schedule executed last -/
  last : Option Schedule
  /-- the counters -/
  figures : FigureTable
  /-- whether a step logged an error -/
  failed : Bool

/-- Something that a testbench does between two cycles. -/
inductive Stimulus (σ : Type) where
  /-- change the state -/
  | change (f : σ → Except Fault σ)
  /-- register an observer -/
  | observe (observer : Observer)
  /-- make a schedule and execute it, without the clock edge -/
  | evaluate
  /-- the clock edge -/
  | commit
  /-- take a step -/
  | step
  /-- take several steps -/
  | run (steps : Nat)
  /-- take steps until a condition holds -/
  | runTo (finished : Sight σ → Except Fault Bool)
  /-- put everything back to the start -/
  | reset

/-- What a testbench learns from what it did. -/
structure Report (σ : Type) where
  /-- whether a run went all the way -/
  answer : Option Bool
  /-- what happened in the cycle that was evaluated or stepped -/
  events : List Event
  /-- what is seen then -/
  sight : Sight σ

namespace Session

/-- What can be seen. -/
def sight (x : Session σ) : Sight σ :=
  ⟨x.machine.state, x.machine.cycle, x.machine.last, x.control.figures, x.control.failed⟩

/-- What happens in the next step. -/
def happenings (x : Session σ) : Except Fault (List Event) := do
  let m ← elaborated x.machine
  let s ← (dated m).schedule
  ((dated m).executeTraced s).map Prod.snd

/-- What is learnt, next to the session. -/
def reported (answer : Option Bool) (events : List Event) (x : Session σ) : Report σ × Session σ :=
  (⟨answer, events, x.sight⟩, x)

/-- Do something to a session. -/
def respond (x : Session σ) : Stimulus σ → Except Fault (Report σ × Session σ)
  | .change f => (f x.machine.state).map fun state =>
      reported none [] { x with machine := { x.machine with state := state } }
  | .observe observer => .ok (reported none [] { x with control := x.control.observe observer })
  | .evaluate => x.machine.schedule >>= fun s =>
      (x.machine.executeTraced s).map fun r => reported none r.2 { x with machine := r.1 }
  | .commit => .ok (reported none [] { x with machine := x.machine.commit })
  | .step => x.happenings >>= fun events => x.step.map (reported none events)
  | .run steps => (run steps x).map fun r => reported (some r.1) [] r.2
  | .runTo finished => (x.runTo fun x => finished x.sight).map fun r => reported (some r.1) [] r.2
  | .reset => .ok (reported none [] x.reset)

/-- Do several things, one after the other. -/
def play : List (Stimulus σ) → Session σ → Except Fault (List (Report σ) × Session σ)
  | [], x => .ok ([], x)
  | first :: rest, x => x.respond first >>= fun r =>
      (play rest r.2).map fun rs => (r.1 :: rs.1, rs.2)

/-- What is learnt is about the session as it is then. -/
theorem sight_respond {stimulus : Stimulus σ} {report : Report σ} {x y : Session σ}
    (h : x.respond stimulus = .ok (report, y)) : report.sight = y.sight := by
  have hreported : ∀ {answer : Option Bool} {events : List Event} {z : Session σ},
      z.reported answer events = (report, y) → report.sight = y.sight := by
    intro answer events z hz
    obtain ⟨rfl, rfl⟩ := Prod.mk.inj hz
    rfl
  cases stimulus with
  | change f =>
    obtain ⟨state, -, hy⟩ := map_eq_ok.mp h
    exact hreported hy
  | observe observer => exact hreported (Except.ok.inj h)
  | evaluate =>
    obtain ⟨s, -, h⟩ := bind_eq_ok.mp h
    obtain ⟨r, -, hy⟩ := map_eq_ok.mp h
    exact hreported hy
  | commit => exact hreported (Except.ok.inj h)
  | step =>
    obtain ⟨events, -, h⟩ := bind_eq_ok.mp h
    obtain ⟨y', -, hy⟩ := map_eq_ok.mp h
    exact hreported hy
  | run steps =>
    obtain ⟨r, -, hy⟩ := map_eq_ok.mp h
    exact hreported hy
  | runTo finished =>
    obtain ⟨r, -, hy⟩ := map_eq_ok.mp h
    exact hreported hy
  | reset => exact hreported (Except.ok.inj h)

/-- A condition that is waited for does not tell sessions apart that are alike. -/
def Unaware (C : RunControl → RunControl → Prop) : Stimulus σ → Prop
  | .runTo finished => ∀ {x y : Session σ}, x.Alike C y → finished x.sight = finished y.sight
  | _ => True

namespace Alike

variable {C : RunControl → RunControl → Prop} {x y : Session σ}

theorem happenings (h : x.Alike C y) : Together Eq x.happenings y.happenings := by
  obtain ⟨c, m⟩ := x
  obtain ⟨c', m'⟩ := y
  obtain ⟨-, j, rfl⟩ := h
  refine (elaborated_together m j).bind fun m m' hm => ?_
  obtain ⟨j, rfl⟩ := hm
  obtain ⟨j', hj'⟩ : ∃ j', dated (m.withJournal j) = (dated m).withJournal j' := ⟨_, rfl⟩
  rw [hj', Machine.schedule_withJournal]
  refine (Together.of_eq _).bind fun s _ hs => ?_
  subst hs
  exact ((dated m).executeTraced_withJournal j' s).map fun _ _ hr => hr.1

/-- Everything that can be done goes alike, and what is learnt from it is the same, apart from what is seen of
the control. -/
theorem respond (hC : RunControl.Stable C) (h : x.Alike C y) {stimulus : Stimulus σ}
    (hunaware : Unaware C stimulus) :
    Together (fun r r' => r.1.answer = r'.1.answer ∧ r.1.events = r'.1.events ∧ r.2.Alike C r'.2)
      (x.respond stimulus) (y.respond stimulus) := by
  cases stimulus with
  | change f =>
    obtain ⟨c, m⟩ := x
    obtain ⟨c', m'⟩ := y
    obtain ⟨hcontrol, j, rfl⟩ := h
    refine (Together.of_eq (f m.state)).map fun state _ hstate => ?_
    subst hstate
    exact ⟨rfl, rfl, hcontrol, j, rfl⟩
  | observe observer => exact .ok ⟨rfl, rfl, hC.observe observer h.control, h.machine⟩
  | evaluate =>
    obtain ⟨c, m⟩ := x
    obtain ⟨c', m'⟩ := y
    obtain ⟨hcontrol, j, rfl⟩ := h
    unfold Session.respond
    rw [Machine.schedule_withJournal]
    refine (Together.of_eq _).bind fun s _ hs => ?_
    subst hs
    refine (m.executeTraced_withJournal j s).map fun r r' hr => ?_
    obtain ⟨hevents, j', hj', -⟩ := hr
    exact ⟨rfl, hevents, hcontrol, j', hj'⟩
  | commit =>
    obtain ⟨hcontrol, j, hmachine⟩ := h
    refine .ok ⟨rfl, rfl, hcontrol, j, ?_⟩
    rw [hmachine]
    rfl
  | step =>
    refine h.happenings.bind fun events _ hevents => ?_
    subst hevents
    exact (h.step hC).map fun x' y' h' => ⟨rfl, rfl, h'⟩
  | run steps => exact (h.run hC steps).map fun r r' hr => ⟨congrArg some hr.1, rfl, hr.2⟩
  | runTo finished =>
    exact (h.runTo hC fun h' => hunaware h').map fun r r' hr => ⟨congrArg some hr.1, rfl, hr.2⟩
  | reset => exact .ok ⟨rfl, rfl, h.reset hC⟩

end Alike

namespace Resembles

variable {x y : Session σ}

theorem sight_eq (h : x.Resembles y) : y.sight = x.sight := by
  obtain ⟨c, m⟩ := x
  obtain ⟨c', m'⟩ := y
  obtain ⟨⟨observers, rfl⟩, j, rfl⟩ := h
  rfl

/-- Sessions that resemble each other learn the same from everything that can be done. -/
theorem respond (h : x.Resembles y) (stimulus : Stimulus σ) :
    Together (fun r r' => r.1 = r'.1 ∧ r.2.Resembles r'.2) (x.respond stimulus) (y.respond stimulus) := by
  have hunaware : Unaware RunControl.SameButObservers stimulus := by
    cases stimulus with
    | runTo finished => exact fun h' => by rw [sight_eq h']
    | _ => trivial
  refine (Alike.respond RunControl.stable_sameButObservers h hunaware).returned.mono ?_
  rintro ⟨⟨answer, events, sight⟩, x'⟩ ⟨⟨answer', events', sight'⟩, y'⟩ ⟨⟨rfl, rfl, h'⟩, hx, hy⟩
  obtain rfl : sight = x'.sight := sight_respond hx
  obtain rfl : sight' = y'.sight := sight_respond hy
  have hsight : y'.sight = x'.sight := sight_eq h'
  exact ⟨congrArg (Report.mk answer events) hsight.symm, h'⟩

theorem play (h : x.Resembles y) (stimuli : List (Stimulus σ)) :
    Together (fun r r' => r.1 = r'.1 ∧ r.2.Resembles r'.2) (Session.play stimuli x) (Session.play stimuli y) := by
  induction stimuli generalizing x y with
  | nil => exact .ok ⟨rfl, h⟩
  | cons first rest ih =>
    unfold Session.play
    refine (h.respond first).bind fun r r' hr => ?_
    refine (ih hr.2).map fun rs rs' hrs => ?_
    rw [hr.1, hrs.1]
    exact ⟨rfl, hrs.2⟩

end Resembles

end Session

/-! ## What all of it keeps -/

/-- A testbench changes the state within a relation only. -/
def Stimulus.Within (R : σ → σ → Prop) : Stimulus σ → Prop
  | .change f => ∀ {state state' : σ}, f state = .ok state' → R state state'
  | _ => True

theorem Stimulus.Within.mono {R S : σ → σ → Prop} (h : ∀ state state', R state state' → S state state')
    {stimulus : Stimulus σ} (hstimulus : stimulus.Within R) : stimulus.Within S := by
  cases stimulus with
  | change f => exact fun hf => h _ _ (hstimulus hf)
  | observe | evaluate | commit | step | run | runTo | reset => trivial

/-- Whatever bodies, the logic of components, the clock edge and a reset do to the state stays within a
relation that is reflexive and transitive. -/
structure Machine.Stays (R : σ → σ → Prop) (m : Machine σ) : Prop where
  /-- doing nothing is within it -/
  refl : ∀ state, R state state
  /-- so is doing something after something -/
  trans : ∀ {state state' state''}, R state state' → R state' state'' → R state state''
  /-- the bodies and the logic -/
  bodies : m.Within R
  /-- the edge -/
  commit : ∀ part ∈ m.parts, ∀ state, R state (part.commit state)
  /-- the reset -/
  reset : ∀ part ∈ m.parts, ∀ state, R state (part.reset state)

theorem Machine.Stays.foldl {R : σ → σ → Prop} {m : Machine σ} (h : m.Stays R)
    {change : Part σ → σ → σ} (hchange : ∀ part ∈ m.parts, ∀ state, R state (change part state)) (state : σ) :
    R state (m.parts.foldl (fun state part => change part state) state) :=
  List.foldlRecOn m.parts _ (h.refl state) fun _ hstate part hpart => h.trans hstate (hchange part hpart _)

namespace Session

variable {R : σ → σ → Prop} {x₀ x y : Session σ}

/-- A session is what another one has become: the design, the components and the settings are the same, and
what was done to the state is within a relation. -/
structure Continues (R : σ → σ → Prop) (x₀ x : Session σ) : Prop where
  /-- the actions and calls -/
  design : x.machine.design = x₀.machine.design
  /-- the components -/
  parts : x.machine.parts = x₀.machine.parts
  /-- the settings -/
  settings : x.control.settings = x₀.control.settings
  /-- whether counters are kept -/
  tally : x.control.tally.isSome = x₀.control.tally.isSome
  /-- the state -/
  state : R x₀.machine.state x.machine.state

namespace Continues

theorem tell (h : x₀.Continues R x) (message : String) : x₀.Continues R (x.tell message) := by
  obtain ⟨j, hj⟩ := x.frame_tell message
  rw [hj]
  exact ⟨h.design, h.parts, h.settings, h.tally, h.state⟩

variable (hm : x₀.machine.Stays R) (hfrozen : x₀.machine.isFrozen = true)
include hm

/-- The bodies of the machine are the same. -/
theorem within (h : x₀.Continues R x) : x.machine.Within R where
  design := by
    rw [h.design]
    exact hm.bodies.design
  hook := by
    intro part hook hpart
    rw [h.parts] at hpart
    exact hm.bodies.hook hpart

theorem execute (h : x₀.Continues R x) {s : Schedule} {m : Machine σ} {events : List Event}
    (hrun : x.machine.executeTraced s = .ok (m, events)) : x₀.Continues R { x with machine := m } := by
  obtain ⟨hstate, hframe⟩ := (h.within hm).execute hm.refl hm.trans hrun
  rw [hframe]
  exact ⟨h.design, h.parts, h.settings, h.tally, hm.trans h.state hstate⟩

theorem commit (h : x₀.Continues R x) : x₀.Continues R { x with machine := x.machine.commit } := by
  refine ⟨h.design, h.parts, h.settings, h.tally, hm.trans h.state ?_⟩
  show R x.machine.state (x.machine.parts.foldl _ _)
  rw [h.parts]
  exact hm.foldl hm.commit x.machine.state

theorem reset (h : x₀.Continues R x) : x₀.Continues R x.reset := by
  refine ⟨h.design, h.parts, h.settings, Option.isSome_map.trans h.tally, hm.trans h.state ?_⟩
  show R x.machine.state (x.machine.parts.foldl _ _)
  rw [h.parts]
  exact hm.foldl hm.reset x.machine.state

include hfrozen

theorem step (h : x₀.Continues R x) (hstep : x.step = .ok y) : x₀.Continues R y := by
  have hsame : x.machine.isFrozen = true := by
    unfold Machine.isFrozen
    rw [h.design]
    exact hfrozen
  obtain ⟨s, m, events, -, htraced, names, erred, j, rfl⟩ := stages_of_step hsame hstep
  have hdated : x₀.Continues R { x with machine := dated x.machine } :=
    ⟨h.design, h.parts, h.settings, h.tally, h.state⟩
  have hcommit := (hdated.execute hm htraced).commit hm
  exact ⟨hcommit.design, hcommit.parts, h.settings, Option.isSome_map.trans h.tally, hcommit.state⟩

theorem run (h : x₀.Continues R x) {steps : Nat} {done : Bool}
    (hrun : Session.run steps x = .ok (done, y)) : x₀.Continues R y := by
  induction steps generalizing x with
  | zero =>
    obtain ⟨-, rfl⟩ := Prod.mk.inj (Except.ok.inj hrun)
    exact h
  | succ steps ih =>
    unfold Session.run at hrun
    split at hrun
    · obtain ⟨-, rfl⟩ := Prod.mk.inj (Except.ok.inj hrun)
      exact h.tell _
    · obtain ⟨x', hstep, hrun⟩ := bind_eq_ok.mp hrun
      have h' := h.step hm hfrozen hstep
      split at hrun
      · obtain ⟨-, rfl⟩ := Prod.mk.inj (Except.ok.inj hrun)
        exact h'
      · exact ih h' hrun

theorem runTo (h : x₀.Continues R x) {finished : Session σ → Except Fault Bool} {done : Bool}
    (hrun : x.runTo finished = .ok (done, y)) : x₀.Continues R y := by
  unfold Session.runTo at hrun
  revert hrun
  generalize x.stepsLeft = fuel
  intro hrun
  induction fuel generalizing x with
  | zero =>
    unfold runToWithin at hrun
    obtain ⟨holds, -, hrun⟩ := bind_eq_ok.mp hrun
    split at hrun
    · obtain ⟨-, rfl⟩ := Prod.mk.inj (Except.ok.inj hrun)
      exact h
    · obtain ⟨-, rfl⟩ := Prod.mk.inj (Except.ok.inj hrun)
      exact h.tell _
  | succ fuel ih =>
    unfold runToWithin at hrun
    obtain ⟨holds, -, hrun⟩ := bind_eq_ok.mp hrun
    split at hrun
    · obtain ⟨-, rfl⟩ := Prod.mk.inj (Except.ok.inj hrun)
      exact h
    · split at hrun
      · obtain ⟨-, rfl⟩ := Prod.mk.inj (Except.ok.inj hrun)
        exact h.tell _
      · obtain ⟨x', hstep, hrun⟩ := bind_eq_ok.mp hrun
        have h' := h.step hm hfrozen hstep
        split at hrun
        · obtain ⟨-, rfl⟩ := Prod.mk.inj (Except.ok.inj hrun)
          exact h'
        · exact ih h' hrun

/-- Everything that can be done goes on from the session. -/
theorem respond (h : x₀.Continues R x) {stimulus : Stimulus σ} (hstimulus : stimulus.Within R)
    {report : Report σ} (hr : x.respond stimulus = .ok (report, y)) : x₀.Continues R y := by
  cases stimulus with
  | change f =>
    obtain ⟨state, hf, hy⟩ := map_eq_ok.mp hr
    obtain ⟨-, rfl⟩ := Prod.mk.inj hy
    exact ⟨h.design, h.parts, h.settings, h.tally, hm.trans h.state (hstimulus hf)⟩
  | observe observer =>
    obtain ⟨-, rfl⟩ := Prod.mk.inj (Except.ok.inj hr)
    exact ⟨h.design, h.parts, h.settings, h.tally, h.state⟩
  | evaluate =>
    obtain ⟨s, -, hr⟩ := bind_eq_ok.mp hr
    obtain ⟨⟨m, events⟩, hrun, hy⟩ := map_eq_ok.mp hr
    obtain ⟨-, rfl⟩ := Prod.mk.inj hy
    exact h.execute hm hrun
  | commit =>
    obtain ⟨-, rfl⟩ := Prod.mk.inj (Except.ok.inj hr)
    exact h.commit hm
  | step =>
    obtain ⟨events, -, hr⟩ := bind_eq_ok.mp hr
    obtain ⟨y', hstep, hy⟩ := map_eq_ok.mp hr
    obtain ⟨-, rfl⟩ := Prod.mk.inj hy
    exact h.step hm hfrozen hstep
  | run steps =>
    obtain ⟨⟨done, y'⟩, hrun, hy⟩ := map_eq_ok.mp hr
    obtain ⟨-, rfl⟩ := Prod.mk.inj hy
    exact h.run hm hfrozen hrun
  | runTo finished =>
    obtain ⟨⟨done, y'⟩, hrun, hy⟩ := map_eq_ok.mp hr
    obtain ⟨-, rfl⟩ := Prod.mk.inj hy
    exact h.runTo hm hfrozen hrun
  | reset =>
    obtain ⟨-, rfl⟩ := Prod.mk.inj (Except.ok.inj hr)
    exact h.reset hm

/-- So does everything that is done one after the other. -/
theorem play (h : x₀.Continues R x) {stimuli : List (Stimulus σ)}
    (hstimuli : ∀ stimulus ∈ stimuli, stimulus.Within R) {reports : List (Report σ)}
    (hplay : Session.play stimuli x = .ok (reports, y)) : x₀.Continues R y := by
  induction stimuli generalizing x reports with
  | nil =>
    obtain ⟨-, rfl⟩ := Prod.mk.inj (Except.ok.inj hplay)
    exact h
  | cons first rest ih =>
    obtain ⟨⟨report, x'⟩, hfirst, hplay⟩ := bind_eq_ok.mp hplay
    obtain ⟨⟨reports', y'⟩, hrest, hy⟩ := map_eq_ok.mp hplay
    obtain ⟨-, rfl⟩ := Prod.mk.inj hy
    refine ih (h.respond hm hfrozen (hstimuli first List.mem_cons_self) hfirst) ?_ hrest
    exact fun stimulus hmem => hstimuli stimulus (List.mem_cons_of_mem _ hmem)

end Continues

end Session

end GuardedActions
