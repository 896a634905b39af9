import Mathlib
import GuardedActions.Proofs.Block.Requester
import GuardedActions.Proofs.Execution.Clocked
import GuardedActions.Proofs.Session

/-!
# The calls that a requester is asked for

A testbench asks a requester for one call, or for a call in every cycle, and takes steps of the session that clocks
the machine; the scheduler may deny the requester for any number of cycles.  A single run tells a history of moments:
what was done, and the session before and after.  Along every history the call that was asked for last is delivered
in the next cycle that grants the requester, with its arguments; after that the requester is not granted again unless
it is enabled or asked again; and while it is enabled it is requested in every cycle (`Requester.calls_delivered`).
-/

set_option autoImplicit false

namespace GuardedActions

variable {σ : Type}

namespace Requester

/-! ## What a testbench does -/

/-- Something that a testbench does between two cycles, or a cycle. -/
inductive Operation (σ : Type) where
  /-- ask the requester for a call -/
  | call (args : Record)
  /-- ask it for a call in every cycle -/
  | enable (args : Record)
  /-- ask it for nothing any more -/
  | disable
  /-- take a step -/
  | step
  /-- do something else to the session -/
  | other (f : Session σ → Except Fault (Session σ))

/-- Change the requester at a place of a session. -/
def adjust (place : Place σ Requester) (name : String) (f : Requester → Except Fault Requester) (z : Session σ) :
    Except Fault (Session σ) :=
  (place.change name (fun q => (f q).map fun q' => ((), q')) z.machine.state).map fun r =>
    { z with machine := { z.machine with state := r.2 } }

namespace Operation

/-- Do it, for the requester at a place. -/
def run (place : Place σ Requester) (name : String) : Operation σ → Session σ → Except Fault (Session σ)
  | .call args => adjust place name fun q => q.call args
  | .enable args => adjust place name fun q => q.enable args
  | .disable => adjust place name fun q => .ok q.disable
  | .step => Session.step
  | .other f => f

/-- Whatever else is done leaves the design, the components and the requester alone. -/
def Spares (place : Place σ Requester) : Operation σ → Prop
  | .other f => ∀ {z y : Session σ}, f z = .ok y → y.machine.design = z.machine.design ∧
      y.machine.parts = z.machine.parts ∧ place.Spares z.machine.state y.machine.state
  | _ => True

/-- Whether it asks for a single call. -/
def isCall : Operation σ → Bool
  | .call _ => true
  | _ => false

/-- Whether it asks for calls. -/
def asks : Operation σ → Bool
  | .call _ | .enable _ => true
  | _ => false

/-- Whether it tells the requester anything. -/
def tells : Operation σ → Bool
  | .call _ | .enable _ | .disable => true
  | _ => false

/-- Whether the requester is enabled afterwards, if it was or was not before. -/
def enables (was : Bool) : Operation σ → Bool
  | .enable _ => true
  | .disable => false
  | _ => was

/-- What it does to the requester.  A step may hand it a result. -/
def Moves : Operation σ → Requester → Requester → Prop
  | .call args, q, q' => q' = { q with arguments := args, armed := true }
  | .enable args, q, q' => q' = { q with arguments := args, enabled := true }
  | .disable, q, q' => q' = q.disable
  | .step, q, q' => q.Follows q'
  | .other _, q, q' => q' = q

variable {operation : Operation σ} {q q' : Requester}

theorem Moves.arguments_eq (h : operation.Moves q q') (htells : operation.tells = false) :
    q'.arguments = q.arguments := by
  cases operation with
  | call args | enable args | disable => cases htells
  | step =>
    rcases h with rfl | ⟨result, rfl⟩
    · rfl
    · rfl
  | other f =>
    obtain rfl : q' = q := h
    rfl

theorem Moves.armed_eq (h : operation.Moves q q') (hcall : operation.isCall = false) (harmed : q.armed = false) :
    q'.armed = false := by
  cases operation with
  | call args => cases hcall
  | enable args =>
    obtain rfl : q' = { q with arguments := args, enabled := true } := h
    exact harmed
  | disable =>
    obtain rfl : q' = q.disable := h
    rfl
  | step =>
    rcases h with rfl | ⟨result, rfl⟩
    · exact harmed
    · rfl
  | other f =>
    obtain rfl : q' = q := h
    exact harmed

theorem Moves.enabled_eq (h : operation.Moves q q') : q'.enabled = operation.enables q.enabled := by
  cases operation with
  | call args =>
    obtain rfl : q' = { q with arguments := args, armed := true } := h
    rfl
  | enable args =>
    obtain rfl : q' = { q with arguments := args, enabled := true } := h
    rfl
  | disable =>
    obtain rfl : q' = q.disable := h
    rfl
  | step =>
    rcases h with rfl | ⟨result, rfl⟩
    · rfl
    · rfl
  | other f =>
    obtain rfl : q' = q := h
    rfl

theorem enables_of_asks (h : operation.asks = false) : operation.enables false = false := by
  cases operation with
  | call args | enable args => cases h
  | disable | step | other => rfl

theorem isCall_of_asks (h : operation.asks = false) : operation.isCall = false := by
  cases operation with
  | call args => cases h
  | enable | disable | step | other => rfl

end Operation

/-! ## Histories -/

/-- Something that was done, with the session before and after. -/
structure Moment (σ : Type) where
  /-- what was done -/
  operation : Operation σ
  /-- the session before -/
  before : Session σ
  /-- the session after -/
  after : Session σ

namespace Moment

/-- The moment is a cycle with a schedule. -/
def Schedules (moment : Moment σ) (s : Schedule) : Prop :=
  moment.operation = .step ∧ (Session.dated moment.before.machine).schedule = .ok s

/-- The moment is a cycle in which a transaction is requested. -/
def Requests (moment : Moment σ) (t : Nat) : Prop := ∃ s, moment.Schedules s ∧ s.requested.test t = true

/-- The moment is a cycle in which a transaction is granted. -/
def Grants (moment : Moment σ) (t : Nat) : Prop := ∃ s, moment.Schedules s ∧ s.granted.test t = true

/-- The moment is a cycle that delivers a call of a requester: the call is made with the arguments, the requester
reads as done right after the step, and its outputs are what the target returned in that cycle. -/
def Delivers (place : Place σ Requester) (x : Requester) (t c : Nat) (args : Record) (moment : Moment σ) : Prop :=
  ∃ s events result q, moment.Schedules s ∧ moment.before.happenings = .ok events ∧
    Delivered moment.before.machine.design s c (x.site place t) args result events ∧
    moment.after.machine.grants ⟨.main, t⟩ = true ∧ place.get moment.after.machine.state = some q ∧
    q.outputs = result

end Moment

/-- A run of operations from one session to another, with its history. -/
inductive Runs (place : Place σ Requester) (name : String) : Session σ → List (Moment σ) → Session σ → Prop where
  /-- nothing is done -/
  | done (z : Session σ) : Runs place name z [] z
  /-- something is done first -/
  | next {operation : Operation σ} {z z' y : Session σ} {history : List (Moment σ)}
    (first : operation.run place name z = .ok z') (rest : Runs place name z' history y) :
    Runs place name z (⟨operation, z, z'⟩ :: history) y

/-- Whether the requester is enabled after a history, if it was or was not before. -/
def enabledAfter (was : Bool) (history : List (Moment σ)) : Bool :=
  history.foldl (fun was moment => moment.operation.enables was) was

/-- What a history does to the requester. -/
inductive Moved : List (Moment σ) → Requester → Requester → Prop where
  /-- nothing -/
  | done (q : Requester) : Moved [] q q
  /-- what its first moment does, and then the others -/
  | next {moment : Moment σ} {history : List (Moment σ)} {q q' q'' : Requester}
    (first : moment.operation.Moves q q') (rest : Moved history q' q'') : Moved (moment :: history) q q''

namespace Moved

variable {history : List (Moment σ)} {q q' : Requester}

theorem append (h : Moved history q q') {later : List (Moment σ)} {q'' : Requester} (h' : Moved later q' q'') :
    Moved (history ++ later) q q'' := by
  induction h with
  | done q => exact h'
  | next first rest ih => exact .next first (ih h')

/-- As long as nothing is told to it, a requester keeps its arguments. -/
theorem arguments_eq (h : Moved history q q') (htells : ∀ moment ∈ history, moment.operation.tells = false) :
    q'.arguments = q.arguments := by
  induction h with
  | done q => rfl
  | next first rest ih =>
    exact (ih fun moment hmem => htells moment (List.mem_cons_of_mem _ hmem)).trans
      (first.arguments_eq (htells _ List.mem_cons_self))

/-- A requester is armed by calls only. -/
theorem armed_eq (h : Moved history q q') (hcalls : ∀ moment ∈ history, moment.operation.isCall = false)
    (harmed : q.armed = false) : q'.armed = false := by
  induction h with
  | done q => exact harmed
  | next first rest ih =>
    exact ih (fun moment hmem => hcalls moment (List.mem_cons_of_mem _ hmem))
      (first.armed_eq (hcalls _ List.mem_cons_self) harmed)

/-- Whether a requester is enabled is what it was told last. -/
theorem enabled_eq (h : Moved history q q') : q'.enabled = enabledAfter q.enabled history := by
  induction h with
  | done q => rfl
  | next first rest ih =>
    rw [ih, first.enabled_eq]
    rfl

/-- A requester that wants no call wants none until it is asked. -/
theorem wantsCall_eq (h : Moved history q q') (hasks : ∀ moment ∈ history, moment.operation.asks = false)
    (hwants : q.wantsCall = false) : q'.wantsCall = false := by
  have hcalls : ∀ moment ∈ history, moment.operation.isCall = false :=
    fun moment hmem => Operation.isCall_of_asks (hasks moment hmem)
  unfold wantsCall at hwants ⊢
  rw [Bool.or_eq_false_iff] at hwants ⊢
  refine ⟨h.armed_eq hcalls hwants.1, ?_⟩
  rw [h.enabled_eq, hwants.2]
  exact List.foldlRecOn history _ (motive := fun was => was = false) rfl fun was hwas moment hmem => by
    rw [hwas, Operation.enables_of_asks (hasks moment hmem)]

end Moved

variable {place : Place σ Requester} {name : String} {z y : Session σ}

/-- A history can be cut before and after each of its moments. -/
theorem Runs.cut {before after : List (Moment σ)} {moment : Moment σ}
    (h : Runs place name z (before ++ moment :: after) y) : Runs place name z before moment.before ∧
      moment.operation.run place name moment.before = .ok moment.after ∧
      Runs place name moment.after after y := by
  induction before generalizing z with
  | nil =>
    cases h with
    | next first rest => exact ⟨.done _, first, rest⟩
  | cons head before ih =>
    cases h with
    | next first rest =>
      obtain ⟨hbefore, hrun, hafter⟩ := ih rest
      exact ⟨.next first hbefore, hrun, hafter⟩

/-! ## A requester in a session -/

/-- A session clocks a machine with a requester, which is in some state. -/
structure Attached (place : Place σ Requester) (x : Requester) (priority : Int) (t c : Nat) (z : Session σ)
    (q : Requester) : Prop where
  /-- the design came to be by registrations -/
  built : z.machine.design.Built
  /-- and is elaborated -/
  frozen : z.machine.isFrozen = true
  /-- the machine hosts the requester -/
  hosted : Hosted place x priority t c z.machine
  /-- the requester as it is -/
  found : place.get z.machine.state = some q

namespace Attached

variable {x q q' : Requester} {priority : Int} {t c : Nat} {history : List (Moment σ)}

/-- A requester that is installed in a machine that leaves its place alone is attached once the machine is
elaborated. -/
theorem of_install {m m' : Machine σ} (built : m.design.Built) (htarget : (m.design.method? x.target).isSome)
    (hwithin : m.Within place.Spares)
    (hedge : ∀ part ∈ m.parts, ∀ state, place.Spares state (part.commit state))
    (hinstall : x.install place priority m = .ok (t, m')) (hz : z.machine = m'.elaborate.1)
    (hfrozen : z.machine.isFrozen = true) (hfound : place.get z.machine.state = some q) :
    Attached place x priority t m.design.main.sites.length z q := by
  refine ⟨?_, hfrozen, ?_, hfound⟩
  · rw [hz]
    exact .elaborate (built_install built htarget hinstall)
  · rw [hz]
    exact (hosted_install hwithin hedge hinstall).elaborate

/-- A session with the same design and the same components. -/
theorem of_same (h : Attached place x priority t c z q) (hdesign : y.machine.design = z.machine.design)
    (hparts : y.machine.parts = z.machine.parts) (hfound : place.get y.machine.state = some q') :
    Attached place x priority t c y q' := by
  refine ⟨?_, ?_, h.hosted.of_same hdesign hparts, hfound⟩
  · rw [hdesign]
    exact h.built
  · unfold Machine.isFrozen
    rw [hdesign]
    exact h.frozen

theorem unique (h : Attached place x priority t c z q) (h' : Attached place x priority t c z q') : q = q' :=
  Option.some.inj (h.found.symm.trans h'.found)

/-- What is known of a cycle. -/
structure Stepped (place : Place σ Requester) (x : Requester) (t c : Nat) (q q' : Requester) (z y : Session σ)
    (s : Schedule) (events : List Event) : Prop where
  /-- its schedule -/
  scheduled : (Session.dated z.machine).schedule = .ok s
  /-- what happens in it -/
  happened : z.happenings = .ok events
  /-- the schedule is the one that was executed last -/
  last : y.machine.last = some s
  /-- what it does to the requester -/
  moves : q.Follows q'
  /-- the requester is requested if it wants a call -/
  requested : s.requested.test t = q.wantsCall
  /-- and granted only if it does -/
  wanted : s.granted.test t = true → q.wantsCall = true
  /-- if it is granted its call is delivered -/
  delivered : s.granted.test t = true → ∃ result, q' = q.finish result ∧
    Delivered z.machine.design s c (x.site place t) q.arguments result events

theorem step (h : Attached place x priority t c z q) (hstep : z.step = .ok y) :
    ∃ q' s events, Attached place x priority t c y q' ∧ Stepped place x t c q q' z y s events := by
  obtain ⟨s, m, events, hs, hrun, names, erred, j, rfl⟩ := Session.stages_of_step h.frozen hstep
  obtain ⟨plan, hplan⟩ := Option.isSome_iff_exists.mp h.frozen
  have helaborated := h.built.elaborated hplan
  have hhosted : Hosted place x priority t c (Session.dated z.machine) := h.hosted.of_same rfl rfl
  have hschedules := Machine.schedules_of_schedule (m := Session.dated z.machine) helaborated hplan hs
  obtain ⟨q', hfound, hfollows, hdelivered⟩ := hhosted.cycle h.built hplan hschedules h.found hrun
  have hexecute : (Session.dated z.machine).execute s = .ok m := by
    rw [← Machine.executeTraced_fst, hrun]
    rfl
  have hframe := Machine.frame_of_execute hexecute
  have hhappened : z.happenings = .ok events := by
    unfold Session.happenings
    rw [show Session.elaborated z.machine = .ok z.machine from if_pos h.frozen, ok_bind, hs, ok_bind, hrun]
    rfl
  refine ⟨q', s, events, h.of_same ?_ ?_ hfound, hs, hhappened, ?_, hfollows, ?_, ?_, hdelivered⟩
  · show m.design = _
    rw [hframe]
    rfl
  · show m.parts = _
    rw [hframe]
    rfl
  · show m.last = _
    rw [hframe]
  · exact hhosted.requested_eq helaborated hschedules h.found
  · exact hhosted.wantsCall_of_granted helaborated hschedules h.found

/-- What a change of the requester leaves. -/
theorem adjust (h : Attached place x priority t c z q) {f : Requester → Except Fault Requester}
    (hrun : Requester.adjust place name f z = .ok y) :
    ∃ q', Attached place x priority t c y q' ∧ f q = .ok q' := by
  obtain ⟨⟨⟨⟩, state⟩, hchange, rfl⟩ := map_eq_ok.mp hrun
  obtain ⟨q₁, q', hget, hf, rfl⟩ := Place.change_eq_ok.mp hchange
  obtain rfl := Option.some.inj (h.found.symm.trans hget)
  obtain ⟨q₂, hq₂, hpair⟩ := map_eq_ok.mp hf
  obtain ⟨-, rfl⟩ := Prod.mk.inj hpair
  exact ⟨q₂, h.of_same rfl rfl (place.get_put _ _ _ hget), hq₂⟩

/-- Whatever is done, the requester stays attached. -/
theorem operate (h : Attached place x priority t c z q) {operation : Operation σ}
    (hspares : operation.Spares place) (hrun : operation.run place name z = .ok y) :
    ∃ q', Attached place x priority t c y q' ∧ operation.Moves q q' := by
  cases operation with
  | call args =>
    obtain ⟨q', h', hcall⟩ := h.adjust hrun
    obtain ⟨⟨⟩, -, hcall⟩ := bind_eq_ok.mp hcall
    exact ⟨q', h', (Except.ok.inj hcall).symm⟩
  | enable args =>
    obtain ⟨q', h', henable⟩ := h.adjust hrun
    obtain ⟨⟨⟩, -, henable⟩ := bind_eq_ok.mp henable
    exact ⟨q', h', (Except.ok.inj henable).symm⟩
  | disable =>
    obtain ⟨q', h', hdisable⟩ := h.adjust hrun
    exact ⟨q', h', (Except.ok.inj hdisable).symm⟩
  | step =>
    obtain ⟨q', s, events, h', hstepped⟩ := h.step hrun
    exact ⟨q', h', hstepped.moves⟩
  | other f =>
    obtain ⟨hdesign, hparts, hplace⟩ := hspares hrun
    exact ⟨q, h.of_same hdesign hparts (hplace.trans h.found), rfl⟩

theorem run (h : Attached place x priority t c z q)
    (hspares : ∀ moment ∈ history, moment.operation.Spares place) (hrun : Runs place name z history y) :
    ∃ q', Attached place x priority t c y q' ∧ Moved history q q' := by
  induction hrun generalizing q with
  | done z => exact ⟨q, h, .done q⟩
  | next first rest ih =>
    obtain ⟨q₁, h₁, hmoves⟩ := h.operate (hspares _ List.mem_cons_self) first
    obtain ⟨q', h', hmoved⟩ := ih h₁ fun moment hmem => hspares moment (List.mem_cons_of_mem _ hmem)
    exact ⟨q', h', .next hmoves hmoved⟩

/-- The session before a moment of a history, and what the history did until then. -/
theorem at_moment (h : Attached place x priority t c z q)
    (hspares : ∀ moment ∈ history, moment.operation.Spares place) (hrun : Runs place name z history y)
    {before after : List (Moment σ)} {moment : Moment σ} (hhistory : history = before ++ moment :: after) :
    ∃ q', Attached place x priority t c moment.before q' ∧ Moved before q q' ∧
      moment.operation.run place name moment.before = .ok moment.after ∧ moment.operation.Spares place ∧
      Runs place name moment.after after y ∧ ∀ moment ∈ after, moment.operation.Spares place := by
  subst hhistory
  obtain ⟨hbefore, hmoment, hafter⟩ := hrun.cut
  obtain ⟨q', h', hmoved⟩ := h.run (fun moment hmem => hspares moment (List.mem_append_left _ hmem)) hbefore
  refine ⟨q', h', hmoved, hmoment, hspares moment (by simp), hafter, fun moment hmem => hspares moment ?_⟩
  exact List.mem_append_right _ (List.mem_cons_of_mem _ hmem)

/-- Two moments of a history, and what the history did until the first one, in it, and from there to the second. -/
theorem at_moments (h : Attached place x priority t c z q)
    (hspares : ∀ moment ∈ history, moment.operation.Spares place) (hrun : Runs place name z history y)
    {before between after : List (Moment σ)} {first second : Moment σ}
    (hhistory : history = before ++ first :: (between ++ second :: after)) : ∃ q₁ q₂ q₃,
      Moved before q q₁ ∧ first.operation.Moves q₁ q₂ ∧ Moved between q₂ q₃ ∧
      Attached place x priority t c first.before q₁ ∧
      first.operation.run place name first.before = .ok first.after ∧
      Attached place x priority t c first.after q₂ ∧ Attached place x priority t c second.before q₃ ∧
      second.operation.run place name second.before = .ok second.after := by
  obtain ⟨q₁, h₁, hbefore, hfirst, hharmless, hrest, hlater⟩ := h.at_moment hspares hrun hhistory
  obtain ⟨q₂, h₂, hmoves⟩ := h₁.operate hharmless hfirst
  obtain ⟨q₃, h₃, hbetween, hsecond, -⟩ := h₂.at_moment hlater hrest rfl
  exact ⟨q₁, q₂, q₃, hbefore, hmoves, hbetween, h₁, hfirst, h₂, h₃, hsecond⟩

/-- A moment with a schedule is a cycle. -/
theorem stepped {moment : Moment σ} (h : Attached place x priority t c moment.before q)
    (hrun : moment.operation.run place name moment.before = .ok moment.after) {s : Schedule}
    (hs : moment.Schedules s) : ∃ q' events, Attached place x priority t c moment.after q' ∧
      Stepped place x t c q q' moment.before moment.after s events := by
  obtain ⟨hstep, hscheduled⟩ := hs
  rw [hstep] at hrun
  obtain ⟨q', s', events, h', hstepped⟩ := h.step hrun
  obtain rfl := Except.ok.inj (hscheduled.symm.trans hstepped.scheduled)
  exact ⟨q', events, h', hstepped⟩

/-- A cycle that grants the requester delivers its call, and the requester is not armed afterwards. -/
theorem delivers {moment : Moment σ} (h : Attached place x priority t c moment.before q)
    (hrun : moment.operation.run place name moment.before = .ok moment.after) (hgrants : moment.Grants t) :
    q.wantsCall = true ∧ moment.Delivers place x t c q.arguments ∧
      ∀ {q'}, Attached place x priority t c moment.after q' → q'.armed = false := by
  obtain ⟨s, hs, hgranted⟩ := hgrants
  obtain ⟨q', events, h', hstepped⟩ := h.stepped hrun hs
  obtain ⟨result, rfl, hdelivered⟩ := hstepped.delivered hgranted
  refine ⟨hstepped.wanted hgranted, ⟨s, events, result, _, hs, hstepped.happened, hdelivered, ?_, h'.found, rfl⟩,
    fun hafter => ?_⟩
  · unfold Machine.grants
    rw [hstepped.last]
    exact hgranted
  · rw [← h'.unique hafter]
    rfl

end Attached

/-- Along every history of a session with a requester: a call that is asked for, and after which the requester is
told nothing, is delivered in the cycle that grants the requester, with its arguments; after a cycle that granted it,
and until another call, the requester is granted only while it is enabled; after it was disabled it is not granted
until it is asked for calls again; and it is requested in every cycle while it is enabled. -/
theorem calls_delivered {x q : Requester} {priority : Int} {t c : Nat} {history : List (Moment σ)}
    (h : Attached place x priority t c z q) (hspares : ∀ moment ∈ history, moment.operation.Spares place)
    (hrun : Runs place x.name z history y) :
    (∀ (before between after : List (Moment σ)) (asked cycle : Moment σ) (args : Record),
      history = before ++ asked :: (between ++ cycle :: after) → asked.operation = .call args →
      (∀ moment ∈ between, moment.operation.tells = false) → cycle.Grants t →
      cycle.Delivers place x t c args) ∧
    (∀ (before between after : List (Moment σ)) (cycle next : Moment σ),
      history = before ++ cycle :: (between ++ next :: after) → cycle.Grants t →
      (∀ moment ∈ between, moment.operation.isCall = false) → next.Grants t →
      enabledAfter q.enabled (before ++ cycle :: between) = true) ∧
    (∀ (before between after : List (Moment σ)) (stopped next : Moment σ),
      history = before ++ stopped :: (between ++ next :: after) → stopped.operation = .disable →
      (∀ moment ∈ between, moment.operation.asks = false) → ¬ next.Grants t) ∧
    (∀ (before after : List (Moment σ)) (cycle : Moment σ), history = before ++ cycle :: after →
      cycle.operation = .step → enabledAfter q.enabled before = true → cycle.Requests t) := by
  refine ⟨?_, ?_, ?_, ?_⟩
  · intro before between after asked cycle args hhistory hcall htells hgrants
    obtain ⟨q₁, q₂, q₃, -, hmoves, hbetween, -, -, -, h₃, hcycle⟩ := h.at_moments hspares hrun hhistory
    rw [hcall] at hmoves
    have hargs : q₃.arguments = args := by
      rw [hbetween.arguments_eq htells, show q₂ = { q₁ with arguments := args, armed := true } from hmoves]
    rw [← hargs]
    exact (h₃.delivers hcycle hgrants).2.1
  · intro before between after cycle next hhistory hgrants hcalls hnext
    obtain ⟨q₁, q₂, q₃, hbefore, hmoves, hbetween, h₁, hcycle, h₂, h₃, hagain⟩ :=
      h.at_moments hspares hrun hhistory
    obtain ⟨-, -, harmed⟩ := h₁.delivers hcycle hgrants
    have hwants := (h₃.delivers hagain hnext).1
    rw [wantsCall, hbetween.armed_eq hcalls (harmed h₂), Bool.false_or] at hwants
    rw [← (hbefore.append (.next hmoves hbetween)).enabled_eq]
    exact hwants
  · intro before between after stopped next hhistory hdisable hasks hgrants
    obtain ⟨q₁, q₂, q₃, -, hmoves, hbetween, -, -, -, h₃, hnext⟩ := h.at_moments hspares hrun hhistory
    rw [hdisable] at hmoves
    have hidle : q₂.wantsCall = false := by
      rw [show q₂ = q₁.disable from hmoves]
      rfl
    have hwants := (h₃.delivers hnext hgrants).1
    rw [hbetween.wantsCall_eq hasks hidle] at hwants
    cases hwants
  · intro before after cycle hhistory hstep henabled
    obtain ⟨q₁, h₁, hmoved, hcycle, -⟩ := h.at_moment hspares hrun hhistory
    rw [hstep] at hcycle
    obtain ⟨q₂, s, events, -, hstepped⟩ := h₁.step hcycle
    refine ⟨s, ⟨hstep, hstepped.scheduled⟩, ?_⟩
    rw [hstepped.requested, wantsCall, hmoved.enabled_eq, henabled, Bool.or_true]

/-- Do some things one after the other, and write their history down. -/
def perform (place : Place σ Requester) (name : String) :
    List (Operation σ) → Session σ → Except Fault (List (Moment σ) × Session σ)
  | [], z => .ok ([], z)
  | operation :: rest, z => do
    let z' ← operation.run place name z
    let (history, y) ← perform place name rest z'
    .ok (⟨operation, z, z'⟩ :: history, y)

/-- What is done one after the other is a run. -/
theorem runs_of_perform {place : Place σ Requester} {name : String} {operations : List (Operation σ)}
    {z y : Session σ} {history : List (Moment σ)} (h : perform place name operations z = .ok (history, y)) :
    Runs place name z history y ∧ history.map Moment.operation = operations := by
  induction operations generalizing z history with
  | nil =>
    obtain ⟨rfl, rfl⟩ := Prod.mk.inj (Except.ok.inj h)
    exact ⟨.done z, rfl⟩
  | cons operation rest ih =>
    obtain ⟨z', hrun, h⟩ := bind_eq_ok.mp h
    obtain ⟨⟨later, y'⟩, hlater, h⟩ := bind_eq_ok.mp h
    obtain ⟨rfl, rfl⟩ := Prod.mk.inj (Except.ok.inj h)
    obtain ⟨hruns, hoperations⟩ := ih hlater
    exact ⟨.next hrun hruns, congrArg (operation :: ·) hoperations⟩

end Requester

/-! ## A scale

A hand puts weights on a scale, when it is asked to.  Something else, which goes first, puts one more on it as long
as the load is even. -/

namespace Scale

/-- A scale with a hand. -/
structure Pan where
  /-- what lies on the scale -/
  load : Nat := 0
  /-- puts weights on it -/
  hand : Requester

/-- The shape of a weight. -/
def weight : Shape := ⟨[⟨"weight", 8⟩], by decide, by decide⟩

/-- A weight as a record. -/
def record (n : Nat) : Record := Record.unpack weight (Bits.ofNat 8 n)

/-- The body of the method that puts a weight on the scale and returns the load. -/
def put (args : Record) : ActionBody Pan Record := Body.step fun view =>
  .ok (record (view.state.load + args.pack.toNat), { view.state with load := view.state.load + args.pack.toNat })

/-- The body of what goes first. -/
def even : ActionBody Pan Unit := (Body.ask (.perform ⟨.main, 0⟩ (some (record 1)))).bind fun _ => .done ()

/-- The registrations. -/
def steps : List (Registration Pan) :=
  [.newMethod .main "put" weight weight none,
   .setMethod ⟨.main, 0⟩ (.body put),
   .newTransaction .main "even" 1 none,
   .setTransaction ⟨.main, 1⟩ (.request fun view => .ok (view.state.load % 2 == 0)),
   .setTransaction ⟨.main, 1⟩ (.body even),
   .newCall ⟨.main, 1⟩ ⟨.main, 0⟩]

/-- The hand at first. -/
def hand : Requester := Requester.new "hand" ⟨.main, 0⟩ "put" weight weight

/-- Where the hand is. -/
def place : Place Pan Requester := ⟨fun p => some p.hand, fun p x => { p with hand := x }, fun _ _ _ _ => rfl⟩

/-- The scale without its hand. -/
def bare : Machine Pan := { design := Design.registerAll steps {}, state := { hand := hand } }

/-- The scale with its hand. -/
def manned : Machine Pan :=
  match hand.install place 0 bare with
  | .ok r => r.2
  | .error _ => bare

/-- The scale before the first cycle. -/
def start : Session Pan := Session.new {} manned.elaborate.1

/-- A weight is asked for once, and then two in every cycle for a while. -/
def operations : List (Requester.Operation Pan) :=
  [.call (record 5), .step, .step, .step, .enable (record 2), .step, .step, .disable, .step]

/-- What happens, and the session at the end. -/
def outcome : List (Requester.Moment Pan) × Session Pan :=
  (Requester.perform place hand.name operations start).toOption.getD ([], start)

/-- Whether a moment is a cycle that grants the hand, and the load and what the hand reads afterwards. -/
def brief (moment : Requester.Moment Pan) : Option Bool × Nat × Nat :=
  (match moment.operation with
    | .step => (Session.dated moment.before.machine).schedule.toOption.map fun s => s.granted.test 2
    | _ => none,
   moment.after.machine.state.load, moment.after.machine.state.hand.outputs.pack.toNat)

theorem install_eq : hand.install place 0 bare = .ok (2, manned) := by rfl

theorem isOk_perform : (Requester.perform place hand.name operations start).isOk = true := by cbv

theorem briefs : outcome.1.map brief =
    [(none, 0, 0), (some false, 1, 0), (some true, 6, 6), (some false, 7, 6), (none, 7, 6),
     (some true, 9, 9), (some true, 11, 11), (none, 11, 11), (some false, 11, 11)] := by cbv

/-- A brief that tells of a cycle tells whether it grants the hand. -/
theorem grants_iff {moment : Requester.Moment Pan} {granted : Bool} {numbers : Nat × Nat}
    (h : brief moment = (some granted, numbers)) : moment.Grants 2 ↔ granted = true := by
  obtain ⟨hfirst, -⟩ := Prod.mk.inj h
  split at hfirst
  · rename_i hstep
    obtain ⟨s, hs, rfl⟩ := Option.map_eq_some_iff.mp hfirst
    have hschedule : (Session.dated moment.before.machine).schedule = .ok s := by
      cases hcases : (Session.dated moment.before.machine).schedule with
      | ok s' =>
        rw [hcases] at hs
        rw [Option.some.inj hs]
      | error fault =>
        rw [hcases] at hs
        cases hs
    constructor
    · rintro ⟨s', ⟨-, hs'⟩, hgranted⟩
      rw [← Except.ok.inj (hs'.symm.trans hschedule)]
      exact hgranted
    · exact fun hgranted => ⟨s, ⟨hstep, hschedule⟩, hgranted⟩
  · cases hfirst

theorem attached : Requester.Attached place hand 0 2 1 start hand := by
  have hput : ∀ args, (put args).Within place.Spares none := by
    intro args
    refine Body.within_step fun view result state h => ?_
    obtain ⟨-, rfl⟩ := Prod.mk.inj (Except.ok.inj h)
    rfl
  have heven : even.Within place.Spares none := fun _ => trivial
  have hdesign : bare.design.Within place.Spares := by
    refine .registerAll .empty ?_
    simp only [steps, List.mem_cons, List.not_mem_nil, or_false]
    rintro step (rfl | rfl | rfl | rfl | rfl | rfl)
    · trivial
    · exact hput
    · trivial
    · trivial
    · exact heven
    · trivial
  exact .of_install (.registerAll steps .empty) (by rfl) ⟨hdesign, nofun⟩ nofun install_eq rfl (by cbv) rfl

/-- Five is asked for in a cycle that denies the hand, and delivered in the next one.  Once the hand is disabled,
nothing is. -/
theorem delivers_five :
    Requester.Attached place hand 0 2 1 start hand ∧
    (∀ moment ∈ outcome.1, moment.operation.Spares place) ∧
    Requester.Runs place hand.name start outcome.1 outcome.2 ∧
    ∃ asked denied cycle between stopped last,
      outcome.1 = asked :: denied :: cycle :: (between ++ [stopped, last]) ∧
      asked.operation = .call (record 5) ∧ denied.operation = .step ∧ ¬ denied.Grants 2 ∧
      cycle.Grants 2 ∧ cycle.Delivers place hand 2 1 (record 5) ∧
      stopped.operation = .disable ∧ ¬ last.Grants 2 := by
  obtain ⟨hruns, hoperations⟩ : Requester.Runs place hand.name start outcome.1 outcome.2 ∧
      outcome.1.map Requester.Moment.operation = operations := by
    have hok := isOk_perform
    unfold outcome
    cases hperform : Requester.perform place hand.name operations start with
    | ok r => exact Requester.runs_of_perform hperform
    | error fault =>
      rw [hperform] at hok
      cases hok
  have hspares : ∀ moment ∈ outcome.1, moment.operation.Spares place := by
    intro moment hmem
    have hoperation := List.mem_map_of_mem (f := Requester.Moment.operation) hmem
    rw [hoperations] at hoperation
    simp only [operations, List.mem_cons, List.not_mem_nil, or_false] at hoperation
    rcases hoperation with h | h | h | h | h | h | h | h | h
    all_goals
      rw [h]
      trivial
  have hbriefs := briefs
  obtain ⟨hdelivered, -, hstopped, -⟩ := Requester.calls_delivered attached hspares hruns
  refine ⟨attached, hspares, hruns, ?_⟩
  generalize outcome.1 = history at hbriefs hoperations hdelivered hstopped
  simp only [List.map_eq_cons_iff, List.map_eq_nil_iff] at hbriefs
  obtain ⟨asked, _, rfl, -, denied, _, rfl, hdenied, cycle, _, rfl, hcycle, third, _, rfl, -, enabling, _, rfl, -,
    first, _, rfl, -, second, _, rfl, -, stopped, _, rfl, -, last, _, rfl, -, rfl⟩ := hbriefs
  simp only [operations, List.map_cons, List.cons.injEq] at hoperations
  obtain ⟨hcall, hstep, -, -, -, -, -, hdisable, -⟩ := hoperations
  have hgranted : cycle.Grants 2 := (grants_iff hcycle).mpr rfl
  refine ⟨asked, denied, cycle, [third, enabling, first, second], stopped, last, rfl, hcall, hstep, ?_, hgranted, ?_,
    hdisable, ?_⟩
  · exact fun h => Bool.false_ne_true ((grants_iff hdenied).mp h)
  · refine hdelivered [] [denied] _ asked cycle (record 5) rfl hcall ?_ hgranted
    simp [hstep, Requester.Operation.tells]
  · refine hstopped [asked, denied, cycle, third, enabling, first, second] [] [] stopped last rfl hdisable ?_
    simp

end Scale

end GuardedActions
