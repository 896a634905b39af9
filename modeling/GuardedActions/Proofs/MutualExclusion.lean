import GuardedActions.Proofs.Scheduling.Exclusion
import Mathlib

/-!
# Mutual exclusion

What a schedule grants may run together, and its execution finds no exclusive method that is granted
to several callers.  An accumulator serves as the example, here and for the other properties of
schedules.
-/

set_option autoImplicit false

namespace GuardedActions

/-- Every schedule that is made excludes what must be excluded, and no execution of it on a machine of
the same design finds an exclusive method granted to several callers. -/
theorem Machine.exclusive_of_schedule {σ : Type} {m : Machine σ} {plan : Plan} {s : Schedule}
    (built : m.design.Built) (own : m.design.OwnCallers)
    (hplan : m.design.main.plan = some plan) (hs : m.schedule = .ok s) :
    s.Exclusive m.design.main plan ∧
      ∀ m' : Machine σ, m'.design = m.design → m'.checkExclusive s = .ok () := by
  have helaborated := built.elaborated hplan
  have hexclusive := (schedules_of_schedule helaborated hplan hs).exclusive helaborated
  refine ⟨hexclusive, fun m' hdesign => ?_⟩
  rw [← hdesign] at built own hexclusive
  exact checkExclusive_of_exclusive built own hexclusive

/-! ## An accumulator

A design with both kinds of method: amounts are added one at a time, and anybody may read the total. -/

namespace Accumulator

/-- What the accumulator stores. -/
structure State where
  /-- the largest amount that is accepted -/
  limit : Nat
  /-- the sum of the amounts so far -/
  total : Nat

/-- The shape of an amount. -/
def amount : Shape := ⟨[⟨"amount", 8⟩], by decide, by decide⟩

/-- An amount as a record. -/
def record (n : Nat) : Record := Record.unpack amount (Bits.ofNat 8 n)

/-- An amount does not exceed the limit. -/
def isSmall : Validator State := fun view args =>
  .ok (decide (args.pack.toNat ≤ view.state.limit))

/-- The body of the method that adds an amount. -/
def add (args : Record) : ActionBody State Record :=
  .look fun view =>
    .update ⟨view.state.limit, view.state.total + args.pack.toNat⟩ (.done Record.empty)

/-- The body of the method that returns the total. -/
def read (_ : Record) : ActionBody State Record :=
  .look fun view => .done (record view.state.total)

/-- The method that adds an amount. -/
def adding : Method State where
  input := amount
  output := Shape.empty
  validator := some isSmall
  body := some add
  callers := [⟨.main, 1⟩, ⟨.main, 2⟩]

/-- The method that returns the total. -/
def reading : Method State where
  input := Shape.empty
  output := amount
  body := some read
  nonexclusive := true
  callers := [⟨.main, 0⟩, ⟨.main, 3⟩]

/-- A body that calls some methods one after the other. -/
def callEach : List Nat → ActionBody State Unit
  | [] => .done ()
  | id :: rest => .call (.perform ⟨.main, id⟩ none) fun _ => callEach rest

/-- The registrations. -/
def steps : List (Registration State) :=
  [.newMethod .main "add" amount Shape.empty none,
   .setMethod ⟨.main, 0⟩ (.validator isSmall),
   .setMethod ⟨.main, 0⟩ (.body add),
   .newMethod .main "read" Shape.empty amount none,
   .setMethod ⟨.main, 1⟩ .shared,
   .setMethod ⟨.main, 1⟩ (.body read),
   .newTransaction .main "double" 2 none,
   .setTransaction ⟨.main, 2⟩ (.body (callEach [1, 0])),
   .newTransaction .main "step" 1 none,
   .setTransaction ⟨.main, 3⟩ (.body (callEach [0])),
   .newTransaction .main "watch" 0 none,
   .setTransaction ⟨.main, 4⟩ (.body (callEach [1])),
   .newCall ⟨.main, 2⟩ ⟨.main, 1⟩,
   .newCall ⟨.main, 2⟩ ⟨.main, 0⟩,
   .setCall ⟨.main, 1⟩ (.arguments fun view => .ok (record view.state.total)),
   .newCall ⟨.main, 3⟩ ⟨.main, 0⟩,
   .setCall ⟨.main, 2⟩ (.arguments fun _ => .ok (record 1)),
   .newCall ⟨.main, 4⟩ ⟨.main, 1⟩]

/-- The design, elaborated. -/
def design : Design State := (Design.registerAll steps {}).elaborate.1

/-- What elaboration works out. -/
def plan : Plan where
  closures := [⟨[false, false, false, false, false]⟩, ⟨[false, false, false, false, false]⟩,
    ⟨[true, true, true, false, false]⟩, ⟨[true, false, false, true, false]⟩,
    ⟨[false, true, false, false, true]⟩]
  ranking := ⟨[2, 3, 4], [⟨[false, false, false, false, false]⟩,
    ⟨[false, false, false, false, false]⟩, ⟨[false, false, false, true, false]⟩,
    ⟨[false, false, true, false, false]⟩, ⟨[false, false, false, false, false]⟩]⟩
  clusters := [⟨[2, 3], [⟨[false, true]⟩, ⟨[true, false]⟩]⟩, ⟨[4], [⟨[false]⟩]⟩]
  callers := [[1, 2], [0, 3], [], [], []]

theorem built : design.Built := .elaborate (.registerAll steps .empty)

theorem plan_eq : design.main.plan = some plan := by cbv

theorem actions_eq : design.main.actions =
    [⟨"add", none, .method adding⟩, ⟨"read", none, .method reading⟩,
     ⟨"double", none, .transaction ⟨2, none, some (callEach [1, 0])⟩⟩,
     ⟨"step", none, .transaction ⟨1, none, some (callEach [0])⟩⟩,
     ⟨"watch", none, .transaction ⟨0, none, some (callEach [1])⟩⟩] := by cbv

theorem sites_eq : design.main.sites =
    [⟨2, ⟨.main, 1⟩, none, none⟩,
     ⟨2, ⟨.main, 0⟩, none, some fun view => .ok (record view.state.total)⟩,
     ⟨3, ⟨.main, 0⟩, none, some fun _ => .ok (record 1)⟩,
     ⟨4, ⟨.main, 1⟩, none, none⟩] := by cbv

theorem method_cases {id : Nat} {x : Method State} (h : design.main.method? id = some x) :
    (id = 0 ∧ x = adding) ∨ (id = 1 ∧ x = reading) := by
  obtain ⟨a, ha, hx⟩ := Registry.method?_eq_some.mp h
  rw [actions_eq] at ha
  match id with
  | 0 =>
    obtain rfl := Option.some.inj ha
    exact Or.inl ⟨rfl, (Option.some.inj hx).symm⟩
  | 1 =>
    obtain rfl := Option.some.inj ha
    exact Or.inr ⟨rfl, (Option.some.inj hx).symm⟩
  | 2 | 3 | 4 =>
    obtain rfl := Option.some.inj ha
    cases hx
  | _ + 5 => cases ha

theorem transaction_cases {id : Nat} {t : Transaction State}
    (h : design.main.transaction? id = some t) :
    (id = 2 ∧ t.body = some (callEach [1, 0])) ∨ (id = 3 ∧ t.body = some (callEach [0])) ∨
      (id = 4 ∧ t.body = some (callEach [1])) := by
  obtain ⟨a, ha, ht⟩ := Registry.transaction?_eq_some.mp h
  rw [actions_eq] at ha
  match id with
  | 0 | 1 =>
    obtain rfl := Option.some.inj ha
    cases ht
  | 2 =>
    obtain rfl := Option.some.inj ha
    obtain rfl := Option.some.inj ht
    exact Or.inl ⟨rfl, rfl⟩
  | 3 =>
    obtain rfl := Option.some.inj ha
    obtain rfl := Option.some.inj ht
    exact Or.inr (Or.inl ⟨rfl, rfl⟩)
  | 4 =>
    obtain rfl := Option.some.inj ha
    obtain rfl := Option.some.inj ht
    exact Or.inr (Or.inr ⟨rfl, rfl⟩)
  | _ + 5 => cases ha

theorem ownCallers : design.OwnCallers := by
  intro id x hx c hc
  rcases method_cases hx with ⟨-, rfl⟩ | ⟨-, rfl⟩
  · rcases List.mem_pair.mp hc with rfl | rfl
    · rfl
    · rfl
  · rcases List.mem_pair.mp hc with rfl | rfl
    · rfl
    · rfl

/-- The accumulator at rest. -/
def machine : Machine State := { design := design, state := ⟨10, 3⟩ }

/-- Its schedule: all transactions are requested, and one of the two that add loses. -/
def schedule : Schedule where
  requested := ⟨[true, true, true, true, true]⟩
  runnable := ⟨[true, true, true, true, true]⟩
  granted := ⟨[true, true, true, false, true]⟩
  activeSites := ⟨[true, true, true, true]⟩
  grantedSites := ⟨[true, true, false, true]⟩
  selected := [.site 1, .site 0, .nothing 0, .nothing 0, .nothing 0]
  early := [none, some (record 3), some (record 1), none]

theorem schedule_eq : machine.schedule = .ok schedule := by cbv

theorem exclusive_schedule : design.main.plan = some plan ∧ machine.schedule = .ok schedule ∧
    schedule.Exclusive design.main plan ∧ machine.checkExclusive schedule = .ok () := by
  obtain ⟨hexclusive, hcheck⟩ :=
    Machine.exclusive_of_schedule (m := machine) built ownCallers plan_eq schedule_eq
  exact ⟨plan_eq, schedule_eq, hexclusive, hcheck machine rfl⟩

end Accumulator

end GuardedActions
