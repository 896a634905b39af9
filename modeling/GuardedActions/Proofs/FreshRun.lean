import GuardedActions.Proofs.Block.Reset
import GuardedActions.Proofs.BoundedMultiset
import GuardedActions.Proofs.Element.Family
import GuardedActions.Proofs.Session
import Mathlib

/-!
# A reset starts a fresh run

Systems are put together from components that own state elements, from blocks of the library and from
requesters.  Stop such a system between two cycles at any point of any run, with writes that wait, wires that
are driven and requesters that ask for calls.  A reset restores everything that was there when the system was
new, except its requesters, which own no state element: what they ask for, the arguments of their calls
and the results they keep stay what they are.  So the system goes on exactly as a new one does whose requesters
are in that state (`Session.reset_starts_afresh`), and as the new system itself if its requesters are as they
were; a requester that still asks for a call makes the difference (`Tank.call_survives_reset`).
-/

set_option autoImplicit false

namespace GuardedActions

/-! ## What the state of a system consists of -/

/-- What a part of the state of a system is. -/
inductive Kind : Type 1 where
  /-- a state element with values of some type -/
  | element (τ : Type)
  /-- an associative memory -/
  | memory
  /-- a memory bank -/
  | bank
  /-- a reservation station -/
  | station
  /-- a requester -/
  | requester

namespace Kind

/-- What is in it. -/
def Contents : Kind → Type
  | element τ => StateElement τ
  | memory => AssociativeMemory
  | bank => Bank
  | station => Station
  | requester => Requester

/-- The clock edge, which requesters do not take part in. -/
def commit : (k : Kind) → k.Contents → k.Contents
  | element _ => StateElement.commit
  | memory => AssociativeMemory.commit
  | bank => Bank.commit
  | station => Station.commit
  | requester => id

/-- Back to the start, which requesters do not go. -/
def reset : (k : Kind) → k.Contents → k.Contents
  | element _ => StateElement.reset
  | memory => AssociativeMemory.reset
  | bank => Bank.reset
  | station => Station.reset
  | requester => id

/-- As it is made. -/
def IsNew : (k : Kind) → k.Contents → Prop
  | element _ => StateElement.IsNew
  | memory => fun x => ∃ name keyShape dataShape entries,
      AssociativeMemory.build name keyShape dataShape entries = .ok x
  | bank => fun x => ∃ name config, Bank.build name config = .ok x
  | station => fun x => ∃ name config, Station.build name config = .ok x
  | requester => fun x => ∃ name target targetName input output,
      x = Requester.new name target targetName input output

/-- What may be done to it: state elements are written, blocks do what they do in systems of any state, and
with a requester anything may happen. -/
def Changes : (k : Kind) → k.Contents → k.Contents → Prop
  | element _ => fun e e' => ∃ index value, e.write index value = .ok e'
  | memory => fun x x' => ∃ (σ : Type) (b : AssociativeMemory), (b.block : Block σ AssociativeMemory).Moves x x'
  | bank => fun x x' => ∃ (σ : Type) (b : Bank), (b.block : Block σ Bank).Moves x x'
  | station => fun x x' => ∃ (σ : Type) (b : Station) (start : σ → UInt64) (insertRef : ActionRef),
      (b.block start insertRef).Moves x x'
  | requester => fun _ _ => True

/-- What a reset leaves, of something that was new and of what it has become. -/
def restored : (k : Kind) → (new now : k.Contents) → k.Contents
  | element _, new, _ => new
  | memory, new, _ => new
  | bank, new, _ => new
  | station, new, _ => new
  | requester, _, now => now

/-- A reset makes the same of both, or there is nothing that it restores. -/
def Keeps (k : Kind) (u u' : k.Contents) : Prop := k = requester ∨ k.reset u' = k.reset u

variable {k : Kind} {u u' u'' : k.Contents}

theorem Keeps.refl (u : k.Contents) : k.Keeps u u := .inr rfl

theorem Keeps.trans (h : k.Keeps u u') (h' : k.Keeps u' u'') : k.Keeps u u'' := by
  rcases h with hk | h
  · exact .inl hk
  · exact h'.imp id fun h' => h'.trans h

theorem keeps_of_changes (h : k.Changes u u') : k.Keeps u u' := by
  cases k with
  | element τ =>
    obtain ⟨index, value, hwrite⟩ := h
    exact .inr (StateElement.reset_of_write hwrite)
  | memory =>
    obtain ⟨σ, b, hmoves⟩ := h
    exact .inr (AssociativeMemory.reset_of_moves hmoves)
  | bank =>
    obtain ⟨σ, b, hmoves⟩ := h
    exact .inr (Bank.reset_of_moves hmoves)
  | station =>
    obtain ⟨σ, b, start, insertRef, hmoves⟩ := h
    exact .inr (Station.reset_of_moves hmoves)
  | requester => exact .inl rfl

@[simp] theorem commit_commit (u : k.Contents) : k.commit (k.commit u) = k.commit u := by
  cases k with
  | element τ => exact StateElement.commit_commit u
  | memory | bank | station | requester => rfl

@[simp] theorem reset_commit (u : k.Contents) : k.reset (k.commit u) = k.reset u := by
  cases k with
  | element τ => exact StateElement.reset_commit u
  | memory => exact AssociativeMemory.reset_commit u
  | bank => exact Bank.reset_commit u
  | station => exact Station.reset_commit u
  | requester => rfl

@[simp] theorem reset_reset (u : k.Contents) : k.reset (k.reset u) = k.reset u := by
  cases k with
  | element τ => exact StateElement.reset_reset u
  | memory => exact AssociativeMemory.reset_reset u
  | bank => exact Bank.reset_reset u
  | station => exact Station.reset_reset u
  | requester => rfl

/-- A reset restores what was new. -/
theorem reset_eq_restored (hnew : k.IsNew u) (h : k.Keeps u u') : k.reset u' = k.restored u u' := by
  cases k with
  | element τ => exact (h.resolve_left nofun).trans hnew.reset_eq
  | memory =>
    obtain ⟨name, keyShape, dataShape, entries, hbuild⟩ := hnew
    exact (h.resolve_left nofun).trans (AssociativeMemory.reset_build hbuild)
  | bank =>
    obtain ⟨name, config, hbuild⟩ := hnew
    exact (h.resolve_left nofun).trans (Bank.reset_build hbuild)
  | station =>
    obtain ⟨name, config, hbuild⟩ := hnew
    exact (h.resolve_left nofun).trans (Station.reset_build hbuild)
  | requester => rfl

theorem restored_eq_of (h : k = requester → u' = u) : k.restored u u' = u := by
  cases k with
  | element | memory | bank | station => rfl
  | requester => exact h rfl

end Kind

/-- The state of a system: parts of different kinds. -/
abbrev Plant {ι : Type} (kinds : ι → Kind) : Type := (i : ι) → (kinds i).Contents

section

variable {ι : Type} {kinds : ι → Kind}

namespace Plant

/-- A reset makes the same of both states, up to requesters. -/
def Keeps (x x' : Plant kinds) : Prop := ∀ i, (kinds i).Keeps (x i) (x' i)

theorem Keeps.refl (x : Plant kinds) : x.Keeps x := fun i => .refl (x i)

theorem Keeps.trans {x x' x'' : Plant kinds} (h : x.Keeps x') (h' : x'.Keeps x'') : x.Keeps x'' :=
  fun i => (h i).trans (h' i)

variable [DecidableEq ι]

/-- One part is changed, committed or put back. -/
def Touches (x x' : Plant kinds) : Prop :=
  ∃ i u, x' = Function.update x i u ∧
    ((kinds i).Changes (x i) u ∨ u = (kinds i).commit (x i) ∨ u = (kinds i).reset (x i))

/-- Parts are changed, committed and put back, one after the other. -/
def Changes : Plant kinds → Plant kinds → Prop := Relation.ReflTransGen Touches

theorem Changes.keeps {x x' : Plant kinds} (h : x.Changes x') : x.Keeps x' := by
  induction h with
  | refl => exact .refl x
  | tail _ htouch ih =>
    obtain ⟨i, u, rfl, hu⟩ := htouch
    refine ih.trans fun j => ?_
    by_cases hj : j = i
    · subst hj
      rw [Function.update_self]
      rcases hu with hchange | rfl | rfl
      · exact Kind.keeps_of_changes hchange
      · exact .inr (Kind.reset_commit _)
      · exact .inr (Kind.reset_reset _)
    · rw [Function.update_of_ne hj]
      exact .refl _

end Plant

/-- Where a part is. -/
def Plant.place [DecidableEq ι] (i : ι) : Place (Plant kinds) (kinds i).Contents where
  get state := some (state i)
  put state u := Function.update state i u
  get_put _ _ _ _ := congrArg some (Function.update_self ..)

theorem Plant.changes_put [DecidableEq ι] {i : ι} {state : Plant kinds} {u : (kinds i).Contents}
    (h : (kinds i).Changes (state i) u) : state.Changes ((Plant.place i).put state u) :=
  .single ⟨i, u, rfl, .inl h⟩

/-! ## Putting a system together -/

variable [DecidableEq ι]

/-- A system that is put together from nothing, on a state whose parts are new: with components that own some
parts, blocks of the library among them, with requesters, with actions whose bodies change parts only, and
with attempts to elaborate.  The list tells which parts every component owns. -/
inductive Machine.Assembled : List (List ι) → Machine (Plant kinds) → Prop where
  /-- there is nothing but the state -/
  | empty {state : Plant kinds} (new : ∀ i, (kinds i).IsNew (state i)) : Assembled [] { state := state }
  /-- a component -/
  | component {owned : List (List ι)} {m m' : Machine (Plant kinds)} {part : Part (Plant kinds)}
      {refs : List ι} (before : Assembled owned m)
      (owns : part.Owns (fun i => (kinds i).commit) (fun i => (kinds i).reset) refs)
      (hook : ∀ {hook : Hook (Plant kinds)}, part.hook = some hook → hook.Within Plant.Changes none)
      (done : m.addPart part = .ok m') : Assembled (owned ++ [refs]) m'
  /-- a block of the library with its actions -/
  | block {owned : List (List ι)} {m m' : Machine (Plant kinds)} {τ : Type} {b : Block (Plant kinds) τ}
      {place : Place (Plant kinds) τ} {refs : List ι} (before : Assembled owned m)
      (owns : (b.part place).Owns (fun i => (kinds i).commit) (fun i => (kinds i).reset) refs)
      (moves : ∀ state x x', place.get state = some x → b.Moves x x' →
        Plant.Changes state (place.put state x'))
      (done : b.install place m = .ok m') : Assembled (owned ++ [refs]) m'
  /-- a requester with its transaction -/
  | requester {owned : List (List ι)} {m m' : Machine (Plant kinds)} {place : Place (Plant kinds) Requester}
      {x : Requester} {priority : Int} {id : Nat} (before : Assembled owned m)
      (changes : ∀ state y outputs, place.get state = some y →
        Plant.Changes state (place.put state (y.finish outputs)))
      (done : x.install place priority m = .ok (id, m')) : Assembled (owned ++ [[]]) m'
  /-- an action, a call, a property of them, or a conflict -/
  | register {owned : List (List ι)} {m : Machine (Plant kinds)} {step : Registration (Plant kinds)}
      {design : Design (Plant kinds)} (before : Assembled owned m) (within : step.Within Plant.Changes)
      (done : m.design.register step = .ok design) : Assembled owned { m with design := design }
  /-- an attempt to elaborate -/
  | elaborate {owned : List (List ι)} {m : Machine (Plant kinds)} (before : Assembled owned m) :
      Assembled owned m.elaborate.1

/-- What is known of a system that was put together. -/
structure Machine.Pristine (owned : List (List ι)) (m : Machine (Plant kinds)) : Prop where
  /-- bodies and the logic of components change parts only -/
  within : m.Within Plant.Changes
  /-- components own the parts that are listed -/
  owns : List.Forall₂ (Part.Owns (fun i => (kinds i).commit) (fun i => (kinds i).reset)) m.parts owned
  /-- all parts are new -/
  new : ∀ i, (kinds i).IsNew (m.state i)
  /-- no cycle is over -/
  cycle : m.cycle = 0
  /-- nothing was executed -/
  last : m.last = none

namespace Machine.Pristine

variable {owned : List (List ι)} {m m' : Machine (Plant kinds)}

theorem addPart (h : m.Pristine owned) {part : Part (Plant kinds)} {refs : List ι}
    (howns : part.Owns (fun i => (kinds i).commit) (fun i => (kinds i).reset) refs)
    (hhook : ∀ {hook : Hook (Plant kinds)}, part.hook = some hook → hook.Within Plant.Changes none)
    (hm' : m.addPart part = .ok m') : m'.Pristine (owned ++ [refs]) := by
  obtain ⟨u, -, hm'⟩ := bind_eq_ok.mp hm'
  obtain rfl := Except.ok.inj hm'
  refine ⟨⟨h.within.design, fun hpart heq => ?_⟩, ?_, h.new, h.cycle, h.last⟩
  · rcases List.mem_append.mp hpart with hold | hnew
    · exact h.within.hook hold heq
    · obtain rfl := List.mem_singleton.mp hnew
      exact hhook heq
  · exact List.rel_append h.owns (.cons howns .nil)

theorem withDesign (h : m.Pristine owned) {design : Design (Plant kinds)}
    (hdesign : design.Within Plant.Changes) : { m with design := design }.Pristine owned :=
  ⟨⟨hdesign, h.within.hook⟩, h.owns, h.new, h.cycle, h.last⟩

theorem install_block (h : m.Pristine owned) {τ : Type} {b : Block (Plant kinds) τ}
    {place : Place (Plant kinds) τ} {refs : List ι}
    (howns : (b.part place).Owns (fun i => (kinds i).commit) (fun i => (kinds i).reset) refs)
    (hmoves : ∀ state x x', place.get state = some x → b.Moves x x' →
      Plant.Changes state (place.put state x'))
    (hm' : b.install place m = .ok m') : m'.Pristine (owned ++ [refs]) := by
  obtain ⟨m₁, hm₁, hm'⟩ := bind_eq_ok.mp hm'
  obtain rfl := Except.ok.inj hm'
  have h₁ := h.addPart howns (Block.within_hook hmoves) hm₁
  refine h₁.withDesign (h₁.within.design.withRegistry .main ?_)
  exact (h₁.within.design.registry .main).append fun a ha => Block.within_actions hmoves ha

theorem install_requester (h : m.Pristine owned) {place : Place (Plant kinds) Requester}
    {x : Requester} {priority : Int} {id : Nat}
    (hchanges : ∀ state y outputs, place.get state = some y →
      Plant.Changes state (place.put state (y.finish outputs)))
    (hm' : x.install place priority m = .ok (id, m')) : m'.Pristine (owned ++ [[]]) := by
  obtain ⟨m₁, hm₁, hm'⟩ := bind_eq_ok.mp hm'
  have howns : ({ name := x.name, elements := [], commit := fun state => state, reset := fun state => state } :
      Part (Plant kinds)).Owns (fun i => (kinds i).commit) (fun i => (kinds i).reset) [] :=
    ⟨fun _ => rfl, fun _ => rfl⟩
  have h₁ := h.addPart howns nofun hm₁
  obtain ⟨⟨site, d⟩, hdeclare, hm'⟩ := bind_eq_ok.mp hm'
  obtain ⟨main, hmain, hm'⟩ := bind_eq_ok.mp hm'
  obtain ⟨-, rfl⟩ := Prod.mk.inj (Except.ok.inj hm')
  have hpushed : ({ m₁.design with main := m₁.design.main.push ⟨Requester.transactionName x.name,
      some x.name, .transaction (x.transaction place priority)⟩ } : Design (Plant kinds)).Within
        Plant.Changes := by
    refine h₁.within.design.withRegistry .main ((h₁.within.design.registry .main).append fun a ha => ?_)
    obtain rfl := List.mem_singleton.mp ha
    exact Requester.within_transaction hchanges _ _ x priority
  have hdeclared := hpushed.declareCall hdeclare
  refine h₁.withDesign (hdeclared.withRegistry .main ?_)
  exact (hdeclared.registry .main).supplyArguments hmain

end Machine.Pristine

/-- A system that is put together is pristine. -/
theorem Machine.Assembled.pristine {owned : List (List ι)} {m : Machine (Plant kinds)}
    (h : m.Assembled owned) : m.Pristine owned := by
  induction h with
  | empty new => exact ⟨⟨.empty, nofun⟩, .nil, new, rfl, rfl⟩
  | component _ owns hook done ih => exact ih.addPart owns hook done
  | block _ owns moves done ih => exact ih.install_block owns moves done
  | requester _ changes done ih => exact ih.install_requester changes done
  | register _ within done ih => exact ih.withDesign (ih.within.design.register within done)
  | elaborate _ ih => exact ih.withDesign ih.within.design.elaborate

/-! ## Runs and resets -/

/-- The machine with its requesters as they are in another state. -/
def Machine.seat (m : Machine (Plant kinds)) (state : Plant kinds) : Machine (Plant kinds) :=
  { m with state := fun i => (kinds i).restored (m.state i) (state i) }

variable {owned : List (List ι)} {m : Machine (Plant kinds)}

theorem Machine.Pristine.exists_owns (h : m.Pristine owned) {part : Part (Plant kinds)}
    (hpart : part ∈ m.parts) :
    ∃ refs, part.Owns (fun i => (kinds i).commit) (fun i => (kinds i).reset) refs := by
  obtain ⟨i, hi, rfl⟩ := List.getElem_of_mem hpart
  exact ⟨_, h.owns.get hi (h.owns.length_eq ▸ hi)⟩

/-- Everything that happens to the state of a pristine system keeps what a reset makes of it. -/
theorem Machine.Pristine.stays (h : m.Pristine owned) : m.Stays Plant.Keeps where
  refl := .refl
  trans := .trans
  bodies := h.within.mono fun _ _ hchanges => hchanges.keeps
  commit := by
    intro part hpart x i
    obtain ⟨refs, howns⟩ := h.exists_owns hpart
    rw [howns.commit, changeAll_apply fun _ u => Kind.commit_commit u]
    split
    · exact .inr (Kind.reset_commit _)
    · exact .refl _
  reset := by
    intro part hpart x i
    obtain ⟨refs, howns⟩ := h.exists_owns hpart
    rw [howns.reset, changeAll_apply fun _ u => Kind.reset_reset u]
    split
    · exact .inr (Kind.reset_reset _)
    · exact .refl _

/-- What a reset makes of the state of a system that was pristine. -/
theorem Machine.Pristine.state_reset (h : m.Pristine owned)
    (howned : ∀ i, i ∈ owned.flatten ∨ kinds i = .requester) {m' : Machine (Plant kinds)}
    (hparts : m'.parts = m.parts) (hkeeps : m.state.Keeps m'.state) :
    m'.reset.state = (m.seat m'.state).state := by
  have howns := h.owns
  rw [← hparts] at howns
  funext i
  rw [Machine.state_reset howns, changeAll_apply fun _ u => Kind.reset_reset u]
  split
  · exact Kind.reset_eq_restored (h.new i) (hkeeps i)
  · rename_i hi
    have hrequester := (howned i).resolve_left hi
    have hsame : ∀ (k : Kind) (u u' : k.Contents), k = .requester → u' = k.restored u u' := by
      rintro k u u' rfl
      rfl
    exact hsame _ _ _ hrequester

/-- A session that was reset resembles a new one whose requesters are as they were left. -/
theorem Session.Continues.resembles_reset (h : m.Pristine owned)
    (howned : ∀ i, i ∈ owned.flatten ∨ kinds i = .requester) {settings : Settings}
    {x : Session (Plant kinds)} (hx : (Session.new settings m).Continues Plant.Keeps x) :
    (Session.new settings (m.seat x.machine.state)).Resembles x.reset where
  control := by
    have htally : x.control.tally.map (fun _ => ({} : Tally)) = if settings.track then some {} else none := by
      have hsome : x.control.tally.isSome = (if settings.track then some ({} : Tally) else none).isSome :=
        hx.tally
      revert hsome
      cases x.control.tally with
      | none => cases settings.track with
        | true => exact nofun
        | false => exact fun _ => rfl
      | some tally => cases settings.track with
        | true => exact fun _ => rfl
        | false => exact nofun
    have hsettings : x.control.settings = settings := hx.settings
    refine ⟨x.control.observers, ?_⟩
    unfold Session.reset Session.new RunControl.new
    simp only [htally, hsettings]
  machine := by
    refine ⟨x.machine.journal, ?_⟩
    have hstate := h.state_reset howned hx.parts hx.state
    show x.machine.reset = _
    have hframe : x.machine.reset = { m.seat x.machine.state with
        state := x.machine.reset.state, cycle := 0, last := none, journal := x.machine.journal } := by
      unfold Machine.reset Machine.seat
      simp only
      rw [hx.design, hx.parts]
      rfl
    rw [hframe, hstate, ← h.cycle, ← h.last]
    rfl

/-- A system is put together, every part of its state that is not a requester is owned by a component, and it
is elaborated.  Whatever a testbench does with it then, as long as nothing faults: after a reset, everything
that it does from there on has the same outcome, and it sees the same schedules, results, states, cycles and
counters, as if it did so with the new system, with the requesters in the state in which the reset found them.
If they are as they were, that is the new system itself.  Nothing depends on what was logged before, nor on
observers. -/
theorem Session.reset_starts_afresh (hm : m.Assembled owned)
    (howned : ∀ i, i ∈ owned.flatten ∨ kinds i = .requester) (hfrozen : m.isFrozen = true)
    {settings : Settings} {before : List (Stimulus (Plant kinds))}
    (hbefore : ∀ stimulus ∈ before, stimulus.Within Plant.Changes) {seen : List (Report (Plant kinds))}
    {x : Session (Plant kinds)} (hrun : (Session.new settings m).play before = .ok (seen, x))
    (after : List (Stimulus (Plant kinds))) :
    (x.reset.play after).map Prod.fst =
      ((Session.new settings (m.seat x.machine.state)).play after).map Prod.fst ∧
    ((∀ i, kinds i = .requester → x.machine.state i = m.state i) →
      (x.reset.play after).map Prod.fst = ((Session.new settings m).play after).map Prod.fst) := by
  have hpristine := hm.pristine
  have hstays : (Session.new settings m).machine.Stays Plant.Keeps :=
    let stays := hpristine.stays
    ⟨stays.refl, stays.trans, ⟨stays.bodies.design, stays.bodies.hook⟩, stays.commit, stays.reset⟩
  have hcontinues : (Session.new settings m).Continues Plant.Keeps x := by
    have hstart : (Session.new settings m).Continues Plant.Keeps (Session.new settings m) :=
      ⟨rfl, rfl, rfl, rfl, .refl m.state⟩
    refine hstart.play hstays hfrozen (fun stimulus hmem => ?_) hrun
    exact (hbefore stimulus hmem).mono fun _ _ hchanges => hchanges.keeps
  have hplay : (x.reset.play after).map Prod.fst =
      ((Session.new settings (m.seat x.machine.state)).play after).map Prod.fst :=
    (((hcontinues.resembles_reset hpristine howned).play after).map_eq fun _ _ hr => hr.1).symm
  refine ⟨hplay, fun hrequesters => ?_⟩
  have hseat : m.seat x.machine.state = m := by
    have hstate : (m.seat x.machine.state).state = m.state :=
      funext fun i => Kind.restored_eq_of (hrequesters i)
    show { m with state := (m.seat x.machine.state).state } = m
    rw [hstate]
  rw [hplay, hseat]

end

/-! ## A tank -/

namespace Tank

/-- The parts of the tank. -/
inductive Name where
  /-- how full it is -/
  | level
  /-- a memory next to it -/
  | store
  /-- what asks for more -/
  | driver
  deriving DecidableEq

/-- What they are. -/
def kinds : Name → Kind
  | .level => .element Nat
  | .store => .memory
  | .driver => .requester

/-- The method that fills the tank, which comes after those of the memory. -/
def fillRef : ActionRef := ⟨.main, 2⟩

/-- The parts as they are made. -/
def start : Plant kinds
  | .level => StateElement.register (.new ⟨"tank", "level"⟩ 0)
  | .store => AssociativeMemory.Cam.memory
  | .driver => Requester.new "driver" fillRef "fill" Shape.empty Shape.empty

/-- The component that owns the level. -/
def tank : Part (Plant kinds) where
  name := "tank"
  elements := ["tank.level"]
  commit x := changeAll (fun i => (kinds i).commit) x [.level]
  reset x := changeAll (fun i => (kinds i).reset) x [.level]

/-- One more than an element shows. -/
def more : StateElement Nat → Nat
  | .register r => r.read + 1
  | .array a => a.start
  | .wire w => w.get

/-- Fill in one more. -/
def fill (state : Plant kinds) : Except Fault (Plant kinds) :=
  (StateElement.write 0 (more (state .level)) (state .level)).map fun e => Function.update state .level e

/-- The tank with the memory, the method `fill` and what asks for it. -/
def assemble : Except Fault (Machine (Plant kinds)) := do
  let m ← ({ state := start } : Machine (Plant kinds)).addPart tank
  let m ← (AssociativeMemory.Cam.memory.block).install (Plant.place Name.store) m
  let design ← m.design.register (.newMethod .main "fill" Shape.empty Shape.empty (some "tank"))
  let design ← design.register (.setMethod fillRef
    (.body fun _ => Body.step fun view => (fill view.state).map fun state => (Record.empty, state)))
  let (_, m) ← Requester.install (Plant.place Name.driver) (start .driver) 0 { m with design := design }
  .ok m.elaborate.1

/-- The same, elaborated. -/
def machine : Machine (Plant kinds) :=
  match assemble with
  | .ok m => m
  | .error _ => { state := start }

/-- The components own the level and the memory, and what asks owns nothing. -/
def owned : List (List Name) := [[.level], [.store], []]

/-- Ask for a call. -/
def call : Stimulus (Plant kinds) := .change fun state =>
  (Requester.call (state .driver) Record.empty).map fun x => Function.update state .driver x

/-- Put a pair into the memory. -/
def push : Stimulus (Plant kinds) := .change fun state =>
  (AssociativeMemory.push (state .store) (Record.fill AssociativeMemory.Cam.pushInput
    [Bits.ofNat 4 3, Bits.ofNat 8 0xAA])).map fun x => Function.update state .store x

/-- A call is granted; then a pair waits in the memory, and one more waits in the tank. -/
def before : List (Stimulus (Plant kinds)) := [call, .step, push, call, .evaluate]

/-- A session on the tank after some stimuli. -/
def afterwards (stimuli : List (Stimulus (Plant kinds))) : Session (Plant kinds) :=
  match (Session.new {} machine).play stimuli with
  | .ok r => r.2
  | .error _ => Session.new {} machine

/-- How much happened in each of some cycles. -/
def eventCounts (reports : List (Report (Plant kinds))) : List Nat := reports.map fun x => x.events.length

theorem assemble_eq : assemble = .ok machine := by cbv

theorem isFrozen_machine : machine.isFrozen = true := by cbv

theorem changes_fill {state state' : Plant kinds} (h : fill state = .ok state') : state.Changes state' := by
  obtain ⟨e, he, rfl⟩ := map_eq_ok.mp h
  exact Plant.changes_put (i := Name.level) ⟨_, _, he⟩

theorem isNew_start (i : Name) : (kinds i).IsNew (start i) := by
  cases i with
  | level => exact .register _ _
  | store => exact ⟨_, _, _, _, AssociativeMemory.build_cam⟩
  | driver => exact ⟨_, _, _, _, _, rfl⟩

theorem assembled : machine.Assembled owned := by
  have hassemble := assemble_eq
  revert hassemble
  generalize machine = m
  intro hassemble
  obtain ⟨m₁, htank, hassemble⟩ := bind_eq_ok.mp hassemble
  obtain ⟨m₂, hstore, hassemble⟩ := bind_eq_ok.mp hassemble
  obtain ⟨d, hmethod, hassemble⟩ := bind_eq_ok.mp hassemble
  obtain ⟨d', hbody, hassemble⟩ := bind_eq_ok.mp hassemble
  obtain ⟨⟨id, m₃⟩, hdriver, hassemble⟩ := bind_eq_ok.mp hassemble
  obtain rfl := Except.ok.inj hassemble
  have h₁ : m₁.Assembled [[.level]] := by
    refine .component (.empty isNew_start) ⟨fun _ => rfl, fun _ => rfl⟩ (fun hhook => ?_) htank
    cases hhook
  have h₂ : m₂.Assembled [[.level], [.store]] := by
    refine .block h₁ ⟨fun _ => rfl, fun _ => rfl⟩ (fun state x x' hx hmoves => ?_) hstore
    obtain rfl := Option.some.inj hx
    exact Plant.changes_put (i := Name.store) ⟨_, _, hmoves⟩
  have h₃ : Machine.Assembled [[.level], [.store]] { m₂ with design := d } := by
    refine .register h₂ ?_ hmethod
    trivial
  have h₄ : Machine.Assembled [[.level], [.store]] { m₂ with design := d' } := by
    refine .register (m := { m₂ with design := d }) h₃ ?_ hbody
    intro args
    refine Body.within_step fun view result state h => ?_
    obtain ⟨state', hfill, hstate⟩ := map_eq_ok.mp h
    obtain ⟨-, rfl⟩ := Prod.mk.inj hstate
    exact changes_fill hfill
  refine .elaborate (.requester h₄ (fun state y outputs _ => ?_) hdriver)
  exact Plant.changes_put (i := Name.driver) trivial

theorem within_call : call.Within Plant.Changes := by
  intro state state' h
  obtain ⟨x, -, rfl⟩ := map_eq_ok.mp h
  exact Plant.changes_put (i := Name.driver) trivial

theorem moves_push {x x' : AssociativeMemory} {args : Record} (h : x.push args = .ok x') :
    (AssociativeMemory.Cam.memory.block : Block Unit AssociativeMemory).Moves x x' :=
  .inl ⟨_, List.mem_cons_self, AssociativeMemory.Cam.view, args, Record.empty, bind_eq_ok.mpr ⟨x', h, rfl⟩⟩

theorem within_push : push.Within Plant.Changes := by
  intro state state' h
  obtain ⟨x, hx, rfl⟩ := map_eq_ok.mp h
  exact Plant.changes_put (i := Name.store) ⟨Unit, AssociativeMemory.Cam.memory, moves_push hx⟩

theorem exists_play {stimuli : List (Stimulus (Plant kinds))}
    (h : ((Session.new {} machine).play stimuli).isOk = true) :
    ∃ seen, (Session.new {} machine).play stimuli = .ok (seen, afterwards stimuli) := by
  unfold afterwards
  cases hplay : (Session.new {} machine).play stimuli with
  | ok r => exact ⟨r.1, rfl⟩
  | error fault =>
    rw [hplay] at h
    cases h

theorem isOk_before : ((Session.new {} machine).play before).isOk = true := by cbv

theorem isOk_call : ((Session.new {} machine).play [call]).isOk = true := by cbv

/-- A pair and one more wait when the tank is reset; from there on it goes on as it did from the start, as what
asks for calls is as it was. -/
theorem starts_afresh :
    machine.Assembled owned ∧ (∀ i : Name, i ∈ owned.flatten ∨ kinds i = .requester) ∧
    machine.isFrozen = true ∧ (∀ stimulus ∈ before, stimulus.Within Plant.Changes) ∧
    (∃ seen, (Session.new {} machine).play before = .ok (seen, afterwards before)) ∧
    (∀ i : Name, kinds i = .requester → (afterwards before).machine.state i = machine.state i) ∧
    ((afterwards before).reset.play [call, .step]).map Prod.fst =
      ((Session.new {} machine).play [call, .step]).map Prod.fst := by
  have howned : ∀ i : Name, i ∈ owned.flatten ∨ kinds i = .requester := by
    intro i
    cases i with
    | level | store => exact .inl (by decide)
    | driver => exact .inr rfl
  have hbefore : ∀ stimulus ∈ before, stimulus.Within Plant.Changes := by
    simp only [before, List.mem_cons, List.not_mem_nil, or_false]
    rintro stimulus (rfl | rfl | rfl | rfl | rfl)
    · exact within_call
    · trivial
    · exact within_push
    · exact within_call
    · trivial
  have hrequesters : ∀ i : Name, kinds i = .requester →
      (afterwards before).machine.state i = machine.state i := by
    intro i hi
    cases i with
    | level | store => cases hi
    | driver => cbv
  obtain ⟨seen, hrun⟩ := exists_play isOk_before
  obtain ⟨-, hsame⟩ := Session.reset_starts_afresh assembled howned isFrozen_machine hbefore hrun [call, .step]
  exact ⟨assembled, howned, isFrozen_machine, hbefore, ⟨seen, hrun⟩, hrequesters, hsame hrequesters⟩

/-- A call that is asked for before a reset is still asked for after it: the next step grants it, and that of
a new system grants nothing. -/
theorem call_survives_reset : machine.Assembled owned ∧ machine.isFrozen = true ∧
    (∃ seen, (Session.new {} machine).play [call] = .ok (seen, afterwards [call])) ∧
    ((afterwards [call]).reset.play [.step]).map Prod.fst ≠
      ((Session.new {} machine).play [.step]).map Prod.fst := by
  refine ⟨assembled, isFrozen_machine, exists_play isOk_call, fun hsame => ?_⟩
  have hreset : (((afterwards [call]).reset.play [.step]).map Prod.fst).map eventCounts = .ok [5] := by cbv
  have hnew : (((Session.new {} machine).play [.step]).map Prod.fst).map eventCounts = .ok [0] := by cbv
  rw [hsame, hnew] at hreset
  cases hreset

end Tank

end GuardedActions
