import GuardedActions.Proofs.Block.HostedStation
import GuardedActions.Proofs.Block.Install
import GuardedActions.Proofs.Execution.Clocked
import GuardedActions.Proofs.SlotLifecycle

/-!
# Fences hold back reservations

A reservation station in a clocked machine, whoever calls its methods.  Every run is an account of the entries that are
given away and of the fences that sit in them (`Accounts`), so that the history of a run tells in every cycle whether a
reservation is possible, and a fence holds reservations back from the cycle that inserts it to the one that takes it
(`fences_hold_selection`).
-/

set_option autoImplicit false

namespace GuardedActions

variable {σ : Type}

/-- A machine employs a reservation station: the methods of the station are there from a position on and nothing else
touches its state, the design was put together by registrations and is elaborated, no call comes from the guest
registry, and bodies run other actions by calls only.  Who calls the methods, and from where, is left open. -/
structure Station.Employed (station : Station) (start : σ → UInt64) (place : Place σ Station) (first : Nat)
    (plan : Plan) (m : Machine σ) : Prop where
  /-- the machine hosts the station, and `insert` is the method after `select` -/
  hosted : (station.block start ⟨.main, first + 1⟩).Hosted place first m
  /-- the design was put together by registrations -/
  built : m.design.Built
  /-- no call comes from the guest registry -/
  own : m.design.OwnCallers
  /-- the design is elaborated -/
  elaborated : m.design.main.plan = some plan
  /-- bodies run other actions by calls only -/
  bodies : m.design.main.OnlyPerforms

namespace Machine.Cycle

/-- What a cycle asks of the station whose methods are at a position. -/
def demand (first : Nat) (c : Cycle σ) : Station.Demand := Station.demandOf first c.schedule

/-- Whether a cycle takes a barrier out of the station at a place. -/
def takesBarrier (place : Place σ Station) (first : Nat) (c : Cycle σ) : Bool :=
  (place.get c.machine.state).any (c.demand first).takesBarrier

end Machine.Cycle

namespace Station

/-- A call site of a method is active and has supplied arguments that describe a barrier. -/
def BarrierWaits (m : Machine σ) (s : Schedule) (method : Nat) : Prop :=
  ∃ (i : Nat) (u : Site σ) (args : Record), m.design.main.sites[i]? = some u ∧ u.callee = ⟨.main, method⟩ ∧
    s.activeSites.test i = true ∧ s.earlyOf i = some args ∧ describesBarrier args = true

/-- The station in a machine after some cycles, and what it owes to them. -/
structure Accounts (station : Station) (place : Place σ Station) (first : Nat) (history : List (Machine.Cycle σ))
    (m : Machine σ) (x : Station) : Prop where
  /-- it is in the machine -/
  get : place.get m.state = some x
  /-- only entries have changed -/
  frame : x = { station with slots := x.slots }
  /-- its shape and layouts fit together -/
  formed : x.Formed
  /-- it is between two cycles -/
  rests : x.Rests
  /-- entries that are given away were selected, and nothing was taken from them since -/
  reserved : x.reserved.card + history.countP (fun c => (c.demand first).takes) =
    history.countP fun c => (c.demand first).selects
  /-- barriers that are there were inserted, and not taken since -/
  barriers : x.barriers.card + history.countP (fun c => c.takesBarrier place first) =
    history.countP fun c => (c.demand first).insertsBarrier

section

variable {station x : Station} {start : σ → UInt64} {place : Place σ Station} {first : Nat} {plan : Plan}
  {m₀ m m' : Machine σ} {s : Schedule} {history : List (Machine.Cycle σ)}

theorem Employed.of_same (h : station.Employed start place first plan m) (hdesign : m'.design = m.design)
    (hparts : m'.parts = m.parts) : station.Employed start place first plan m' where
  hosted := h.hosted.of_same hdesign hparts
  built := hdesign ▸ h.built
  own := hdesign ▸ h.own
  elaborated := hdesign ▸ h.elaborated
  bodies := hdesign ▸ h.bodies

theorem Employed.of_clocked (h : station.Employed start place first plan m₀)
    (hrun : Machine.Clocked place.Spares m₀ history m) : station.Employed start place first plan m :=
  h.of_same hrun.same.1 hrun.same.2

theorem Employed.schedules (h : station.Employed start place first plan m) (hs : m.schedule = .ok s) :
    m.Schedules plan s :=
  Machine.schedules_of_schedule (h.built.elaborated h.elaborated) h.elaborated hs

theorem countP_concat {α : Type} (p : α → Bool) (l : List α) (a : α) :
    (l ++ [a]).countP p = l.countP p + (p a).toNat := by
  rw [List.countP_append, List.countP_singleton]
  cases p a <;> rfl

/-! ## Every run keeps account -/

/-- One more cycle. -/
theorem Accounts.cycle (h : station.Accounts place first history m x)
    (employed : station.Employed start place first plan m) (hs : m.schedule = .ok s)
    (hrun : m.execute s = .ok m') : ∃ turns y, Allows station start ⟨.main, first + 1⟩ x turns ∧
      Outcome start x turns y ∧ (demandOf first s).Of turns ∧
        station.Accounts place first (history ++ [⟨m, s⟩]) m'.commit y := by
  obtain ⟨turns, y, hallows, houtcome, hdemand, hget⟩ := exists_outcome employed.hosted employed.built employed.own
    employed.elaborated employed.bodies (employed.schedules hs) hrun h.get h.frame h.formed h.rests
  have hreserved := houtcome.reserved_balance hallows h.formed h.rests hdemand
  have hbarriers := houtcome.barriers_balance hallows h.formed h.rests hdemand
  have htakes : (⟨m, s⟩ : Machine.Cycle σ).takesBarrier place first = (demandOf first s).takesBarrier x := by
    unfold Machine.Cycle.takesBarrier
    rw [h.get]
    rfl
  refine ⟨turns, y, hallows, houtcome, hdemand, hget, ?_, houtcome.formed h.formed, houtcome.rests, ?_, ?_⟩
  · rw [houtcome.frame, h.frame]
  · have hbefore := h.reserved
    simp only [countP_concat, Machine.Cycle.demand] at hbefore ⊢
    omega
  · have hbefore := h.barriers
    simp only [countP_concat, Machine.Cycle.demand, htakes] at hbefore ⊢
    omega

/-- Every run of a machine with a new station keeps account. -/
theorem exists_accounts {name : String} {config : StationConfig} (hentries : config.entries ≤ UInt64.size)
    (hbuild : build name config = .ok station) (employed : station.Employed start place first plan m₀)
    (hstart : place.get m₀.state = some station) (hrun : Machine.Clocked place.Spares m₀ history m) :
    ∃ x, station.Accounts place first history m x := by
  induction hrun with
  | start =>
    obtain ⟨hformed, hrests, -⟩ := rests_build hentries hbuild
    obtain ⟨hreserved, hbarriers⟩ := reserved_build hentries hbuild
    refine ⟨station, hstart, rfl, hformed, hrests, ?_, ?_⟩
    · rw [hreserved]
      rfl
    · rw [hbarriers]
      rfl
  | cycle run scheduled executed ih =>
    obtain ⟨x, hx⟩ := ih
    obtain ⟨-, y, -, -, -, hy⟩ := hx.cycle (employed.of_clocked run) scheduled executed
    exact ⟨y, hy⟩
  | between run design parts state ih =>
    obtain ⟨x, hx⟩ := ih
    exact ⟨x, state.trans hx.get, hx.frame, hx.formed, hx.rests, hx.reserved, hx.barriers⟩

/-! ## Whether a reservation is possible -/

theorem Employed.exists_insert (employed : station.Employed start place first plan m) :
    ∃ target, m.design.main.method? (first + 1) = some target ∧ target.needsEarly = true ∧
      target.input = station.insertInput := by
  obtain ⟨p, hport, -, hvalidator, hinput⟩ := exists_insertPort station start ⟨.main, first + 1⟩ first
  obtain ⟨callers, early, hmethod⟩ := employed.hosted.method hport
  exact ⟨_, hmethod, by simp [Method.needsEarly, Port.method, hvalidator], hinput⟩

/-- What waits for `insert` says what it inserts. -/
theorem Employed.pending_spec (employed : station.Employed start place first plan m) (hs : m.schedule = .ok s)
    (hformed : x.Formed) (hframe : x = { station with slots := x.slots }) {args : Record}
    (hargs : args ∈ m.pendingWith s.activeSites s.early ⟨.main, first + 1⟩) :
    ∃ op, args.getWord "op" = .ok op := by
  obtain ⟨target, hmethod, hearly, hinput⟩ := employed.exists_insert
  have h := employed.built.elaborated employed.elaborated
  obtain ⟨i, u, hu, hcallee, hactive, hknown⟩ := (Machine.mem_pendingWith employed.built employed.own hmethod).mp hargs
  have htarget : m.design.main.method? u.callee.id = some target := by
    rw [hcallee]
    exact hmethod
  obtain ⟨known, hknown', hfits⟩ := (employed.schedules hs).early hu hactive (h.in_time hu htarget hearly)
  obtain rfl := Option.some.inj (hknown.symm.trans hknown')
  have hshape : args.shape = x.insertInput := by
    rw [hframe, hfits ((h.method?_callee hu).trans htarget)]
    exact hinput
  have hfield : (⟨"op", 2⟩ : Field) ∈ args.shape.fields := by simp [hshape, hformed.insertInput]
  obtain ⟨op, hop, -⟩ := args.exists_getWord hfield (by decide)
  exact ⟨op, hop⟩

/-- What waits for `insert` describes a barrier if the arguments of an active call site do. -/
theorem Employed.barrierWaits_iff (employed : station.Employed start place first plan m) :
    BarrierWaits m s (first + 1) ↔
      ∃ args ∈ m.pendingWith s.activeSites s.early ⟨.main, first + 1⟩, describesBarrier args = true := by
  obtain ⟨target, hmethod, -⟩ := employed.exists_insert
  simp only [Machine.mem_pendingWith employed.built employed.own hmethod]
  constructor
  · rintro ⟨i, u, args, hu, hcallee, hactive, hargs, hdescribes⟩
    exact ⟨args, ⟨i, u, hu, hcallee, hactive, hargs⟩, hdescribes⟩
  · rintro ⟨args, ⟨i, u, hu, hcallee, hactive, hargs⟩, hdescribes⟩
    exact ⟨i, u, args, hu, hcallee, hactive, hargs, hdescribes⟩

/-- In every cycle it can be told from the entries and from the insertions that wait whether a reservation is
possible. -/
theorem Accounts.exists_ready (h : station.Accounts place first history m x)
    (employed : station.Employed start place first plan m) (hs : m.schedule = .ok s) :
    ∃ ready, Guard.holds ((m.design.main.method? first).bind Method.ready)
        (m.viewWith s.activeSites s.early) = .ok ready ∧
      (ready = true ↔ x.barriers.card = 0 ∧ ¬ BarrierWaits m s (first + 1) ∧
        x.reserved.card < x.config.entries) := by
  have hready := holds_ready employed.hosted (show place.get (m.viewWith s.activeSites s.early).state = some x from h.get)
  obtain ⟨ready, hselect, hiff⟩ := h.rests.selectReady_eq fun args hargs =>
    employed.pending_spec hs h.formed h.frame hargs
  refine ⟨ready, hready.trans hselect, hiff.trans ?_⟩
  rw [employed.barrierWaits_iff]
  simp only [not_exists, not_and, Bool.not_eq_true]

/-- A barrier in an entry, or one that is about to be inserted, forbids a reservation. -/
theorem Accounts.selects_eq_false (h : station.Accounts place first history m x)
    (employed : station.Employed start place first plan m) (hs : m.schedule = .ok s)
    (hbarrier : x.barriers.card ≠ 0 ∨ BarrierWaits m s (first + 1)) : (demandOf first s).selects = false := by
  by_contra hselects
  have hgranted : s.granted.test first = true := Bool.eq_true_of_not_eq_false hselects
  obtain ⟨p, hport, -⟩ := exists_selectPort station start ⟨.main, first + 1⟩ first
  obtain ⟨callers, early, hmethod⟩ := employed.hosted.method hport
  have hready := (employed.schedules hs).ready_of_granted (employed.built.elaborated employed.elaborated) hmethod
    hgranted
  obtain ⟨ready, hholds, hiff⟩ := h.exists_ready employed hs
  rw [hmethod, Option.bind_some] at hholds
  obtain rfl := Except.ok.inj (hready.symm.trans hholds)
  obtain ⟨hnone, hquiet, -⟩ := hiff.mp rfl
  rcases hbarrier with hsome | hwaits
  · exact hsome hnone
  · exact hquiet hwaits

/-- The insertion of a granted call has waited. -/
theorem Employed.barrierWaits_of_inserted (employed : station.Employed start place first plan m)
    (hs : m.schedule = .ok s) {args : Record} (hinserted : (demandOf first s).inserted = some args)
    (hdescribes : describesBarrier args = true) : BarrierWaits m s (first + 1) := by
  obtain ⟨hgranted, hargs⟩ := Option.ite_none_right_eq_some.mp hinserted
  obtain ⟨driver, hselected, hearly⟩ := Option.bind_eq_some_iff.mp hargs
  obtain ⟨target, hmethod, -⟩ := employed.exists_insert
  have hsome : (m.design.main.method? (first + 1)).isSome := by rw [hmethod]; rfl
  obtain ⟨hdriven, u, hu, hcallee⟩ := (employed.schedules hs).driver_of_selectedOf employed.built employed.own
    employed.elaborated hsome hgranted hselected
  obtain ⟨v, -, hactive, -⟩ := (employed.schedules hs).site.mp hdriven
  exact ⟨driver, u, args, hu, hcallee, hactive, hearly, hdescribes⟩

/-! ## How long a fence holds -/

/-- A barrier that was inserted into an entry is there until it is taken. -/
theorem barrier_stays {name : String} {config : StationConfig} (hentries : config.entries ≤ UInt64.size)
    (hbuild : build name config = .ok station) (employed : station.Employed start place first plan m₀)
    (hstart : place.get m₀.state = some station) (hrun : Machine.Clocked place.Spares m₀ history m)
    {before between : List (Machine.Cycle σ)} {c : Machine.Cycle σ} (hhistory : history = before ++ c :: between)
    {args : Record} {j : Nat} (hinserted : (c.demand first).inserted = some args)
    (hdescribes : describesBarrier args = true) (hj : idOf args = .ok j)
    (hstays : ∀ b ∈ between, (b.demand first).taken.bind named? ≠ some j) :
    ∃ x, station.Accounts place first history m x ∧ j ∈ x.barriers := by
  induction hrun generalizing between with
  | start => simp at hhistory
  | @cycle history m m' s run scheduled executed ih =>
    have hemployed := employed.of_clocked run
    rcases between.eq_nil_or_concat with rfl | ⟨rest, last, rfl⟩
    · obtain ⟨rfl, hc⟩ := List.append_inj' hhistory rfl
      obtain rfl := (List.cons.inj hc).1
      obtain ⟨x, hx⟩ := exists_accounts hentries hbuild employed hstart run
      obtain ⟨turns, y, hallows, houtcome, hdemand, hy⟩ := hx.cycle hemployed scheduled executed
      obtain ⟨t, ht, hmove⟩ := (hdemand.insert args).mp hinserted
      exact ⟨y, hy, (houtcome.mem_barriers hallows hx.formed hx.rests).mpr
        (.inr ⟨t, ht, args, hmove, hj, hdescribes⟩)⟩
    · rw [List.concat_eq_append, ← List.cons_append, ← List.append_assoc] at hhistory
      obtain ⟨hearlier, hlast⟩ := List.append_inj' hhistory rfl
      obtain rfl := (List.cons.inj hlast).1
      obtain ⟨x, hx, hmem⟩ := ih hearlier fun b hb => hstays b (by simp [hb])
      obtain ⟨turns, y, hallows, houtcome, hdemand, hy⟩ := hx.cycle hemployed scheduled executed
      refine ⟨y, hy, (houtcome.mem_barriers hallows hx.formed hx.rests).mpr (.inl ⟨hmem, ?_⟩)⟩
      rw [hdemand.takes_iff, Option.mem_toFinset]
      exact hstays ⟨m, s⟩ (by simp)
  | between run design parts state ih =>
    obtain ⟨x, hx, hmem⟩ := ih hhistory hstays
    exact ⟨x, ⟨state.trans hx.get, hx.frame, hx.formed, hx.rests, hx.reserved, hx.barriers⟩, hmem⟩

/-- No reservation is granted in a cycle before which, or in which, a barrier was inserted that is not taken yet. -/
theorem selects_eq_false_of_inserted {name : String} {config : StationConfig}
    (hentries : config.entries ≤ UInt64.size) (hbuild : build name config = .ok station)
    (employed : station.Employed start place first plan m₀) (hstart : place.get m₀.state = some station)
    (hrun : Machine.Clocked place.Spares m₀ history m) {before between after : List (Machine.Cycle σ)}
    {c d : Machine.Cycle σ} (hhistory : history = before ++ c :: (between ++ d :: after)) {args : Record} {j : Nat}
    (hinserted : (c.demand first).inserted = some args) (hdescribes : describesBarrier args = true)
    (hj : idOf args = .ok j) (hstays : ∀ b ∈ between, (b.demand first).taken.bind named? ≠ some j) :
    (c.demand first).selects = false ∧ (d.demand first).selects = false := by
  constructor
  · obtain ⟨hbefore, hschedule, -⟩ := hrun.of_append hhistory
    obtain ⟨y, hy⟩ := exists_accounts hentries hbuild employed hstart hbefore
    have hemployed := employed.of_clocked hbefore
    exact hy.selects_eq_false hemployed hschedule
      (.inr (hemployed.barrierWaits_of_inserted hschedule hinserted hdescribes))
  · rw [← List.cons_append, ← List.append_assoc] at hhistory
    obtain ⟨hbefore, hschedule, -⟩ := hrun.of_append hhistory
    obtain ⟨y, hy, hmem⟩ := barrier_stays hentries hbuild employed hstart hbefore rfl hinserted hdescribes hj hstays
    exact hy.selects_eq_false (employed.of_clocked hbefore) hschedule (.inl (Finset.card_ne_zero_of_mem hmem))

/-- Let a machine employ a reservation station that was just built, and run it: cycle after cycle is scheduled and
executed, and between two cycles anything may happen that leaves the station alone.  Then in the next cycle

* a reservation is possible if and only if as many barriers were taken as were inserted, no active call site of
  `insert` describes a barrier, be it granted or not, and fewer entries than there are were selected without an
  operation taken since;
* whenever a barrier was inserted into an entry, no reservation was granted in that cycle nor in any later one, up to
  and including the first that takes from the entry;
* at every point that the execution of the cycle comes to, and so when the call of `select` runs, its readiness
  is what it was when the schedule was made. -/
theorem fences_hold_selection {name : String} {config : StationConfig} (hentries : config.entries ≤ UInt64.size)
    (hbuild : build name config = .ok station) (employed : station.Employed start place first plan m₀)
    (hstart : place.get m₀.state = some station) (hrun : Machine.Clocked place.Spares m₀ history m)
    (hs : m.schedule = .ok s) :
    (∃ ready, Guard.holds ((m.design.main.method? first).bind Method.ready)
        (m.viewWith s.activeSites s.early) = .ok ready ∧
      (ready = true ↔
        history.countP (fun c => (c.demand first).insertsBarrier) =
            history.countP (fun c => c.takesBarrier place first) ∧
          ¬ BarrierWaits m s (first + 1) ∧
          history.countP (fun c => (c.demand first).selects) <
            history.countP (fun c => (c.demand first).takes) + config.entries)) ∧
    (∀ {before between after : List (Machine.Cycle σ)} {c d : Machine.Cycle σ} {args : Record} {j : Nat},
      history = before ++ c :: (between ++ d :: after) → (c.demand first).inserted = some args →
      describesBarrier args = true → idOf args = .ok j →
      (∀ b ∈ between, (b.demand first).taken.bind named? ≠ some j) →
      ∀ b ∈ c :: (between ++ [d]), (b.demand first).selects = false) ∧
    ∀ {α : Type} {fits : α → Prop} {caller : Nat} {done : List Nat} {body : ActionBody σ α}
      {e : Body.Effects σ Ledger}, (m.executing s).ComesTo plan s fits caller done body e →
      Guard.holds ((m.design.main.method? first).bind Method.ready) ⟨e.state, (m.executing s).scene none⟩ =
        Guard.holds ((m.design.main.method? first).bind Method.ready) (m.viewWith s.activeSites s.early) := by
  have hemployed := employed.of_clocked hrun
  obtain ⟨x, hx⟩ := exists_accounts hentries hbuild employed hstart hrun
  refine ⟨?_, ?_, fun hcomes => ?_⟩
  · obtain ⟨ready, hholds, hiff⟩ := hx.exists_ready hemployed hs
    have hconfig : x.config.entries = config.entries := by
      rw [hx.frame, (rests_build hentries hbuild).2.2]
    have hbarriers := hx.barriers
    have hreserved := hx.reserved
    refine ⟨ready, hholds, hiff.trans (and_congr ?_ (and_congr_right fun _ => ?_))⟩
    · omega
    · omega
  · intro before between after c d args j hhistory hinserted hdescribes hj hstays
    have hholds {sooner later : List (Machine.Cycle σ)} {b : Machine.Cycle σ}
        (hsplit : history = before ++ c :: (sooner ++ b :: later)) (hsooner : sooner ⊆ between) :=
      selects_eq_false_of_inserted hentries hbuild employed hstart hrun hsplit hinserted hdescribes hj
        fun b' hb' => hstays b' (hsooner hb')
    intro b hb
    rcases List.mem_cons.mp hb with rfl | hb
    · exact (hholds hhistory (List.Subset.refl _)).1
    rcases List.mem_append.mp hb with hb | hb
    · obtain ⟨sooner, later, rfl⟩ := List.append_of_mem hb
      rw [List.append_assoc, List.cons_append] at hhistory
      exact (hholds hhistory (List.subset_append_left _ _)).2
    · obtain rfl := List.mem_singleton.mp hb
      exact (hholds hhistory (List.Subset.refl _)).2
  · exact ready_of_comesTo hemployed.hosted hemployed.built hemployed.elaborated hemployed.bodies hx.get hcomes

end

/-! ## A fence in a pipeline -/

namespace Lsu

/-- A station with what asks for its methods. -/
structure Pipeline where
  /-- the station -/
  lsu : Station := station
  /-- asks for `select` in every cycle -/
  selector : Requester :=
    { Requester.new "selector" ⟨.main, 0⟩ "lsu.select" Shape.empty idShape with enabled := true }
  /-- asks for `insert` -/
  inserter : Requester := Requester.new "inserter" ⟨.main, 1⟩ "lsu.insert" insertInput Shape.empty
  /-- asks for `take` -/
  taker : Requester := Requester.new "taker" ⟨.main, 4⟩ "lsu.take" idShape station.takeOutput

namespace Pipeline

/-- Where the station is. -/
def home : Place Pipeline Station := ⟨fun p => some p.lsu, fun p x => { p with lsu := x }, fun _ _ _ _ => rfl⟩

/-- Where what asks for `select` is. -/
def selectorPlace : Place Pipeline Requester :=
  ⟨fun p => some p.selector, fun p x => { p with selector := x }, fun _ _ _ _ => rfl⟩

/-- Where what asks for `insert` is. -/
def inserterPlace : Place Pipeline Requester :=
  ⟨fun p => some p.inserter, fun p x => { p with inserter := x }, fun _ _ _ _ => rfl⟩

/-- Where what asks for `take` is. -/
def takerPlace : Place Pipeline Requester :=
  ⟨fun p => some p.taker, fun p x => { p with taker := x }, fun _ _ _ _ => rfl⟩

/-- The reorder buffer starts at 30. -/
def robStart (_ : Pipeline) : UInt64 := 30

/-- The station, and what asks for its methods: `take` goes first, then `insert`, then `select`. -/
def assemble : Except Fault (Machine Pipeline) := do
  let m ← (station.block robStart insertRef).install home { state := {} }
  let (_, m) ← Requester.install selectorPlace m.state.selector 0 m
  let (_, m) ← Requester.install inserterPlace m.state.inserter 1 m
  let (_, m) ← Requester.install takerPlace m.state.taker 2 m
  .ok m

/-- The pipeline before it is elaborated. -/
def assembled : Machine Pipeline :=
  match assemble with
  | .ok m => m
  | .error _ => { state := {} }

/-- The pipeline before the first cycle. -/
def machine : Machine Pipeline := assembled.elaborate.1

/-- The plan of the pipeline. -/
def plan : Plan :=
  machine.design.main.plan.getD { closures := [], ranking := ⟨[], []⟩, clusters := [], callers := [] }

/-- The schedule that is made in a machine. -/
def scheduleOf (m : Machine Pipeline) : Schedule := m.schedule.toOption.getD {}

/-- The cycle that a machine goes through. -/
def cycleOf (m : Machine Pipeline) : Machine.Cycle Pipeline := ⟨m, scheduleOf m⟩

/-- The machine after its cycle. -/
def after (m : Machine Pipeline) : Machine Pipeline := ((m.execute (scheduleOf m)).toOption.getD m).commit

/-- The cycle is scheduled and executed. -/
def succeeds (m : Machine Pipeline) : Bool := m.schedule.isOk && (m.execute (scheduleOf m)).isOk

/-- Ask for a call. -/
def asked (x : Requester) (args : Option Record) : Requester :=
  (args.bind fun args => (x.call args).toOption).getD x

/-- Ask for an insertion and for a taking. -/
def ask (insertion taking : Option Record) (m : Machine Pipeline) : Machine Pipeline :=
  { m with state :=
    { m.state with inserter := asked m.state.inserter insertion, taker := asked m.state.taker taking } }

/-- The arguments that insert a fence into the first entry. -/
def fence : Record := Record.fill insertInput [Bits.ofNat 64 0, Bits.ofNat 64 2]

/-- The arguments that take the operation of the first entry. -/
def firstEntry : Record := Record.fill idShape [Bits.ofNat 64 0]

/-- Two entries are reserved, and a fence waits for the first one. -/
def fencing : Machine Pipeline := ask (some fence) none (after (after machine))

/-- The fence is there, and is asked for. -/
def taking : Machine Pipeline := ask none (some firstEntry) (after fencing)

/-- The fence is gone, and a load waits for the other entry. -/
def filling : Machine Pipeline := ask (some (loadArgs 1 0 0x100 30)) none (after taking)

/-- The cycles so far. -/
def history : List (Machine.Cycle Pipeline) :=
  [cycleOf machine, cycleOf (after machine), cycleOf fencing, cycleOf taking]

/-- A cycle in short: what it asks of the station, whether it takes a fence, and whether a reservation is requested. -/
def brief (c : Machine.Cycle Pipeline) : Demand × Bool × Bool :=
  (c.demand 0, c.takesBarrier home 0, c.schedule.requested.test 5)

/-- The cycles so far in short. -/
def briefs : List (Demand × Bool × Bool) :=
  [(⟨true, none, none⟩, false, true), (⟨true, none, none⟩, false, true), (⟨false, some fence, none⟩, false, true),
    (⟨false, none, some firstEntry⟩, true, true)]

/-- The pipeline while it fills the other entry. -/
def executing : Machine Pipeline := filling.executing (scheduleOf filling)

/-- The readiness of `select`. -/
def ready (view : View Pipeline) : Except Fault Bool :=
  Guard.holds ((filling.design.main.method? 0).bind Method.ready) view

/-- A component that has nothing to do at the clock edge. -/
def idle (name : String) : Part Pipeline := ⟨name, [], id, id, none⟩

theorem assemble_eq : assemble = .ok assembled := rfl

theorem plan_eq : machine.design.main.plan = some plan := by cbv

theorem parts_machine : machine.parts =
    (station.block robStart insertRef).part home :: ["selector", "inserter", "taker"].map idle := rfl

theorem main_machine : ∃ ranking plan, machine.design.main =
    { assembled.design.main with ranking := ranking, plan := plan } :=
  Design.exists_main_elaborate assembled.design

theorem action?_machine (id : Nat) : machine.design.main.action? id = assembled.design.main.action? id := by
  obtain ⟨ranking, plan, hmain⟩ := main_machine
  rw [hmain]
  rfl

theorem action_cases {id : Nat} {a : Action Pipeline} (ha : machine.design.main.action? id = some a) :
    (∃ p callers, (station.block robStart insertRef).portAt? 0 id = some p ∧ (∀ c ∈ callers, c.domain = .main) ∧
      a = ⟨Block.fullName "lsu" p.name, some "lsu", .method { p.method home "lsu" with callers := callers }⟩) ∨
    (id = 5 ∧ a = ⟨"selector.call", some "selector",
      .transaction (Requester.transaction selectorPlace assembled.state.selector 0)⟩) ∨
    (id = 6 ∧ a = ⟨"inserter.call", some "inserter",
      .transaction (Requester.transaction inserterPlace assembled.state.inserter 1)⟩) ∨
    (id = 7 ∧ a = ⟨"taker.call", some "taker",
      .transaction (Requester.transaction takerPlace assembled.state.taker 2)⟩) := by
  rw [action?_machine] at ha
  match id with
  | 0 | 1 | 2 | 3 | 4 =>
    obtain rfl := Option.some.inj ha
    refine .inl ⟨_, _, rfl, ?_, rfl⟩
    decide
  | 5 =>
    obtain rfl := Option.some.inj ha
    exact .inr (.inl ⟨rfl, rfl⟩)
  | 6 =>
    obtain rfl := Option.some.inj ha
    exact .inr (.inr (.inl ⟨rfl, rfl⟩))
  | 7 =>
    obtain rfl := Option.some.inj ha
    exact .inr (.inr (.inr ⟨rfl, rfl⟩))
  | _ + 8 => cases ha

theorem hosted : (station.block robStart insertRef).Hosted home 0 machine where
  named := by decide
  method {id p} hport := by
    unfold Registry.method?
    rw [action?_machine]
    match id with
    | 0 | 1 | 2 | 3 | 4 =>
      obtain rfl := Option.some.inj hport
      exact ⟨_, _, rfl⟩
    | _ + 5 => cases hport
  other {id a} ha hport := by
    rcases action_cases ha with ⟨p, callers, hp, -, -⟩ | ⟨-, rfl⟩ | ⟨-, rfl⟩ | ⟨-, rfl⟩
    · cases hport.symm.trans hp
    all_goals exact Requester.within_transaction (fun _ _ _ _ => rfl) _ _ _ _
  logic {part hook} hpart hhook := by
    rw [parts_machine] at hpart
    rcases List.mem_cons.mp hpart with rfl | hpart
    · cases hhook
    · obtain ⟨name, -, rfl⟩ := List.mem_map.mp hpart
      cases hhook
  edge := by
    refine ⟨[], _, parts_machine, fun part hpart state => ?_⟩
    obtain ⟨name, -, rfl⟩ := List.mem_map.mp hpart
    rfl

theorem built : machine.design.Built := by
  show assembled.design.elaborate.1.Built
  refine .elaborate ?_
  have hassemble := assemble_eq
  revert hassemble
  generalize assembled = m
  intro hassemble
  obtain ⟨m₁, hstation, hassemble⟩ := bind_eq_ok.mp hassemble
  obtain ⟨⟨t, m₂⟩, hselector, hassemble⟩ := bind_eq_ok.mp hassemble
  obtain ⟨⟨u, m₃⟩, hinserter, hassemble⟩ := bind_eq_ok.mp hassemble
  obtain ⟨⟨v, m₄⟩, htaker, hassemble⟩ := bind_eq_ok.mp hassemble
  obtain rfl := Except.ok.inj hassemble
  have h₁ := Block.built_install .empty hstation
  obtain rfl := Except.ok.inj hstation
  have h₂ := Requester.built_install h₁ rfl hselector
  obtain ⟨-, rfl⟩ := Prod.mk.inj (Except.ok.inj hselector)
  have h₃ := Requester.built_install h₂ rfl hinserter
  obtain ⟨-, rfl⟩ := Prod.mk.inj (Except.ok.inj hinserter)
  exact Requester.built_install h₃ rfl htaker

theorem ownCallers : machine.design.OwnCallers := by
  intro id x hx c hc
  obtain ⟨a, ha, hmethod⟩ := Option.bind_eq_some_iff.mp hx
  rcases action_cases ha with ⟨p, callers, -, hcallers, rfl⟩ | ⟨-, rfl⟩ | ⟨-, rfl⟩ | ⟨-, rfl⟩
  · obtain rfl := Option.some.inj hmethod
    exact hcallers c hc
  all_goals cases hmethod

theorem onlyPerforms : machine.design.main.OnlyPerforms where
  method {id x body} hx hbody args := by
    obtain ⟨a, ha, hmethod⟩ := Option.bind_eq_some_iff.mp hx
    rcases action_cases ha with ⟨p, callers, -, -, rfl⟩ | ⟨-, rfl⟩ | ⟨-, rfl⟩ | ⟨-, rfl⟩
    · obtain rfl := Option.some.inj hmethod
      exact Block.onlyPerforms_port home "lsu" p hbody args
    all_goals cases hmethod
  transaction {id t body} ht hbody := by
    obtain ⟨a, ha, htransaction⟩ := Option.bind_eq_some_iff.mp ht
    rcases action_cases ha with ⟨p, callers, -, -, rfl⟩ | ⟨-, rfl⟩ | ⟨-, rfl⟩ | ⟨-, rfl⟩
    · cases htransaction
    all_goals
      obtain rfl := Option.some.inj htransaction
      exact Requester.onlyPerforms_transaction _ _ _ hbody

theorem employed : station.Employed robStart home 0 plan machine where
  hosted := hosted
  built := built
  own := ownCallers
  elaborated := plan_eq
  bodies := onlyPerforms

theorem schedule_eq {m : Machine Pipeline} (h : m.schedule.isOk = true) : m.schedule = .ok (scheduleOf m) := by
  unfold scheduleOf
  cases hschedule : m.schedule with
  | ok s => rfl
  | error fault =>
    rw [hschedule] at h
    cases h

section

variable {history : List (Machine.Cycle Pipeline)} {m : Machine Pipeline}
  (run : Machine.Clocked home.Spares machine history m)
include run

theorem clocked_after (h : succeeds m = true) :
    Machine.Clocked home.Spares machine (history ++ [cycleOf m]) (after m) := by
  obtain ⟨hschedule, hexecute⟩ := Bool.and_eq_true_iff.mp h
  unfold after
  cases hdone : m.execute (scheduleOf m) with
  | ok m' => exact .cycle run (schedule_eq hschedule) hdone
  | error fault =>
    rw [hdone] at hexecute
    cases hexecute

theorem clocked_ask (insertion taking : Option Record) :
    Machine.Clocked home.Spares machine history (ask insertion taking m) :=
  .between run rfl rfl rfl

end

theorem clocked_filling : Machine.Clocked home.Spares machine history filling := by
  have hreserved := clocked_after .start (by cbv)
  have hagain := clocked_after hreserved (by cbv)
  have hfenced : Machine.Clocked home.Spares machine _ (after fencing) :=
    clocked_after (clocked_ask hagain _ _) (by cbv)
  have hfree : Machine.Clocked home.Spares machine _ (after taking) :=
    clocked_after (clocked_ask hfenced _ _) (by cbv)
  exact clocked_ask hfree _ _

theorem not_barrierWaits : ¬ BarrierWaits filling (scheduleOf filling) 1 := by
  rintro ⟨i, u, args, hu, hcallee, -, hearly, hdescribes⟩
  have hsites : filling.design.main.sites = assembled.design.main.sites := by
    obtain ⟨ranking, plan, hmain⟩ := main_machine
    rw [clocked_filling.same.1, hmain]
  rw [hsites] at hu
  match i with
  | 0 =>
    obtain rfl := Option.some.inj hu
    cases hcallee
  | 1 =>
    have hload : (scheduleOf filling).earlyOf 1 = some (loadArgs 1 0 0x100 30) := by cbv
    obtain rfl := Option.some.inj (hload.symm.trans hearly)
    revert hdescribes
    decide
  | 2 =>
    obtain rfl := Option.some.inj hu
    cases hcallee
  | _ + 3 => cases hu

theorem brief_history : history.map brief = briefs := by cbv

theorem countP_history (p : Demand × Bool × Bool → Bool) : history.countP (p ∘ brief) = briefs.countP p := by
  rw [← List.countP_map, brief_history]

theorem brief_fence : [cycleOf fencing, cycleOf taking].map brief = briefs.drop 2 := by
  rw [← brief_history]
  rfl

theorem inserted_fencing : ((cycleOf fencing).demand 0).inserted = some fence :=
  congrArg (fun b => b.1.inserted) (List.cons.inj brief_fence).1

theorem requested_fence {c : Machine.Cycle Pipeline} (hc : c ∈ [cycleOf fencing, cycleOf taking]) :
    c.schedule.requested.test 5 = true := by
  have hall : ∀ b ∈ briefs.drop 2, b.2.2 = true := by decide
  refine hall (brief c) ?_
  rw [← brief_fence]
  exact List.mem_map_of_mem hc

theorem isOk_filling : filling.schedule.isOk = true := by cbv

/-- The selector has its turn after the insertion, which waits for the clock edge. -/
theorem comesTo_selector : ∃ (body : ActionBody Pipeline Unit) (e : Body.Effects Pipeline Ledger),
    executing.ComesTo plan (scheduleOf filling) (fun _ => True) 5 [] body e ∧ e.state.lsu.slots.dirty = [1] := by
  have hdirty : ([7, 6].foldlM (executing.runTransaction (scheduleOf filling)) executing.beforeBodies).map
      (fun e => e.state.lsu.slots.dirty) = .ok [1] := by cbv
  obtain ⟨e, hran, hwaits⟩ := map_eq_ok.mp hdirty
  have hturn : plan.order = [7, 6] ++ 5 :: [] := by cbv
  have hgranted : (scheduleOf filling).granted.test 5 = true := by cbv
  have hknown : executing.design.main.transaction? 5 =
      some (Requester.transaction selectorPlace assembled.state.selector 0) := by
    unfold Registry.transaction? executing Machine.executing
    rw [clocked_filling.same.1, action?_machine]
    rfl
  exact ⟨_, e, .transaction hturn hran hgranted hknown rfl, hwaits⟩

end Pipeline

end Lsu

open Lsu.Pipeline in
/-- From the cycle that inserts a fence to the one that takes it nothing is reserved, though that is asked for in both.
Then an entry can be reserved again, before and after the insertion of the same cycle. -/
theorem lsu_fences_hold_selection :
    Lsu.config.entries ≤ UInt64.size ∧ build "lsu" Lsu.config = .ok Lsu.station ∧
    Lsu.station.Employed robStart home 0 plan machine ∧ home.get machine.state = some Lsu.station ∧
    Machine.Clocked home.Spares machine history filling ∧ filling.schedule = .ok (scheduleOf filling) ∧
    (∀ c ∈ [cycleOf fencing, cycleOf taking], c.schedule.requested.test 5 = true ∧ (c.demand 0).selects = false) ∧
    ready (filling.viewWith (scheduleOf filling).activeSites (scheduleOf filling).early) = .ok true ∧
    ∃ (body : ActionBody Lsu.Pipeline Unit) (e : Body.Effects Lsu.Pipeline Ledger),
      executing.ComesTo plan (scheduleOf filling) (fun _ => True) 5 [] body e ∧ e.state.lsu.slots.dirty = [1] ∧
      ready ⟨e.state, executing.scene none⟩ = .ok true := by
  have hentries : Lsu.config.entries ≤ UInt64.size := by decide
  have hschedule : filling.schedule = .ok (scheduleOf filling) := schedule_eq isOk_filling
  obtain ⟨⟨possible, hpossible, hiff⟩, hholds, hsame⟩ :=
    fences_hold_selection hentries build_lsu employed rfl clocked_filling hschedule
  have hinserts : history.countP (fun c => (c.demand 0).insertsBarrier) = 1 :=
    countP_history fun b => b.1.insertsBarrier
  have htakesBarrier : history.countP (fun c => c.takesBarrier home 0) = 1 := countP_history fun b => b.2.1
  have hselects : history.countP (fun c => (c.demand 0).selects) = 2 := countP_history fun b => b.1.selects
  have htakes : history.countP (fun c => (c.demand 0).takes) = 1 := countP_history fun b => b.1.takes
  have hfew : history.countP (fun c => (c.demand 0).selects) <
      history.countP (fun c => (c.demand 0).takes) + Lsu.config.entries := by
    rw [hselects, htakes]
    decide
  obtain rfl : possible = true := hiff.mpr ⟨hinserts.trans htakesBarrier.symm, not_barrierWaits, hfew⟩
  have hquiet : ∀ c ∈ [cycleOf fencing, cycleOf taking], (c.demand 0).selects = false :=
    hholds (show history = [cycleOf machine, cycleOf (after machine)] ++ cycleOf fencing :: ([] ++ cycleOf taking :: [])
      from rfl) inserted_fencing (by decide) (show idOf fence = .ok 0 by decide) (by simp)
  obtain ⟨body, e, hcomes, hwaits⟩ := comesTo_selector
  exact ⟨hentries, build_lsu, employed, rfl, clocked_filling, hschedule,
    fun c hc => ⟨requested_fence hc, hquiet c hc⟩, hpossible, body, e, hcomes, hwaits, (hsame hcomes).trans hpossible⟩

end Station

end GuardedActions
