import GuardedActions.Proofs.Block.Allocation
import GuardedActions.Proofs.Block.Hosted
import GuardedActions.Proofs.Block.Reset

/-!
# A reservation station in a machine

A cycle of a machine that hosts a reservation station is a cycle of the station, and what it asks of the station can
be read off the schedule (`Station.exists_outcome`).  Whether a reservation is possible is asked twice, when the
schedule is made and when the call runs; nothing that happens in between makes a difference
(`Station.ready_of_comesTo`).
-/

set_option autoImplicit false

namespace GuardedActions

variable {σ : Type}

/-- What waits for a method is what its active call sites have supplied. -/
theorem Machine.mem_pendingWith {m : Machine σ} (built : m.design.Built) (own : m.design.OwnCallers)
    {active : Mask} {early : List (Option Record)} {id : Nat} {target : Method σ}
    (htarget : m.design.main.method? id = some target) {args : Record} :
    args ∈ m.pendingWith active early ⟨.main, id⟩ ↔ ∃ (i : Nat) (u : Site σ), m.design.main.sites[i]? = some u ∧
      u.callee = ⟨.main, id⟩ ∧ active.test i = true ∧ early[i]?.join = some args := by
  have hmethod : m.design.method? ⟨.main, id⟩ = some target := htarget
  have hcallers : m.callersOf ⟨.main, id⟩ = m.design.main.sitesInto ⟨.main, id⟩ := by
    unfold callersOf
    rw [hmethod, Option.map_some, Option.getD_some, built.callers_eq own htarget]
  unfold pendingWith Schedule.pendingAt
  rw [hcallers, List.mem_filterMap]
  simp only [Option.ite_none_right_eq_some, Registry.mem_sitesInto]
  constructor
  · rintro ⟨i, ⟨u, hu, hcallee⟩, hactive, hargs⟩
    exact ⟨i, u, hu, hcallee, hactive, hargs⟩
  · rintro ⟨i, u, hu, hcallee, hactive, hargs⟩
    exact ⟨i, ⟨u, hu, hcallee⟩, hactive, hargs⟩

namespace Station

/-! ## Moves of a cycle -/

/-- The move that a use of the block stands for. -/
def Move.ofUse : Block.Use → Move
  | .call "select" _ => .select
  | .call "insert" args => .insert args
  | .call "update" args => .update args
  | .call "take" args => .take args
  | _ => .list

theorem Move.ofUse_eq_select {use : Block.Use} : Move.ofUse use = .select ↔ ∃ args, use = .call "select" args := by
  unfold Move.ofUse
  split <;> simp_all

theorem Move.ofUse_eq_insert {use : Block.Use} {args : Record} :
    Move.ofUse use = .insert args ↔ use = .call "insert" args := by
  unfold Move.ofUse
  split <;> simp_all

theorem Move.ofUse_eq_take {use : Block.Use} {args : Record} :
    Move.ofUse use = .take args ↔ use = .call "take" args := by
  unfold Move.ofUse
  split <;> simp_all

/-- A use of the block as a turn. -/
def Turn.ofUse (asked : View σ) (turn : View σ × Block.Use) : Turn σ := ⟨.ofUse turn.2, asked, turn.1⟩

/-- What a schedule asks of the station whose methods come one after the other from a position of the registry on:
`select`, `insert`, `update`, `get_ready_list` and `take`. -/
def demandOf (first : Nat) (s : Schedule) : Demand :=
  ⟨s.granted.test first, s.grantedWith (first + 1), s.grantedWith (first + 4)⟩

section

variable {station x : Station} {start : σ → UInt64} {insertRef : ActionRef} {place : Place σ Station} {first : Nat}
  {m : Machine σ} {plan : Plan} {s : Schedule} {asked : View σ}

theorem exists_selectPort (station : Station) (start : σ → UInt64) (insertRef : ActionRef) (first : Nat) :
    ∃ p, (station.block start insertRef).portAt? first first = some p ∧ p.name = "select" ∧
      p.ready = some fun view x => x.selectReady (view.scene.pending insertRef) :=
  ⟨_, (station.block start insertRef).portAt?_add first 0, rfl, rfl⟩

theorem exists_insertPort (station : Station) (start : σ → UInt64) (insertRef : ActionRef) (first : Nat) :
    ∃ p, (station.block start insertRef).portAt? first (first + 1) = some p ∧ p.name = "insert" ∧
      p.validator.isSome = true ∧ p.input = station.insertInput :=
  ⟨_, (station.block start insertRef).portAt?_add first 1, rfl, rfl, rfl⟩

theorem exists_takePort (station : Station) (start : σ → UInt64) (insertRef : ActionRef) (first : Nat) :
    ∃ p, (station.block start insertRef).portAt? first (first + 4) = some p ∧ p.name = "take" ∧
      p.validator.isSome = true :=
  ⟨_, (station.block start insertRef).portAt?_add first 4, rfl, rfl⟩

/-- A call of a method, with arguments of its shape, is the use of its move. -/
theorem of_port {p : Port σ Station} (hp : p ∈ (station.block start insertRef).ports) {args : Record}
    (hshape : args.shape = p.input) : (Move.ofUse (.call p.name args)).use = .call p.name args ∧
      (Move.ofUse (.call p.name args)).action = p.name ∧ station.Fits (Move.ofUse (.call p.name args)) := by
  have hempty : args.shape = Shape.empty → args = Record.empty := fun h => Record.eq_zero_of_isEmpty rfl h
  simp only [block, List.mem_cons, List.not_mem_nil, or_false] at hp
  rcases hp with rfl | rfl | rfl | rfl | rfl
  · obtain rfl := hempty hshape
    exact ⟨rfl, rfl, trivial⟩
  · exact ⟨rfl, rfl, hshape⟩
  · exact ⟨rfl, rfl, hshape⟩
  · obtain rfl := hempty hshape
    exact ⟨rfl, rfl, trivial⟩
  · exact ⟨rfl, rfl, hshape⟩

theorem Fits.of_frame (hframe : x = { station with slots := x.slots }) {move : Move} (h : station.Fits move) :
    x.Fits move := by
  rw [hframe]
  cases move <;> exact h

/-- The uses of a cycle are turns that the station allows. -/
theorem allows_of_performs (hframe : x = { station with slots := x.slots }) {turns : List (View σ × Block.Use)}
    (hperforms : (station.block start insertRef).Performs first s asked x (turns.map Prod.snd)) :
    (turns.map (Turn.ofUse asked)).map (fun t => (t.seen, t.move.use)) = turns ∧
      Allows station start insertRef x (turns.map (Turn.ofUse asked)) := by
  have hgranted : ∀ turn ∈ turns, ∃ id p args, turn.2 = .call p.name args ∧
      (station.block start insertRef).Granted first s asked x id p args ∧
      (Move.ofUse turn.2).use = turn.2 ∧ (Move.ofUse turn.2).action = turn.2.name ∧ x.Fits (Move.ofUse turn.2) := by
    intro turn hturn
    obtain ⟨id, p, args, huse, hgranted⟩ := hperforms.only turn.2 (List.mem_map_of_mem hturn)
    have hp := List.mem_of_getElem? (Block.getElem?_of_portAt? hgranted.port).2
    obtain ⟨hmove, haction, hfits⟩ := of_port hp hgranted.shape
    rw [huse]
    exact ⟨id, p, args, rfl, hgranted, hmove, haction, hfits.of_frame hframe⟩
  refine ⟨?_, ?_, ?_, ?_, ?_⟩
  · rw [List.map_map]
    refine (List.map_congr_left fun turn hturn => ?_).trans turns.map_id
    obtain ⟨-, -, -, -, -, hmove, -, -⟩ := hgranted turn hturn
    exact Prod.ext rfl hmove
  · intro t ht
    obtain ⟨turn, hturn, rfl⟩ := List.mem_map.mp ht
    obtain ⟨id, p, args, huse, hoffers, hmove, -, -⟩ := hgranted turn hturn
    show (station.block start insertRef).offers asked x (Move.ofUse turn.2).use = .ok true
    rw [hmove, huse]
    exact hoffers.offered
  · intro t ht
    obtain ⟨turn, hturn, rfl⟩ := List.mem_map.mp ht
    obtain ⟨id, p, args, huse, haccepts, hmove, -, -⟩ := hgranted turn hturn
    show (station.block start insertRef).accepts asked x (Move.ofUse turn.2).use = .ok true
    rw [hmove, huse]
    exact haccepts.accepted
  · intro t ht
    obtain ⟨turn, hturn, rfl⟩ := List.mem_map.mp ht
    obtain ⟨-, -, -, -, -, -, -, hfits⟩ := hgranted turn hturn
    exact hfits
  · have honce := hperforms.once
    rw [List.map_map, List.Nodup, List.pairwise_map] at honce
    rw [List.pairwise_map]
    refine honce.imp_of_mem fun {turn turn'} hturn hturn' hne hsame => absurd ?_ hne
    obtain ⟨-, -, -, -, -, -, haction, -⟩ := hgranted turn hturn
    obtain ⟨-, -, -, -, -, -, haction', -⟩ := hgranted turn' hturn'
    exact haction.symm.trans (hsame.trans haction')

/-- What a cycle asks of the station can be read off its schedule. -/
theorem of_demandOf (hnamed : ((station.block start insertRef).ports.map Port.name).Nodup)
    {turns : List (View σ × Block.Use)}
    (hperforms : (station.block start insertRef).Performs first s asked x (turns.map Prod.snd)) :
    (demandOf first s).Of (turns.map (Turn.ofUse asked)) where
  select := by
    obtain ⟨p, hport, hname, -⟩ := exists_selectPort station start insertRef first
    have hgranted := hperforms.exists_call_iff hnamed hport
    rw [hname] at hgranted
    refine hgranted.symm.trans ?_
    simp only [List.mem_map, exists_exists_and_eq_and, Turn.ofUse, Move.ofUse_eq_select]
    constructor
    · rintro ⟨args, turn, hturn, huse⟩
      exact ⟨turn, hturn, args, huse⟩
    · rintro ⟨turn, hturn, args, huse⟩
      exact ⟨args, turn, hturn, huse⟩
  insert := by
    intro args
    obtain ⟨p, hport, hname, hvalidator, -⟩ := exists_insertPort station start insertRef first
    have hgranted := hperforms.call_mem_iff hnamed hport hvalidator args
    rw [hname] at hgranted
    refine hgranted.symm.trans ?_
    simp only [List.mem_map, exists_exists_and_eq_and, Turn.ofUse, Move.ofUse_eq_insert]
  take := by
    intro args
    obtain ⟨p, hport, hname, hvalidator⟩ := exists_takePort station start insertRef first
    have hgranted := hperforms.call_mem_iff hnamed hport hvalidator args
    rw [hname] at hgranted
    refine hgranted.symm.trans ?_
    simp only [List.mem_map, exists_exists_and_eq_and, Turn.ofUse, Move.ofUse_eq_take]

/-- A cycle of the machine is a cycle of the station, which does what the schedule asks. -/
theorem exists_outcome (hosted : (station.block start insertRef).Hosted place first m) (built : m.design.Built)
    (own : m.design.OwnCallers) (hplan : m.design.main.plan = some plan) (hbodies : m.design.main.OnlyPerforms)
    (hs : m.Schedules plan s) {m' : Machine σ} (hrun : m.execute s = .ok m') (hx : place.get m.state = some x)
    (hframe : x = { station with slots := x.slots }) (hformed : x.Formed) (hrests : x.Rests) :
    ∃ turns y, Allows station start insertRef x turns ∧ Outcome start x turns y ∧ (demandOf first s).Of turns ∧
      place.get m'.commit.state = some y := by
  obtain ⟨turns, answers, y, hturns, hperforms, hget⟩ := hosted.exists_cycle built own hplan hbodies hs hrun hx
  obtain ⟨hsame, hallows⟩ := allows_of_performs hframe hperforms
  have hround : (station.block start insertRef).round m.view x turns = .ok _ := Block.round_eq_ok rfl hturns
  rw [← hsame] at hround
  obtain ⟨-, houtcome⟩ := outcome_of_round hformed hrests hallows hround
  exact ⟨_, _, hallows, houtcome, of_demandOf hosted.named hperforms, hget⟩

/-! ## Asking whether a reservation is possible -/

/-- The readiness of `select` asks the station. -/
theorem holds_ready (hosted : (station.block start insertRef).Hosted place first m) {view : View σ}
    (hx : place.get view.state = some x) :
    Guard.holds ((m.design.main.method? first).bind Method.ready) view =
      x.selectReady (view.scene.pending insertRef) := by
  obtain ⟨p, hport, -, hready⟩ := exists_selectPort station start insertRef first
  obtain ⟨callers, early, hmethod⟩ := hosted.method hport
  have hfind : place.find station.name view.state = .ok x := by
    unfold Place.find
    rw [hx]
  rw [hmethod, Option.bind_some]
  simp only [Port.method, hready, Option.map_some, Guard.holds_some, Port.guard]
  show (place.find station.name view.state >>= fun x => x.selectReady (view.scene.pending insertRef)) = _
  rw [hfind, ok_bind]

/-- What a station shows of itself before the edge. -/
def shown (x : Station) : StationConfig × List StationEntry := (x.config, x.slots.values)

theorem entry?_congr {x y : Station} (h : x.shown = y.shown) : x.entry? = y.entry? := by
  have hvalues : x.slots.values = y.slots.values := congrArg Prod.snd h
  funext i
  unfold entry?
  rw [← Array.getElem?_toList, ← Array.getElem?_toList, ← List.getElem?_map, ← List.getElem?_map]
  exact congrArg (·[i]?) hvalues

theorem selectReady_congr {x y : Station} (h : x.shown = y.shown) (insertions : List Record) :
    x.selectReady insertions = y.selectReady insertions := by
  have hconfig : x.config = y.config := congrArg Prod.fst h
  have hvalues : x.slots.values = y.slots.values := congrArg Prod.snd h
  unfold selectReady fencePending freeMask
  rw [entry?_congr h, hconfig, hvalues]

/-- A station at a place shows the same as before. -/
def Shows (place : Place σ Station) (state state' : σ) : Prop :=
  (place.get state').map shown = (place.get state).map shown

/-- A method of the station writes entries, which shows after the edge only. -/
theorem shows_of_moves {state : σ} {x' : Station} (hx : place.get state = some x)
    (hmoves : (station.block start insertRef).Moves x x') : Shows place state (place.put state x') := by
  obtain ⟨hframe, hslots⟩ := wrote_of_moves hmoves
  have hconfig : x'.config = x.config := (congrArg Station.config hframe :)
  unfold Shows
  rw [place.get_put _ _ _ hx, hx, Option.map_some, Option.map_some]
  unfold shown
  rw [hconfig, hslots.values_eq]

/-- No body changes what the station shows. -/
theorem within_shows (hosted : (station.block start insertRef).Hosted place first m) :
    m.design.main.Within (Shows place) := by
  have hspares : ∀ state state', place.Spares state state' → Shows place state state' :=
    fun _ _ h => congrArg (Option.map shown) h
  refine ⟨fun {id a} ha => ?_⟩
  cases hport : (station.block start insertRef).portAt? first id with
  | none =>
    have hother := hosted.other ha hport
    exact ⟨fun hx hbody args => (hother.method hx hbody args).mono hspares,
      fun ht hbody => (hother.transaction ht hbody).mono hspares⟩
  | some p =>
    obtain ⟨callers, early, hmethod⟩ := hosted.method hport
    have hp := List.mem_of_getElem? (Block.getElem?_of_portAt? hport).2
    refine ⟨fun hx hbody args => ?_, fun ht _ => ?_⟩
    · obtain rfl := Option.some.inj (hmethod.symm.trans (Registry.method?_eq_some.mpr ⟨a, ha, hx⟩))
      exact Block.within_port (fun _ _ _ hget hmoves => shows_of_moves hget hmoves) hp hbody args
    · have hsome : (m.design.main.transaction? id).isSome := by
        rw [Registry.transaction?_eq_some.mpr ⟨a, ha, ht⟩]
        rfl
      rw [Registry.method?_eq_none hsome] at hmethod
      cases hmethod

/-- The readiness of `select` is the same when a call runs as it was when the schedule was made. -/
theorem ready_of_comesTo (hosted : (station.block start insertRef).Hosted place first m) (built : m.design.Built)
    (hplan : m.design.main.plan = some plan) (hbodies : m.design.main.OnlyPerforms)
    (hx : place.get m.state = some x) {α : Type} {fits : α → Prop} {caller : Nat} {done : List Nat}
    {body : ActionBody σ α} {e : Body.Effects σ Ledger}
    (hcomes : (m.executing s).ComesTo plan s fits caller done body e) :
    Guard.holds ((m.design.main.method? first).bind Method.ready) ⟨e.state, (m.executing s).scene none⟩ =
      Guard.holds ((m.design.main.method? first).bind Method.ready) (m.viewWith s.activeSites s.early) := by
  have h : (m.executing s).design.main.Elaborated plan := built.elaborated hplan
  have hwithin : m.design.main.Within (Shows place) := within_shows hosted
  have hremains : Shows place m.state e.state :=
    (hcomes.remains h hbodies hwithin (fun _ => rfl) fun h h' => h'.trans h).done
  unfold Shows at hremains
  rw [hx, Option.map_some] at hremains
  obtain ⟨y, hy, hshown⟩ := Option.map_eq_some_iff.mp hremains
  have hthen := holds_ready hosted (show place.get (m.viewWith s.activeSites s.early).state = some x from hx)
  have hnow := holds_ready hosted (show place.get (View.mk e.state ((m.executing s).scene none)).state = some y from hy)
  rw [hthen, hnow, selectReady_congr hshown]
  rfl

end

end Station

end GuardedActions
