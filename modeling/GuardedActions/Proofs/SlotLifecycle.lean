import GuardedActions.Proofs.Block.Station
import Mathlib.Data.List.Basic

/-!
# The life of an entry of a reservation station

An entry is reserved, filled, woken and emptied, in this order.  `slot_lifecycle` says that for every shape
of a station, wherever the reorder buffer starts, the methods of a cycle never meet in an entry: every
cycle succeeds, and every entry takes at most one of these steps.
-/

set_option autoImplicit false

namespace GuardedActions

variable {σ : Type}

namespace Station

/-! ## Steps -/

/-- The entry at a position is the lowest one that nobody reserved. -/
def IsLowestFree (x : Station) (i : Nat) : Prop :=
  (∃ e, x.entry? i = some e ∧ e.reserved = false) ∧
    ∀ j < i, ∀ e, x.entry? j = some e → e.reserved = true

/-- The move is about the entry at a position. -/
def Touches (x : Station) : Move → Nat → Prop
  | .select, i => x.IsLowestFree i
  | .insert args, i => idOf args = .ok i
  | .update args, i => ∃ tag e, args.getWord "reg_id" = .ok tag ∧ tag ≠ 0 ∧ x.entry? i = some e ∧
      e.full = true ∧ (e.tag1 = tag ∨ e.tag2 = tag)
  | .list, _ => False
  | .take args, i => idOf args = .ok i

/-- A step in the life of the entry at a position: the move that makes it, what the move returns, and the
entry before and after it. -/
inductive Transition (now : UInt64) (x : Station) (i : Nat) :
    Move → Record → StationEntry → StationEntry → Prop where
  /-- an empty entry is reserved, and its position is returned -/
  | reserve {answer : Record} {id : UInt64} (returns : answer.getWord "rs_entry_id" = .ok id)
    (position : id.toNat = i) : Transition now x i .select answer (StationEntry.empty x.config)
      { StationEntry.empty x.config with reserved := true }
  /-- a reserved entry is filled with an operation and its hazards -/
  | fill {args answer : Record} {e : StationEntry} (holds : Holds args e) (reserved : e.reserved = true)
    (full : e.full = true) (depends : e.depends = x.hazards now i e) :
    Transition now x i (.insert args) answer { StationEntry.empty x.config with reserved := true } e
  /-- the operands that wait for a register get its value, and nothing else changes -/
  | wake {args answer : Record} {tag : UInt64} {value : Bits} {e : StationEntry}
    (register : args.getWord "reg_id" = .ok tag) (datum : args.get "reg_val" = .ok value)
    (full : e.full = true) : Transition now x i (.update args) answer e
      { e with
        tag1 := if e.tag1 = tag then 0 else e.tag1
        value1 := if e.tag1 = tag then value else e.value1
        tag2 := if e.tag2 = tag then 0 else e.tag2
        value2 := if e.tag2 = tag then value else e.value2 }
  /-- an operation is returned, and its entry is emptied -/
  | leave {args answer : Record} {e : StationEntry} (full : e.full = true) (known : e.operandsKnown = true)
    (returns : Returns answer e) :
    Transition now x i (.take args) answer e (StationEntry.empty x.config)

/-- What a cycle makes of the entries of a station. -/
structure Lifecycle (start : σ → UInt64) (x : Station) (turns : List (Turn σ)) (answers : List Record)
    (x' : Station) : Prop where
  /-- every turn has its answer -/
  answered : answers.length = turns.length
  /-- an entry that a move is about takes its step -/
  step : ∀ {k : Nat} {t : Turn σ} {answer : Record} {i : Nat}, turns[k]? = some t →
    answers[k]? = some answer → x.Touches t.move i → ∃ e e', x.entry? i = some e ∧
      x'.entry? i = some e' ∧ Transition (t.now start) x i t.move answer e e'
  /-- an entry that no move is about stays as it is -/
  stay : ∀ {i : Nat}, (∀ t ∈ turns, ¬ x.Touches t.move i) → x'.entry? i = x.entry? i
  /-- no two moves are about the same entry -/
  once : ∀ {k k' : Nat} {t t' : Turn σ} {i : Nat}, turns[k]? = some t → turns[k']? = some t' →
    x.Touches t.move i → x.Touches t'.move i → k = k'
  /-- a reservation, an insertion and a taking are about some entry -/
  named : ∀ t ∈ turns, t.move ≠ .list → (∀ args, t.move ≠ .update args) → ∃ i, x.Touches t.move i

section Step

variable {station x y : Station} {start : σ → UInt64} {insertRef : ActionRef} {turns : List (Turn σ)}
  {t : Turn σ}

theorem IsLowestFree.eq {i j : Nat} (hi : x.IsLowestFree i) (hj : x.IsLowestFree j) : i = j := by
  obtain ⟨⟨e, he, hfree⟩, hbelow⟩ := hi
  obtain ⟨⟨e', he', hfree'⟩, hbelow'⟩ := hj
  rcases Nat.lt_trichotomy i j with hlt | heq | hlt
  · exact absurd ((hbelow' i hlt e he).symm.trans hfree) Bool.noConfusion
  · exact heq
  · exact absurd ((hbelow j hlt e' he').symm.trans hfree') Bool.noConfusion

/-- A turn writes the entries that its move is about. -/
theorem Finds.touches_iff (hfinds : Finds start x t) (hrests : x.Rests) (now : UInt64) (i : Nat) :
    x.Touches t.move i ↔ ∃ e, x.written? now t.move i = some e := by
  cases hfinds with
  | @select asked seen k e slot entry free =>
    rw [written?_select slot entry]
    simp only [Option.ite_none_right_eq_some, exists_and_left, Option.some.injEq, exists_eq', and_true]
    exact ⟨fun h => IsLowestFree.eq (hrests.of_freeSlot? slot) h, fun h => h ▸ hrests.of_freeSlot? slot⟩
  | insert id entry reserved vacant describes holds full sound =>
    rw [written?_insert id describes]
    simp [Touches, id]
  | @update asked seen args tag value register datum width =>
    constructor
    · rintro ⟨tag', e, htag', hzero, he, hwaits⟩
      obtain rfl := Except.ok.inj (register.symm.trans htag')
      refine ⟨e.wake tag value, ?_⟩
      rw [written?_update register datum hzero, he, Option.bind_some,
        if_pos (StationEntry.waitsFor_iff.mpr hwaits)]
    · rintro ⟨e', hwritten⟩
      have hfinds : Finds start x ⟨.update args, asked, seen⟩ := .update register datum width
      obtain ⟨e, he, hchange⟩ := hfinds.change hwritten
      cases hchange with
      | wake register datum width nonzero waits =>
        exact ⟨_, e, register, nonzero, he, StationEntry.waitsFor_iff.mp waits⟩
  | list => simp [Touches, written?]
  | take id entry full known ready =>
    rw [written?_take id]
    simp [Touches, id]

theorem toNat_ofNat_of_lt_entries (hformed : x.Formed) {i : Nat} (hi : i < x.config.entries) :
    (UInt64.ofNat i).toNat = i :=
  UInt64.toNat_ofNat_of_lt (Nat.lt_of_lt_of_le hi hformed.entries)

/-- A record of an entry id holds every position of an entry, and no bit of it is lost. -/
theorem Formed.getWord_id (hformed : x.Formed) {i : Nat} (hi : i < x.config.entries) :
    (Record.fill x.idShape [Bits.ofNat 64 i]).getWord "rs_entry_id" = .ok (UInt64.ofNat i) := by
  have hid := toNat_ofNat_of_lt_entries hformed hi
  have hneeded : 2 ^ Bits.needed x.config.entries ≤ 2 ^ x.config.idWidth :=
    Nat.pow_le_pow_right Nat.two_pos (Nat.le_max_right _ _)
  have hlt : (UInt64.ofNat i).toNat < 2 ^ x.config.idWidth := by
    rw [hid]
    exact Nat.lt_of_lt_of_le hi (Nat.le_trans (le_two_pow_needed _) hneeded)
  have hfield : x.idShape.fields[0]? = some ⟨"rs_entry_id", x.config.idWidth⟩ := by
    rw [hformed.idShape]
    rfl
  refine Record.getWord_fill hfield ?_ hlt
  rw [hid]
  rfl

/-- A reservation returns the position of its entry. -/
theorem Formed.getWord_select (hformed : x.Formed) (hrests : x.Rests) {i : Nat} (now : UInt64)
    (hslot : x.freeSlot? = some i) :
    (x.answer now .select).getWord "rs_entry_id" = .ok (UInt64.ofNat i) := by
  obtain ⟨⟨e, he, -⟩, -⟩ := hrests.of_freeSlot? hslot
  have hanswer : x.answer now .select = Record.fill x.idShape [Bits.ofNat 64 i] := by
    unfold answer
    rw [hslot, Option.getD_some]
  rw [hanswer]
  exact hformed.getWord_id (hrests.lt_of_entry? he)

/-- Taking an operation returns all of it. -/
theorem Formed.returns_taken (hformed : x.Formed) {i : Nat} {e : StationEntry}
    (hsound : e.Sound x.config i) : Returns (x.taken e) e := by
  have hfields := hformed.takeOutput
  have hpos := hformed.bounded.dataWidth
  have hfit : ∀ {v : Bits}, v.width = x.config.dataWidth → Bits.fit x.config.dataWidth v = v :=
    fun hv => hv ▸ Bits.fit_width (hv ▸ hpos)
  have hget : ∀ {k : Nat} {f : Field} {v : Bits}, x.takeOutput.fields[k]? = some f →
      [Bits.ofNat 64 e.op.code.toNat, e.value1, e.value2, e.offset, Bits.ofNat 64 e.robIndex.toNat,
        Bits.ofNat 64 e.target.toNat][k]? = some v → (x.taken e).get f.name = .ok (Bits.fit f.width v) :=
    Record.get_fill
  have hgetWord : ∀ {k : Nat} {f : Field} {word : UInt64}, x.takeOutput.fields[k]? = some f →
      [Bits.ofNat 64 e.op.code.toNat, e.value1, e.value2, e.offset, Bits.ofNat 64 e.robIndex.toNat,
        Bits.ofNat 64 e.target.toNat][k]? = some (Bits.ofNat 64 word.toNat) →
      word.toNat < 2 ^ f.width → (x.taken e).getWord f.name = .ok word := Record.getWord_fill
  rw [hfields] at hget hgetWord
  constructor
  · refine hgetWord (k := 0) rfl ?_ ?_
    · rw [UInt32.toNat_toUInt64]
      rfl
    · rw [UInt32.toNat_toUInt64]
      exact hsound.op
  · exact (hget (k := 1) rfl rfl).trans (congrArg _ (hfit hsound.value1))
  · exact (hget (k := 2) rfl rfl).trans (congrArg _ (hfit hsound.value2))
  · exact (hget (k := 3) rfl rfl).trans (congrArg _ (hfit hsound.offset))
  · exact hgetWord (k := 4) rfl rfl hsound.robIndex
  · exact hgetWord (k := 5) rfl rfl hsound.target

/-- An entry that a move writes takes a step of its life. -/
theorem Change.transition {now : UInt64} {i : Nat} {move : Move} {e e' : StationEntry}
    (h : Change x now i move e e') (hformed : x.Formed) (hrests : x.Rests) (he : x.entry? i = some e) :
    Transition now x i move (x.answer now move) e e' := by
  have hsound := hrests.sound he
  have hblank := hsound.blank
  cases h with
  | reserve slot free =>
    have hempty := hblank (hsound.full_eq_false free)
    rw [free] at hempty
    obtain rfl : e = StationEntry.empty x.config := hempty
    exact .reserve (hformed.getWord_select hrests now slot)
      (toNat_ofNat_of_lt_entries hformed (hrests.lt_of_entry? he))
  | fill id reserved vacant holds full depends sound =>
    have hempty := hblank vacant
    rw [reserved] at hempty
    rw [hempty]
    exact .fill holds (sound.reserved full) full depends
  | wake register datum width nonzero waits =>
    rw [StationEntry.wake_eq]
    exact .wake register datum (StationEntry.waitsFor_iff.mp waits).1
  | @leave args e id full known =>
    have hanswer : x.answer now (.take args) = x.taken e := by
      simp only [answer, id, he, Option.map_some, Option.getD_some]
    rw [hanswer]
    exact .leave full known (hformed.returns_taken hsound)

/-- A reservation, an insertion and a taking write some entry. -/
theorem Finds.exists_touches (hfinds : Finds start x t) (hrests : x.Rests) (hlist : t.move ≠ .list)
    (hupdate : ∀ args, t.move ≠ .update args) : ∃ i, x.Touches t.move i := by
  cases hfinds with
  | select slot entry free => exact ⟨_, hrests.of_freeSlot? slot⟩
  | insert id entry reserved vacant describes holds full sound => exact ⟨_, id⟩
  | update register datum width => exact absurd rfl (hupdate _)
  | list => exact absurd rfl hlist
  | take id entry full known ready => exact ⟨_, id⟩

/-- A cycle makes every entry that some move is about take its step, and leaves the others alone. -/
theorem Outcome.lifecycle (h : Outcome start x turns y) (hallows : Allows station start insertRef x turns)
    (hformed : x.Formed) (hrests : x.Rests) :
    Lifecycle start x turns (turns.map fun t => x.answer (t.now start) t.move) y := by
  have hfinds : ∀ t ∈ turns, Finds start x t := fun t ht => hallows.finds hformed hrests ht
  refine ⟨List.length_map _, ?_, ?_, ?_, fun t ht => (hfinds t ht).exists_touches hrests⟩
  · intro k t answer i hk hanswer htouches
    have ht := List.mem_of_getElem? hk
    obtain ⟨e', hwritten⟩ := ((hfinds t ht).touches_iff hrests (t.now start) i).mp htouches
    obtain ⟨e, he, hchange⟩ := (hfinds t ht).change hwritten
    rw [List.getElem?_map, hk] at hanswer
    obtain rfl := Option.some.inj hanswer
    exact ⟨e, e', he, h.of_written? hallows hformed hrests ht hwritten,
      hchange.transition hformed hrests he⟩
  · intro i hnone
    refine h.of_untouched fun t ht => ?_
    rw [Option.eq_none_iff_forall_ne_some]
    exact fun e' hwritten =>
      hnone t ht (((hfinds t ht).touches_iff hrests (t.now start) i).mpr ⟨e', hwritten⟩)
  · have hdistinct : ∀ {k k' : Nat} {t t' : Turn σ} {i : Nat}, turns[k]? = some t →
        turns[k']? = some t' → x.Touches t.move i → x.Touches t'.move i → ¬ k < k' := by
      intro k k' t t' i hk hk' htouches htouches' hlt
      have hf := hfinds t (List.mem_of_getElem? hk)
      have hf' := hfinds t' (List.mem_of_getElem? hk')
      obtain ⟨e₁, h₁⟩ := (hf.touches_iff hrests 0 i).mp htouches
      obtain ⟨e₂, h₂⟩ := (hf'.touches_iff hrests 0 i).mp htouches'
      obtain ⟨hsize, rfl⟩ := List.getElem?_eq_some_iff.mp hk
      obtain ⟨hsize', rfl⟩ := List.getElem?_eq_some_iff.mp hk'
      have hlist := List.pairwise_iff_getElem.mp hallows.once k k' hsize hsize' hlt
        (hf.action_eq hf' hrests h₁ h₂)
      rw [hlist] at htouches
      exact htouches
    intro k k' t t' i hk hk' htouches htouches'
    have hle := hdistinct hk hk' htouches htouches'
    have hge := hdistinct hk' hk htouches' htouches
    omega

end Step

/-! ## Every run -/

/-- A station of an accepted shape can be built.  In every run it has its number of entries; an entry that
holds an operation is reserved, one that nobody reserved is the empty entry, and one that holds no
operation is empty up to its reservation.  Every cycle of allowed turns succeeds and is a step in the life
of the entries. -/
theorem slot_lifecycle (start : σ → UInt64) (insertRef : ActionRef) (name : String)
    {config : StationConfig} (hconfig : config.flaw? = none) (hentries : config.entries ≤ UInt64.size) :
    ∃ station, build name config = .ok station ∧
      ∀ {history : List (List (Turn σ))} {x : Station}, Runs station start insertRef station history x →
        (∀ i, (∃ e, x.entry? i = some e) ↔ i < config.entries) ∧
        (∀ {i : Nat} {e : StationEntry}, x.entry? i = some e →
          (e.full = true → e.reserved = true) ∧
          (e.reserved = false → e = StationEntry.empty config) ∧
          (e.full = false → e = { StationEntry.empty config with reserved := e.reserved })) ∧
        ∀ (turns : List (Turn σ)) (last : View σ), Allows station start insertRef x turns →
          ∃ answers x', (station.block start insertRef).round last x
              (turns.map fun t => (t.seen, t.move.use)) = .ok (answers, x') ∧
            Lifecycle start x turns answers x' := by
  obtain ⟨station, hbuild⟩ := exists_build name hconfig
  obtain ⟨hformed, hrests, rfl⟩ := rests_build hentries hbuild
  refine ⟨station, hbuild, fun {history x} hrun => ?_⟩
  obtain ⟨hformed, hrests, hsame⟩ := hrun.rests hformed hrests
  rw [← hsame]
  refine ⟨fun i => ⟨fun ⟨e, he⟩ => hrests.lt_of_entry? he, hrests.exists_entry?⟩, ?_, ?_⟩
  · intro i e he
    have hsound := hrests.sound he
    refine ⟨hsound.reserved, fun hfree => ?_, hsound.blank⟩
    have hblank := hsound.blank (hsound.full_eq_false hfree)
    rw [hfree] at hblank
    exact hblank
  · intro turns last hallows
    obtain ⟨x', hround, houtcome⟩ := exists_round hformed hrests hallows last
    exact ⟨_, x', hround, houtcome.lifecycle hallows hformed hrests⟩

/-! ## A cycle with all methods -/

namespace Lsu

/-- Five entries. -/
def config : StationConfig where
  entries := 5

/-- The shape of an entry id. -/
def idShape : Shape := ⟨[⟨"rs_entry_id", 3⟩], by decide, by decide⟩

/-- The shape of an insertion. -/
def insertInput : Shape :=
  ⟨[⟨"rs_entry_id", 3⟩, ⟨"op", 2⟩, ⟨"rp_s1", 6⟩, ⟨"rp_s2", 6⟩, ⟨"s1_val", 32⟩, ⟨"s2_val", 32⟩,
    ⟨"imm", 32⟩, ⟨"rob_id", 5⟩, ⟨"rp_dst", 6⟩], by decide, by decide⟩

/-- The shape of an update. -/
def updateInput : Shape := ⟨[⟨"reg_id", 6⟩, ⟨"reg_val", 32⟩], by decide, by decide⟩

/-- The station before the first cycle. -/
def station : Station where
  name := "lsu"
  config := config
  slots := RegisterArray.new ⟨"lsu", "slots"⟩ 5 (StationEntry.empty config)
  idShape := idShape
  insertInput := insertInput
  updateInput := updateInput
  readyOutput := ⟨[⟨"ready_list", 5⟩], by decide, by decide⟩
  takeOutput :=
    ⟨[⟨"op", 2⟩, ⟨"s1_val", 32⟩, ⟨"s2_val", 32⟩, ⟨"imm", 32⟩, ⟨"rob_id", 5⟩, ⟨"rp_dst", 6⟩],
      by decide, by decide⟩

/-- The arguments that insert a load whose base is known or waits for a register. -/
def loadArgs (slot register base robIndex : Nat) : Record :=
  Record.fill insertInput
    [Bits.ofNat 64 slot, Bits.ofNat 64 0, Bits.ofNat 64 register, Bits.ofNat 64 0, Bits.ofNat 64 base,
      Bits.ofNat 64 0, Bits.ofNat 64 0, Bits.ofNat 64 robIndex, Bits.ofNat 64 1]

/-- Insert such a load. -/
def load (slot register base robIndex : Nat) : Move := .insert (loadArgs slot register base robIndex)

/-- The arguments that hand out the value of a register. -/
def valueArgs (register value : Nat) : Record :=
  Record.fill updateInput [Bits.ofNat 64 register, Bits.ofNat 64 value]

/-- Hand out the value of a register. -/
def write (register value : Nat) : Move := .update (valueArgs register value)

/-- Take the operation of an entry. -/
def take (slot : Nat) : Move := .take (Record.fill idShape [Bits.ofNat 64 slot])

/-- The reorder buffer starts at 30, and nothing else is there. -/
def view : View UInt64 := ⟨30, ⟨0, none, fun _ _ => none, fun _ => false, fun _ => []⟩⟩

/-- A turn with this view. -/
def turn (move : Move) : Turn UInt64 := ⟨move, view, view⟩

/-- The method `insert`. -/
def insertRef : ActionRef := ⟨.main, 1⟩

/-- The station after a cycle. -/
def next (x : Station) (moves : List Move) : Station :=
  match (station.block id insertRef).round view x
      ((moves.map turn).map fun t => (t.seen, t.move.use)) with
  | .ok (_, x') => x'
  | .error _ => x

/-- Entries are reserved; one is filled with a load whose base is known and one with a load that waits for
register 7. -/
def filling : List (List Move) := [[.select], [.select, load 0 0 0x100 30], [.select, load 1 7 0 31]]

/-- The station after these cycles. -/
def crowded : Station := filling.foldl next station

/-- A cycle with all methods. -/
def everything : List Move := [take 0, write 7 0x40, load 2 0 0x200 1, .select, .list]

end Lsu

theorem build_lsu : build "lsu" Lsu.config = .ok Lsu.station := rfl

theorem allows_lsu {x : Station} {moves : List Move} (hmoves : moves.Forall fun move =>
      (Lsu.station.block id Lsu.insertRef).offers Lsu.view x move.use = .ok true ∧
      (Lsu.station.block id Lsu.insertRef).accepts Lsu.view x move.use = .ok true ∧ x.Fits move)
    (honce : (moves.map Move.action).Nodup) :
    Allows Lsu.station id Lsu.insertRef x (moves.map Lsu.turn) := by
  rw [List.forall_iff_forall_mem] at hmoves
  refine ⟨?_, ?_, ?_, ?_⟩
  · intro t ht
    obtain ⟨move, hmove, rfl⟩ := List.mem_map.mp ht
    exact (hmoves move hmove).1
  · intro t ht
    obtain ⟨move, hmove, rfl⟩ := List.mem_map.mp ht
    exact (hmoves move hmove).2.1
  · intro t ht
    obtain ⟨move, hmove, rfl⟩ := List.mem_map.mp ht
    exact (hmoves move hmove).2.2
  · rw [List.Nodup, List.pairwise_map] at honce
    rw [List.pairwise_map]
    exact honce.imp fun hne heq => absurd heq hne

theorem runs_lsu : Runs Lsu.station id Lsu.insertRef Lsu.station
    (Lsu.filling.map fun moves => moves.map Lsu.turn) Lsu.crowded := by
  have h₁ : Allows Lsu.station id Lsu.insertRef Lsu.station ([.select].map Lsu.turn) :=
    allows_lsu ⟨rfl, rfl, trivial⟩ (by decide)
  have h₂ : Allows Lsu.station id Lsu.insertRef (Lsu.next Lsu.station [.select])
      ([.select, Lsu.load 0 0 0x100 30].map Lsu.turn) :=
    allows_lsu ⟨⟨rfl, rfl, trivial⟩, rfl, rfl, rfl⟩ (by decide)
  have h₃ : Allows Lsu.station id Lsu.insertRef
      (Lsu.next (Lsu.next Lsu.station [.select]) [.select, Lsu.load 0 0 0x100 30])
      ([.select, Lsu.load 1 7 0 31].map Lsu.turn) :=
    allows_lsu ⟨⟨rfl, rfl, trivial⟩, rfl, rfl, rfl⟩ (by decide)
  exact .cycle (.cycle (.cycle (.refl _) h₁ Lsu.view rfl) h₂ Lsu.view rfl) h₃ Lsu.view rfl

theorem allows_lsu_everything : Allows Lsu.station id Lsu.insertRef Lsu.crowded
    (Lsu.everything.map Lsu.turn) :=
  allows_lsu ⟨⟨rfl, rfl, rfl⟩, ⟨rfl, rfl, rfl⟩, ⟨rfl, rfl, rfl⟩, ⟨rfl, rfl, trivial⟩, rfl, rfl, trivial⟩
    (by decide)

/-- In one cycle one entry is emptied, the next one woken, the next one filled and the next one reserved. -/
theorem lsu_slot_lifecycle :
    Lsu.config.flaw? = none ∧ Lsu.config.entries ≤ UInt64.size ∧
    build "lsu" Lsu.config = .ok Lsu.station ∧
    Runs Lsu.station id Lsu.insertRef Lsu.station
      (Lsu.filling.map fun moves => moves.map Lsu.turn) Lsu.crowded ∧
    Allows Lsu.station id Lsu.insertRef Lsu.crowded (Lsu.everything.map Lsu.turn) ∧
    (Lsu.crowded.entry? 0).map StationEntry.phase = some .complete ∧
    (Lsu.crowded.entry? 1).map StationEntry.phase = some .waiting ∧
    (Lsu.crowded.entry? 2).map StationEntry.phase = some .reserved ∧
    (Lsu.crowded.entry? 3).map StationEntry.phase = some .free ∧
    ∃ answers x', (Lsu.station.block id Lsu.insertRef).round Lsu.view Lsu.crowded
        ((Lsu.everything.map Lsu.turn).map fun t => (t.seen, t.move.use)) = .ok (answers, x') ∧
      Lifecycle id Lsu.crowded (Lsu.everything.map Lsu.turn) answers x' := by
  have hconfig : Lsu.config.flaw? = none := by decide
  have hentries : Lsu.config.entries ≤ UInt64.size := by decide
  obtain ⟨station, hbuild, hruns⟩ := slot_lifecycle id Lsu.insertRef "lsu" hconfig hentries
  obtain rfl : station = Lsu.station := Except.ok.inj (hbuild.symm.trans build_lsu)
  obtain ⟨-, -, hcycle⟩ := hruns runs_lsu
  exact ⟨hconfig, hentries, hbuild, runs_lsu, allows_lsu_everything, by decide, by decide, by decide,
    by decide, hcycle _ Lsu.view allows_lsu_everything⟩

end Station

end GuardedActions
