import GuardedActions.Proofs.Block.Residence
import GuardedActions.Proofs.SlotLifecycle
import Mathlib.Data.List.Pairwise

/-!
# Which operands a wake-up reaches

An update hands the value of a register to the operations that are in their entries when the cycle begins.
`wakeup_reaches_residents` says that it misses none of them, so that an operation waits for a register only
if no cycle after that of its insertion updated it.  An operation that is inserted in the cycle of the
update is not reached: `wakeup_misses_insertion` shows one that goes on waiting.
-/

set_option autoImplicit false

namespace GuardedActions

variable {σ : Type}

namespace Station

/-- Some turn hands out the value of a register. -/
def Updates (tag : UInt64) (turns : List (Turn σ)) : Prop :=
  ∃ t ∈ turns, ∃ args, t.move = .update args ∧ args.getWord "reg_id" = .ok tag

/-- An operation that was woken does not wait for the register any longer. -/
theorem not_waitsFor_wake {tag : UInt64} (hzero : tag ≠ 0) (e : StationEntry) (value : Bits) :
    (e.wake tag value).waitsFor tag = false := by
  have htag : ∀ old : UInt64, (if old = tag then 0 else old) ≠ tag := by
    intro old
    split
    · exact Ne.symm hzero
    · assumption
  rw [Bool.eq_false_iff, ne_eq, StationEntry.waitsFor_iff, StationEntry.wake_eq]
  rintro ⟨-, hwaits | hwaits⟩
  · exact htag _ hwaits
  · exact htag _ hwaits

/-- What continues an operation waits only for what that waits for. -/
theorem Continues.waitsFor {e e' : StationEntry} (h : Continues e e') (hfull : e.full = true)
    {tag : UInt64} (hzero : tag ≠ 0) (hwaits : e'.waitsFor tag = true) : e.waitsFor tag = true := by
  obtain ⟨-, hwaits⟩ := StationEntry.waitsFor_iff.mp hwaits
  refine StationEntry.waitsFor_iff.mpr ⟨hfull, ?_⟩
  rcases hwaits with hwaits | hwaits
  · rcases h.operand1 with hknown | ⟨hsame, -⟩
    · exact absurd (hwaits.symm.trans hknown) hzero
    · exact .inl (hsame.symm.trans hwaits)
  · rcases h.operand2 with hknown | ⟨hsame, -⟩
    · exact absurd (hwaits.symm.trans hknown) hzero
    · exact .inr (hsame.symm.trans hwaits)

section Wakeup

variable {station x y z : Station} {start : σ → UInt64} {insertRef : ActionRef} {turns : List (Turn σ)}
  {later : List (List (Turn σ))} {t : Turn σ} {args : Record} {tag : UInt64} {value : Bits} {i : Nat}
  {e : StationEntry}

/-- Turns of a cycle that make the same kind of move are the same one, or ask for the ready list. -/
theorem Allows.eq_of_action {t' : Turn σ} (hallows : Allows station start insertRef x turns)
    (ht : t ∈ turns) (ht' : t' ∈ turns) (haction : t.move.action = t'.move.action) :
    t = t' ∨ t.move = .list ∨ t'.move = .list := by
  by_cases heq : t = t'
  · exact .inl heq
  · have hsymm : Std.Symm fun t t' : Turn σ =>
        t.move.action = t'.move.action → t.move = .list ∨ t'.move = .list :=
      ⟨fun _ _ h haction => (h haction.symm).symm⟩
    have honce : turns.Pairwise fun t t' =>
        t.move.action = t'.move.action → t.move = .list ∨ t'.move = .list :=
      hallows.once.imp fun h haction => .inl (h haction)
    exact .inr (honce.forall ht ht' heq haction)

theorem Finds.exists_value (hfinds : Finds start x t) (hmove : t.move = .update args) :
    ∃ value, args.get "reg_val" = .ok value := by
  cases hfinds with
  | update register datum width =>
    obtain rfl := Move.update.inj hmove
    exact ⟨_, datum⟩
  | _ => cases hmove

/-- An update wakes the operations that wait for its register when the cycle begins. -/
theorem Outcome.woken (h : Outcome start x turns y) (hallows : Allows station start insertRef x turns)
    (hformed : x.Formed) (hrests : x.Rests) (ht : t ∈ turns) (hmove : t.move = .update args)
    (htag : args.getWord "reg_id" = .ok tag) (hvalue : args.get "reg_val" = .ok value)
    (hzero : tag ≠ 0) (he : x.entry? i = some e) (hwaits : e.waitsFor tag = true) :
    y.entry? i = some (e.wake tag value) := by
  refine h.of_written? hallows hformed hrests ht ?_
  rw [hmove, written?_update htag hvalue hzero, he, Option.bind_some, if_pos hwaits]

/-- After a cycle with an update only what was inserted in the same cycle can wait for its register. -/
theorem Outcome.of_waitsFor (h : Outcome start x turns y)
    (hallows : Allows station start insertRef x turns) (hformed : x.Formed) (hrests : x.Rests)
    (ht : t ∈ turns) (hmove : t.move = .update args) (htag : args.getWord "reg_id" = .ok tag)
    (hzero : tag ≠ 0) (he : y.entry? i = some e) (hwaits : e.waitsFor tag = true) :
    ∃ t' ∈ turns, ∃ args', t'.move = .insert args' ∧ idOf args' = .ok i ∧ Holds args' e := by
  obtain ⟨hfull, -⟩ := StationEntry.waitsFor_iff.mp hwaits
  rcases h.cases he with ⟨t', ht', hwritten⟩ | ⟨hnone, hsame⟩
  · obtain ⟨e₁, he₁, hchange⟩ := (hallows.finds hformed hrests ht').change hwritten
    obtain ⟨move, asked, seen⟩ := t'
    cases hchange with
    | reserve slot free =>
      exact absurd (hfull.symm.trans ((hrests.sound he₁).full_eq_false free)) Bool.noConfusion
    | fill id reserved vacant holds full depends sound => exact ⟨_, ht', _, rfl, id, holds⟩
    | wake register datum width nonzero waits =>
      rcases hallows.eq_of_action ht ht' (by rw [hmove]; rfl) with rfl | hlist | hlist
      · obtain rfl := Move.update.inj hmove
        obtain rfl := Except.ok.inj (htag.symm.trans register)
        exact absurd (hwaits.symm.trans (not_waitsFor_wake hzero e₁ _)) Bool.noConfusion
      · cases hmove.symm.trans hlist
      · cases hlist
    | leave id full known => cases hfull
  · obtain ⟨value, hvalue⟩ := (hallows.finds hformed hrests ht).exists_value hmove
    have hwoken := hnone t ht
    rw [hmove, written?_update htag hvalue hzero, hsame, Option.bind_some, if_pos hwaits] at hwoken
    cases hwoken

/-- An operation waits only for registers that no cycle after its insertion updated. -/
theorem Runs.not_updates (hrun : Runs station start insertRef y later z) (hformed : y.Formed)
    (hrests : y.Rests) (he : y.entry? i = some e) (hfull : e.full = true)
    (hstays : ∀ cycle ∈ later, ¬ Takes i cycle) (hzero : tag ≠ 0) {e' : StationEntry}
    (he' : z.entry? i = some e') (hwaits : e'.waitsFor tag = true) :
    ∀ cycle ∈ later, ¬ Updates tag cycle := by
  induction hrun generalizing e' with
  | refl => exact fun cycle hcycle => absurd hcycle List.not_mem_nil
  | @cycle w w' history turns answers run allows last edge ih =>
    have hstays' : ∀ cycle ∈ history, ¬ Takes i cycle := fun cycle hcycle =>
      hstays cycle (List.mem_append_left _ hcycle)
    have hstaysLast := hstays turns (List.mem_append_right _ (List.mem_singleton_self _))
    obtain ⟨hformedW, hrestsW, -⟩ := run.rests hformed hrests
    obtain ⟨-, houtcome⟩ := outcome_of_round hformedW hrestsW allows edge
    obtain ⟨e₁, he₁, hcontinues₁⟩ := run.continues hformed hrests he hfull hstays'
    obtain ⟨e₂, he₂, hcontinues₂⟩ :=
      houtcome.continues allows hformedW hrestsW he₁ hcontinues₁.full hstaysLast
    obtain rfl := Option.some.inj (he'.symm.trans he₂)
    have hbefore := ih hstays' he₁ (hcontinues₂.waitsFor hcontinues₁.full hzero hwaits)
    intro cycle hcycle
    rcases List.mem_append.mp hcycle with hcycle | hcycle
    · exact hbefore cycle hcycle
    · obtain rfl := List.mem_singleton.mp hcycle
      rintro ⟨t, ht, args, hmove, htag⟩
      obtain ⟨t', ht', args', hmove', hid, -⟩ :=
        houtcome.of_waitsFor allows hformedW hrestsW ht hmove htag hzero he' hwaits
      obtain ⟨⟨old, hold, hvacant⟩, -⟩ := houtcome.inserted allows hformedW hrestsW ht' hmove' hid
      obtain rfl := Option.some.inj (he₁.symm.trans hold)
      exact absurd (hcontinues₁.full.symm.trans hvacant) Bool.noConfusion

/-- Consider a run of a station that goes on after a cycle.  An update in the cycle reaches every operand
that waits for its register when the cycle begins; after the edge only operations that were inserted in
the same cycle wait for the register, with the tags and the values of their insertion.  As long as an
operation that is inserted in the cycle is not taken, it waits for a register only if no later cycle
updates that. -/
theorem wakeup_reaches_residents {name : String} {config : StationConfig} {last : View σ}
    {answers : List Record} {before : List (List (Turn σ))} (hentries : config.entries ≤ UInt64.size)
    (hbuild : build name config = .ok station) (hbefore : Runs station start insertRef station before x)
    (hallows : Allows station start insertRef x turns)
    (hedge : (station.block start insertRef).round last x (turns.map fun t => (t.seen, t.move.use)) =
      .ok (answers, y)) (hlater : Runs station start insertRef y later z) :
    (∀ {t : Turn σ} {args : Record} {tag : UInt64} {value : Bits}, t ∈ turns → t.move = .update args →
      args.getWord "reg_id" = .ok tag → args.get "reg_val" = .ok value → tag ≠ 0 →
      (∀ {i : Nat} {e : StationEntry}, x.entry? i = some e → e.full = true →
        (e.tag1 = tag → ∃ e', y.entry? i = some e' ∧ e'.tag1 = 0 ∧ e'.value1 = value) ∧
        (e.tag2 = tag → ∃ e', y.entry? i = some e' ∧ e'.tag2 = 0 ∧ e'.value2 = value)) ∧
      ∀ {i : Nat} {e : StationEntry}, y.entry? i = some e → e.full = true →
        e.tag1 = tag ∨ e.tag2 = tag →
        ∃ t' ∈ turns, ∃ args', t'.move = .insert args' ∧ idOf args' = .ok i ∧ Holds args' e) ∧
    ∀ {t : Turn σ} {args : Record} {i : Nat}, t ∈ turns → t.move = .insert args → idOf args = .ok i →
      (∃ e, y.entry? i = some e ∧ e.full = true ∧ Holds args e) ∧
      ((∀ cycle ∈ later, ¬ Takes i cycle) → ∀ {e : StationEntry} {tag : UInt64},
        z.entry? i = some e → e.tag1 = tag ∨ e.tag2 = tag → tag ≠ 0 →
          ∀ cycle ∈ later, ¬ Updates tag cycle) := by
  obtain ⟨hformed, hrests, rfl⟩ := rests_build hentries hbuild
  obtain ⟨hformedX, hrestsX, -⟩ := hbefore.rests hformed hrests
  obtain ⟨-, houtcome⟩ := outcome_of_round hformedX hrestsX hallows hedge
  have hformedY := houtcome.formed hformedX
  refine ⟨?_, ?_⟩
  · intro t args tag value ht hmove htag hvalue hzero
    refine ⟨fun {i e} he hfull => ?_, fun {i e} he hfull hwaits => ?_⟩
    · have hwoken : e.waitsFor tag = true → y.entry? i = some (e.wake tag value) :=
        houtcome.woken hallows hformedX hrestsX ht hmove htag hvalue hzero he
      rw [StationEntry.waitsFor_iff, StationEntry.wake_eq] at hwoken
      exact ⟨fun h => ⟨_, hwoken ⟨hfull, .inl h⟩, if_pos h, if_pos h⟩,
        fun h => ⟨_, hwoken ⟨hfull, .inr h⟩, if_pos h, if_pos h⟩⟩
    · exact houtcome.of_waitsFor hallows hformedX hrestsX ht hmove htag hzero he
        (StationEntry.waitsFor_iff.mpr ⟨hfull, hwaits⟩)
  · intro t args i ht hmove hid
    obtain ⟨-, b, hb, hholds, hfull, -⟩ := houtcome.inserted hallows hformedX hrestsX ht hmove hid
    refine ⟨⟨b, hb, hfull, hholds⟩, fun hstays {e tag} he hwaits hzero => ?_⟩
    obtain ⟨e', he', hcontinues⟩ := hlater.continues hformedY houtcome.rests hb hfull hstays
    obtain rfl := Option.some.inj (he.symm.trans he')
    exact hlater.not_updates hformedY houtcome.rests hb hfull hstays hzero he
      (StationEntry.waitsFor_iff.mpr ⟨hcontinues.full, hwaits⟩)

end Wakeup

/-! ## A load that is inserted while its base is handed out -/

namespace Lsu

/-- Register 7 is updated while a load that waits for it is inserted. -/
def crossing : List Move := [write 7 0x40, load 2 7 0 1]

/-- The station after this cycle. -/
def crossed : Station := next crowded crossing

/-- The station after another register is updated. -/
def passed : Station := next crossed [write 8 0x50]

end Lsu

theorem allows_lsu_crossing : Allows Lsu.station id Lsu.insertRef Lsu.crowded
    (Lsu.crossing.map Lsu.turn) :=
  allows_lsu ⟨⟨rfl, rfl, rfl⟩, rfl, rfl, rfl⟩ (by decide)

theorem allows_lsu_passing : Allows Lsu.station id Lsu.insertRef Lsu.crossed
    ([Lsu.write 8 0x50].map Lsu.turn) :=
  allows_lsu ⟨rfl, rfl, rfl⟩ (by decide)

theorem exists_round_crossing : ∃ answers, (Lsu.station.block id Lsu.insertRef).round Lsu.view
    Lsu.crowded ((Lsu.crossing.map Lsu.turn).map fun t => (t.seen, t.move.use)) =
      .ok (answers, Lsu.crossed) :=
  ⟨_, rfl⟩

/-- It is not so that after an update no operation waits for its register: the load that is inserted in the
same cycle does. -/
theorem wakeup_misses_insertion :
    ¬ ∀ {name : String} {config : StationConfig} {station x y : Station} {last : View UInt64}
      {answers : List Record} {before : List (List (Turn UInt64))} {turns : List (Turn UInt64)}
      {t : Turn UInt64} {args : Record} {tag : UInt64} {i : Nat} {e : StationEntry},
      build name config = .ok station → Runs station id Lsu.insertRef station before x →
      Allows station id Lsu.insertRef x turns →
      (station.block id Lsu.insertRef).round last x (turns.map fun t => (t.seen, t.move.use)) =
        .ok (answers, y) →
      t ∈ turns → t.move = .update args → args.getWord "reg_id" = .ok tag → tag ≠ 0 →
      y.entry? i = some e → e.full = true → e.tag1 ≠ tag ∧ e.tag2 ≠ tag := by
  intro h
  obtain ⟨answers, hedge⟩ := exists_round_crossing
  obtain ⟨e, he, hfull, hwaits⟩ :
      ∃ e, Lsu.crossed.entry? 2 = some e ∧ e.full = true ∧ e.tag1 = 7 := ⟨_, rfl, rfl, rfl⟩
  have hnot := h (t := Lsu.turn (Lsu.write 7 0x40)) build_lsu runs_lsu allows_lsu_crossing hedge
    (by simp [Lsu.crossing]) rfl rfl (by decide) he hfull
  exact hnot.1 hwaits

/-- The load that was there is woken; the other one goes on waiting, and register 7 is not updated again. -/
theorem lsu_wakeup_reaches_residents :
    Lsu.config.entries ≤ UInt64.size ∧ build "lsu" Lsu.config = .ok Lsu.station ∧
    Runs Lsu.station id Lsu.insertRef Lsu.station
      (Lsu.filling.map fun moves => moves.map Lsu.turn) Lsu.crowded ∧
    Allows Lsu.station id Lsu.insertRef Lsu.crowded (Lsu.crossing.map Lsu.turn) ∧
    Runs Lsu.station id Lsu.insertRef Lsu.crossed [[Lsu.write 8 0x50].map Lsu.turn] Lsu.passed ∧
    (∃ e, Lsu.crossed.entry? 1 = some e ∧ e.tag1 = 0 ∧ e.value1 = Bits.ofNat 32 0x40) ∧
    (∃ e, Lsu.crossed.entry? 2 = some e ∧ e.full = true ∧ Holds (Lsu.loadArgs 2 7 0 1) e) ∧
    (∃ e, Lsu.passed.entry? 2 = some e ∧ e.tag1 = 7) ∧
    ¬ Updates 7 ([Lsu.write 8 0x50].map Lsu.turn) := by
  have hentries : Lsu.config.entries ≤ UInt64.size := by decide
  have hlater : Runs Lsu.station id Lsu.insertRef Lsu.crossed [[Lsu.write 8 0x50].map Lsu.turn]
      Lsu.passed := .cycle (.refl _) allows_lsu_passing Lsu.view rfl
  obtain ⟨answers, hedge⟩ := exists_round_crossing
  obtain ⟨hwoken, hinserted⟩ :=
    wakeup_reaches_residents hentries build_lsu runs_lsu allows_lsu_crossing hedge hlater
  obtain ⟨hresident, -⟩ := hwoken (t := Lsu.turn (Lsu.write 7 0x40)) (by simp [Lsu.crossing]) rfl rfl rfl
    (by decide)
  obtain ⟨e₁, he₁, hfull₁, htag₁⟩ :
      ∃ e, Lsu.crowded.entry? 1 = some e ∧ e.full = true ∧ e.tag1 = 7 := ⟨_, rfl, rfl, rfl⟩
  obtain ⟨e₂, he₂, htag₂⟩ : ∃ e, Lsu.passed.entry? 2 = some e ∧ e.tag1 = 7 := ⟨_, rfl, rfl⟩
  obtain ⟨hholds, hwaits⟩ := hinserted (t := Lsu.turn (Lsu.load 2 7 0 1)) (i := 2)
    (by simp [Lsu.crossing]) rfl rfl
  have hstays : ∀ cycle ∈ [[Lsu.write 8 0x50].map Lsu.turn], ¬ Takes 2 cycle := by
    rw [← List.forall_iff_forall_mem]
    exact not_takes_of_forall (fun _ => rfl) nofun
  exact ⟨hentries, build_lsu, runs_lsu, allows_lsu_crossing, hlater, (hresident he₁ hfull₁).1 htag₁,
    hholds, ⟨e₂, he₂, htag₂⟩, hwaits hstays he₂ (.inl htag₂) (by decide) _ (List.mem_singleton_self _)⟩

end Station

end GuardedActions
