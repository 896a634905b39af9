import GuardedActions.Proofs.Block.Residence
import Mathlib.Data.Finset.Card
import Mathlib.Data.Finset.Option

/-!
# How many entries are given away

A cycle gives an entry away if it selects one and gets one back if it takes an operation; likewise a barrier comes
in if it is inserted and goes if it is taken.  So the number of entries that are given away, and of those that hold
a barrier, change by what a cycle asks for (`Outcome.reserved_balance`, `Outcome.barriers_balance`).  The two numbers,
together with the insertions that wait, decide whether a reservation is possible (`Rests.selectReady_eq`).
-/

set_option autoImplicit false

namespace GuardedActions

variable {σ : Type}

/-- The size of a set after some members went and others came. -/
theorem card_add_card_of_mem_iff {s t gone come : Finset Nat} (hgone : gone ⊆ s) (hcome : ∀ i ∈ come, i ∉ s)
    (h : ∀ i, i ∈ t ↔ i ∈ s ∧ i ∉ gone ∨ i ∈ come) : t.card + gone.card = s.card + come.card := by
  have ht : t = (s \ gone) ∪ come := by
    ext i
    rw [h, Finset.mem_union, Finset.mem_sdiff]
  have hdisjoint : Disjoint (s \ gone) come := by
    rw [Finset.disjoint_left]
    exact fun i hi hin => hcome i hin (Finset.mem_sdiff.mp hi).1
  have hrest := Finset.card_sdiff_add_card_eq_card hgone
  rw [ht, Finset.card_union_of_disjoint hdisjoint]
  omega

/-- Whether an entry holds a barrier. -/
def StationEntry.holdsBarrier (e : StationEntry) : Bool := e.full && e.op.isBarrier

namespace Station

/-! ## What a cycle asks for -/

/-- Whether some arguments describe a barrier. -/
def describesBarrier (args : Record) : Bool :=
  match args.getWord "op" with
  | .ok op => (MemoryOp.ofWord op).isBarrier
  | .error _ => false

/-- The entry that some arguments name. -/
def named? (args : Record) : Option Nat := (idOf args).toOption

theorem named?_eq_some {args : Record} {i : Nat} : named? args = some i ↔ idOf args = .ok i := by
  unfold named?
  cases idOf args <;> simp [Except.toOption]

/-- What a cycle asks of a station, as far as entries are given away and back. -/
structure Demand where
  /-- whether an entry is selected -/
  selects : Bool
  /-- the arguments of the insertion -/
  inserted : Option Record
  /-- the arguments of the taking -/
  taken : Option Record

namespace Demand

/-- Whether an operation is taken. -/
def takes (d : Demand) : Bool := d.taken.isSome

/-- Whether a barrier is inserted. -/
def insertsBarrier (d : Demand) : Bool := d.inserted.any describesBarrier

/-- Whether a barrier is taken. -/
def takesBarrier (d : Demand) (x : Station) : Bool :=
  ((d.taken.bind named?).bind x.entry?).any StationEntry.holdsBarrier

/-- The demand of some turns. -/
structure Of (d : Demand) (turns : List (Turn σ)) : Prop where
  /-- a turn selects an entry -/
  select : d.selects = true ↔ ∃ t ∈ turns, t.move = .select
  /-- a turn inserts an operation -/
  insert : ∀ args, d.inserted = some args ↔ ∃ t ∈ turns, t.move = .insert args
  /-- a turn takes an operation -/
  take : ∀ args, d.taken = some args ↔ ∃ t ∈ turns, t.move = .take args

theorem Of.takes_iff {d : Demand} {turns : List (Turn σ)} (hd : d.Of turns) {i : Nat} :
    Takes i turns ↔ i ∈ (d.taken.bind named?).toFinset := by
  rw [Option.mem_toFinset, Option.mem_def, Option.bind_eq_some_iff]
  constructor
  · rintro ⟨t, ht, args, hmove, hi⟩
    exact ⟨args, (hd.take args).mpr ⟨t, ht, hmove⟩, named?_eq_some.mpr hi⟩
  · rintro ⟨args, hargs, hi⟩
    obtain ⟨t, ht, hmove⟩ := (hd.take args).mp hargs
    exact ⟨t, ht, args, hmove, named?_eq_some.mp hi⟩

end Demand

/-! ## What is given away -/

/-- The entries that are given away. -/
def reserved (x : Station) : Finset Nat :=
  {i ∈ Finset.range x.config.entries | (x.entry? i).any StationEntry.reserved}

/-- The entries that hold a barrier. -/
def barriers (x : Station) : Finset Nat :=
  {i ∈ Finset.range x.config.entries | (x.entry? i).any StationEntry.holdsBarrier}

section Counting

variable {station x y : Station} {start : σ → UInt64} {insertRef : ActionRef} {turns : List (Turn σ)} {i : Nat}
  {e e' : StationEntry} {d : Demand}

theorem Rests.mem_reserved (h : x.Rests) : i ∈ x.reserved ↔ ∃ e, x.entry? i = some e ∧ e.reserved = true := by
  rw [reserved, Finset.mem_filter, Finset.mem_range, Option.any_eq_true]
  exact ⟨fun hi => hi.2, fun ⟨e, he, hreserved⟩ => ⟨h.lt_of_entry? he, e, he, hreserved⟩⟩

theorem Rests.mem_barriers (h : x.Rests) :
    i ∈ x.barriers ↔ ∃ e, x.entry? i = some e ∧ e.full = true ∧ e.op.isBarrier = true := by
  rw [barriers, Finset.mem_filter, Finset.mem_range, Option.any_eq_true]
  simp only [StationEntry.holdsBarrier, Bool.and_eq_true]
  exact ⟨fun hi => hi.2, fun ⟨e, he, hholds⟩ => ⟨h.lt_of_entry? he, e, he, hholds⟩⟩

theorem Rests.mem_reserved_of_entry? (h : x.Rests) (he : x.entry? i = some e) :
    i ∈ x.reserved ↔ e.reserved = true := by
  rw [h.mem_reserved, he]
  simp

theorem Rests.mem_barriers_of_entry? (h : x.Rests) (he : x.entry? i = some e) :
    i ∈ x.barriers ↔ e.full = true ∧ e.op.isBarrier = true := by
  rw [h.mem_barriers, he]
  simp

/-- An insertion writes an operation that is a barrier if its arguments describe one. -/
theorem of_written?_insert {now : UInt64} {args : Record} (h : x.written? now (.insert args) i = some e) :
    idOf args = .ok i ∧ e.full = true ∧ e.op.isBarrier = describesBarrier args := by
  simp only [written?] at h
  split at h
  · rename_i j e₀ hid hdescribe
    obtain ⟨rfl, hentry⟩ := Option.ite_none_right_eq_some.mp h
    obtain rfl := Option.some.inj hentry
    unfold describe at hdescribe
    obtain ⟨op, hop, hdescribe⟩ := bind_eq_ok.mp hdescribe
    obtain ⟨_, -, hdescribe⟩ := bind_eq_ok.mp hdescribe
    obtain ⟨_, -, hdescribe⟩ := bind_eq_ok.mp hdescribe
    obtain ⟨_, -, hdescribe⟩ := bind_eq_ok.mp hdescribe
    obtain ⟨_, -, hdescribe⟩ := bind_eq_ok.mp hdescribe
    obtain ⟨_, -, hdescribe⟩ := bind_eq_ok.mp hdescribe
    obtain ⟨_, -, hdescribe⟩ := bind_eq_ok.mp hdescribe
    obtain ⟨_, -, hdescribe⟩ := bind_eq_ok.mp hdescribe
    obtain rfl := Except.ok.inj hdescribe
    refine ⟨hid, rfl, ?_⟩
    unfold describesBarrier
    rw [hop]
  · cases h

/-- An entry whose operation is taken is empty after the edge. -/
theorem Outcome.of_takes (h : Outcome start x turns y) (hallows : Allows station start insertRef x turns)
    (hformed : x.Formed) (hrests : x.Rests) (htakes : Takes i turns) :
    (∃ e, x.entry? i = some e ∧ e.full = true) ∧ y.entry? i = some (StationEntry.empty x.config) := by
  obtain ⟨t, ht, args, hmove, hi⟩ := htakes
  have hwritten : x.written? (t.now start) t.move i = some (StationEntry.empty x.config) := by
    rw [hmove, written?_take hi, if_pos rfl]
  refine ⟨?_, h.of_written? hallows hformed hrests ht hwritten⟩
  obtain ⟨e, he, hchange⟩ := (hallows.finds hformed hrests ht).change hwritten
  rw [hmove] at hchange
  cases hchange with
  | leave id full known => exact ⟨e, he, full⟩

/-- A selection gives the lowest free entry away. -/
theorem Outcome.of_select (h : Outcome start x turns y) (hallows : Allows station start insertRef x turns)
    (hformed : x.Formed) (hrests : x.Rests) {t : Turn σ} (ht : t ∈ turns) (hmove : t.move = .select)
    (hi : x.freeSlot? = some i) : i ∈ y.reserved := by
  obtain ⟨⟨e, he, -⟩, -⟩ := hrests.of_freeSlot? hi
  have hwritten : x.written? (t.now start) t.move i = some { e with reserved := true } := by
    rw [hmove, written?_select hi he, if_pos rfl]
  exact h.rests.mem_reserved.mpr ⟨_, h.of_written? hallows hformed hrests ht hwritten, rfl⟩

/-- After the edge the entries that are given away are those from before that nothing was taken from, and the
one that was selected. -/
theorem Outcome.mem_reserved (h : Outcome start x turns y) (hallows : Allows station start insertRef x turns)
    (hformed : x.Formed) (hrests : x.Rests) : i ∈ y.reserved ↔ i ∈ x.reserved ∧ ¬ Takes i turns ∨
      (∃ t ∈ turns, t.move = .select) ∧ x.freeSlot? = some i := by
  constructor
  · intro hi
    obtain ⟨e', he', hreserved⟩ := h.rests.mem_reserved.mp hi
    have hstays : ¬ Takes i turns := by
      intro htakes
      obtain ⟨-, hempty⟩ := h.of_takes hallows hformed hrests htakes
      obtain rfl := Option.some.inj (he'.symm.trans hempty)
      cases hreserved
    rcases h.cases he' with ⟨t, ht, hwritten⟩ | ⟨-, hsame⟩
    · obtain ⟨e, he, hchange⟩ := (hallows.finds hformed hrests ht).change hwritten
      obtain ⟨move, asked, seen⟩ := t
      cases hchange with
      | reserve slot free => exact .inr ⟨⟨_, ht, rfl⟩, slot⟩
      | fill id reserved vacant holds full depends sound =>
        exact .inl ⟨hrests.mem_reserved.mpr ⟨e, he, reserved⟩, hstays⟩
      | wake register datum width nonzero waits =>
        have hfull := (StationEntry.waitsFor_iff.mp waits).1
        exact .inl ⟨hrests.mem_reserved.mpr ⟨e, he, (hrests.sound he).reserved hfull⟩, hstays⟩
      | leave id full known => exact absurd ⟨_, ht, _, rfl, id⟩ hstays
    · exact .inl ⟨hrests.mem_reserved.mpr ⟨e', hsame, hreserved⟩, hstays⟩
  · rintro (⟨hi, hstays⟩ | ⟨⟨t, ht, hmove⟩, hi⟩)
    · obtain ⟨e, he, hreserved⟩ := hrests.mem_reserved.mp hi
      obtain ⟨e', he'⟩ := h.rests.exists_entry? (h.config_eq ▸ hrests.lt_of_entry? he)
      refine h.rests.mem_reserved.mpr ⟨e', he', ?_⟩
      rcases h.cases he' with ⟨t, ht, hwritten⟩ | ⟨-, hsame⟩
      · obtain ⟨e₁, -, hchange⟩ := (hallows.finds hformed hrests ht).change hwritten
        obtain ⟨move, asked, seen⟩ := t
        have hsound := h.rests.sound he'
        cases hchange with
        | reserve slot free => rfl
        | fill id reserved vacant holds full depends sound => exact hsound.reserved full
        | wake register datum width nonzero waits =>
          exact hsound.reserved (Continues.wake (StationEntry.waitsFor_iff.mp waits).1 _ _).full
        | leave id full known => exact absurd ⟨_, ht, _, rfl, id⟩ hstays
      · obtain rfl := Option.some.inj (he.symm.trans hsame)
        exact hreserved
    · exact h.of_select hallows hformed hrests ht hmove hi

/-- After the edge the entries that hold a barrier are those from before that nothing was taken from, and the
one that a barrier was inserted into. -/
theorem Outcome.mem_barriers (h : Outcome start x turns y) (hallows : Allows station start insertRef x turns)
    (hformed : x.Formed) (hrests : x.Rests) : i ∈ y.barriers ↔ i ∈ x.barriers ∧ ¬ Takes i turns ∨
      ∃ t ∈ turns, ∃ args, t.move = .insert args ∧ idOf args = .ok i ∧ describesBarrier args = true := by
  constructor
  · intro hi
    obtain ⟨e', he', hfull, hbarrier⟩ := h.rests.mem_barriers.mp hi
    have hstays : ¬ Takes i turns := by
      intro htakes
      obtain ⟨-, hempty⟩ := h.of_takes hallows hformed hrests htakes
      obtain rfl := Option.some.inj (he'.symm.trans hempty)
      cases hfull
    rcases h.cases he' with ⟨t, ht, hwritten⟩ | ⟨-, hsame⟩
    · have hfinds := hallows.finds hformed hrests ht
      obtain ⟨e, he, hchange⟩ := hfinds.change hwritten
      obtain ⟨move, asked, seen⟩ := t
      cases hchange with
      | reserve slot free =>
        exact absurd (hfull.symm.trans ((hrests.sound he).full_eq_false free)) Bool.noConfusion
      | fill id reserved vacant holds full depends sound =>
        obtain ⟨-, -, hsame⟩ := of_written?_insert hwritten
        exact .inr ⟨_, ht, _, rfl, id, hsame.symm.trans hbarrier⟩
      | wake register datum width nonzero waits =>
        have hwaits := (StationEntry.waitsFor_iff.mp waits).1
        rw [(Continues.wake hwaits _ _).op] at hbarrier
        exact .inl ⟨hrests.mem_barriers.mpr ⟨e, he, hwaits, hbarrier⟩, hstays⟩
      | leave id full known => cases hfull
    · exact .inl ⟨hrests.mem_barriers.mpr ⟨e', hsame, hfull, hbarrier⟩, hstays⟩
  · rintro (⟨hi, hstays⟩ | ⟨t, ht, args, hmove, hi, hdescribes⟩)
    · obtain ⟨e, he, hfull, hbarrier⟩ := hrests.mem_barriers.mp hi
      obtain ⟨e', he', hcontinues⟩ := h.continues hallows hformed hrests he hfull hstays
      exact h.rests.mem_barriers.mpr ⟨e', he', hcontinues.full, hcontinues.op ▸ hbarrier⟩
    · have hfinds := hallows.finds hformed hrests ht
      obtain ⟨move, asked, seen⟩ := t
      obtain rfl : move = .insert args := hmove
      cases hfinds with
      | insert id entry reserved vacant describes holds full sound =>
        have hwritten : x.written? (start seen.state) (.insert args) i = some _ :=
          (written?_insert hi describes).trans (if_pos rfl)
        obtain ⟨-, hfull, hsame⟩ := of_written?_insert hwritten
        have he' := h.of_written? hallows hformed hrests ht hwritten
        exact h.rests.mem_barriers.mpr ⟨_, he', hfull, hsame.trans hdescribes⟩

/-- What is taken has an entry with an operation. -/
theorem Demand.Of.exists_taken (hd : d.Of turns) (hallows : Allows station start insertRef x turns)
    (hformed : x.Formed) (hrests : x.Rests) {args : Record} (hargs : d.taken = some args) :
    ∃ i e, named? args = some i ∧ x.entry? i = some e ∧ e.full = true := by
  obtain ⟨t, ht, hmove⟩ := (hd.take args).mp hargs
  have hfinds := hallows.finds hformed hrests ht
  obtain ⟨move, asked, seen⟩ := t
  obtain rfl : move = .take args := hmove
  cases hfinds with
  | take id entry full known ready => exact ⟨_, _, named?_eq_some.mpr id, entry, full⟩

/-- What is inserted has an entry without an operation. -/
theorem Demand.Of.exists_inserted (hd : d.Of turns) (hallows : Allows station start insertRef x turns)
    (hformed : x.Formed) (hrests : x.Rests) {args : Record} (hargs : d.inserted = some args) :
    ∃ i e, named? args = some i ∧ x.entry? i = some e ∧ e.full = false := by
  obtain ⟨t, ht, hmove⟩ := (hd.insert args).mp hargs
  have hfinds := hallows.finds hformed hrests ht
  obtain ⟨move, asked, seen⟩ := t
  obtain rfl : move = .insert args := hmove
  cases hfinds with
  | insert id entry reserved vacant describes holds full sound =>
    exact ⟨_, _, named?_eq_some.mpr id, entry, vacant⟩

theorem Demand.Of.card_taken (hd : d.Of turns) (hallows : Allows station start insertRef x turns)
    (hformed : x.Formed) (hrests : x.Rests) : (d.taken.bind named?).toFinset.card = d.takes.toNat := by
  unfold Demand.takes
  cases htaken : d.taken with
  | none => rfl
  | some args =>
    obtain ⟨i, -, hi, -⟩ := hd.exists_taken hallows hformed hrests htaken
    rw [Option.bind_some, hi]
    rfl

theorem Demand.Of.card_selected (hd : d.Of turns) (hallows : Allows station start insertRef x turns) :
    (if d.selects then x.freeSlot? else none).toFinset.card = d.selects.toNat := by
  cases hselects : d.selects with
  | false => rfl
  | true =>
    obtain ⟨t, ht, hmove⟩ := hd.select.mp hselects
    have hoffered := hallows.offered t ht
    rw [hmove, offers_select] at hoffered
    obtain ⟨i, hi⟩ := selectReady_eq_ok hoffered
    rw [if_pos rfl, hi]
    rfl

/-- What is given away after a cycle, and what was taken in it, is what was given away before it and what was
selected in it. -/
theorem Outcome.reserved_balance (h : Outcome start x turns y)
    (hallows : Allows station start insertRef x turns) (hformed : x.Formed) (hrests : x.Rests)
    (hd : d.Of turns) : y.reserved.card + d.takes.toNat = x.reserved.card + d.selects.toNat := by
  rw [← hd.card_taken hallows hformed hrests, ← hd.card_selected hallows]
  refine card_add_card_of_mem_iff (fun i hi => ?_) (fun i hi => ?_) (fun i => ?_)
  · rw [← hd.takes_iff] at hi
    obtain ⟨⟨e, he, hfull⟩, -⟩ := h.of_takes hallows hformed hrests hi
    exact hrests.mem_reserved.mpr ⟨e, he, (hrests.sound he).reserved hfull⟩
  · rw [Option.mem_toFinset, Option.mem_def, Option.ite_none_right_eq_some] at hi
    obtain ⟨⟨e, he, hfree⟩, -⟩ := hrests.of_freeSlot? hi.2
    rw [hrests.mem_reserved_of_entry? he, hfree]
    exact Bool.noConfusion
  · rw [h.mem_reserved hallows hformed hrests, hd.takes_iff, ← hd.select]
    simp only [Option.mem_toFinset, Option.mem_def, Option.ite_none_right_eq_some]

theorem Rests.any_holdsBarrier_iff (hrests : x.Rests) (i : Nat) :
    (x.entry? i).any StationEntry.holdsBarrier = true ↔ i ∈ x.barriers := by
  simp only [hrests.mem_barriers, Option.any_eq_true, StationEntry.holdsBarrier, Bool.and_eq_true]

theorem Rests.card_barriers_taken (hrests : x.Rests) (d : Demand) :
    (x.barriers ∩ (d.taken.bind named?).toFinset).card = (d.takesBarrier x).toNat := by
  unfold Demand.takesBarrier
  cases d.taken.bind named? with
  | none => simp
  | some i =>
    rw [Option.bind_some, Option.toFinset_some]
    by_cases hi : i ∈ x.barriers
    · rw [Finset.inter_singleton_of_mem hi, (hrests.any_holdsBarrier_iff i).mpr hi]
      rfl
    · have hnone := Bool.eq_false_iff.mpr (mt (hrests.any_holdsBarrier_iff i).mp hi)
      rw [Finset.inter_singleton_of_notMem hi, hnone]
      rfl

theorem Demand.Of.card_barrier (hd : d.Of turns) (hallows : Allows station start insertRef x turns)
    (hformed : x.Formed) (hrests : x.Rests) :
    ((d.inserted.filter describesBarrier).bind named?).toFinset.card = d.insertsBarrier.toNat := by
  unfold Demand.insertsBarrier
  cases hinserted : d.inserted with
  | none => rfl
  | some args =>
    obtain ⟨i, -, hi, -⟩ := hd.exists_inserted hallows hformed hrests hinserted
    cases hdescribes : describesBarrier args with
    | false => simp [Option.filter, hdescribes]
    | true => simp [Option.filter, hdescribes, hi]

theorem Demand.Of.mem_barrier (hd : d.Of turns) {i : Nat} :
    i ∈ ((d.inserted.filter describesBarrier).bind named?).toFinset ↔
      ∃ t ∈ turns, ∃ args, t.move = .insert args ∧ idOf args = .ok i ∧ describesBarrier args = true := by
  simp only [Option.mem_toFinset, Option.mem_def, Option.bind_eq_some_iff, Option.filter_eq_some_iff,
    named?_eq_some, hd.insert]
  constructor
  · rintro ⟨args, ⟨⟨t, ht, hmove⟩, hdescribes⟩, hi⟩
    exact ⟨t, ht, args, hmove, hi, hdescribes⟩
  · rintro ⟨t, ht, args, hmove, hi, hdescribes⟩
    exact ⟨args, ⟨⟨t, ht, hmove⟩, hdescribes⟩, hi⟩

/-- The barriers after a cycle, with that which was taken in it, are as many as those before it with that which
was inserted in it. -/
theorem Outcome.barriers_balance (h : Outcome start x turns y)
    (hallows : Allows station start insertRef x turns) (hformed : x.Formed) (hrests : x.Rests)
    (hd : d.Of turns) :
    y.barriers.card + (d.takesBarrier x).toNat = x.barriers.card + d.insertsBarrier.toNat := by
  rw [← hrests.card_barriers_taken, ← hd.card_barrier hallows hformed hrests]
  refine card_add_card_of_mem_iff Finset.inter_subset_left (fun i hi => ?_) (fun i => ?_)
  · obtain ⟨t, ht, args, hmove, hid, -⟩ := hd.mem_barrier.mp hi
    obtain ⟨⟨e, he, hvacant⟩, -⟩ := h.inserted hallows hformed hrests ht hmove hid
    rw [hrests.mem_barriers_of_entry? he, hvacant]
    rintro ⟨hfull, -⟩
    cases hfull
  · rw [h.mem_barriers hallows hformed hrests, hd.mem_barrier, hd.takes_iff]
    simp only [Finset.mem_inter, not_and]
    tauto

/-! ## Whether a reservation is possible -/

theorem Rests.fencePending_iff (hrests : x.Rests) : x.fencePending = true ↔ x.barriers.card ≠ 0 := by
  unfold fencePending RegisterArray.values
  rw [Finset.card_ne_zero, List.any_eq_true]
  constructor
  · rintro ⟨e, he, hholds⟩
    obtain ⟨i, hi⟩ := List.mem_iff_getElem?.mp he
    rw [Bool.and_eq_true] at hholds
    refine ⟨i, hrests.mem_barriers.mpr ⟨e, ?_, hholds⟩⟩
    rw [ entry?, ← Array.getElem?_toList, ← List.getElem?_map]
    exact hi
  · rintro ⟨i, hi⟩
    obtain ⟨e, he, hholds⟩ := hrests.mem_barriers.mp hi
    rw [ entry?, ← Array.getElem?_toList, ← List.getElem?_map] at he
    exact ⟨e, List.mem_of_getElem? he, by rw [Bool.and_eq_true]; exact hholds⟩

theorem Rests.isSome_lowest_freeMask (hrests : x.Rests) :
    x.freeMask.lowest?.isSome = true ↔ x.reserved.card < x.config.entries := by
  have hlowest : x.freeMask.lowest?.isSome = true ↔ ∃ i, x.freeMask.test i = true := Encoder.isSome_lowest
  have hsubset : x.reserved ⊆ Finset.range x.config.entries := Finset.filter_subset _ _
  have hfull : x.reserved = Finset.range x.config.entries ↔ ¬ x.reserved.card < x.config.entries := by
    constructor
    · intro hall
      rw [hall, Finset.card_range]
      exact Nat.lt_irrefl _
    · intro hle
      refine Finset.eq_of_subset_of_card_le hsubset ?_
      rw [Finset.card_range]
      exact Nat.le_of_not_lt hle
  rw [hlowest, ← not_iff_not, ← hfull]
  constructor
  · intro hnone
    refine Finset.Subset.antisymm hsubset fun i hi => ?_
    obtain ⟨e, he⟩ := hrests.exists_entry? (Finset.mem_range.mp hi)
    refine hrests.mem_reserved.mpr ⟨e, he, ?_⟩
    cases hreserved : e.reserved with
    | true => rfl
    | false => exact absurd ⟨i, hrests.test_freeMask.mpr ⟨e, he, hreserved⟩⟩ hnone
  · rintro hall ⟨i, hi⟩
    obtain ⟨e, he, hfree⟩ := hrests.test_freeMask.mp hi
    have hmem : i ∈ x.reserved := by
      rw [hall, Finset.mem_range]
      exact hrests.lt_of_entry? he
    exact absurd (hfree.symm.trans ((hrests.mem_reserved_of_entry? he).mp hmem)) Bool.noConfusion

/-- Whether a barrier is among some insertions is known if they all say what they insert. -/
theorem insertsFence_eq {insertions : List Record} (h : ∀ args ∈ insertions, ∃ op, args.getWord "op" = .ok op) :
    insertsFence insertions = .ok (insertions.any describesBarrier) := by
  induction insertions with
  | nil => rfl
  | cons args rest ih =>
    obtain ⟨op, hop⟩ := h args List.mem_cons_self
    have hargs : describesBarrier args = (MemoryOp.ofWord op).isBarrier := by
      unfold describesBarrier
      rw [hop]
    unfold insertsFence
    rw [hop, ok_bind, List.any_cons, hargs, ih fun args hmem => h args (List.mem_cons_of_mem _ hmem)]
    cases (MemoryOp.ofWord op).isBarrier <;> rfl

/-- A reservation is possible if no entry holds a barrier, no insertion that waits brings one, and not all
entries are given away. -/
theorem Rests.selectReady_eq (hrests : x.Rests) {insertions : List Record}
    (h : ∀ args ∈ insertions, ∃ op, args.getWord "op" = .ok op) : ∃ ready, x.selectReady insertions = .ok ready ∧
      (ready = true ↔ x.barriers.card = 0 ∧ (∀ args ∈ insertions, describesBarrier args = false) ∧
        x.reserved.card < x.config.entries) := by
  have hbarriers := hrests.fencePending_iff
  unfold selectReady
  cases hpending : x.fencePending with
  | true => exact ⟨false, rfl, nofun, fun hready => absurd hready.1 (hbarriers.mp hpending)⟩
  | false =>
    have hnone : x.barriers.card = 0 := by
      by_contra hsome
      exact absurd (hpending.symm.trans (hbarriers.mpr hsome)) Bool.noConfusion
    rw [if_neg Bool.noConfusion, insertsFence_eq h, ok_bind]
    cases hinserts : insertions.any describesBarrier with
    | true =>
      obtain ⟨args, hargs, hdescribes⟩ := List.any_eq_true.mp hinserts
      refine ⟨false, rfl, nofun, fun hready => ?_⟩
      exact absurd (hdescribes.symm.trans (hready.2.1 args hargs)) Bool.noConfusion
    | false =>
      refine ⟨_, rfl, ?_⟩
      rw [hrests.isSome_lowest_freeMask]
      refine ⟨fun hlt => ⟨hnone, ?_, hlt⟩, fun hready => hready.2.2⟩
      simpa using hinserts

end Counting

/-- The entries of a station that was just built are empty. -/
theorem entry?_build {name : String} {config : StationConfig} {station : Station}
    (hbuild : build name config = .ok station) {i : Nat} {e : StationEntry} (he : station.entry? i = some e) :
    e = StationEntry.empty config := by
  unfold build at hbuild
  split at hbuild
  · cases hbuild
  · obtain ⟨_, -, hbuild⟩ := bind_eq_ok.mp hbuild
    obtain ⟨_, -, hbuild⟩ := bind_eq_ok.mp hbuild
    obtain ⟨_, -, hbuild⟩ := bind_eq_ok.mp hbuild
    obtain ⟨_, -, hbuild⟩ := bind_eq_ok.mp hbuild
    obtain ⟨_, -, hbuild⟩ := bind_eq_ok.mp hbuild
    obtain rfl := Except.ok.inj hbuild
    exact RegisterArray.value?_new he

/-- They are not given away. -/
theorem reserved_build {name : String} {config : StationConfig} {station : Station}
    (hentries : config.entries ≤ UInt64.size) (hbuild : build name config = .ok station) :
    station.reserved = ∅ ∧ station.barriers = ∅ := by
  obtain ⟨-, hrests, rfl⟩ := rests_build hentries hbuild
  refine ⟨Finset.eq_empty_of_forall_notMem fun i hi => ?_, Finset.eq_empty_of_forall_notMem fun i hi => ?_⟩
  · obtain ⟨e, he, hreserved⟩ := hrests.mem_reserved.mp hi
    rw [entry?_build hbuild he] at hreserved
    cases hreserved
  · obtain ⟨e, he, hfull, -⟩ := hrests.mem_barriers.mp hi
    rw [entry?_build hbuild he] at hfull
    cases hfull

end Station

end GuardedActions
