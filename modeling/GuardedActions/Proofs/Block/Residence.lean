import GuardedActions.Proofs.Block.Station
import Mathlib.Data.List.Basic

/-!
# How long an operation stays in its entry

An operation comes into an entry without one and keeps it until it is taken.  Meanwhile its place in the reorder buffer
and its dependencies stay as they were, and an operand changes only when it stops waiting.
-/

set_option autoImplicit false

namespace GuardedActions

variable {σ : Type}

namespace Station

/-- Some turn takes the operation of the entry at a position. -/
def Takes (i : Nat) (turns : List (Turn σ)) : Prop :=
  ∃ t ∈ turns, ∃ args, t.move = .take args ∧ idOf args = .ok i

theorem not_takes_of_forall {i : Nat} {moves : List Move} {turn : Move → Turn σ}
    (hturn : ∀ move, (turn move).move = move)
    (h : moves.Forall fun move => ∀ args, move = .take args → idOf args ≠ .ok i) :
    ¬ Takes i (moves.map turn) := by
  rw [List.forall_iff_forall_mem] at h
  rintro ⟨t, ht, args, hmove, hid⟩
  obtain ⟨move, hmem, rfl⟩ := List.mem_map.mp ht
  exact h move hmem args ((hturn move).symm.trans hmove) hid

/-- An entry holds the same operation as another one did before, possibly with more operands known. -/
structure Continues (e e' : StationEntry) : Prop where
  /-- it holds an operation -/
  full : e'.full = true
  /-- of the same kind -/
  op : e'.op = e.op
  /-- with the same offset -/
  offset : e'.offset = e.offset
  /-- at the same place in the reorder buffer -/
  robIndex : e'.robIndex = e.robIndex
  /-- with the same register for the result -/
  target : e'.target = e.target
  /-- with the same dependencies -/
  depends : e'.depends = e.depends
  /-- the first operand waits no longer or is as before -/
  operand1 : e'.tag1 = 0 ∨ e'.tag1 = e.tag1 ∧ e'.value1 = e.value1
  /-- the second operand waits no longer or is as before -/
  operand2 : e'.tag2 = 0 ∨ e'.tag2 = e.tag2 ∧ e'.value2 = e.value2

namespace Continues

theorem refl {e : StationEntry} (hfull : e.full = true) : Continues e e :=
  ⟨hfull, rfl, rfl, rfl, rfl, rfl, .inr ⟨rfl, rfl⟩, .inr ⟨rfl, rfl⟩⟩

theorem trans {e e' e'' : StationEntry} (h : Continues e e') (h' : Continues e' e'') :
    Continues e e'' where
  full := h'.full
  op := h'.op.trans h.op
  offset := h'.offset.trans h.offset
  robIndex := h'.robIndex.trans h.robIndex
  target := h'.target.trans h.target
  depends := h'.depends.trans h.depends
  operand1 := by
    rcases h'.operand1 with hknown | ⟨htag, hvalue⟩
    · exact .inl hknown
    · rw [htag, hvalue]
      exact h.operand1
  operand2 := by
    rcases h'.operand2 with hknown | ⟨htag, hvalue⟩
    · exact .inl hknown
    · rw [htag, hvalue]
      exact h.operand2

theorem wake {e : StationEntry} (hfull : e.full = true) (tag : UInt64) (value : Bits) :
    Continues e (e.wake tag value) := by
  rw [StationEntry.wake_eq]
  refine ⟨hfull, rfl, rfl, rfl, rfl, rfl, ?_, ?_⟩
  · by_cases h : e.tag1 = tag
    · exact .inl (if_pos h)
    · exact .inr ⟨if_neg h, if_neg h⟩
  · by_cases h : e.tag2 = tag
    · exact .inl (if_pos h)
    · exact .inr ⟨if_neg h, if_neg h⟩

end Continues

section Residence

variable {station x y : Station} {start : σ → UInt64} {insertRef : ActionRef} {turns : List (Turn σ)}
  {history : List (List (Turn σ))} {i : Nat} {e : StationEntry}

/-- An operation is inserted into an entry without one, and is there after the edge with its hazards. -/
theorem Outcome.inserted (h : Outcome start x turns y) (hallows : Allows station start insertRef x turns)
    (hformed : x.Formed) (hrests : x.Rests) {t : Turn σ} (ht : t ∈ turns) {args : Record} {j : Nat}
    (hmove : t.move = .insert args) (hj : idOf args = .ok j) :
    (∃ old, x.entry? j = some old ∧ old.full = false) ∧ ∃ b, y.entry? j = some b ∧
      Holds args b ∧ b.full = true ∧ b.depends = x.hazards (t.now start) j b := by
  have hfinds := hallows.finds hformed hrests ht
  obtain ⟨move, asked, seen⟩ := t
  obtain rfl : move = .insert args := hmove
  cases hfinds with
  | insert id entry reserved vacant describes holds full sound =>
    obtain rfl := Except.ok.inj (hj.symm.trans id)
    refine ⟨⟨_, entry, vacant⟩, _, h.of_written? hallows hformed hrests ht
      ((written?_insert hj describes).trans (if_pos rfl)), holds.withDepends _, full, rfl⟩

/-- What becomes of an entry with an operation that is not taken continues the operation. -/
theorem Change.continues {now : UInt64} {move : Move} {e' : StationEntry} (h : Change x now i move e e')
    (hsound : e.Sound x.config i) (hfull : e.full = true)
    (hstays : ∀ args, move = .take args → idOf args ≠ .ok i) : Continues e e' := by
  cases h with
  | reserve slot free =>
    exact absurd (hfull.symm.trans (hsound.full_eq_false free)) Bool.noConfusion
  | fill id reserved vacant holds full depends sound =>
    exact absurd (hfull.symm.trans vacant) Bool.noConfusion
  | wake register datum width nonzero waits => exact .wake hfull _ _
  | leave id full known => exact absurd id (hstays _ rfl)

/-- A cycle that does not take an operation leaves it in its entry. -/
theorem Outcome.continues (h : Outcome start x turns y) (hallows : Allows station start insertRef x turns)
    (hformed : x.Formed) (hrests : x.Rests) (he : x.entry? i = some e) (hfull : e.full = true)
    (hstays : ¬ Takes i turns) : ∃ e', y.entry? i = some e' ∧ Continues e e' := by
  have hentry := h.entry? i
  rw [he] at hentry
  refine ⟨_, hentry, ?_⟩
  rcases h.cases hentry with ⟨t, ht, hwritten⟩ | ⟨-, hsame⟩
  · obtain ⟨e₁, he₁, hchange⟩ := (hallows.finds hformed hrests ht).change hwritten
    obtain rfl := Option.some.inj (he.symm.trans he₁)
    exact hchange.continues (hrests.sound he) hfull
      fun args hmove hid => hstays ⟨t, ht, args, hmove, hid⟩
  · obtain heq := Option.some.inj (he.symm.trans hsame)
    rw [← heq]
    exact .refl hfull

/-- An operation that is not taken stays in its entry. -/
theorem Runs.continues (hrun : Runs station start insertRef x history y) (hformed : x.Formed)
    (hrests : x.Rests) (he : x.entry? i = some e) (hfull : e.full = true)
    (hstays : ∀ turns ∈ history, ¬ Takes i turns) : ∃ e', y.entry? i = some e' ∧ Continues e e' := by
  induction hrun with
  | refl => exact ⟨e, he, .refl hfull⟩
  | cycle run allows last edge ih =>
    obtain ⟨e', he', hcontinues⟩ := ih fun turns hturns => hstays turns (List.mem_append_left _ hturns)
    obtain ⟨hformed, hrests, -⟩ := run.rests hformed hrests
    obtain ⟨-, houtcome⟩ := outcome_of_round hformed hrests allows edge
    obtain ⟨e'', he'', hcontinues'⟩ := houtcome.continues allows hformed hrests he' hcontinues.full
      (hstays _ (List.mem_append_right _ (List.mem_singleton_self _)))
    exact ⟨e'', he'', hcontinues.trans hcontinues'⟩

end Residence

end Station

end GuardedActions
