import GuardedActions.Proofs.Element
import Mathlib.Data.List.Induction

/-!
# The history of an element

A double-buffered element shows the latest value whose write was followed by an edge and by no reset since,
and keeps aside what was written after the last edge or reset.  Both are told here by the history alone:
`Traffic` says which acts write, commit and reset the element, `Waits` and `Shows` what follows from a list
of acts, and `Tells` that a cell is as its history says.
-/

set_option autoImplicit false

namespace GuardedActions

/-- What the acts of a history do to one element. -/
structure Traffic (A τ : Type) where
  /-- the act writes a value -/
  writes : A → τ → Prop
  /-- the act is an edge of the element -/
  commits : A → Prop
  /-- the act puts the element back to its initial value -/
  resets : A → Prop

namespace Traffic

variable {A τ : Type} (t : Traffic A τ)

/-- The act does nothing to the element. -/
structure Silent (act : A) : Prop where
  /-- it writes nothing -/
  writes : ∀ v, ¬ t.writes act v
  /-- it is no edge -/
  commits : ¬ t.commits act
  /-- it is no reset -/
  resets : ¬ t.resets act

/-- The element was last written this value, and neither edge nor reset came since. -/
def Waits (history : List A) (v : τ) : Prop :=
  ∃ before act after, history = before ++ act :: after ∧ t.writes act v ∧ ∀ a ∈ after, t.Silent a

/-- What was written before these acts lasts: an edge came, and no reset. -/
def Lasts (after : List A) : Prop := (∃ a ∈ after, t.commits a) ∧ ∀ a ∈ after, ¬ t.resets a

/-- No write among these acts lasts. -/
def Barren (history : List A) : Prop :=
  ∀ {before after : List A} {act : A} {v : τ}, history = before ++ act :: after → t.writes act v →
    ¬ t.Lasts after

/-- The value is that of the latest write that lasts, or the initial one if no write does. -/
def Shows (history : List A) (start v : τ) : Prop :=
  (∃ before act after, history = before ++ act :: after ∧ t.writes act v ∧ t.Lasts after ∧ t.Barren after) ∨
    t.Barren history ∧ v = start

/-- An act writes at most one value, and is at most one of a write, an edge and a reset. -/
structure Proper : Prop where
  /-- one value at most -/
  once : ∀ {act : A} {v w : τ}, t.writes act v → t.writes act w → v = w
  /-- a write is neither edge nor reset -/
  write : ∀ {act : A} {v : τ}, t.writes act v → ¬ t.commits act ∧ ¬ t.resets act
  /-- an edge is no reset -/
  commit : ∀ {act : A}, t.commits act → ¬ t.resets act

/-! ## One more act -/

section Concat

variable {t} {history before after : List A} {act other : A} {start v w : τ}

/-- An act of a longer history is the last one, or one of the shorter history. -/
theorem concat_eq_append_cons : history ++ [act] = before ++ other :: after ↔
    after = [] ∧ before = history ∧ other = act ∨
      ∃ rest, after = rest ++ [act] ∧ history = before ++ other :: rest := by
  constructor
  · intro h
    rcases List.eq_nil_or_concat after with rfl | ⟨rest, last, rfl⟩
    · obtain ⟨rfl, hact⟩ := List.append_inj' h rfl
      exact .inl ⟨rfl, rfl, (List.singleton_inj.mp hact).symm⟩
    · have h' : history ++ [act] = (before ++ other :: rest) ++ [last] := by simpa using h
      obtain ⟨rfl, hact⟩ := List.append_inj' h' rfl
      exact .inr ⟨rest, by rw [List.singleton_inj.mp hact, List.concat_eq_append], rfl⟩
  · rintro (⟨rfl, rfl, rfl⟩ | ⟨rest, rfl, rfl⟩)
    · rfl
    · simp

theorem waits_concat : t.Waits (history ++ [act]) v ↔
    t.writes act v ∨ t.Silent act ∧ t.Waits history v := by
  constructor
  · rintro ⟨before, other, after, hsplit, hwrites, hsilent⟩
    rcases concat_eq_append_cons.mp hsplit with ⟨-, -, rfl⟩ | ⟨rest, rfl, hrest⟩
    · exact .inl hwrites
    · have hact : t.Silent act := hsilent act (by simp)
      exact .inr ⟨hact, before, other, rest, hrest, hwrites,
        fun a ha => hsilent a (List.mem_append_left _ ha)⟩
  · rintro (hwrites | ⟨hact, before, other, rest, rfl, hwrites, hsilent⟩)
    · exact ⟨history, act, [], rfl, hwrites, nofun⟩
    · refine ⟨before, other, rest ++ [act], by simp, hwrites, fun a ha => ?_⟩
      rcases List.mem_append.mp ha with ha | ha
      · exact hsilent a ha
      · exact List.mem_singleton.mp ha ▸ hact

theorem not_waits_nil : ¬ t.Waits [] v := by
  rintro ⟨before, act, after, hsplit, -, -⟩
  simp at hsplit

theorem not_lasts_nil : ¬ t.Lasts [] := fun h => by
  obtain ⟨a, ha, -⟩ := h.1
  cases ha

theorem lasts_concat : t.Lasts (after ++ [act]) ↔
    ¬ t.resets act ∧ (∀ a ∈ after, ¬ t.resets a) ∧ (t.commits act ∨ ∃ a ∈ after, t.commits a) := by
  unfold Lasts
  simp only [List.mem_append, List.mem_singleton]
  constructor
  · rintro ⟨⟨a, ha, hcommits⟩, hresets⟩
    refine ⟨hresets act (.inr rfl), fun b hb => hresets b (.inl hb), ?_⟩
    rcases ha with ha | rfl
    · exact .inr ⟨a, ha, hcommits⟩
    · exact .inl hcommits
  · rintro ⟨hact, hresets, hcommits⟩
    refine ⟨?_, ?_⟩
    · rcases hcommits with hcommits | ⟨a, ha, hcommits⟩
      · exact ⟨act, .inr rfl, hcommits⟩
      · exact ⟨a, .inl ha, hcommits⟩
    · rintro b (hb | rfl)
      · exact hresets b hb
      · exact hact

theorem barren_nil : t.Barren [] := fun hsplit => by simp at hsplit

/-- A write lasts no longer because of an act that is no edge. -/
theorem Barren.concat (h : t.Barren history) (hact : ¬ t.commits act) : t.Barren (history ++ [act]) := by
  intro before after other v hsplit hwrites hlasts
  rcases concat_eq_append_cons.mp hsplit with ⟨rfl, -, -⟩ | ⟨rest, rfl, hrest⟩
  · exact not_lasts_nil hlasts
  · obtain ⟨-, hresets, hcommits⟩ := lasts_concat.mp hlasts
    exact h hrest hwrites ⟨hcommits.resolve_left hact, hresets⟩

/-- No write lasts over a reset. -/
theorem barren_concat_of_resets (hact : t.resets act) : t.Barren (history ++ [act]) := by
  intro before after other v hsplit _ hlasts
  rcases concat_eq_append_cons.mp hsplit with ⟨rfl, -, -⟩ | ⟨rest, rfl, -⟩
  · exact not_lasts_nil hlasts
  · exact (lasts_concat.mp hlasts).1 hact

/-- Acts without a write are barren. -/
theorem barren_of_silent (h : ∀ a ∈ history, ∀ v, ¬ t.writes a v) : t.Barren history := by
  rintro before after act v rfl hwrites _
  exact h act (by simp) v hwrites

/-- The shown value stays, unless an edge or a reset comes. -/
theorem Shows.concat (h : t.Shows history start v) (hcommits : ¬ t.commits act)
    (hresets : ¬ t.resets act) : t.Shows (history ++ [act]) start v := by
  rcases h with ⟨before, other, after, rfl, hwrites, hlasts, hbarren⟩ | ⟨hbarren, rfl⟩
  · refine .inl ⟨before, other, after ++ [act], by simp, hwrites, ?_, hbarren.concat hcommits⟩
    exact lasts_concat.mpr ⟨hresets, hlasts.2, .inr hlasts.1⟩
  · exact .inr ⟨hbarren.concat hcommits, rfl⟩

theorem shows_concat_of_resets (hact : t.resets act) : t.Shows (history ++ [act]) start start :=
  .inr ⟨barren_concat_of_resets hact, rfl⟩

/-- An edge shows what waits. -/
theorem Waits.shows (h : t.Waits history v) (hproper : t.Proper) (hact : t.commits act) :
    t.Shows (history ++ [act]) start v := by
  obtain ⟨before, other, after, rfl, hwrites, hsilent⟩ := h
  refine .inl ⟨before, other, after ++ [act], by simp, hwrites, ?_, barren_of_silent fun a ha w hw => ?_⟩
  · exact lasts_concat.mpr ⟨hproper.commit hact, fun a ha => (hsilent a ha).resets, .inl hact⟩
  · rcases List.mem_append.mp ha with ha | ha
    · exact (hsilent a ha).writes w hw
    · obtain rfl := List.mem_singleton.mp ha
      exact (hproper.write hw).1 hact

/-- After a write some value waits until an edge or a reset comes. -/
theorem exists_waits (hwrites : t.writes other v)
    (hafter : ∀ a ∈ after, ¬ t.commits a ∧ ¬ t.resets a) :
    ∃ w, t.Waits (before ++ other :: after) w := by
  induction after using List.reverseRecOn with
  | nil => exact ⟨v, before, other, [], rfl, hwrites, nofun⟩
  | append_singleton rest act ih =>
    obtain ⟨w, hw⟩ := ih fun a ha => hafter a (List.mem_append_left _ ha)
    obtain ⟨hcommits, hresets⟩ := hafter act (by simp)
    have happend : before ++ other :: (rest ++ [act]) = (before ++ other :: rest) ++ [act] := by simp
    rw [happend]
    by_cases hact : ∃ w', t.writes act w'
    · obtain ⟨w', hw'⟩ := hact
      exact ⟨w', waits_concat.mpr (.inl hw')⟩
    · exact ⟨w, waits_concat.mpr (.inr ⟨⟨fun w' hw' => hact ⟨w', hw'⟩, hcommits, hresets⟩, hw⟩)⟩

/-- If no value waits, then every write that no reset followed lasts already. -/
theorem lasts_of_not_waits (hnone : ∀ w, ¬ t.Waits (before ++ other :: after) w)
    (hwrites : t.writes other v) (hresets : ∀ a ∈ after, ¬ t.resets a) : t.Lasts after := by
  refine ⟨?_, hresets⟩
  by_contra hcommits
  obtain ⟨w, hw⟩ : ∃ w, t.Waits (before ++ other :: after) w := exists_waits hwrites fun a ha =>
    ⟨fun hcommit => hcommits ⟨a, ha, hcommit⟩, hresets a ha⟩
  exact hnone w hw

/-- The shown value stays at an edge if none waits. -/
theorem Shows.concat_of_not_waits (h : t.Shows history start v) (hnone : ∀ w, ¬ t.Waits history w)
    (hproper : t.Proper) (hact : t.commits act) : t.Shows (history ++ [act]) start v := by
  have hbarren : ∀ before after : List A, history = before ++ after → t.Barren after →
      t.Barren (after ++ [act]) := by
    intro before after hsplit hbarren before' after' other w hsplit' hwrites hlasts
    rcases concat_eq_append_cons.mp hsplit' with ⟨rfl, -, -⟩ | ⟨rest, rfl, rfl⟩
    · exact not_lasts_nil hlasts
    · obtain ⟨-, hresets, -⟩ := lasts_concat.mp hlasts
      rw [← List.append_assoc] at hsplit
      exact hbarren rfl hwrites (lasts_of_not_waits (hsplit ▸ hnone) hwrites hresets)
  rcases h with ⟨before, other, after, rfl, hwrites, hlasts, hafter⟩ | ⟨hafter, rfl⟩
  · refine .inl ⟨before, other, after ++ [act], by simp, hwrites, ?_, ?_⟩
    · exact lasts_concat.mpr ⟨hproper.commit hact, hlasts.2, .inl hact⟩
    · exact hbarren (before ++ [other]) after (by simp) hafter
  · exact .inr ⟨hbarren [] history rfl hafter, rfl⟩

end Concat

/-! ## Cells -/

/-- A cell is as its history says. -/
structure Tells (history : List A) (start : τ) (c : Cell τ) : Prop where
  /-- the value that waits -/
  waits : ∀ v, c.pending = some v ↔ t.Waits history v
  /-- the value that is shown -/
  shows : t.Shows history start c.value

namespace Tells

variable {t} {history : List A} {act : A} {start v : τ} {c : Cell τ}

theorem new (start : τ) : t.Tells [] start ⟨start, none⟩ where
  waits _ := ⟨nofun, fun h => absurd h not_waits_nil⟩
  shows := .inr ⟨barren_nil, rfl⟩

theorem hasWrite_iff (h : t.Tells history start c) : c.hasWrite = true ↔ ∃ v, t.Waits history v := by
  rw [Cell.hasWrite, Option.isSome_iff_exists]
  exact exists_congr h.waits

theorem pending_eq_none_iff (h : t.Tells history start c) :
    c.pending = none ↔ ∀ v, ¬ t.Waits history v := by
  rw [Option.eq_none_iff_forall_ne_some]
  exact forall_congr' fun v => not_congr (h.waits v)

/-- The next edge shows what waits, or else what is shown. -/
theorem next_eq_iff (h : t.Tells history start c) :
    c.next = v ↔ t.Waits history v ∨ (∀ w, ¬ t.Waits history w) ∧ c.value = v := by
  rw [← h.waits, ← h.pending_eq_none_iff, Cell.next]
  cases c.pending with
  | none => simp
  | some w => simp

theorem write (h : t.Tells history start c) (hproper : t.Proper) (hact : t.writes act v) :
    t.Tells (history ++ [act]) start (c.write v) where
  waits w := by
    rw [waits_concat]
    refine ⟨fun hw => .inl (Option.some.inj hw ▸ hact), ?_⟩
    rintro (hw | ⟨hsilent, -⟩)
    · exact congrArg some (hproper.once hact hw)
    · exact absurd hact (hsilent.writes v)
  shows := h.shows.concat (hproper.write hact).1 (hproper.write hact).2

theorem skip (h : t.Tells history start c) (hact : t.Silent act) : t.Tells (history ++ [act]) start c where
  waits w := by
    rw [waits_concat, h.waits w]
    exact ⟨fun hw => .inr ⟨hact, hw⟩, fun hw => (hw.resolve_left (hact.writes w)).2⟩
  shows := h.shows.concat hact.commits hact.resets

/-- Nothing waits after an edge or a reset. -/
theorem not_waits_concat (hproper : t.Proper) (hact : t.commits act ∨ t.resets act) :
    ¬ t.Waits (history ++ [act]) v := by
  rw [waits_concat]
  rintro (hw | ⟨hsilent, -⟩)
  · obtain ⟨hcommits, hresets⟩ := hproper.write hw
    exact hact.elim hcommits hresets
  · exact hact.elim hsilent.commits hsilent.resets

theorem commit (h : t.Tells history start c) (hproper : t.Proper) (hact : t.commits act) :
    t.Tells (history ++ [act]) start c.commit where
  waits _ := ⟨nofun, fun hw => absurd hw (not_waits_concat hproper (.inl hact))⟩
  shows := by
    rw [Cell.value_commit, Cell.next]
    cases hpending : c.pending with
    | none => exact h.shows.concat_of_not_waits (h.pending_eq_none_iff.mp hpending) hproper hact
    | some v => exact ((h.waits v).mp hpending).shows hproper hact

theorem reset (hproper : t.Proper) (hact : t.resets act) :
    t.Tells (history ++ [act]) start ⟨start, none⟩ where
  waits _ := ⟨nofun, fun hw => absurd hw (not_waits_concat hproper (.inr hact))⟩
  shows := shows_concat_of_resets hact

end Tells

end Traffic

end GuardedActions
