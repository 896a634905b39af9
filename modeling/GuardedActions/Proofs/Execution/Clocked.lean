import GuardedActions.Execution
import GuardedActions.Proofs.Computation
import GuardedActions.Scheduling
import Mathlib.Data.List.Basic

/-!
# Runs of a clocked machine

A machine that is clocked makes a schedule, executes it and goes over the clock edge, again and again.  Between two
cycles somebody else may change its state, within a relation that is a parameter here, and whatever else is no
part of the design.  What was before any cycle of such a run is a run of its own (`Clocked.of_append`).
-/

set_option autoImplicit false

namespace GuardedActions

namespace Machine

variable {σ : Type} {K : σ → σ → Prop} {m₀ m m' : Machine σ} {s : Schedule}

/-- A cycle of a machine. -/
structure Cycle (σ : Type) where
  /-- the machine when the cycle begins -/
  machine : Machine σ
  /-- what was scheduled and executed -/
  schedule : Schedule

/-- A machine after some cycles of a run. -/
inductive Clocked (K : σ → σ → Prop) (m₀ : Machine σ) : List (Cycle σ) → Machine σ → Prop where
  /-- before the first cycle -/
  | start : Clocked K m₀ [] m₀
  /-- one more cycle -/
  | cycle {history : List (Cycle σ)} {m m' : Machine σ} {s : Schedule} (run : Clocked K m₀ history m)
    (scheduled : m.schedule = .ok s) (executed : m.execute s = .ok m') :
    Clocked K m₀ (history ++ [⟨m, s⟩]) m'.commit
  /-- something happens between two cycles -/
  | between {history : List (Cycle σ)} {m m' : Machine σ} (run : Clocked K m₀ history m)
    (design : m'.design = m.design) (parts : m'.parts = m.parts) (state : K m.state m'.state) :
    Clocked K m₀ history m'

/-- An execution changes nothing but the state, what was executed last and what was told. -/
theorem frame_of_execute (h : m.execute s = .ok m') :
    m' = { m with state := m'.state, last := some s, journal := m'.journal } := by
  unfold execute at h
  split at h
  · cases h
  · split at h
    · obtain ⟨⟨⟩, -, h⟩ := bind_eq_ok.mp h
      obtain ⟨e, -, h⟩ := bind_eq_ok.mp h
      obtain ⟨⟨⟩, -, h⟩ := bind_eq_ok.mp h
      obtain ⟨e', -, h⟩ := bind_eq_ok.mp h
      rw [← Except.ok.inj h]
    · cases h

namespace Clocked

variable {history : List (Cycle σ)}

/-- A run keeps the design and the components. -/
theorem same (h : Clocked K m₀ history m) : m.design = m₀.design ∧ m.parts = m₀.parts := by
  induction h with
  | start => exact ⟨rfl, rfl⟩
  | cycle run scheduled executed ih =>
    rw [frame_of_execute executed]
    exact ih
  | between run design parts state ih => exact ⟨design.trans ih.1, parts.trans ih.2⟩

/-- The machine before a cycle of a run comes out of the cycles before, and the cycle was scheduled and executed
on it. -/
theorem of_append (h : Clocked K m₀ history m) {before after : List (Cycle σ)} {c : Cycle σ}
    (hhistory : history = before ++ c :: after) : Clocked K m₀ before c.machine ∧
      c.machine.schedule = .ok c.schedule ∧ ∃ m', c.machine.execute c.schedule = .ok m' := by
  induction h generalizing after with
  | start => simp at hhistory
  | cycle run scheduled executed ih =>
    rcases after.eq_nil_or_concat with rfl | ⟨rest, last, rfl⟩
    · obtain ⟨rfl, hc⟩ := List.append_inj' hhistory rfl
      obtain rfl := (List.cons.inj hc).1
      exact ⟨run, scheduled, _, executed⟩
    · rw [List.concat_eq_append, ← List.cons_append, ← List.append_assoc] at hhistory
      exact ih (List.append_inj' hhistory rfl).1
  | between run design parts state ih => exact ih hhistory

end Clocked

/-- Take some cycles, one after the other. -/
def clock : (number : Nat) → Machine σ → Except Fault (List (Cycle σ) × Machine σ)
  | 0, m => .ok ([], m)
  | number + 1, m => do
    let s ← m.schedule
    let m' ← m.execute s
    let (history, last) ← clock number m'.commit
    .ok (⟨m, s⟩ :: history, last)

/-- What comes of some cycles is a run. -/
theorem Clocked.of_clock {before history : List (Cycle σ)} {number : Nat} (run : Clocked K m₀ before m)
    (h : m.clock number = .ok (history, m')) : Clocked K m₀ (before ++ history) m' := by
  induction number generalizing before history m with
  | zero =>
    obtain ⟨rfl, rfl⟩ := Prod.mk.inj (Except.ok.inj h)
    rwa [List.append_nil]
  | succ number ih =>
    obtain ⟨s, hs, h⟩ := bind_eq_ok.mp h
    obtain ⟨m'', hm, h⟩ := bind_eq_ok.mp h
    obtain ⟨⟨rest, last⟩, hrest, h⟩ := bind_eq_ok.mp h
    obtain ⟨rfl, rfl⟩ := Prod.mk.inj (Except.ok.inj h)
    have hrun := ih (run.cycle hs hm) hrest
    rwa [List.append_assoc] at hrun

end Machine

end GuardedActions
