import GuardedActions.Block
import GuardedActions.Proofs.Computation

/-!
# A cycle of a block

What one clock cycle does to the state of a block: the methods that are called and the transactions that
run, one after the other, then the combinational logic, then the clock edge.
-/

set_option autoImplicit false

namespace GuardedActions

variable {σ τ : Type}

namespace Block

/-- A use of an action of a block. -/
inductive Use where
  /-- a method is called -/
  | call (port : String) (args : Record)
  /-- a transaction runs -/
  | run (job : String)
  deriving DecidableEq, Repr

/-- Whether the method is ready, or the transaction wants to run. -/
def offers (b : Block σ τ) (view : View σ) (x : τ) : Use → Except Fault Bool
  | .call name _ =>
    match b.ports.find? fun p => p.name == name with
    | none => .error (.unknownName name)
    | some p =>
      match p.ready with
      | none => .ok true
      | some ready => ready view x
  | .run name =>
    match b.jobs.find? fun j => j.name == name with
    | none => .error (.unknownName name)
    | some j => j.request view x

/-- Whether the arguments of a call are accepted; a transaction has none. -/
def accepts (b : Block σ τ) (view : View σ) (x : τ) : Use → Except Fault Bool
  | .call name args =>
    match b.ports.find? fun p => p.name == name with
    | none => .error (.unknownName name)
    | some p =>
      match p.validator with
      | none => .ok true
      | some validator => validator view x args
  | .run _ => .ok true

/-- Run the body of the method or of the transaction. -/
def use (b : Block σ τ) (view : View σ) (x : τ) : Use → Except Fault (Record × τ)
  | .call name args =>
    match b.ports.find? fun p => p.name == name with
    | none => .error (.unknownName name)
    | some p => p.body view x args
  | .run name =>
    match b.jobs.find? fun j => j.name == name with
    | none => .error (.unknownName name)
    | some j => (j.body view x).map fun x => (Record.empty, x)

/-- Run several bodies in a row and collect what they return. -/
def useAll (b : Block σ τ) (view : View σ) (x : τ) (uses : List Use) :
    Except Fault (List Record × τ) :=
  uses.foldlM (fun r u => (b.use view r.2 u).map fun r' => (r.1 ++ [r'.1], r'.2)) ([], x)

/-- Run the combinational logic, if there is any. -/
def settle (b : Block σ τ) (view : View σ) (x : τ) : Except Fault τ :=
  match b.hook with
  | none => .ok x
  | some logic => logic view x

/-- One clock cycle: what the uses return, and the state after the edge. -/
def cycle (b : Block σ τ) (view : View σ) (x : τ) (uses : List Use) :
    Except Fault (List Record × τ) := do
  let (answers, x) ← b.useAll view x uses
  let x ← b.settle view x
  .ok (answers, b.commit x)

theorem cycle_eq_ok {b : Block σ τ} {view : View σ} {x x' : τ} {uses : List Use}
    {answers : List Record} : b.cycle view x uses = .ok (answers, x') ↔
      ∃ used settled, b.useAll view x uses = .ok (answers, used) ∧ b.settle view used = .ok settled ∧
        x' = b.commit settled := by
  unfold cycle
  rw [bind_eq_ok]
  constructor
  · rintro ⟨⟨answers', used⟩, hused, hrest⟩
    obtain ⟨settled, hsettled, hok⟩ := bind_eq_ok.mp hrest
    obtain ⟨rfl, rfl⟩ := Prod.mk.inj (Except.ok.inj hok)
    exact ⟨used, settled, hused, hsettled, rfl⟩
  · rintro ⟨used, settled, hused, hsettled, rfl⟩
    exact ⟨(answers, used), hused, bind_eq_ok.mpr ⟨settled, hsettled, rfl⟩⟩

/-! ## Bodies with views of their own

The bodies of a cycle run one after the other, and what they see besides the committed state may change
from one to the next. -/

/-- Run several bodies in a row, each from its own view, and collect what they return. -/
def useEach (b : Block σ τ) (x : τ) (turns : List (View σ × Use)) : Except Fault (List Record × τ) :=
  turns.foldlM (fun r t => (b.use t.1 r.2 t.2).map fun r' => (r.1 ++ [r'.1], r'.2)) ([], x)

/-- One clock cycle whose bodies have views of their own; the combinational logic has the last one. -/
def round (b : Block σ τ) (last : View σ) (x : τ) (turns : List (View σ × Use)) :
    Except Fault (List Record × τ) := do
  let (answers, x) ← b.useEach x turns
  let x ← b.settle last x
  .ok (answers, b.commit x)

theorem useAll_eq_useEach (b : Block σ τ) (view : View σ) (x : τ) (uses : List Use) :
    b.useAll view x uses = b.useEach x (uses.map fun u => (view, u)) := by
  unfold useAll useEach
  rw [List.foldlM_map]

/-- A cycle is a round of bodies that all have the same view. -/
theorem cycle_eq_round (b : Block σ τ) (view : View σ) (x : τ) (uses : List Use) :
    b.cycle view x uses = b.round view x (uses.map fun u => (view, u)) := by
  unfold cycle round
  rw [useAll_eq_useEach]

/-- Without combinational logic a round is its bodies and the edge. -/
theorem round_eq_ok {b : Block σ τ} (hhook : b.hook = none) {last : View σ} {x y : τ}
    {turns : List (View σ × Use)} {answers : List Record} (h : b.useEach x turns = .ok (answers, y)) :
    b.round last x turns = .ok (answers, b.commit y) := by
  unfold round settle
  rw [h, hhook]
  rfl

/-- Bodies succeed in a row if each of them does so wherever the ones before it lead. -/
theorem exists_useEach {ι : Type} {b : Block σ τ} {x : τ} {moves : List ι} (turn : ι → View σ × Use)
    (answer : ι → Record) (P : List ι → τ → Prop) (start : P [] x)
    (step : ∀ before move after y, moves = before ++ move :: after → P before y →
      ∃ y', b.use (turn move).1 y (turn move).2 = .ok (answer move, y') ∧ P (before ++ [move]) y') :
    ∃ y, b.useEach x (moves.map turn) = .ok (moves.map answer, y) ∧ P moves y := by
  unfold useEach
  rw [List.foldlM_map]
  have hrun : ∃ r : List Record × τ, moves.foldlM (fun r move =>
        (b.use (turn move).1 r.2 (turn move).2).map fun r' => (r.1 ++ [r'.1], r'.2)) ([], x) = .ok r ∧
      r.1 = moves.map answer ∧ P moves r.2 := by
    refine exists_foldlM (fun before (r : List Record × τ) => r.1 = before.map answer ∧ P before r.2) ⟨rfl, start⟩ ?_
    rintro before move after ⟨answers, y⟩ hmoves - ⟨hanswers, hP⟩
    obtain rfl : answers = before.map answer := hanswers
    obtain ⟨y', huse, hP'⟩ := step before move after y hmoves hP
    refine ⟨(before.map answer ++ [answer move], y'), ?_, ?_, hP'⟩
    · rw [huse]
      rfl
    · rw [List.map_append]
      rfl
  obtain ⟨⟨answers, y⟩, hrun, hanswers, hP⟩ := hrun
  obtain rfl : answers = moves.map answer := hanswers
  exact ⟨y, hrun, hP⟩

end Block

end GuardedActions
