import GuardedActions.Machine
import GuardedActions.Proofs.Element
import Mathlib.Data.List.Forall2
import Mathlib.Logic.Function.Basic

/-!
# Components that own elements

State elements of all kinds as one type, states that consist of named parts, and components that own some
of them.  Committing or resetting parts one after the other does to each of them what it does to it alone:
neither the order nor the grouping into components matters.
-/

set_option autoImplicit false

namespace GuardedActions

/-! ## State elements -/

/-- A state element of any kind. -/
inductive StateElement (τ : Type) where
  /-- a register -/
  | register (r : Register τ)
  /-- a register array -/
  | array (a : RegisterArray τ)
  /-- a wire -/
  | wire (w : Wire τ)

namespace StateElement

variable {τ : Type}

/-- The initial value. -/
def start : StateElement τ → τ
  | register r => r.start
  | array a => a.start
  | wire w => w.idle

/-- Write a register, an element of an array, or drive a wire; only arrays look at the index. -/
def write (index : Nat) (value : τ) : StateElement τ → Except Fault (StateElement τ)
  | register r => (r.write value).map register
  | array a => (a.write index value).map array
  | wire w => (w.drive value).map wire

/-- The clock edge. -/
def commit : StateElement τ → StateElement τ
  | register r => register r.commit
  | array a => array a.commit
  | wire w => wire w.commit

/-- Back to the initial value. -/
def reset : StateElement τ → StateElement τ
  | register r => register r.reset
  | array a => array a.reset
  | wire w => wire w.reset

@[simp] theorem commit_commit (e : StateElement τ) : e.commit.commit = e.commit := by
  cases e with
  | register r => rfl
  | array a => rfl
  | wire w => rfl

@[simp] theorem reset_reset (e : StateElement τ) : e.reset.reset = e.reset := by
  cases e with
  | register r => rfl
  | array a => exact congrArg array a.reset_reset
  | wire w => rfl

@[simp] theorem reset_commit (e : StateElement τ) : e.commit.reset = e.reset := by
  cases e with
  | register r => rfl
  | array a => exact congrArg array a.reset_commit
  | wire w => rfl

/-- A write keeps what a reset restores. -/
theorem reset_of_write {e e' : StateElement τ} {index : Nat} {value : τ}
    (h : e.write index value = .ok e') : e'.reset = e.reset := by
  cases e with
  | register r =>
    obtain ⟨r', hr, rfl⟩ := map_eq_ok.mp h
    exact congrArg register (Register.reset_of_write hr)
  | array a =>
    obtain ⟨a', ha, rfl⟩ := map_eq_ok.mp h
    exact congrArg array (RegisterArray.reset_of_write ha)
  | wire w =>
    obtain ⟨w', hw, rfl⟩ := map_eq_ok.mp h
    exact congrArg wire (Wire.reset_of_drive hw)

/-- An element as it is made. -/
inductive IsNew : StateElement τ → Prop where
  /-- a register -/
  | register (name : ElementName) (start : τ) : IsNew (register (.new name start))
  /-- a register array -/
  | array (name : ElementName) (size : Nat) (start : τ) : IsNew (array (.new name size start))
  /-- a wire -/
  | wire (name : ElementName) (idle : τ) : IsNew (wire (.new name idle))

theorem IsNew.reset_eq {e : StateElement τ} (h : e.IsNew) : e.reset = e := by
  cases h with
  | register name start => rfl
  | array name size start => exact congrArg StateElement.array (RegisterArray.reset_new name size start)
  | wire name idle => rfl

end StateElement

/-! ## Named parts of a state -/

section Family

variable {ι : Type} [DecidableEq ι] {X : ι → Type}

/-- Change some members of a family, one after the other. -/
def changeAll (f : (i : ι) → X i → X i) (x : (i : ι) → X i) (refs : List ι) : (i : ι) → X i :=
  refs.foldl (fun x i => Function.update x i (f i (x i))) x

/-- Every member in the list is changed and no other one is. -/
theorem changeAll_apply {f : (i : ι) → X i → X i} (hf : ∀ i e, f i (f i e) = f i e)
    (x : (i : ι) → X i) (refs : List ι) (i : ι) :
    changeAll f x refs i = if i ∈ refs then f i (x i) else x i := by
  unfold changeAll
  induction refs generalizing x with
  | nil => simp
  | cons j refs ih =>
    rw [List.foldl_cons, ih]
    by_cases hij : i = j
    · subst hij
      simp [hf]
    · simp [hij]

/-- Only the members count, not their order. -/
theorem changeAll_congr {f : (i : ι) → X i → X i} (hf : ∀ i e, f i (f i e) = f i e)
    (x : (i : ι) → X i) {refs refs' : List ι} (h : ∀ i, i ∈ refs ↔ i ∈ refs') :
    changeAll f x refs = changeAll f x refs' := by
  funext i
  rw [changeAll_apply hf, changeAll_apply hf]
  simp only [h]

/-- A component does to its own parts of the state, and to nothing else, what each of them does at an edge
and at a reset. -/
structure Part.Owns (commit reset : (i : ι) → X i → X i) (p : Part ((i : ι) → X i)) (refs : List ι) :
    Prop where
  /-- the edge -/
  commit : ∀ x, p.commit x = changeAll commit x refs
  /-- the reset -/
  reset : ∀ x, p.reset x = changeAll reset x refs

variable {commit reset : (i : ι) → X i → X i}

theorem foldl_owns {f : (i : ι) → X i → X i} {change : Part ((i : ι) → X i) → ((i : ι) → X i) → (i : ι) → X i}
    {parts : List (Part ((i : ι) → X i))} {owned : List (List ι)}
    (h : List.Forall₂ (fun p refs => ∀ x, change p x = changeAll f x refs) parts owned)
    (x : (i : ι) → X i) :
    parts.foldl (fun x p => change p x) x = changeAll f x owned.flatten := by
  induction h generalizing x with
  | nil => rfl
  | cons hp _ ih =>
    rw [List.foldl_cons, hp, ih, List.flatten_cons]
    unfold changeAll
    rw [List.foldl_append]

/-- The edge of a machine is that of the parts that its components own. -/
theorem Machine.state_commit {m : Machine ((i : ι) → X i)} {owned : List (List ι)}
    (h : List.Forall₂ (Part.Owns commit reset) m.parts owned) :
    m.commit.state = changeAll commit m.state owned.flatten :=
  foldl_owns (h.imp fun _ _ hp => hp.commit) m.state

/-- The reset of a machine is that of the parts that its components own. -/
theorem Machine.state_reset {m : Machine ((i : ι) → X i)} {owned : List (List ι)}
    (h : List.Forall₂ (Part.Owns commit reset) m.parts owned) :
    m.reset.state = changeAll reset m.state owned.flatten :=
  foldl_owns (h.imp fun _ _ hp => hp.reset) m.state

end Family

end GuardedActions
