import GuardedActions.Body
import GuardedActions.Proofs.Element
import Mathlib.Logic.Function.Basic

/-!
# Registers as the state

A state that consists of registers, register arrays and a rest, and bodies that only read what was
committed and write registers and elements of arrays.  Writes that succeed one after the other succeed in
every order, and lead to states that differ at most in the order in which arrays list what was written.
-/

set_option autoImplicit false

namespace GuardedActions

/-! ## Arrays up to the order of their lists -/

namespace RegisterArray

variable {τ : Type} {a b c : RegisterArray τ}

/-- The arrays differ at most in the order in which they list the elements that were written. -/
structure Same (a b : RegisterArray τ) : Prop where
  /-- the names are the same -/
  name : a.name = b.name
  /-- the start values are the same -/
  start : a.start = b.start
  /-- the contents are the same -/
  cells : a.cells = b.cells
  /-- the same elements were written -/
  dirty : a.dirty.Perm b.dirty

theorem Same.refl (a : RegisterArray τ) : a.Same a := ⟨rfl, rfl, rfl, .refl _⟩

theorem Same.trans (h : a.Same b) (h' : b.Same c) : a.Same c :=
  ⟨h.name.trans h'.name, h.start.trans h'.start, h.cells.trans h'.cells, h.dirty.trans h'.dirty⟩

theorem Same.write (h : a.Same b) {i : Nat} {value : τ} {a' : RegisterArray τ}
    (ha : a.write i value = .ok a') : ∃ b', b.write i value = .ok b' ∧ a'.Same b' := by
  obtain ⟨c, hc, hpending, rfl⟩ := write_eq_ok.mp ha
  refine ⟨b.written i c value, write_eq_ok.mpr ⟨c, h.cells ▸ hc, hpending, rfl⟩, ?_⟩
  refine ⟨h.name, h.start, ?_, h.dirty.cons i⟩
  unfold written
  rw [h.cells]

/-- The edge does not depend on the order. -/
theorem Same.commit_eq (h : a.Same b) : a.commit = b.commit := by
  have hcells : a.commit.cells = b.commit.cells := by
    refine Array.ext_getElem? fun i => ?_
    rw [getElem?_commit, getElem?_commit, h.cells]
    simp only [h.dirty.mem_iff]
  calc a.commit = { a with cells := a.commit.cells, dirty := [] } := rfl
    _ = { b with cells := b.commit.cells, dirty := [] } := by rw [hcells, h.name, h.start]
    _ = b.commit := rfl

theorem read_of_write {i : Nat} {value : τ} {a' : RegisterArray τ} (h : a.write i value = .ok a') :
    a'.read = a.read := by
  obtain ⟨c, hc, -, rfl⟩ := write_eq_ok.mp h
  funext j
  unfold read cell
  rw [getElem?_written hc]
  by_cases hij : i = j
  · rw [if_pos hij, ← hij, hc]
    rfl
  · rw [if_neg hij]
    rfl

/-- Two writes that succeed one after the other succeed the other way round. -/
theorem write_comm {i j : Nat} {v w : τ} {a' a'' : RegisterArray τ} (h : a.write i v = .ok a')
    (h' : a'.write j w = .ok a'') :
    ∃ b' b'', a.write j w = .ok b' ∧ b'.write i v = .ok b'' ∧ a''.Same b'' := by
  obtain ⟨c, hc, hpending, rfl⟩ := write_eq_ok.mp h
  obtain ⟨d, hd, hpending', rfl⟩ := write_eq_ok.mp h'
  rw [getElem?_written hc] at hd
  have hij : i ≠ j := by
    intro hij
    rw [if_pos hij] at hd
    rw [← Option.some.inj hd] at hpending'
    cases hpending'
  rw [if_neg hij] at hd
  have hc' : (a.written j d w).cells[i]? = some c := by
    rw [getElem?_written hd, if_neg (Ne.symm hij)]
    exact hc
  refine ⟨a.written j d w, (a.written j d w).written i c v, write_eq_ok.mpr ⟨d, hd, hpending', rfl⟩,
    write_eq_ok.mpr ⟨c, hc', hpending, rfl⟩, rfl, rfl, ?_, .swap i j a.dirty⟩
  exact Array.setIfInBounds_comm _ _ hij

end RegisterArray

/-! ## States made of registers -/

/-- Which registers and register arrays a state has. -/
structure Layout where
  /-- names of registers -/
  Name : Type
  /-- names of register arrays -/
  Table : Type
  /-- what a register holds -/
  Value : Name → Type
  /-- what an element of an array holds -/
  Element : Table → Type
  /-- everything else -/
  Rest : Type

/-- A state with the given registers and register arrays. -/
structure Storage (L : Layout) where
  /-- the registers -/
  registers : (i : L.Name) → Register (L.Value i)
  /-- the register arrays -/
  arrays : (k : L.Table) → RegisterArray (L.Element k)
  /-- everything else -/
  rest : L.Rest

/-- The committed values of a state. -/
structure Committed (L : Layout) where
  /-- values of registers -/
  register : (i : L.Name) → L.Value i
  /-- values of elements, a fault outside of the array -/
  element : (k : L.Table) → Nat → Except Fault (L.Element k)

/-- A write of a register or of an element of an array. -/
inductive Write (L : Layout) where
  /-- write a register -/
  | register (i : L.Name) (value : L.Value i)
  /-- write an element -/
  | element (k : L.Table) (index : Nat) (value : L.Element k)

namespace Storage

variable {L : Layout}

/-- What reads see. -/
def committed (x : Storage L) : Committed L :=
  ⟨fun i => (x.registers i).read, fun k => (x.arrays k).read⟩

/-- The clock edge of all registers and arrays, and of the rest. -/
def commit (settle : L.Rest → L.Rest) (x : Storage L) : Storage L :=
  ⟨fun i => (x.registers i).commit, fun k => (x.arrays k).commit, settle x.rest⟩

/-- The states differ at most in the order in which arrays list the elements that were written. -/
structure Same (x y : Storage L) : Prop where
  /-- the registers are the same -/
  registers : x.registers = y.registers
  /-- the arrays are the same up to that order -/
  arrays : ∀ k, (x.arrays k).Same (y.arrays k)
  /-- the rest is the same -/
  rest : x.rest = y.rest

variable {x y z : Storage L}

theorem Same.refl (x : Storage L) : x.Same x := ⟨rfl, fun _ => .refl _, rfl⟩

theorem Same.trans (h : x.Same y) (h' : y.Same z) : x.Same z :=
  ⟨h.registers.trans h'.registers, fun k => (h.arrays k).trans (h'.arrays k), h.rest.trans h'.rest⟩

/-- The edge makes such states equal. -/
theorem Same.commit_eq (h : x.Same y) (settle : L.Rest → L.Rest) :
    x.commit settle = y.commit settle := by
  unfold commit
  rw [h.registers, h.rest, funext fun k => (h.arrays k).commit_eq]

variable [DecidableEq L.Name] [DecidableEq L.Table]

/-- Make a write. -/
def write (x : Storage L) : Write L → Except Fault (Storage L)
  | .register i value =>
    ((x.registers i).write value).map fun r =>
      { x with registers := Function.update x.registers i r }
  | .element k index value =>
    ((x.arrays k).write index value).map fun a =>
      { x with arrays := Function.update x.arrays k a }

/-- Make several writes in a row. -/
def writeAll (x : Storage L) (writes : List (Write L)) : Except Fault (Storage L) :=
  writes.foldlM write x

/-- Writes do not change what is committed. -/
theorem committed_of_write {w : Write L} (h : x.write w = .ok y) : y.committed = x.committed := by
  cases w with
  | register i value =>
    obtain ⟨r, hr, rfl⟩ := map_eq_ok.mp h
    obtain ⟨-, rfl⟩ := Register.write_eq_ok.mp hr
    unfold committed
    congr 1
    funext j
    by_cases hij : j = i
    · subst hij
      simp only [Function.update_self]
      rfl
    · simp only [Function.update_of_ne hij]
  | element k index value =>
    obtain ⟨a, ha, rfl⟩ := map_eq_ok.mp h
    unfold committed
    congr 1
    funext j
    by_cases hjk : j = k
    · subst hjk
      simp only [Function.update_self]
      exact RegisterArray.read_of_write ha
    · simp only [Function.update_of_ne hjk]

theorem Same.write (h : x.Same y) {w : Write L} {x' : Storage L} (hw : x.write w = .ok x') :
    ∃ y', y.write w = .ok y' ∧ x'.Same y' := by
  cases w with
  | register i value =>
    obtain ⟨r, hr, rfl⟩ := map_eq_ok.mp hw
    refine ⟨{ y with registers := Function.update y.registers i r }, ?_, ?_, h.arrays, h.rest⟩
    · exact map_eq_ok.mpr ⟨r, h.registers ▸ hr, rfl⟩
    · rw [h.registers]
  | element k index value =>
    obtain ⟨a, ha, rfl⟩ := map_eq_ok.mp hw
    obtain ⟨b, hb, hab⟩ := (h.arrays k).write ha
    refine ⟨{ y with arrays := Function.update y.arrays k b }, map_eq_ok.mpr ⟨b, hb, rfl⟩,
      h.registers, fun j => ?_, h.rest⟩
    by_cases hjk : j = k
    · subst hjk
      simp only [Function.update_self]
      exact hab
    · simp only [Function.update_of_ne hjk]
      exact h.arrays j

/-- Two writes that succeed one after the other succeed the other way round. -/
theorem write_comm {v w : Write L} {x' x'' : Storage L} (h : x.write v = .ok x')
    (h' : x'.write w = .ok x'') :
    ∃ y' y'', x.write w = .ok y' ∧ y'.write v = .ok y'' ∧ x''.Same y'' := by
  cases v with
  | register i value =>
    obtain ⟨r, hr, rfl⟩ := map_eq_ok.mp h
    cases w with
    | register j value' =>
      obtain ⟨q, hq, rfl⟩ := map_eq_ok.mp h'
      have hij : i ≠ j := by
        rintro rfl
        simp only [Function.update_self] at hq
        obtain ⟨-, rfl⟩ := Register.write_eq_ok.mp hr
        obtain ⟨hidle, -⟩ := Register.write_eq_ok.mp hq
        cases hidle
      simp only [Function.update_of_ne (Ne.symm hij)] at hq
      refine ⟨_, _, map_eq_ok.mpr ⟨q, hq, rfl⟩, map_eq_ok.mpr ⟨r, ?_, rfl⟩, ?_, fun _ => .refl _, rfl⟩
      · simp only [Function.update_of_ne hij]
        exact hr
      · exact Function.update_comm hij r q x.registers
    | element k index value' =>
      obtain ⟨a, ha, rfl⟩ := map_eq_ok.mp h'
      exact ⟨_, _, map_eq_ok.mpr ⟨a, ha, rfl⟩, map_eq_ok.mpr ⟨r, hr, rfl⟩, .refl _⟩
  | element k index value =>
    obtain ⟨a, ha, rfl⟩ := map_eq_ok.mp h
    cases w with
    | register j value' =>
      obtain ⟨q, hq, rfl⟩ := map_eq_ok.mp h'
      exact ⟨_, _, map_eq_ok.mpr ⟨q, hq, rfl⟩, map_eq_ok.mpr ⟨a, ha, rfl⟩, .refl _⟩
    | element l index' value' =>
      obtain ⟨b, hb, rfl⟩ := map_eq_ok.mp h'
      by_cases hkl : k = l
      · subst hkl
        simp only [Function.update_self] at hb
        obtain ⟨a', b', ha', hb', hsame⟩ := RegisterArray.write_comm ha hb
        refine ⟨_, _, map_eq_ok.mpr ⟨a', ha', rfl⟩, map_eq_ok.mpr ⟨b', ?_, rfl⟩, rfl, fun j => ?_, rfl⟩
        · simp only [Function.update_self]
          exact hb'
        · by_cases hjk : j = k
          · subst hjk
            simp only [Function.update_self]
            exact hsame
          · simp only [Function.update_of_ne hjk]
            exact .refl _
      · simp only [Function.update_of_ne (Ne.symm hkl)] at hb
        refine ⟨_, _, map_eq_ok.mpr ⟨b, hb, rfl⟩, map_eq_ok.mpr ⟨a, ?_, rfl⟩, rfl, fun j => ?_, rfl⟩
        · simp only [Function.update_of_ne hkl]
          exact ha
        · rw [Function.update_comm hkl a b x.arrays]
          exact .refl _

theorem committed_of_writeAll {writes : List (Write L)} (h : x.writeAll writes = .ok y) :
    y.committed = x.committed :=
  foldlM_induction (fun _ _ _ _ hkept hw => (committed_of_write hw).trans hkept) rfl h

theorem Same.writeAll (h : x.Same y) {writes : List (Write L)} {x' : Storage L}
    (hw : x.writeAll writes = .ok x') : ∃ y', y.writeAll writes = .ok y' ∧ x'.Same y' := by
  induction writes generalizing x y with
  | nil =>
    obtain rfl := foldlM_nil_eq_ok.mp hw
    exact ⟨y, rfl, h⟩
  | cons w writes ih =>
    obtain ⟨x₁, hfirst, hrest⟩ := foldlM_cons_eq_ok.mp hw
    obtain ⟨y₁, hfirst', hsame⟩ := h.write hfirst
    obtain ⟨y', hrest', hsame'⟩ := ih hsame hrest
    exact ⟨y', foldlM_cons_eq_ok.mpr ⟨y₁, hfirst', hrest'⟩, hsame'⟩

/-- Writes that succeed one after the other succeed in every order. -/
theorem writeAll_perm {writes writes' : List (Write L)} (hperm : writes.Perm writes')
    {x' : Storage L} (h : x.writeAll writes = .ok x') :
    ∃ y', x.writeAll writes' = .ok y' ∧ x'.Same y' := by
  induction hperm generalizing x x' with
  | nil => exact ⟨x', h, .refl x'⟩
  | cons w _ ih =>
    obtain ⟨x₁, hfirst, hrest⟩ := foldlM_cons_eq_ok.mp h
    obtain ⟨y', hrest', hsame⟩ := ih hrest
    exact ⟨y', foldlM_cons_eq_ok.mpr ⟨x₁, hfirst, hrest'⟩, hsame⟩
  | swap w v writes =>
    obtain ⟨x₁, hfirst, hrest⟩ := foldlM_cons_eq_ok.mp h
    obtain ⟨x₂, hsecond, hrest⟩ := foldlM_cons_eq_ok.mp hrest
    obtain ⟨y₁, y₂, hfirst', hsecond', hsame⟩ := write_comm hfirst hsecond
    obtain ⟨y', hrest', hsame'⟩ := hsame.writeAll hrest
    exact ⟨y', foldlM_cons_eq_ok.mpr ⟨y₁, hfirst', foldlM_cons_eq_ok.mpr ⟨y₂, hsecond', hrest'⟩⟩, hsame'⟩
  | trans _ _ ih ih' =>
    obtain ⟨y, hy, hsame⟩ := ih h
    obtain ⟨y', hy', hsame'⟩ := ih' hy
    exact ⟨y', hy', hsame.trans hsame'⟩

theorem writeAll_append {writes writes' : List (Write L)} :
    x.writeAll (writes ++ writes') = .ok z ↔
      ∃ y, x.writeAll writes = .ok y ∧ y.writeAll writes' = .ok z := by
  unfold writeAll
  rw [List.foldlM_append]
  exact bind_eq_ok

theorem writeAll_singleton {w : Write L} : x.writeAll [w] = .ok y ↔ x.write w = .ok y := by
  unfold writeAll
  rw [foldlM_cons_eq_ok]
  constructor
  · rintro ⟨y', hw, hnil⟩
    rw [← foldlM_nil_eq_ok.mp hnil]
    exact hw
  · exact fun hw => ⟨y, hw, foldlM_nil_eq_ok.mpr rfl⟩

end Storage

/-! ## Programs -/

/-- A body that reads committed values only and writes registers and elements of arrays only. -/
inductive Program (L : Layout) (α : Type) : Type where
  /-- return -/
  | done (result : α) : Program L α
  /-- stop the simulation -/
  | fail (fault : Fault) : Program L α
  /-- look at the committed values -/
  | look (next : Committed L → Program L α) : Program L α
  /-- make a write -/
  | write (w : Write L) (next : Program L α) : Program L α
  /-- leave a note -/
  | note (text : String) (next : Program L α) : Program L α
  /-- log an entry -/
  | report (entry : Log.Entry) (next : Program L α) : Program L α
  /-- call a method through a declared call site -/
  | call (callee : ActionRef) (given : Option Record) (next : Record → Program L α) : Program L α

namespace Program

variable {L : Layout} [DecidableEq L.Name] [DecidableEq L.Table] {α : Type}

/-- The program as the body of an action. -/
def body : Program L α → ActionBody (Storage L) α
  | .done result => .done result
  | .fail fault => .fail fault
  | .look next => .look fun view => (next view.state.committed).body
  | .write w next => .look fun view =>
    match view.state.write w with
    | .ok x => .update x next.body
    | .error fault => .fail fault
  | .note text next => .note text next.body
  | .report entry next => .report entry next.body
  | .call callee given next => .call (.perform callee given) fun result => (next result).body

end Program

end GuardedActions
