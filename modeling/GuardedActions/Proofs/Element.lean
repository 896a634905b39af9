import GuardedActions.Element
import GuardedActions.Proofs.Computation
import Mathlib.Logic.Function.Basic

/-!
# State elements

What writes and clock edges do to registers, register arrays and wires.  An element that no write waits
for is idle; the edge leaves every element idle.
-/

set_option autoImplicit false

namespace GuardedActions

variable {τ : Type}

@[simp] theorem Cell.commit_commit (c : Cell τ) : c.commit.commit = c.commit := rfl

/-! ## Registers -/

namespace Register

/-- No write waits. -/
def Idle (r : Register τ) : Prop := r.cell.pending = none

theorem idle_new (name : ElementName) (start : τ) : (new name start).Idle := rfl

theorem idle_commit (r : Register τ) : r.commit.Idle := rfl

theorem commit_of_idle {r : Register τ} (h : r.Idle) : r.commit = r := by
  obtain ⟨name, start, value, pending⟩ := r
  obtain rfl : pending = none := h
  rfl

theorem write_of_idle {r : Register τ} (h : r.Idle) (value : τ) :
    r.write value = .ok { r with cell := r.cell.write value } := by
  unfold write Cell.hasWrite
  rw [h]
  rfl

theorem write_eq_ok {r r' : Register τ} {value : τ} :
    r.write value = .ok r' ↔ r.Idle ∧ r' = { r with cell := r.cell.write value } := by
  unfold write Idle Cell.hasWrite
  cases r.cell.pending with
  | none => simp [eq_comm]
  | some waiting => simp

@[simp] theorem read_commit_write (r : Register τ) (value : τ) :
    ({ r with cell := r.cell.write value } : Register τ).commit.read = value := rfl

@[simp] theorem reset_new (name : ElementName) (start : τ) : (new name start).reset = new name start := rfl

@[simp] theorem reset_commit (r : Register τ) : r.commit.reset = r.reset := rfl

@[simp] theorem reset_reset (r : Register τ) : r.reset.reset = r.reset := rfl

/-- A write keeps what a reset restores. -/
theorem reset_of_write {r r' : Register τ} {value : τ} (h : r.write value = .ok r') : r'.reset = r.reset := by
  obtain ⟨-, rfl⟩ := write_eq_ok.mp h
  rfl

end Register

/-! ## Wires -/

namespace Wire

/-- Nothing drives the wire. -/
def Idle (w : Wire τ) : Prop := w.driven = none

theorem idle_new (name : ElementName) (idle : τ) : (new name idle).Idle := rfl

theorem idle_commit (w : Wire τ) : w.commit.Idle := rfl

theorem commit_of_idle {w : Wire τ} (h : w.Idle) : w.commit = w := by
  obtain ⟨name, idle, driven⟩ := w
  obtain rfl : driven = none := h
  rfl

theorem drive_eq_ok {w w' : Wire τ} {value : τ} :
    w.drive value = .ok w' ↔ w.Idle ∧ w' = { w with driven := some value } := by
  unfold drive Idle isLive
  cases w.driven with
  | none => simp [eq_comm]
  | some waiting => simp

@[simp] theorem reset_new (name : ElementName) (idle : τ) : (new name idle).reset = new name idle := rfl

@[simp] theorem reset_commit (w : Wire τ) : w.commit.reset = w.reset := rfl

@[simp] theorem reset_reset (w : Wire τ) : w.reset.reset = w.reset := rfl

/-- Driving a wire keeps what a reset restores. -/
theorem reset_of_drive {w w' : Wire τ} {value : τ} (h : w.drive value = .ok w') : w'.reset = w.reset := by
  obtain ⟨-, rfl⟩ := drive_eq_ok.mp h
  rfl

theorem drive_of_idle {w : Wire τ} (h : w.Idle) (value : τ) :
    w.drive value = .ok { w with driven := some value } := by
  unfold drive isLive
  rw [h]
  rfl

end Wire

/-! ## Register arrays -/

namespace RegisterArray

/-- No write waits for any element. -/
structure Idle (a : RegisterArray τ) : Prop where
  /-- no element is listed as written -/
  dirty : a.dirty = []
  /-- no element is written -/
  pending : ∀ {i : Nat} {c : Cell τ}, a.cells[i]? = some c → c.pending = none

theorem idle_new (name : ElementName) (size : Nat) (start : τ) : (new name size start).Idle where
  dirty := rfl
  pending := by
    intro i c hc
    unfold new at hc
    rw [Array.getElem?_replicate] at hc
    split at hc
    · rw [← Option.some.inj hc]
    · cases hc

theorem cell_eq_ok {a : RegisterArray τ} {i : Nat} {c : Cell τ} :
    a.cell i = .ok c ↔ a.cells[i]? = some c := by
  unfold cell
  cases a.cells[i]? with
  | none => simp
  | some c' => simp

theorem read_eq_ok {a : RegisterArray τ} {i : Nat} {v : τ} :
    a.read i = .ok v ↔ ∃ c, a.cells[i]? = some c ∧ c.value = v := by
  unfold read
  rw [map_eq_ok]
  simp only [cell_eq_ok]

theorem upcoming_eq_ok {a : RegisterArray τ} {i : Nat} {v : τ} :
    a.upcoming i = .ok v ↔ ∃ c, a.cells[i]? = some c ∧ c.next = v := by
  unfold upcoming
  rw [map_eq_ok]
  simp only [cell_eq_ok]

/-- The array with a write of an element that waits. -/
def written (a : RegisterArray τ) (i : Nat) (c : Cell τ) (value : τ) : RegisterArray τ :=
  { a with cells := a.cells.setIfInBounds i (c.write value), dirty := i :: a.dirty }

theorem write_eq_ok {a a' : RegisterArray τ} {i : Nat} {value : τ} : a.write i value = .ok a' ↔
    ∃ c, a.cells[i]? = some c ∧ c.pending = none ∧ a' = a.written i c value := by
  unfold write
  rw [bind_eq_ok]
  simp only [cell_eq_ok]
  refine exists_congr fun c => and_congr_right fun _ => ?_
  unfold Cell.hasWrite written
  cases c.pending with
  | none => simp [eq_comm]
  | some waiting => simp

theorem getElem?_written {a : RegisterArray τ} {i : Nat} {c : Cell τ} (hc : a.cells[i]? = some c)
    (value : τ) (j : Nat) : (a.written i c value).cells[j]? =
      if i = j then some (c.write value) else a.cells[j]? := by
  unfold written
  rw [Array.getElem?_setIfInBounds]
  obtain ⟨hlt, -⟩ := Array.getElem?_eq_some_iff.mp hc
  rw [if_pos hlt]

@[simp] theorem size_written (a : RegisterArray τ) (i : Nat) (c : Cell τ) (value : τ) :
    (a.written i c value).cells.size = a.cells.size := by
  simp [written]

@[simp] theorem reset_written (a : RegisterArray τ) (i : Nat) (c : Cell τ) (value : τ) :
    (a.written i c value).reset = a.reset := by
  unfold reset
  rw [size_written]
  rfl

@[simp] theorem reset_new (name : ElementName) (size : Nat) (start : τ) :
    (new name size start).reset = new name size start := by
  simp [reset, new]

/-- A write keeps what a reset restores. -/
theorem reset_of_write {a a' : RegisterArray τ} {i : Nat} {value : τ} (h : a.write i value = .ok a') :
    a'.reset = a.reset := by
  obtain ⟨c, -, -, rfl⟩ := write_eq_ok.mp h
  exact a.reset_written i c value

/-- A write keeps what reads see. -/
theorem values_of_write {a a' : RegisterArray τ} {i : Nat} {value : τ} (h : a.write i value = .ok a') :
    a'.values = a.values := by
  obtain ⟨c, hc, -, rfl⟩ := write_eq_ok.mp h
  refine List.ext_getElem? fun j => ?_
  unfold values
  rw [List.getElem?_map, List.getElem?_map, Array.getElem?_toList, Array.getElem?_toList, getElem?_written hc]
  by_cases hij : i = j
  · subst hij
    rw [if_pos rfl, hc]
    rfl
  · rw [if_neg hij]

/-- The array after some writes, one after the other. -/
inductive Writes (a : RegisterArray τ) : RegisterArray τ → Prop where
  /-- before the first write -/
  | refl : Writes a a
  /-- one more write -/
  | write {b c : RegisterArray τ} {i : Nat} {value : τ} (before : Writes a b)
    (done : b.write i value = .ok c) : Writes a c

namespace Writes

variable {a b c : RegisterArray τ}

theorem once {i : Nat} {value : τ} (h : a.write i value = .ok b) : a.Writes b := .write .refl h

theorem trans (h : a.Writes b) (h' : b.Writes c) : a.Writes c := by
  induction h' with
  | refl => exact h
  | write before done ih => exact .write ih done

theorem reset_eq (h : a.Writes b) : b.reset = a.reset := by
  induction h with
  | refl => rfl
  | write before done ih => exact (reset_of_write done).trans ih

theorem values_eq (h : a.Writes b) : b.values = a.values := by
  induction h with
  | refl => rfl
  | write before done ih => exact (values_of_write done).trans ih

end Writes

/-! ### The edge -/

theorem getElem?_foldr_commit (dirty : List Nat) (cells : Array (Cell τ)) (j : Nat) :
    (dirty.foldr (fun i cells => cells.modify i Cell.commit) cells)[j]? =
      if j ∈ dirty then cells[j]?.map Cell.commit else cells[j]? := by
  induction dirty with
  | nil => simp
  | cons i dirty ih =>
    rw [List.foldr_cons, Array.getElem?_modify, ih]
    by_cases hij : i = j
    · subst hij
      by_cases hmem : i ∈ dirty
      · simp [hmem, Function.comp_def]
      · simp [hmem]
    · simp [hij, Ne.symm hij]

/-- The edge commits the elements that are listed as written. -/
theorem getElem?_commit (a : RegisterArray τ) (j : Nat) : a.commit.cells[j]? =
    if j ∈ a.dirty then a.cells[j]?.map Cell.commit else a.cells[j]? :=
  getElem?_foldr_commit a.dirty a.cells j

@[simp] theorem size_commit (a : RegisterArray τ) : a.commit.cells.size = a.cells.size := by
  unfold commit
  simp only
  induction a.dirty with
  | nil => rfl
  | cons i dirty ih => rw [List.foldr_cons, Array.size_modify, ih]

@[simp] theorem reset_commit (a : RegisterArray τ) : a.commit.reset = a.reset := by
  unfold reset
  rw [size_commit]
  rfl

@[simp] theorem reset_reset (a : RegisterArray τ) : a.reset.reset = a.reset := by
  simp [reset, new]

/-- The elements with a write that waits are listed. -/
def Listed (a : RegisterArray τ) : Prop :=
  ∀ {i : Nat} {c : Cell τ}, a.cells[i]? = some c → i ∉ a.dirty → c.pending = none

theorem Idle.listed {a : RegisterArray τ} (h : a.Idle) : a.Listed := fun hc _ => h.pending hc

theorem Listed.written {a : RegisterArray τ} (h : a.Listed) {i : Nat} {c : Cell τ}
    (hc : a.cells[i]? = some c) (value : τ) : (a.written i c value).Listed := by
  intro j c' hc' hj
  rw [getElem?_written hc] at hc'
  split at hc'
  · rename_i hij
    exact absurd (hij ▸ List.mem_cons_self) hj
  · exact h hc' fun hmem => hj (List.mem_cons_of_mem _ hmem)

/-- The edge leaves nothing waiting. -/
theorem Listed.idle_commit {a : RegisterArray τ} (h : a.Listed) : a.commit.Idle where
  dirty := rfl
  pending := by
    intro j c hc
    rw [getElem?_commit] at hc
    split at hc
    · obtain ⟨c', -, rfl⟩ := Option.map_eq_some_iff.mp hc
      rfl
    · rename_i hj
      exact h hc hj

/-- The edge commits every element, if all that are written are listed. -/
theorem Listed.getElem?_commit {a : RegisterArray τ} (h : a.Listed) (j : Nat) :
    a.commit.cells[j]? = a.cells[j]?.map Cell.commit := by
  rw [RegisterArray.getElem?_commit]
  split
  · rfl
  · rename_i hj
    cases hc : a.cells[j]? with
    | none => rfl
    | some c =>
      have hpending := h hc hj
      rw [Option.map_some, Cell.commit_of_not_hasWrite (by rw [Cell.hasWrite, hpending]; rfl)]

theorem Idle.commit_eq {a : RegisterArray τ} (h : a.Idle) : a.commit = a := by
  obtain ⟨name, start, cells, dirty⟩ := a
  obtain rfl : dirty = [] := h.dirty
  rfl

/-- The array with a write of an element that waits, if there is such an element. -/
def withWrite (a : RegisterArray τ) (i : Nat) (value : τ) : RegisterArray τ :=
  match a.cells[i]? with
  | some c => a.written i c value
  | none => a

theorem Idle.write_eq {a : RegisterArray τ} (h : a.Idle) {i : Nat} (hi : i < a.cells.size)
    (value : τ) : a.write i value = .ok (a.withWrite i value) := by
  have hc : a.cells[i]? = some a.cells[i] := Array.getElem?_eq_getElem hi
  refine write_eq_ok.mpr ⟨a.cells[i], hc, h.pending hc, ?_⟩
  rw [withWrite, hc]

@[simp] theorem size_withWrite (a : RegisterArray τ) (i : Nat) (value : τ) :
    (a.withWrite i value).cells.size = a.cells.size := by
  unfold withWrite
  cases a.cells[i]? with
  | none => rfl
  | some c => exact size_written a i c value

theorem getElem?_withWrite (a : RegisterArray τ) (i : Nat) (value : τ) (j : Nat) :
    (a.withWrite i value).cells[j]? =
      if i = j then a.cells[j]?.map fun c => c.write value else a.cells[j]? := by
  cases hc : a.cells[i]? with
  | none =>
    have hsame : a.withWrite i value = a := by rw [withWrite, hc]
    by_cases hij : i = j
    · rw [hsame, if_pos hij, ← hij, hc, Option.map_none]
    · rw [hsame, if_neg hij]
  | some c =>
    have hwritten : a.withWrite i value = a.written i c value := by rw [withWrite, hc]
    rw [hwritten, getElem?_written hc]
    by_cases hij : i = j
    · rw [if_pos hij, if_pos hij, ← hij, hc, Option.map_some]
    · rw [if_neg hij, if_neg hij]

theorem Listed.withWrite {a : RegisterArray τ} (h : a.Listed) (i : Nat) (value : τ) :
    (a.withWrite i value).Listed := by
  cases hc : a.cells[i]? with
  | none =>
    rw [RegisterArray.withWrite, hc]
    exact h
  | some c =>
    rw [RegisterArray.withWrite, hc]
    exact h.written hc value

/-- After the edge the element that was written holds the new value and all others are as before. -/
theorem Idle.getElem?_commit_withWrite {a : RegisterArray τ} (h : a.Idle) (i : Nat) (value : τ)
    (j : Nat) : (a.withWrite i value).commit.cells[j]? =
      if i = j then a.cells[j]?.map fun _ => ⟨value, none⟩ else a.cells[j]? := by
  have hlisted : a.Listed := h.listed
  have hwritten : (a.withWrite i value).Listed := hlisted.withWrite i value
  rw [hwritten.getElem?_commit, getElem?_withWrite]
  by_cases hij : i = j
  · rw [if_pos hij, if_pos hij, Option.map_map]
    rfl
  · have hkept : a.cells[j]?.map Cell.commit = a.cells[j]? := by
      rw [← hlisted.getElem?_commit, h.commit_eq]
    rw [if_neg hij, if_neg hij, hkept]

/-! ### Several writes

A cycle writes several elements of an array before the edge.  As long as they are different ones, every
write succeeds, and the edge makes them all visible. -/

/-- The committed value of an element. -/
def value? (a : RegisterArray τ) (i : Nat) : Option τ := (a.cells[i]?).map Cell.value

theorem value?_eq_none {a : RegisterArray τ} {i : Nat} : a.value? i = none ↔ a.cells.size ≤ i := by
  rw [value?, Option.map_eq_none_iff, Array.getElem?_eq_none_iff]

theorem exists_value? {a : RegisterArray τ} {i : Nat} (hi : i < a.cells.size) :
    ∃ v, a.value? i = some v := by
  rw [← Option.isSome_iff_exists, Option.isSome_iff_ne_none, ne_eq, value?_eq_none]
  omega

theorem lt_size_of_value? {a : RegisterArray τ} {i : Nat} {v : τ} (h : a.value? i = some v) :
    i < a.cells.size := by
  by_contra hi
  rw [value?_eq_none.mpr (Nat.le_of_not_lt hi)] at h
  cases h

theorem read_eq_ok_iff {a : RegisterArray τ} {i : Nat} {v : τ} :
    a.read i = .ok v ↔ a.value? i = some v := by
  rw [read_eq_ok, value?, Option.map_eq_some_iff]

theorem value?_new {name : ElementName} {size : Nat} {start v : τ} {i : Nat}
    (h : (new name size start).value? i = some v) : v = start := by
  unfold value? new at h
  rw [Array.getElem?_replicate] at h
  split at h
  · exact (Option.some.inj h).symm
  · cases h

/-- The array is an idle one with the given writes waiting, at most one for each element. -/
structure Carries (base : RegisterArray τ) (writes : Nat → Option τ) (a : RegisterArray τ) : Prop where
  /-- the elements with their writes -/
  cells : ∀ i, a.cells[i]? = (base.cells[i]?).map fun c => Cell.mk c.value (writes i)
  /-- the elements with a write that waits are listed -/
  listed : a.Listed

theorem Idle.carries {a : RegisterArray τ} (h : a.Idle) : Carries a (fun _ => none) a where
  cells := by
    intro i
    cases hc : a.cells[i]? with
    | none => rfl
    | some c =>
      obtain ⟨value, pending⟩ := c
      obtain rfl : pending = none := h.pending hc
      rfl
  listed := h.listed

namespace Carries

variable {base a : RegisterArray τ} {writes : Nat → Option τ}

theorem value?_eq (h : Carries base writes a) : a.value? = base.value? := by
  funext i
  rw [value?, value?, h.cells, Option.map_map]
  rfl

theorem size_eq (h : Carries base writes a) : a.cells.size = base.cells.size := by
  refine Nat.le_antisymm ?_ ?_
  · exact value?_eq_none.mp (h.value?_eq ▸ value?_eq_none.mpr (Nat.le_refl _))
  · exact value?_eq_none.mp (h.value?_eq ▸ value?_eq_none.mpr (Nat.le_refl _))

/-- An element without a write can be written. -/
theorem write (h : Carries base writes a) {i : Nat} (hi : i < base.cells.size)
    (hfree : writes i = none) (value : τ) : ∃ a', a.write i value = .ok a' ∧
      Carries base (Function.update writes i (some value)) a' := by
  have hbase : base.cells[i]? = some base.cells[i] := Array.getElem?_eq_getElem hi
  have hc : a.cells[i]? = some ⟨base.cells[i].value, none⟩ := by
    rw [h.cells, hbase, ← hfree]
    rfl
  refine ⟨_, write_eq_ok.mpr ⟨_, hc, rfl, rfl⟩, ?_, Listed.written h.listed hc value⟩
  intro j
  rw [getElem?_written hc]
  by_cases hij : i = j
  · subst hij
    rw [if_pos rfl, hbase, Function.update_self]
    rfl
  · rw [if_neg hij, h.cells, Function.update_of_ne (Ne.symm hij)]

/-- The edge makes the writes visible. -/
theorem value?_commit (h : Carries base writes a) (i : Nat) :
    a.commit.value? i = (base.value? i).map fun v => (writes i).getD v := by
  rw [value?, Listed.getElem?_commit h.listed, h.cells, value?, Option.map_map, Option.map_map, Option.map_map]
  rfl

theorem idle_commit (h : Carries base writes a) : a.commit.Idle := Listed.idle_commit h.listed

theorem size_commit_eq (h : Carries base writes a) : a.commit.cells.size = base.cells.size := by
  rw [size_commit, h.size_eq]

end Carries

end RegisterArray

end GuardedActions
