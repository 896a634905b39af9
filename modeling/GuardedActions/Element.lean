import GuardedActions.Fault

/-!
# State elements

Registers are double-buffered: a read shows the value of the last clock edge, a write is kept aside
until the next one.  Wires hold a value for the current cycle only.  Between two edges every register,
every element of a register array and every wire takes at most one write.
-/

set_option autoImplicit false

namespace GuardedActions

/-- Which component an element belongs to, and what it is called there. -/
structure ElementName where
  /-- name of the component -/
  owner : String
  /-- name of the element -/
  element : String
  deriving DecidableEq, Repr, Inhabited

namespace ElementName

/-- The name with the owner in front. -/
def text (n : ElementName) : String := n.owner ++ "." ++ n.element

/-- The fault of a second write. -/
def secondWrite (n : ElementName) (target : WriteTarget) : Fault :=
  .secondWrite target n.owner n.element

end ElementName

/-! ## One double-buffered value -/

/-- A committed value with the write that waits for the next edge, if there is one. -/
structure Cell (τ : Type) where
  /-- value of the last edge -/
  value : τ
  /-- value written since then -/
  pending : Option τ := none
  deriving DecidableEq, Repr, Inhabited

namespace Cell

variable {τ : Type}

/-- Whether a write waits. -/
def hasWrite (c : Cell τ) : Bool := c.pending.isSome

/-- The value that the next edge makes visible. -/
def next (c : Cell τ) : τ := c.pending.getD c.value

/-- Let a write wait. -/
def write (c : Cell τ) (value : τ) : Cell τ := { c with pending := some value }

/-- The edge. -/
def commit (c : Cell τ) : Cell τ := ⟨c.next, none⟩

@[simp] theorem value_commit (c : Cell τ) : c.commit.value = c.next := rfl

@[simp] theorem pending_commit (c : Cell τ) : c.commit.pending = none := rfl

@[simp] theorem value_write (c : Cell τ) (v : τ) : (c.write v).value = c.value := rfl

@[simp] theorem next_write (c : Cell τ) (v : τ) : (c.write v).next = v := rfl

theorem commit_of_not_hasWrite {c : Cell τ} (h : c.hasWrite = false) : c.commit = c := by
  obtain ⟨v, p⟩ := c
  cases p with
  | none => rfl
  | some w => simp [hasWrite] at h

end Cell

/-! ## Registers -/

/-- A single register. -/
structure Register (τ : Type) where
  /-- name used in messages -/
  name : ElementName
  /-- value after a reset -/
  start : τ
  /-- current contents -/
  cell : Cell τ
  deriving Repr, Inhabited

namespace Register

variable {τ : Type}

/-- A register that holds its start value. -/
def new (name : ElementName) (start : τ) : Register τ := ⟨name, start, ⟨start, none⟩⟩

/-- The value of the last edge. -/
def read (r : Register τ) : τ := r.cell.value

/-- Whether a write waits for the next edge. -/
def hasWrite (r : Register τ) : Bool := r.cell.hasWrite

/-- The value that the next edge makes visible. -/
def upcoming (r : Register τ) : τ := r.cell.next

/-- Write, once per cycle. -/
def write (r : Register τ) (value : τ) : Except Fault (Register τ) :=
  if r.cell.hasWrite then .error (r.name.secondWrite .register)
  else .ok { r with cell := r.cell.write value }

/-- The clock edge. -/
def commit (r : Register τ) : Register τ := { r with cell := r.cell.commit }

/-- Back to the start value. -/
def reset (r : Register τ) : Register τ := new r.name r.start

end Register

/-! ## Register arrays -/

/-- Registers addressed by index, with the indices written since the last edge. -/
structure RegisterArray (τ : Type) where
  /-- name used in messages -/
  name : ElementName
  /-- value of every element after a reset -/
  start : τ
  /-- current contents -/
  cells : Array (Cell τ)
  /-- indices with a write that waits, latest first -/
  dirty : List Nat := []
  deriving Repr, Inhabited

namespace RegisterArray

variable {τ : Type}

/-- An array whose elements hold the start value. -/
def new (name : ElementName) (size : Nat) (start : τ) : RegisterArray τ :=
  ⟨name, start, Array.replicate size ⟨start, none⟩, []⟩

/-- Number of elements. -/
def size (a : RegisterArray τ) : Nat := a.cells.size

/-- The element at an index. -/
def cell (a : RegisterArray τ) (index : Nat) : Except Fault (Cell τ) :=
  match a.cells[index]? with
  | some c => .ok c
  | none => .error (.indexOutOfRange index a.name.element)

/-- The value of the last edge. -/
def read (a : RegisterArray τ) (index : Nat) : Except Fault τ := (a.cell index).map Cell.value

/-- Whether a write waits for the next edge. -/
def hasWrite (a : RegisterArray τ) (index : Nat) : Except Fault Bool :=
  (a.cell index).map Cell.hasWrite

/-- The value that the next edge makes visible. -/
def upcoming (a : RegisterArray τ) (index : Nat) : Except Fault τ := (a.cell index).map Cell.next

/-- Write an element, once per cycle. -/
def write (a : RegisterArray τ) (index : Nat) (value : τ) : Except Fault (RegisterArray τ) := do
  let c ← a.cell index
  if c.hasWrite then .error (a.name.secondWrite (.arrayElement index))
  else
    .ok { a with cells := a.cells.setIfInBounds index (c.write value), dirty := index :: a.dirty }

/-- The clock edge, which visits only the elements that were written. -/
def commit (a : RegisterArray τ) : RegisterArray τ :=
  { a with
    cells := a.dirty.foldr (fun index cells => cells.modify index Cell.commit) a.cells
    dirty := [] }

/-- The clock edge, which visits every element. -/
def commitAll (a : RegisterArray τ) : RegisterArray τ :=
  { a with cells := a.cells.map Cell.commit, dirty := [] }

/-- Back to the start value everywhere. -/
def reset (a : RegisterArray τ) : RegisterArray τ := new a.name a.cells.size a.start

/-- The committed values in order. -/
def values (a : RegisterArray τ) : List τ := a.cells.toList.map Cell.value

@[simp] theorem size_new (name : ElementName) (n : Nat) (start : τ) : (new name n start).size = n := by
  simp [new, size]

end RegisterArray

/-! ## Wires -/

/-- A signal that lasts for one cycle. -/
structure Wire (τ : Type) where
  /-- name used in messages -/
  name : ElementName
  /-- value while nothing drives the wire -/
  idle : τ
  /-- value driven in this cycle -/
  driven : Option τ := none
  deriving Repr, Inhabited

namespace Wire

variable {τ : Type}

/-- A wire that nothing drives. -/
def new (name : ElementName) (idle : τ) : Wire τ := ⟨name, idle, none⟩

/-- The driven value, or the idle one. -/
def get (w : Wire τ) : τ := w.driven.getD w.idle

/-- Whether something drives the wire. -/
def isLive (w : Wire τ) : Bool := w.driven.isSome

/-- Drive the wire, once per cycle. -/
def drive (w : Wire τ) (value : τ) : Except Fault (Wire τ) :=
  if w.isLive then .error (w.name.secondWrite .wire)
  else .ok { w with driven := some value }

/-- The clock edge. -/
def commit (w : Wire τ) : Wire τ := { w with driven := none }

/-- Back to the idle value. -/
def reset (w : Wire τ) : Wire τ := w.commit

end Wire

end GuardedActions
