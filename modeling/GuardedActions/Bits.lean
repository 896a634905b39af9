/-!
# Bit values

A value of a field is a bit vector together with its width.  Values are fitted to a width by
dropping high bits or by filling with zeros; a width of zero is shown as the one-bit zero, so that
every value that leaves this module has at least one bit.
-/

set_option autoImplicit false

namespace GuardedActions

/-- An unsigned number of a fixed number of bits. -/
structure Bits where
  /-- number of bits -/
  width : Nat
  /-- the bits themselves -/
  value : BitVec width
  deriving DecidableEq, Repr

namespace Bits

instance : Inhabited Bits := ⟨⟨1, 0#1⟩⟩

/-- The number that the bits denote. -/
def toNat (b : Bits) : Nat := b.value.toNat

/-- The low `width` bits of a number. -/
def ofNat (width n : Nat) : Bits := ⟨width, BitVec.ofNat width n⟩

/-- The low 64 bits of a number as a machine word. -/
def toWord (b : Bits) : UInt64 := UInt64.ofNat b.toNat

/-- Cut or zero-extend to `width` bits; the empty width gives the one-bit zero. -/
def fit (width : Nat) (b : Bits) : Bits :=
  if width = 0 then ⟨1, 0#1⟩ else ⟨width, b.value.setWidth width⟩

/-- A machine word fitted to `width` bits. -/
def ofWord (width : Nat) (word : UInt64) : Bits := fit width (ofNat 64 word.toNat)

/-- The `width` bits that start at bit `offset`. -/
def slice (offset width : Nat) (b : Bits) : Bits := ⟨width, b.value.extractLsb' offset width⟩

/-- `high` placed above `low`. -/
def join (high low : Bits) : Bits := ⟨high.width + low.width, high.value ++ low.value⟩

/-- Bit `i`, false beyond the width. -/
def test (b : Bits) (i : Nat) : Bool := b.value.getLsbD i

/-- Sum modulo two to the width of the left operand. -/
def add (a b : Bits) : Bits := ⟨a.width, a.value + b.value.setWidth a.width⟩

/-- Drop the low `n` bits, keeping the width. -/
def shiftRight (b : Bits) (n : Nat) : Bits := ⟨b.width, b.value >>> n⟩

/-- Replace the bits from `offset` on by those of `part`, as far as `part` reaches. -/
def overwrite (b : Bits) (offset : Nat) (part : Bits) : Bits :=
  ⟨b.width,
    (b.value &&& ~~~((BitVec.allOnes part.width).setWidth b.width <<< offset)) |||
      (part.value.setWidth b.width <<< offset)⟩

/-- Decimal digits of the number. -/
def text (b : Bits) : String := toString b.toNat

/-- The fewest bits that tell `count` things apart. -/
def needed (count : Nat) : Nat := if count ≤ 1 then 0 else (count - 1).log2 + 1

@[simp] theorem width_ofNat (width n : Nat) : (ofNat width n).width = width := rfl

@[simp] theorem toNat_ofNat (width n : Nat) : (ofNat width n).toNat = n % Nat.pow 2 width := by
  simp [toNat, ofNat]

theorem fit_zero (b : Bits) : fit 0 b = ⟨1, 0#1⟩ := by simp [fit]

@[simp] theorem width_fit_of_pos {width : Nat} (h : 0 < width) (b : Bits) :
    (fit width b).width = width := by
  simp [fit, Nat.pos_iff_ne_zero.mp h]

theorem fit_width {b : Bits} (h : 0 < b.width) : fit b.width b = b := by
  rw [fit, if_neg (Nat.pos_iff_ne_zero.mp h), BitVec.setWidth_eq]

theorem toNat_lt (b : Bits) : b.toNat < Nat.pow 2 b.width := b.value.isLt

@[simp] theorem width_slice (offset width : Nat) (b : Bits) : (slice offset width b).width = width :=
  rfl

@[simp] theorem width_join (high low : Bits) : (join high low).width = high.width + low.width := rfl

/-- Two values are equal when they have the same width and denote the same number. -/
theorem ext_toNat {a b : Bits} (hw : a.width = b.width) (hn : a.toNat = b.toNat) : a = b := by
  obtain ⟨wa, va⟩ := a
  obtain ⟨wb, vb⟩ := b
  simp only at hw
  subst hw
  exact congrArg _ (BitVec.eq_of_toNat_eq hn)

end Bits

end GuardedActions
