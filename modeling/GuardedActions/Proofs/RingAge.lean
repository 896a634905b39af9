import GuardedActions.Proofs.OldestReady
import Mathlib.Data.Nat.ModEq
import Mathlib.Order.RelIso.Basic

/-!
# Ages on a ring of ids

The ids of the reorder buffer go round at a power of two, and the start of the buffer is a 64-bit number
that goes round at its own size.  The age of an id is its distance from the start, and one id precedes
another if it is closer.  `precedes_by_offset` says that this is the order of the offsets from the start,
that only the low bits of the start matter, and that it stays the same while the start does not pass
either id.
-/

set_option autoImplicit false

namespace GuardedActions

namespace Station

/-- The id that is some places behind the start of the reorder buffer. -/
def idAt (robWidth : Nat) (start : UInt64) (offset : Nat) : UInt64 :=
  UInt64.ofNat ((start.toNat + offset) % 2 ^ robWidth)

variable {robWidth : Nat}

/-- A round of the 64-bit start is a number of rounds of the ids. -/
theorem two_pow_dvd_word (hwidth : robWidth < 64) : 2 ^ robWidth ∣ 2 ^ 64 :=
  Nat.pow_dvd_pow 2 (Nat.le_of_lt hwidth)

theorem age_lt (start id : UInt64) : age robWidth start id < 2 ^ robWidth :=
  Nat.mod_lt _ (Nat.two_pow_pos robWidth)

theorem precedes_iff_age (hwidth : robWidth < 64) (start first second : UInt64) :
    precedes robWidth start first second = true ↔
      age robWidth start first < age robWidth start second :=
  (precedes_iff hwidth start first second).trans older_iff_age_lt

/-- From the start it is as far to an id as its age says. -/
theorem start_add_age (hwidth : robWidth < 64) (start id : UInt64) :
    start.toNat + age robWidth start id ≡ id.toNat [MOD 2 ^ robWidth] := by
  have hage : age robWidth start id ≡ 2 ^ 64 - start.toNat + id.toNat [MOD 2 ^ robWidth] := by
    rw [age, UInt64.toNat_sub]
    exact (Nat.mod_modEq _ _).trans ((Nat.mod_modEq _ _).of_dvd (two_pow_dvd_word hwidth))
  have hround : start.toNat + (2 ^ 64 - start.toNat + id.toNat) = 2 ^ 64 + id.toNat := by
    have hlt := start.toNat_lt
    omega
  calc start.toNat + age robWidth start id
      ≡ start.toNat + (2 ^ 64 - start.toNat + id.toNat) [MOD 2 ^ robWidth] := hage.add_left _
    _ = 2 ^ 64 + id.toNat := hround
    _ ≡ 0 + id.toNat [MOD 2 ^ robWidth] :=
      ((Nat.modEq_zero_iff_dvd.mpr (two_pow_dvd_word hwidth)).add_right _)
    _ = id.toNat := Nat.zero_add _

/-- The age is the only distance on the ring that leads from the start to the id. -/
theorem age_eq_of_modEq (hwidth : robWidth < 64) {start id : UInt64} {offset : Nat}
    (hoffset : offset < 2 ^ robWidth) (h : start.toNat + offset ≡ id.toNat [MOD 2 ^ robWidth]) :
    age robWidth start id = offset := by
  have hage : age robWidth start id ≡ offset [MOD 2 ^ robWidth] :=
    ((start_add_age hwidth start id).trans h.symm).add_left_cancel' start.toNat
  exact hage.eq_of_lt_of_lt (age_lt start id) hoffset

theorem toNat_idAt (hwidth : robWidth < 64) (start : UInt64) (offset : Nat) :
    (idAt robWidth start offset).toNat = (start.toNat + offset) % 2 ^ robWidth :=
  UInt64.toNat_ofNat_of_lt <|
    (Nat.mod_lt _ (Nat.two_pow_pos robWidth)).trans (Nat.pow_lt_pow_right Nat.one_lt_two hwidth)

/-- Going on from the start by the offset of an id leads to the id. -/
theorem start_add_offset (hwidth : robWidth < 64) (start : UInt64) (offset : Nat) :
    start.toNat + offset ≡ (idAt robWidth start offset).toNat [MOD 2 ^ robWidth] := by
  rw [toNat_idAt hwidth]
  exact (Nat.mod_modEq _ _).symm

theorem age_idAt (hwidth : robWidth < 64) (start : UInt64) {offset : Nat}
    (hoffset : offset < 2 ^ robWidth) : age robWidth start (idAt robWidth start offset) = offset :=
  age_eq_of_modEq hwidth hoffset (start_add_offset hwidth start offset)

/-- Two ids of the same age are the same. -/
theorem age_injective (hwidth : robWidth < 64) (start : UInt64) {first second : UInt64}
    (hfirst : first.toNat < 2 ^ robWidth) (hsecond : second.toNat < 2 ^ robWidth)
    (h : age robWidth start first = age robWidth start second) : first = second := by
  have hmod : first.toNat ≡ second.toNat [MOD 2 ^ robWidth] :=
    (start_add_age hwidth start first).symm.trans (h ▸ start_add_age hwidth start second)
  exact UInt64.toNat_inj.mp (hmod.eq_of_lt_of_lt hfirst hsecond)

/-- Only the low bits of the start matter. -/
theorem age_congr (hwidth : robWidth < 64) {start start' : UInt64}
    (h : start.toNat % 2 ^ robWidth = start'.toNat % 2 ^ robWidth) (id : UInt64) :
    age robWidth start id = age robWidth start' id := by
  have hstart : start.toNat ≡ start'.toNat [MOD 2 ^ robWidth] := h
  exact age_eq_of_modEq hwidth (age_lt start' id)
    ((hstart.add_right _).trans (start_add_age hwidth start' id))

/-- When the start advances, an id that it does not pass gets as much closer. -/
theorem age_advance (hwidth : robWidth < 64) (start : UInt64) {offset steps : Nat}
    (hoffset : offset < 2 ^ robWidth) (hsteps : steps ≤ offset) :
    age robWidth (start + UInt64.ofNat steps) (idAt robWidth start offset) = offset - steps := by
  have hsum : (start + UInt64.ofNat steps).toNat ≡ start.toNat + steps [MOD 2 ^ robWidth] := by
    rw [UInt64.toNat_add, UInt64.toNat_ofNat', Nat.add_mod_mod]
    exact (Nat.mod_modEq _ _).of_dvd (two_pow_dvd_word hwidth)
  have hback : start.toNat + steps + (offset - steps) = start.toNat + offset := by omega
  refine age_eq_of_modEq hwidth (Nat.lt_of_le_of_lt (Nat.sub_le _ _) hoffset) ?_
  calc (start + UInt64.ofNat steps).toNat + (offset - steps)
      ≡ start.toNat + steps + (offset - steps) [MOD 2 ^ robWidth] := hsum.add_right _
    _ = start.toNat + offset := hback
    _ ≡ (idAt robWidth start offset).toNat [MOD 2 ^ robWidth] := start_add_offset hwidth start offset

/-- The ids that a reorder buffer of a given width uses. -/
def RobId (robWidth : Nat) : Type := { id : UInt64 // id.toNat < 2 ^ robWidth }

/-- Precedence embeds into the order of the ages. -/
def byAge (hwidth : robWidth < 64) (start : UInt64) :
    (fun first second : RobId robWidth => precedes robWidth start first.1 second.1 = true) ↪r
      ((· < ·) : Nat → Nat → Prop) where
  toFun id := age robWidth start id.1
  inj' first second h := Subtype.ext (age_injective hwidth start first.2 second.2 h)
  map_rel_iff' := (precedes_iff_age hwidth start _ _).symm

theorem isStrictTotalOrder_precedes (hwidth : robWidth < 64) (start : UInt64) :
    IsStrictTotalOrder (RobId robWidth) fun first second =>
      precedes robWidth start first.1 second.1 = true :=
  (byAge hwidth start).isStrictTotalOrder

/-- Counted from any 64-bit start, the id at one offset precedes the id at another if and only if the
offset is smaller.  So for a fixed start precedence is a strict total order on the ids; it depends on the
start only as far as the ids go; and it stays the same when the start advances without passing either
id. -/
theorem precedes_by_offset (hwidth : 0 < robWidth ∧ robWidth < 64) :
    (∀ (start : UInt64) {i j : Nat}, i < 2 ^ robWidth → j < 2 ^ robWidth →
      (precedes robWidth start (idAt robWidth start i) (idAt robWidth start j) = true ↔ i < j)) ∧
    (∀ start : UInt64, IsStrictTotalOrder (RobId robWidth) fun first second =>
      precedes robWidth start first.1 second.1 = true) ∧
    (∀ {start start' : UInt64}, start.toNat % 2 ^ robWidth = start'.toNat % 2 ^ robWidth →
      ∀ first second, precedes robWidth start first second = precedes robWidth start' first second) ∧
    ∀ (start : UInt64) {i j steps : Nat}, i < 2 ^ robWidth → j < 2 ^ robWidth → steps ≤ min i j →
      precedes robWidth (start + UInt64.ofNat steps) (idAt robWidth start i) (idAt robWidth start j) =
        precedes robWidth start (idAt robWidth start i) (idAt robWidth start j) := by
  obtain ⟨-, hlt⟩ := hwidth
  refine ⟨?_, isStrictTotalOrder_precedes hlt, ?_, ?_⟩
  · intro start i j hi hj
    rw [precedes_iff_age hlt, age_idAt hlt start hi, age_idAt hlt start hj]
  · intro start start' h first second
    rw [Bool.eq_iff_iff, precedes_iff_age hlt, precedes_iff_age hlt, age_congr hlt h, age_congr hlt h]
  · intro start i j steps hi hj hsteps
    obtain ⟨hstepsI, hstepsJ⟩ := Nat.le_min.mp hsteps
    rw [Bool.eq_iff_iff, precedes_iff_age hlt, precedes_iff_age hlt, age_idAt hlt start hi,
      age_idAt hlt start hj, age_advance hlt start hi hstepsI, age_advance hlt start hj hstepsJ]
    omega

/-- From a start that is about to go round at 64 bits, the id 31 precedes the id 1; it still does when the
start has come to 31, and when only the low bits of the start are given. -/
theorem precedes_across_round : (0 < 5 ∧ 5 < 64) ∧
    idAt 5 0xFFFFFFFFFFFFFFFE 1 = 31 ∧ idAt 5 0xFFFFFFFFFFFFFFFE 3 = 1 ∧
    precedes 5 0xFFFFFFFFFFFFFFFE 31 1 = true ∧ precedes 5 0xFFFFFFFFFFFFFFFE 1 31 = false ∧
    precedes 5 0xFFFFFFFFFFFFFFFF 31 1 = true ∧ precedes 5 31 31 1 = true := by
  obtain ⟨horder, -, hlow, hadvance⟩ := @precedes_by_offset 5 (by decide)
  have holder : precedes 5 0xFFFFFFFFFFFFFFFE 31 1 = true :=
    (@horder 0xFFFFFFFFFFFFFFFE 1 3 (by decide) (by decide)).mpr (by decide)
  have hyounger : ¬ precedes 5 0xFFFFFFFFFFFFFFFE 1 31 = true := fun h =>
    absurd ((@horder 0xFFFFFFFFFFFFFFFE 3 1 (by decide) (by decide)).mp h) (by decide)
  have hlater : precedes 5 0xFFFFFFFFFFFFFFFF 31 1 = true :=
    (@hadvance 0xFFFFFFFFFFFFFFFE 1 3 1 (by decide) (by decide) (by decide)).trans holder
  have hreduced : precedes 5 31 31 1 = true :=
    (@hlow 31 0xFFFFFFFFFFFFFFFF (by decide) 31 1).trans hlater
  exact ⟨by decide, rfl, rfl, holder, Bool.eq_false_iff.mpr hyounger, hlater, hreduced⟩

end Station

end GuardedActions
