/-!
# Masks

A mask marks some of the numbers below its size.  Tests outside the size are false and changes
outside it do nothing, so that a mask of the wrong size is harmless.
-/

set_option autoImplicit false

namespace GuardedActions

/-- A set of numbers below a fixed size. -/
structure Mask where
  /-- entry `i` tells whether `i` is a member -/
  bits : List Bool
  deriving DecidableEq, Repr, Inhabited

namespace Mask

/-- No members. -/
def none (size : Nat) : Mask := ⟨List.replicate size false⟩

/-- The members of `0, …, size - 1` that satisfy a test. -/
def ofTest (size : Nat) (test : Nat → Bool) : Mask := ⟨(List.range size).map test⟩

/-- One more than the largest possible member. -/
def size (m : Mask) : Nat := m.bits.length

/-- Membership, false outside the size. -/
def test (m : Mask) (i : Nat) : Bool := m.bits[i]?.getD false

/-- Make `i` a member or not; nothing happens outside the size. -/
def put (m : Mask) (i : Nat) (member : Bool) : Mask := ⟨m.bits.set i member⟩

/-- Add a member. -/
def insert (m : Mask) (i : Nat) : Mask := m.put i true

/-- The members in increasing order. -/
def members (m : Mask) : List Nat := (List.range m.size).filter m.test

/-- Number of members. -/
def count (m : Mask) : Nat := m.members.length

/-- The numbers below the size that are no members. -/
def complement (m : Mask) : Mask := ⟨m.bits.map (!·)⟩

/-- The members of `m` that are not in `other`. -/
def without (m other : Mask) : Mask := ofTest m.size fun i => m.test i && !other.test i

/-- The lowest member. -/
def lowest? (m : Mask) : Option Nat := m.members.head?

/-- The lowest member that is not below a number. -/
def next? (m : Mask) (start : Nat) : Option Nat :=
  (List.range' start (m.size - start)).find? m.test

@[simp] theorem size_none (n : Nat) : (none n).size = n := by simp [none, size]

@[simp] theorem size_put (m : Mask) (i : Nat) (b : Bool) : (m.put i b).size = m.size := by
  simp [put, size]

@[simp] theorem size_insert (m : Mask) (i : Nat) : (m.insert i).size = m.size := by simp [insert]

@[simp] theorem size_ofTest (n : Nat) (f : Nat → Bool) : (ofTest n f).size = n := by
  simp [ofTest, size]

@[simp] theorem test_none (n i : Nat) : (none n).test i = false := by
  simp only [test, none]
  by_cases h : i < n
  · simp [h]
  · simp [Nat.le_of_not_lt h]

@[simp] theorem test_ofTest (n : Nat) (f : Nat → Bool) (i : Nat) :
    (ofTest n f).test i = (decide (i < n) && f i) := by
  simp only [test, ofTest]
  by_cases h : i < n
  · simp [h]
  · simp [h]

theorem test_put (m : Mask) (i j : Nat) (b : Bool) :
    (m.put i b).test j = if i = j ∧ i < m.size then b else m.test j := by
  simp only [test, put, size, List.getElem?_set]
  by_cases h : i = j
  · subst h
    by_cases hs : i < m.bits.length
    · simp [hs]
    · simp [hs]
  · simp [h]

theorem test_insert (m : Mask) (i j : Nat) :
    (m.insert i).test j = (decide (i = j ∧ i < m.size) || m.test j) := by
  rw [insert, test_put]
  by_cases h : i = j ∧ i < m.size <;> simp [h]

theorem test_insert_iff {m : Mask} {i j : Nat} (h : i < m.size) :
    (m.insert i).test j = true ↔ m.test j = true ∨ j = i := by
  rw [test_insert, Bool.or_eq_true, decide_eq_true_iff]
  constructor
  · rintro (⟨rfl, -⟩ | hj)
    · exact Or.inr rfl
    · exact Or.inl hj
  · rintro (hj | rfl)
    · exact Or.inr hj
    · exact Or.inl ⟨rfl, h⟩

/-- A mask with one bit. -/
theorem test_single {size i j : Nat} (h : i < size) : ((none size).insert i).test j = true ↔ j = i := by
  rw [test_insert_iff (by rw [size_none]; exact h), test_none]
  simp

theorem test_insert_self {m : Mask} {i : Nat} (h : i < m.size) : (m.insert i).test i = true :=
  (test_insert_iff h).mpr (Or.inr rfl)

@[simp] theorem size_foldl_insert (l : List Nat) (m : Mask) : (l.foldl insert m).size = m.size := by
  induction l generalizing m with
  | nil => rfl
  | cons i l ih => rw [List.foldl_cons, ih, size_insert]

theorem test_foldl_insert {l : List Nat} {m : Mask} {j : Nat} :
    (l.foldl insert m).test j = true ↔ m.test j = true ∨ (j ∈ l ∧ j < m.size) := by
  induction l generalizing m with
  | nil => simp
  | cons i l ih =>
    rw [List.foldl_cons, ih, test_insert, size_insert, Bool.or_eq_true, decide_eq_true_iff,
      List.mem_cons]
    constructor
    · rintro ((⟨rfl, hlt⟩ | hj) | ⟨hj, hlt⟩)
      · exact Or.inr ⟨Or.inl rfl, hlt⟩
      · exact Or.inl hj
      · exact Or.inr ⟨Or.inr hj, hlt⟩
    · rintro (hj | ⟨rfl | hj, hlt⟩)
      · exact Or.inl (Or.inr hj)
      · exact Or.inl (Or.inl ⟨rfl, hlt⟩)
      · exact Or.inr ⟨hj, hlt⟩

theorem lt_size_of_test {m : Mask} {i : Nat} (h : m.test i = true) : i < m.size := by
  simp only [test, size] at *
  by_cases hs : i < m.bits.length
  · exact hs
  · simp [Nat.le_of_not_lt hs] at h

@[simp] theorem mem_members {m : Mask} {i : Nat} : i ∈ m.members ↔ m.test i = true := by
  simp only [members, List.mem_filter, List.mem_range]
  exact ⟨fun h => h.2, fun h => ⟨lt_size_of_test h, h⟩⟩

@[simp] theorem test_without (m other : Mask) (i : Nat) :
    (m.without other).test i = (m.test i && !other.test i) := by
  simp only [without, test_ofTest]
  by_cases h : m.test i = true
  · simp [h, lt_size_of_test h]
  · simp [Bool.eq_false_iff.mpr h]

/-- Masks of the same size with the same members are the same. -/
theorem eq_of_test {m other : Mask} (hsize : m.size = other.size)
    (htest : ∀ i, m.test i = true ↔ other.test i = true) : m = other := by
  obtain ⟨bits⟩ := m
  obtain ⟨bits'⟩ := other
  have hlength : bits.length = bits'.length := hsize
  refine congrArg Mask.mk (List.ext_getElem hlength fun i h h' => ?_)
  have hi := Bool.eq_iff_iff.mpr (htest i)
  simp only [test, List.getElem?_eq_getElem h, List.getElem?_eq_getElem h', Option.getD_some] at hi
  exact hi

end Mask

end GuardedActions
