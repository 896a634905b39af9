import GuardedActions.Proofs.Mask
import Mathlib.Data.Nat.Nth

/-!
# What encoders show

A linear encoder jumps from request to request, a ring encoder goes through the positions of a window;
both stop when their outputs are used up.  What they show is the beginning of a list of requests, one
per output, and nothing on the outputs that are left (`fan`): all requests in increasing order, and
those of the window in window order.
-/

set_option autoImplicit false

namespace GuardedActions

/-! ## The members of a mask, from a number on -/

namespace Mask

/-- The members that are not below a number, in increasing order. -/
def above (m : Mask) (start : Nat) : List Nat := (List.range' start (m.size - start)).filter m.test

theorem above_zero (m : Mask) : m.above 0 = m.members := by
  rw [above, members, Nat.sub_zero, List.range_eq_range']

theorem next?_eq_head? (m : Mask) (start : Nat) : m.next? start = (m.above start).head? :=
  List.head?_filter.symm

theorem lowest?_eq_next? (m : Mask) : m.lowest? = m.next? 0 := by
  rw [next?_eq_head?, above_zero, lowest?]

/-- Behind the next member come those above it. -/
theorem above_of_next? {m : Mask} {start index : Nat} (h : m.next? start = some index) :
    m.above start = index :: m.above (index + 1) := by
  obtain ⟨htest, skipped, rest, hrange, hskipped⟩ := List.find?_eq_some_iff_append.mp h
  obtain ⟨count, -, rfl, hrest⟩ := List.range'_eq_append_iff.mp hrange
  obtain ⟨hindex, -, rfl⟩ := List.range'_eq_cons_iff.mp hrest.symm
  have hnone : (List.range' start count).filter m.test = [] :=
    List.filter_eq_nil_iff.mpr fun i hi => by simpa using hskipped i hi
  have hleft : m.size - start - count - 1 = m.size - (index + 1) := by omega
  rw [above, hrange, List.filter_append, hnone, List.nil_append, List.filter_cons_of_pos htest, above,
    hleft]

theorem members_eq_nil_of_lowest? {m : Mask} (h : m.lowest? = Option.none) : m.members = [] :=
  List.head?_eq_none_iff.mp h

theorem test_put_false (m : Mask) (index i : Nat) :
    (m.put index false).test i = (decide (i ≠ index) && m.test i) := by
  rw [test_put]
  by_cases hi : index = i
  · subst hi
    by_cases hsize : index < m.size
    · simp [hsize]
    · have hout : m.test index = false :=
        Bool.eq_false_iff.mpr fun htest => hsize (lt_size_of_test htest)
      simp [hsize, hout]
  · simp [hi, Ne.symm hi]

theorem members_put_false (m : Mask) (index : Nat) :
    (m.put index false).members = m.members.filter fun i => decide (i ≠ index) := by
  rw [members, members, size_put, List.filter_filter]
  exact List.filter_congr fun i _ => test_put_false m index i

/-- The lowest member comes first, and then the members that are left without it. -/
theorem members_of_lowest? {m : Mask} {index : Nat} (h : m.lowest? = some index) :
    m.members = index :: (m.put index false).members := by
  have hmembers : m.members = index :: m.above (index + 1) := by
    rw [lowest?_eq_next?] at h
    rw [← above_zero, above_of_next? h]
  have hhigher : ∀ i ∈ m.above (index + 1), decide (i ≠ index) = true := by
    intro i hi
    have hrange := List.mem_range'_1.mp (List.mem_of_mem_filter hi)
    exact decide_eq_true (by omega)
  rw [members_put_false, hmembers, List.filter_cons_of_neg (by simp), List.filter_eq_self.mpr hhigher]

end Mask

/-! ## Outputs -/

namespace Encoder

/-- Choices shown on exactly `count` outputs: the first ones hold the choices, the rest nothing. -/
def fan (count : Nat) (choices : List Nat) : List Choice :=
  (choices.take count).map some ++ List.replicate (count - choices.length) none

@[simp] theorem length_fan (count : Nat) (choices : List Nat) :
    (fan count choices).length = count := by
  simp [fan]
  omega

@[simp] theorem fan_nil (count : Nat) : fan count [] = List.replicate count none := by
  simp [fan]

@[simp] theorem fan_zero (choices : List Nat) : fan 0 choices = [] := by
  simp [fan]

@[simp] theorem fan_succ_cons (count index : Nat) (choices : List Nat) :
    fan (count + 1) (index :: choices) = some index :: fan count choices := by
  simp [fan]

theorem fan_map (count : Nat) (f : Nat → Nat) (choices : List Nat) :
    fan count (choices.map f) = (fan count choices).map (Option.map f) := by
  simp [fan, List.map_take, Function.comp_def]

/-- Only the first choices matter, as many as there are outputs. -/
theorem fan_take (count : Nat) (choices : List Nat) :
    fan count choices =
      (choices.take count).map some ++ List.replicate (count - (choices.take count).length) none := by
  have hleft : count - choices.length = count - min count choices.length := by omega
  rw [fan, List.length_take, hleft]

/-- An output shows what stands at its place in the list of choices. -/
theorem getElem?_fan {count i : Nat} (hi : i < count) (choices : List Nat) :
    (fan count choices)[i]? = some choices[i]? := by
  have hlength : ((choices.take count).map some).length = min count choices.length := by simp
  by_cases hchoice : i < choices.length
  · have hfront : i < ((choices.take count).map some).length := hlength ▸ Nat.lt_min.mpr ⟨hi, hchoice⟩
    rw [fan, List.getElem?_append_left hfront, List.getElem?_map, List.getElem?_take_of_lt hi,
      List.getElem?_eq_getElem hchoice, Option.map_some]
  · have hback : ((choices.take count).map some).length ≤ i := by omega
    have hleft : i - ((choices.take count).map some).length < count - choices.length := by omega
    rw [fan, List.getElem?_append_right hback, List.getElem?_replicate, if_pos hleft,
      List.getElem?_eq_none (Nat.le_of_not_lt hchoice)]

theorem climb_eq_fan (requests : Mask) (outputs start : Nat) :
    climb requests outputs (requests.next? start) = fan outputs (requests.above start) := by
  induction outputs generalizing start with
  | zero => rw [fan_zero, climb]
  | succ outputs ih =>
    cases hnext : requests.next? start with
    | none =>
      rw [Mask.next?_eq_head?, List.head?_eq_none_iff] at hnext
      rw [hnext, fan_nil, climb]
    | some index => rw [Mask.above_of_next? hnext, fan_succ_cons, climb, ih]

/-- A linear encoder shows the requests in increasing order. -/
theorem encode_eq {e : Encoder} {requests : Mask} (h : requests.size = e.inputs) :
    e.encode requests = .ok (fan e.outputs requests.members) := by
  rw [encode, if_pos h, Mask.lowest?_eq_next?, climb_eq_fan, Mask.above_zero]

theorem sweep_eq_fan (inputs : Nat) (requests : Mask) (steps position outputs : Nat) :
    sweep inputs requests steps position outputs =
      fan outputs (((List.range' position steps).map (· % inputs)).filter requests.test) := by
  induction steps generalizing position outputs with
  | zero => rw [sweep, List.range'_zero, List.map_nil, List.filter_nil, fan_nil]
  | succ steps ih =>
    cases outputs with
    | zero => rw [sweep, fan_zero]
    | succ outputs =>
      rw [sweep, List.range'_succ, List.map_cons]
      cases htest : requests.test (position % inputs) with
      | true =>
        rw [if_pos rfl, List.filter_cons_of_pos htest, fan_succ_cons, ih]
      | false =>
        rw [if_neg Bool.false_ne_true, List.filter_cons_of_neg (by rw [htest]; exact Bool.false_ne_true),
          ih]

theorem build_eq_ok {kind : EncoderKind} {inputs outputs : Nat} (hinputs : 0 < inputs)
    (houtputs : 0 < outputs) :
    build kind inputs outputs = .ok ⟨inputs, outputs, hinputs, houtputs⟩ :=
  dif_pos ⟨hinputs, houtputs⟩

end Encoder

end GuardedActions
