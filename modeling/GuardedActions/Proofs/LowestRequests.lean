import GuardedActions.Proofs.Encoder

/-!
# The lowest requests

An encoder with several outputs shows on output `i` the request with exactly `i` requests below it, if
there is one (`lowest_requests_shown`).  The same comes of taking the lowest request again and again,
each time out of those that are left.
-/

set_option autoImplicit false

namespace GuardedActions

/-! ## Counting what passes a test -/

theorem length_filter_range (test : Nat → Bool) (size : Nat) :
    ((List.range size).filter test).length = Nat.count (fun j => test j = true) size := by
  rw [Nat.count, List.countP_eq_length_filter]
  simp only [Bool.decide_eq_true]

/-- The numbers below a bound that pass a test, with the one that has `i` of them below it at place
`i`. -/
theorem getElem?_filter_range (test : Nat → Bool) (size i : Nat) :
    ((List.range size).filter test)[i]? = if i < Nat.count (fun j => test j = true) size then
      some (Nat.nth (fun j => test j = true) i) else none := by
  induction size with
  | zero => simp
  | succ size ih =>
    rw [List.range_succ, List.filter_append, List.getElem?_append, ih, length_filter_range,
      Nat.count_succ]
    by_cases hi : i < Nat.count (fun j => test j = true) size
    · have hlater : i < Nat.count (fun j => test j = true) size + if test size = true then 1 else 0 :=
        Nat.lt_add_right _ hi
      rw [if_pos hi, if_pos hi, if_pos hlater]
    · rw [if_neg hi]
      cases htest : test size with
      | false => simp [htest, hi]
      | true =>
        rw [List.filter_cons_of_pos htest, List.filter_nil, if_pos rfl]
        by_cases hlast : i = Nat.count (fun j => test j = true) size
        · subst hlast
          simp [Nat.nth_count (p := fun j => test j = true) htest]
        · have hplace : i - Nat.count (fun j => test j = true) size ≠ 0 := by omega
          have hout : ¬ i < Nat.count (fun j => test j = true) size + 1 := by omega
          rw [if_neg hout, List.getElem?_singleton, if_neg hplace]

/-- A number that passes stands at the place that counts those below it. -/
theorem getElem?_filter_range_count {test : Nat → Bool} {size index : Nat} (hindex : index < size)
    (htest : test index = true) :
    ((List.range size).filter test)[Nat.count (fun j => test j = true) index]? = some index := by
  have hlt : Nat.count (fun j => test j = true) index < Nat.count (fun j => test j = true) size :=
    Nat.count_strict_mono htest hindex
  rw [getElem?_filter_range, if_pos hlt, Nat.nth_count htest]

namespace Encoder

/-! ## The lowest request again and again -/

/-- Take the lowest request `count` times, each time out of those that are left. -/
def chain : (count : Nat) → (requests : Mask) → List Choice
  | 0, _ => []
  | count + 1, requests =>
    match lowest requests with
    | none => none :: chain count requests
    | some index => some index :: chain count (requests.put index false)

theorem chain_eq_fan (count : Nat) (requests : Mask) : chain count requests = fan count requests.members := by
  induction count generalizing requests with
  | zero => rw [chain, fan_zero]
  | succ count ih =>
    rw [chain]
    cases hlowest : lowest requests with
    | none => simp only [ih, Mask.members_eq_nil_of_lowest? hlowest, fan_nil, List.replicate_succ]
    | some index => simp only [ih, Mask.members_of_lowest? hlowest, fan_succ_cons]

/-! ## The lowest requests in order -/

/-- The outputs show the lowest of some requests in increasing order. -/
structure ShowsLowest (requests : Mask) (count : Nat) (outputs : List Choice) : Prop where
  /-- there are as many outputs as asked for -/
  length : outputs.length = count
  /-- an output shows something if there are more requests than outputs before it: the request that has
  as many below it -/
  nth : ∀ i, i < count → outputs[i]? =
    some (if i < Nat.count (fun j => requests.test j = true) requests.size then
      some (Nat.nth (fun j => requests.test j = true) i) else none)
  /-- the first outputs show all requests with fewer than `count` below them, the others nothing -/
  covers : ∃ shown : List Nat, outputs = shown.map some ++ List.replicate (count - shown.length) none ∧
    shown.length = min count (Nat.count (fun j => requests.test j = true) requests.size) ∧
    shown.Pairwise (· < ·) ∧ ∀ index, index ∈ shown ↔
      requests.test index = true ∧ Nat.count (fun j => requests.test j = true) index < count

theorem mem_take_members {requests : Mask} {count index : Nat} : index ∈ requests.members.take count ↔
    requests.test index = true ∧ Nat.count (fun j => requests.test j = true) index < count := by
  have hplace : requests.test index = true →
      requests.members[Nat.count (fun j => requests.test j = true) index]? = some index :=
    fun htest => getElem?_filter_range_count (Mask.lt_size_of_test htest) htest
  constructor
  · intro hmem
    obtain ⟨place, hlt, hindex⟩ := List.mem_take_iff_getElem.mp hmem
    have htest : requests.test index = true := Mask.mem_members.mp (List.mem_of_mem_take hmem)
    have hlength : place < requests.members.length := (Nat.lt_min.mp hlt).2
    have hsame : requests.members[place]? =
        requests.members[Nat.count (fun j => requests.test j = true) index]? := by
      rw [hplace htest, List.getElem?_eq_getElem hlength, hindex]
    have hnodup : requests.members.Nodup := (Mask.pairwise_members requests).imp Nat.ne_of_lt
    rw [← (List.getElem?_inj hlength hnodup).mp hsame]
    exact ⟨htest, (Nat.lt_min.mp hlt).1⟩
  · rintro ⟨htest, hlt⟩
    refine List.mem_of_getElem? (i := Nat.count (fun j => requests.test j = true) index) ?_
    rw [List.getElem?_take_of_lt hlt, hplace htest]

theorem showsLowest_fan (requests : Mask) (count : Nat) :
    ShowsLowest requests count (fan count requests.members) where
  length := length_fan _ _
  nth := by
    intro i hi
    rw [getElem?_fan hi, Mask.members, getElem?_filter_range]
  covers := by
    refine ⟨requests.members.take count, fan_take count requests.members, ?_, ?_,
      fun _ => mem_take_members⟩
    · rw [List.length_take, Mask.members, length_filter_range]
    · exact (Mask.pairwise_members requests).sublist (List.take_sublist _ _)

/-- An encoder of any positive size shows on output `i` the request with exactly `i` requests below it,
for as many outputs as there are requests, and nothing on the others; this is what comes of taking the
lowest request again and again. -/
theorem lowest_requests_shown {inputs count : Nat} (hpos : 0 < inputs ∧ 0 < count) {requests : Mask}
    (hsize : requests.size = inputs) : ∃ e outputs, build .linear inputs count = .ok e ∧
      e.encode requests = .ok outputs ∧ ShowsLowest requests count outputs ∧
      outputs = chain count requests :=
  ⟨_, _, build_eq_ok hpos.1 hpos.2, encode_eq hsize, showsLowest_fan requests count,
    (chain_eq_fan count requests).symm⟩

/-! ## Three requests for four outputs -/

/-- Requests at the indices 2, 4 and 5. -/
def threeOfSix : Mask := ⟨[false, false, true, false, true, true]⟩

/-- The three requests are shown in order, and the last output shows nothing. -/
theorem shows_threeOfSix : (0 < 6 ∧ 0 < 4) ∧ threeOfSix.size = 6 ∧ ∃ e,
    build .linear 6 4 = .ok e ∧ e.encode threeOfSix = .ok [some 2, some 4, some 5, none] ∧
    ShowsLowest threeOfSix 4 [some 2, some 4, some 5, none] := by
  obtain ⟨e, outputs, hbuild, hencode, hshows, hchain⟩ :=
    @lowest_requests_shown 6 4 (by decide) threeOfSix rfl
  obtain rfl : outputs = [some 2, some 4, some 5, none] := hchain
  exact ⟨by decide, rfl, e, hbuild, hencode, hshows⟩

end Encoder

end GuardedActions
