import GuardedActions.Proofs.Encoder

/-!
# Requests in window order

A ring encoder unrolls its window to a plain range of positions, which may go past the last index.
`window_requests_shown` says that it shows the first requests inside the window by their distance from
its start, for every ring that the positions can count; and that a linear encoder shows the same of the
requests that are cut to the window and turned down to its start.
-/

set_option autoImplicit false

namespace GuardedActions

namespace Encoder

/-! ## Distances on a ring -/

/-- How far it is up the ring from one index to another. -/
def distance (inputs first index : Nat) : Nat := (((index : Int) - first) % inputs).toNat

variable {inputs first last : Nat}

theorem distance_eq (h : first < inputs) (index : Nat) :
    distance inputs first index = (index + (inputs - first)) % inputs := by
  have hcast : ((index + (inputs - first) : Nat) : Int) = (index : Int) - first + inputs := by omega
  rw [distance, ← Int.add_emod_right, ← hcast, ← Int.natCast_emod, Int.toNat_natCast]

theorem distance_lt (h : first < inputs) (index : Nat) : distance inputs first index < inputs := by
  rw [distance_eq h]
  exact Nat.mod_lt _ (Nat.zero_lt_of_lt h)

/-- Some steps up the ring from its first index. -/
theorem distance_step (h : first < inputs) {step : Nat} (hstep : step < inputs) :
    distance inputs first ((first + step) % inputs) = step := by
  have hround : first + step + (inputs - first) = step + inputs := by omega
  rw [distance_eq h, Nat.mod_add_mod, hround, Nat.add_mod_right, Nat.mod_eq_of_lt hstep]

theorem step_distance (h : first < inputs) {index : Nat} (hindex : index < inputs) :
    (first + distance inputs first index) % inputs = index := by
  have hround : first + (index + (inputs - first)) = index + inputs := by omega
  rw [distance_eq h, Nat.add_mod_mod, hround, Nat.add_mod_right, Nat.mod_eq_of_lt hindex]

@[simp] theorem distance_self (inputs first : Nat) : distance inputs first first = 0 := by
  simp [distance]

/-- A window has as many positions as it is from its start to its end, as long as the positions of two
rounds can be counted. -/
theorem windowEnd_sub (hinputs : inputs ≤ 2 ^ 31) (hfirst : first < inputs) (hlast : last < inputs) :
    windowEnd inputs first last - first = distance inputs first last := by
  rw [windowEnd, distance_eq hfirst]
  by_cases hwraps : last < first
  · have hcount : last + inputs < UInt32.size := by
      have hsize : UInt32.size = 2 ^ 31 + 2 ^ 31 := rfl
      omega
    have hshort : last + (inputs - first) < inputs := by omega
    rw [if_pos hwraps, Nat.mod_eq_of_lt hcount, Nat.mod_eq_of_lt hshort]
    omega
  · have hround : last + (inputs - first) = last - first + inputs := by omega
    have hshort : last - first < inputs := by omega
    rw [if_neg hwraps, hround, Nat.add_mod_right, Nat.mod_eq_of_lt hshort]

-- With one more index than that, the end of a window may go round at 32 bits, and the window is lost.
example : windowEnd (2 ^ 31 + 1) (2 ^ 31) (2 ^ 31 - 1) = 0 := by decide

/-! ## The requests of a window -/

/-- The requests on some positions of a ring, in the order of the positions. -/
def along (inputs first steps : Nat) (requests : Mask) : List Nat :=
  ((List.range steps).map fun step => (first + step) % inputs).filter requests.test

theorem encodeWindow_eq {e : Encoder} {requests : Mask} (hsize : requests.size = e.inputs)
    (hinputs : e.inputs ≤ 2 ^ 31) (hfirst : first < e.inputs) (hlast : last < e.inputs) :
    e.encodeWindow requests first last =
      .ok (fan e.outputs (along e.inputs first (distance e.inputs first last) requests)) := by
  rw [encodeWindow, if_neg (not_not.mpr hsize), if_pos ⟨hfirst, hlast⟩, sweep_eq_fan,
    windowEnd_sub hinputs hfirst hlast, List.range'_eq_map_range, List.map_map]
  rfl

theorem pairwise_along (hfirst : first < inputs) {steps : Nat} (hsteps : steps ≤ inputs)
    (requests : Mask) : (along inputs first steps requests).Pairwise fun i j =>
      distance inputs first i < distance inputs first j := by
  refine List.Pairwise.filter _ (List.pairwise_map.mpr ?_)
  refine List.pairwise_lt_range.imp_of_mem fun {i j} hi hj hlt => ?_
  have hi := Nat.lt_of_lt_of_le (List.mem_range.mp hi) hsteps
  have hj := Nat.lt_of_lt_of_le (List.mem_range.mp hj) hsteps
  rwa [distance_step hfirst hi, distance_step hfirst hj]

theorem mem_along (hfirst : first < inputs) {steps : Nat} (hsteps : steps ≤ inputs) {requests : Mask}
    (hsize : requests.size = inputs) {index : Nat} : index ∈ along inputs first steps requests ↔
      requests.test index = true ∧ distance inputs first index < steps := by
  rw [along, List.mem_filter, List.mem_map, and_comm]
  refine and_congr_right fun htest => ⟨?_, fun hlt => ?_⟩
  · rintro ⟨step, hstep, rfl⟩
    have hstep := List.mem_range.mp hstep
    rwa [distance_step hfirst (Nat.lt_of_lt_of_le hstep hsteps)]
  · have hindex : index < inputs := hsize ▸ Mask.lt_size_of_test htest
    exact ⟨_, List.mem_range.mpr hlt, step_distance hfirst hindex⟩

end Encoder

/-! ## Cutting and turning request vectors -/

/-- A test with a bound cuts a range at the bound. -/
theorem filter_range_lt {test : Nat → Bool} {bound size : Nat} (h : bound ≤ size) :
    ((List.range size).filter fun i => test i && decide (i < bound)) = (List.range bound).filter test := by
  induction size, h using Nat.le_induction with
  | base =>
    refine List.filter_congr fun i hi => ?_
    rw [decide_eq_true (List.mem_range.mp hi), Bool.and_true]
  | succ size h ih =>
    have hout : [size].filter (fun i => test i && decide (i < bound)) = [] := by
      simp [Nat.not_lt.mpr h]
    rw [List.range_succ, List.filter_append, ih, hout, List.append_nil]

namespace Mask

/-- The members inside a window. -/
def inWindow (m : Mask) (first last : Nat) : Mask :=
  ofTest m.size fun i =>
    m.test i && decide (Encoder.distance m.size first i < Encoder.distance m.size first last)

/-- The mask turned so that a number comes to be the lowest one. -/
def rotateDown (m : Mask) (first : Nat) : Mask := ofTest m.size fun i => m.test ((first + i) % m.size)

@[simp] theorem size_inWindow (m : Mask) (first last : Nat) : (m.inWindow first last).size = m.size :=
  size_ofTest _ _

@[simp] theorem size_rotateDown (m : Mask) (first : Nat) : (m.rotateDown first).size = m.size :=
  size_ofTest _ _

theorem test_rotateDown_inWindow {m : Mask} {first last step : Nat} (hfirst : first < m.size)
    (hstep : step < m.size) : ((m.inWindow first last).rotateDown first).test step =
      (m.test ((first + step) % m.size) && decide (step < Encoder.distance m.size first last)) := by
  have hindex : (first + step) % m.size < m.size := Nat.mod_lt _ (Nat.zero_lt_of_lt hstep)
  simp only [rotateDown, inWindow, size_ofTest, test_ofTest, hstep, hindex, decide_true, Bool.true_and,
    Encoder.distance_step hfirst hstep]

end Mask

namespace Encoder

/-- Turning the requests of a window down to its start and their indices up again gives them in window
order. -/
theorem map_members_rotateDown {requests : Mask} {first last : Nat} (hfirst : first < requests.size) :
    ((requests.inWindow first last).rotateDown first).members.map
        (fun step => (first + step) % requests.size) =
      along requests.size first (distance requests.size first last) requests := by
  have hmembers : ((requests.inWindow first last).rotateDown first).members =
      (List.range requests.size).filter fun step =>
        (requests.test ∘ fun step => (first + step) % requests.size) step &&
          decide (step < distance requests.size first last) := by
    rw [Mask.members, Mask.size_rotateDown, Mask.size_inWindow]
    exact List.filter_congr fun step hstep =>
      Mask.test_rotateDown_inWindow hfirst (List.mem_range.mp hstep)
  rw [hmembers, filter_range_lt (Nat.le_of_lt (distance_lt hfirst last)), along, List.filter_map]

/-- The outputs show the requests of a window by their distance from its start. -/
structure ShowsWindow (inputs : Nat) (requests : Mask) (first last count : Nat) (outputs : List Choice) :
    Prop where
  /-- there are as many outputs as asked for -/
  length : outputs.length = count
  /-- the first outputs show the first requests of the window in window order, the others nothing -/
  order : ∃ inside : List Nat,
    inside.Pairwise (fun i j => distance inputs first i < distance inputs first j) ∧
    (∀ index, index ∈ inside ↔ requests.test index = true ∧
      distance inputs first index < distance inputs first last) ∧
    outputs = (inside.take count).map some ++ List.replicate (count - inside.length) none

/-- An encoder of a ring whose size is at most half of what positions can count shows the first requests
of a window by their distance from its start, and nothing on the outputs that are left, in particular
nothing at all if the window is empty; a linear encoder shows the same of the requests that are cut to the
window and turned down to its start, and its indices are turned up again. -/
theorem window_requests_shown {inputs count : Nat} (hinputs : 0 < inputs ∧ inputs ≤ 2 ^ 31)
    (hcount : 0 < count) {requests : Mask} (hsize : requests.size = inputs) {first last : Nat}
    (hfirst : first < inputs) (hlast : last < inputs) : ∃ ring linear outputs shown,
      build .ring inputs count = .ok ring ∧ build .linear inputs count = .ok linear ∧
      ring.encodeWindow requests first last = .ok outputs ∧
      ShowsWindow inputs requests first last count outputs ∧
      linear.encode ((requests.inWindow first last).rotateDown first) = .ok shown ∧
      outputs = shown.map (Option.map fun index => (first + index) % inputs) ∧
      (first = last → outputs = List.replicate count none) := by
  have hsteps : distance inputs first last ≤ inputs := Nat.le_of_lt (distance_lt hfirst last)
  subst hsize
  refine ⟨_, _, _, _, build_eq_ok hinputs.1 hcount, build_eq_ok hinputs.1 hcount,
    encodeWindow_eq rfl hinputs.2 hfirst hlast, ?_, encode_eq ?_, ?_, ?_⟩
  · exact ⟨length_fan _ _, _, pairwise_along hfirst hsteps requests,
      fun _ => mem_along hfirst hsteps rfl, rfl⟩
  · rw [Mask.size_rotateDown, Mask.size_inWindow]
  · rw [← fan_map, map_members_rotateDown hfirst]
  · rintro rfl
    rw [distance_self]
    exact fan_nil count

/-! ## A window that goes round -/

/-- Requests at the indices 0, 1, 3 and 5. -/
def fourOfSix : Mask := ⟨[true, true, false, true, false, true]⟩

/-- Of the window from index 4 round to index 2, the request at the end of the ring comes first; the one
outside the window is not shown. -/
theorem shows_fourOfSix : (0 < 6 ∧ 6 ≤ 2 ^ 31) ∧ 0 < 4 ∧ fourOfSix.size = 6 ∧ 4 < 6 ∧ 2 < 6 ∧
    ∃ ring linear, build .ring 6 4 = .ok ring ∧ build .linear 6 4 = .ok linear ∧
      ring.encodeWindow fourOfSix 4 2 = .ok [some 5, some 0, some 1, none] ∧
      ShowsWindow 6 fourOfSix 4 2 4 [some 5, some 0, some 1, none] ∧
      linear.encode ((fourOfSix.inWindow 4 2).rotateDown 4) = .ok [some 1, some 2, some 3, none] := by
  obtain ⟨ring, linear, outputs, shown, hring, hlinear, houtputs, hshows, hshown, -, -⟩ :=
    @window_requests_shown 6 4 (by decide) (by decide) fourOfSix rfl 4 2 (by decide) (by decide)
  cases hring
  cases hlinear
  obtain rfl : outputs = [some 5, some 0, some 1, none] := Except.ok.inj (houtputs.symm.trans (by decide))
  obtain rfl : shown = [some 1, some 2, some 3, none] := Except.ok.inj (hshown.symm.trans (by decide))
  exact ⟨by decide, by decide, rfl, by decide, by decide, _, _, rfl, rfl, houtputs, hshows, hshown⟩

end Encoder

end GuardedActions
