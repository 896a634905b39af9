import GuardedActions.Proofs.Coherence
import GuardedActions.Proofs.Execution.Clocked
import GuardedActions.Proofs.MagnitudeCounts
import GuardedActions.Tally

/-!
# What the counters of an action say about a run

The counters see one schedule after the other and keep no history.  Still they are the statistics of the
history (`ActionTally.Statistics`): how often an action was requested, could run and ran, how often it was held
up, and how long each stretch of cycles was in which it was held up without a break.  The stretch that is going
on at the end is known as well (`Stretches`), so that the longest one is the longest of all, finished or not.
What runs could run and what could run was requested, as the schedules of a run have it
(`Tally.statistics_of_run`).
-/

set_option autoImplicit false

namespace GuardedActions

/-! ## Stretches -/

/-- The indices from `first` up to `stop` are a stretch in which something holds without a break: it holds
neither just before nor just after them. -/
structure Stretch (held : Nat → Prop) (first stop : Nat) : Prop where
  /-- there is an index -/
  nonempty : first < stop
  /-- it holds throughout -/
  holds : ∀ i, first ≤ i → i < stop → held i
  /-- it does not hold before -/
  begins : ∀ i, i + 1 = first → ¬ held i
  /-- nor after -/
  ends : ¬ held stop

/-- Whether a flag in a list is set. -/
def Flagged (flags : List Bool) (i : Nat) : Prop := flags[i]? = some true

/-- The finished stretches of flags in order, and where the stretch begins that is still going on at the end, if
there is one. -/
structure Stretches (flags : List Bool) (finished : List (Nat × Nat)) (current : Nat) : Prop where
  /-- the finished ones come one after the other -/
  ordered : finished.Pairwise fun p q => p.2 < q.1
  /-- they are those that end before the last flag -/
  mem_iff : ∀ {first stop : Nat}, (first, stop) ∈ finished ↔
    Stretch (Flagged flags) first stop ∧ stop < flags.length
  /-- the current one is within the flags -/
  le_length : current ≤ flags.length
  /-- its flags are set -/
  holds : ∀ i, current ≤ i → i < flags.length → Flagged flags i
  /-- it does not begin earlier -/
  begins : ∀ i, i + 1 = current → ¬ Flagged flags i

theorem lt_length_of_flagged {flags : List Bool} {i : Nat} (h : Flagged flags i) : i < flags.length :=
  (List.getElem?_eq_some_iff.mp h).1

theorem flagged_concat {flags : List Bool} {flag : Bool} {i : Nat} :
    Flagged (flags ++ [flag]) i ↔ Flagged flags i ∨ i = flags.length ∧ flag = true := by
  unfold Flagged
  rcases Nat.lt_trichotomy i flags.length with hlt | rfl | hgt
  · rw [List.getElem?_append_left hlt]
    exact ⟨.inl, fun h => h.resolve_right fun heq => absurd heq.1 hlt.ne⟩
  · rw [List.getElem?_concat_length, List.getElem?_eq_none (Nat.le_refl _), Option.some.injEq]
    exact ⟨fun h => .inr ⟨rfl, h⟩, fun h => (h.resolve_left nofun).2⟩
  · rw [List.getElem?_eq_none (by rw [List.length_append, List.length_singleton]; omega),
      List.getElem?_eq_none hgt.le]
    exact ⟨nofun, fun h => h.elim nofun fun heq => absurd heq.1 hgt.ne'⟩

/-- A stretch that ended before the last flag is not changed by one more flag. -/
theorem stretch_concat {flags : List Bool} {flag : Bool} {first stop : Nat} (hstop : stop < flags.length) :
    Stretch (Flagged (flags ++ [flag])) first stop ↔ Stretch (Flagged flags) first stop := by
  have hsame : ∀ i, i ≤ stop → (Flagged (flags ++ [flag]) i ↔ Flagged flags i) := by
    intro i hi
    rw [flagged_concat]
    exact ⟨fun h => h.resolve_right fun heq => absurd heq.1 (by omega), .inl⟩
  constructor
  · intro h
    have hlt := h.nonempty
    exact ⟨hlt, fun i hf hs => (hsame i hs.le).mp (h.holds i hf hs),
      fun i hi hheld => h.begins i hi ((hsame i (by omega)).mpr hheld),
      fun hheld => h.ends ((hsame stop (Nat.le_refl _)).mpr hheld)⟩
  · intro h
    have hlt := h.nonempty
    exact ⟨hlt, fun i hf hs => (hsame i hs.le).mpr (h.holds i hf hs),
      fun i hi hheld => h.begins i hi ((hsame i (by omega)).mp hheld),
      fun hheld => h.ends ((hsame stop (Nat.le_refl _)).mp hheld)⟩

namespace Stretches

variable {flags : List Bool} {finished : List (Nat × Nat)} {current : Nat}

theorem nil : Stretches [] [] 0 where
  ordered := .nil
  mem_iff := ⟨nofun, fun h => absurd h.2 (Nat.not_lt_zero _)⟩
  le_length := Nat.le_refl _
  holds := fun _ _ hi => absurd hi (Nat.not_lt_zero _)
  begins := nofun

/-- The stretch that is going on is the only one that reaches the end. -/
theorem stretch_length_iff (h : Stretches flags finished current) {first : Nat} :
    Stretch (Flagged flags) first flags.length ↔ first = current ∧ current < flags.length := by
  constructor
  · intro hstretch
    have hlt := hstretch.nonempty
    have hfirst : first = current := by
      rcases Nat.lt_trichotomy first current with hearly | heq | hlate
      · exact absurd (hstretch.holds (current - 1) (by omega) (by have := h.le_length; omega))
          (h.begins (current - 1) (by omega))
      · exact heq
      · exact absurd (h.holds (first - 1) (by omega) (by omega)) (hstretch.begins (first - 1) (by omega))
    exact ⟨hfirst, hfirst ▸ hlt⟩
  · rintro ⟨rfl, hlt⟩
    exact ⟨hlt, h.holds, h.begins, fun hheld => absurd (lt_length_of_flagged hheld) (Nat.lt_irrefl _)⟩

/-- One more flag that is set makes the current stretch longer. -/
theorem concat_true (h : Stretches flags finished current) : Stretches (flags ++ [true]) finished current where
  ordered := h.ordered
  mem_iff := by
    intro first stop
    rw [h.mem_iff, List.length_append, List.length_singleton]
    constructor
    · exact fun ⟨hstretch, hstop⟩ => ⟨(stretch_concat hstop).mpr hstretch, by omega⟩
    · rintro ⟨hstretch, hstop⟩
      have hne : stop ≠ flags.length := by
        rintro rfl
        exact hstretch.ends (flagged_concat.mpr (.inr ⟨rfl, rfl⟩))
      have hlt : stop < flags.length := by omega
      exact ⟨(stretch_concat hlt).mp hstretch, hlt⟩
  le_length := by
    rw [List.length_append]
    exact Nat.le_add_right_of_le h.le_length
  holds := by
    intro i hi hlt
    rw [List.length_append, List.length_singleton] at hlt
    rw [flagged_concat]
    rcases Nat.lt_succ_iff_lt_or_eq.mp hlt with hold | rfl
    · exact .inl (h.holds i hi hold)
    · exact .inr ⟨rfl, rfl⟩
  begins := by
    intro i hi hheld
    rcases flagged_concat.mp hheld with hold | ⟨rfl, -⟩
    · exact h.begins i hi hold
    · have hle := h.le_length
      omega

/-- One more flag that is not set ends the current stretch. -/
theorem concat_false (h : Stretches flags finished current) :
    Stretches (flags ++ [false])
      (if current < flags.length then finished ++ [(current, flags.length)] else finished)
      (flags.length + 1) where
  ordered := by
    split
    · rename_i hlt
      refine List.pairwise_append.mpr ⟨h.ordered, List.pairwise_singleton _ _, fun p hp q hq => ?_⟩
      obtain rfl := List.mem_singleton.mp hq
      -- the current stretch begins after the end of every other one
      have hp' := h.mem_iff.mp (show (p.1, p.2) ∈ finished from hp)
      by_contra hle
      exact hp'.1.ends (h.holds p.2 (Nat.le_of_not_lt hle) hp'.2)
    · exact h.ordered
  mem_iff := by
    intro first stop
    have hfinal : Stretch (Flagged (flags ++ [false])) first flags.length ↔
        first = current ∧ current < flags.length := by
      rw [← h.stretch_length_iff]
      have hsame : ∀ i, Flagged (flags ++ [false]) i ↔ Flagged flags i := by
        intro i
        rw [flagged_concat]
        exact ⟨fun hheld => hheld.resolve_right fun heq => absurd heq.2 nofun, .inl⟩
      rw [show Flagged (flags ++ [false]) = Flagged flags from funext fun i => propext (hsame i)]
    rw [List.length_append, List.length_singleton]
    constructor
    · intro hmem
      have hcases : (first, stop) ∈ finished ∨
          ((first, stop) = (current, flags.length) ∧ current < flags.length) := by
        split at hmem
        · rename_i hlt
          rcases List.mem_append.mp hmem with hold | hnew
          · exact .inl hold
          · exact .inr ⟨List.mem_singleton.mp hnew, hlt⟩
        · exact .inl hmem
      rcases hcases with hold | ⟨heq, hlt⟩
      · obtain ⟨hstretch, hstop⟩ := h.mem_iff.mp hold
        exact ⟨(stretch_concat hstop).mpr hstretch, by omega⟩
      · obtain ⟨rfl, rfl⟩ := Prod.mk.inj heq
        exact ⟨hfinal.mpr ⟨rfl, hlt⟩, Nat.lt_succ_self _⟩
    · rintro ⟨hstretch, hstop⟩
      rcases Nat.lt_succ_iff_lt_or_eq.mp hstop with hlt | rfl
      · have hold := h.mem_iff.mpr ⟨(stretch_concat hlt).mp hstretch, hlt⟩
        split
        · exact List.mem_append_left _ hold
        · exact hold
      · obtain ⟨rfl, hlt⟩ := hfinal.mp hstretch
        rw [if_pos hlt]
        exact List.mem_append_right _ List.mem_cons_self
  le_length := by rw [List.length_append, List.length_singleton]
  holds := by
    intro i hi hlt
    rw [List.length_append, List.length_singleton] at hlt
    omega
  begins := by
    intro i hi hheld
    obtain rfl : i = flags.length := Nat.succ.inj hi
    rcases flagged_concat.mp hheld with hold | ⟨-, hfalse⟩
    · exact absurd (lt_length_of_flagged hold) (Nat.lt_irrefl _)
    · cases hfalse

end Stretches

/-! ## Counters of one action -/

/-- Whether an action could run in a cycle and does not. -/
def Schedule.holdsUp (s : Schedule) (action : Nat) : Bool := s.couldRun action && !s.grants action

namespace ActionTally

/-- Count what a schedule says about an action. -/
def see (action : Nat) (c : ActionTally) (s : Schedule) : ActionTally :=
  c.observe (s.requests action) (s.couldRun action) (s.grants action)

/-- The length of the stall that a schedule ends. -/
def ended (action : Nat) (c : ActionTally) (s : Schedule) : List UInt64 :=
  if s.holdsUp action || c.openStall == 0 then [] else [c.openStall]

/-- The counters of an action after some schedules. -/
def ofSchedules (action : Nat) (ss : List Schedule) : ActionTally := ss.foldl (see action) {}

/-- The lengths that are added to the finished stalls of an action, one schedule after the other. -/
def added (action : Nat) : ActionTally → List Schedule → List UInt64
  | _, [] => []
  | c, s :: ss => c.ended action s ++ added action (c.see action s) ss

variable {action : Nat} {c : ActionTally} {s : Schedule} {ss : List Schedule}

theorem ofSchedules_concat : ofSchedules action (ss ++ [s]) = (ofSchedules action ss).see action s :=
  List.foldl_concat ..

theorem added_concat (c : ActionTally) (ss : List Schedule) :
    added action c (ss ++ [s]) = added action c ss ++ (ss.foldl (see action) c).ended action s := by
  induction ss generalizing c with
  | nil => exact List.append_nil _
  | cons s' ss ih => simp only [List.cons_append, added, List.foldl_cons, ih, List.append_assoc]

theorem see_of_holdsUp (h : s.holdsUp action = true) : c.see action s =
    { requested := c.requested + tick (s.requests action)
      runnable := c.runnable + tick (s.couldRun action)
      granted := c.granted + tick (s.grants action)
      stalled := c.stalled + 1
      openStall := c.openStall + 1
      stalls := c.stalls } := by
  unfold see observe
  exact if_pos h

theorem see_of_not_holdsUp (h : s.holdsUp action = false) : c.see action s =
    { requested := c.requested + tick (s.requests action)
      runnable := c.runnable + tick (s.couldRun action)
      granted := c.granted + tick (s.grants action)
      stalled := c.stalled
      openStall := 0
      stalls := if c.openStall = 0 then c.stalls else c.stalls.add c.openStall } := by
  have hnot : ¬ (s.couldRun action && !s.grants action) = true := fun hup => by
    rw [show s.holdsUp action = true from hup] at h
    cases h
  unfold see observe
  rw [if_neg hnot]
  split
  · rename_i hzero
    rw [← hzero]
  · rfl

/-- The histogram holds the lengths that were added to it. -/
theorem stalls_foldl (c : ActionTally) (ss : List Schedule) :
    (ss.foldl (see action) c).stalls = (added action c ss).foldl Histogram.add c.stalls := by
  induction ss generalizing c with
  | nil => rfl
  | cons s ss ih =>
    have hsee : (c.see action s).stalls = (c.ended action s).foldl Histogram.add c.stalls := by
      unfold ended
      cases hup : s.holdsUp action with
      | true => rw [see_of_holdsUp hup]; rfl
      | false =>
        rw [see_of_not_holdsUp hup, Bool.false_or]
        by_cases hzero : c.openStall = 0
        · simp [hzero]
        · simp [hzero]
    rw [List.foldl_cons, added, List.foldl_append, ih, hsee]

theorem toNat_add_tick {x : UInt64} (h : x.toNat + 1 < 2 ^ 64) (condition : Bool) :
    (x + tick condition).toNat = x.toNat + if condition then 1 else 0 := by
  cases condition with
  | true => exact (UInt64.toNat_add x 1).trans (Nat.mod_eq_of_lt h)
  | false => rw [show tick false = 0 from rfl, UInt64.add_zero]; rfl

/-- The counters of an action are those of the schedules, and the stalls are stretches of the schedules. -/
structure Counted (c : ActionTally) (action : Nat) (ss : List Schedule) (samples : List UInt64) : Prop where
  /-- cycles in which it was requested -/
  requested : c.requested.toNat = ss.countP fun s => s.requests action
  /-- cycles in which it could run -/
  runnable : c.runnable.toNat = ss.countP fun s => s.couldRun action
  /-- cycles in which it ran -/
  granted : c.granted.toNat = ss.countP fun s => s.grants action
  /-- cycles in which it was held up -/
  stalled : c.stalled.toNat = ss.countP fun s => s.holdsUp action
  /-- the stalls that are over and the one that is going on are all stalls -/
  sum : c.stalls.sum.toNat + c.openStall.toNat = c.stalled.toNat
  /-- the samples are the lengths of the finished stretches in order, and the open stall is the stretch that is
  going on -/
  stretches : ∃ (finished : List (Nat × Nat)) (current : Nat),
    Stretches (ss.map fun s => s.holdsUp action) finished current ∧
      samples.map UInt64.toNat = finished.map (fun p => p.2 - p.1) ∧
        c.openStall.toNat = ss.length - current

namespace Counted

variable {samples : List UInt64}

theorem nil (action : Nat) : Counted {} action [] [] where
  requested := rfl
  runnable := rfl
  granted := rfl
  stalled := rfl
  sum := rfl
  stretches := ⟨[], 0, Stretches.nil, rfl, rfl⟩

/-- A count of schedules goes on with one more. -/
theorem toNat_add_tick_eq_countP {x : UInt64} {p : Schedule → Bool} (hx : x.toNat = ss.countP p)
    (hlength : ss.length + 1 < 2 ^ 64) : (x + tick (p s)).toNat = (ss ++ [s]).countP p := by
  have hle := List.countP_le_length (p := p) (l := ss)
  rw [toNat_add_tick (by omega), hx, List.countP_append, List.countP_singleton]

/-- In a cycle that holds the action up, the open stall becomes longer. -/
theorem concat_of_holdsUp (h : c.Counted action ss samples) (hlength : ss.length + 1 < 2 ^ 64)
    (hup : s.holdsUp action = true) : (c.see action s).Counted action (ss ++ [s]) samples := by
  have hrequested := toNat_add_tick_eq_countP (s := s) h.requested hlength
  have hrunnable := toNat_add_tick_eq_countP (s := s) h.runnable hlength
  have hgranted := toNat_add_tick_eq_countP (s := s) h.granted hlength
  have hstalled := toNat_add_tick_eq_countP (s := s) h.stalled hlength
  rw [hup] at hstalled
  have hsum := h.sum
  have hbound : c.stalled.toNat ≤ ss.length := h.stalled ▸ List.countP_le_length
  have hopens : (c.openStall + 1).toNat = c.openStall.toNat + 1 := toNat_add_tick (by omega) true
  have hstalls : (c.stalled + 1).toNat = c.stalled.toNat + 1 := toNat_add_tick (by omega) true
  obtain ⟨finished, current, hstretches, hsamples, hopen⟩ := h.stretches
  have hle := hstretches.le_length
  rw [List.length_map] at hle
  rw [see_of_holdsUp hup]
  refine ⟨hrequested, hrunnable, hgranted, hstalled, ?_, finished, current, ?_, hsamples, ?_⟩
  · simp only [hopens, hstalls]
    omega
  · rw [List.map_append, List.map_singleton, hup]
    exact hstretches.concat_true
  · rw [List.length_append, List.length_singleton]
    simp only [hopens]
    omega

/-- In any other cycle the open stall is over, if there is one. -/
theorem concat_of_not_holdsUp (h : c.Counted action ss samples) (hlength : ss.length + 1 < 2 ^ 64)
    (hup : s.holdsUp action = false) :
    (c.see action s).Counted action (ss ++ [s]) (samples ++ c.ended action s) := by
  have hrequested := toNat_add_tick_eq_countP (s := s) h.requested hlength
  have hrunnable := toNat_add_tick_eq_countP (s := s) h.runnable hlength
  have hgranted := toNat_add_tick_eq_countP (s := s) h.granted hlength
  have hstalled := toNat_add_tick_eq_countP (s := s) h.stalled hlength
  rw [hup, show tick false = 0 from rfl, UInt64.add_zero] at hstalled
  have hsum := h.sum
  have hbound : c.stalled.toNat ≤ ss.length := h.stalled ▸ List.countP_le_length
  obtain ⟨finished, current, hstretches, hsamples, hopen⟩ := h.stretches
  have hover := hstretches.concat_false
  rw [List.length_map] at hover
  have hended : c.ended action s = if current < ss.length then [c.openStall] else [] := by
    have hiff : c.openStall = 0 ↔ ¬ current < ss.length := by
      rw [← UInt64.toNat_inj, hopen, UInt64.toNat_zero]
      omega
    unfold ended
    rw [hup, Bool.false_or]
    by_cases hlt : current < ss.length
    · simp [hiff, hlt]
    · simp [hiff, hlt]
  rw [see_of_not_holdsUp hup]
  refine ⟨hrequested, hrunnable, hgranted, hstalled, ?_,
    if current < ss.length then finished ++ [(current, ss.length)] else finished, ss.length + 1, ?_, ?_, ?_⟩
  · split
    · rename_i hzero
      rw [hzero] at hsum
      exact hsum
    · rw [Histogram.sum_add, UInt64.toNat_add, Nat.mod_eq_of_lt (by omega)]
      exact hsum
  · rw [List.map_append, List.map_singleton, hup]
    exact hover
  · rw [hended, List.map_append, hsamples]
    split
    · rw [List.map_append, List.map_singleton, List.map_singleton, hopen]
    · rw [List.map_nil, List.append_nil]
  · rw [List.length_append, List.length_singleton, Nat.sub_self]
    rfl

/-- One more schedule counts. -/
theorem concat (h : c.Counted action ss samples) (hlength : ss.length + 1 < 2 ^ 64) :
    (c.see action s).Counted action (ss ++ [s]) (samples ++ c.ended action s) := by
  cases hup : s.holdsUp action with
  | true =>
    rw [show c.ended action s = [] by simp [ended, hup], List.append_nil]
    exact h.concat_of_holdsUp hlength hup
  | false => exact h.concat_of_not_holdsUp hlength hup

/-- The counters of an action after some schedules. -/
theorem of_schedules (hlength : ss.length < 2 ^ 64) :
    (ofSchedules action ss).Counted action ss (added action {} ss) := by
  induction ss using List.reverseRecOn with
  | nil => exact nil action
  | append_singleton ss s ih =>
    rw [List.length_append, List.length_singleton] at hlength
    rw [ofSchedules_concat, added_concat]
    exact (ih (by omega)).concat hlength

end Counted

/-- The length of the longest stretch of flags that are set, 0 if there is none. -/
structure IsLongest (flags : List Bool) (n : Nat) : Prop where
  /-- no stretch is longer -/
  le : ∀ {first stop : Nat}, Stretch (Flagged flags) first stop → stop - first ≤ n
  /-- one is as long -/
  attained : n = 0 ∨ ∃ first stop : Nat, Stretch (Flagged flags) first stop ∧ stop - first = n

theorem toNat_longestStall (c : ActionTally) :
    c.longestStall.toNat = Nat.max c.stalls.max.toNat c.openStall.toNat := by
  unfold longestStall
  split
  · rename_i hlt
    exact (Nat.max_eq_right (UInt64.lt_iff_toNat_lt.mp hlt).le).symm
  · rename_i hle
    exact (Nat.max_eq_left (UInt64.le_iff_toNat_le.mp (UInt64.not_lt.mp hle))).symm

/-- The longest stall is the longest stretch, be it over or going on. -/
theorem Counted.isLongest {samples : List UInt64} (h : c.Counted action ss samples)
    (hstalls : c.stalls = Histogram.ofList samples) :
    IsLongest (ss.map fun s => s.holdsUp action) c.longestStall.toNat := by
  obtain ⟨finished, current, hstretches, hsamples, hopen⟩ := h.stretches
  obtain ⟨hle, hmax⟩ := Histogram.le_max_ofList samples
  rw [← hstalls] at hle hmax
  rw [toNat_longestStall]
  have hlength : (ss.map fun s => s.holdsUp action).length = ss.length := List.length_map _
  constructor
  · intro first stop hstretch
    by_cases hstop : stop < (ss.map fun s => s.holdsUp action).length
    · have hmem : stop - first ∈ samples.map UInt64.toNat :=
        hsamples ▸ List.mem_map_of_mem (hstretches.mem_iff.mpr ⟨hstretch, hstop⟩)
      obtain ⟨x, hx, heq⟩ := List.mem_map.mp hmem
      rw [← heq]
      exact (UInt64.le_iff_toNat_le.mp (hle x hx)).trans (Nat.le_max_left _ _)
    · have hnonempty := hstretch.nonempty
      have hlast := lt_length_of_flagged (hstretch.holds (stop - 1) (by omega) (by omega))
      obtain rfl : stop = (ss.map fun s => s.holdsUp action).length := by omega
      obtain ⟨rfl, -⟩ := hstretches.stretch_length_iff.mp hstretch
      rw [hlength, ← hopen]
      exact Nat.le_max_right _ _
  · rcases Nat.lt_or_ge c.stalls.max.toNat c.openStall.toNat with hlt | hge
    · rw [show Nat.max c.stalls.max.toNat c.openStall.toNat = c.openStall.toNat from Nat.max_eq_right hlt.le]
      refine .inr ⟨current, _, hstretches.stretch_length_iff.mpr ⟨rfl, by omega⟩, ?_⟩
      rw [hlength, hopen]
    · rw [show Nat.max c.stalls.max.toNat c.openStall.toNat = c.stalls.max.toNat from Nat.max_eq_left hge]
      refine hmax.imp (fun hzero => by rw [hzero]; rfl) fun hmem => ?_
      have hlengths : c.stalls.max.toNat ∈ finished.map fun p => p.2 - p.1 :=
        hsamples ▸ List.mem_map_of_mem hmem
      obtain ⟨p, hp, heq⟩ := List.mem_map.mp hlengths
      exact ⟨p.1, p.2, (hstretches.mem_iff.mp hp).1, heq⟩

/-- The counters of an action are the statistics of schedules. -/
structure Statistics (c : ActionTally) (action : Nat) (ss : List Schedule) : Prop where
  /-- they count the schedules and their stretches -/
  counted : c.Counted action ss (added action {} ss)
  /-- the finished stalls are the samples that were added -/
  stalls : c.stalls = .ofList (added action {} ss)
  /-- the action stalls when it could run and does not -/
  stalled : c.stalled = c.runnable - c.granted
  /-- it runs only when it could -/
  granted_le : c.granted ≤ c.runnable
  /-- it could run only when it was requested -/
  runnable_le : c.runnable ≤ c.requested
  /-- it is requested at most once a cycle -/
  requested_le : c.requested.toNat ≤ ss.length
  /-- the longest stall that figures show is the longest stretch, finished or not -/
  longest : ∃ n : UInt64, c.figures.lookup "max_stall_run" = some n ∧
    IsLongest (ss.map fun s => s.holdsUp action) n.toNat

/-- If only what could run is granted and only what is requested could run, the counters are statistics. -/
theorem statistics_ofSchedules (hlength : ss.length < 2 ^ 64)
    (hgranted : ∀ s ∈ ss, s.grants action = true → s.couldRun action = true)
    (hrunnable : ∀ s ∈ ss, s.couldRun action = true → s.requests action = true) :
    (ofSchedules action ss).Statistics action ss := by
  have hcounted : (ofSchedules action ss).Counted action ss (added action {} ss) := .of_schedules hlength
  have hstalls : (ofSchedules action ss).stalls = .ofList (added action {} ss) := stalls_foldl {} ss
  have hgranted_le : ss.countP (fun s => s.grants action) ≤ ss.countP fun s => s.couldRun action :=
    List.countP_mono_left hgranted
  have hrunnable_le : ss.countP (fun s => s.couldRun action) ≤ ss.countP fun s => s.requests action :=
    List.countP_mono_left hrunnable
  -- what could run either runs or is held up
  have hsplit : ss.countP (fun s => s.couldRun action) =
      ss.countP (fun s => s.grants action) + ss.countP fun s => s.holdsUp action := by
    rw [List.countP_eq_countP_filter_add ss (fun s => s.couldRun action) fun s => s.grants action,
      List.countP_filter, List.countP_filter]
    congr 1
    refine List.countP_congr fun s hs => ?_
    rw [Bool.and_eq_true]
    exact ⟨And.right, fun h => ⟨hgranted s hs h, h⟩⟩
  have hle : (ofSchedules action ss).granted ≤ (ofSchedules action ss).runnable := by
    rw [UInt64.le_iff_toNat_le, hcounted.granted, hcounted.runnable]
    exact hgranted_le
  refine ⟨hcounted, hstalls, ?_, hle, ?_, ?_, _, rfl, hcounted.isLongest hstalls⟩
  · rw [← UInt64.toNat_inj, UInt64.toNat_sub_of_le _ _ hle, hcounted.stalled, hcounted.runnable,
      hcounted.granted]
    omega
  · rw [UInt64.le_iff_toNat_le, hcounted.runnable, hcounted.requested]
    exact hrunnable_le
  · rw [hcounted.requested]
    exact List.countP_le_length

end ActionTally

/-! ## Counters of all actions -/

namespace FigureTable

/-- A subject without figures is entered at the end. -/
theorem enter_of_fresh {subject : String} {figures : List (String × UInt64)} {table : FigureTable}
    (h : subject ∉ table.map Prod.fst) : enter subject figures table = table ++ [(subject, figures)] := by
  induction table with
  | nil => rfl
  | cons entry rest ih =>
    rw [List.map_cons, List.mem_cons, not_or] at h
    unfold enter
    rw [if_neg (Ne.symm h.1), ih h.2, List.cons_append]

/-- Subjects of different names are entered one after the other. -/
theorem foldl_enter (entries : List (String × ActionTally)) (table : FigureTable)
    (h : (table.map Prod.fst ++ entries.map Prod.fst).Nodup) :
    entries.foldl (fun all (name, c) => enter name c.figures all) table =
      table ++ entries.map fun e => (e.1, e.2.figures) := by
  induction entries generalizing table with
  | nil => exact (List.append_nil _).symm
  | cons entry rest ih =>
    have hfresh : entry.1 ∉ table.map Prod.fst := fun hmem =>
      (List.nodup_append.mp h).2.2 _ hmem _ List.mem_cons_self rfl
    have hrest : ((table ++ [(entry.1, entry.2.figures)]).map Prod.fst ++ rest.map Prod.fst).Nodup := by
      rw [List.map_append, List.append_assoc]
      exact h
    change rest.foldl _ (enter entry.1 entry.2.figures table) = _
    rw [enter_of_fresh hfresh, ih _ hrest, List.append_assoc]
    rfl

/-- The figures of a subject that stands at some position. -/
theorem lookup_of_getElem? {table : FigureTable} {id : Nat} {subject : String} {figures : List (String × UInt64)}
    (hnodup : (table.map Prod.fst).Nodup) (h : table[id]? = some (subject, figures)) :
    table.lookup subject = some figures := by
  induction table generalizing id with
  | nil => cases h
  | cons entry rest ih =>
    rw [List.map_cons, List.nodup_cons] at hnodup
    cases id with
    | zero =>
      obtain rfl := Option.some.inj h
      exact List.lookup_cons_self
    | succ id =>
      have hmem : subject ∈ rest.map Prod.fst :=
        List.mem_map_of_mem (f := Prod.fst) (List.mem_of_getElem? (show rest[id]? = _ from h))
      have hne : (subject == entry.1) = false := beq_eq_false_iff_ne.mpr fun heq => hnodup.1 (heq ▸ hmem)
      rw [List.lookup_cons, hne]
      exact ih hnodup.2 h

end FigureTable

namespace Tally

/-- The tally after some schedules of actions with the given names. -/
def ofSchedules (names : List String) (ss : List Schedule) : Tally := ss.foldl (fun x s => x.observe s names) {}

/-- The counters of every action, with the number of schedules. -/
def summary (names : List String) (ss : List Schedule) : Tally where
  names := names
  actions := (List.range names.length).map fun id => ActionTally.ofSchedules id ss
  cycles := .ofNat ss.length

variable {names : List String} {ss : List Schedule}

theorem extend_summary : (summary names ss).extend names = summary names ss := by
  unfold extend
  exact if_neg (by simp [summary])

theorem observe_of_extend {x : Tally} {s : Schedule} (h : x.extend names = summary names ss) :
    x.observe s names = summary names (ss ++ [s]) := by
  unfold observe
  rw [h]
  unfold summary
  rw [Tally.mk.injEq]
  refine ⟨rfl, ?_, ?_⟩
  · refine List.ext_getElem? fun id => ?_
    rw [List.getElem?_map, List.getElem?_zipIdx, List.getElem?_map, List.getElem?_map]
    by_cases hid : id < names.length
    · rw [List.getElem?_range hid]
      simp only [Option.map_some, Nat.zero_add, if_pos hid, ActionTally.ofSchedules_concat]
      rfl
    · rw [List.getElem?_eq_none (by rw [List.length_range]; omega)]
      rfl
  · rw [List.length_append, List.length_singleton, UInt64.ofNat_add]
    rfl

theorem extend_ofSchedules (names : List String) (ss : List Schedule) :
    (ofSchedules names ss).extend names = summary names ss := by
  induction ss using List.reverseRecOn with
  | nil =>
    by_cases hnames : names = []
    · rw [hnames]
      rfl
    · have hlt : ([] : List ActionTally).length < names.length := List.length_pos_iff.mpr hnames
      have hactions : (List.range names.length).map (fun id => ActionTally.ofSchedules id []) =
          List.replicate names.length {} :=
        List.map_const'.trans (by rw [List.length_range])
      unfold summary
      rw [hactions]
      exact if_pos hlt
  | append_singleton ss s ih =>
    have hconcat : ofSchedules names (ss ++ [s]) = (ofSchedules names ss).observe s names := List.foldl_concat ..
    rw [hconcat, observe_of_extend ih, extend_summary]

theorem ofSchedules_eq_summary (hss : ss ≠ []) : ofSchedules names ss = summary names ss := by
  obtain ⟨before, s, rfl⟩ := ss.eq_nil_or_concat.resolve_left hss
  have hconcat : ofSchedules names (before ++ [s]) = (ofSchedules names before).observe s names :=
    List.foldl_concat ..
  rw [List.concat_eq_append, hconcat, observe_of_extend (extend_ofSchedules names before)]

/-- The counters of an action are found under its name. -/
theorem lookup?_summary {id : Nat} {name : String} (hnames : names.Nodup) (hid : names[id]? = some name) :
    (summary names ss).lookup? name = some (ActionTally.ofSchedules id ss) := by
  obtain ⟨hlt, hname⟩ := List.getElem?_eq_some_iff.mp hid
  have hfind : names.findIdx? (· == name) = some id := by
    refine List.findIdx?_eq_some_iff_getElem.mpr ⟨hlt, beq_iff_eq.mpr hname, fun j hj heq => ?_⟩
    exact hj.ne (hnames.getElem_inj_iff.mp ((beq_iff_eq.mp heq).trans hname.symm))
  unfold lookup? summary
  rw [hfind]
  change ((List.range names.length).map _)[id]? = _
  rw [List.getElem?_map, List.getElem?_range hlt]
  rfl

/-- So are its figures. -/
theorem lookup_collect_summary {id : Nat} {name : String} (hnames : names.Nodup) (hid : names[id]? = some name) :
    ((summary names ss).collect []).lookup name = some (ActionTally.ofSchedules id ss).figures := by
  have hlt := (List.getElem?_eq_some_iff.mp hid).1
  have hlength : names.length ≤ (summary names ss).actions.length := by simp [summary]
  have hsubjects : (names.zip (summary names ss).actions).map Prod.fst = names := List.map_fst_zip hlength
  have hcollect : (summary names ss).collect [] =
      (names.zip (summary names ss).actions).map fun e => (e.1, e.2.figures) :=
    FigureTable.foldl_enter _ [] (hsubjects.symm ▸ hnames)
  have hnodup : (((summary names ss).collect []).map Prod.fst).Nodup := by
    rw [hcollect, List.map_map]
    exact hsubjects.symm ▸ hnames
  have hcounters : (summary names ss).actions[id]? = some (ActionTally.ofSchedules id ss) := by
    unfold summary
    rw [List.getElem?_map, List.getElem?_range hlt]
    rfl
  have hentry : (names.zip (summary names ss).actions)[id]? = some (name, ActionTally.ofSchedules id ss) :=
    List.getElem?_zip_eq_some.mpr ⟨hid, hcounters⟩
  have hfigures : ((summary names ss).collect [])[id]? = some (name, (ActionTally.ofSchedules id ss).figures) := by
    rw [hcollect, List.getElem?_map, hentry]
    rfl
  exact FigureTable.lookup_of_getElem? hnodup hfigures

variable {σ : Type} {K : σ → σ → Prop} {m₀ m : Machine σ} {plan : Plan}

/-- The tally after some cycles that it was told about. -/
def ofCycles (history : List (Machine.Cycle σ)) : Tally :=
  history.foldl (fun x c => x.observe c.schedule (c.machine.design.main.actions.map Action.name)) {}

/-- Counters that are told about every cycle of a run, from some cycle on, are the statistics of the schedules
since then: they count requests, chances, runs and stalls, they add the lengths of the finished stretches of
stalls in order, and they show the length of the longest stretch, finished or not. -/
theorem statistics_of_run (built : m₀.design.Built) (hplan : m₀.design.main.plan = some plan)
    {before history : List (Machine.Cycle σ)} (run : Machine.Clocked K m₀ (before ++ history) m)
    (hlength : history.length < 2 ^ 64) :
    (ofCycles history).cycles.toNat = history.length ∧
      ∀ {id : Nat} {a : Action σ}, m₀.design.main.action? id = some a →
        ∃ c : ActionTally, c.Statistics id (history.map Machine.Cycle.schedule) ∧
          (ofCycles history).lookup? a.name = (if history.isEmpty then none else some c) ∧
          ((ofCycles history).collect []).lookup a.name = (if history.isEmpty then none else some c.figures) := by
  have helaborated := built.elaborated hplan
  -- every cycle was scheduled by a machine of the same design
  have hcycle : ∀ c ∈ history, c.machine.design = m₀.design ∧ c.machine.schedule = .ok c.schedule := by
    intro c hc
    obtain ⟨early, late, rfl⟩ := List.append_of_mem hc
    obtain ⟨hrun, hschedule, -⟩ := run.of_append (List.append_assoc before early (c :: late)).symm
    exact ⟨hrun.same.1, hschedule⟩
  have hschedules : ∀ s ∈ history.map Machine.Cycle.schedule, ∀ id,
      (s.grants id = true → s.couldRun id = true) ∧ (s.couldRun id = true → s.requests id = true) := by
    intro s hs id
    obtain ⟨c, hc, rfl⟩ := List.mem_map.mp hs
    obtain ⟨hdesign, hschedule⟩ := hcycle c hc
    rw [← hdesign] at helaborated hplan
    have hparts := Machine.schedules_of_schedule helaborated hplan hschedule
    exact ⟨hparts.runnable_of_granted helaborated, hparts.requested_of_runnable helaborated⟩
  have htally : ofCycles history =
      ofSchedules (m₀.design.main.actions.map Action.name) (history.map Machine.Cycle.schedule) := by
    unfold ofCycles ofSchedules
    rw [List.foldl_map]
    exact List.foldl_ext _ _ _ fun x c hc => by rw [(hcycle c hc).1]
  have hnames : (m₀.design.main.actions.map Action.name).Nodup := Registry.nodup_of_namesDistinct helaborated.names
  rcases history.eq_nil_or_concat with rfl | hconcat
  · refine ⟨rfl, fun {id a} _ => ⟨{}, ?_, rfl, rfl⟩⟩
    exact show (ActionTally.ofSchedules id []).Statistics id [] from
      ActionTally.statistics_ofSchedules hlength nofun nofun
  · have hne : history.map Machine.Cycle.schedule ≠ [] := by
      obtain ⟨early, c, rfl⟩ := hconcat
      simp
    have hempty : history.isEmpty = false := by simpa using hne
    rw [htally, ofSchedules_eq_summary hne, hempty]
    have hposition : ∀ {id : Nat} {a : Action σ}, m₀.design.main.action? id = some a →
        (m₀.design.main.actions.map Action.name)[id]? = some a.name := by
      intro id a ha
      rw [List.getElem?_map, show m₀.design.main.actions[id]? = some a from ha]
      rfl
    refine ⟨?_, fun {id a} ha => ⟨.ofSchedules id (history.map Machine.Cycle.schedule), ?_,
      lookup?_summary hnames (hposition ha), lookup_collect_summary hnames (hposition ha)⟩⟩
    · change (UInt64.ofNat (history.map _).length).toNat = _
      rw [List.length_map, UInt64.toNat_ofNat_of_lt' hlength]
    · exact ActionTally.statistics_ofSchedules (by rwa [List.length_map]) (fun s hs => (hschedules s hs id).1)
        fun s hs => (hschedules s hs id).2

end Tally

/-! ## A printer with two customers

Both customers call the printer.  The better one wants to print in all cycles but the third, and the other one
in every cycle, so that it waits for two cycles, prints and waits again. -/

namespace Printer

/-- A printer that prints nothing and counts nothing; the state is the number of the cycle. -/
def steps : List (Registration Nat) :=
  [.newMethod .main "print" Shape.empty Shape.empty none,
   .setMethod ⟨.main, 0⟩ (.body fun args => .done args),
   .newTransaction .main "urgent" 1 none,
   .setTransaction ⟨.main, 1⟩ (.request fun view => .ok (view.state != 2)),
   .setTransaction ⟨.main, 1⟩ (.body (.call (.perform ⟨.main, 0⟩ none) fun _ => .done ())),
   .newTransaction .main "patient" 0 none,
   .setTransaction ⟨.main, 2⟩ (.body (.call (.perform ⟨.main, 0⟩ none) fun _ => .done ())),
   .newCall ⟨.main, 1⟩ ⟨.main, 0⟩,
   .newCall ⟨.main, 2⟩ ⟨.main, 0⟩]

/-- The printer at the start. -/
def machine : Machine Nat where
  design := (Design.registerAll steps {}).elaborate.1
  parts := [{ name := "clock", elements := [], commit := (· + 1), reset := fun _ => 0 }]
  state := 0

theorem built : machine.design.Built := .elaborate (.registerAll steps .empty)

/-- The second customer has the stretches of two cycles and of one, and the counters show the longer one. -/
theorem statistics_patient : ∃ (history : List (Machine.Cycle Nat)) (last : Machine Nat) (c : ActionTally),
    Machine.Clocked Eq machine history last ∧
      history.map (fun c => c.schedule.holdsUp 2) = [true, true, false, true] ∧
        (Tally.ofCycles history).lookup? "patient" = some c ∧
          c.Statistics 2 (history.map Machine.Cycle.schedule) ∧ c.longestStall = 2 := by
  obtain ⟨plan, hplan⟩ : ∃ plan, machine.design.main.plan = some plan :=
    Option.isSome_iff_exists.mp (by cbv)
  obtain ⟨a, ha, hname⟩ : ∃ a, machine.design.main.action? 2 = some a ∧ a.name = "patient" :=
    Option.map_eq_some_iff.mp (by cbv)
  have hclock : (machine.clock 4).map (fun r => (r.1.map (fun c => c.schedule.holdsUp 2),
      ((Tally.ofCycles r.1).lookup? "patient").map ActionTally.longestStall)) =
        .ok ([true, true, false, true], some 2) := by cbv
  cases hrun : machine.clock 4 with
  | error fault =>
    rw [hrun] at hclock
    cases hclock
  | ok result =>
    obtain ⟨history, last⟩ := result
    rw [hrun] at hclock
    obtain ⟨hflags, hlongest⟩ := Prod.mk.inj (Except.ok.inj hclock)
    have hlength : history.length = 4 := by
      have hlength := congrArg List.length hflags
      rwa [List.length_map] at hlength
    have run : Machine.Clocked Eq machine ([] ++ history) last := Machine.Clocked.of_clock .start hrun
    obtain ⟨-, hstatistics⟩ := Tally.statistics_of_run built hplan run (by rw [hlength]; decide)
    obtain ⟨c, hc, hlookup, -⟩ := hstatistics ha
    have hempty : history.isEmpty = false := by
      rw [List.isEmpty_eq_false_iff, ← List.length_pos_iff, hlength]
      decide
    rw [hname, hempty] at hlookup
    rw [hlookup] at hlongest
    exact ⟨history, last, c, run, hflags, hlookup, hc, Option.some.inj hlongest⟩

end Printer

end GuardedActions
