import GuardedActions.Histogram
import Mathlib

/-!
# What a histogram says about its samples

A histogram keeps no samples, but every figure in it is a figure of the samples alone: how many there are of each
magnitude, how many buckets the greatest one needs, how many there are in all, their sum, the least and the
greatest (`Histogram.Summarizes`).  None of them depends on the order in which the samples came.  Counters are
machine words; as long as there are fewer than `2^64` samples they count exactly.
-/

set_option autoImplicit false

namespace GuardedActions

namespace Histogram

/-! ## Magnitudes -/

/-- Whether a bucket is the one for a sample: the first for 0 and 1, every other one for the numbers from its power
of two on below the next. -/
def Holds (bucket : Nat) (sample : UInt64) : Prop :=
  if bucket = 0 then sample.toNat ≤ 1 else 2 ^ bucket ≤ sample.toNat ∧ sample.toNat < 2 ^ (bucket + 1)

instance (bucket : Nat) (sample : UInt64) : Decidable (Holds bucket sample) := by
  unfold Holds
  exact inferInstance

theorem holds_iff {bucket : Nat} {sample : UInt64} : Holds bucket sample ↔ bucketOf sample = bucket := by
  have hone : sample ≤ 1 ↔ sample.toNat ≤ 1 := UInt64.le_iff_toNat_le
  unfold Holds bucketOf
  by_cases hsmall : sample.toNat ≤ 1
  · rw [if_pos (hone.mpr hsmall)]
    by_cases hzero : bucket = 0
    · rw [if_pos hzero]
      exact ⟨fun _ => hzero.symm, fun _ => hsmall⟩
    · have hpow : 2 ^ 1 ≤ 2 ^ bucket := Nat.pow_le_pow_right (by decide) (Nat.pos_of_ne_zero hzero)
      rw [if_neg hzero]
      omega
  · rw [if_neg (mt hone.mp hsmall), Nat.log2_eq_iff (by omega)]
    by_cases hzero : bucket = 0
    · rw [if_pos hzero, hzero]
      omega
    · rw [if_neg hzero]

/-- A greater sample goes into the same bucket or a later one. -/
theorem bucketOf_mono {sample sample' : UInt64} (h : sample ≤ sample') : bucketOf sample ≤ bucketOf sample' := by
  have hle : sample.toNat ≤ sample'.toNat := UInt64.le_iff_toNat_le.mp h
  have hone : ∀ x : UInt64, x ≤ 1 ↔ x.toNat ≤ 1 := fun x => UInt64.le_iff_toNat_le
  unfold bucketOf
  split
  · exact Nat.zero_le _
  · rename_i hbig
    rw [hone] at hbig
    rw [if_neg (by rw [hone]; omega), Nat.le_log2 (by omega)]
    exact Nat.le_trans (Nat.log2_self_le (by omega)) hle

/-! ## One more sample -/

/-- One bucket counts one more, all others what they counted. -/
theorem getD_bump (i j : Nat) (buckets : List UInt64) :
    (bump i buckets)[j]?.getD 0 = buckets[j]?.getD 0 + if i = j then 1 else 0 := by
  induction i generalizing j buckets with
  | zero =>
    cases buckets with
    | nil => cases j <;> simp [bump]
    | cons b buckets => cases j <;> simp [bump]
  | succ i ih =>
    cases buckets with
    | nil => cases j <;> simp [bump, ih]
    | cons b buckets => cases j <;> simp [bump, ih]

/-- Which of two samples is counted first does not matter. -/
theorem bump_comm (i j : Nat) (buckets : List UInt64) : bump i (bump j buckets) = bump j (bump i buckets) := by
  induction i generalizing j buckets with
  | zero => cases j <;> cases buckets <;> rfl
  | succ i ih =>
    cases j with
    | zero => cases buckets <;> rfl
    | succ j => cases buckets <;> simp only [bump, ih]

/-- The counts add up to one more, but for a bucket that wraps. -/
theorem sum_bump (i : Nat) (buckets : List UInt64) :
    ((bump i buckets).map UInt64.toNat).sum ≤ (buckets.map UInt64.toNat).sum + 1 ∧
      ((bump i buckets).map UInt64.toNat).sum % 2 ^ 64 = ((buckets.map UInt64.toNat).sum + 1) % 2 ^ 64 := by
  induction i generalizing buckets with
  | zero =>
    cases buckets with
    | nil => exact ⟨Nat.le_refl _, rfl⟩
    | cons b buckets =>
      rw [bump, List.map_cons, List.map_cons, List.sum_cons, List.sum_cons, UInt64.toNat_add, UInt64.toNat_one]
      omega
  | succ i ih =>
    cases buckets with
    | nil =>
      rw [bump, List.map_cons, List.sum_cons, UInt64.toNat_zero, Nat.zero_add]
      exact ih []
    | cons b buckets =>
      obtain ⟨hle, hmod⟩ := ih buckets
      rw [bump, List.map_cons, List.map_cons, List.sum_cons, List.sum_cons]
      omega

theorem add_right_comm (h : Histogram) (x y : UInt64) : (h.add x).add y = (h.add y).add x := by
  have hleast : ∀ a b c : UInt64, (if a < (if b < c then b else c) then a else if b < c then b else c) =
      if b < (if a < c then a else c) then b else if a < c then a else c := by
    intro a b c
    rw [← UInt64.toNat_inj]
    simp only [UInt64.lt_iff_toNat_lt]
    split_ifs <;> omega
  have hgreatest : ∀ a b c : UInt64, (if (if c < b then b else c) < a then a else if c < b then b else c) =
      if (if c < a then a else c) < b then b else if c < a then a else c := by
    intro a b c
    rw [← UInt64.toNat_inj]
    simp only [UInt64.lt_iff_toNat_lt]
    split_ifs <;> omega
  unfold add
  rw [bump_comm, hleast, hgreatest, UInt64.add_assoc h.sum, UInt64.add_comm x, ← UInt64.add_assoc]

/-! ## All samples -/

variable (samples : List UInt64)

theorem count_ofList : (ofList samples).count = UInt64.ofNat samples.length := by
  induction samples using List.reverseRecOn with
  | nil => rfl
  | append_singleton samples x ih =>
    rw [ofList_concat, count_add, ih, List.length_append, List.length_singleton, UInt64.ofNat_add]
    rfl

theorem sum_ofList : (ofList samples).sum = UInt64.ofNat (samples.map UInt64.toNat).sum := by
  induction samples using List.reverseRecOn with
  | nil => rfl
  | append_singleton samples x ih =>
    rw [ofList_concat, sum_add, ih, List.map_append, List.sum_append, List.map_singleton, List.sum_singleton,
      UInt64.ofNat_add, UInt64.ofNat_toNat]

theorem getD_buckets_ofList (i : Nat) :
    (ofList samples).buckets[i]?.getD 0 = UInt64.ofNat (samples.countP fun x => Holds i x) := by
  induction samples using List.reverseRecOn with
  | nil => rfl
  | append_singleton samples x ih =>
    have hadd : ((ofList samples).add x).buckets = bump (bucketOf x) (ofList samples).buckets := rfl
    rw [ofList_concat, hadd, getD_bump, ih, List.countP_append, List.countP_singleton, UInt64.ofNat_add]
    by_cases hx : bucketOf x = i
    · rw [if_pos hx, if_pos (decide_eq_true (holds_iff.mpr hx))]
      rfl
    · rw [if_neg hx, if_neg (by rw [decide_eq_true_iff, holds_iff]; exact hx)]
      rfl

/-- There are buckets up to those of the samples. -/
theorem lt_length_buckets_ofList {i : Nat} :
    i < (ofList samples).buckets.length ↔ ∃ x ∈ samples, i ≤ bucketOf x := by
  induction samples using List.reverseRecOn with
  | nil => simp
  | append_singleton samples x ih =>
    have hadd : ((ofList samples).add x).buckets = bump (bucketOf x) (ofList samples).buckets := rfl
    have hmax : i < Nat.max (bucketOf x + 1) (ofList samples).buckets.length ↔
        i < bucketOf x + 1 ∨ i < (ofList samples).buckets.length := lt_max_iff
    rw [ofList_concat, hadd, length_bump, hmax, ih, Nat.lt_succ_iff]
    simp only [List.mem_append, List.mem_singleton]
    constructor
    · rintro (hx | ⟨y, hy, hle⟩)
      · exact ⟨x, .inr rfl, hx⟩
      · exact ⟨y, .inl hy, hle⟩
    · rintro ⟨y, hy | rfl, hle⟩
      · exact .inr ⟨y, hy, hle⟩
      · exact .inl hle

theorem sum_buckets_ofList :
    ((ofList samples).buckets.map UInt64.toNat).sum ≤ samples.length ∧
      ((ofList samples).buckets.map UInt64.toNat).sum % 2 ^ 64 = samples.length % 2 ^ 64 := by
  induction samples using List.reverseRecOn with
  | nil => exact ⟨Nat.le_refl _, rfl⟩
  | append_singleton samples x ih =>
    have hadd : ((ofList samples).add x).buckets = bump (bucketOf x) (ofList samples).buckets := rfl
    obtain ⟨hle, hmod⟩ := sum_bump (bucketOf x) (ofList samples).buckets
    rw [ofList_concat, hadd, List.length_append, List.length_singleton]
    omega

/-- No sample is greater than the greatest, which is a sample unless it is 0. -/
theorem le_max_ofList :
    (∀ x ∈ samples, x ≤ (ofList samples).max) ∧
      ((ofList samples).max = 0 ∨ (ofList samples).max ∈ samples) := by
  induction samples using List.reverseRecOn with
  | nil => exact ⟨nofun, .inl rfl⟩
  | append_singleton samples sample ih =>
    obtain ⟨hle, hattained⟩ := ih
    have hmax : (ofList (samples ++ [sample])).max =
        if (ofList samples).max < sample then sample else (ofList samples).max := by
      rw [ofList_concat]
      rfl
    rw [hmax]
    split
    · rename_i hlt
      refine ⟨fun x hx => ?_, .inr (List.mem_append_right _ List.mem_cons_self)⟩
      rcases List.mem_append.mp hx with hold | hnew
      · exact UInt64.le_trans (hle x hold) (UInt64.le_of_lt hlt)
      · exact List.mem_singleton.mp hnew ▸ UInt64.le_refl _
    · rename_i hlt
      refine ⟨fun x hx => ?_, hattained.imp_right (List.mem_append_left _)⟩
      rcases List.mem_append.mp hx with hold | hnew
      · exact hle x hold
      · exact List.mem_singleton.mp hnew ▸ UInt64.not_lt.mp hlt

/-- No sample is less than the least, which is a sample unless it is the largest word. -/
theorem least_ofList_le :
    (∀ x ∈ samples, (ofList samples).least ≤ x) ∧
      ((ofList samples).least = 0xFFFFFFFFFFFFFFFF ∨ (ofList samples).least ∈ samples) := by
  induction samples using List.reverseRecOn with
  | nil => exact ⟨nofun, .inl rfl⟩
  | append_singleton samples sample ih =>
    obtain ⟨hle, hattained⟩ := ih
    have hleast : (ofList (samples ++ [sample])).least =
        if sample < (ofList samples).least then sample else (ofList samples).least := by
      rw [ofList_concat]
      rfl
    rw [hleast]
    split
    · rename_i hlt
      refine ⟨fun x hx => ?_, .inr (List.mem_append_right _ List.mem_cons_self)⟩
      rcases List.mem_append.mp hx with hold | hnew
      · exact UInt64.le_trans (UInt64.le_of_lt hlt) (hle x hold)
      · exact List.mem_singleton.mp hnew ▸ UInt64.le_refl _
    · rename_i hlt
      refine ⟨fun x hx => ?_, hattained.imp_right (List.mem_append_left _)⟩
      rcases List.mem_append.mp hx with hold | hnew
      · exact hle x hold
      · exact List.mem_singleton.mp hnew ▸ UInt64.not_lt.mp hlt

variable {samples}

theorem max_ofList_mem (hsome : samples ≠ []) : (ofList samples).max ∈ samples := by
  obtain ⟨hle, hzero | hmem⟩ := le_max_ofList samples
  · -- 0 is what there is before the first sample, but then every sample is 0
    obtain ⟨x, hx⟩ := List.exists_mem_of_ne_nil _ hsome
    have hx' := hle x hx
    rw [hzero, UInt64.le_zero_iff] at hx'
    rw [hzero, ← hx']
    exact hx
  · exact hmem

theorem least_ofList_mem (hsome : samples ≠ []) : (ofList samples).least ∈ samples := by
  obtain ⟨hle, hones | hmem⟩ := least_ofList_le samples
  · obtain ⟨x, hx⟩ := List.exists_mem_of_ne_nil _ hsome
    have hx' := UInt64.le_iff_toNat_le.mp (hle x hx)
    have hlt := x.toNat_lt
    have hsame : x = 0xFFFFFFFFFFFFFFFF := by
      rw [hones] at hx'
      rw [← UInt64.toNat_inj]
      have hnumber : (0xFFFFFFFFFFFFFFFF : UInt64).toNat = 2 ^ 64 - 1 := rfl
      omega
    rw [hones, ← hsame]
    exact hx
  · exact hmem

/-! ## The summary -/

/-- The figures of a histogram are those of some samples. -/
structure Summarizes (h : Histogram) (samples : List UInt64) : Prop where
  /-- a bucket counts the samples of its magnitude, and where there is no bucket there is nothing to count -/
  bucket : ∀ i, h.buckets[i]?.getD 0 = UInt64.ofNat (samples.countP fun x => Holds i x)
  /-- there are no buckets before the first sample -/
  no_buckets : samples = [] → h.buckets = []
  /-- later the last bucket is that of the greatest sample -/
  last_bucket : samples ≠ [] → ∃ last, h.buckets.length = last + 1 ∧ ∃ greatest ∈ samples,
    (∀ x ∈ samples, x ≤ greatest) ∧ Holds last greatest
  /-- the samples are counted -/
  count : h.count = UInt64.ofNat samples.length
  /-- the buckets add up to that -/
  total : (h.buckets.map UInt64.toNat).sum % 2 ^ 64 = h.count.toNat
  /-- the samples are added up modulo `2^64` -/
  sum : h.sum.toNat = (samples.map UInt64.toNat).sum % 2 ^ 64
  /-- the least sample -/
  min : samples.length % 2 ^ 64 ≠ 0 → h.min ∈ samples ∧ ∀ x ∈ samples, h.min ≤ x
  /-- the greatest sample -/
  max : samples ≠ [] → h.max ∈ samples ∧ ∀ x ∈ samples, x ≤ h.max
  /-- both are 0 before the first sample -/
  no_extremes : samples = [] → h.min = 0 ∧ h.max = 0
  /-- no counter wraps before there are `2^64` samples -/
  exact : samples.length < 2 ^ 64 → h.count.toNat = samples.length ∧
    (h.buckets.map UInt64.toNat).sum = samples.length ∧
    ∀ i, (h.buckets[i]?.getD 0).toNat = samples.countP fun x => Holds i x

theorem min_ofList (hcount : samples.length % 2 ^ 64 ≠ 0) : (ofList samples).min = (ofList samples).least := by
  have hnonzero : ¬ UInt64.ofNat samples.length = 0 := by
    rw [← UInt64.toNat_inj, UInt64.toNat_ofNat']
    exact hcount
  unfold min
  rw [count_ofList, if_neg hnonzero]

/-- The samples need no more buckets than the greatest one. -/
theorem length_buckets_ofList (hsome : samples ≠ []) :
    (ofList samples).buckets.length = bucketOf (ofList samples).max + 1 := by
  have hmem := max_ofList_mem hsome
  have hle := (le_max_ofList samples).1
  have hlast : bucketOf (ofList samples).max < (ofList samples).buckets.length :=
    (lt_length_buckets_ofList samples).mpr ⟨_, hmem, Nat.le_refl _⟩
  have hend : ¬ bucketOf (ofList samples).max + 1 < (ofList samples).buckets.length := by
    rw [lt_length_buckets_ofList]
    rintro ⟨x, hx, hbeyond⟩
    exact absurd (bucketOf_mono (hle x hx)) (Nat.not_le_of_gt hbeyond)
  omega

/-- A histogram summarizes the samples that were added to it, in whatever order they came. -/
theorem summarizes_samples (samples : List UInt64) :
    (ofList samples).Summarizes samples ∧
      ∀ other : List UInt64, samples.Perm other → ofList other = ofList samples := by
  obtain ⟨htotal_le, htotal⟩ := sum_buckets_ofList samples
  refine ⟨?_, fun other hperm => ?_⟩
  · constructor
    case bucket => exact getD_buckets_ofList samples
    case no_buckets =>
      rintro rfl
      rfl
    case last_bucket =>
      intro hsome
      exact ⟨_, length_buckets_ofList hsome, _, max_ofList_mem hsome, (le_max_ofList samples).1,
        holds_iff.mpr rfl⟩
    case count => exact count_ofList samples
    case total =>
      rw [htotal, count_ofList, UInt64.toNat_ofNat']
    case sum => rw [sum_ofList, UInt64.toNat_ofNat']
    case min =>
      intro hcount
      have hsome : samples ≠ [] := by
        rintro rfl
        exact hcount rfl
      rw [min_ofList hcount]
      exact ⟨least_ofList_mem hsome, (least_ofList_le samples).1⟩
    case max => exact fun hsome => ⟨max_ofList_mem hsome, (le_max_ofList samples).1⟩
    case no_extremes =>
      rintro rfl
      exact ⟨rfl, rfl⟩
    case exact =>
      intro hfew
      refine ⟨?_, ?_, fun i => ?_⟩
      · rw [count_ofList, UInt64.toNat_ofNat_of_lt' hfew]
      · omega
      · rw [getD_buckets_ofList]
        exact UInt64.toNat_ofNat_of_lt' (Nat.lt_of_le_of_lt List.countP_le_length hfew)
  · have : RightCommutative add := ⟨add_right_comm⟩
    exact (hperm.foldl_eq ({} : Histogram)).symm

/-! ## Words of all magnitudes -/

/-- Both words of the first bucket, both ends of two later ones, and the largest word. -/
def extremes : List UInt64 := [4, 0x8000000000000000, 0, 7, 0xFFFFFFFFFFFFFFFF, 1, 3]

/-- The buckets between the small words and the largest are empty, and the sum wraps.  Read backwards the samples
come to the same histogram. -/
theorem summarizes_extremes : (ofList extremes).Summarizes extremes ∧
    (ofList extremes).buckets = [2, 1, 2] ++ List.replicate 60 0 ++ [2] ∧
    (ofList extremes).min = 0 ∧ (ofList extremes).max = 0xFFFFFFFFFFFFFFFF ∧
    (ofList extremes).sum = 0x800000000000000E ∧ ofList extremes.reverse = ofList extremes := by
  obtain ⟨hsummary, hreordered⟩ := summarizes_samples extremes
  have hmin := (hsummary.min (by decide)).2 0 (by decide)
  exact ⟨hsummary, by decide +kernel, UInt64.le_zero_iff.mp hmin, by decide, by decide,
    hreordered _ (List.reverse_perm _).symm⟩

end Histogram

end GuardedActions
