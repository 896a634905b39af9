/-!
# Exponential histogram

Samples are machine words sorted into buckets by magnitude: bucket 0 holds 0 and 1, bucket `i` the
words from `2^i` below `2^(i+1)`.  There are just as many buckets as the largest sample needs.
-/

set_option autoImplicit false

namespace GuardedActions

/-- Counts of samples by magnitude, with their number, sum and extremes. -/
structure Histogram where
  /-- number of samples per bucket -/
  buckets : List UInt64 := []
  /-- number of samples -/
  count : UInt64 := 0
  /-- sum of the samples, modulo `2^64` -/
  sum : UInt64 := 0
  /-- least sample, the largest word before the first one -/
  least : UInt64 := 0xFFFFFFFFFFFFFFFF
  /-- greatest sample, 0 before the first one -/
  greatest : UInt64 := 0
  deriving DecidableEq, Repr, Inhabited

namespace Histogram

/-- The bucket of a sample. -/
def bucketOf (sample : UInt64) : Nat := if sample ≤ 1 then 0 else sample.toNat.log2

/-- Count one more in a bucket, adding empty buckets up to it. -/
def bump : Nat → List UInt64 → List UInt64
  | 0, [] => [1]
  | 0, b :: buckets => (b + 1) :: buckets
  | i + 1, [] => 0 :: bump i []
  | i + 1, b :: buckets => b :: bump i buckets

/-- Add a sample. -/
def add (h : Histogram) (sample : UInt64) : Histogram where
  buckets := bump (bucketOf sample) h.buckets
  count := h.count + 1
  sum := h.sum + sample
  least := if sample < h.least then sample else h.least
  greatest := if h.greatest < sample then sample else h.greatest

/-- The histogram of a list of samples. -/
def ofList (samples : List UInt64) : Histogram := samples.foldl add {}

/-- The least sample, 0 if there is none. -/
def min (h : Histogram) : UInt64 := if h.count = 0 then 0 else h.least

/-- The greatest sample, 0 if there is none. -/
def max (h : Histogram) : UInt64 := h.greatest

/-- The least word of a bucket. -/
def low (bucket : Nat) : Nat := if bucket = 0 then 0 else 1 <<< bucket

/-- The greatest word of a bucket. -/
def high (bucket : Nat) : Nat := 1 <<< (bucket + 1) - 1

/-- The line for one bucket. -/
def bucketText (bucket : Nat) (count : UInt64) : String :=
  "  [" ++ toString (low bucket) ++ ", " ++ toString (high bucket) ++ "]: "
    ++ toString count.toNat ++ "\n"

/-- A summary line and one line per bucket. -/
def text (h : Histogram) : String :=
  "count=" ++ toString h.count.toNat ++ " sum=" ++ toString h.sum.toNat ++ " min="
    ++ toString h.min.toNat ++ " max=" ++ toString h.max.toNat ++ "\n"
    ++ String.join ((h.buckets.zipIdx).map fun (count, bucket) => bucketText bucket count)

@[simp] theorem ofList_nil : ofList [] = {} := rfl

/-- The last sample is the one added last. -/
theorem ofList_concat (samples : List UInt64) (sample : UInt64) :
    ofList (samples ++ [sample]) = (ofList samples).add sample := by
  simp [ofList]

@[simp] theorem count_add (h : Histogram) (sample : UInt64) : (h.add sample).count = h.count + 1 := rfl

@[simp] theorem sum_add (h : Histogram) (sample : UInt64) : (h.add sample).sum = h.sum + sample := rfl

/-- There are just as many buckets as the sample or the others need. -/
theorem length_bump (i : Nat) (buckets : List UInt64) :
    (bump i buckets).length = Nat.max (i + 1) buckets.length := by
  induction i generalizing buckets with
  | zero => cases buckets <;> simp [bump]
  | succ i ih => cases buckets <;> simp [bump, ih]

end Histogram

end GuardedActions
