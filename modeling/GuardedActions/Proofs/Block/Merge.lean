import GuardedActions.Block.Bank
import Mathlib.Data.Nat.Basic

/-!
# Merging values chunk by chunk

A mask with one bit per chunk selects the chunks of an old value that a new value replaces.  Chunk by
chunk this is done by cutting and overwriting; bit by bit it takes every bit from the new value if the
mask has the bit of its chunk, and from the old value otherwise.
-/

set_option autoImplicit false

namespace GuardedActions

namespace Bits

/-- An old value with the bits of those chunks taken from a new value that the mask has. -/
def merge (chunk : Nat) (mask old new : Bits) : Bits :=
  ⟨_, BitVec.ofBoolListLE <|
    (List.range old.width).map fun p => if mask.test (p / chunk) then new.test p else old.test p⟩

@[simp] theorem width_merge (chunk : Nat) (mask old new : Bits) :
    (merge chunk mask old new).width = old.width := by
  simp [merge]

theorem test_merge {chunk : Nat} {mask old new : Bits} {p : Nat} (hp : p < old.width) :
    (merge chunk mask old new).test p = if mask.test (p / chunk) then new.test p else old.test p := by
  unfold merge
  rw [test, BitVec.getLsbD_ofBoolListLE, List.getD_eq_getElem?_getD, List.getElem?_map,
    List.getElem?_range hp]
  rfl

/-- Values of the same width with the same bits are the same. -/
theorem ext_test {a b : Bits} (hwidth : a.width = b.width)
    (htest : ∀ p, p < a.width → a.test p = b.test p) : a = b := by
  obtain ⟨width, value⟩ := a
  obtain ⟨width', value'⟩ := b
  obtain rfl : width = width' := hwidth
  congr 1
  exact BitVec.eq_of_getLsbD_eq htest

@[simp] theorem width_overwrite (b : Bits) (offset : Nat) (part : Bits) :
    (b.overwrite offset part).width = b.width := rfl

theorem test_overwrite {b : Bits} {offset p : Nat} {part : Bits} (hp : p < b.width) :
    (b.overwrite offset part).test p =
      if offset ≤ p ∧ p < offset + part.width then part.test (p - offset) else b.test p := by
  unfold overwrite test
  simp only [BitVec.getLsbD_or, BitVec.getLsbD_and, BitVec.getLsbD_not, BitVec.getLsbD_shiftLeft,
    BitVec.getLsbD_setWidth, BitVec.getLsbD_allOnes, hp, decide_true, Bool.true_and]
  by_cases hlow : p < offset
  · have hnot : ¬ (offset ≤ p ∧ p < offset + part.width) := by omega
    simp [hlow, hnot]
  · by_cases hhigh : p - offset < part.width
    · have hin : offset ≤ p ∧ p < offset + part.width := by omega
      have hinside : p - offset < b.width := by omega
      simp [hlow, hhigh, hin, hinside]
    · have hnot : ¬ (offset ≤ p ∧ p < offset + part.width) := by omega
      have hzero : part.value.getLsbD (p - offset) = false :=
        BitVec.getLsbD_of_ge _ _ (Nat.le_of_not_lt hhigh)
      simp [hlow, hhigh, hnot, hzero]

theorem test_slice {b : Bits} {offset width p : Nat} (hp : p < width) :
    (slice offset width b).test p = b.test (offset + p) := by
  unfold slice test
  simp only [BitVec.getLsbD_extractLsb', hp, decide_true, Bool.true_and]

end Bits

namespace Bank

/-- A bit of a value after some of the chunks were merged. -/
theorem test_mergeChunks {chunk : Nat} (hchunk : 0 < chunk) (count : Nat) {old new mask : Bits} :
    (mergeChunks chunk count old new mask).width = old.width ∧ ∀ p, p < old.width →
      (mergeChunks chunk count old new mask).test p =
        if p / chunk < count ∧ mask.test (p / chunk) = true then new.test p else old.test p := by
  induction count with
  | zero => exact ⟨rfl, fun p _ => by simp [mergeChunks]⟩
  | succ count ih =>
    obtain ⟨hwidth, htest⟩ := ih
    have hlast : mergeChunks chunk (count + 1) old new mask =
        if mask.test count then (mergeChunks chunk count old new mask).overwrite (count * chunk)
          (Bits.slice (count * chunk) chunk new)
        else mergeChunks chunk count old new mask := by
      unfold mergeChunks
      rw [List.range_succ, List.foldl_append, List.foldl_cons, List.foldl_nil]
    have hchunks : ∀ p, p / chunk = count ↔ count * chunk ≤ p ∧ p < count * chunk + chunk := by
      intro p
      rw [Nat.div_eq_iff hchunk]
      omega
    rw [hlast]
    cases hmask : mask.test count with
    | false =>
      refine ⟨hwidth, fun p hp => ?_⟩
      rw [if_neg Bool.false_ne_true, htest p hp]
      by_cases hcount : p / chunk = count
      · simp [hcount, hmask]
      · have hlt : p / chunk < count + 1 ↔ p / chunk < count := by omega
        simp only [hlt]
    | true =>
      refine ⟨hwidth, fun p hp => ?_⟩
      rw [if_pos rfl, Bits.test_overwrite (hwidth ▸ hp), Bits.width_slice, htest p hp]
      by_cases hcount : p / chunk = count
      · have hin := (hchunks p).mp hcount
        have hinside : p - count * chunk < chunk := by omega
        have hback : count * chunk + (p - count * chunk) = p := by omega
        rw [if_pos hin, Bits.test_slice hinside, hback]
        simp [hcount, hmask]
      · have hout : ¬ (count * chunk ≤ p ∧ p < count * chunk + chunk) :=
          fun hin => hcount ((hchunks p).mpr hin)
        have hlt : p / chunk < count + 1 ↔ p / chunk < count := by omega
        rw [if_neg hout]
        simp only [hlt]

/-- Merging all chunks of a value takes every bit from where the mask says. -/
theorem mergeChunks_eq_merge {chunk : Nat} (hchunk : 0 < chunk) {old new mask : Bits}
    (hdvd : chunk ∣ old.width) :
    mergeChunks chunk (old.width / chunk) old new mask = Bits.merge chunk mask old new := by
  obtain ⟨hwidth, htest⟩ := @test_mergeChunks chunk hchunk (old.width / chunk) old new mask
  refine Bits.ext_test (hwidth.trans (Bits.width_merge chunk mask old new).symm) fun p hp => ?_
  rw [hwidth] at hp
  have hlt : p / chunk < old.width / chunk := Nat.div_lt_div_of_lt_of_dvd hdvd hp
  rw [htest p hp, Bits.test_merge hp]
  simp only [hlt, true_and]

end Bank

end GuardedActions
