import GuardedActions.Proofs.Elaborated
import GuardedActions.Proofs.Mask
import GuardedActions.Scheduling.Arbitration
import Mathlib.Order.Minimal

/-!
# Arbitration is a greedy scan

Arbitration works cluster by cluster on positions and neighbour masks.  What it grants is what one
scan of all transactions in the static order grants, taking every runnable transaction that conflicts
with none taken so far.  Both are instances of a selection: a set of runnable transactions without
conflicts in which every loser has lost to a winner of better rank.  There is only one such set.
-/

set_option autoImplicit false

namespace GuardedActions

namespace Cluster

/-! ## The rounds of one cluster -/

/-- The candidates that a round leaves. -/
def after (c : Cluster) (candidates : Mask) (winner : Nat) : Mask :=
  (candidates.put winner false).without (c.neighbours[winner]?.getD (Mask.none 0))

/-- The loop over the rounds comes to its end and picks the given positions. -/
inductive Runs (c : Cluster) : Mask → List Nat → Prop where
  /-- no candidate is left -/
  | stop {candidates : Mask} (empty : Encoder.lowest candidates = none) : Runs c candidates []
  /-- the lowest candidate wins and its neighbours are out -/
  | round {candidates : Mask} {winner : Nat} {rest : List Nat}
      (lowest : Encoder.lowest candidates = some winner)
      (later : Runs c (c.after candidates winner) rest) : Runs c candidates (winner :: rest)

theorem test_after {c : Cluster} {candidates : Mask} {winner i : Nat}
    (hwinner : candidates.test winner = true) :
    (c.after candidates winner).test i = true ↔ candidates.test i = true ∧ i ≠ winner ∧
      (c.neighbours[winner]?.getD (Mask.none 0)).test i = false := by
  unfold after
  rw [Mask.test_without, Mask.test_put, Bool.and_eq_true, Bool.not_eq_true']
  have hlt := Mask.lt_size_of_test hwinner
  by_cases heq : winner = i
  · simp [heq, heq ▸ hlt]
  · simp [heq, Ne.symm heq]

/-- A round takes its winner away, and maybe more. -/
theorem count_after_lt {c : Cluster} {candidates : Mask} {winner : Nat}
    (hwinner : candidates.test winner = true) :
    (c.after candidates winner).count < candidates.count := by
  have hnodup : (c.after candidates winner).members.Nodup := List.nodup_range.filter _
  have hsub : (c.after candidates winner).members ⊆ candidates.members.erase winner := by
    intro i hi
    obtain ⟨hi, hne, -⟩ := (test_after hwinner).mp (Mask.mem_members.mp hi)
    exact (List.mem_erase_of_ne hne).mpr (Mask.mem_members.mpr hi)
  have hle := (hnodup.subperm hsub).length_le
  have hmem := Mask.mem_members.mpr hwinner
  have hpos := List.length_pos_of_mem hmem
  rw [List.length_erase_of_mem hmem] at hle
  unfold Mask.count
  omega

/-- As many rounds as there are candidates bring the loop to its end. -/
theorem runs_pick (c : Cluster) :
    ∀ (rounds : Nat) (candidates : Mask), candidates.count ≤ rounds →
      c.Runs candidates (c.pick rounds candidates) := by
  intro rounds
  induction rounds with
  | zero =>
    intro candidates hcount
    refine .stop ?_
    unfold Encoder.lowest Mask.lowest?
    rw [List.head?_eq_none_iff]
    exact List.eq_nil_of_length_eq_zero (Nat.le_zero.mp hcount)
  | succ rounds ih =>
    intro candidates hcount
    unfold pick
    split
    · rename_i hnone
      exact .stop hnone
    · rename_i winner hwinner
      have hlt := count_after_lt (c := c) (Encoder.lowest_eq_some hwinner).1
      exact .round hwinner (ih (c.after candidates winner) (by omega))

theorem count_le_size (m : Mask) : m.count ≤ m.size := by
  unfold Mask.count Mask.members
  have hle := List.length_filter_le m.test (List.range m.size)
  rw [List.length_range] at hle
  exact hle

/-! ## What the rounds pick -/

theorem Runs.candidate {c : Cluster} {candidates : Mask} {picked : List Nat}
    (h : c.Runs candidates picked) : ∀ i ∈ picked, candidates.test i = true := by
  induction h with
  | stop _ =>
    intro i hi
    cases hi
  | round lowest _ ih =>
    have hwinner := (Encoder.lowest_eq_some lowest).1
    intro i hi
    rcases List.mem_cons.mp hi with rfl | hi
    · exact hwinner
    · exact ((test_after hwinner).mp (ih i hi)).1

/-- No position is picked besides a lower one whose neighbour it is. -/
theorem Runs.apart {c : Cluster} {candidates : Mask} {picked : List Nat}
    (h : c.Runs candidates picked) : ∀ i ∈ picked, ∀ j ∈ picked, i < j →
      (c.neighbours[i]?.getD (Mask.none 0)).test j = false := by
  induction h with
  | stop _ =>
    intro i hi
    cases hi
  | round lowest later ih =>
    obtain ⟨hwinner, hleast⟩ := Encoder.lowest_eq_some lowest
    intro i hi j hj hlt
    rcases List.mem_cons.mp hi with rfl | hi
    · rcases List.mem_cons.mp hj with rfl | hj
      · exact absurd hlt (Nat.lt_irrefl _)
      · exact ((test_after hwinner).mp (later.candidate j hj)).2.2
    · have hi' := ((test_after hwinner).mp (later.candidate i hi)).1
      rcases List.mem_cons.mp hj with rfl | hj
      · exact absurd hlt (Nat.not_lt.mpr (hleast i hi'))
      · exact ih i hi j hj hlt

/-- A candidate that is not picked has a neighbour at a lower position that is. -/
theorem Runs.beaten {c : Cluster} {candidates : Mask} {picked : List Nat}
    (h : c.Runs candidates picked) : ∀ j, candidates.test j = true → j ∉ picked →
      ∃ i ∈ picked, i < j ∧ (c.neighbours[i]?.getD (Mask.none 0)).test j = true := by
  induction h with
  | stop empty =>
    intro j hj _
    rw [Encoder.lowest_eq_none empty j] at hj
    cases hj
  | @round candidates winner rest lowest later ih =>
    obtain ⟨hwinner, hleast⟩ := Encoder.lowest_eq_some lowest
    intro j hj hlost
    have hne : j ≠ winner := fun heq => hlost (heq ▸ List.mem_cons_self)
    cases hneighbour : (c.neighbours[winner]?.getD (Mask.none 0)).test j with
    | true =>
      exact ⟨winner, List.mem_cons_self, Nat.lt_of_le_of_ne (hleast j hj) hne.symm, hneighbour⟩
    | false =>
      have hleft := (test_after (c := c) hwinner).mpr ⟨hj, hne, hneighbour⟩
      obtain ⟨i, hi, hbeaten⟩ := ih j hleft fun hmem => hlost (List.mem_cons_of_mem _ hmem)
      exact ⟨i, List.mem_cons_of_mem _ hi, hbeaten⟩

end Cluster

/-! ## Selections -/

/-- Out of the runnable ones in a field of transactions, some are granted: no two that conflict, and
every loser conflicts with a granted one of strictly better rank. -/
structure Selection {σ : Type} (r : Registry σ) (ranking : Ranking) (field : Nat → Prop)
    (runnable : Mask) (granted : Nat → Prop) : Prop where
  /-- only runnable transactions of the field are granted -/
  within : ∀ {t : Nat}, granted t → field t ∧ runnable.test t = true
  /-- granted transactions do not conflict -/
  apart : ∀ {a b : Nat}, granted a → granted b → ranking.conflict a b = false
  /-- losers have lost to a better transaction -/
  beaten : ∀ {t : Nat}, field t → runnable.test t = true → ¬ granted t →
    ∃ w, granted w ∧ ranking.conflict t w = true ∧ r.Outranks w t

namespace Registry.Elaborated

variable {σ : Type} {r : Registry σ} {plan : Plan}

theorem conflict_symm (h : r.Elaborated plan) {a b : Nat}
    (hab : plan.ranking.conflict a b = true) : plan.ranking.conflict b a = true :=
  h.conflict.mpr (h.conflict.mp hab).symm

theorem conflict_irrefl (h : r.Elaborated plan) (a : Nat) : plan.ranking.conflict a a = false := by
  cases haa : plan.ranking.conflict a a with
  | false => rfl
  | true => exact absurd rfl (h.conflict.mp haa).1

theorem nodup_order (h : r.Elaborated plan) : plan.order.Nodup := by
  refine h.ranked.imp ?_
  intro a b hab heq
  rw [heq] at hab
  exact hab.asymm hab

/-- A better rank is an earlier place in the order. -/
theorem idxOf_lt (h : r.Elaborated plan) {a b : Nat} (ha : a ∈ plan.order) (hb : b ∈ plan.order)
    (hab : r.Outranks a b) : plan.order.idxOf a < plan.order.idxOf b := by
  have hla := List.idxOf_lt_length_of_mem ha
  have hlb := List.idxOf_lt_length_of_mem hb
  by_contra hle
  rcases Nat.lt_or_eq_of_le (Nat.le_of_not_lt hle) with hlt | heq
  · have hba := List.pairwise_iff_getElem.mp h.ranked _ _ hlb hla hlt
    rw [List.getElem_idxOf hlb, List.getElem_idxOf hla] at hba
    exact hab.asymm hba
  · have hsame : b = a := (List.idxOf_inj hb).mp heq
    rw [hsame] at hab
    exact hab.asymm hab

/-- A field of transactions has one selection. -/
theorem selection_unique (h : r.Elaborated plan) {field granted granted' : Nat → Prop}
    {runnable : Mask} (hfield : ∀ {t : Nat}, field t → t ∈ plan.order)
    (hg : Selection r plan.ranking field runnable granted)
    (hg' : Selection r plan.ranking field runnable granted') (t : Nat) :
    granted t ↔ granted' t := by
  -- a winner of one selection that loses in the other has lost to a winner of the other of better
  -- rank, which by induction is a winner of the first
  have honly : ∀ {g g' : Nat → Prop}, Selection r plan.ranking field runnable g →
      Selection r plan.ranking field runnable g' →
      ∀ t, (∀ u, plan.order.idxOf u < plan.order.idxOf t → (g u ↔ g' u)) → g t → g' t := by
    intro g g' hg hg' t ih ht
    by_contra hlost
    obtain ⟨hin, hrunnable⟩ := hg.within ht
    obtain ⟨w, hw, hconflict, hrank⟩ := hg'.beaten hin hrunnable hlost
    have hlt := h.idxOf_lt (hfield (hg'.within hw).1) (hfield hin) hrank
    have hboth := hg.apart ht ((ih w hlt).mpr hw)
    rw [hconflict] at hboth
    cases hboth
  have hall : ∀ n t, plan.order.idxOf t = n → (granted t ↔ granted' t) := by
    intro n
    induction n using Nat.strongRecOn with
    | _ n ih =>
      intro t ht
      have hbelow : ∀ u, plan.order.idxOf u < plan.order.idxOf t → (granted u ↔ granted' u) :=
        fun u hu => ih _ (ht ▸ hu) u rfl
      exact ⟨honly hg hg' t hbelow, honly hg' hg t fun u hu => (hbelow u hu).symm⟩
  exact hall _ t rfl

end Registry.Elaborated

/-- A selection, seen from a smaller field that conflicts do not lead out of. -/
theorem Selection.restrict {σ : Type} {r : Registry σ} {ranking : Ranking}
    {field smaller granted : Nat → Prop} {runnable : Mask}
    (h : Selection r ranking field runnable granted) (hsmaller : ∀ {t : Nat}, smaller t → field t)
    (hclosed : ∀ {a b : Nat}, smaller a → field b → ranking.conflict a b = true → smaller b) :
    Selection r ranking smaller runnable fun t => granted t ∧ smaller t where
  within := fun ht => ⟨ht.2, (h.within ht.1).2⟩
  apart := fun ha hb => h.apart ha.1 hb.1
  beaten := by
    intro t ht hrunnable hlost
    obtain ⟨w, hw, hconflict, hrank⟩ :=
      h.beaten (hsmaller ht) hrunnable fun hgranted => hlost ⟨hgranted, ht⟩
    exact ⟨w, ⟨hw, hclosed ht (h.within hw).1 hconflict⟩, hconflict, hrank⟩

namespace Ranking

/-! ## The greedy scan -/

/-- Go through transactions and grant each one that could run and conflicts with none granted so
far. -/
def scan (ranking : Ranking) (runnable : Mask) : List Nat → (granted : List Nat) → List Nat
  | [], granted => granted
  | t :: rest, granted =>
    if runnable.test t && !granted.any (ranking.conflict t) then
      scan ranking runnable rest (granted ++ [t])
    else scan ranking runnable rest granted

/-- The transactions granted by a scan in the static order. -/
def greedy (ranking : Ranking) (runnable : Mask) : List Nat := ranking.scan runnable ranking.order []

end Ranking

namespace Registry.Elaborated

variable {σ : Type} {r : Registry σ} {plan : Plan}

/-- A selection among the first transactions takes in one more that conflicts with none granted so
far. -/
theorem selection_take (h : r.Elaborated plan) {runnable : Mask} {before granted : List Nat} {t : Nat}
    (hsel : Selection r plan.ranking (· ∈ before) runnable (· ∈ granted))
    (hrunnable : runnable.test t = true)
    (hfree : ∀ w ∈ granted, plan.ranking.conflict t w = false) :
    Selection r plan.ranking (· ∈ before ++ [t]) runnable (· ∈ granted ++ [t]) where
  within := by
    intro u hu
    rcases List.mem_append.mp hu with hu | hu
    · obtain ⟨hin, hrun⟩ := hsel.within hu
      exact ⟨List.mem_append_left _ hin, hrun⟩
    · rw [List.mem_singleton.mp hu]
      exact ⟨List.mem_append_right _ List.mem_cons_self, hrunnable⟩
  apart := by
    have hfree' : ∀ w ∈ granted, plan.ranking.conflict w t = false := by
      intro w hw
      cases hwt : plan.ranking.conflict w t with
      | false => rfl
      | true =>
        have htw := h.conflict_symm hwt
        rw [hfree w hw] at htw
        cases htw
    intro a b ha hb
    rcases List.mem_append.mp ha with ha | ha
    · rcases List.mem_append.mp hb with hb | hb
      · exact hsel.apart ha hb
      · rw [List.mem_singleton.mp hb]
        exact hfree' a ha
    · rw [List.mem_singleton.mp ha]
      rcases List.mem_append.mp hb with hb | hb
      · exact hfree b hb
      · rw [List.mem_singleton.mp hb]
        exact h.conflict_irrefl t
  beaten := by
    intro u hu hrun hlost
    rcases List.mem_append.mp hu with hu | hu
    · obtain ⟨w, hw, hbeaten⟩ :=
        hsel.beaten hu hrun fun hmem => hlost (List.mem_append_left _ hmem)
      exact ⟨w, List.mem_append_left _ hw, hbeaten⟩
    · exact absurd (List.mem_append_right _ hu) hlost

/-- A selection among the first transactions passes over one that cannot run or has lost. -/
theorem selection_skip {runnable : Mask} {before granted : List Nat} {t : Nat}
    (hsel : Selection r plan.ranking (· ∈ before) runnable (· ∈ granted))
    (hbetter : ∀ w ∈ before, r.Outranks w t)
    (hskip : runnable.test t = true → ∃ w ∈ granted, plan.ranking.conflict t w = true) :
    Selection r plan.ranking (· ∈ before ++ [t]) runnable (· ∈ granted) where
  within := by
    intro u hu
    obtain ⟨hin, hrun⟩ := hsel.within hu
    exact ⟨List.mem_append_left _ hin, hrun⟩
  apart := hsel.apart
  beaten := by
    intro u hu hrun hlost
    rcases List.mem_append.mp hu with hu | hu
    · exact hsel.beaten hu hrun hlost
    · obtain rfl := List.mem_singleton.mp hu
      obtain ⟨w, hw, hconflict⟩ := hskip hrun
      exact ⟨w, hw, hconflict, hbetter w (hsel.within hw).1⟩

theorem selection_scan (h : r.Elaborated plan) (runnable : Mask) :
    ∀ (rest before granted : List Nat), before ++ rest = plan.order →
      Selection r plan.ranking (· ∈ before) runnable (· ∈ granted) →
      Selection r plan.ranking (· ∈ plan.order) runnable
        (· ∈ plan.ranking.scan runnable rest granted) := by
  intro rest
  induction rest with
  | nil =>
    intro before granted horder hsel
    rw [List.append_nil] at horder
    rw [← horder]
    exact hsel
  | cons t rest ih =>
    intro before granted horder hsel
    have hmove : (before ++ [t]) ++ rest = plan.order := by
      rw [List.append_assoc]
      exact horder
    have hbetter : ∀ w ∈ before, r.Outranks w t := by
      intro w hw
      have hranked := h.ranked
      rw [← horder] at hranked
      exact (List.pairwise_append.mp hranked).2.2 w hw t List.mem_cons_self
    unfold Ranking.scan
    split
    · rename_i htake
      rw [Bool.and_eq_true, Bool.not_eq_true', List.any_eq_false] at htake
      refine ih _ _ hmove (h.selection_take hsel htake.1 fun w hw => ?_)
      exact Bool.eq_false_iff.mpr (htake.2 w hw)
    · rename_i hskip
      refine ih _ _ hmove (selection_skip hsel hbetter fun hrunnable => ?_)
      have hany : granted.any (plan.ranking.conflict t) = true := by
        simpa [hrunnable] using hskip
      exact List.any_eq_true.mp hany

/-- The scan makes a selection among all transactions. -/
theorem selection_greedy (h : r.Elaborated plan) (runnable : Mask) :
    Selection r plan.ranking (· ∈ plan.order) runnable (· ∈ plan.ranking.greedy runnable) := by
  refine h.selection_scan runnable plan.order [] [] rfl ⟨?_, ?_, ?_⟩
  · intro t ht
    cases ht
  · intro a b ha
    cases ha
  · intro t ht
    cases ht

/-- Arbitration makes a selection inside every cluster. -/
theorem selection_cluster (h : r.Elaborated plan) {c : Cluster} (hc : c ∈ plan.clusters)
    (runnable : Mask) :
    Selection r plan.ranking (· ∈ c.members) runnable (· ∈ c.winners runnable) := by
  have hsound := h.clusters c hc
  have hruns : c.Runs (c.candidates runnable) (c.pick c.members.length (c.candidates runnable)) := by
    refine c.runs_pick _ _ ?_
    have hle := Cluster.count_le_size (c.candidates runnable)
    unfold Cluster.candidates at hle ⊢
    rw [Mask.size_ofTest] at hle
    exact hle
  have hcandidate : ∀ {i t : Nat}, c.members[i]? = some t →
      ((c.candidates runnable).test i = true ↔ runnable.test t = true) := by
    intro i t hi
    unfold Cluster.candidates
    rw [Mask.test_ofTest, hi, Option.any_some]
    simp [(List.getElem?_eq_some_iff.mp hi).1]
  have hranked : c.members.Pairwise r.Outranks := by
    obtain ⟨keep, hkeep⟩ := hsound.members
    rw [hkeep]
    exact h.ranked.filter _
  have hwinner : ∀ {t : Nat}, t ∈ c.winners runnable ↔
      ∃ i ∈ c.pick c.members.length (c.candidates runnable), c.members[i]? = some t := by
    intro t
    unfold Cluster.winners
    exact List.mem_filterMap
  refine ⟨?_, ?_, ?_⟩
  · intro t ht
    obtain ⟨i, hi, hit⟩ := hwinner.mp ht
    exact ⟨List.mem_of_getElem? hit, (hcandidate hit).mp (hruns.candidate i hi)⟩
  · intro a b ha hb
    obtain ⟨i, hi, hia⟩ := hwinner.mp ha
    obtain ⟨j, hj, hjb⟩ := hwinner.mp hb
    cases hab : plan.ranking.conflict a b with
    | false => rfl
    | true =>
      have hij := (hsound.neighbours hia j).mpr ⟨b, hjb, hab⟩
      have hji := (hsound.neighbours hjb i).mpr ⟨a, hia, h.conflict_symm hab⟩
      rcases Nat.lt_trichotomy i j with hlt | heq | hlt
      · rw [hruns.apart i hi j hj hlt] at hij
        cases hij
      · subst heq
        obtain rfl : a = b := Option.some.inj (hia.symm.trans hjb)
        rw [h.conflict_irrefl] at hab
        cases hab
      · rw [hruns.apart j hj i hi hlt] at hji
        cases hji
  · intro t ht hrunnable hlost
    obtain ⟨j, hj⟩ := List.mem_iff_getElem?.mp ht
    obtain ⟨i, hi, hlt, hneighbour⟩ := hruns.beaten j ((hcandidate hj).mpr hrunnable)
      fun hmem => hlost (hwinner.mpr ⟨j, hmem, hj⟩)
    have hilt : i < c.members.length := Nat.lt_trans hlt (List.getElem?_eq_some_iff.mp hj).1
    have hia : c.members[i]? = some c.members[i] := List.getElem?_eq_getElem hilt
    obtain ⟨b, hb, hconflict⟩ := (hsound.neighbours hia j).mp hneighbour
    obtain rfl : t = b := Option.some.inj (hj.symm.trans hb)
    refine ⟨c.members[i], hwinner.mpr ⟨i, hi, hia⟩, h.conflict_symm hconflict, ?_⟩
    obtain ⟨hjlt, hjt⟩ := List.getElem?_eq_some_iff.mp hj
    have hrank := List.pairwise_iff_getElem.mp hranked i j hilt hjlt hlt
    rw [hjt] at hrank
    exact hrank

/-- What arbitration grants is what the scan grants. -/
theorem mem_winners_iff (h : r.Elaborated plan) (runnable : Mask) (t : Nat) :
    t ∈ plan.winners runnable ↔ t ∈ plan.ranking.greedy runnable := by
  have hgreedy := h.selection_greedy runnable
  have hcluster : ∀ c ∈ plan.clusters,
      (t ∈ c.winners runnable ↔ t ∈ plan.ranking.greedy runnable ∧ t ∈ c.members) := by
    intro c hc
    have hsound := h.clusters c hc
    obtain ⟨keep, hkeep⟩ := hsound.members
    have hmember : ∀ {t : Nat}, t ∈ c.members → t ∈ plan.order := by
      intro t ht
      rw [hkeep] at ht
      exact (List.mem_filter.mp ht).1
    have hsmaller := hgreedy.restrict hmember
      fun {a b} ha hb hab => hsound.closed a ha b hb hab
    exact h.selection_unique hmember (h.selection_cluster hc runnable) hsmaller t
  unfold Plan.winners
  rw [List.mem_flatMap]
  constructor
  · rintro ⟨c, hc, ht⟩
    exact ((hcluster c hc).mp ht).1
  · intro ht
    obtain ⟨c, hc, hmember⟩ := h.covered (h.mem_order.mp (hgreedy.within ht).1)
    exact ⟨c, hc, (hcluster c hc).mpr ⟨ht, hmember⟩⟩

/-- Arbitration makes a selection among all transactions. -/
theorem selection_winners (h : r.Elaborated plan) (runnable : Mask) :
    Selection r plan.ranking (· ∈ plan.order) runnable (· ∈ plan.winners runnable) := by
  have hsame : (· ∈ plan.winners runnable) = (· ∈ plan.ranking.greedy runnable) := by
    funext t
    exact propext (h.mem_winners_iff runnable t)
  rw [hsame]
  exact h.selection_greedy runnable

end Registry.Elaborated

end GuardedActions
