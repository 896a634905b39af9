import GuardedActions.Elaboration.Cluster
import GuardedActions.Proofs.CallGraph
import Mathlib.Data.List.Nodup

/-!
# Floods

A flood goes on until no conflict leads out of what it has seen.  It may go round transactions that earlier floods
have assigned (`Cluster.floodPast`) or begin afresh (`Cluster.flood`).  Either way it comes to each transaction that a
path of conflicts joins with its root, and to each of them once, for no conflict leads out of what was assigned
(`Cluster.mem_visitsPast`).
-/

set_option autoImplicit false

namespace GuardedActions

namespace Ranking

/-- An order of some numbers below a size, with conflicts between the numbers in the order. -/
structure Regular (ranking : Ranking) (size : Nat) : Prop where
  /-- the order lists nothing twice -/
  nodup : ranking.order.Nodup
  /-- what it lists is below the size -/
  below : ∀ {t : Nat}, t ∈ ranking.order → t < size
  /-- conflicts lead to what it lists -/
  listed : ∀ {a b : Nat}, ranking.conflict a b = true → b ∈ ranking.order
  /-- no conflict has a converse that is missing -/
  converse : ∀ {a b : Nat}, ranking.conflict a b = true → ranking.conflict b a = true

/-- Two transactions are joined by a path of conflicts. -/
def Joined (ranking : Ranking) : Nat → Nat → Prop :=
  Relation.ReflTransGen fun a b => ranking.conflict a b = true

variable {ranking : Ranking} {size a b : Nat}

theorem Regular.lt (h : ranking.Regular size) (hconflict : ranking.conflict a b = true) : b < size :=
  h.below (h.listed hconflict)

theorem Regular.symm (h : ranking.Regular size) (hjoined : ranking.Joined a b) : ranking.Joined b a := by
  induction hjoined with
  | refl => exact .refl
  | tail _ hconflict ih => exact ih.head (h.converse hconflict)

theorem Regular.mem_order (h : ranking.Regular size) (ha : a ∈ ranking.order) (hjoined : ranking.Joined a b) :
    b ∈ ranking.order := by
  cases hjoined with
  | refl => exact ha
  | tail _ hconflict => exact h.listed hconflict

end Ranking

namespace Cluster

/-! ## A search -/

/-- What a search takes off its queue, in this order. -/
def visits (next : Nat → List Nat) : (fuel : Nat) → (queue : List Nat) → (seen : Mask) → List Nat
  | _, [], _ => []
  | 0, _ :: _, _ => []
  | fuel + 1, a :: queue, seen =>
    let fresh := (next a).filter fun b => !seen.test b
    a :: visits next fuel (queue ++ fresh) (fresh.foldl Mask.insert seen)

/-- A search under way: what was seen is what was seen before it began, what was taken off the queue, whose
successors were seen too, and what is still in it. -/
structure Frontier (next : Nat → List Nat) (size : Nat) (before : Mask) (visited queue : List Nat) (seen : Mask) :
    Prop where
  /-- there is a place for every number -/
  size : seen.size = size
  /-- nothing was queued twice -/
  nodup : (visited ++ queue).Nodup
  /-- nothing was queued that was seen before -/
  new : ∀ x ∈ visited ++ queue, before.test x = false
  /-- all that was queued was seen -/
  queued : ∀ x, seen.test x = true ↔ before.test x = true ∨ x ∈ visited ++ queue
  /-- nothing leads out of what was taken off -/
  explored : ∀ a ∈ visited, ∀ b ∈ next a, seen.test b = true

namespace Frontier

variable {next : Nat → List Nat} {size : Nat} {before : Mask} {visited queue : List Nat} {seen : Mask}

/-- A search begins with one number. -/
theorem single {t : Nat} (ht : t < size) (hsize : before.size = size) (hnew : before.test t = false) :
    Frontier next size before [] [t] (before.insert t) := by
  refine ⟨by rw [Mask.size_insert, hsize], List.nodup_singleton t, fun x hx => ?_, fun x => ?_, nofun⟩
  · rw [List.mem_singleton.mp hx]
    exact hnew
  · rw [Mask.test_insert_iff (by rw [hsize]; exact ht), List.nil_append, List.mem_singleton]

theorem length_le (h : Frontier next size before visited queue seen) :
    visited.length + queue.length ≤ size := by
  rw [← List.length_append]
  refine length_le_of_nodup h.nodup fun x hx => ?_
  have hlt := Mask.lt_size_of_test ((h.queued x).mpr (.inr hx))
  rw [h.size] at hlt
  exact hlt

theorem mem_fresh {a x : Nat} : x ∈ (next a).filter (fun b => !seen.test b) ↔
    x ∈ next a ∧ seen.test x = false := by
  rw [List.mem_filter, Bool.not_eq_true']

/-- Looking at the successors of a number shows those that were not seen before. -/
theorem test_visit (hlt : ∀ a, ∀ b ∈ next a, b < size) (hsize : seen.size = size) (a x : Nat) :
    (((next a).filter fun b => !seen.test b).foldl Mask.insert seen).test x = true ↔
      seen.test x = true ∨ x ∈ next a := by
  rw [Mask.test_foldl_insert, mem_fresh, hsize]
  constructor
  · rintro (hx | ⟨⟨hx, -⟩, -⟩)
    · exact Or.inl hx
    · exact Or.inr hx
  · rintro (hx | hx)
    · exact Or.inl hx
    · cases hold : seen.test x with
      | true => exact Or.inl rfl
      | false => exact Or.inr ⟨⟨hx, rfl⟩, hlt a x hx⟩

theorem visit (hlt : ∀ a, ∀ b ∈ next a, b < size) (hnext : ∀ a, (next a).Nodup) {a : Nat}
    (h : Frontier next size before visited (a :: queue) seen) :
    Frontier next size before (visited ++ [a]) (queue ++ (next a).filter fun b => !seen.test b)
      (((next a).filter fun b => !seen.test b).foldl Mask.insert seen) := by
  have hmove : (visited ++ [a]) ++ (queue ++ (next a).filter fun b => !seen.test b) =
      (visited ++ a :: queue) ++ (next a).filter fun b => !seen.test b := by simp
  have hgrown := test_visit hlt h.size a
  refine ⟨?_, ?_, ?_, ?_, ?_⟩
  · rw [Mask.size_foldl_insert, h.size]
  · rw [hmove]
    refine List.Nodup.append h.nodup ((hnext a).filter _) ?_
    intro x hx hx'
    have hold := (h.queued x).mpr (.inr hx)
    rw [(mem_fresh.mp hx').2] at hold
    cases hold
  · intro x hx
    rw [hmove] at hx
    rcases List.mem_append.mp hx with hx | hx
    · exact h.new x hx
    · cases hbefore : before.test x with
      | false => rfl
      | true =>
        have hold := (h.queued x).mpr (.inl hbefore)
        rw [(mem_fresh.mp hx).2] at hold
        cases hold
  · intro x
    rw [hmove, List.mem_append, ← or_assoc, ← h.queued, hgrown, mem_fresh]
    cases hold : seen.test x with
    | true => simp
    | false => simp
  · intro b hb c hc
    rw [hgrown]
    rcases List.mem_append.mp hb with hb | hb
    · exact Or.inl (h.explored b hb c hc)
    · rw [List.mem_singleton.mp hb] at hc
      exact Or.inr hc

/-- A search with enough fuel goes on until its queue is empty. -/
theorem finish (hlt : ∀ a, ∀ b ∈ next a, b < size) (hnext : ∀ a, (next a).Nodup) {fuel : Nat}
    (h : Frontier next size before visited queue seen) (hfuel : size ≤ fuel + visited.length) :
    Frontier next size before (visited ++ visits next fuel queue seen) [] (spread next fuel queue seen) := by
  induction fuel generalizing visited queue seen with
  | zero =>
    cases queue with
    | nil =>
      rw [visits, List.append_nil]
      exact h
    | cons a queue =>
      have hle := h.length_le
      rw [List.length_cons] at hle
      omega
  | succ fuel ih =>
    cases queue with
    | nil =>
      rw [visits, List.append_nil]
      exact h
    | cons a queue =>
      rw [visits, spread, List.append_cons]
      refine ih (h.visit hlt hnext) ?_
      rw [List.length_append, List.length_singleton]
      omega

/-- In the end all that was taken off the queue is what was seen and was not seen before. -/
theorem mem_visited (h : Frontier next size before visited [] seen) {x : Nat} :
    x ∈ visited ↔ seen.test x = true ∧ before.test x = false := by
  rw [h.queued, List.append_nil]
  constructor
  · intro hx
    exact ⟨.inr hx, h.new x (List.mem_append_left _ hx)⟩
  · rintro ⟨hbefore | hx, hnew⟩
    · rw [hbefore] at hnew
      cases hnew
    · exact hx

end Frontier

/-- A search forgets nothing. -/
theorem test_spread_of_test {next : Nat → List Nat} {fuel : Nat} {queue : List Nat} {seen : Mask} {x : Nat}
    (hx : seen.test x = true) : (spread next fuel queue seen).test x = true := by
  induction fuel generalizing queue seen with
  | zero => cases queue <;> exact hx
  | succ fuel ih =>
    cases queue with
    | nil => exact hx
    | cons a queue => exact ih (Mask.test_foldl_insert.mpr (.inl hx))

/-- A search sees nothing but what can be reached. -/
theorem reaches_of_test_spread {next : Nat → List Nat} {fuel : Nat} {queue : List Nat} {seen : Mask} {x : Nat}
    (hx : (spread next fuel queue seen).test x = true) :
    seen.test x = true ∨ ∃ q ∈ queue, Relation.ReflTransGen (fun a b => b ∈ next a) q x := by
  induction fuel generalizing queue seen with
  | zero => cases queue <;> exact .inl hx
  | succ fuel ih =>
    cases queue with
    | nil => exact .inl hx
    | cons a queue =>
      rcases ih hx with hseen | ⟨q, hq, hreach⟩
      · rcases Mask.test_foldl_insert.mp hseen with hseen | ⟨hfresh, -⟩
        · exact .inl hseen
        · exact .inr ⟨a, List.mem_cons_self, .single (List.mem_of_mem_filter hfresh)⟩
      · rcases List.mem_append.mp hq with hq | hfresh
        · exact .inr ⟨q, List.mem_cons_of_mem _ hq, hreach⟩
        · exact .inr ⟨a, List.mem_cons_self, hreach.head (List.mem_of_mem_filter hfresh)⟩

/-! ## A search along conflicts -/

/-- The actions that the row of an action names. -/
def rivals (ranking : Ranking) (a : Nat) : List Nat := (ranking.conflicts[a]?.getD (Mask.none 0)).members

theorem mem_rivals {ranking : Ranking} {a b : Nat} : b ∈ rivals ranking a ↔ ranking.conflict a b = true :=
  Mask.mem_members

theorem nodup_rivals (ranking : Ranking) (a : Nat) : (rivals ranking a).Nodup :=
  List.Nodup.filter _ List.nodup_range

/-- What is seen in the end by a flood from one transaction that goes round what was assigned before. -/
def floodPast (ranking : Ranking) (size t : Nat) (assigned : Mask) : Mask :=
  spread (rivals ranking) size [t] (assigned.insert t)

/-- What such a flood comes to, in this order. -/
def visitsPast (ranking : Ranking) (size t : Nat) (assigned : Mask) : List Nat :=
  visits (rivals ranking) size [t] (assigned.insert t)

/-- What a flood from one transaction reaches. -/
def flood (ranking : Ranking) (size t : Nat) : Mask :=
  spread (rivals ranking) size [t] ((Mask.none size).insert t)

/-- What was assigned by earlier floods: no conflict leads out of it. -/
structure Assigned (ranking : Ranking) (size : Nat) (assigned : Mask) : Prop where
  /-- there is a place for every number -/
  size : assigned.size = size
  /-- what conflicts with something assigned is assigned -/
  closed : ∀ {a b : Nat}, ranking.conflict a b = true → assigned.test a = true → assigned.test b = true

variable {ranking : Ranking} {size t : Nat} {assigned : Mask}

theorem assigned_none (ranking : Ranking) (size : Nat) : Assigned ranking size (Mask.none size) where
  size := Mask.size_none size
  closed := by
    intro a b _ ha
    rw [Mask.test_none] at ha
    cases ha

/-- What an assigned transaction is joined with is assigned. -/
theorem Assigned.joined (h : Assigned ranking size assigned) {a b : Nat} (hab : ranking.Joined a b)
    (ha : assigned.test a = true) : assigned.test b = true := by
  induction hab with
  | refl => exact ha
  | tail _ hconflict ih => exact h.closed hconflict ih

/-- What a transaction that is not assigned is joined with is not assigned. -/
theorem Assigned.new (h : Assigned ranking size assigned) (hregular : ranking.Regular size)
    (hnew : assigned.test t = false) {x : Nat} (hjoined : ranking.Joined t x) : assigned.test x = false := by
  cases hold : assigned.test x with
  | false => rfl
  | true =>
    rw [h.joined (hregular.symm hjoined) hold] at hnew
    cases hnew

theorem frontier_floodPast (hregular : ranking.Regular size) (ht : t ∈ ranking.order)
    (h : Assigned ranking size assigned) (hnew : assigned.test t = false) :
    Frontier (rivals ranking) size assigned (visitsPast ranking size t assigned) []
      (floodPast ranking size t assigned) :=
  (Frontier.single (hregular.below ht) h.size hnew).finish (fun _ _ hb => hregular.lt (mem_rivals.mp hb))
    (nodup_rivals ranking) (Nat.le_add_right _ _)

/-- A flood comes to what a path of conflicts joins with its root. -/
theorem mem_visitsPast (hregular : ranking.Regular size) (ht : t ∈ ranking.order)
    (h : Assigned ranking size assigned) (hnew : assigned.test t = false) {x : Nat} :
    x ∈ visitsPast ranking size t assigned ↔ ranking.Joined t x := by
  have hend := frontier_floodPast hregular ht h hnew
  have hlt : t < assigned.size := by
    rw [h.size]
    exact hregular.below ht
  constructor
  · intro hx
    obtain ⟨hseen, hfresh⟩ := hend.mem_visited.mp hx
    rcases reaches_of_test_spread hseen with hstart | ⟨q, hq, hreach⟩
    · rcases (Mask.test_insert_iff hlt).mp hstart with hold | rfl
      · rw [hold] at hfresh
        cases hfresh
      · exact .refl
    · rw [List.mem_singleton.mp hq] at hreach
      exact hreach.lift id fun _ _ hab => mem_rivals.mp hab
  · intro hjoined
    induction hjoined with
    | refl => exact hend.mem_visited.mpr ⟨test_spread_of_test (Mask.test_insert_self hlt), hnew⟩
    | tail hjoined hconflict ih =>
      -- what was assigned before is not in the way, for no conflict leads there
      exact hend.mem_visited.mpr ⟨hend.explored _ ih _ (mem_rivals.mpr hconflict),
        h.new hregular hnew (hjoined.tail hconflict)⟩

/-- What is seen in the end is what was assigned before and what a path of conflicts joins with the root. -/
theorem test_floodPast (hregular : ranking.Regular size) (ht : t ∈ ranking.order)
    (h : Assigned ranking size assigned) (hnew : assigned.test t = false) {x : Nat} :
    (floodPast ranking size t assigned).test x = true ↔ assigned.test x = true ∨ ranking.Joined t x := by
  rw [(frontier_floodPast hregular ht h hnew).queued, List.append_nil, mem_visitsPast hregular ht h hnew]

theorem test_flood (hregular : ranking.Regular size) (ht : t ∈ ranking.order) {x : Nat} :
    (flood ranking size t).test x = true ↔ ranking.Joined t x := by
  show (floodPast ranking size t (Mask.none size)).test x = true ↔ ranking.Joined t x
  rw [test_floodPast hregular ht (assigned_none ranking size) (Mask.test_none size t), Mask.test_none]
  simp

/-- After a flood all that it has seen is assigned. -/
theorem Assigned.floodPast (h : Assigned ranking size assigned) (hregular : ranking.Regular size)
    (ht : t ∈ ranking.order) (hnew : assigned.test t = false) :
    Assigned ranking size (floodPast ranking size t assigned) where
  size := (frontier_floodPast hregular ht h hnew).size
  closed := by
    intro a b hconflict ha
    rw [test_floodPast hregular ht h hnew] at ha ⊢
    rcases ha with ha | ha
    · exact .inl (h.closed hconflict ha)
    · exact .inr (ha.tail hconflict)

end Cluster

end GuardedActions
