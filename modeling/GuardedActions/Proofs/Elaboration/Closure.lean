import GuardedActions.Elaboration.Closure
import GuardedActions.Proofs.CallGraph
import Mathlib.Data.List.Nodup
import Mathlib.Data.List.Pairwise
import Mathlib.Data.List.Perm.Subperm

/-!
# Closures are what transactions reach

The computation of a closure visits every action that can be reached, and succeeds just if it meets
each of them once: then no two of them have a callee in common.
-/

set_option autoImplicit false

namespace GuardedActions

namespace Closure

/-- The callees that are marked were not marked before, and they are now. -/
theorem expand_eq_ok {callees stack stack' : List Nat} {reached reached' : Mask}
    (hlt : ∀ x ∈ callees, x < reached.size)
    (h : expand callees stack reached = .ok (stack', reached')) :
    stack' = callees.reverse ++ stack ∧ reached'.size = reached.size ∧ callees.Nodup ∧
      (∀ x ∈ callees, reached.test x = false) ∧
      ∀ x, reached'.test x = true ↔ reached.test x = true ∨ x ∈ callees := by
  induction callees generalizing stack reached with
  | nil =>
    obtain ⟨rfl, rfl⟩ := Prod.mk.inj (Except.ok.inj h)
    simp
  | cons callee rest ih =>
    unfold expand at h
    split at h
    · cases h
    · rename_i hfresh
      have hcallee : callee < reached.size := hlt callee List.mem_cons_self
      obtain ⟨hstack, hsize, hnodup, hnew, htest⟩ := ih (by
        intro x hx
        rw [Mask.size_insert]
        exact hlt x (List.mem_cons_of_mem _ hx)) h
      have hnotin : callee ∉ rest := by
        intro hmem
        have := hnew callee hmem
        rw [Mask.test_insert] at this
        simp [hcallee] at this
      refine ⟨?_, ?_, ?_, ?_, ?_⟩
      · rw [hstack, List.reverse_cons, List.append_assoc]
        rfl
      · rw [hsize, Mask.size_insert]
      · exact List.nodup_cons.mpr ⟨hnotin, hnodup⟩
      · intro x hx
        rcases List.mem_cons.mp hx with rfl | hx
        · simpa using hfresh
        · have := hnew x hx
          rw [Mask.test_insert, Bool.or_eq_false_iff] at this
          exact this.2
      · intro x
        rw [htest, Mask.test_insert, Bool.or_eq_true, decide_eq_true_iff, List.mem_cons]
        constructor
        · rintro ((⟨rfl, -⟩ | hx) | hx)
          · exact Or.inr (Or.inl rfl)
          · exact Or.inl hx
          · exact Or.inr (Or.inr hx)
        · rintro (hx | rfl | hx)
          · exact Or.inl (Or.inr hx)
          · exact Or.inl (Or.inl ⟨rfl, hcallee⟩)
          · exact Or.inr hx

/-- A list of the actions that a computation takes off its stack. -/
structure Visits (next : Nat → List Nat) (stack : List Nat) (reached result : Mask)
    (visited : List Nat) : Prop where
  /-- they are those on the stack and all their callees, with multiplicity -/
  perm : visited.Perm (stack ++ visited.flatMap next)
  /-- no callee is met twice -/
  nodup : (visited.flatMap next).Nodup
  /-- the callees are marked in the end, besides what was marked before -/
  test : ∀ x, result.test x = true ↔ reached.test x = true ∨ x ∈ visited.flatMap next
  /-- the callees were not marked before -/
  fresh : ∀ x ∈ visited.flatMap next, reached.test x = false
  /-- all of them can be reached from the stack -/
  reach : ∀ x ∈ visited, ∃ y ∈ stack, Relation.ReflTransGen (fun a b => b ∈ next a) y x

theorem exists_visits {next : Nat → List Nat} {size : Nat} (hlt : ∀ a, ∀ b ∈ next a, b < size) :
    ∀ (fuel : Nat) (stack : List Nat) (reached result : Mask), reached.size = size →
      follow next fuel stack reached = .ok result →
      ∃ visited, Visits next stack reached result visited := by
  intro fuel
  induction fuel with
  | zero =>
    intro stack reached result _ h
    cases stack with
    | nil =>
      obtain rfl := Except.ok.inj h
      exact ⟨[], by simp, by simp, by simp, by simp, by simp⟩
    | cons a stack => cases h
  | succ fuel ih =>
    intro stack reached result hsize h
    cases stack with
    | nil =>
      obtain rfl := Except.ok.inj h
      exact ⟨[], by simp, by simp, by simp, by simp, by simp⟩
    | cons a stack =>
      unfold follow at h
      split at h
      · cases h
      · rename_i stack' reached' hexpand
        obtain ⟨rfl, hsize', hnodup, hnew, htest⟩ := expand_eq_ok (fun x hx => by
          rw [hsize]
          exact hlt a x hx) hexpand
        obtain ⟨visited, hv⟩ := ih _ _ _ (hsize'.trans hsize) h
        have hdisjoint : ∀ x ∈ next a, x ∉ visited.flatMap next := by
          intro x hx hmem
          have hmarked := hv.fresh x hmem
          rw [(htest x).mpr (Or.inr hx)] at hmarked
          cases hmarked
        refine ⟨a :: visited, ?_, ?_, ?_, ?_, ?_⟩
        · rw [List.flatMap_cons, List.cons_append]
          have hmove : ((next a).reverse ++ stack).Perm (stack ++ next a) :=
            ((List.reverse_perm _).append_right _).trans List.perm_append_comm
          refine List.Perm.cons a (hv.perm.trans ?_)
          rw [← List.append_assoc]
          exact hmove.append_right _
        · rw [List.flatMap_cons]
          exact List.Nodup.append hnodup hv.nodup hdisjoint
        · intro x
          rw [hv.test, htest, List.flatMap_cons, List.mem_append, or_assoc]
        · intro x hx
          rw [List.flatMap_cons, List.mem_append] at hx
          rcases hx with hx | hx
          · exact hnew x hx
          · have hmarked := hv.fresh x hx
            cases hold : reached.test x with
            | false => rfl
            | true =>
              rw [(htest x).mpr (Or.inl hold)] at hmarked
              cases hmarked
        · intro x hx
          rcases List.mem_cons.mp hx with rfl | hx
          · exact ⟨x, List.mem_cons_self, .refl⟩
          · obtain ⟨y, hy, hreach⟩ := hv.reach x hx
            rcases List.mem_append.mp hy with hy | hy
            · exact ⟨a, List.mem_cons_self, hreach.head (List.mem_reverse.mp hy)⟩
            · exact ⟨y, List.mem_cons_of_mem _ hy, hreach⟩

/-- A closure that is computed holds what can be reached, and nothing in it has two callers. -/
theorem of_eq_ok {next : Nat → List Nat} {size action : Nat} {result : Mask}
    (hlt : ∀ a, ∀ b ∈ next a, b < size) (haction : action < size)
    (h : of next size action = .ok result) :
    (∀ x, result.test x = true ↔ Relation.ReflTransGen (fun a b => b ∈ next a) action x) ∧
      ∀ a b x, result.test a = true → result.test b = true → x ∈ next a → x ∈ next b → a = b := by
  unfold of at h
  obtain ⟨visited, hv⟩ := exists_visits hlt size [action] _ result (by simp) h
  have hmem : ∀ x, result.test x = true ↔ x ∈ visited := by
    intro x
    rw [hv.test, Mask.test_insert, hv.perm.mem_iff, List.mem_append, List.mem_singleton]
    simp [haction, eq_comm (a := action)]
  refine ⟨fun x => ?_, ?_⟩
  · rw [hmem]
    constructor
    · intro hx
      obtain ⟨y, hy, hreach⟩ := hv.reach x hx
      rw [List.mem_singleton.mp hy] at hreach
      exact hreach
    · intro hreach
      induction hreach with
      | refl => exact hv.perm.mem_iff.mpr (List.mem_append_left _ (List.mem_singleton.mpr rfl))
      | @tail b c _ hbc ih =>
        exact hv.perm.mem_iff.mpr (List.mem_append_right _ (List.mem_flatMap.mpr ⟨b, ih, hbc⟩))
  · intro a b x ha hb hxa hxb
    by_contra hne
    have hpair := (List.nodup_flatMap.mp hv.nodup).2
    have : Std.Symm (Function.onFun List.Disjoint next) := ⟨fun _ _ hab _ hx hy => hab hy hx⟩
    have hdisjoint := hpair.forall ((hmem a).mp ha) ((hmem b).mp hb) hne
    exact hdisjoint hxa hxb

/-! ## Closures that exist -/

/-- Callees that are new and all different can be marked. -/
theorem exists_expand {callees : List Nat} (stack : List Nat) {reached : Mask}
    (hnodup : callees.Nodup) (hnew : ∀ x ∈ callees, reached.test x = false) :
    ∃ stack' reached', expand callees stack reached = .ok (stack', reached') := by
  induction callees generalizing stack reached with
  | nil => exact ⟨stack, reached, rfl⟩
  | cons callee rest ih =>
    obtain ⟨hhead, hrest⟩ := List.nodup_cons.mp hnodup
    unfold expand
    rw [if_neg (by rw [hnew callee List.mem_cons_self]; exact Bool.false_ne_true)]
    apply ih _ hrest
    intro x hx
    have hne : callee ≠ x := fun heq => hhead (heq ▸ hx)
    rw [Mask.test_insert, hnew x (List.mem_cons_of_mem _ hx)]
    simp [hne]

/-- What lies ahead of the computation of the closure of an action: nothing below it calls it, and no
two calls below it have the same callee. -/
structure Tree (next : Nat → List Nat) (root : Nat) : Prop where
  /-- the action is not called -/
  uncalled : ∀ {a : Nat}, Relation.ReflTransGen (fun a b => b ∈ next a) root a → root ∉ next a
  /-- an action calls its callees once -/
  nodup : ∀ {a : Nat}, Relation.ReflTransGen (fun a b => b ∈ next a) root a → (next a).Nodup
  /-- a callee has one caller -/
  single : ∀ {a b x : Nat}, Relation.ReflTransGen (fun a b => b ∈ next a) root a →
    Relation.ReflTransGen (fun a b => b ∈ next a) root b → x ∈ next a → x ∈ next b → a = b

/-- A computation under way: marked is what was taken off the stack and what is still on it, and each
of these was called by something taken off. -/
structure Underway (next : Nat → List Nat) (root size : Nat) (visited stack : List Nat)
    (reached : Mask) : Prop where
  /-- there is a place for every action -/
  size : reached.size = size
  /-- nothing is put on the stack twice -/
  nodup : (visited ++ stack).Nodup
  /-- all that was put on the stack is marked -/
  marked : ∀ x, reached.test x = true ↔ x ∈ visited ++ stack
  /-- everything but the root was called -/
  called : ∀ x ∈ visited ++ stack, x = root ∨ ∃ a ∈ visited, x ∈ next a
  /-- everything is reached from the root -/
  reaches : ∀ x ∈ visited ++ stack, Relation.ReflTransGen (fun a b => b ∈ next a) root x

namespace Underway

variable {next : Nat → List Nat} {root size : Nat} {visited stack : List Nat} {reached : Mask}

theorem length_le (h : Underway next root size visited stack reached) :
    visited.length + stack.length ≤ size := by
  rw [← List.length_append]
  refine length_le_of_nodup h.nodup fun x hx => ?_
  have hlt := Mask.lt_size_of_test ((h.marked x).mpr hx)
  rw [h.size] at hlt
  exact hlt

/-- The callees of the action on top of the stack were not met before. -/
theorem fresh (htree : Tree next root) {a : Nat}
    (h : Underway next root size visited (a :: stack) reached) :
    ∀ x ∈ next a, reached.test x = false := by
  have ha := h.reaches a (List.mem_append_right _ List.mem_cons_self)
  intro x hx
  cases hmarked : reached.test x with
  | false => rfl
  | true =>
    rcases h.called x ((h.marked x).mp hmarked) with rfl | ⟨b, hb, hxb⟩
    · exact absurd hx (htree.uncalled ha)
    · obtain rfl := htree.single ha (h.reaches b (List.mem_append_left _ hb)) hx hxb
      exact absurd List.mem_cons_self ((List.nodup_append.mp h.nodup).2.2 a hb a · rfl)

/-- The action on top of the stack is taken off, and its callees are put on. -/
theorem step (htree : Tree next root) {a : Nat}
    (h : Underway next root size visited (a :: stack) reached) {reached' : Mask}
    (hsize : reached'.size = reached.size)
    (htest : ∀ x, reached'.test x = true ↔ reached.test x = true ∨ x ∈ next a) :
    Underway next root size (visited ++ [a]) ((next a).reverse ++ stack) reached' := by
  have ha := h.reaches a (List.mem_append_right _ List.mem_cons_self)
  have hperm : (visited ++ [a] ++ ((next a).reverse ++ stack)).Perm
      ((visited ++ a :: stack) ++ next a) := by
    have hmove : ((next a).reverse ++ stack).Perm (stack ++ next a) :=
      ((List.reverse_perm _).append_right _).trans List.perm_append_comm
    simpa using (hmove.cons a).append_left visited
  have hmem : ∀ x, x ∈ visited ++ [a] ++ ((next a).reverse ++ stack) ↔
      x ∈ visited ++ a :: stack ∨ x ∈ next a := by
    intro x
    rw [hperm.mem_iff, List.mem_append]
  refine ⟨hsize.trans h.size, ?_, ?_, ?_, ?_⟩
  · rw [hperm.nodup_iff]
    apply List.Nodup.append h.nodup (htree.nodup ha)
    intro x hx hcall
    have hmarked := (h.marked x).mpr hx
    rw [h.fresh htree x hcall] at hmarked
    cases hmarked
  · intro x
    rw [htest, hmem, h.marked]
  · intro x hx
    rcases (hmem x).mp hx with hx | hcall
    · rcases h.called x hx with rfl | ⟨b, hb, hxb⟩
      · exact Or.inl rfl
      · exact Or.inr ⟨b, List.mem_append_left _ hb, hxb⟩
    · exact Or.inr ⟨a, List.mem_append_right _ (List.mem_singleton.mpr rfl), hcall⟩
  · intro x hx
    rcases (hmem x).mp hx with hx | hcall
    · exact h.reaches x hx
    · exact ha.tail hcall

end Underway

/-- A computation of a closure that meets nothing twice comes to its end within its fuel. -/
theorem exists_follow {next : Nat → List Nat} {root size : Nat} (hlt : ∀ a, ∀ b ∈ next a, b < size)
    (htree : Tree next root) :
    ∀ (fuel : Nat) (visited stack : List Nat) (reached : Mask),
      Underway next root size visited stack reached → size ≤ fuel + visited.length →
      ∃ result, follow next fuel stack reached = .ok result := by
  intro fuel
  induction fuel with
  | zero =>
    intro visited stack reached h hfuel
    cases stack with
    | nil => exact ⟨reached, rfl⟩
    | cons a stack =>
      have hle := h.length_le
      rw [List.length_cons] at hle
      omega
  | succ fuel ih =>
    intro visited stack reached h hfuel
    cases stack with
    | nil => exact ⟨reached, rfl⟩
    | cons a stack =>
      have ha := h.reaches a (List.mem_append_right _ List.mem_cons_self)
      obtain ⟨stack', reached', hexpand⟩ :=
        exists_expand stack (htree.nodup ha) (h.fresh htree)
      obtain ⟨rfl, hsize, -, -, htest⟩ := expand_eq_ok (fun x hx => by
        rw [h.size]
        exact hlt a x hx) hexpand
      obtain ⟨result, hresult⟩ := ih (visited ++ [a]) _ reached' (h.step htree hsize htest) (by
        rw [List.length_append, List.length_singleton]
        omega)
      refine ⟨result, ?_⟩
      unfold follow
      rw [hexpand]
      exact hresult

theorem exists_of {next : Nat → List Nat} {root size : Nat} (hlt : ∀ a, ∀ b ∈ next a, b < size)
    (hroot : root < size) (htree : Tree next root) : ∃ result, of next size root = .ok result := by
  have hstart : Underway next root size [] [root] ((Mask.none size).insert root) := by
    refine ⟨by rw [Mask.size_insert, Mask.size_none], List.nodup_singleton root, ?_, ?_, ?_⟩
    · intro x
      rw [Mask.test_single hroot, List.nil_append, List.mem_singleton]
    · intro x hx
      exact Or.inl (List.mem_singleton.mp hx)
    · intro x hx
      rw [List.mem_singleton.mp hx]
  exact exists_follow hlt htree size [] [root] _ hstart (Nat.le_add_right _ _)

end Closure

namespace Registry

variable {σ : Type} {r : Registry σ}

/-- The closures of all transactions, once the elaboration has them. -/
theorem closures_eq_ok {closures : List Mask}
    (hcallee : ∀ {a b : Nat}, r.Calls a b → b < r.actions.length)
    (h : r.closures = .ok closures) {t : Nat} (ht : (r.transaction? t).isSome) :
    ∃ closure, closures[t]? = some closure ∧
      (∀ x, closure.test x = true ↔ r.Reaches t x) ∧
      ∀ a b x, r.Reaches t a → r.Reaches t b → r.Calls a x → r.Calls b x → a = b := by
  have hlt : t < r.actions.length := lt_length_of_transaction? ht
  have hid : r.ids[t]? = some t := by
    unfold ids
    rw [List.getElem?_range hlt]
  obtain ⟨closure, hclosure, hok⟩ := getElem?_of_mapM_eq_ok h hid
  refine ⟨closure, hclosure, ?_⟩
  unfold closureOf at hok
  rw [if_pos ht] at hok
  split at hok
  · rename_i reached hreached
    obtain rfl := Except.ok.inj hok
    obtain ⟨htest, hunique⟩ :=
      Closure.of_eq_ok (fun a b hb => hcallee (mem_callees.mp hb)) hlt hreached
    rw [reaches_eq]
    refine ⟨htest, ?_⟩
    intro a b x ha hb hax hbx
    exact hunique a b x ((htest a).mpr ha) ((htest b).mpr hb) (mem_callees.mpr hax)
      (mem_callees.mpr hbx)
  · cases hok
  · cases hok

/-- The closures can be computed if no transaction meets an action twice. -/
theorem exists_closures (hcallee : ∀ {a b : Nat}, r.Calls a b → b < r.actions.length)
    (htree : ∀ {t : Nat}, (r.transaction? t).isSome → Closure.Tree r.callees t) :
    ∃ closures, r.closures = .ok closures := by
  unfold closures
  apply exists_mapM
  intro id hid
  unfold closureOf
  split
  · rename_i ht
    obtain ⟨reached, hreached⟩ := Closure.exists_of (fun a b hb => hcallee (mem_callees.mp hb))
      (mem_ids.mp hid) (htree ht)
    rw [hreached]
    exact ⟨reached, rfl⟩
  · exact ⟨_, rfl⟩

end Registry

end GuardedActions
