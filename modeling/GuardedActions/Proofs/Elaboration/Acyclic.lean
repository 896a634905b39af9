import GuardedActions.Elaboration.Cycle
import GuardedActions.Proofs.CallGraph
import Mathlib.Data.List.Nodup
import Mathlib.Data.List.Perm.Subperm
import Mathlib.Order.WellFounded

/-!
# Call graphs without cycles

A search that finds no cycle finishes the actions in an order in which every action comes after those
that it calls.  Such an order rules out infinite descent along calls, so that properties of an
action can be proved from those of its callees.  A search that stops early has found a call back to its
own path; it never stops for lack of fuel.
-/

set_option autoImplicit false

namespace GuardedActions

namespace Cycle

/-- Latest first, every action of the list comes after its successors. -/
def Ordered (next : Nat → List Nat) : List Nat → Prop
  | [] => True
  | a :: rest => (∀ b ∈ next a, b ∈ rest) ∧ Ordered next rest

/-- A search adds its action to the finished ones and keeps their order. -/
theorem ordered_of_visit {next : Nat → List Nat} :
    ∀ (fuel : Nat) (path : List Nat) (action : Nat) (finished finished' : List Nat),
      visit next fuel path action finished = .ok finished' → Ordered next finished →
      Ordered next finished' ∧ (∀ a ∈ finished, a ∈ finished') ∧ action ∈ finished' := by
  intro fuel
  induction fuel with
  | zero =>
    intro path action finished finished' h _
    cases h
  | succ fuel ih =>
    intro path action finished finished' h hordered
    unfold visit at h
    obtain ⟨below, hfold, hok⟩ := bind_eq_ok.mp h
    obtain rfl := Except.ok.inj hok
    -- one callee keeps what is finished, in order, and is finished afterwards
    have hstep : ∀ callee ∈ next action, ∀ fs fs',
        (Ordered next fs ∧ ∀ a ∈ finished, a ∈ fs) →
        (if callee ∈ fs then Except.ok fs
          else if callee ∈ action :: path then
            Except.error (Stop.cycle (close callee (action :: path)))
          else visit next fuel (action :: path) callee fs) = .ok fs' →
        (Ordered next fs' ∧ ∀ a ∈ finished, a ∈ fs') ∧ (∀ a ∈ fs, a ∈ fs') ∧ callee ∈ fs' := by
      intro callee _ fs fs' hfs hrun
      split at hrun
      · rename_i hmem
        obtain rfl := Except.ok.inj hrun
        exact ⟨hfs, fun a ha => ha, hmem⟩
      · split at hrun
        · cases hrun
        · obtain ⟨hord, hsub, hmem⟩ := ih _ _ _ _ hrun hfs.1
          exact ⟨⟨hord, fun a ha => hsub a (hfs.2 a ha)⟩, hsub, hmem⟩
    have hall := foldlM_forall
      (P := fun fs => Ordered next fs ∧ ∀ a ∈ finished, a ∈ fs) (Q := fun callee fs => callee ∈ fs)
      (fun callee hc fs fs' hfs hrun =>
        ⟨(hstep callee hc fs fs' hfs hrun).1, (hstep callee hc fs fs' hfs hrun).2.2⟩)
      (fun callee hc fs fs' hfs hrun a ha => (hstep callee hc fs fs' hfs hrun).2.1 a ha)
      ⟨hordered, fun a ha => ha⟩ hfold
    obtain ⟨⟨hord, hsub⟩, hcallees⟩ := hall
    exact ⟨⟨hcallees, hord⟩, fun a ha => List.mem_cons_of_mem _ (hsub a ha), List.mem_cons_self⟩

theorem ordered_of_visitAll {next : Nat → List Nat} {fuel : Nat} {actions finished : List Nat}
    (h : visitAll next fuel actions = .ok finished) :
    Ordered next finished ∧ ∀ a ∈ actions, a ∈ finished := by
  unfold visitAll at h
  have hnil : Ordered next [] := trivial
  refine foldlM_forall (P := Ordered next) (Q := fun a fs => a ∈ fs) ?_ ?_ hnil h
  · intro a _ fs fs' hfs hrun
    split at hrun
    · rename_i hmem
      obtain rfl := Except.ok.inj hrun
      exact ⟨hfs, hmem⟩
    · obtain ⟨hord, -, hmem⟩ := ordered_of_visit _ _ _ _ _ hrun hfs
      exact ⟨hord, hmem⟩
  · intro a _ fs fs' hfs hrun a' ha'
    split at hrun
    · obtain rfl := Except.ok.inj hrun
      exact ha'
    · exact (ordered_of_visit _ _ _ _ _ hrun hfs).2.1 a' ha'

theorem acc_of_ordered {next : Nat → List Nat} {finished : List Nat}
    (h : Ordered next finished) : ∀ a ∈ finished, Acc (fun b a => b ∈ next a) a := by
  induction finished with
  | nil =>
    intro a ha
    cases ha
  | cons head rest ih =>
    have hrest := ih h.2
    intro a ha
    rcases List.mem_cons.mp ha with rfl | ha
    · exact Acc.intro a fun b hb => hrest b (h.1 b hb)
    · exact hrest a ha

/-! ## Searches that stop early -/

/-- A path under search, latest action first: every action is called by the one after it in the list,
and none occurs twice. -/
structure Trail (next : Nat → List Nat) (size : Nat) (path : List Nat) : Prop where
  /-- consecutive actions are joined by a call -/
  calls : path.IsChain fun callee caller => callee ∈ next caller
  /-- no action occurs twice -/
  nodup : path.Nodup
  /-- all of them are actions -/
  below : ∀ a ∈ path, a < size

namespace Trail

variable {next : Nat → List Nat} {size a : Nat} {path : List Nat}

theorem length_le (h : Trail next size path) : path.length ≤ size := length_le_of_nodup h.nodup h.below

theorem extend (h : Trail next size (a :: path)) {callee : Nat} (hcall : callee ∈ next a)
    (hlt : callee < size) (hnew : callee ∉ a :: path) : Trail next size (callee :: a :: path) where
  calls := List.isChain_cons_cons.mpr ⟨hcall, h.calls⟩
  nodup := List.nodup_cons.mpr ⟨hnew, h.nodup⟩
  below := by
    intro x hx
    rcases List.mem_cons.mp hx with rfl | hx
    · exact hlt
    · exact h.below x hx

/-- Every action of a path reaches the latest one. -/
theorem reaches (h : Trail next size (a :: path)) :
    ∀ x ∈ a :: path, Relation.ReflTransGen (fun a b => b ∈ next a) x a := by
  have hchain := h.calls
  clear h
  induction path generalizing a with
  | nil =>
    intro x hx
    rw [List.mem_singleton.mp hx]
  | cons b path ih =>
    obtain ⟨hcall, hrest⟩ := List.isChain_cons_cons.mp hchain
    intro x hx
    rcases List.mem_cons.mp hx with rfl | hx
    · exact .refl
    · exact (ih hrest x hx).tail hcall

end Trail

/-- A search that stops early has come upon a call back to its own path. -/
def Stop.Genuine (next : Nat → List Nat) (size : Nat) (stop : Stop) : Prop :=
  ∃ (caller callee : Nat) (path : List Nat), stop = .cycle (close callee (caller :: path)) ∧
    Trail next size (caller :: path) ∧ callee ∈ caller :: path ∧ callee ∈ next caller

theorem Stop.Genuine.exists_cycle {next : Nat → List Nat} {size : Nat} {stop : Stop}
    (h : stop.Genuine next size) : ∃ a, Relation.TransGen (fun a b => b ∈ next a) a a := by
  obtain ⟨caller, callee, path, -, htrail, hmem, hcall⟩ := h
  exact ⟨callee, .tail' (htrail.reaches callee hmem) hcall⟩

/-- The fuel never gives out: a path is no longer than there are actions. -/
theorem genuine_of_visit {next : Nat → List Nat} {size : Nat} (hlt : ∀ a, ∀ b ∈ next a, b < size) :
    ∀ (fuel : Nat) (path : List Nat) (action : Nat) (finished : List Nat) (stop : Stop),
      Trail next size (action :: path) → size ≤ fuel + path.length →
      visit next fuel path action finished = .error stop → stop.Genuine next size := by
  intro fuel
  induction fuel with
  | zero =>
    intro path action finished stop htrail hfuel _
    have hle := htrail.length_le
    rw [List.length_cons] at hle
    omega
  | succ fuel ih =>
    intro path action finished stop htrail hfuel h
    unfold visit at h
    cases hfold : (next action).foldlM (fun finished callee =>
        if callee ∈ finished then Except.ok finished
        else if callee ∈ action :: path then
          Except.error (Stop.cycle (close callee (action :: path)))
        else visit next fuel (action :: path) callee finished) finished with
    | ok below =>
      rw [hfold] at h
      cases h
    | error stop' =>
      rw [hfold] at h
      obtain rfl : stop' = stop := Except.error.inj h
      obtain ⟨callee, hcall, fs, hstep⟩ := exists_of_foldlM_eq_error hfold
      split at hstep
      · cases hstep
      · split at hstep
        · rename_i hback
          exact ⟨action, callee, path, (Except.error.inj hstep).symm, htrail, hback, hcall⟩
        · rename_i hnew
          refine ih (action :: path) callee fs stop' (htrail.extend hcall (hlt _ _ hcall) hnew) ?_ hstep
          rw [List.length_cons]
          omega

theorem genuine_of_visitAll {next : Nat → List Nat} {size fuel : Nat} {actions : List Nat}
    {stop : Stop} (hlt : ∀ a, ∀ b ∈ next a, b < size) (hactions : ∀ a ∈ actions, a < size)
    (hfuel : size ≤ fuel) (h : visitAll next fuel actions = .error stop) :
    stop.Genuine next size := by
  unfold visitAll at h
  obtain ⟨action, haction, fs, hstep⟩ := exists_of_foldlM_eq_error h
  split at hstep
  · cases hstep
  · have htrail : Trail next size [action] :=
      ⟨.singleton _, List.nodup_singleton _, fun a ha => by
        rw [List.mem_singleton.mp ha]
        exact hactions action haction⟩
    exact genuine_of_visit hlt _ _ _ _ _ htrail hfuel hstep

end Cycle

namespace Registry

variable {σ : Type} {r : Registry σ}

/-- No action reaches itself through calls, and no descent along calls goes on for ever. -/
def Acyclic (r : Registry σ) : Prop := WellFounded fun callee caller => r.Calls caller callee

theorem acyclic_of_checkAcyclic
    (hcaller : ∀ {i : Nat} {s : Site σ}, r.sites[i]? = some s → s.caller < r.actions.length)
    (h : r.checkAcyclic = .ok ()) : r.Acyclic := by
  unfold checkAcyclic at h
  split at h
  · rename_i finished hvisit
    obtain ⟨hordered, hmem⟩ := Cycle.ordered_of_visitAll hvisit
    have hacc := Cycle.acc_of_ordered hordered
    have hsame : (fun callee caller => r.Calls caller callee) = fun b a => b ∈ r.callees a := by
      funext b a
      exact propext mem_callees.symm
    unfold Acyclic
    rw [hsame]
    refine ⟨fun a => Acc.intro a fun b hb => ?_⟩
    obtain ⟨i, s, hs, rfl, -⟩ := mem_callees.mp hb
    exact (hacc s.caller (hmem _ (mem_ids.mpr (hcaller hs)))).inv hb
  · cases h
  · cases h

/-- In a graph without cycles no action calls one that reaches it. -/
theorem Acyclic.not_reaches (h : r.Acyclic) {a b : Nat} (hcall : r.Calls a b) :
    ¬ r.Reaches b a := by
  intro hreach
  have hcycle : Relation.TransGen r.Calls a a := Relation.TransGen.head' hcall hreach
  have hirrefl : Relation.TransGen (fun callee caller => r.Calls caller callee) a a :=
    Relation.transGen_swap.mpr hcycle
  exact h.transGen.irrefl.irrefl a hirrefl

/-- A graph without cycles passes the search for cycles. -/
theorem checkAcyclic_of_not_transGen
    (hcallee : ∀ {a b : Nat}, r.Calls a b → b < r.actions.length)
    (h : ∀ a, ¬ Relation.TransGen r.Calls a a) : r.checkAcyclic = .ok () := by
  have hsame : r.Calls = fun a b => b ∈ r.callees a := by
    funext a b
    exact propext mem_callees.symm
  unfold checkAcyclic
  cases hvisit : Cycle.visitAll r.callees (r.actions.length + 1) r.ids with
  | ok finished => rfl
  | error stop =>
    obtain ⟨a, ha⟩ := (Cycle.genuine_of_visitAll (fun a b hb => hcallee (mem_callees.mp hb))
      (fun a ha => mem_ids.mp ha) (Nat.le_succ _) hvisit).exists_cycle
    rw [← hsame] at ha
    exact absurd ha (h a)

theorem Acyclic.not_transGen (h : r.Acyclic) (a : Nat) : ¬ Relation.TransGen r.Calls a a := by
  intro hcycle
  obtain ⟨b, hcall, hreach⟩ := Relation.TransGen.head'_iff.mp hcycle
  exact h.not_reaches hcall hreach

/-! ## The nesting of calls -/

/-- The calls below an action are nested less deep than a bound. -/
def Shallow (r : Registry σ) : (bound : Nat) → (action : Nat) → Prop
  | 0, _ => False
  | bound + 1, action => ∀ callee, r.Calls action callee → r.Shallow bound callee

/-- Calls nest no deeper than there are actions that are not on the way already. -/
theorem Acyclic.shallow_of_trail (h : r.Acyclic)
    (hcallee : ∀ {a b : Nat}, r.Calls a b → b < r.actions.length) :
    ∀ (bound a : Nat) (path : List Nat), Cycle.Trail r.callees r.actions.length (a :: path) →
      r.actions.length ≤ bound + path.length → r.Shallow bound a := by
  intro bound
  induction bound with
  | zero =>
    intro a path htrail hbound
    have hle := htrail.length_le
    rw [List.length_cons] at hle
    omega
  | succ bound ih =>
    intro a path htrail hbound callee hcall
    have hnew : callee ∉ a :: path := by
      intro hmem
      have hback := htrail.reaches callee hmem
      rw [← reaches_eq] at hback
      exact h.not_reaches hcall hback
    refine ih callee (a :: path) (htrail.extend (mem_callees.mpr hcall) (hcallee hcall) hnew) ?_
    rw [List.length_cons]
    omega

theorem Acyclic.shallow (h : r.Acyclic)
    (hcallee : ∀ {a b : Nat}, r.Calls a b → b < r.actions.length) {a bound : Nat}
    (ha : a < r.actions.length) (hbound : r.actions.length ≤ bound) : r.Shallow bound a := by
  refine h.shallow_of_trail hcallee bound a [] ⟨.singleton _, List.nodup_singleton _, ?_⟩ hbound
  intro x hx
  rw [List.mem_singleton.mp hx]
  exact ha

end Registry

end GuardedActions
