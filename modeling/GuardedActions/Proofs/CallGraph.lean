import GuardedActions.Proofs.Computation
import GuardedActions.Registry
import Mathlib.Data.List.Perm.Subperm
import Mathlib.Logic.Relation

/-!
# The call graph of a registry

The call sites of a registry are the edges of a graph on its actions.  `Calls` is one edge and
`Reaches` any number of them.  The list functions of a registry are read off here once.
-/

set_option autoImplicit false

namespace GuardedActions

/-- A list of different numbers is no longer than a bound on them. -/
theorem length_le_of_nodup {l : List Nat} {size : Nat} (hnodup : l.Nodup) (hlt : ∀ a ∈ l, a < size) :
    l.length ≤ size := by
  have hsub : l ⊆ List.range size := fun a ha => List.mem_range.mpr (hlt a ha)
  have hle := (hnodup.subperm hsub).length_le
  rw [List.length_range] at hle
  exact hle

namespace Action

variable {σ : Type}

theorem transaction?_eq_none_of_method? {a : Action σ} {m : Method σ} (h : a.method? = some m) :
    a.transaction? = none := by
  unfold method? at h
  unfold transaction?
  split at h
  · rfl
  · cases h

theorem exists_body_of_method? {a : Action σ} {m : Method σ} (h : a.method? = some m)
    (hdefined : a.isDefined = true) : ∃ body, m.body = some body := by
  unfold method? at h
  unfold isDefined at hdefined
  split at h
  · rename_i x hrole
    obtain rfl := Option.some.inj h
    rw [hrole] at hdefined
    exact Option.isSome_iff_exists.mp hdefined
  · cases h

theorem exists_body_of_transaction? {a : Action σ} {t : Transaction σ}
    (h : a.transaction? = some t) (hdefined : a.isDefined = true) :
    ∃ body, t.body = some body := by
  unfold transaction? at h
  unfold isDefined at hdefined
  split at h
  · cases h
  · rename_i x hrole
    obtain rfl := Option.some.inj h
    rw [hrole] at hdefined
    exact Option.isSome_iff_exists.mp hdefined

end Action

namespace Registry

variable {σ : Type} {r : Registry σ}

/-! ## Call sites -/

theorem mem_numberedSites {i : Nat} {s : Site σ} :
    (i, s) ∈ r.numberedSites ↔ r.sites[i]? = some s := by
  unfold numberedSites
  rw [List.mem_map]
  constructor
  · rintro ⟨⟨s', i'⟩, hmem, heq⟩
    obtain ⟨rfl, rfl⟩ := Prod.mk.inj heq
    exact List.mem_zipIdx_iff_getElem?.mp hmem
  · intro h
    exact ⟨(s, i), List.mem_zipIdx_iff_getElem?.mpr h, rfl⟩

theorem mem_sitesOf {caller i : Nat} {s : Site σ} :
    (i, s) ∈ r.sitesOf caller ↔ r.sites[i]? = some s ∧ s.caller = caller := by
  unfold sitesOf
  rw [List.mem_filter, mem_numberedSites]
  simp

theorem nodup_sitesOf (r : Registry σ) (caller : Nat) : (r.sitesOf caller).Nodup := by
  have hids : (r.numberedSites.map Prod.fst).Nodup := by
    have hmap : r.numberedSites.map Prod.fst = List.range' 0 r.sites.length := by
      unfold numberedSites
      rw [List.map_map]
      exact List.zipIdx_map_snd 0 r.sites
    rw [hmap]
    exact List.nodup_range'
  unfold sitesOf
  exact (List.Pairwise.of_map Prod.fst (fun _ _ hne heq => hne (congrArg Prod.fst heq)) hids).filter _

theorem findSite?_eq_some {caller i : Nat} {callee : ActionRef} {s : Site σ}
    (h : r.findSite? caller callee = some (i, s)) :
    r.sites[i]? = some s ∧ s.caller = caller ∧ s.callee = callee := by
  have hmem := mem_sitesOf.mp (List.mem_of_find?_eq_some h)
  have htest := List.find?_some h
  exact ⟨hmem.1, hmem.2, by simpa using htest⟩

/-! ## Kinds of actions -/

theorem method?_eq_some {id : Nat} {m : Method σ} :
    r.method? id = some m ↔ ∃ a, r.actions[id]? = some a ∧ a.method? = some m := by
  unfold method? action?
  exact Option.bind_eq_some_iff

theorem transaction?_eq_some {id : Nat} {t : Transaction σ} :
    r.transaction? id = some t ↔ ∃ a, r.actions[id]? = some a ∧ a.transaction? = some t := by
  unfold transaction? action?
  exact Option.bind_eq_some_iff

/-- A position holds a method or a transaction, never both. -/
theorem transaction?_eq_none {id : Nat} (h : (r.method? id).isSome) : r.transaction? id = none := by
  obtain ⟨m, hm⟩ := Option.isSome_iff_exists.mp h
  obtain ⟨a, ha, ham⟩ := method?_eq_some.mp hm
  unfold transaction? action?
  rw [ha, Option.bind_some]
  exact Action.transaction?_eq_none_of_method? ham

theorem method?_eq_none {id : Nat} (h : (r.transaction? id).isSome) : r.method? id = none := by
  cases hmethod : r.method? id with
  | none => rfl
  | some m =>
    rw [transaction?_eq_none (by rw [hmethod]; rfl)] at h
    cases h

theorem lt_length_of_action? {id : Nat} {a : Action σ} (h : r.actions[id]? = some a) :
    id < r.actions.length := (List.getElem?_eq_some_iff.mp h).1

theorem lt_length_of_method? {id : Nat} (h : (r.method? id).isSome) : id < r.actions.length := by
  obtain ⟨m, hm⟩ := Option.isSome_iff_exists.mp h
  obtain ⟨a, ha, -⟩ := method?_eq_some.mp hm
  exact lt_length_of_action? ha

theorem lt_length_of_transaction? {id : Nat} (h : (r.transaction? id).isSome) :
    id < r.actions.length := by
  obtain ⟨t, ht⟩ := Option.isSome_iff_exists.mp h
  obtain ⟨a, ha, -⟩ := transaction?_eq_some.mp ht
  exact lt_length_of_action? ha

theorem mem_ids {id : Nat} : id ∈ r.ids ↔ id < r.actions.length := List.mem_range

theorem mem_methods {id : Nat} : id ∈ r.methods ↔ (r.method? id).isSome := by
  unfold methods
  rw [List.mem_filter, mem_ids]
  exact ⟨fun h => h.2, fun h => ⟨lt_length_of_method? h, h⟩⟩

theorem mem_transactions {id : Nat} : id ∈ r.transactions ↔ (r.transaction? id).isSome := by
  unfold transactions
  rw [List.mem_filter, mem_ids]
  exact ⟨fun h => h.2, fun h => ⟨lt_length_of_transaction? h, h⟩⟩

/-! ## Edges and paths -/

/-- One action declares a call to another. -/
def Calls (r : Registry σ) (a b : Nat) : Prop :=
  ∃ (i : Nat) (s : Site σ), r.sites[i]? = some s ∧ s.caller = a ∧ s.callee.id = b

/-- One action calls another through any number of calls, or is the other. -/
def Reaches (r : Registry σ) : Nat → Nat → Prop := Relation.ReflTransGen r.Calls

theorem mem_callees {a b : Nat} : b ∈ r.callees a ↔ r.Calls a b := by
  unfold callees Calls
  rw [List.mem_map]
  constructor
  · rintro ⟨⟨i, s⟩, hmem, rfl⟩
    obtain ⟨hs, hcaller⟩ := mem_sitesOf.mp hmem
    exact ⟨i, s, hs, hcaller, rfl⟩
  · rintro ⟨i, s, hs, hcaller, hcallee⟩
    exact ⟨(i, s), mem_sitesOf.mpr ⟨hs, hcaller⟩, hcallee⟩

theorem reaches_eq (r : Registry σ) :
    r.Reaches = Relation.ReflTransGen fun a b => b ∈ r.callees a := by
  unfold Reaches
  congr 1
  funext a b
  exact propext mem_callees.symm

end Registry

end GuardedActions
