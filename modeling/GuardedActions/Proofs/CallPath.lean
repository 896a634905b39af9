import GuardedActions.Proofs.Elaboration.Acyclic
import GuardedActions.Proofs.Elaboration.Closure

/-!
# Call paths

A call path is the list of call sites along which one action reaches another.  Where calls form no
cycle and no two reached actions call the same method, there is one path to each reached action; and
where there is at most one path to each method, the closure of a transaction meets nothing twice.
-/

set_option autoImplicit false

namespace GuardedActions.Registry

variable {σ : Type} {r : Registry σ}

/-- The call sites along which an action reaches another one. -/
inductive CallPath (r : Registry σ) (start : Nat) : List Nat → Nat → Prop where
  /-- no call is needed to reach the action itself -/
  | here : CallPath r start [] start
  /-- one more call -/
  | call {path : List Nat} {i : Nat} {s : Site σ} (before : CallPath r start path s.caller)
      (site : r.sites[i]? = some s) : CallPath r start (path ++ [i]) s.callee.id

theorem CallPath.reaches {start x : Nat} {path : List Nat} (h : r.CallPath start path x) :
    r.Reaches start x := by
  induction h with
  | here => exact .refl
  | @call path i s _ site ih => exact ih.tail ⟨i, s, site, rfl, rfl⟩

theorem Reaches.exists_callPath {start x : Nat} (h : r.Reaches start x) :
    ∃ path, r.CallPath start path x := by
  induction h with
  | refl => exact ⟨[], .here⟩
  | tail _ hcall ih =>
    obtain ⟨path, hpath⟩ := ih
    obtain ⟨i, s, hs, rfl, rfl⟩ := hcall
    exact ⟨path ++ [i], .call hpath hs⟩

/-- What makes call paths unique: there is one call site for a caller and a callee, and an action that
is reached calls nothing that another one does. -/
theorem CallPath.unique (hacyclic : r.Acyclic)
    (honce : ∀ {i j : Nat} {s u : Site σ}, r.sites[i]? = some s → r.sites[j]? = some u →
      s.caller = u.caller → s.callee.id = u.callee.id → i = j)
    {start : Nat} (hsingle : ∀ {a b x : Nat}, r.Reaches start a → r.Reaches start b → r.Calls a x →
      r.Calls b x → a = b)
    {x y : Nat} {path path' : List Nat} (h : r.CallPath start path x)
    (h' : r.CallPath start path' y) (hxy : x = y) : path = path' := by
  -- a path that comes back to its start would close a cycle
  have hloop : ∀ {s : Site σ} {i : Nat} {before : List Nat}, r.CallPath start before s.caller →
      r.sites[i]? = some s → s.callee.id ≠ start := by
    intro s i before hbefore hs heq
    exact hacyclic.not_reaches ⟨i, s, hs, rfl, heq⟩ hbefore.reaches
  induction h generalizing path' y with
  | here =>
    cases h' with
    | here => rfl
    | call before site => exact absurd hxy.symm (hloop before site)
  | @call path i s before site ih =>
    cases h' with
    | here => exact absurd hxy (hloop before site)
    | @call path' j u before' site' =>
      have hcaller : s.caller = u.caller :=
        hsingle before.reaches before'.reaches ⟨i, s, site, rfl, rfl⟩ ⟨j, u, site', rfl, hxy.symm⟩
      obtain rfl := honce site site' hcaller hxy
      rw [ih before' hcaller]

/-- There is at most one call path from an action to each method. -/
def SinglePaths (r : Registry σ) (start : Nat) : Prop :=
  ∀ {x : Nat} {path path' : List Nat}, (r.method? x).isSome → r.CallPath start path x →
    r.CallPath start path' x → path = path'

/-- Where paths are unique, the computation of a closure meets nothing twice. -/
theorem SinglePaths.tree {start : Nat} (h : r.SinglePaths start) (hacyclic : r.Acyclic)
    (hmethod : ∀ {i : Nat} {s : Site σ}, r.sites[i]? = some s → (r.method? s.callee.id).isSome) :
    Closure.Tree r.callees start := by
  have hreach : ∀ {a : Nat}, Relation.ReflTransGen (fun a b => b ∈ r.callees a) start a →
      r.Reaches start a := by
    intro a ha
    rw [reaches_eq]
    exact ha
  have hlast : ∀ {i j : Nat} {s u : Site σ}, r.sites[i]? = some s → r.sites[j]? = some u →
      r.Reaches start s.caller → r.Reaches start u.caller → s.callee.id = u.callee.id → i = j := by
    intro i j s u hs hu hsreach hureach heq
    obtain ⟨path, hpath⟩ := hsreach.exists_callPath
    obtain ⟨path', hpath'⟩ := hureach.exists_callPath
    have hcall' := hpath'.call hu
    rw [← heq] at hcall'
    have happend := h (hmethod hs) (hpath.call hs) hcall'
    simpa using (List.append_inj' happend rfl).2
  refine ⟨?_, ?_, ?_⟩
  · intro a ha hcall
    exact hacyclic.not_reaches (mem_callees.mp hcall) (hreach ha)
  · intro a ha
    unfold callees
    apply (nodup_sitesOf r a).map_on
    rintro ⟨i, s⟩ hs ⟨j, u⟩ hu heq
    obtain ⟨hs, hsa⟩ := mem_sitesOf.mp hs
    obtain ⟨hu, hua⟩ := mem_sitesOf.mp hu
    obtain rfl := hlast hs hu (by rw [hsa]; exact hreach ha) (by rw [hua]; exact hreach ha) heq
    rw [Option.some.inj (hs.symm.trans hu)]
  · intro a b x ha hb hxa hxb
    obtain ⟨i, s, hs, rfl, rfl⟩ := mem_callees.mp hxa
    obtain ⟨j, u, hu, rfl, heq⟩ := mem_callees.mp hxb
    obtain rfl := hlast hs hu (hreach ha) (hreach hb) heq.symm
    rw [Option.some.inj (hs.symm.trans hu)]

end GuardedActions.Registry
