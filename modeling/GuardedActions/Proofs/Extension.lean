import GuardedActions.Proofs.CallGraph
import GuardedActions.Registration

/-!
# Changes that keep the calls

All registrations but a new call and a new conflict leave the ends of the call sites and the callers of
every method as they were.  `Registry.Extends` says so once, and every change of a registry is shown to
be one, and to be refused by a frozen registry.
-/

set_option autoImplicit false

namespace GuardedActions

variable {σ : Type}

/-! ## Changes of one action or one call site -/

namespace Action

@[simp] theorem method?_mapMethod (f : Method σ → Method σ) (a : Action σ) :
    (a.mapMethod f).method? = a.method?.map f := by
  obtain ⟨name, owner, role⟩ := a
  cases role <;> rfl

@[simp] theorem transaction?_mapMethod (f : Method σ → Method σ) (a : Action σ) :
    (a.mapMethod f).transaction? = a.transaction? := by
  obtain ⟨name, owner, role⟩ := a
  cases role <;> rfl

@[simp] theorem method?_mapTransaction (f : Transaction σ → Transaction σ) (a : Action σ) :
    (a.mapTransaction f).method? = a.method? := by
  obtain ⟨name, owner, role⟩ := a
  cases role <;> rfl

@[simp] theorem transaction?_mapTransaction (f : Transaction σ → Transaction σ) (a : Action σ) :
    (a.mapTransaction f).transaction? = a.transaction?.map f := by
  obtain ⟨name, owner, role⟩ := a
  cases role <;> rfl

@[simp] theorem name_mapMethod (f : Method σ → Method σ) (a : Action σ) :
    (a.mapMethod f).name = a.name := by
  obtain ⟨name, owner, role⟩ := a
  cases role <;> rfl

@[simp] theorem priority_mapMethod (f : Method σ → Method σ) (a : Action σ) :
    (a.mapMethod f).priority = a.priority := by
  obtain ⟨name, owner, role⟩ := a
  cases role <;> rfl

end Action

namespace Registry

variable {r r' : Registry σ}

theorem action?_modifyAction (r : Registry σ) (id j : Nat) (f : Action σ → Action σ) :
    (r.modifyAction id f).action? j = if id = j then (r.action? j).map f else r.action? j := by
  unfold modifyAction action?
  rw [List.getElem?_modify]
  by_cases h : id = j
  · simp [h]
  · simp [h]

theorem method?_modifyAction_mapMethod (r : Registry σ) (id j : Nat) (f : Method σ → Method σ) :
    (r.modifyAction id (Action.mapMethod f)).method? j =
      if id = j then (r.method? j).map f else r.method? j := by
  unfold method?
  rw [action?_modifyAction]
  split
  · cases r.action? j <;> simp
  · rfl

theorem method?_modifyAction_mapTransaction (r : Registry σ) (id j : Nat)
    (f : Transaction σ → Transaction σ) :
    (r.modifyAction id (Action.mapTransaction f)).method? j = r.method? j := by
  unfold method?
  rw [action?_modifyAction]
  split
  · cases r.action? j <;> simp
  · rfl

@[simp] theorem length_actions_modifyAction (r : Registry σ) (id : Nat) (f : Action σ → Action σ) :
    (r.modifyAction id f).actions.length = r.actions.length := by
  simp [modifyAction]

theorem method?_push (r : Registry σ) (a : Action σ) (j : Nat) :
    (r.push a).method? j = if j = r.actions.length then a.method? else r.method? j := by
  unfold method? action? push
  by_cases heq : j = r.actions.length
  · simp [heq]
  · rw [if_neg heq]
    by_cases hlt : j < r.actions.length
    · rw [List.getElem?_append_left hlt]
    · rw [List.getElem?_eq_none (by simp; omega), List.getElem?_eq_none (by omega)]

end Registry

/-- The two ends of a call site. -/
def Site.ends (s : Site σ) : Nat × ActionRef := (s.caller, s.callee)

namespace Registry

/-! ## Registries with the same calls -/

/-- The positions of the call sites that target a method, in the order of declaration. -/
def sitesInto (r : Registry σ) (ref : ActionRef) : List Nat :=
  ((r.sites.map Site.ends).zipIdx.filter fun x => x.1.2 == ref).map Prod.snd

theorem mem_sitesInto {r : Registry σ} {ref : ActionRef} {i : Nat} :
    i ∈ r.sitesInto ref ↔ ∃ s, r.sites[i]? = some s ∧ s.callee = ref := by
  unfold sitesInto
  rw [List.mem_map]
  constructor
  · rintro ⟨⟨ends, j⟩, hmem, rfl⟩
    obtain ⟨hmem, htest⟩ := List.mem_filter.mp hmem
    have hends := List.mem_zipIdx_iff_getElem?.mp hmem
    rw [List.getElem?_map] at hends
    obtain ⟨s, hs, rfl⟩ := Option.map_eq_some_iff.mp hends
    exact ⟨s, hs, by simpa [Site.ends] using htest⟩
  · rintro ⟨s, hs, hcallee⟩
    refine ⟨(s.ends, i), List.mem_filter.mpr ⟨?_, by simpa [Site.ends] using hcallee⟩, rfl⟩
    rw [List.mem_zipIdx_iff_getElem?, List.getElem?_map, hs]
    rfl

theorem nodup_sitesInto (r : Registry σ) (ref : ActionRef) : (r.sitesInto ref).Nodup := by
  unfold sitesInto
  refine List.Nodup.sublist (List.Sublist.map _ List.filter_sublist) ?_
  rw [List.zipIdx_map_snd]
  exact List.nodup_range' ..

/-- The call sites after one more declaration. -/
theorem sitesInto_append {r r' : Registry σ} {s : Site σ} (h : r'.sites = r.sites ++ [s])
    (ref : ActionRef) :
    r'.sitesInto ref = r.sitesInto ref ++ if s.callee = ref then [r.sites.length] else [] := by
  unfold sitesInto
  rw [h, List.map_append, List.zipIdx_append, List.filter_append, List.map_append]
  congr 1
  by_cases hcallee : s.callee = ref
  · simp [Site.ends, hcallee]
  · simp [Site.ends, hcallee]

/-- One registry has the calls, conflicts and methods of another, and maybe more actions. -/
structure Extends (r r' : Registry σ) : Prop where
  /-- call sites keep their ends -/
  sites : r'.sites.map Site.ends = r.sites.map Site.ends
  /-- no action is lost -/
  length_le : r.actions.length ≤ r'.actions.length
  /-- declared conflicts stay -/
  conflicts : r'.conflicts = r.conflicts
  /-- a method stays a method -/
  methods : ∀ id, (r.method? id).isSome → (r'.method? id).isSome
  /-- a method keeps its callers, and a new one has none -/
  callers : ∀ id x', r'.method? id = some x' →
    (∃ x, r.method? id = some x ∧ x.callers = x'.callers) ∨
      (r.method? id = none ∧ r.actions.length ≤ id ∧ x'.callers = [])

namespace Extends

/-- Nothing but the plan and the ranking differs. -/
theorem of_eq {r r' : Registry σ} (hactions : r'.actions = r.actions) (hsites : r'.sites = r.sites)
    (hconflicts : r'.conflicts = r.conflicts) : r.Extends r' := by
  have hmethod : ∀ id, r'.method? id = r.method? id := by
    intro id
    unfold method? action?
    rw [hactions]
  refine ⟨by rw [hsites], Nat.le_of_eq (by rw [hactions]), hconflicts, ?_, ?_⟩
  · intro id h
    rwa [hmethod]
  · intro id x' h
    exact Or.inl ⟨x', by rw [← hmethod]; exact h, rfl⟩

theorem push (r : Registry σ) (a : Action σ) (h : ∀ x, a.method? = some x → x.callers = []) :
    r.Extends (r.push a) := by
  refine ⟨rfl, by simp [Registry.push], rfl, ?_, ?_⟩
  · intro id hid
    rw [method?_push, if_neg (Nat.ne_of_lt (lt_length_of_method? hid))]
    exact hid
  · intro id x' hx'
    rw [method?_push] at hx'
    split at hx'
    · rename_i heq
      refine Or.inr ⟨?_, Nat.le_of_eq heq.symm, h x' hx'⟩
      cases hm : r.method? id with
      | none => rfl
      | some x =>
        have hsome : (r.method? id).isSome := by rw [hm]; rfl
        have hlt := lt_length_of_method? hsome
        omega
    · exact Or.inl ⟨x', hx', rfl⟩

theorem mapMethod (r : Registry σ) (id : Nat) (f : Method σ → Method σ)
    (h : ∀ x, (f x).callers = x.callers) : r.Extends (r.modifyAction id (Action.mapMethod f)) := by
  refine ⟨rfl, by simp, rfl, ?_, ?_⟩
  · intro j hj
    rw [method?_modifyAction_mapMethod]
    split
    · simpa using hj
    · exact hj
  · intro j x' hx'
    rw [method?_modifyAction_mapMethod] at hx'
    split at hx'
    · obtain ⟨x, hx, rfl⟩ := Option.map_eq_some_iff.mp hx'
      exact Or.inl ⟨x, hx, (h x).symm⟩
    · exact Or.inl ⟨x', hx', rfl⟩

theorem mapTransaction (r : Registry σ) (id : Nat) (f : Transaction σ → Transaction σ) :
    r.Extends (r.modifyAction id (Action.mapTransaction f)) := by
  refine ⟨rfl, by simp, rfl, ?_, ?_⟩
  · intro j hj
    rwa [method?_modifyAction_mapTransaction]
  · intro j x' hx'
    rw [method?_modifyAction_mapTransaction] at hx'
    exact Or.inl ⟨x', hx', rfl⟩

theorem modifySite (r : Registry σ) (id : Nat) (f : Site σ → Site σ)
    (h : ∀ s, (f s).ends = s.ends) : r.Extends (r.modifySite id f) := by
  refine ⟨?_, Nat.le_refl _, rfl, fun _ hid => hid, fun _ x' hx' => Or.inl ⟨x', hx', rfl⟩⟩
  refine List.ext_getElem? fun j => ?_
  simp only [Registry.modifySite, List.getElem?_map, List.getElem?_modify]
  split
  · cases r.sites[j]? <;> simp [h]
  · simp

end Extends

/-! ## What a frozen registry refuses -/

theorem allow_eq_ok {r : Registry σ} {what : Change} {u : Unit} (h : r.allow what = .ok u) :
    r.plan = none := by
  unfold allow isFrozen at h
  split at h
  · cases h
  · rename_i hplan
    simpa using hplan

/-- A registry that is not frozen changes and keeps its calls. -/
structure Grows (r r' : Registry σ) : Prop where
  /-- the change is allowed -/
  open_before : r.plan = none
  /-- more changes are allowed -/
  open_after : r'.plan = none
  /-- the calls are kept -/
  calls : r.Extends r'

theorem grows_of_newMethod {r r' : Registry σ} {name : String} {input output : Shape}
    {owner : Option String} {id : Nat} (h : r.newMethod name input output owner = .ok (id, r')) :
    r.Grows r' := by
  unfold newMethod at h
  obtain ⟨u, hallow, hr⟩ := bind_eq_ok.mp h
  obtain ⟨rfl, rfl⟩ := Prod.mk.inj (Except.ok.inj hr)
  have hplan := allow_eq_ok hallow
  refine ⟨hplan, hplan, Extends.push r _ ?_⟩
  intro x hx
  cases hx
  rfl

theorem grows_of_newTransaction {r r' : Registry σ} {name : String} {priority : Int}
    {owner : Option String} {id : Nat} (h : r.newTransaction name priority owner = .ok (id, r')) :
    r.Grows r' := by
  unfold newTransaction at h
  obtain ⟨u, hallow, hr⟩ := bind_eq_ok.mp h
  obtain ⟨rfl, rfl⟩ := Prod.mk.inj (Except.ok.inj hr)
  have hplan := allow_eq_ok hallow
  exact ⟨hplan, hplan, Extends.push r _ fun x hx => nomatch hx⟩

theorem grows_of_changeMethod {r r' : Registry σ} {id : Nat} {what : String → Change}
    {f : Method σ → Method σ} (h : r.changeMethod id what f = .ok r')
    (hf : ∀ x, (f x).callers = x.callers) : r.Grows r' := by
  unfold changeMethod at h
  obtain ⟨u, hallow, hr⟩ := bind_eq_ok.mp h
  obtain rfl := Except.ok.inj hr
  have hplan := allow_eq_ok hallow
  exact ⟨hplan, hplan, Extends.mapMethod r id f hf⟩

theorem grows_of_changeTransaction {r r' : Registry σ} {id : Nat} {what : String → Change}
    {f : Transaction σ → Transaction σ} (h : r.changeTransaction id what f = .ok r') :
    r.Grows r' := by
  unfold changeTransaction at h
  obtain ⟨u, hallow, hr⟩ := bind_eq_ok.mp h
  obtain rfl := Except.ok.inj hr
  have hplan := allow_eq_ok hallow
  exact ⟨hplan, hplan, Extends.mapTransaction r id f⟩

theorem grows_of_setMethod {r r' : Registry σ} {id : Nat} {setting : MethodSetting σ}
    (h : r.setMethod id setting = .ok r') : r.Grows r' := by
  cases setting with
  | ready guard => exact grows_of_changeMethod h fun _ => rfl
  | body body => exact grows_of_changeMethod h fun _ => rfl
  | validator validator => exact grows_of_changeMethod h fun _ => rfl
  | shared => exact grows_of_changeMethod h fun _ => rfl
  | early => exact grows_of_changeMethod h fun _ => rfl

theorem grows_of_setTransaction {r r' : Registry σ} {id : Nat} {setting : TransactionSetting σ}
    (h : r.setTransaction id setting = .ok r') : r.Grows r' := by
  cases setting with
  | request guard => exact grows_of_changeTransaction h
  | body body => exact grows_of_changeTransaction h

theorem grows_of_setCall {r r' : Registry σ} {id : Nat} {setting : CallSetting σ}
    (h : r.setCall id setting = .ok r') : r.Grows r' := by
  cases setting with
  | condition guard =>
    change r.defineCondition id guard = .ok r' at h
    unfold defineCondition at h
    split at h
    · cases h
    · obtain ⟨u, hallow, hr⟩ := bind_eq_ok.mp h
      obtain rfl := Except.ok.inj hr
      have hplan := allow_eq_ok hallow
      exact ⟨hplan, hplan, Extends.modifySite r id _ fun _ => rfl⟩
  | arguments supplier =>
    change r.supplyArguments id supplier = .ok r' at h
    unfold supplyArguments at h
    split at h
    · cases h
    · obtain ⟨u, hallow, hr⟩ := bind_eq_ok.mp h
      obtain rfl := Except.ok.inj hr
      have hplan := allow_eq_ok hallow
      exact ⟨hplan, hplan, Extends.modifySite r id _ fun _ => rfl⟩

end Registry

end GuardedActions
