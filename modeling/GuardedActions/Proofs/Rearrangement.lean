import GuardedActions.Proofs.Admission
import Mathlib.Logic.Equiv.Defs

/-!
# Rearranged registries

Positions of actions and call sites tell the order in which they were registered.  One registry is a
rearrangement of another if permutations of the positions take the actions, call sites and declared
conflicts of the one to those of the other.  What is said in terms of calls, names and priorities
carries over, and so does every rule that an elaboration checks.
-/

set_option autoImplicit false

namespace GuardedActions

variable {σ : Type}

/-! ## What is registered about an action -/

/-- What is registered about a method, apart from what its functions compute and who calls it. -/
structure MethodOutline where
  /-- shape of the arguments -/
  input : Shape
  /-- shape of the results -/
  output : Shape
  /-- whether there is a readiness predicate -/
  ready : Bool
  /-- whether there is a validator -/
  validator : Bool
  /-- whether there is a body -/
  body : Bool
  /-- whether several callers may be granted in one cycle -/
  nonexclusive : Bool
  /-- whether callers were told to supply their arguments before arbitration -/
  early : Bool
  deriving DecidableEq

/-- What is registered about a transaction, apart from what its functions compute. -/
structure TransactionOutline where
  /-- static priority -/
  priority : Int
  /-- whether there is a request predicate -/
  request : Bool
  /-- whether there is a body -/
  body : Bool
  deriving DecidableEq

/-- A name with what is registered under it. -/
structure ActionOutline where
  /-- name of the action -/
  name : String
  /-- the method or transaction that it is -/
  kind : MethodOutline ⊕ TransactionOutline
  deriving DecidableEq

/-- The outline of a method. -/
def Method.outline (x : Method σ) : MethodOutline where
  input := x.input
  output := x.output
  ready := x.ready.isSome
  validator := x.validator.isSome
  body := x.body.isSome
  nonexclusive := x.nonexclusive
  early := x.early

/-- The outline of a transaction. -/
def Transaction.outline (t : Transaction σ) : TransactionOutline where
  priority := t.priority
  request := t.request.isSome
  body := t.body.isSome

/-- The outline of an action. -/
def Action.outline (a : Action σ) : ActionOutline where
  name := a.name
  kind :=
    match a.role with
    | .method x => .inl x.outline
    | .transaction t => .inr t.outline

theorem Method.asksEarly_of_outline {x x' : Method σ} (h : x'.outline = x.outline)
    (hx : x.AsksEarly) : x'.AsksEarly := by
  have hvalidator : x'.validator.isSome = x.validator.isSome := congrArg MethodOutline.validator h
  have hearly : x'.early = x.early := congrArg MethodOutline.early h
  have hshared : x'.nonexclusive = x.nonexclusive := congrArg MethodOutline.nonexclusive h
  have hinput : x'.input = x.input := congrArg MethodOutline.input h
  unfold AsksEarly at hx ⊢
  rw [hvalidator, hearly, hshared, hinput]
  exact hx

namespace Action

variable {a a' : Action σ}

theorem exists_method_of_outline (h : a'.outline = a.outline) {x : Method σ}
    (hx : a.method? = some x) : ∃ x', a'.method? = some x' ∧ x'.outline = x.outline := by
  obtain ⟨name, owner, role⟩ := a
  obtain ⟨name', owner', role'⟩ := a'
  have hkind := congrArg ActionOutline.kind h
  cases role with
  | transaction t => cases hx
  | method y =>
    obtain rfl := Option.some.inj hx
    cases role' with
    | transaction t => cases hkind
    | method x' => exact ⟨x', rfl, Sum.inl.inj hkind⟩

theorem exists_transaction_of_outline (h : a'.outline = a.outline) {t : Transaction σ}
    (ht : a.transaction? = some t) :
    ∃ t', a'.transaction? = some t' ∧ t'.outline = t.outline := by
  obtain ⟨name, owner, role⟩ := a
  obtain ⟨name', owner', role'⟩ := a'
  have hkind := congrArg ActionOutline.kind h
  cases role with
  | method x => cases ht
  | transaction u =>
    obtain rfl := Option.some.inj ht
    cases role' with
    | method x => cases hkind
    | transaction t' => exact ⟨t', rfl, Sum.inr.inj hkind⟩

/-- The priority can be told from the outline, and so can whether there is a body. -/
theorem priority_and_isDefined_of_outline (h : a'.outline = a.outline) :
    a'.priority = a.priority ∧ a'.isDefined = a.isDefined := by
  obtain ⟨name, owner, role⟩ := a
  obtain ⟨name', owner', role'⟩ := a'
  have hkind := congrArg ActionOutline.kind h
  cases role with
  | method x =>
    cases role' with
    | method x' => exact ⟨rfl, congrArg MethodOutline.body (Sum.inl.inj hkind)⟩
    | transaction t' => cases hkind
  | transaction t =>
    cases role' with
    | method x' => cases hkind
    | transaction t' =>
      have houtline := Sum.inr.inj hkind
      exact ⟨congrArg TransactionOutline.priority houtline,
        congrArg TransactionOutline.body houtline⟩

end Action

namespace Registry

/-! ## Actions at other positions -/

section Outlines

variable {π : Equiv.Perm Nat} {r r' : Registry σ}
  (h : ∀ a, (r'.action? (π a)).map Action.outline = (r.action? a).map Action.outline)

include h

theorem exists_action_of_outlines {a : Nat} {x : Action σ} (hx : r.action? a = some x) :
    ∃ x', r'.action? (π a) = some x' ∧ x'.outline = x.outline := by
  have haction := h a
  rw [hx, Option.map_some] at haction
  exact Option.map_eq_some_iff.mp haction

theorem exists_action_back_of_outlines {a : Nat} {x' : Action σ} (hx' : r'.action? (π a) = some x') :
    ∃ x, r.action? a = some x ∧ x.outline = x'.outline := by
  have haction := h a
  rw [hx', Option.map_some] at haction
  exact Option.map_eq_some_iff.mp haction.symm

theorem nameOf_of_outlines (a : Nat) : r'.nameOf (π a) = r.nameOf a := by
  have hname := congrArg (Option.map ActionOutline.name) (h a)
  rw [Option.map_map, Option.map_map] at hname
  exact congrArg (Option.getD · "") hname

theorem lt_length_of_outlines (a : Nat) : π a < r'.actions.length ↔ a < r.actions.length := by
  have hnone := congrArg Option.isSome (h a)
  rw [Option.isSome_map, Option.isSome_map, Option.isSome_eq_isSome] at hnone
  unfold action? at hnone
  rw [List.getElem?_eq_none_iff, List.getElem?_eq_none_iff] at hnone
  omega

theorem namesDistinct_of_outlines (hnames : r.NamesDistinct) : r'.NamesDistinct := by
  intro a' b' x' y' hx' hy' hname
  obtain ⟨a, rfl⟩ := π.surjective a'
  obtain ⟨b, rfl⟩ := π.surjective b'
  obtain ⟨x, hx, hxoutline⟩ := exists_action_back_of_outlines h hx'
  obtain ⟨y, hy, hyoutline⟩ := exists_action_back_of_outlines h hy'
  have hxname : x.name = x'.name := congrArg ActionOutline.name hxoutline
  have hyname : y.name = y'.name := congrArg ActionOutline.name hyoutline
  exact congrArg π (hnames hx hy (by rw [hxname, hyname, hname]))

end Outlines

end Registry

/-! ## The relation -/

/-- One call site is another one with its ends renamed. -/
structure Site.Renames (π : Equiv.Perm Nat) (u u' : Site σ) : Prop where
  /-- the caller is renamed -/
  caller : u'.caller = π u.caller
  /-- the callee stays in its registry -/
  domain : u'.callee.domain = u.callee.domain
  /-- the callee is renamed -/
  callee : u'.callee.id = π u.callee.id
  /-- both calls are conditional, or none is -/
  condition : u'.condition.isSome = u.condition.isSome
  /-- both calls supply arguments, or none does -/
  arguments : u'.arguments.isSome = u.arguments.isSome

theorem Site.Renames.callee_eq {π : Equiv.Perm Nat} {u u' : Site σ} (h : u.Renames π u') :
    u'.callee = ⟨u.callee.domain, π u.callee.id⟩ := by
  rw [← h.domain, ← h.callee]

theorem Site.Renames.symm {π : Equiv.Perm Nat} {u u' : Site σ} (h : u.Renames π u') :
    u'.Renames π.symm u where
  caller := by rw [h.caller, Equiv.symm_apply_apply]
  domain := h.domain.symm
  callee := by rw [h.callee, Equiv.symm_apply_apply]
  condition := h.condition.symm
  arguments := h.arguments.symm

namespace Registry

/-- Two actions are declared to conflict, whichever was named first. -/
def Declares (r : Registry σ) (a b : Nat) : Prop := (a, b) ∈ r.conflicts ∨ (b, a) ∈ r.conflicts

/-- One registry is another one with actions and call sites at other positions. -/
structure Rearranged (r : Registry σ) (π ρ : Equiv.Perm Nat) (r' : Registry σ) : Prop where
  /-- actions are registered in the same way, up to positions -/
  action : ∀ a, (r'.action? (π a)).map Action.outline = (r.action? a).map Action.outline
  /-- so are call sites -/
  site : ∀ i, Option.Rel (Site.Renames π) r.sites[i]? r'.sites[ρ i]?
  /-- the same conflicts are declared -/
  conflict : ∀ a b, r.Declares a b ↔ r'.Declares (π a) (π b)

namespace Rearranged

variable {π ρ : Equiv.Perm Nat} {r r' : Registry σ}

theorem exists_site (h : r.Rearranged π ρ r') {i : Nat} {u : Site σ} (hu : r.sites[i]? = some u) :
    ∃ u', r'.sites[ρ i]? = some u' ∧ u.Renames π u' := by
  have hsite := h.site i
  rw [hu] at hsite
  generalize r'.sites[ρ i]? = found at hsite
  cases hsite with
  | some hrenames => exact ⟨_, rfl, hrenames⟩

theorem exists_site_back (h : r.Rearranged π ρ r') {i : Nat} {u' : Site σ}
    (hu' : r'.sites[ρ i]? = some u') : ∃ u, r.sites[i]? = some u ∧ u.Renames π u' := by
  have hsite := h.site i
  rw [hu'] at hsite
  generalize r.sites[i]? = found at hsite
  cases hsite with
  | some hrenames => exact ⟨_, rfl, hrenames⟩

theorem symm (h : r.Rearranged π ρ r') : r'.Rearranged π.symm ρ.symm r where
  action := by
    intro a
    rw [← h.action, Equiv.apply_symm_apply]
  site := by
    intro i
    have hsite := h.site (ρ.symm i)
    rw [Equiv.apply_symm_apply] at hsite
    generalize r.sites[ρ.symm i]? = before at hsite ⊢
    generalize r'.sites[i]? = after at hsite ⊢
    cases hsite with
    | none => exact .none
    | some hrenames => exact .some hrenames.symm
  conflict := by
    intro a b
    rw [h.conflict, Equiv.apply_symm_apply, Equiv.apply_symm_apply]

/-! ## Actions -/

theorem exists_action (h : r.Rearranged π ρ r') {a : Nat} {x : Action σ}
    (hx : r.action? a = some x) : ∃ x', r'.action? (π a) = some x' ∧ x'.outline = x.outline :=
  exists_action_of_outlines h.action hx

theorem nameOf (h : r.Rearranged π ρ r') (a : Nat) : r'.nameOf (π a) = r.nameOf a :=
  nameOf_of_outlines h.action a

theorem exists_method (h : r.Rearranged π ρ r') {a : Nat} {x : Method σ}
    (hx : r.method? a = some x) : ∃ x', r'.method? (π a) = some x' ∧ x'.outline = x.outline := by
  obtain ⟨y, hy, hyx⟩ := method?_eq_some.mp hx
  obtain ⟨y', hy', houtline⟩ := h.exists_action hy
  obtain ⟨x', hx', hx'x⟩ := Action.exists_method_of_outline houtline hyx
  exact ⟨x', method?_eq_some.mpr ⟨y', hy', hx'⟩, hx'x⟩

theorem exists_transaction (h : r.Rearranged π ρ r') {a : Nat} {t : Transaction σ}
    (ht : r.transaction? a = some t) :
    ∃ t', r'.transaction? (π a) = some t' ∧ t'.outline = t.outline := by
  obtain ⟨y, hy, hyt⟩ := transaction?_eq_some.mp ht
  obtain ⟨y', hy', houtline⟩ := h.exists_action hy
  obtain ⟨t', ht', ht't⟩ := Action.exists_transaction_of_outline houtline hyt
  exact ⟨t', transaction?_eq_some.mpr ⟨y', hy', ht'⟩, ht't⟩

theorem isSome_method? (h : r.Rearranged π ρ r') {a : Nat} (ha : (r.method? a).isSome) :
    (r'.method? (π a)).isSome := by
  obtain ⟨x, hx⟩ := Option.isSome_iff_exists.mp ha
  obtain ⟨x', hx', -⟩ := h.exists_method hx
  rw [hx']
  rfl

theorem isSome_transaction? (h : r.Rearranged π ρ r') {a : Nat} (ha : (r.transaction? a).isSome) :
    (r'.transaction? (π a)).isSome := by
  obtain ⟨t, ht⟩ := Option.isSome_iff_exists.mp ha
  obtain ⟨t', ht', -⟩ := h.exists_transaction ht
  rw [ht']
  rfl

theorem transaction_iff (h : r.Rearranged π ρ r') {t : Nat} :
    (r'.transaction? (π t)).isSome ↔ (r.transaction? t).isSome := by
  constructor
  · intro ht
    have hback := h.symm.isSome_transaction? ht
    rw [Equiv.symm_apply_apply] at hback
    exact hback
  · exact h.isSome_transaction?

theorem isExclusive (h : r.Rearranged π ρ r') {a : Nat} (ha : r.isExclusive a = true) :
    r'.isExclusive (π a) = true := by
  obtain ⟨x, hx⟩ := Option.isSome_iff_exists.mp (isSome_method?_of_isExclusive ha)
  obtain ⟨x', hx', houtline⟩ := h.exists_method hx
  rw [isExclusive_iff hx', ← (isExclusive_iff hx).mp ha]
  exact congrArg MethodOutline.nonexclusive houtline

theorem outranks (h : r.Rearranged π ρ r') {a b : Nat} (hab : r.Outranks a b) :
    r'.Outranks (π a) (π b) := by
  obtain ⟨x, y, hx, hy, hrank⟩ := hab
  obtain ⟨x', hx', hxoutline⟩ := h.exists_action hx
  obtain ⟨y', hy', hyoutline⟩ := h.exists_action hy
  refine ⟨x', y', hx', hy', ?_⟩
  have hxname : x'.name = x.name := congrArg ActionOutline.name hxoutline
  have hyname : y'.name = y.name := congrArg ActionOutline.name hyoutline
  rw [(Action.priority_and_isDefined_of_outline hxoutline).1,
    (Action.priority_and_isDefined_of_outline hyoutline).1, hxname, hyname]
  exact hrank

theorem samePriority (h : r.Rearranged π ρ r') {a b : Nat} (hab : r.SamePriority a b) :
    r'.SamePriority (π a) (π b) := by
  have hpriority : ∀ c, (r'.action? (π c)).map Action.priority = (r.action? c).map Action.priority := by
    intro c
    cases hx : r.action? c with
    | none =>
      have haction := h.action c
      rw [hx, Option.map_none, Option.map_eq_none_iff] at haction
      rw [haction]
    | some x =>
      obtain ⟨x', hx', houtline⟩ := h.exists_action hx
      rw [hx', Option.map_some, Option.map_some,
        (Action.priority_and_isDefined_of_outline houtline).1]
  unfold SamePriority at hab ⊢
  rw [hpriority, hpriority, hab]

/-! ## Calls -/

theorem calls (h : r.Rearranged π ρ r') {a b : Nat} (hab : r.Calls a b) :
    r'.Calls (π a) (π b) := by
  obtain ⟨i, u, hu, rfl, rfl⟩ := hab
  obtain ⟨u', hu', hrenames⟩ := h.exists_site hu
  exact ⟨ρ i, u', hu', hrenames.caller, hrenames.callee⟩

theorem reaches (h : r.Rearranged π ρ r') {a b : Nat} (hab : r.Reaches a b) :
    r'.Reaches (π a) (π b) := Relation.ReflTransGen.lift π (fun _ _ => h.calls) _ _ hab

theorem reaches_back (h : r.Rearranged π ρ r') {a b : Nat} (hab : r'.Reaches (π a) (π b)) :
    r.Reaches a b := by
  have hback := h.symm.reaches hab
  rw [Equiv.symm_apply_apply, Equiv.symm_apply_apply] at hback
  exact hback

theorem callPath (h : r.Rearranged π ρ r') {a b : Nat} {path : List Nat}
    (hpath : r.CallPath a path b) : r'.CallPath (π a) (path.map ρ) (π b) := by
  induction hpath with
  | here => exact .here
  | @call path i u before site ih =>
    obtain ⟨u', hu', hrenames⟩ := h.exists_site site
    rw [List.map_append, ← hrenames.callee]
    rw [← hrenames.caller] at ih
    exact .call ih hu'

theorem reachEnds (h : r.Rearranged π ρ r') {a b : Nat} (hab : r.ReachEnds a b) :
    r'.ReachEnds (π a) (π b) ∨ r'.ReachEnds (π b) (π a) := by
  obtain ⟨⟨x, y⟩, hpair, ha, hb⟩ := hab
  rcases (h.conflict x y).mp (Or.inl hpair) with hpair' | hpair'
  · exact Or.inl ⟨_, hpair', h.reaches ha, h.reaches hb⟩
  · exact Or.inr ⟨_, hpair', h.reaches hb, h.reaches ha⟩

theorem competes (h : r.Rearranged π ρ r') {a b : Nat} (hab : r.Competes a b) :
    r'.Competes (π a) (π b) := by
  obtain ⟨hne, ha, hb, hshare⟩ := hab
  refine ⟨π.injective.ne hne, h.isSome_transaction? ha, h.isSome_transaction? hb, ?_⟩
  rcases hshare with ⟨x, hx, hax, hbx⟩ | hends | hends
  · exact Or.inl ⟨π x, h.isExclusive hx, h.reaches hax, h.reaches hbx⟩
  · exact Or.inr (h.reachEnds hends)
  · exact Or.inr (h.reachEnds hends).symm

theorem competes_iff (h : r.Rearranged π ρ r') {a b : Nat} :
    r'.Competes (π a) (π b) ↔ r.Competes a b := by
  constructor
  · intro hab
    have hback := h.symm.competes hab
    rw [Equiv.symm_apply_apply, Equiv.symm_apply_apply] at hback
    exact hback
  · exact h.competes

/-! ## The rules for a registry -/

theorem namesDistinct (h : r.Rearranged π ρ r') (hnames : r.NamesDistinct) : r'.NamesDistinct :=
  namesDistinct_of_outlines h.action hnames

theorem unconditional (h : r.Rearranged π ρ r') {t : Nat} (ht : r.Unconditional t) :
    r'.Unconditional (π t) where
  request := by
    obtain ⟨x, hx, hrequest⟩ := ht.request
    obtain ⟨x', hx', houtline⟩ := h.exists_transaction hx
    have hsame : x'.request.isSome = x.request.isSome :=
      congrArg TransactionOutline.request houtline
    exact ⟨x', hx', (Option.isSome_eq_isSome.mp hsame).mpr hrequest⟩
  method := by
    intro a' x' ha' hx'
    obtain ⟨a, rfl⟩ := π.surjective a'
    obtain ⟨x, hx, houtline⟩ := h.symm.exists_method hx'
    rw [Equiv.symm_apply_apply] at hx
    obtain ⟨hready, hvalidator⟩ := ht.method (h.reaches_back ha') hx
    have hsameReady : x.ready.isSome = x'.ready.isSome := congrArg MethodOutline.ready houtline
    have hsameValidator : x.validator.isSome = x'.validator.isSome :=
      congrArg MethodOutline.validator houtline
    exact ⟨(Option.isSome_eq_isSome.mp hsameReady).mp hready,
      (Option.isSome_eq_isSome.mp hsameValidator).mp hvalidator⟩
  call := by
    intro i' u' hu' hreach
    obtain ⟨i, rfl⟩ := ρ.surjective i'
    obtain ⟨u, hu, hrenames⟩ := h.exists_site_back hu'
    rw [hrenames.caller] at hreach
    exact (Option.isSome_eq_isSome.mp hrenames.condition).mpr (ht.call hu (h.reaches_back hreach))

theorem tied (h : r.Rearranged π ρ r') {a b : Nat} (hab : r.Tied a b) : r'.Tied (π a) (π b) where
  compete := h.competes hab.compete
  priority := h.samePriority hab.priority
  first := h.unconditional hab.first
  second := h.unconditional hab.second

theorem singlePaths (h : r.Rearranged π ρ r') {t : Nat} (ht : r.SinglePaths t) :
    r'.SinglePaths (π t) := by
  intro x' path path' hx' hpath hpath'
  have hback := h.symm.callPath hpath
  have hback' := h.symm.callPath hpath'
  rw [Equiv.symm_apply_apply] at hback hback'
  have hsame := ht (h.symm.isSome_method? hx') hback hback'
  exact List.map_injective_iff.mpr ρ.symm.injective hsame

theorem endsApart (h : r.Rearranged π ρ r') (hapart : r.EndsApart) : r'.EndsApart := by
  rintro ⟨x, y⟩ hpair hne t ht hx hy
  have ht := h.symm.isSome_transaction? ht
  have hx := h.symm.reaches hx
  have hy := h.symm.reaches hy
  have hne : π.symm x ≠ π.symm y := π.symm.injective.ne hne
  rcases (h.symm.conflict x y).mp (Or.inl hpair) with hback | hback
  · exact hapart hback hne ht hx hy
  · exact hapart hback hne.symm ht hy hx

end Rearranged

end Registry

/-- If a design obeys the rules, so does a rearrangement of it. -/
theorem Design.Admissible.rearranged {d d' : Design σ} {π ρ : Equiv.Perm Nat} (hd : d.Admissible)
    (h : d.main.Rearranged π ρ d'.main) : d'.Admissible where
  names := h.namesDistinct hd.names
  defined := by
    intro a' x' hx'
    obtain ⟨x, hx, houtline⟩ := h.symm.exists_action hx'
    rw [← (Action.priority_and_isDefined_of_outline houtline).2]
    exact hd.defined hx
  own := by
    intro i' u' hu'
    obtain ⟨u, hu, hrenames⟩ := h.symm.exists_site hu'
    rw [← hrenames.domain]
    exact hd.own hu
  once := by
    intro i' j' u' v' hu' hv' hcaller hcallee
    obtain ⟨u, hu, hurenames⟩ := h.symm.exists_site hu'
    obtain ⟨v, hv, hvrenames⟩ := h.symm.exists_site hv'
    apply ρ.symm.injective
    apply hd.once hu hv
    · rw [hurenames.caller, hvrenames.caller, hcaller]
    · rw [hurenames.callee_eq, hvrenames.callee_eq, hcallee]
  in_time := by
    intro i' u' x' hu' hx' hasks
    obtain ⟨u, hu, hrenames⟩ := h.symm.exists_site hu'
    obtain ⟨x, hx, houtline⟩ := h.symm.exists_method hx'
    rw [← hrenames.callee] at hx
    rw [← hrenames.arguments]
    exact hd.in_time hu hx (Method.asksEarly_of_outline houtline hasks)
  acyclic := by
    intro a' hcycle
    exact hd.acyclic _ (Relation.TransGen.lift π.symm (fun _ _ => h.symm.calls) _ _ hcycle)
  single := by
    intro t' ht'
    obtain ⟨t, rfl⟩ := π.surjective t'
    have ht := h.symm.isSome_transaction? ht'
    rw [Equiv.symm_apply_apply] at ht
    have hsingle : d.main.SinglePaths t := hd.single ht
    intro x path path'
    exact h.singlePaths hsingle
  apart := h.endsApart hd.apart
  untied := fun a' b' htied => hd.untied _ _ (h.symm.tied htied)

end GuardedActions
