import GuardedActions.Proofs.Rearrangement
import Mathlib.Logic.Equiv.Basic

/-!
# What is declared, whatever the order

Two registries hold the same declarations if the same actions, calls and conflicts were registered,
each known by names.  Nothing is said about positions, so that the registrations may have come in any
two orders.  Where names are unique, one registry is a rearrangement of the other.
-/

set_option autoImplicit false

namespace GuardedActions

variable {σ : Type}

/-! ## Positions in lists of the same elements -/

/-- A permutation of the positions that come after the first. -/
def afterFirst (π : Equiv.Perm Nat) : Equiv.Perm Nat where
  toFun
    | 0 => 0
    | i + 1 => π i + 1
  invFun
    | 0 => 0
    | i + 1 => π.symm i + 1
  left_inv := by
    intro i
    cases i with
    | zero => rfl
    | succ i => exact congrArg (· + 1) (π.symm_apply_apply i)
  right_inv := by
    intro i
    cases i with
    | zero => rfl
    | succ i => exact congrArg (· + 1) (π.apply_symm_apply i)

/-- Lists of the same elements have them at positions that a permutation takes to each other. -/
theorem exists_positions {α : Type} {l l' : List α} (h : l.Perm l') :
    ∃ π : Equiv.Perm Nat, ∀ i : Nat, l'[π i]? = l[i]? := by
  induction h with
  | nil => exact ⟨Equiv.refl _, fun _ => rfl⟩
  | cons a _ ih =>
    obtain ⟨π, hπ⟩ := ih
    refine ⟨afterFirst π, fun i => ?_⟩
    cases i with
    | zero => rfl
    | succ i => exact hπ i
  | swap a b l =>
    refine ⟨Equiv.swap 0 1, fun i => ?_⟩
    match i with
    | 0 => rfl
    | 1 => rfl
    | i + 2 => rw [Equiv.swap_apply_of_ne_of_ne (by omega) (by omega)]; rfl
  | trans _ _ ih ih' =>
    obtain ⟨π, hπ⟩ := ih
    obtain ⟨π', hπ'⟩ := ih'
    exact ⟨π.trans π', fun i => (hπ' (π i)).trans (hπ i)⟩

/-! ## Declarations by name -/

/-- What is registered about a call, apart from what its functions compute. -/
structure SiteOutline where
  /-- name of the caller -/
  caller : String
  /-- name of the callee, if it belongs to the same registry -/
  callee : Option String
  /-- whether the call is conditional -/
  condition : Bool
  /-- whether the arguments are supplied before arbitration -/
  arguments : Bool
  deriving DecidableEq

namespace Registry

/-- The outline of a call site of the main registry. -/
def siteOutline (r : Registry σ) (u : Site σ) : SiteOutline where
  caller := r.nameOf u.caller
  callee := if u.callee.domain = .main then some (r.nameOf u.callee.id) else none
  condition := u.condition.isSome
  arguments := u.arguments.isSome

/-- Two actions of the given names are declared to conflict, whichever was named first. -/
def DeclaresNames (r : Registry σ) (first second : String) : Prop :=
  ∃ a b : Nat, r.Declares a b ∧ r.nameOf a = first ∧ r.nameOf b = second

/-- Two registries were made by the same declarations, in whatever order each. -/
structure SameDeclarations (r r' : Registry σ) : Prop where
  /-- the same actions are registered -/
  actions : (r.actions.map Action.outline).Perm (r'.actions.map Action.outline)
  /-- the same calls are declared -/
  sites : (r.sites.map r.siteOutline).Perm (r'.sites.map r'.siteOutline)
  /-- the same conflicts are declared -/
  conflicts : ∀ first second, r.DeclaresNames first second ↔ r'.DeclaresNames first second

theorem SameDeclarations.symm {r r' : Registry σ} (h : r.SameDeclarations r') :
    r'.SameDeclarations r where
  actions := h.actions.symm
  sites := h.sites.symm
  conflicts := fun first second => (h.conflicts first second).symm

/-- Where names are distinct, actions of one name are one action. -/
theorem NamesDistinct.eq_of_nameOf {r : Registry σ} (h : r.NamesDistinct) {a b : Nat}
    (ha : a < r.actions.length) (hb : b < r.actions.length) (hname : r.nameOf a = r.nameOf b) :
    a = b := by
  have hx : r.action? a = some r.actions[a] := List.getElem?_eq_getElem ha
  have hy : r.action? b = some r.actions[b] := List.getElem?_eq_getElem hb
  unfold nameOf at hname
  rw [hx, hy] at hname
  exact h hx hy hname

end Registry

/-! ## From declarations to positions -/

namespace Design

variable {d d' : Design σ}

theorem Built.lt_length_of_declares (built : d.Built) {a b : Nat} (h : d.main.Declares a b) :
    a < d.main.actions.length ∧ b < d.main.actions.length := by
  rcases h with hpair | hpair
  · exact built.wellFormed.conflict_lt hpair
  · exact (built.wellFormed.conflict_lt hpair).symm

/-- A call site with the outline of one whose callee is in the main registry has its callee there. -/
theorem domain_of_siteOutline {r r' : Registry σ} {u u' : Site σ}
    (h : r'.siteOutline u' = r.siteOutline u) (hmain : u.callee.domain = .main) :
    u'.callee.domain = .main ∧ r'.nameOf u'.callee.id = r.nameOf u.callee.id := by
  have hcallee := congrArg SiteOutline.callee h
  unfold Registry.siteOutline at hcallee
  simp only at hcallee
  rw [if_pos hmain] at hcallee
  split at hcallee
  · rename_i hdomain
    exact ⟨hdomain, Option.some.inj hcallee⟩
  · cases hcallee

/-- Of two designs with the same declarations, of which one is admissible, one is a rearrangement of
the other. -/
theorem Built.exists_rearranged (built : d.Built) (built' : d'.Built)
    (same : d.main.SameDeclarations d'.main) (hd : d.Admissible) :
    ∃ π ρ : Equiv.Perm Nat, d.main.Rearranged π ρ d'.main := by
  obtain ⟨π, hπ⟩ := exists_positions same.actions
  obtain ⟨ρ, hρ⟩ := exists_positions same.sites
  have haction : ∀ a, (d'.main.action? (π a)).map Action.outline =
      (d.main.action? a).map Action.outline := by
    intro a
    have houtline := hπ a
    rw [List.getElem?_map, List.getElem?_map] at houtline
    exact houtline
  have hname := Registry.nameOf_of_outlines haction
  have hlt := Registry.lt_length_of_outlines haction
  have hnames : d.main.NamesDistinct := hd.names
  have hnames' : d'.main.NamesDistinct := Registry.namesDistinct_of_outlines haction hnames
  -- an action of the second design is told by its name
  have htell : ∀ {a a' : Nat}, a < d.main.actions.length → a' < d'.main.actions.length →
      d'.main.nameOf a' = d.main.nameOf a → a' = π a := by
    intro a a' ha ha' heq
    exact hnames'.eq_of_nameOf ha' ((hlt a).mpr ha) (heq.trans (hname a).symm)
  refine ⟨π, ρ, haction, ?_, ?_⟩
  · intro i
    have houtline := hρ i
    rw [List.getElem?_map, List.getElem?_map] at houtline
    cases hu : d.main.sites[i]? with
    | none =>
      rw [hu, Option.map_none, Option.map_eq_none_iff] at houtline
      rw [houtline]
      exact .none
    | some u =>
      rw [hu, Option.map_some] at houtline
      obtain ⟨u', hu', hsame⟩ := Option.map_eq_some_iff.mp houtline
      rw [hu']
      have hmain := hd.own hu
      obtain ⟨hmain', hcallee⟩ := domain_of_siteOutline hsame hmain
      have hwell := built.wellFormed
      have hwell' := built'.wellFormed
      refine .some ⟨?_, hmain'.trans hmain.symm, ?_, congrArg SiteOutline.condition hsame,
        congrArg SiteOutline.arguments hsame⟩
      · exact htell (hwell.caller_lt (show (d.registry .main).sites[i]? = some u from hu))
          (hwell'.caller_lt (show (d'.registry .main).sites[ρ i]? = some u' from hu'))
          (congrArg SiteOutline.caller hsame)
      · exact htell (Registry.lt_length_of_method? (hwell.isSome_method? hu hmain))
          (Registry.lt_length_of_method? (hwell'.isSome_method? hu' hmain')) hcallee
  · intro a b
    constructor
    · intro hab
      obtain ⟨ha, hb⟩ := built.lt_length_of_declares hab
      obtain ⟨a', b', hab', hnameA, hnameB⟩ :=
        (same.conflicts _ _).mp ⟨a, b, hab, rfl, rfl⟩
      obtain ⟨ha', hb'⟩ := built'.lt_length_of_declares hab'
      rw [htell ha ha' hnameA, htell hb hb' hnameB] at hab'
      exact hab'
    · intro hab'
      obtain ⟨ha', hb'⟩ := built'.lt_length_of_declares hab'
      obtain ⟨x, y, hxy, hnameX, hnameY⟩ :=
        (same.conflicts _ _).mpr ⟨π a, π b, hab', rfl, rfl⟩
      obtain ⟨hx, hy⟩ := built.lt_length_of_declares hxy
      rw [hname] at hnameX hnameY
      rw [hnames.eq_of_nameOf hx ((hlt a).mp ha') hnameX,
        hnames.eq_of_nameOf hy ((hlt b).mp hb') hnameY] at hxy
      exact hxy

/-- Whether a design is admissible can be told from its declarations. -/
theorem Built.admissible_iff (built : d.Built) (built' : d'.Built)
    (same : d.main.SameDeclarations d'.main) : d.Admissible ↔ d'.Admissible := by
  constructor
  · intro hd
    obtain ⟨π, ρ, h⟩ := built.exists_rearranged built' same hd
    exact hd.rearranged h
  · intro hd'
    obtain ⟨π, ρ, h⟩ := built'.exists_rearranged built same.symm hd'
    exact hd'.rearranged h

end Design

end GuardedActions
