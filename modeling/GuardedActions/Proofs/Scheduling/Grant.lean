import GuardedActions.Proofs.Elaborated
import GuardedActions.Scheduling.Grant

/-!
# Where grants come from and how far they go

A granted action is reached from a winner of the arbitration along active calls, and a call site is
granted exactly if it is active and its caller is granted.
-/

set_option autoImplicit false

namespace GuardedActions

variable {σ : Type}

namespace Registry

/-- One action calls another through an active call site. -/
def ActiveCalls (r : Registry σ) (active : Mask) (a b : Nat) : Prop :=
  ∃ (i : Nat) (s : Site σ), r.sites[i]? = some s ∧ active.test i = true ∧ s.caller = a ∧
    s.callee.id = b

/-- One action calls another through any number of active call sites, or is the other. -/
def ActiveReaches (r : Registry σ) (active : Mask) : Nat → Nat → Prop :=
  Relation.ReflTransGen (r.ActiveCalls active)

theorem ActiveReaches.reaches {r : Registry σ} {active : Mask} {a b : Nat}
    (h : r.ActiveReaches active a b) : r.Reaches a b := by
  induction h with
  | refl => exact .refl
  | tail _ hcall ih =>
    obtain ⟨i, s, hs, -, hcaller, hcallee⟩ := hcall
    exact ih.tail ⟨i, s, hs, hcaller, hcallee⟩

theorem ActiveReaches.mono {r : Registry σ} {active active' : Mask} {a b : Nat}
    (h : r.ActiveReaches active a b)
    (hsub : ∀ i, active.test i = true → active'.test i = true) : r.ActiveReaches active' a b := by
  refine Relation.ReflTransGen.mono ?_ _ _ h
  rintro a b ⟨i, s, hs, hactive, hcaller, hcallee⟩
  exact ⟨i, s, hs, hsub i hactive, hcaller, hcallee⟩

end Registry

namespace Grants

/-! ## What every step keeps -/

/-- Grants that have a reason: winners are granted, every other granted action is reached from one,
and a granted call site is active and joins granted actions. -/
structure Justified (r : Registry σ) (active : Mask) (winners : List Nat) (g : Grants) : Prop where
  /-- there is a place for every action -/
  actions_size : g.actions.size = r.actions.length
  /-- there is a place for every call site -/
  sites_size : g.sites.size = r.sites.length
  /-- the winners are granted -/
  winner : ∀ t ∈ winners, g.actions.test t = true
  /-- granted actions are reached from winners -/
  reached : ∀ {a : Nat}, g.actions.test a = true → ∃ t ∈ winners, r.ActiveReaches active t a
  /-- granted call sites are active and join granted actions -/
  site : ∀ {i : Nat}, g.sites.test i = true → ∃ s : Site σ, r.sites[i]? = some s ∧
    active.test i = true ∧ g.actions.test s.caller = true ∧ g.actions.test s.callee.id = true

/-- All active call sites of an action are granted. -/
def Expanded (r : Registry σ) (active : Mask) (g : Grants) (a : Nat) : Prop :=
  ∀ (i : Nat) (s : Site σ), r.sites[i]? = some s → s.caller = a → active.test i = true →
    g.sites.test i = true

/-- More is granted, and the active call sites of what was granted on the way are granted too. -/
structure Grown (r : Registry σ) (active : Mask) (g g' : Grants) : Prop where
  /-- no action is taken back -/
  actions : ∀ {a : Nat}, g.actions.test a = true → g'.actions.test a = true
  /-- no call site is taken back -/
  sites : ∀ {i : Nat}, g.sites.test i = true → g'.sites.test i = true
  /-- new actions are dealt with -/
  fresh : ∀ {a : Nat}, g'.actions.test a = true → g.actions.test a = false → g'.Expanded r active a

variable {r : Registry σ} {active : Mask} {winners : List Nat} {g g' g'' : Grants}

theorem Expanded.mono {a : Nat} (h : g.Expanded r active a)
    (hsites : ∀ {i : Nat}, g.sites.test i = true → g'.sites.test i = true) :
    g'.Expanded r active a :=
  fun i s hs hcaller hactive => hsites (h i s hs hcaller hactive)

theorem Grown.refl (g : Grants) : Grown r active g g where
  actions := fun h => h
  sites := fun h => h
  fresh := by
    intro a hgranted hnot
    rw [hgranted] at hnot
    cases hnot

theorem Grown.trans (h : Grown r active g g') (h' : Grown r active g' g'') :
    Grown r active g g'' where
  actions := fun ha => h'.actions (h.actions ha)
  sites := fun hi => h'.sites (h.sites hi)
  fresh := by
    intro a hgranted hnot
    cases hmiddle : g'.actions.test a with
    | true => exact (h.fresh hmiddle hnot).mono h'.sites
    | false => exact h'.fresh hgranted hmiddle

/-- Granting an active call site of a granted action, and its callee with it, stays justified. -/
theorem Justified.grant (h : g.Justified r active winners) {i : Nat} {s : Site σ}
    (hs : r.sites[i]? = some s) (hactive : active.test i = true)
    (hcaller : g.actions.test s.caller = true)
    (hactions_size : g'.actions.size = g.actions.size) (hsites_size : g'.sites.size = g.sites.size)
    (hactions : ∀ a, g'.actions.test a = true ↔ g.actions.test a = true ∨ a = s.callee.id)
    (hsites : ∀ j, g'.sites.test j = true ↔ g.sites.test j = true ∨ j = i) :
    g'.Justified r active winners where
  actions_size := hactions_size.trans h.actions_size
  sites_size := hsites_size.trans h.sites_size
  winner := fun t ht => (hactions t).mpr (Or.inl (h.winner t ht))
  reached := by
    intro a ha
    rcases (hactions a).mp ha with ha | rfl
    · exact h.reached ha
    · obtain ⟨t, ht, hreach⟩ := h.reached hcaller
      exact ⟨t, ht, hreach.tail ⟨i, s, hs, hactive, rfl, rfl⟩⟩
  site := by
    intro j hj
    rcases (hsites j).mp hj with hj | rfl
    · obtain ⟨u, hu, hactive, hcaller, hcallee⟩ := h.site hj
      exact ⟨u, hu, hactive, (hactions _).mpr (Or.inl hcaller), (hactions _).mpr (Or.inl hcallee)⟩
    · exact ⟨s, hs, hactive, (hactions _).mpr (Or.inl hcaller), (hactions _).mpr (Or.inr rfl)⟩

/-- A call site of a method that is granted already is granted on its own. -/
theorem Justified.join (h : g.Justified r active winners) {i : Nat} {s : Site σ}
    (hs : r.sites[i]? = some s) (hactive : active.test i = true)
    (hcaller : g.actions.test s.caller = true) (hold : g.actions.test s.callee.id = true) :
    Justified r active winners { g with sites := g.sites.insert i } ∧
      Grown r active g { g with sites := g.sites.insert i } ∧
        (g.sites.insert i).test i = true := by
  have hi : i < g.sites.size := by
    rw [h.sites_size]
    exact (List.getElem?_eq_some_iff.mp hs).1
  have hsites : ∀ j, (g.sites.insert i).test j = true ↔ g.sites.test j = true ∨ j = i :=
    fun j => Mask.test_insert_iff hi
  refine ⟨h.grant hs hactive hcaller rfl (Mask.size_insert _ _) ?_ hsites, ⟨fun ha => ha,
    fun hj => (hsites _).mpr (Or.inl hj), ?_⟩, (hsites i).mpr (Or.inr rfl)⟩
  · intro a
    constructor
    · exact Or.inl
    · rintro (ha | rfl)
      · exact ha
      · exact hold
  · intro a ha hnot
    rw [show g.actions.test a = true from ha] at hnot
    cases hnot

/-- A call site of a method that is not granted yet is granted together with the method, which has to
be dealt with next. -/
theorem Justified.enter (h : g.Justified r active winners) {i : Nat} {s : Site σ}
    (hs : r.sites[i]? = some s) (hcallee : s.callee.id < r.actions.length)
    (hactive : active.test i = true) (hcaller : g.actions.test s.caller = true) :
    Justified r active winners ⟨g.actions.insert s.callee.id, g.sites.insert i⟩ ∧
      (g.actions.insert s.callee.id).test s.callee.id = true ∧
      (g.sites.insert i).test i = true ∧
      ∀ g', Grown r active ⟨g.actions.insert s.callee.id, g.sites.insert i⟩ g' →
        g'.Expanded r active s.callee.id → Grown r active g g' := by
  have hi : i < g.sites.size := by
    rw [h.sites_size]
    exact (List.getElem?_eq_some_iff.mp hs).1
  have hc : s.callee.id < g.actions.size := by
    rw [h.actions_size]
    exact hcallee
  have hsites : ∀ j, (g.sites.insert i).test j = true ↔ g.sites.test j = true ∨ j = i :=
    fun j => Mask.test_insert_iff hi
  have hactions : ∀ a, (g.actions.insert s.callee.id).test a = true ↔
      g.actions.test a = true ∨ a = s.callee.id := fun a => Mask.test_insert_iff hc
  refine ⟨h.grant hs hactive hcaller (Mask.size_insert _ _) (Mask.size_insert _ _) hactions hsites,
    (hactions _).mpr (Or.inr rfl), (hsites i).mpr (Or.inr rfl), ?_⟩
  intro g' hgrown hexpanded
  refine ⟨fun ha => hgrown.actions ((hactions _).mpr (Or.inl ha)),
    fun hj => hgrown.sites ((hsites _).mpr (Or.inl hj)), ?_⟩
  intro a ha hnot
  by_cases heq : a = s.callee.id
  · rw [heq]
    exact hexpanded
  · refine hgrown.fresh ha ?_
    cases hmark : (g.actions.insert s.callee.id).test a with
    | false => rfl
    | true =>
      rcases (hactions a).mp hmark with hold | hnew
      · rw [hold] at hnot
        cases hnot
      · exact absurd hnew heq

end Grants

namespace Machine

variable {m : Machine σ} {active : Mask} {winners : List Nat}

/-! ## The descent -/

/-- Granting everything below a granted action keeps grants justified, and leaves the action and all
newly granted ones with their active call sites granted. -/
theorem grantFrom_spec
    (hcallee : ∀ {i : Nat} {s : Site σ}, m.design.main.sites[i]? = some s →
      s.callee.id < m.design.main.actions.length) :
    ∀ (fuel a : Nat) (g g' : Grants), m.grantFrom active fuel a g = .ok g' →
      g.Justified m.design.main active winners → g.actions.test a = true →
      g'.Justified m.design.main active winners ∧ Grants.Grown m.design.main active g g' ∧
        g'.Expanded m.design.main active a := by
  intro fuel
  induction fuel with
  | zero =>
    intro a g g' h
    cases h
  | succ fuel ih =>
    intro a g g' h hjust ha
    unfold grantFrom at h
    -- one call site: it is granted if it is active, and what is new below it is dealt with
    have hstep : ∀ s ∈ m.design.main.sitesOf a, ∀ x x' : Grants,
        (x.Justified m.design.main active winners ∧ Grants.Grown m.design.main active g x) →
        (if active.test s.1 then
            if x.actions.test s.2.callee.id then
              Except.ok { x with sites := x.sites.insert s.1 }
            else m.grantFrom active fuel s.2.callee.id
              ⟨x.actions.insert s.2.callee.id, x.sites.insert s.1⟩
          else .ok x) = .ok x' →
        (x'.Justified m.design.main active winners ∧ Grants.Grown m.design.main active x x') ∧
          (active.test s.1 = true → x'.sites.test s.1 = true) := by
      rintro ⟨i, s⟩ hmem x x' ⟨hx, hgx⟩ hrun
      obtain ⟨hs, hcaller⟩ := Registry.mem_sitesOf.mp hmem
      simp only at hrun ⊢
      have hgranted : x.actions.test s.caller = true := by
        rw [hcaller]
        exact hgx.actions ha
      split at hrun
      · rename_i hactive
        split at hrun
        · rename_i hold
          obtain rfl := Except.ok.inj hrun
          obtain ⟨hx', hgrown, hsite⟩ := hx.join hs hactive hgranted hold
          exact ⟨⟨hx', hgrown⟩, fun _ => hsite⟩
        · obtain ⟨hentered, hmarked, hsite, hgrows⟩ := hx.enter hs (hcallee hs) hactive hgranted
          obtain ⟨hx', hgrown, hexpanded⟩ := ih _ _ _ hrun hentered hmarked
          exact ⟨⟨hx', hgrows x' hgrown hexpanded⟩, fun _ => hgrown.sites hsite⟩
      · rename_i hidle
        obtain rfl := Except.ok.inj hrun
        exact ⟨⟨hx, .refl x⟩, fun hactive => absurd hactive hidle⟩
    obtain ⟨⟨hg', hgrown⟩, hall⟩ := foldlM_forall
      (P := fun x => x.Justified m.design.main active winners ∧ Grants.Grown m.design.main active g x)
      (Q := fun s x => active.test s.1 = true → x.sites.test s.1 = true)
      (by
        intro s hs x x' hx hrun
        obtain ⟨⟨hx', hgx⟩, hsite⟩ := hstep s hs x x' hx hrun
        exact ⟨⟨hx', hx.2.trans hgx⟩, hsite⟩)
      (by
        intro s hs x x' hx hrun s' hs' hactive
        exact (hstep s hs x x' hx hrun).1.2.sites (hs' hactive))
      ⟨hjust, .refl g⟩ h
    refine ⟨hg', hgrown, ?_⟩
    intro i s hs hcaller hactive
    exact hall (i, s) (Registry.mem_sitesOf.mpr ⟨hs, hcaller⟩) hactive

/-- Before the descent the winners are granted. -/
def winnersGranted (m : Machine σ) (winners : List Nat) : Grants :=
  ⟨winners.foldl Mask.insert (Mask.none m.design.main.actions.length),
    Mask.none m.design.main.sites.length⟩

theorem test_winnersGranted (hlt : ∀ t ∈ winners, t < m.design.main.actions.length) (a : Nat) :
    (m.winnersGranted winners).actions.test a = true ↔ a ∈ winners := by
  unfold winnersGranted
  rw [Mask.test_foldl_insert, Mask.test_none, Mask.size_none]
  constructor
  · rintro (ha | ⟨ha, -⟩)
    · cases ha
    · exact ha
  · intro ha
    exact Or.inr ⟨ha, hlt a ha⟩

theorem justified_winnersGranted (active : Mask)
    (hlt : ∀ t ∈ winners, t < m.design.main.actions.length) :
    (m.winnersGranted winners).Justified m.design.main active winners := by
  refine ⟨?_, Mask.size_none _, fun t ht => (test_winnersGranted hlt t).mpr ht, ?_, ?_⟩
  · unfold winnersGranted
    rw [Mask.size_foldl_insert, Mask.size_none]
  · intro a ha
    exact ⟨a, (test_winnersGranted hlt a).mp ha, .refl⟩
  · intro i hi
    unfold winnersGranted at hi
    rw [Mask.test_none] at hi
    cases hi

/-- The grants of a cycle: they are justified, and complete. -/
theorem grantAll_spec {order : List Nat} {g : Grants}
    (hcallee : ∀ {i : Nat} {s : Site σ}, m.design.main.sites[i]? = some s →
      s.callee.id < m.design.main.actions.length)
    (hwinners : ∀ t ∈ winners, t ∈ order ∧ t < m.design.main.actions.length)
    (h : m.grantAll active order winners = .ok g) :
    g.Justified m.design.main active winners ∧
      ∀ a, g.actions.test a = true → g.Expanded m.design.main active a := by
  have hlt : ∀ t ∈ winners, t < m.design.main.actions.length := fun t ht => (hwinners t ht).2
  unfold grantAll at h
  have hstep : ∀ t ∈ order, ∀ x x' : Grants, x.Justified m.design.main active winners →
      (if x.actions.test t then m.grantFrom active m.callDepth t x else .ok x) = .ok x' →
      x'.Justified m.design.main active winners ∧ Grants.Grown m.design.main active x x' ∧
        (x.actions.test t = true → x'.Expanded m.design.main active t) := by
    intro t _ x x' hx hrun
    split at hrun
    · rename_i hgranted
      obtain ⟨hx', hgrown, hexpanded⟩ := grantFrom_spec hcallee _ _ _ _ hrun hx hgranted
      exact ⟨hx', hgrown, fun _ => hexpanded⟩
    · rename_i hnot
      obtain rfl := Except.ok.inj hrun
      exact ⟨hx, .refl x, fun hgranted => absurd hgranted hnot⟩
  obtain ⟨⟨hg, hgrown⟩, hall⟩ := foldlM_forall
    (P := fun x => x.Justified m.design.main active winners ∧
      Grants.Grown m.design.main active (m.winnersGranted winners) x)
    (Q := fun t x => t ∈ winners → x.Expanded m.design.main active t)
    (by
      rintro t ht x x' ⟨hx, hgx⟩ hrun
      obtain ⟨hx', hgrown, hexpanded⟩ := hstep t ht x x' hx hrun
      exact ⟨⟨hx', hgx.trans hgrown⟩, fun hwinner => hexpanded (hx.winner t hwinner)⟩)
    (by
      rintro t ht x x' ⟨hx, -⟩ hrun u hu hwinner
      exact (hu hwinner).mono (hstep t ht x x' hx hrun).2.1.sites)
    ⟨justified_winnersGranted active hlt, .refl _⟩ h
  refine ⟨hg, fun a ha => ?_⟩
  by_cases hwinner : a ∈ winners
  · exact hall a (hwinners a hwinner).1 hwinner
  · refine hgrown.fresh ha ?_
    cases hmark : (m.winnersGranted winners).actions.test a with
    | false => rfl
    | true => exact absurd ((test_winnersGranted hlt a).mp hmark) hwinner

end Machine

end GuardedActions
