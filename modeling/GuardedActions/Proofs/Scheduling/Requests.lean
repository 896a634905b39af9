import GuardedActions.Machine
import GuardedActions.Proofs.Scheduling.Activation
import GuardedActions.Proofs.Scheduling.Grant

/-!
# Where requests come from and how far they go

Activation asks every request predicate, and for every requested action the condition and the
arguments of its call sites, each once and in view of what is active by then.  A requested action is
reached from a transaction that wants to run along active call sites, and every call site of a
requested action is active or was found not to take place.
-/

set_option autoImplicit false

namespace GuardedActions

variable {σ : Type}

/-- A view that may have been had on the way to some active call sites and early arguments: no other
call sites were active then, and no other arguments were there. -/
def Machine.Saw (m : Machine σ) (active : Mask) (early : List (Option Record)) (view : View σ) :
    Prop :=
  ∃ (active' : Mask) (early' : List (Option Record)),
    (∀ i : Nat, active'.test i = true → active.test i = true) ∧
      (∀ (i : Nat) (args : Record), early'[i]?.join = some args → early[i]?.join = some args) ∧
        view = m.viewWith active' early'

/-- What is seen at the end is seen. -/
theorem Machine.saw_viewWith (m : Machine σ) (active : Mask) (early : List (Option Record)) :
    m.Saw active early (m.viewWith active early) :=
  ⟨active, early, fun _ h => h, fun _ _ h => h, rfl⟩

namespace Activation

/-! ## Growth -/

/-- An activation has all that another one has. -/
structure Grows (a a' : Activation) : Prop where
  /-- requests stay -/
  requested : ∀ {x : Nat}, a.requested.test x = true → a'.requested.test x = true
  /-- active call sites stay -/
  active : ∀ {i : Nat}, a.active.test i = true → a'.active.test i = true
  /-- arguments stay as they are -/
  early : ∀ {i : Nat} {args : Record}, a.early[i]?.join = some args →
    a'.early[i]?.join = some args
  /-- actions that were dealt with stay so -/
  expanded : ∀ {x : Nat}, a.expanded.test x = true → a'.expanded.test x = true

variable {m : Machine σ} {a a' a'' : Activation}

theorem Grows.refl (a : Activation) : a.Grows a := ⟨fun h => h, fun h => h, fun h => h, fun h => h⟩

theorem Grows.trans (h : a.Grows a') (h' : a'.Grows a'') : a.Grows a'' where
  requested := fun hx => h'.requested (h.requested hx)
  active := fun hi => h'.active (h.active hi)
  early := fun hi => h'.early (h.early hi)
  expanded := fun hx => h'.expanded (h.expanded hx)

theorem Grows.saw (h : a.Grows a') {view : View σ} (hview : m.Saw a.active a.early view) :
    m.Saw a'.active a'.early view := by
  obtain ⟨active, early, hactive, hearly, rfl⟩ := hview
  exact ⟨active, early, fun i hi => h.active (hactive i hi),
    fun i args hi => h.early (hearly i args hi), rfl⟩

/-- A guard has given an answer by now. -/
def Answered (a : Activation) (m : Machine σ) (guard : Option (Guard σ)) (answer : Bool) : Prop :=
  ∃ view, m.Saw a.active a.early view ∧ Guard.holds guard view = .ok answer

theorem Answered.mono {guard : Option (Guard σ)} {answer : Bool} (h : a.Answered m guard answer)
    (hgrows : a.Grows a') : a'.Answered m guard answer := by
  obtain ⟨view, hview, hanswer⟩ := h
  exact ⟨view, hgrows.saw hview, hanswer⟩

/-- A transaction was found to want to run. -/
def Wants (a : Activation) (m : Machine σ) (t : Nat) : Prop :=
  (m.design.main.transaction? t).isSome ∧
    a.Answered m ((m.design.main.transaction? t).bind Transaction.request) true

theorem Wants.mono {t : Nat} (h : a.Wants m t) (hgrows : a.Grows a') : a'.Wants m t :=
  ⟨h.1, h.2.mono hgrows⟩

/-! ## What every step keeps -/

/-- All that an activation holds has a reason. -/
structure Explained (a : Activation) (m : Machine σ) : Prop where
  /-- there is a place for every action among the requested ones -/
  requested_size : a.requested.size = m.design.main.actions.length
  /-- and among those that were dealt with -/
  expanded_size : a.expanded.size = m.design.main.actions.length
  /-- what call sites supply has the right shape -/
  sound : a.Sound m.design
  /-- only requested actions were dealt with -/
  expanded : ∀ {x : Nat}, a.expanded.test x = true → a.requested.test x = true
  /-- requests come from requested transactions that want to run -/
  requested : ∀ {x : Nat}, a.requested.test x = true → ∃ t, a.requested.test t = true ∧
    a.Wants m t ∧ m.design.main.ActiveReaches a.active t x
  /-- an active call site was found to take place, on behalf of an action that was dealt with -/
  active : ∀ {i : Nat}, a.active.test i = true → ∃ u : Site σ, m.design.main.sites[i]? = some u ∧
    a.expanded.test u.caller = true ∧ a.requested.test u.callee.id = true ∧
      a.Answered m u.condition true
  /-- arguments are those that an active call site has supplied -/
  early : ∀ {i : Nat} {args : Record}, a.early[i]?.join = some args → a.active.test i = true ∧
    ∃ (u : Site σ) (supplier : Supplier σ) (view : View σ), m.design.main.sites[i]? = some u ∧
      u.arguments = some supplier ∧ m.Saw a.active a.early view ∧ supplier view = .ok args

/-- Every call site of an action is active or was found not to take place. -/
def Settled (a : Activation) (m : Machine σ) (x : Nat) : Prop :=
  ∀ (i : Nat) (u : Site σ), m.design.main.sites[i]? = some u → u.caller = x →
    a.active.test i = true ∨ a.Answered m u.condition false

theorem Settled.mono {x : Nat} (h : a.Settled m x) (hgrows : a.Grows a') : a'.Settled m x := by
  intro i u hu hcaller
  rcases h i u hu hcaller with hactive | hanswer
  · exact Or.inl (hgrows.active hactive)
  · exact Or.inr (hanswer.mono hgrows)

/-- More is requested, all that is new is dealt with, and of the actions that had been dealt with
before only some given call sites have become active. -/
structure Advances (m : Machine σ) (between : List (Nat × Site σ)) (a a' : Activation) : Prop where
  /-- nothing is lost -/
  grows : a.Grows a'
  /-- actions that are dealt with on the way are settled -/
  settled : ∀ {x : Nat}, a'.expanded.test x = true → a.expanded.test x = false → a'.Settled m x
  /-- new requests are dealt with -/
  chased : ∀ {x : Nat}, a'.requested.test x = true → a.requested.test x = false →
    a'.expanded.test x = true
  /-- the call sites of other actions stay as they were -/
  frame : ∀ {i : Nat} {u : Site σ}, m.design.main.sites[i]? = some u →
    a.expanded.test u.caller = true → a'.active.test i = true →
      a.active.test i = true ∨ (i, u) ∈ between

theorem Advances.refl (m : Machine σ) (a : Activation) : Advances m [] a a where
  grows := .refl a
  settled := by
    intro x hx hnot
    rw [hx] at hnot
    cases hnot
  chased := by
    intro x hx hnot
    rw [hx] at hnot
    cases hnot
  frame := fun _ _ hi => Or.inl hi

theorem Advances.trans {between between' : List (Nat × Site σ)} (h : Advances m between a a')
    (h' : Advances m between' a' a'') : Advances m (between ++ between') a a'' where
  grows := h.grows.trans h'.grows
  settled := by
    intro x hx hnot
    cases hmiddle : a'.expanded.test x with
    | true => exact (h.settled hmiddle hnot).mono h'.grows
    | false => exact h'.settled hx hmiddle
  chased := by
    intro x hx hnot
    cases hmiddle : a'.requested.test x with
    | true => exact h'.grows.expanded (h.chased hmiddle hnot)
    | false => exact h'.chased hx hmiddle
  frame := by
    intro i u hu hcaller hi
    rcases h'.frame hu (h.grows.expanded hcaller) hi with hi | hmem
    · rcases h.frame hu hcaller hi with hi | hmem
      · exact Or.inl hi
      · exact Or.inr (List.mem_append_left _ hmem)
    · exact Or.inr (List.mem_append_right _ hmem)

/-! ## Single changes -/

theorem explained_start (m : Machine σ) :
    (start m.design.main.actions.length m.design.main.sites.length).Explained m where
  requested_size := Mask.size_none _
  expanded_size := Mask.size_none _
  sound := .start m.design
  expanded := by
    intro x hx
    unfold start at hx
    rw [Mask.test_none] at hx
    cases hx
  requested := by
    intro x hx
    unfold start at hx
    rw [Mask.test_none] at hx
    cases hx
  active := by
    intro i hi
    unfold start at hi
    rw [Mask.test_none] at hi
    cases hi
  early := by
    intro i args hi
    unfold start at hi
    rw [List.getElem?_replicate] at hi
    split at hi
    · cases hi
    · cases hi

theorem grows_request (a : Activation) (x : Nat) : a.Grows (a.request x) where
  requested := by
    intro y hy
    unfold request
    rw [Mask.test_insert, hy, Bool.or_true]
  active := fun h => h
  early := fun h => h
  expanded := fun h => h

theorem grows_expand (a : Activation) (x : Nat) : a.Grows (a.expand x) where
  requested := fun h => h
  active := fun h => h
  early := fun h => h
  expanded := by
    intro y hy
    unfold expand
    rw [Mask.test_insert, hy, Bool.or_true]

/-- A transaction that wants to run is requested. -/
theorem Explained.request (h : a.Explained m) {t : Nat} (hwants : a.Wants m t) :
    (a.request t).Explained m where
  requested_size := (Mask.size_insert _ _).trans h.requested_size
  expanded_size := h.expanded_size
  sound := h.sound.request t
  expanded := fun hx => (grows_request a t).requested (h.expanded hx)
  requested := by
    intro x hx
    have ht : t < a.requested.size := by
      rw [h.requested_size]
      exact Registry.lt_length_of_transaction? hwants.1
    have hmark := hx
    rcases (Mask.test_insert_iff ht).mp hx with hx | rfl
    · obtain ⟨t', hrequested, hwants', hreach⟩ := h.requested hx
      have hgrows := grows_request a t
      exact ⟨t', hgrows.requested hrequested, hwants'.mono hgrows, hreach⟩
    · exact ⟨x, hmark, hwants.mono (grows_request a x), .refl⟩
  active := by
    intro i hi
    obtain ⟨u, hu, hcaller, hcallee, hanswer⟩ := h.active hi
    exact ⟨u, hu, hcaller, (grows_request a t).requested hcallee, hanswer⟩
  early := h.early

/-- A requested action is about to be dealt with. -/
theorem Explained.expand (h : a.Explained m) {x : Nat} (hx : a.requested.test x = true) :
    (a.expand x).Explained m where
  requested_size := h.requested_size
  expanded_size := (Mask.size_insert _ _).trans h.expanded_size
  sound := h.sound.expand x
  expanded := by
    intro y hy
    have hlt : x < a.expanded.size := by
      rw [h.expanded_size, ← h.requested_size]
      exact Mask.lt_size_of_test hx
    rcases (Mask.test_insert_iff hlt).mp hy with hy | rfl
    · exact h.expanded hy
    · exact hx
  requested := h.requested
  active := by
    intro i hi
    obtain ⟨u, hu, hcaller, hcallee, hanswer⟩ := h.active hi
    exact ⟨u, hu, (grows_expand a x).expanded hcaller, hcallee, hanswer⟩
  early := h.early

/-- An action that is dealt with is marked. -/
theorem Explained.test_expand (h : a.Explained m) {x : Nat} (hx : a.requested.test x = true) :
    (a.expand x).expanded.test x = true := by
  apply Mask.test_insert_self
  rw [h.expanded_size, ← h.requested_size]
  exact Mask.lt_size_of_test hx

/-- What becomes of an activation when an idle call site is found to take place. -/
structure Activates (m : Machine σ) (i : Nat) (u : Site σ) (a a' : Activation) : Prop where
  /-- the condition holds -/
  holds : Guard.holds u.condition (m.viewWith a.active a.early) = .ok true
  /-- the callee is requested -/
  requested : a'.requested = a.requested.insert u.callee.id
  /-- the call site is active -/
  active : a'.active = a.active.insert i
  /-- it has supplied its arguments, if it does so -/
  early : (u.arguments = none ∧ a'.early = a.early) ∨
    ∃ (supplier : Supplier σ) (args : Record), u.arguments = some supplier ∧
      supplier (m.viewWith a'.active a.early) = .ok args ∧ a'.early = a.early.set i (some args)
  /-- nothing else is dealt with -/
  expanded : a'.expanded = a.expanded

variable {i : Nat} {u : Site σ}

theorem Activates.early_iff (h : Activates m i u a a') (ha : a.Explained m)
    (hu : m.design.main.sites[i]? = some u) (hidle : a.active.test i = false) (j : Nat)
    (args : Record) : a'.early[j]?.join = some args ↔ a.early[j]?.join = some args ∨
      (j = i ∧ ∃ supplier, u.arguments = some supplier ∧
        supplier (m.viewWith a'.active a.early) = .ok args) := by
  rcases h.early with ⟨hnone, hearly⟩ | ⟨supplier, args', hsupplier, hargs, hearly⟩
  · rw [hearly, hnone]
    simp
  · have hlt : i < a.early.length := by
      rw [ha.sound.early_length]
      exact (List.getElem?_eq_some_iff.mp hu).1
    have hnone : a.early[i]?.join = none := by
      cases hold : a.early[i]?.join with
      | none => rfl
      | some old =>
        rw [(ha.early hold).1] at hidle
        cases hidle
    rw [hearly, join_getElem?_set hlt, hsupplier]
    by_cases heq : i = j
    · subst heq
      simp [hnone, hargs, eq_comm]
    · simp [heq, Ne.symm heq]

/-- The call site that becomes active takes nothing away. -/
theorem Activates.grows (h : Activates m i u a a') (ha : a.Explained m)
    (hu : m.design.main.sites[i]? = some u) (hidle : a.active.test i = false) : a.Grows a' where
  requested := by
    intro x hx
    rw [h.requested, Mask.test_insert, hx, Bool.or_true]
  active := by
    intro j hj
    rw [h.active, Mask.test_insert, hj, Bool.or_true]
  early := fun {j args} hj => (h.early_iff ha hu hidle j args).mpr (Or.inl hj)
  expanded := by
    intro x hx
    rw [h.expanded]
    exact hx

theorem Activates.explained (h : Activates m i u a a') (ha : a.Explained m)
    (hu : m.design.main.sites[i]? = some u) (hcallee : u.callee.id < m.design.main.actions.length)
    (hidle : a.active.test i = false) (hcaller : a.expanded.test u.caller = true)
    (hsound : a'.Sound m.design) : a'.Explained m := by
  have hgrows := h.grows ha hu hidle
  have hrequested : ∀ x, a'.requested.test x = true ↔ a.requested.test x = true ∨ x = u.callee.id := by
    intro x
    rw [h.requested]
    exact Mask.test_insert_iff (by rw [ha.requested_size]; exact hcallee)
  have hactive : ∀ j, a'.active.test j = true ↔ a.active.test j = true ∨ j = i := by
    intro j
    rw [h.active]
    refine Mask.test_insert_iff ?_
    rw [ha.sound.active_size]
    exact (List.getElem?_eq_some_iff.mp hu).1
  refine ⟨?_, ?_, hsound, ?_, ?_, ?_, ?_⟩
  · rw [h.requested, Mask.size_insert]
    exact ha.requested_size
  · rw [h.expanded]
    exact ha.expanded_size
  · intro x hx
    rw [h.expanded] at hx
    exact hgrows.requested (ha.expanded hx)
  · intro x hx
    rcases (hrequested x).mp hx with hx | rfl
    · obtain ⟨t, ht, hwants, hreach⟩ := ha.requested hx
      exact ⟨t, hgrows.requested ht, hwants.mono hgrows, hreach.mono fun j hj => hgrows.active hj⟩
    · -- the callee is reached from where its caller is reached from
      obtain ⟨t, ht, hwants, hreach⟩ := ha.requested (ha.expanded hcaller)
      have hreach' := hreach.mono fun j hj => hgrows.active hj
      exact ⟨t, hgrows.requested ht, hwants.mono hgrows,
        hreach'.tail ⟨i, u, hu, (hactive i).mpr (Or.inr rfl), rfl, rfl⟩⟩
  · intro j hj
    rcases (hactive j).mp hj with hj | rfl
    · obtain ⟨v, hv, hvcaller, hvcallee, hanswer⟩ := ha.active hj
      exact ⟨v, hv, hgrows.expanded hvcaller, hgrows.requested hvcallee, hanswer.mono hgrows⟩
    · exact ⟨u, hu, hgrows.expanded hcaller, (hrequested _).mpr (Or.inr rfl),
        _, hgrows.saw (m.saw_viewWith _ _), h.holds⟩
  · intro j args hj
    rcases (h.early_iff ha hu hidle j args).mp hj with hj | ⟨rfl, supplier, hsupplier, hargs⟩
    · obtain ⟨hjactive, v, supplier, view, hv, hsupplier, hview, hargs⟩ := ha.early hj
      exact ⟨hgrows.active hjactive, v, supplier, view, hv, hsupplier, hgrows.saw hview, hargs⟩
    · refine ⟨(hactive j).mpr (Or.inr rfl), u, supplier, _, hu, hsupplier, ?_, hargs⟩
      exact ⟨a'.active, a.early, fun k hk => hk, fun k args hk => hgrows.early hk, rfl⟩

/-- A call site that becomes active, with all that follows from its callee. -/
theorem Activates.advances (h : Activates m i u a a') (ha : a.Explained m)
    (hu : m.design.main.sites[i]? = some u) (hidle : a.active.test i = false)
    (hbelow : Advances m [] a' a'') (hcallee : a''.expanded.test u.callee.id = true) :
    Advances m [(i, u)] a a'' where
  grows := (h.grows ha hu hidle).trans hbelow.grows
  settled := by
    intro x hx hnot
    rw [← h.expanded] at hnot
    exact hbelow.settled hx hnot
  chased := by
    intro x hx hnot
    cases hmiddle : a'.requested.test x with
    | false => exact hbelow.chased hx hmiddle
    | true =>
      rw [h.requested, Mask.test_insert, hnot, Bool.or_false, decide_eq_true_iff] at hmiddle
      rw [← hmiddle.1]
      exact hcallee
  frame := by
    intro j v hv hcaller hj
    rw [← h.expanded] at hcaller
    rcases hbelow.frame hv hcaller hj with hj | hmem
    · rw [h.active, Mask.test_insert, Bool.or_eq_true, decide_eq_true_iff] at hj
      rcases hj with ⟨rfl, -⟩ | hj
      · obtain rfl : u = v := Option.some.inj (hu.symm.trans hv)
        exact Or.inr List.mem_cons_self
      · exact Or.inl hj
    · cases hmem

/-! ## Between the call sites of an action -/

/-- An action is being dealt with: some of its call sites were looked at, the others are idle. -/
structure Midway (m : Machine σ) (x : Nat) (before : List (Nat × Site σ)) (a b : Activation) :
    Prop where
  /-- what there is has a reason -/
  explained : b.Explained m
  /-- of the call sites of the action only those that were looked at have become active -/
  advances : Advances m before (a.expand x) b
  /-- those are settled -/
  settled : ∀ s ∈ before, b.active.test s.1 = true ∨ b.Answered m s.2.condition false

namespace Midway

variable {x : Nat} {before : List (Nat × Site σ)} {b b' c : Activation}

/-- An action that is requested counts as being dealt with before its call sites are looked at. -/
theorem start (ha : a.Explained m) (hx : a.requested.test x = true) :
    Midway m x [] a (a.expand x) where
  explained := ha.expand hx
  advances := .refl m _
  settled := fun s hs => by cases hs

/-- Its call sites that were not looked at are idle. -/
theorem idle (h : Midway m x before a b) (ha : a.Explained m) (hx : a.requested.test x = true)
    (hfresh : ¬ a.expanded.test x = true) (hu : m.design.main.sites[i]? = some u)
    (hcaller : u.caller = x) (hnew : (i, u) ∉ before) : b.active.test i = false := by
  cases hactive : b.active.test i with
  | false => rfl
  | true =>
    have hmark : (a.expand x).expanded.test u.caller = true := by
      rw [hcaller]
      exact ha.test_expand hx
    rcases h.advances.frame hu hmark hactive with hi | hmem
    · obtain ⟨v, hv, hvcaller, -⟩ := ha.active hi
      obtain rfl := Option.some.inj (hu.symm.trans hv)
      rw [hcaller] at hvcaller
      exact absurd hvcaller hfresh
    · exact absurd hmem hnew

/-- What was settled stays so. -/
theorem settled_concat (h : Midway m x before a b) (hgrows : b.Grows c)
    (hlast : c.active.test i = true ∨ c.Answered m u.condition false) :
    ∀ s ∈ before ++ [(i, u)], c.active.test s.1 = true ∨ c.Answered m s.2.condition false := by
  intro s hs
  rcases List.mem_append.mp hs with hs | hs
  · rcases h.settled s hs with hactive | hanswer
    · exact Or.inl (hgrows.active hactive)
    · exact Or.inr (hanswer.mono hgrows)
  · rw [List.mem_singleton.mp hs]
    exact hlast

/-- A call site is looked at and does not take place. -/
theorem pass (h : Midway m x before a b) (hanswer : b.Answered m u.condition false) :
    Midway m x (before ++ [(i, u)]) a b where
  explained := h.explained
  advances := ⟨h.advances.grows, h.advances.settled, h.advances.chased,
    fun hv hcaller hi => (h.advances.frame hv hcaller hi).imp_right (List.mem_append_left _)⟩
  settled := h.settled_concat (.refl b) (Or.inr hanswer)

/-- A call site is looked at and becomes active, and its callee is dealt with. -/
theorem enter (h : Midway m x before a b) (hu : m.design.main.sites[i]? = some u)
    (hidle : b.active.test i = false) (hactivates : Activates m i u b b')
    (hc : c.Explained m) (hbelow : Advances m [] b' c) (hcallee : c.expanded.test u.callee.id = true) :
    Midway m x (before ++ [(i, u)]) a c where
  explained := hc
  advances := h.advances.trans (hactivates.advances h.explained hu hidle hbelow hcallee)
  settled := by
    have hadded := hactivates.advances h.explained hu hidle hbelow hcallee
    have hactive : c.active.test i = true := by
      refine hbelow.grows.active ?_
      rw [hactivates.active]
      apply Mask.test_insert_self
      rw [h.explained.sound.active_size]
      exact (List.getElem?_eq_some_iff.mp hu).1
    exact h.settled_concat hadded.grows (Or.inl hactive)

/-- When all call sites were looked at, the action is dealt with. -/
theorem finish (h : Midway m x (m.design.main.sitesOf x) a b) (ha : a.Explained m)
    (hx : a.requested.test x = true) (hfresh : ¬ a.expanded.test x = true) :
    Advances m [] a b ∧ b.expanded.test x = true := by
  have hgrows := grows_expand a x
  refine ⟨⟨hgrows.trans h.advances.grows, ?_, h.advances.chased, ?_⟩,
    h.advances.grows.expanded (ha.test_expand hx)⟩
  · intro y hy hnot
    cases hmiddle : (a.expand x).expanded.test y with
    | false => exact h.advances.settled hy hmiddle
    | true =>
      unfold expand at hmiddle
      rw [Mask.test_insert, hnot, Bool.or_false, decide_eq_true_iff] at hmiddle
      obtain ⟨rfl, -⟩ := hmiddle
      exact fun i u hu hcaller => h.settled (i, u) (Registry.mem_sitesOf.mpr ⟨hu, hcaller⟩)
  · intro i u hu hcaller hi
    rcases h.advances.frame hu (hgrows.expanded hcaller) hi with hi | hmem
    · exact Or.inl hi
    · rw [(Registry.mem_sitesOf.mp hmem).2] at hcaller
      exact absurd hcaller hfresh

end Midway

end Activation

namespace Machine

variable {m : Machine σ}

/-! ## The descent -/

/-- A call site that is looked at stays idle, since its condition does not hold, or becomes active. -/
theorem activateSite_cases {i : Nat} {u : Site σ} {a a' : Activation} {active : Bool}
    (h : m.activateSite i u a = .ok (a', active)) :
    (active = false ∧ a' = a ∧
      Guard.holds u.condition (m.viewWith a.active a.early) = .ok false) ∨
      (active = true ∧ Activation.Activates m i u a a') := by
  unfold activateSite at h
  obtain ⟨holds, hholds, h⟩ := bind_eq_ok.mp h
  split at h
  · rename_i htrue
    rw [htrue] at hholds
    simp only at h
    split at h
    · rename_i hnone
      obtain ⟨rfl, rfl⟩ := Prod.mk.inj (Except.ok.inj h)
      exact Or.inr ⟨rfl, hholds, rfl, rfl, Or.inl ⟨hnone, rfl⟩, rfl⟩
    · rename_i supplier hsupplier
      obtain ⟨args, hargs, h⟩ := bind_eq_ok.mp h
      split at h
      · obtain ⟨rfl, rfl⟩ := Prod.mk.inj (Except.ok.inj h)
        exact Or.inr ⟨rfl, hholds, rfl, rfl, Or.inr ⟨supplier, args, hsupplier, hargs, rfl⟩, rfl⟩
      · cases h
  · rename_i hfalse
    obtain ⟨rfl, rfl⟩ := Prod.mk.inj (Except.ok.inj h)
    rw [Bool.eq_false_iff.mpr hfalse] at hholds
    exact Or.inl ⟨rfl, rfl, hholds⟩

/-- Dealing with a requested action settles it and all that is requested on the way. -/
theorem activateFrom_spec
    (hcallee : ∀ {i : Nat} {u : Site σ}, m.design.main.sites[i]? = some u →
      u.callee.id < m.design.main.actions.length) :
    ∀ (fuel x : Nat) (a a' : Activation), m.activateFrom fuel x a = .ok a' → a.Explained m →
      a.requested.test x = true →
      a'.Explained m ∧ Activation.Advances m [] a a' ∧ a'.expanded.test x = true := by
  intro fuel
  induction fuel with
  | zero =>
    intro x a a' h
    cases h
  | succ fuel ih =>
    intro x a a' h ha hx
    unfold activateFrom at h
    split at h
    · rename_i hold
      obtain rfl := Except.ok.inj h
      exact ⟨ha, .refl m a, hold⟩
    · rename_i hfresh
      have hmidway : Activation.Midway m x (m.design.main.sitesOf x) a a' := by
        refine foldlM_prefix (P := fun before b => Activation.Midway m x before a b)
          (.start ha hx) ?_ h
        rintro before ⟨i, u⟩ after b c hsites hb hstep
        have hmem : (i, u) ∈ m.design.main.sitesOf x := by
          rw [hsites]
          exact List.mem_append_right _ List.mem_cons_self
        obtain ⟨hu, hcaller⟩ := Registry.mem_sitesOf.mp hmem
        have hnew : (i, u) ∉ before := by
          have hnodup := Registry.nodup_sitesOf m.design.main x
          rw [hsites] at hnodup
          exact fun hmem => (List.nodup_append.mp hnodup).2.2 _ hmem _ List.mem_cons_self rfl
        have hidle := hb.idle ha hx hfresh hu hcaller hnew
        obtain ⟨⟨b', active⟩, hsite, hrun⟩ := bind_eq_ok.mp hstep
        simp only at hrun
        rcases activateSite_cases hsite with ⟨rfl, rfl, hanswer⟩ | ⟨rfl, hactivates⟩
        · obtain rfl := Except.ok.inj hrun
          exact hb.pass ⟨_, m.saw_viewWith _ _, hanswer⟩
        · have hexpanded : b.expanded.test u.caller = true := by
            rw [hcaller]
            exact hb.advances.grows.expanded (ha.test_expand hx)
          have hb' := hactivates.explained hb.explained hu (hcallee hu) hidle hexpanded
            (sound_of_activateSite hb.explained.sound hu hsite)
          have hrequested : b'.requested.test u.callee.id = true := by
            rw [hactivates.requested]
            apply Mask.test_insert_self
            rw [hb.explained.requested_size]
            exact hcallee hu
          obtain ⟨hc, hbelow, hcalleeExpanded⟩ := ih _ _ _ hrun hb' hrequested
          exact hb.enter hu hidle hactivates hc hbelow hcalleeExpanded
      exact ⟨hmidway.explained, hmidway.finish ha hx hfresh⟩

/-- A transaction that is asked is requested, with all that follows, or does not want to run. -/
theorem activateTransaction_spec
    (hcallee : ∀ {i : Nat} {u : Site σ}, m.design.main.sites[i]? = some u →
      u.callee.id < m.design.main.actions.length)
    {t : Nat} (ht : (m.design.main.transaction? t).isSome) {a a' : Activation} (ha : a.Explained m)
    (h : m.activateTransaction a t = .ok a') :
    a'.Explained m ∧ Activation.Advances m [] a a' ∧ (a'.requested.test t = true ∨
      a'.Answered m ((m.design.main.transaction? t).bind Transaction.request) false) := by
  unfold activateTransaction at h
  obtain ⟨holds, hholds, h⟩ := bind_eq_ok.mp h
  split at h
  · rename_i htrue
    rw [htrue] at hholds
    have hwants : a.Wants m t := ⟨ht, _, m.saw_viewWith _ _, hholds⟩
    have hrequested : (a.request t).requested.test t = true := by
      apply Mask.test_insert_self
      rw [ha.requested_size]
      exact Registry.lt_length_of_transaction? ht
    obtain ⟨ha', hadvances, hexpanded⟩ :=
      activateFrom_spec hcallee _ _ _ _ h (ha.request hwants) hrequested
    have hgrows := (Activation.grows_request a t).trans hadvances.grows
    refine ⟨ha', ⟨hgrows, hadvances.settled, ?_, hadvances.frame⟩,
      Or.inl (hadvances.grows.requested hrequested)⟩
    intro x hx hnot
    cases hmiddle : (a.request t).requested.test x with
    | false => exact hadvances.chased hx hmiddle
    | true =>
      unfold Activation.request at hmiddle
      rw [Mask.test_insert, hnot, Bool.or_false, decide_eq_true_iff] at hmiddle
      rw [← hmiddle.1]
      exact hexpanded
  · rename_i hfalse
    obtain rfl := Except.ok.inj h
    rw [Bool.eq_false_iff.mpr hfalse] at hholds
    exact ⟨ha, .refl m a, Or.inr ⟨_, m.saw_viewWith _ _, hholds⟩⟩

/-- An activation that is complete: every request was followed up, every call site of a requested
action looked at, and every transaction of an order asked. -/
structure Activated (m : Machine σ) (order : List Nat) (a : Activation) : Prop where
  /-- it holds nothing without a reason -/
  explained : a.Explained m
  /-- requested actions were dealt with -/
  expanded : ∀ {x : Nat}, a.requested.test x = true → a.expanded.test x = true
  /-- their call sites are active or do not take place -/
  settled : ∀ {x : Nat}, a.requested.test x = true → a.Settled m x
  /-- transactions that are not requested do not want to run -/
  asked : ∀ t ∈ order, a.requested.test t = true ∨
    a.Answered m ((m.design.main.transaction? t).bind Transaction.request) false

/-- The first phase of scheduling is complete when it ends. -/
theorem activateAll_spec {order : List Nat} {a : Activation}
    (hcallee : ∀ {i : Nat} {u : Site σ}, m.design.main.sites[i]? = some u →
      u.callee.id < m.design.main.actions.length)
    (horder : ∀ t ∈ order, (m.design.main.transaction? t).isSome)
    (h : m.activateAll order = .ok a) : m.Activated order a := by
  unfold activateAll at h
  obtain ⟨⟨ha, hadvances⟩, hall⟩ := foldlM_forall
    (P := fun b => b.Explained m ∧ Activation.Advances m []
      (Activation.start m.design.main.actions.length m.design.main.sites.length) b)
    (Q := fun t b => b.requested.test t = true ∨
      b.Answered m ((m.design.main.transaction? t).bind Transaction.request) false)
    (by
      rintro t ht b b' ⟨hb, hsofar⟩ hrun
      obtain ⟨hb', hadvances, hasked⟩ := activateTransaction_spec hcallee (horder t ht) hb hrun
      exact ⟨⟨hb', hsofar.trans hadvances⟩, hasked⟩)
    (by
      rintro t ht b b' ⟨hb, -⟩ hrun t' hasked
      have hgrows := (activateTransaction_spec hcallee (horder t ht) hb hrun).2.1.grows
      rcases hasked with hrequested | hanswer
      · exact Or.inl (hgrows.requested hrequested)
      · exact Or.inr (hanswer.mono hgrows))
    ⟨Activation.explained_start m, .refl m _⟩ h
  have hexpanded : ∀ {x : Nat}, a.requested.test x = true → a.expanded.test x = true :=
    fun hx => hadvances.chased hx (Mask.test_none _ _)
  exact ⟨ha, hexpanded, fun hx => hadvances.settled (hexpanded hx) (Mask.test_none _ _), hall⟩

end Machine

end GuardedActions
