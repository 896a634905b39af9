import GuardedActions.Proofs.Execution.Account
import GuardedActions.Proofs.Execution.Cooperation

/-!
# Cooperating bodies are never stopped

Every call that a cooperating body makes succeeds.  The call site is granted and was not used, a result
that is there already belongs to a nonexclusive method, and otherwise the body of the callee runs to
its end, by induction on the nesting of bodies.  The nesting cannot exceed the number of call sites,
since every open call has a call site of its own.
-/

set_option autoImplicit false

namespace GuardedActions

variable {σ : Type}

/-! ## The ledger between two calls -/

/-- What the ledger says while some actions are running and some transactions are finished. -/
structure Ledger.Sound (r : Registry σ) (s : Schedule) (running finished : Nat → Prop)
    (l : Ledger) : Prop where
  /-- there is a place for every call site -/
  performed_size : l.performed.size = r.sites.length
  /-- there is a place for the result of every action -/
  results_length : l.results.length = r.actions.length
  /-- performed call sites are granted -/
  granted : ∀ i, l.performed.test i = true → s.grantedSites.test i = true
  /-- callers of performed call sites run, or are done -/
  origin : ∀ i (u : Site σ), r.sites[i]? = some u → l.performed.test i = true →
    running u.caller ∨ (l.resultOf u.caller).isSome = true ∨ finished u.caller
  /-- an action that is done has performed its active call sites -/
  complete : ∀ x, (l.resultOf x).isSome = true ∨ finished x → ∀ i (u : Site σ),
    r.sites[i]? = some u → u.caller = x → s.activeSites.test i = true → l.performed.test i = true
  /-- a method that is done was called -/
  called : ∀ x, (l.resultOf x).isSome = true → ∃ i, ∃ u : Site σ, r.sites[i]? = some u ∧
    u.callee.id = x ∧ l.performed.test i = true
  /-- a method that was called is done, or still runs -/
  returned : ∀ i (u : Site σ), r.sites[i]? = some u → l.performed.test i = true →
    (l.resultOf u.callee.id).isSome = true ∨ running u.callee.id
  /-- what runs has no result yet -/
  unfinished : ∀ x, running x → l.resultOf x = none

namespace Ledger.Sound

variable {r : Registry σ} {s : Schedule} {running running' finished : Nat → Prop} {l : Ledger}

theorem empty (r : Registry σ) (s : Schedule) :
    (Ledger.start r.actions.length r.sites.length).Sound r s (fun _ => False)
      (fun _ => False) where
  performed_size := Mask.size_none _
  results_length := List.length_replicate
  granted := by
    intro i hi
    unfold Ledger.start at hi
    rw [Mask.test_none] at hi
    cases hi
  origin := by
    intro i u _ hi
    unfold Ledger.start at hi
    rw [Mask.test_none] at hi
    cases hi
  complete := by
    intro x hx
    rw [Ledger.resultOf_start] at hx
    rcases hx with hx | hx
    · cases hx
    · exact hx.elim
  called := by
    intro x hx
    rw [Ledger.resultOf_start] at hx
    cases hx
  returned := by
    intro i u _ hi
    unfold Ledger.start at hi
    rw [Mask.test_none] at hi
    cases hi
  unfinished := by
    intro x hx
    exact hx.elim

theorem test_perform (h : l.Sound r s running finished) {i : Nat} (hi : i < r.sites.length) (j : Nat) :
    (l.perform i).performed.test j = true ↔ l.performed.test j = true ∨ j = i := by
  unfold Ledger.perform
  refine Mask.test_insert_iff ?_
  rw [h.performed_size]
  exact hi

/-- A running action uses a granted call site; its callee may start to run with it. -/
theorem perform (h : l.Sound r s running finished) {i : Nat} {u : Site σ}
    (hu : r.sites[i]? = some u) (hgranted : s.grantedSites.test i = true)
    (hcaller : running u.caller) (hsub : ∀ x, running x → running' x)
    (hopen : ∀ x, running' x → l.resultOf x = none)
    (hcallee : (l.resultOf u.callee.id).isSome = true ∨ running' u.callee.id) :
    (l.perform i).Sound r s running' finished := by
  have htest := h.test_perform (List.getElem?_eq_some_iff.mp hu).1
  refine ⟨(Mask.size_insert _ _).trans h.performed_size, h.results_length, ?_, ?_, ?_, ?_, ?_, hopen⟩
  · intro j hj
    rcases (htest j).mp hj with hj | rfl
    · exact h.granted j hj
    · exact hgranted
  · intro j v hv hj
    rcases (htest j).mp hj with hj | rfl
    · rcases h.origin j v hv hj with hrun | hdone
      · exact Or.inl (hsub _ hrun)
      · exact Or.inr hdone
    · obtain rfl : u = v := Option.some.inj (hu.symm.trans hv)
      exact Or.inl (hsub _ hcaller)
  · intro x hx j v hv hvx hactive
    exact (htest j).mpr (Or.inl (h.complete x hx j v hv hvx hactive))
  · intro x hx
    obtain ⟨j, v, hv, hvx, hj⟩ := h.called x hx
    exact ⟨j, v, hv, hvx, (htest j).mpr (Or.inl hj)⟩
  · intro j v hv hj
    rcases (htest j).mp hj with hj | rfl
    · rcases h.returned j v hv hj with hdone | hrun
      · exact Or.inl hdone
      · exact Or.inr (hsub _ hrun)
    · obtain rfl : u = v := Option.some.inj (hu.symm.trans hv)
      exact hcallee

/-- A transaction starts to run. -/
theorem begin (h : l.Sound r s (fun _ => False) finished) {t : Nat} (ht : l.resultOf t = none) :
    l.Sound r s (fun x => x = t) finished := by
  refine ⟨h.performed_size, h.results_length, h.granted, ?_, h.complete, h.called, ?_, ?_⟩
  · intro i u hu hi
    rcases h.origin i u hu hi with hfalse | hdone
    · exact hfalse.elim
    · exact Or.inr hdone
  · intro i u hu hi
    rcases h.returned i u hu hi with hdone | hfalse
    · exact Or.inl hdone
    · exact hfalse.elim
  · rintro x rfl
    exact ht

/-- A transaction that has performed its active call sites is finished. -/
theorem retire {t : Nat} (h : l.Sound r s (fun x => x = t) finished)
    (hcallee : ∀ {i : Nat} {u : Site σ}, r.sites[i]? = some u → u.callee.id ≠ t)
    (hall : ∀ i (u : Site σ), r.sites[i]? = some u → u.caller = t →
      s.activeSites.test i = true → l.performed.test i = true) :
    l.Sound r s (fun _ => False) (fun x => finished x ∨ x = t) := by
  refine ⟨h.performed_size, h.results_length, h.granted, ?_, ?_, h.called, ?_, ?_⟩
  · intro i u hu hi
    rcases h.origin i u hu hi with hrun | hdone | hfinished
    · exact Or.inr (Or.inr (Or.inr hrun))
    · exact Or.inr (Or.inl hdone)
    · exact Or.inr (Or.inr (Or.inl hfinished))
  · intro x hx i u hu hux hactive
    rcases hx with hx | hx | rfl
    · exact h.complete x (Or.inl hx) i u hu hux hactive
    · exact h.complete x (Or.inr hx) i u hu hux hactive
    · exact hall i u hu hux hactive
  · intro i u hu hi
    rcases h.returned i u hu hi with hdone | heq
    · exact Or.inl hdone
    · exact absurd heq (hcallee hu)
  · intro x hx
    exact hx.elim

/-- A method that has performed its active call sites is done. -/
theorem finish {x : Nat} {result : Record}
    (h : l.Sound r s (fun y => running y ∨ y = x) finished) (hx : x < r.actions.length)
    (hidle : ¬ running x) {i : Nat} {u : Site σ} (hu : r.sites[i]? = some u) (hux : u.callee.id = x)
    (hi : l.performed.test i = true)
    (hall : ∀ j (v : Site σ), r.sites[j]? = some v → v.caller = x →
      s.activeSites.test j = true → l.performed.test j = true) :
    (l.finish x result).Sound r s running finished := by
  have hresult : ∀ y, (l.finish x result).resultOf y =
      if x = y then some result else l.resultOf y := by
    refine Ledger.resultOf_finish ?_
    rw [h.results_length]
    exact hx
  have hkept : ∀ y, (l.resultOf y).isSome = true → ((l.finish x result).resultOf y).isSome = true := by
    intro y hy
    rw [hresult]
    split
    · rfl
    · exact hy
  have hself : ((l.finish x result).resultOf x).isSome = true := by
    rw [hresult, if_pos rfl]
    rfl
  have hcases : ∀ y, ((l.finish x result).resultOf y).isSome = true →
      (l.resultOf y).isSome = true ∨ y = x := by
    intro y hy
    rw [hresult] at hy
    split at hy
    · rename_i heq
      exact Or.inr heq.symm
    · exact Or.inl hy
  refine ⟨h.performed_size, (List.length_set ..).trans h.results_length, h.granted, ?_, ?_, ?_, ?_,
    ?_⟩
  · intro j v hv hj
    rcases h.origin j v hv hj with (hrun | heq) | hdone | hfinished
    · exact Or.inl hrun
    · rw [heq]
      exact Or.inr (Or.inl hself)
    · exact Or.inr (Or.inl (hkept _ hdone))
    · exact Or.inr (Or.inr hfinished)
  · intro y hy j v hv hvy hactive
    rcases hy with hy | hy
    · rcases hcases y hy with hy | rfl
      · exact h.complete y (Or.inl hy) j v hv hvy hactive
      · exact hall j v hv hvy hactive
    · exact h.complete y (Or.inr hy) j v hv hvy hactive
  · intro y hy
    rcases hcases y hy with hy | rfl
    · exact h.called y hy
    · exact ⟨i, u, hu, hux, hi⟩
  · intro j v hv hj
    rcases h.returned j v hv hj with hdone | hrun | heq
    · exact Or.inl (hkept _ hdone)
    · exact Or.inr hrun
    · rw [heq]
      exact Or.inl hself
  · intro y hy
    have hne : x ≠ y := fun heq => hidle (heq ▸ hy)
    rw [hresult, if_neg hne]
    exact h.unfinished y (Or.inl hy)

end Ledger.Sound

namespace Machine

variable {κ : Type} {m : Machine σ} {plan : Plan} {s : Schedule} {kept : σ → κ}

/-! ## Where a body runs -/

/-- A machine that may execute a schedule: the design is elaborated, its bodies cooperate, and the
schedule is one that excludes and checks what it grants. -/
structure Prepared (m : Machine σ) (plan : Plan) (s : Schedule) (kept : σ → κ) : Prop where
  /-- the plan fits the registry -/
  elaborated : m.design.main.Elaborated plan
  /-- bodies do what they have to -/
  cooperates : m.Cooperates plan s kept
  /-- granted call sites are the active ones of granted actions -/
  site : ∀ {i : Nat}, s.grantedSites.test i = true ↔ ∃ u : Site σ, m.design.main.sites[i]? = some u ∧
    s.activeSites.test i = true ∧ s.granted.test u.caller = true
  /-- callees of granted call sites are granted -/
  callee : ∀ {i : Nat} {u : Site σ}, m.design.main.sites[i]? = some u →
    s.grantedSites.test i = true → s.granted.test u.callee.id = true
  /-- exclusive methods have one granted caller -/
  exclusive : s.Exclusive m.design.main plan
  /-- granted call sites have supplied what they supply -/
  early : ∀ {i : Nat} {u : Site σ}, m.design.main.sites[i]? = some u →
    s.grantedSites.test i = true → u.arguments.isSome = true → ∃ known, s.earlyOf i = some known
  /-- a granted method passes the checks before its body runs -/
  checked : ∀ {i : Nat} {u : Site σ} {target : Method σ} {given : Option Record} {passed : Record}
    {state : σ}, m.design.main.sites[i]? = some u → s.grantedSites.test i = true →
    m.design.main.method? u.callee.id = some target → u.Passes s i target given passed →
    kept state = kept m.state → m.checkRun (m.design.nameOf u.callee) target
      (drivingArguments s u.callee.id target i passed) state = .ok ()

/-- The situation of an action whose body runs. -/
structure Situated (m : Machine σ) (s : Schedule) (kept : σ → κ) (stack : List Nat)
    (running finished : Nat → Prop) (action : Nat) (done : List Nat)
    (e : Body.Effects σ Ledger) : Prop where
  /-- the ledger is in order -/
  sound : e.calls.Sound m.design.main s running finished
  /-- nobody has changed the kept part of the state -/
  kept : kept e.state = kept m.state
  /-- the action runs -/
  here : running action
  /-- all that run wait for it -/
  above : ∀ x, running x → m.design.main.Reaches x action
  /-- the action is granted -/
  granted : s.granted.test action = true
  /-- finished ones are transactions -/
  finished : ∀ x, finished x → (m.design.main.transaction? x).isSome
  /-- the run knows which of its call sites are performed -/
  done : ∀ i (u : Site σ), m.design.main.sites[i]? = some u → u.caller = action →
    (e.calls.performed.test i = true ↔ i ∈ done)
  /-- no call site is open twice -/
  stack_nodup : stack.Nodup
  /-- open call sites are performed -/
  stack_performed : ∀ i ∈ stack, e.calls.performed.test i = true

/-- What running an action, or part of it, does to the performed call sites: new ones have callers that
the action reaches. -/
structure Below (m : Machine σ) (action : Nat) (l l' : Ledger) : Prop where
  /-- performed call sites stay so -/
  stays : ∀ i, l.performed.test i = true → l'.performed.test i = true
  /-- new ones are below the action -/
  new : ∀ i (u : Site σ), m.design.main.sites[i]? = some u → l'.performed.test i = true →
    l.performed.test i = true ∨ m.design.main.Reaches action u.caller

theorem Below.refl (m : Machine σ) (action : Nat) (l : Ledger) : m.Below action l l :=
  ⟨fun _ hi => hi, fun _ _ _ hi => Or.inl hi⟩

theorem Below.trans {action : Nat} {l l' l'' : Ledger} (h : m.Below action l l')
    (h' : m.Below action l' l'') : m.Below action l l'' := by
  refine ⟨fun i hi => h'.stays i (h.stays i hi), fun i u hu hi => ?_⟩
  rcases h'.new i u hu hi with hi | hreach
  · exact h.new i u hu hi
  · exact Or.inr hreach

/-- There are no more open call sites than call sites. -/
theorem Situated.stack_length_le {stack : List Nat} {running finished : Nat → Prop} {action : Nat}
    {done : List Nat} {e : Body.Effects σ Ledger}
    (h : m.Situated s kept stack running finished action done e) :
    stack.length ≤ m.design.main.sites.length := by
  have hsub : stack ⊆ List.range m.design.main.sites.length := by
    intro i hi
    have hlt := Mask.lt_size_of_test (h.stack_performed i hi)
    rw [h.sound.performed_size] at hlt
    exact List.mem_range.mpr hlt
  have hle := (h.stack_nodup.subperm hsub).length_le
  rw [List.length_range] at hle
  exact hle

/-! ## The steps of a body -/

/-- A body runs to its end if every call that it makes is answered. -/
theorem exists_run (hm : m.Cooperates plan s kept) {stack : List Nat}
    {running finished : Nat → Prop} {action : Nat} (fuel : Nat)
    (hanswer : ∀ {α : Type} {fits : α → Prop} {done : List Nat} {callee : ActionRef}
      {given : Option Record} {next : Record → ActionBody σ α} {e : Body.Effects σ Ledger},
      m.ComesTo plan s fits action done (.call (.perform callee given) next) e →
      m.Situated s kept stack running finished action done e →
      ∃ (i : Nat) (u : Site σ) (result : Record) (e' : Body.Effects σ Ledger),
        m.design.main.findSite? action callee = some (i, u) ∧
          m.answer s fuel action (.perform callee given) e = .ok (result, e') ∧
          m.Situated s kept stack running finished action (i :: done) e' ∧
          m.Below action e.calls e'.calls)
    {α : Type} {fits : α → Prop} (body : ActionBody σ α) :
    ∀ {done : List Nat} {e : Body.Effects σ Ledger}, m.ComesTo plan s fits action done body e →
      m.Situated s kept stack running finished action done e →
      ∃ (result : α) (done' : List Nat) (e' : Body.Effects σ Ledger),
        body.run (m.bodyScene action) (m.answer s fuel action) e = .ok (result, e') ∧
          m.ComesTo plan s fits action done' (.done result) e' ∧
          m.Situated s kept stack running finished action done' e' ∧
          m.Below action e.calls e'.calls := by
  induction body with
  | done result =>
    intro done e hcomes hsituated
    exact ⟨result, done, e, rfl, hcomes, hsituated, .refl m action e.calls⟩
  | fail fault =>
    intro done e hcomes _
    exact absurd hcomes hm.fail
  | look next ih =>
    intro done e hcomes hsituated
    exact ih _ hcomes.look hsituated
  | update state next ih =>
    intro done e hcomes hsituated
    have hkept := (hm.update hcomes).trans hsituated.kept
    exact ih hcomes.update { hsituated with kept := hkept }
  | note text next ih =>
    intro done e hcomes hsituated
    exact ih hcomes.note { hsituated with }
  | report entry next ih =>
    intro done e hcomes hsituated
    exact ih hcomes.report { hsituated with }
  | call call next ih =>
    intro done e hcomes hsituated
    obtain ⟨callee, given, -, -, -, rfl, -⟩ := hm.call hcomes
    obtain ⟨i, u, result, e', hfound, hrun, hsituated', hbelow⟩ := hanswer hcomes hsituated
    obtain ⟨final, done', e'', hrest, hend, hsituated'', hbelow'⟩ :=
      ih result (hcomes.answered hfound hrun) hsituated'
    refine ⟨final, done', e'', ?_, hend, hsituated'', hbelow.trans hbelow'⟩
    unfold Body.run
    rw [hrun]
    exact hrest

/-! ## One call -/

theorem claimSite_of_findSite? {caller i : Nat} {callee : ActionRef} {u : Site σ} {l : Ledger}
    (hfound : m.design.main.findSite? caller callee = some (i, u))
    (hgranted : s.grantedSites.test i = true) (hfresh : l.performed.test i = false) :
    m.claimSite s caller callee l = .ok (i, u) := by
  unfold claimSite
  rw [hfound]
  simp [hgranted, hfresh]

theorem exists_passedArguments (m : Machine σ) (s : Schedule) (caller i : Nat) (callee : ActionRef)
    {u : Site σ} {target : Method σ} {given : Option Record} (htakes : u.Takes target given) :
    ∃ passed, m.passedArguments s caller callee target i u given = .ok passed := by
  unfold passedArguments
  cases hsupplier : u.arguments with
  | some supplier =>
    cases given with
    | some record =>
      obtain ⟨hnone, -⟩ := htakes
      rw [hsupplier] at hnone
      cases hnone
    | none => exact ⟨_, rfl⟩
  | none =>
    cases given with
    | some record =>
      obtain ⟨-, hshape⟩ := htakes
      exact ⟨record, if_pos hshape⟩
    | none =>
      rcases htakes with hsome | hempty
      · rw [hsupplier] at hsome
        cases hsome
      · exact ⟨Record.zero target.input, if_pos hempty⟩

/-- The result of an exclusive method is not there before its call. -/
theorem Situated.nonexclusive_of_result {stack : List Nat} {running finished : Nat → Prop}
    {done : List Nat} {e : Body.Effects σ Ledger} {i : Nat} {u : Site σ} {target : Method σ}
    (hm : m.Prepared plan s kept)
    (h : m.Situated s kept stack running finished u.caller done e)
    (hu : m.design.main.sites[i]? = some u) (hgranted : s.grantedSites.test i = true)
    (hfresh : e.calls.performed.test i = false)
    (htarget : m.design.main.method? u.callee.id = some target)
    (hresult : (e.calls.resultOf u.callee.id).isSome = true) : target.nonexclusive = true := by
  by_contra hexclusive
  have hexclusive := (Registry.isExclusive_iff htarget).mpr (Bool.not_eq_true _ ▸ hexclusive)
  obtain ⟨j, v, hv, hvx, hj⟩ := h.sound.called _ hresult
  obtain rfl : j = i :=
    hm.exclusive.sites hexclusive hv hu hvx rfl (h.sound.granted j hj) hgranted
  rw [hj] at hfresh
  cases hfresh

/-- An action that performs one of its call sites stays where it is. -/
theorem Situated.perform {stack : List Nat} {running finished : Nat → Prop} {done : List Nat}
    {e e' : Body.Effects σ Ledger} {i : Nat} {u : Site σ}
    (h : m.Situated s kept stack running finished u.caller done e)
    (hkept : kept e'.state = kept m.state)
    (hsound : e'.calls.Sound m.design.main s running finished)
    (hperformed : ∀ j (v : Site σ), m.design.main.sites[j]? = some v → v.caller = u.caller →
      (e'.calls.performed.test j = true ↔ e.calls.performed.test j = true ∨ j = i))
    (hstays : ∀ j, e.calls.performed.test j = true → e'.calls.performed.test j = true) :
    m.Situated s kept stack running finished u.caller (i :: done) e' where
  sound := hsound
  kept := hkept
  here := h.here
  above := h.above
  granted := h.granted
  finished := h.finished
  done := by
    intro j v hv hcaller
    rw [hperformed j v hv hcaller, h.done j v hv hcaller, List.mem_cons, or_comm]
  stack_nodup := h.stack_nodup
  stack_performed := fun j hj => hstays j (h.stack_performed j hj)

/-- The callee of a call site is where its caller was. -/
theorem Situated.enter {stack : List Nat} {running finished : Nat → Prop} {done : List Nat}
    {e : Body.Effects σ Ledger} {i : Nat} {u : Site σ} (hm : m.Prepared plan s kept)
    (h : m.Situated s kept stack running finished u.caller done e)
    (hu : m.design.main.sites[i]? = some u) (hgranted : s.grantedSites.test i = true)
    (hfresh : e.calls.performed.test i = false) (hnone : e.calls.resultOf u.callee.id = none) :
    m.Situated s kept (i :: stack) (fun x => running x ∨ x = u.callee.id) finished u.callee.id []
      { e with calls := e.calls.perform i } := by
  have hcall : m.design.main.Calls u.caller u.callee.id := ⟨i, u, hu, rfl, rfl⟩
  have hback : ¬ m.design.main.Reaches u.callee.id u.caller :=
    hm.elaborated.acyclic.not_reaches hcall
  have htest := h.sound.test_perform (List.getElem?_eq_some_iff.mp hu).1
  refine ⟨?_, h.kept, Or.inr rfl, ?_, hm.callee hu hgranted, h.finished, ?_, ?_, ?_⟩
  · refine h.sound.perform hu hgranted h.here (fun _ hx => Or.inl hx) ?_ (Or.inr (Or.inr rfl))
    rintro x (hx | rfl)
    · exact h.sound.unfinished x hx
    · exact hnone
  · rintro x (hx | rfl)
    · exact (h.above x hx).tail hcall
    · exact .refl
  · -- the callee was neither running nor done, so none of its call sites is performed
    intro j v hv hcaller
    constructor
    · intro hj
      exfalso
      rcases (htest j).mp hj with hj | rfl
      · rcases h.sound.origin j v hv hj with hrun | hdone | hfinished
        · rw [hcaller] at hrun
          exact hback (h.above _ hrun)
        · rw [hcaller, hnone] at hdone
          cases hdone
        · have htransaction := h.finished _ hfinished
          rw [hcaller, Registry.transaction?_eq_none (hm.elaborated.callee_method hu)]
            at htransaction
          cases htransaction
      · obtain rfl : u = v := Option.some.inj (hu.symm.trans hv)
        rw [hcaller] at hback
        exact hback .refl
    · intro hj
      cases hj
  · refine List.nodup_cons.mpr ⟨fun hi => ?_, h.stack_nodup⟩
    rw [h.stack_performed i hi] at hfresh
    cases hfresh
  · intro j hj
    rcases List.mem_cons.mp hj with rfl | hj
    · exact (htest j).mpr (Or.inr rfl)
    · exact (htest j).mpr (Or.inl (h.stack_performed j hj))

/-! ## Calls -/

/-- A call through a call site that may be performed, with what it passes. -/
structure Opens (m : Machine σ) (s : Schedule) (l : Ledger) (i : Nat) (u : Site σ)
    (target : Method σ) (given : Option Record) (passed : Record) : Prop where
  /-- it is the call site of its caller and callee -/
  found : m.design.main.findSite? u.caller u.callee = some (i, u)
  /-- it is granted -/
  granted : s.grantedSites.test i = true
  /-- it is not performed yet -/
  fresh : l.performed.test i = false
  /-- the callee is there -/
  known : m.design.method? u.callee = some target
  /-- it passes something -/
  passed : m.passedArguments s u.caller u.callee target i u given = .ok passed

namespace Opens

variable {i : Nat} {u : Site σ} {target : Method σ} {given : Option Record} {passed : Record}
  {e : Body.Effects σ Ledger}

theorem site (ho : m.Opens s e.calls i u target given passed) :
    m.design.main.sites[i]? = some u := (Registry.findSite?_eq_some ho.found).1

/-- A callee that has returned already is not run again. -/
theorem answer_again (ho : m.Opens s e.calls i u target given passed) {result : Record}
    (hresult : e.calls.resultOf u.callee.id = some result) (hshared : target.nonexclusive = true)
    (fuel : Nat) : m.answer s (fuel + 1) u.caller (.perform u.callee given) e =
      .ok (result, { e with calls := e.calls.perform i }) := by
  unfold answer
  rw [claimSite_of_findSite? ho.found ho.granted ho.fresh, ok_bind]
  simp only
  rw [ho.known]
  simp only
  rw [ho.passed, ok_bind, Ledger.resultOf_perform, hresult]
  exact if_pos hshared

/-- The first call of a callee runs its body. -/
theorem answer_first (ho : m.Opens s e.calls i u target given passed)
    {body : Record → ActionBody σ Record} {result : Record} {e' : Body.Effects σ Ledger} {fuel : Nat}
    (hnone : e.calls.resultOf u.callee.id = none) (hbody : target.body = some body)
    (hchecked : m.checkRun (m.design.nameOf u.callee) target
      (drivingArguments s u.callee.id target i passed) e.state = .ok ())
    (hrun : (body (drivingArguments s u.callee.id target i passed)).run (m.bodyScene u.callee.id)
      (m.answer s fuel u.callee.id) { e with calls := e.calls.perform i } = .ok (result, e'))
    (hshape : result.shape = target.output) :
    m.answer s (fuel + 1) u.caller (.perform u.callee given) e =
      .ok (result, { e' with calls := e'.calls.finish u.callee.id result }) := by
  unfold answer
  rw [claimSite_of_findSite? ho.found ho.granted ho.fresh, ok_bind]
  simp only
  rw [ho.known]
  simp only
  rw [ho.passed, ok_bind, Ledger.resultOf_perform, hnone]
  simp only
  rw [hchecked, ok_bind, hbody]
  simp only
  rw [hrun, ok_bind]
  exact if_pos hshape

end Opens

section Calls

variable {stack : List Nat} {running finished : Nat → Prop} {done : List Nat}
  {e : Body.Effects σ Ledger}

/-- A cooperating body calls through call sites that may be performed. -/
theorem exists_opens (hm : m.Prepared plan s kept) {α : Type} {fits : α → Prop} {caller : Nat}
    {callee : ActionRef} {given : Option Record} {next : Record → ActionBody σ α}
    (hcomes : m.ComesTo plan s fits caller done (.call (.perform callee given) next) e)
    (hsituated : m.Situated s kept stack running finished caller done e) :
    ∃ (i : Nat) (u : Site σ) (target : Method σ) (passed : Record), u.caller = caller ∧
      u.callee = callee ∧ m.Opens s e.calls i u target given passed := by
  obtain ⟨callee', given', i, u, target, hcall, hfound, hactive, hnew, htarget, htakes⟩ :=
    hm.cooperates.call hcomes
  obtain ⟨rfl, rfl⟩ := Call.perform.inj hcall
  obtain ⟨hu, rfl, rfl⟩ := Registry.findSite?_eq_some hfound
  obtain ⟨passed, hpassed⟩ := exists_passedArguments m s u.caller i u.callee htakes
  have hfresh : e.calls.performed.test i = false := by
    cases hi : e.calls.performed.test i with
    | false => rfl
    | true => exact absurd ((hsituated.done i u hu rfl).mp hi) hnew
  exact ⟨i, u, target, passed, rfl, rfl,
    ⟨hfound, hm.site.mpr ⟨u, hu, hactive, hsituated.granted⟩, hfresh, htarget, hpassed⟩⟩

variable {i : Nat} {u : Site σ} {target : Method σ} {given : Option Record} {passed : Record}

/-- After a call that finds a result, the caller goes on. -/
theorem Situated.again (hm : m.Prepared plan s kept)
    (h : m.Situated s kept stack running finished u.caller done e)
    (ho : m.Opens s e.calls i u target given passed) {result : Record}
    (hresult : e.calls.resultOf u.callee.id = some result) :
    target.nonexclusive = true ∧
      m.Situated s kept stack running finished u.caller (i :: done)
        { e with calls := e.calls.perform i } ∧
      m.Below u.caller e.calls (e.calls.perform i) := by
  have hu := ho.site
  have hmain := (hm.elaborated.method?_callee hu).symm.trans ho.known
  have htest := h.sound.test_perform (List.getElem?_eq_some_iff.mp hu).1
  have hsome : (e.calls.resultOf u.callee.id).isSome = true := by rw [hresult]; rfl
  refine ⟨h.nonexclusive_of_result hm hu ho.granted ho.fresh hmain hsome, ?_, ?_, ?_⟩
  · refine h.perform h.kept ?_ (fun j _ _ _ => htest j) fun j hj => (htest j).mpr (Or.inl hj)
    exact h.sound.perform hu ho.granted h.here (fun _ hx => hx) h.sound.unfinished (Or.inl hsome)
  · exact fun j hj => (htest j).mpr (Or.inl hj)
  · intro j v hv hj
    rcases (htest j).mp hj with hj | rfl
    · exact Or.inl hj
    · obtain rfl : u = v := Option.some.inj (hu.symm.trans hv)
      exact Or.inr .refl

/-- After a call that has run the body of its callee, the caller goes on. -/
theorem Situated.leave (hm : m.Prepared plan s kept)
    (h : m.Situated s kept stack running finished u.caller done e)
    (ho : m.Opens s e.calls i u target given passed) {done' : List Nat}
    {e' : Body.Effects σ Ledger} (result : Record)
    (hafter : m.Situated s kept (i :: stack) (fun x => running x ∨ x = u.callee.id) finished
      u.callee.id done' e')
    (hbelow : m.Below u.callee.id (e.calls.perform i) e'.calls)
    (hcomplete : ∀ j (v : Site σ), m.design.main.sites[j]? = some v → v.caller = u.callee.id →
      s.activeSites.test j = true → j ∈ done') :
    m.Situated s kept stack running finished u.caller (i :: done)
        { e' with calls := e'.calls.finish u.callee.id result } ∧
      m.Below u.caller e.calls (e'.calls.finish u.callee.id result) := by
  have hu := ho.site
  have hcall : m.design.main.Calls u.caller u.callee.id := ⟨i, u, hu, rfl, rfl⟩
  have hback : ¬ m.design.main.Reaches u.callee.id u.caller :=
    hm.elaborated.acyclic.not_reaches hcall
  have htest := h.sound.test_perform (List.getElem?_eq_some_iff.mp hu).1
  have hstays : ∀ j, e.calls.performed.test j = true ∨ j = i →
      e'.calls.performed.test j = true := fun j hj => hbelow.stays j ((htest j).mpr hj)
  have hnewer : ∀ j (v : Site σ), m.design.main.sites[j]? = some v →
      e'.calls.performed.test j = true → (e.calls.performed.test j = true ∨ j = i) ∨
        m.design.main.Reaches u.callee.id v.caller := by
    intro j v hv hj
    rcases hbelow.new j v hv hj with hj | hreach
    · exact Or.inl ((htest j).mp hj)
    · exact Or.inr hreach
  refine ⟨?_, fun j hj => hstays j (Or.inl hj), ?_⟩
  · refine h.perform hafter.kept ?_ ?_ fun j hj => hstays j (Or.inl hj)
    · refine hafter.sound.finish (Registry.lt_length_of_method? (hm.elaborated.callee_method hu))
        (fun hrun => hback (h.above _ hrun)) hu rfl (hstays i (Or.inr rfl)) ?_
      intro j v hv hcaller hactive
      exact (hafter.done j v hv hcaller).mpr (hcomplete j v hv hcaller hactive)
    · intro j v hv hcaller
      constructor
      · intro hj
        rcases hnewer j v hv hj with hj | hreach
        · exact hj
        · rw [hcaller] at hreach
          exact absurd hreach hback
      · exact hstays j
  · intro j v hv hj
    rcases hnewer j v hv hj with (hj | rfl) | hreach
    · exact Or.inl hj
    · obtain rfl : u = v := Option.some.inj (hu.symm.trans hv)
      exact Or.inr .refl
    · exact Or.inr (Relation.ReflTransGen.head hcall hreach)

end Calls

/-- Every call of a cooperating body is answered. -/
theorem exists_answer (hm : m.Prepared plan s kept) :
    ∀ (fuel : Nat) {α : Type} {fits : α → Prop} {caller : Nat} {done : List Nat}
      {callee : ActionRef} {given : Option Record} {next : Record → ActionBody σ α}
      {e : Body.Effects σ Ledger} {stack : List Nat} {running finished : Nat → Prop},
      m.ComesTo plan s fits caller done (.call (.perform callee given) next) e →
      m.Situated s kept stack running finished caller done e →
      m.design.main.sites.length + 1 ≤ fuel + stack.length →
      ∃ (i : Nat) (u : Site σ) (result : Record) (e' : Body.Effects σ Ledger),
        m.design.main.findSite? caller callee = some (i, u) ∧
          m.answer s fuel caller (.perform callee given) e = .ok (result, e') ∧
          m.Situated s kept stack running finished caller (i :: done) e' ∧
          m.Below caller e.calls e'.calls := by
  intro fuel
  induction fuel with
  | zero =>
    intro α fits caller done callee given next e stack running finished _ hsituated hfuel
    have hle := hsituated.stack_length_le
    omega
  | succ fuel ih =>
    intro α fits caller done callee given next e stack running finished hcomes hsituated hfuel
    obtain ⟨i, u, target, passed, rfl, rfl, ho⟩ := exists_opens hm hcomes hsituated
    refine ⟨i, u, ?_⟩
    cases hresult : e.calls.resultOf u.callee.id with
    | some result =>
      obtain ⟨hshared, hafter, hbelow⟩ := hsituated.again hm ho hresult
      exact ⟨result, _, ho.found, ho.answer_again hresult hshared fuel, hafter, hbelow⟩
    | none =>
      -- the body of the callee runs, one level deeper
      have hu := ho.site
      have hmain := (hm.elaborated.method?_callee hu).symm.trans ho.known
      have hpasses := passes_of_passedArguments (hm.early hu ho.granted) ho.passed
      have hchecked := hm.checked hu ho.granted hmain hpasses hsituated.kept
      obtain ⟨body, hbody⟩ := hm.elaborated.exists_methodBody hmain
      have hinside := hsituated.enter hm hu ho.granted ho.fresh hresult
      have hdeeper := hcomes.method (claimSite_of_findSite? ho.found ho.granted ho.fresh) ho.known
        ho.passed hresult hchecked hbody
      obtain ⟨result, done', e', hrun, hend, hafter, hbelow⟩ :=
        exists_run hm.cooperates fuel (fun hc hs => ih hc hs (by
          rw [List.length_cons]
          omega)) _ hdeeper hinside
      have hshape := hm.cooperates.fits hend
      obtain ⟨hsituated', hbelow'⟩ := hsituated.leave hm ho result hafter hbelow
        fun j v hv hcaller hactive => hm.cooperates.complete hend hv hcaller hactive
      exact ⟨result, _, ho.found,
        ho.answer_first hresult hbody hchecked hrun hshape, hsituated', hbelow'⟩

end Machine

end GuardedActions
