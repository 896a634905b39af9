import GuardedActions.Proofs.Scheduling.Inquiry

/-!
# Predicates that depend on the committed state alone

A valuation says what all predicates and suppliers answer, by the names of actions and as functions of
the simulated state.  Under a valuation no answer depends on what is active when the question is asked.
Scheduling then makes a schedule, unless a call that takes place supplies a record of another shape than
its callee takes.
-/

set_option autoImplicit false

namespace GuardedActions

variable {σ : Type}

/-- Answers to all that predicates and suppliers may be asked for. -/
structure Valuation (σ : Type) where
  /-- whether a transaction wants to run -/
  request : String → σ → Bool
  /-- whether a method is ready, apart from those that it calls -/
  ready : String → σ → Bool
  /-- whether a method accepts some arguments -/
  accepts : String → σ → Record → Bool
  /-- whether a call takes place, by the names of its caller and its callee -/
  condition : String → String → σ → Bool
  /-- the arguments that a call supplies, by the names of its caller and its callee -/
  arguments : String → String → σ → Record

/-- The predicates and suppliers of a registry answer as a valuation says, whatever else they see. -/
structure Valuation.Answers (v : Valuation σ) (r : Registry σ) : Prop where
  /-- request predicates do, where a missing one says yes -/
  request : ∀ {t : Nat} {x : Transaction σ}, r.transaction? t = some x → ∀ view : View σ,
    Guard.holds x.request view = .ok (v.request (r.nameOf t) view.state)
  /-- readiness predicates do -/
  ready : ∀ {id : Nat} {x : Method σ}, r.method? id = some x → ∀ view : View σ,
    Guard.holds x.ready view = .ok (v.ready (r.nameOf id) view.state)
  /-- validators do -/
  accepts : ∀ {id : Nat} {x : Method σ} {validator : Validator σ}, r.method? id = some x →
    x.validator = some validator → ∀ (view : View σ) (args : Record),
      validator view args = .ok (v.accepts (r.nameOf id) view.state args)
  /-- conditions of calls do -/
  condition : ∀ {i : Nat} {u : Site σ}, r.sites[i]? = some u → ∀ view : View σ,
    Guard.holds u.condition view =
      .ok (v.condition (r.nameOf u.caller) (r.nameOf u.callee.id) view.state)
  /-- suppliers of arguments do -/
  arguments : ∀ {i : Nat} {u : Site σ} {supplier : Supplier σ}, r.sites[i]? = some u →
    u.arguments = some supplier → ∀ view : View σ,
      supplier view = .ok (v.arguments (r.nameOf u.caller) (r.nameOf u.callee.id) view.state)

/-- All questions are asked before anything is active. -/
def Inquiry.outset (m : Machine σ) : Inquiry σ where
  request := fun _ => m.view
  condition := fun _ => m.view
  arguments := fun _ => m.view

namespace Machine

variable {m : Machine σ} {plan : Plan} {v : Valuation σ}

/-- On the way to a schedule the state stays as it is. -/
theorem Saw.state_eq {active : Mask} {early : List (Option Record)} {view : View σ}
    (h : m.Saw active early view) : view.state = m.state := by
  obtain ⟨active', early', -, -, rfl⟩ := h
  rfl

/-- Under a valuation a schedule follows from the answers that are given at the outset. -/
theorem Schedules.explains_outset {s : Schedule} (h : m.design.main.Elaborated plan)
    (hv : v.Answers m.design.main) (hs : m.Schedules plan s) :
    (Inquiry.outset m).Explains m s ∧ (Inquiry.outset m).Supplies m s := by
  obtain ⟨q, hwithin, hq, hsupplied⟩ := hs.exists_inquiry h
  refine ⟨⟨?_, ?_⟩, ?_⟩
  · intro t ht
    rw [hq.transaction ht]
    refine exists_congr fun x => and_congr_right fun hx => ?_
    rw [hv.request hx, hv.request hx, (hwithin.request t).state_eq]
    rfl
  · intro i u hu
    rw [hq.site hu, hv.condition hu, hv.condition hu, (hwithin.condition i).state_eq]
    rfl
  · intro i args hargs
    obtain ⟨u, supplier, hu, hsupplier, hsupply⟩ := hsupplied hargs
    rw [hv.arguments hu hsupplier, (hwithin.arguments i).state_eq] at hsupply
    refine ⟨u, supplier, hu, hsupplier, ?_⟩
    rw [hv.arguments hu hsupplier]
    exact hsupply

/-! ## Records of the wrong shape -/

/-- By the answers at the outset an action is reached from a transaction that wants to run. -/
def Pursued (m : Machine σ) (a : Nat) : Prop :=
  ∃ t, (Inquiry.outset m).Wants m t ∧ (Inquiry.outset m).Reaches m t a

/-- A call of a pursued action takes place and supplies a record of another shape than its callee
takes. -/
structure Misfit (m : Machine σ) (i : Nat) (u : Site σ) : Prop where
  /-- it is a call site -/
  site : m.design.main.sites[i]? = some u
  /-- its caller is pursued -/
  caller : m.Pursued u.caller
  /-- its condition holds -/
  condition : Guard.holds u.condition m.view = .ok true
  /-- what it supplies does not fit -/
  shape : ∃ (supplier : Supplier σ) (args : Record) (x : Method σ), u.arguments = some supplier ∧
    supplier m.view = .ok args ∧ m.design.main.method? u.callee.id = some x ∧ args.shape ≠ x.input

/-- Some call supplies a record that does not fit. -/
def Misfits (m : Machine σ) : Prop := ∃ (i : Nat) (u : Site σ), m.Misfit i u

/-- Where there is a schedule, all that calls supply fits. -/
theorem Schedules.not_misfits {s : Schedule} (h : m.design.main.Elaborated plan)
    (hv : v.Answers m.design.main) (hs : m.Schedules plan s) : ¬ m.Misfits := by
  rintro ⟨i, u, hmisfit⟩
  obtain ⟨hexplains, hsupplies⟩ := hs.explains_outset h hv
  obtain ⟨supplier, args, x, hsupplier, hargs, hx, hshape⟩ := hmisfit.shape
  have hu := hmisfit.site
  have hactive : s.activeSites.test i = true :=
    (hexplains.site hu).mpr ⟨hmisfit.condition, (hexplains.requested_iff hs).mpr hmisfit.caller⟩
  obtain ⟨known, hknown, hfits⟩ := hs.early hu hactive (by rw [hsupplier]; rfl)
  obtain ⟨u', supplier', hu', hsupplier', hknown'⟩ := hsupplies hknown
  obtain rfl := Option.some.inj (hu.symm.trans hu')
  obtain rfl := Option.some.inj (hsupplier.symm.trans hsupplier')
  obtain rfl : known = args := Except.ok.inj (hknown'.symm.trans hargs)
  exact hshape (hfits ((h.method?_callee hu).trans hx))

/-- A computation returns, or it is a fault about a record that does not fit, of which there is one. -/
inductive ReturnsOr {α : Type} (misfits : Prop) : Except Fault α → Prop where
  /-- it returns -/
  | returned (a : α) : ReturnsOr misfits (.ok a)
  /-- some record does not fit -/
  | refused (reason : misfits) (caller callee : String) :
      ReturnsOr misfits (.error (.call caller callee .earlyShape))

namespace ReturnsOr

variable {α β : Type} {misfits : Prop}

theorem of_exists {x : Except Fault α} (h : ∃ a, x = .ok a) : ReturnsOr misfits x := by
  obtain ⟨a, rfl⟩ := h
  exact .returned a

theorem bind {x : Except Fault α} {f : α → Except Fault β} (h : ReturnsOr misfits x)
    (hf : ∀ a, x = .ok a → ReturnsOr misfits (f a)) : ReturnsOr misfits (x >>= f) := by
  cases h with
  | returned a => exact hf a rfl
  | refused reason caller callee => exact .refused reason caller callee

theorem foldlM {f : β → α → Except Fault β} {l : List α}
    (h : ∀ a ∈ l, ∀ b, ReturnsOr misfits (f b a)) (b : β) : ReturnsOr misfits (l.foldlM f b) := by
  induction l generalizing b with
  | nil => exact .returned b
  | cons a l ih =>
    rw [List.foldlM_cons]
    exact (h a List.mem_cons_self b).bind fun b' _ =>
      ih (fun a' ha' => h a' (List.mem_cons_of_mem _ ha')) b'

end ReturnsOr

/-! ## Activation -/

theorem returnsOr_activateSite (h : m.design.main.Elaborated plan) (hv : v.Answers m.design.main)
    {i : Nat} {u : Site σ} (hu : m.design.main.sites[i]? = some u) (hcaller : m.Pursued u.caller)
    (a : Activation) : ReturnsOr m.Misfits (m.activateSite i u a) := by
  unfold activateSite
  refine (ReturnsOr.of_exists ⟨_, hv.condition hu _⟩).bind fun holds hholds => ?_
  cases holds with
  | false => exact .returned _
  | true =>
    simp only [if_true]
    cases hsupplier : u.arguments with
    | none => exact .returned _
    | some supplier =>
      simp only
      refine (ReturnsOr.of_exists ⟨_, hv.arguments hu hsupplier _⟩).bind fun args hargs => ?_
      split
      · exact .returned _
      · rename_i hshape
        -- what is seen now and what is seen at the outset have the state in common
        rw [hv.condition hu] at hholds
        rw [hv.arguments hu hsupplier] at hargs
        obtain ⟨x, hx⟩ := Option.isSome_iff_exists.mp (h.callee_method hu)
        have hcallee : m.design.method? u.callee = some x := (h.method?_callee hu).trans hx
        rw [hcallee] at hshape
        refine .refused ⟨i, u, hu, hcaller, (hv.condition hu _).trans hholds, supplier, args, x,
          hsupplier, (hv.arguments hu hsupplier _).trans hargs, hx, ?_⟩ _ _
        simpa using hshape

theorem returnsOr_activateFrom (h : m.design.main.Elaborated plan)
    (hv : v.Answers m.design.main) :
    ∀ (fuel a : Nat) (x : Activation), m.design.main.Shallow fuel a → m.Pursued a →
      ReturnsOr m.Misfits (m.activateFrom fuel a x) := by
  intro fuel
  induction fuel with
  | zero =>
    intro a x hshallow
    exact hshallow.elim
  | succ fuel ih =>
    intro a x hshallow hpursued
    unfold activateFrom
    split
    · exact .returned x
    · refine ReturnsOr.foldlM ?_ _
      rintro ⟨i, u⟩ hmem y
      obtain ⟨hu, rfl⟩ := Registry.mem_sitesOf.mp hmem
      refine (returnsOr_activateSite h hv hu hpursued y).bind ?_
      rintro ⟨y', active⟩ hsite
      rcases activateSite_cases hsite with ⟨rfl, -, -⟩ | ⟨rfl, hactivates⟩
      · exact .returned y'
      · obtain ⟨t, hwants, hreach⟩ := hpursued
        have hholds := hactivates.holds
        rw [hv.condition hu] at hholds
        exact ih _ _ (hshallow _ ⟨i, u, hu, rfl, rfl⟩)
          ⟨t, hwants, hreach.tail ⟨i, u, hu, (hv.condition hu _).trans hholds, rfl, rfl⟩⟩

theorem returnsOr_activateAll (h : m.design.main.Elaborated plan) (hv : v.Answers m.design.main) :
    ReturnsOr m.Misfits (m.activateAll plan.order) := by
  refine ReturnsOr.foldlM (fun t ht a => ?_) _
  have hsome := h.mem_order.mp ht
  obtain ⟨x, hx⟩ := Option.isSome_iff_exists.mp hsome
  unfold activateTransaction
  rw [hx, Option.bind_some]
  refine (ReturnsOr.of_exists ⟨_, hv.request hx _⟩).bind fun holds hholds => ?_
  cases holds with
  | false => exact .returned a
  | true =>
    rw [hv.request hx] at hholds
    have hwants : (Inquiry.outset m).Wants m t := ⟨x, hx, (hv.request hx _).trans hholds⟩
    exact returnsOr_activateFrom h hv _ _ _ (h.shallow (Registry.lt_length_of_transaction? hsome))
      ⟨t, hwants, .refl⟩

/-! ## Readiness and grants -/

theorem exists_allYes {α : Type} {ask : α → Except Fault Bool} {list : List α}
    (h : ∀ x ∈ list, ∃ yes, ask x = .ok yes) : ∃ yes, allYes ask list = .ok yes := by
  induction list with
  | nil => exact ⟨true, rfl⟩
  | cons x rest ih =>
    obtain ⟨yes, hyes⟩ := h x List.mem_cons_self
    rw [allYes, hyes, ok_bind]
    cases yes with
    | false => exact ⟨false, rfl⟩
    | true => exact ih fun y hy => h y (List.mem_cons_of_mem _ hy)

theorem exists_callAfresh (h : m.design.main.Elaborated plan) (hv : v.Answers m.design.main)
    {a : Activation} {ready : Nat → Except Fault Bool} {i : Nat} {u : Site σ}
    (hu : m.design.main.sites[i]? = some u) (hready : ∃ yes, ready u.callee.id = .ok yes) :
    ∃ yes, m.callAfresh a ready (i, u) = .ok yes := by
  obtain ⟨yes, hyes⟩ := hready
  obtain ⟨x, hx⟩ := Option.isSome_iff_exists.mp (h.callee_method hu)
  have hcallee : m.design.method? u.callee = some x := (h.method?_callee hu).trans hx
  unfold callAfresh
  simp only
  rw [hyes, hcallee, ok_bind]
  cases yes with
  | false => exact ⟨false, rfl⟩
  | true =>
    simp only [if_true]
    unfold validates
    cases hvalidator : x.validator with
    | none => exact ⟨true, rfl⟩
    | some validator =>
      cases a.early[i]?.join with
      | none => exact ⟨false, rfl⟩
      | some args => exact ⟨_, hv.accepts hx hvalidator _ args⟩

theorem exists_readyAfresh (h : m.design.main.Elaborated plan) (hv : v.Answers m.design.main)
    (a : Activation) : ∀ fuel id : Nat, m.design.main.Shallow fuel id →
      (m.design.main.method? id).isSome → ∃ yes, m.readyAfresh a fuel id = .ok yes := by
  intro fuel
  induction fuel with
  | zero =>
    intro id hshallow
    exact hshallow.elim
  | succ fuel ih =>
    intro id hshallow hid
    obtain ⟨x, hx⟩ := Option.isSome_iff_exists.mp hid
    rw [readyAfresh, hx, Option.bind_some, hv.ready hx, ok_bind]
    split
    · refine exists_allYes ?_
      rintro ⟨i, u⟩ hmem
      have hcall := calls_of_mem_activeSitesOf hmem
      obtain ⟨hu, -, -⟩ := mem_activeSitesOf.mp hmem
      exact exists_callAfresh h hv hu (ih _ (hshallow _ hcall) (h.callee_method hu))
    · exact ⟨false, rfl⟩

theorem exists_runnableActions (h : m.design.main.Elaborated plan) (hv : v.Answers m.design.main)
    (a : Activation) : ∃ runnable, m.runnableActions a = .ok runnable := by
  have hready : ∀ {id : Nat}, (m.design.main.method? id).isSome →
      ∃ yes, m.readyAfresh a m.callDepth id = .ok yes := fun hid =>
    exists_readyAfresh h hv a _ _ (shallow_callDepth h (Registry.lt_length_of_method? hid)) hid
  have hcalls : ∀ id, ∃ yes, m.callsAfresh a id = .ok yes := by
    intro id
    refine exists_allYes ?_
    rintro ⟨i, u⟩ hmem
    obtain ⟨hu, -, -⟩ := mem_activeSitesOf.mp hmem
    exact exists_callAfresh h hv hu (hready (h.callee_method hu))
  rw [runnableActions_eq_inOrder, runnableInOrder_eq h fun id hid =>
    Registry.lt_length_of_method? (Registry.mem_methods.mp hid)]
  obtain ⟨between, hbetween⟩ := exists_foldlM_mark
    (fun id hid _ => hready (Registry.mem_methods.mp hid)) (Mask.none m.design.main.actions.length)
  obtain ⟨runnable, hrunnable⟩ := exists_foldlM_mark (fun id _ _ => hcalls id) between
  exact ⟨runnable, bind_eq_ok.mpr ⟨between, hbetween, hrunnable⟩⟩

/-- Grants need no more than that calls are not nested too deep. -/
theorem returnsOr_grantFrom {misfits : Prop} (active : Mask) : ∀ (fuel a : Nat) (g : Grants),
    m.design.main.Shallow fuel a → ReturnsOr misfits (m.grantFrom active fuel a g) := by
  intro fuel
  induction fuel with
  | zero =>
    intro a g hshallow
    exact hshallow.elim
  | succ fuel ih =>
    intro a g hshallow
    unfold grantFrom
    refine ReturnsOr.foldlM ?_ g
    rintro ⟨i, u⟩ hmem g'
    obtain ⟨hu, rfl⟩ := Registry.mem_sitesOf.mp hmem
    simp only
    split
    · split
      · exact .returned _
      · exact ih _ _ (hshallow _ ⟨i, u, hu, rfl, rfl⟩)
    · exact .returned _

theorem returnsOr_grantAll {misfits : Prop} (h : m.design.main.Elaborated plan) (active : Mask)
    (winners : List Nat) : ReturnsOr misfits (m.grantAll active plan.order winners) := by
  unfold grantAll
  refine ReturnsOr.foldlM (fun t ht g => ?_) _
  split
  · exact returnsOr_grantFrom active _ t g
      (h.shallow (Registry.lt_length_of_transaction? (h.mem_order.mp ht)))
  · exact .returned g

/-! ## The schedule -/

/-- Under a valuation scheduling succeeds just if all that calls supply fits, and there is no other
reason why it could fail. -/
theorem schedule_cases (h : m.design.main.Elaborated plan) (hplan : m.design.main.plan = some plan)
    (hv : v.Answers m.design.main) :
    (¬ m.Misfits ∧ ∃ s, m.schedule = .ok s ∧ m.Schedules plan s) ∨
      (m.Misfits ∧ ∃ caller callee, m.schedule = .error (.call caller callee .earlyShape)) := by
  have hreturns : ReturnsOr m.Misfits m.schedule := by
    unfold schedule
    rw [hplan]
    refine (returnsOr_activateAll h hv).bind fun a _ => ?_
    refine (ReturnsOr.of_exists (exists_runnableActions h hv a)).bind fun runnable _ => ?_
    exact (returnsOr_grantAll h a.active (plan.winners runnable)).bind fun g _ => .returned _
  generalize hresult : m.schedule = result at hreturns
  cases hreturns with
  | returned s =>
    have hs := schedules_of_schedule h hplan hresult
    exact Or.inl ⟨hs.not_misfits h hv, s, rfl, hs⟩
  | refused reason caller callee => exact Or.inr ⟨reason, caller, callee, rfl⟩

end Machine

end GuardedActions
