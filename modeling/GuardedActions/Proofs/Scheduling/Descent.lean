import GuardedActions.Proofs.Recursion
import GuardedActions.Proofs.Scheduling.Grant
import GuardedActions.Scheduling.Readiness

/-!
# The recursions of a schedule

Activation, readiness and grants go down along call sites.  Each of them is a script here, once for what is done
about one action and once for the whole phase, and carrying the scripts out is what the phases do.  Scripts make
their calls along the call graph.  Activation and grants know which actions they dealt with: activation by the
actions it expanded, grants by the methods they granted.
-/

set_option autoImplicit false

namespace GuardedActions

variable {σ : Type}

/-! ## Activation -/

namespace Machine

/-- Look at one call site. -/
def activationStep (m : Machine σ) (a : Activation) (s : Nat × Site σ) :
    Script Activation Activation Activation := do
  let (a, active) ← liftM (m.activateSite s.1 s.2 a)
  if active then Script.call s.2.callee.id a else pure a

/-- Look at the call sites of an action. -/
def activationBody (m : Machine σ) (action : Nat) (a : Activation) : Script Activation Activation Activation :=
  if a.expanded.test action then pure a
  else (m.design.main.sitesOf action).foldlM m.activationStep (a.expand action)

/-- Look at a transaction. -/
def activationRoot (m : Machine σ) (a : Activation) (t : Nat) : Script Activation Activation Activation := do
  if ← liftM (Guard.holds ((m.design.main.transaction? t).bind Transaction.request) (m.viewWith a.active a.early)) then
    Script.call t (a.request t)
  else pure a

/-- Look at all transactions. -/
def activationPhase (m : Machine σ) (order : List Nat) : Script Activation Activation Activation :=
  order.foldlM m.activationRoot (.start m.design.main.actions.length m.design.main.sites.length)

theorem unfolds_activateFrom (m : Machine σ) : Script.Unfolds m.activateFrom m.activationBody := by
  intro fuel action a
  rw [activateFrom, activationBody]
  split
  · rfl
  · refine (Script.eval_foldlM (fun a s => ?_) _ _).symm
    rw [activationStep, Script.eval_bind, Script.eval_lift]
    refine congrArg _ (funext fun ⟨a, active⟩ => ?_)
    cases active with
    | true => exact Script.eval_call _ _
    | false => rfl

theorem eval_activationPhase (m : Machine σ) (order : List Nat) :
    (m.activationPhase order).eval (m.activateFrom m.callDepth) = m.activateAll order := by
  refine Script.eval_foldlM (fun a t => ?_) _ _
  rw [activationRoot, activateTransaction, Script.eval_bind, Script.eval_lift]
  refine congrArg _ (funext fun requests => ?_)
  cases requests with
  | true => exact Script.eval_call _ _
  | false => rfl

theorem follows_activationStep (m : Machine σ) (a : Activation) (s : Nat × Site σ) :
    (m.activationStep a s).Follows [s.2.callee.id] := by
  refine Script.Follows.lift_bind fun ⟨a, active⟩ => ?_
  cases active with
  | true => exact Script.follows_call _ _
  | false => trivial

theorem along_activationBody (m : Machine σ) : Script.Along m.activationBody m.design.main.callees := by
  intro action a
  unfold activationBody
  split
  · trivial
  · exact Script.follows_foldlM_single (fun s _ a => m.follows_activationStep a s) _

theorem follows_activationPhase (m : Machine σ) (order : List Nat) : (m.activationPhase order).Follows order := by
  have hroot : ∀ t ∈ order, ∀ a, (m.activationRoot a t).Follows [id t] := by
    intro t _ a
    refine Script.Follows.lift_bind fun requests => ?_
    cases requests with
    | true => exact Script.follows_call _ _
    | false => trivial
  have hphase := Script.follows_foldlM_single hroot (.start m.design.main.actions.length m.design.main.sites.length)
  rw [List.map_id] at hphase
  exact hphase

/-! ## Readiness -/

/-- Ask a list of questions up to the first no. -/
def readinessAll {ι : Type} (ask : ι → ReadyMemo → Script ReadyMemo (Bool × ReadyMemo) (Bool × ReadyMemo)) :
    List ι → ReadyMemo → Script ReadyMemo (Bool × ReadyMemo) (Bool × ReadyMemo)
  | [], memo => pure (true, memo)
  | x :: rest, memo => do
    let (yes, memo) ← ask x memo
    if yes then readinessAll ask rest memo else pure (false, memo)

/-- Ask about a call site. -/
def readinessSite (m : Machine σ) (a : Activation) (s : Nat × Site σ) (memo : ReadyMemo) :
    Script ReadyMemo (Bool × ReadyMemo) (Bool × ReadyMemo) := do
  let (yes, memo) ← Script.call s.2.callee.id memo
  if yes then
    match m.design.method? s.2.callee with
    | some callee =>
      let accepted ← liftM (validates (m.viewWith a.active a.early) a.early callee s.1)
      pure (accepted, memo)
    | none => pure (true, memo)
  else pure (false, memo)

/-- Ask about a method. -/
def readinessBody (m : Machine σ) (a : Activation) (id : Nat) (memo : ReadyMemo) :
    Script ReadyMemo (Bool × ReadyMemo) (Bool × ReadyMemo) :=
  match memo[id]?.join with
  | some known => pure (known, memo)
  | none => do
    let own ← liftM (Guard.holds ((m.design.main.method? id).bind Method.ready) (m.viewWith a.active a.early))
    let (yes, memo) ←
      if own then readinessAll (m.readinessSite a) (m.activeSitesOf a id) memo else pure (false, memo)
    pure (yes, memo.set id (some yes))

/-- Ask about an action if it is requested, and note the answer. -/
def readinessRoot (a : Activation)
    (ask : Nat → ReadyMemo → Script ReadyMemo (Bool × ReadyMemo) (Bool × ReadyMemo)) (r : Mask × ReadyMemo)
    (id : Nat) : Script ReadyMemo (Bool × ReadyMemo) (Mask × ReadyMemo) :=
  if a.requested.test id then do
    let (yes, memo) ← ask id r.2
    pure (if yes then r.1.insert id else r.1, memo)
  else pure r

/-- Ask about all actions. -/
def readinessPhase (m : Machine σ) (a : Activation) : Script ReadyMemo (Bool × ReadyMemo) Mask := do
  let size := m.design.main.actions.length
  let r ← m.design.main.methods.foldlM (readinessRoot a Script.call) (Mask.none size, List.replicate size none)
  let r ← m.design.main.transactions.foldlM
    (readinessRoot a fun id => readinessAll (m.readinessSite a) (m.activeSitesOf a id)) r
  pure r.1

section Readiness

variable {m : Machine σ} {a : Activation} {f : Nat → ReadyMemo → Except Fault (Bool × ReadyMemo)}

theorem eval_readinessAll {ι : Type}
    {ask : ι → ReadyMemo → Script ReadyMemo (Bool × ReadyMemo) (Bool × ReadyMemo)}
    {ask' : ι → ReadyMemo → Except Fault (Bool × ReadyMemo)} (hask : ∀ x memo, (ask x memo).eval f = ask' x memo)
    (l : List ι) (memo : ReadyMemo) : (readinessAll ask l memo).eval f = allReady ask' l memo := by
  induction l generalizing memo with
  | nil => rfl
  | cons x l ih =>
    rw [readinessAll, allReady, Script.eval_bind, hask]
    refine congrArg _ (funext fun ⟨yes, memo⟩ => ?_)
    cases yes with
    | true => exact ih memo
    | false => rfl

theorem eval_readinessSite (s : Nat × Site σ) (memo : ReadyMemo) :
    (m.readinessSite a s memo).eval f = m.askSiteBy a f s memo := by
  rw [readinessSite, askSiteBy, Script.eval_bind, Script.eval_call]
  refine congrArg _ (funext fun ⟨yes, memo⟩ => ?_)
  cases yes with
  | false => rfl
  | true =>
    simp only [if_true]
    cases m.design.method? s.2.callee with
    | none => rfl
    | some callee =>
      simp only
      rw [Script.eval_bind, Script.eval_lift]
      rfl

theorem unfolds_askMethod (m : Machine σ) (a : Activation) :
    Script.Unfolds (m.askMethod a) (m.readinessBody a) := by
  intro fuel id memo
  rw [askMethod, readinessBody]
  cases memo[id]?.join with
  | some known => rfl
  | none =>
    simp only
    rw [Script.eval_bind, Script.eval_lift]
    refine congrArg _ (funext fun own => ?_)
    cases own with
    | false => rfl
    | true =>
      simp only [if_true]
      rw [Script.eval_bind, eval_readinessAll fun s memo => eval_readinessSite s memo]
      rfl

theorem eval_readinessRoot {ask : Nat → ReadyMemo → Script ReadyMemo (Bool × ReadyMemo) (Bool × ReadyMemo)}
    {ask' : Nat → ReadyMemo → Except Fault (Bool × ReadyMemo)} (hask : ∀ id memo, (ask id memo).eval f = ask' id memo)
    (r : Mask × ReadyMemo) (id : Nat) : (readinessRoot a ask r id).eval f =
      if a.requested.test id then do
        let (yes, memo) ← ask' id r.2
        .ok (if yes then r.1.insert id else r.1, memo)
      else .ok r := by
  unfold readinessRoot
  split
  · rw [Script.eval_bind, hask]
    rfl
  · rfl

theorem eval_readinessPhase (m : Machine σ) (a : Activation) :
    (m.readinessPhase a).eval (m.askMethod a m.callDepth) = m.runnableActions a := by
  unfold readinessPhase runnableActions
  simp only
  rw [Script.eval_bind, Script.eval_foldlM (eval_readinessRoot fun id memo => Script.eval_call id memo)]
  refine congrArg _ (funext fun ⟨runnable, memo⟩ => ?_)
  rw [Script.eval_bind, Script.eval_foldlM (eval_readinessRoot fun id memo =>
    eval_readinessAll (fun s memo => eval_readinessSite s memo) (m.activeSitesOf a id) memo)]
  rfl

theorem follows_readinessAll {l : List (Nat × Site σ)} (memo : ReadyMemo) :
    (readinessAll (m.readinessSite a) l memo).Follows (l.map fun s => s.2.callee.id) := by
  induction l generalizing memo with
  | nil => trivial
  | cons s l ih =>
    have hsite : (m.readinessSite a s memo).Follows [s.2.callee.id] := by
      refine (Script.follows_call _ _).bind_of_silent fun ⟨yes, memo⟩ => ?_
      cases yes with
      | false => trivial
      | true =>
        simp only [if_true]
        cases m.design.method? s.2.callee with
        | none => trivial
        | some callee => exact Script.Follows.lift_bind fun _ => trivial
    refine hsite.bind fun ⟨yes, memo⟩ => ?_
    cases yes with
    | true => exact ih memo
    | false => trivial

theorem follows_activeSitesOf (id : Nat) (memo : ReadyMemo) :
    (readinessAll (m.readinessSite a) (m.activeSitesOf a id) memo).Follows (m.design.main.callees id) :=
  (follows_readinessAll memo).mono (List.filter_sublist.map _)

theorem along_readinessBody (m : Machine σ) (a : Activation) :
    Script.Along (m.readinessBody a) m.design.main.callees := by
  intro id memo
  unfold readinessBody
  cases memo[id]?.join with
  | some known => trivial
  | none =>
    refine Script.Follows.lift_bind fun own => ?_
    cases own with
    | false => trivial
    | true => exact (follows_activeSitesOf id memo).bind_of_silent fun _ => trivial

/-- Requested methods are asked about first, then the callees of requested transactions. -/
theorem follows_readinessPhase (m : Machine σ) (a : Activation) : (m.readinessPhase a).Follows
    (m.design.main.methods.flatMap (fun id => [id]) ++
      m.design.main.transactions.flatMap m.design.main.callees) := by
  have hroot : ∀ {ask : Nat → ReadyMemo → Script ReadyMemo (Bool × ReadyMemo) (Bool × ReadyMemo)} {id : Nat}
      {l : List Nat}, (∀ memo, (ask id memo).Follows l) → ∀ r, (readinessRoot a ask r id).Follows l := by
    intro ask id l hask r
    unfold readinessRoot
    split
    · exact (hask r.2).bind_of_silent fun _ => trivial
    · trivial
  refine Script.Follows.bind (Script.follows_foldlM (fun id _ => hroot (Script.follows_call id)) _) ?_
  intro r
  exact (Script.follows_foldlM (fun id _ => hroot (follows_activeSitesOf id)) r).bind_of_silent fun _ => trivial

end Readiness

/-! ## Grants -/

/-- Grant one call site, if it is active. -/
def grantStep (active : Mask) (g : Grants) (s : Nat × Site σ) : Script Grants Grants Grants :=
  if active.test s.1 then
    let callee := s.2.callee.id
    let g : Grants := { g with sites := g.sites.insert s.1 }
    if g.actions.test callee then pure g
    else Script.call callee { g with actions := g.actions.insert callee }
  else pure g

/-- Grant the call sites of an action. -/
def grantBody (m : Machine σ) (active : Mask) (action : Nat) (g : Grants) : Script Grants Grants Grants :=
  (m.design.main.sitesOf action).foldlM (grantStep active) g

/-- Grant below a transaction, if it is granted. -/
def grantRoot (g : Grants) (t : Nat) : Script Grants Grants Grants :=
  if g.actions.test t then Script.call t g else pure g

/-- Grant below all transactions. -/
def grantPhase (m : Machine σ) (order winners : List Nat) : Script Grants Grants Grants :=
  order.foldlM grantRoot (m.winnersGranted winners)

theorem unfolds_grantFrom (m : Machine σ) (active : Mask) :
    Script.Unfolds (m.grantFrom active) (m.grantBody active) := by
  intro fuel action g
  rw [grantFrom, grantBody]
  refine (Script.eval_foldlM (fun g s => ?_) _ _).symm
  unfold grantStep
  split
  · simp only
    split
    · rfl
    · exact Script.eval_call _ _
  · rfl

theorem eval_grantPhase (m : Machine σ) (active : Mask) (order winners : List Nat) :
    (m.grantPhase order winners).eval (m.grantFrom active m.callDepth) = m.grantAll active order winners := by
  refine Script.eval_foldlM (fun g t => ?_) _ _
  unfold grantRoot
  split
  · exact Script.eval_call _ _
  · rfl

theorem along_grantBody (m : Machine σ) (active : Mask) :
    Script.Along (m.grantBody active) m.design.main.callees := by
  intro action g
  refine Script.follows_foldlM_single (fun s _ g => ?_) _
  unfold grantStep
  split
  · simp only
    split
    · trivial
    · exact Script.follows_call _ _
  · trivial

theorem follows_grantPhase (m : Machine σ) (order winners : List Nat) :
    (m.grantPhase order winners).Follows order := by
  have hroot : ∀ t ∈ order, ∀ g, (grantRoot g t).Follows [id t] := by
    intro t _ g
    unfold grantRoot
    split
    · exact Script.follows_call _ _
    · trivial
  have hphase := Script.follows_foldlM_single hroot (m.winnersGranted winners)
  rw [List.map_id] at hphase
  exact hphase

/-! ## What is dealt with -/

/-- Activation expands what it has not expanded before. -/
def expansions (m : Machine σ) : Script.Checklist Activation Activation where
  deals action a := !a.expanded.test action
  before action a done := a.expanded.size = m.design.main.actions.length ∧ action < m.design.main.actions.length ∧
    ∀ x ∈ done, a.expanded.test x = true
  after a done := a.expanded.size = m.design.main.actions.length ∧ ∀ x ∈ done, a.expanded.test x = true

/-- Grants enter a method when they grant it. -/
def entries (m : Machine σ) : Script.Checklist Grants Grants where
  deals action _ := (m.design.main.method? action).isSome
  before action g done := g.actions.size = m.design.main.actions.length ∧ g.actions.test action = true ∧
    ((m.design.main.method? action).isSome → action ∉ done) ∧ ∀ x ∈ done, g.actions.test x = true
  after g done := g.actions.size = m.design.main.actions.length ∧ ∀ x ∈ done, g.actions.test x = true

section Checklists

variable {m : Machine σ} {plan : Plan}

theorem expanded_of_activateSite {i : Nat} {s : Site σ} {a a' : Activation} {active : Bool}
    (h : m.activateSite i s a = .ok (a', active)) : a'.expanded = a.expanded := by
  unfold activateSite at h
  obtain ⟨holds, -, h⟩ := bind_eq_ok.mp h
  split at h
  · simp only at h
    split at h
    · obtain ⟨rfl, -⟩ := Prod.mk.inj (Except.ok.inj h)
      rfl
    · obtain ⟨args, -, h⟩ := bind_eq_ok.mp h
      split at h
      · obtain ⟨rfl, -⟩ := Prod.mk.inj (Except.ok.inj h)
        rfl
      · cases h
  · obtain ⟨rfl, -⟩ := Prod.mk.inj (Except.ok.inj h)
    rfl

theorem heeds_activationStep {a : Activation} {s : Nat × Site σ} {done : Set Nat}
    (hcallee : s.2.callee.id < m.design.main.actions.length) (ha : m.expansions.after a done) :
    m.expansions.Heeds m.expansions.after (m.activationStep a s) done := by
  refine Script.Checklist.heeds_lift_bind fun ⟨a', active⟩ hsite => ?_
  obtain ⟨hsize, hdone⟩ := ha
  rw [← expanded_of_activateSite hsite] at hsize hdone
  cases active with
  | true => exact Script.Checklist.heeds_call ⟨hsize, hcallee, hdone⟩
  | false => exact ⟨hsize, hdone⟩

theorem kept_expansions (h : m.design.main.Elaborated plan) : m.expansions.Kept m.activationBody where
  fresh := by
    rintro action a done ⟨-, -, hdone⟩ hdeals hmem
    have hnew : (!a.expanded.test action) = true := hdeals
    rw [hdone action hmem] at hnew
    cases hnew
  heeds := by
    rintro action a done ⟨hsize, haction, hdone⟩
    unfold activationBody
    cases hold : a.expanded.test action with
    | true =>
      have hentered : m.expansions.entered action a done = done := by
        have hdeals : m.expansions.deals action a = false := by
          show (!a.expanded.test action) = false
          rw [hold]
          rfl
        exact if_neg (by rw [hdeals]; exact Bool.false_ne_true)
      rw [hentered, if_pos rfl]
      exact ⟨hsize, hdone⟩
    | false =>
      have hentered : m.expansions.entered action a done = insert action done := by
        have hdeals : m.expansions.deals action a = true := by
          show (!a.expanded.test action) = true
          rw [hold]
          rfl
        exact if_pos hdeals
      rw [hentered, if_neg Bool.false_ne_true]
      refine Script.Checklist.heeds_foldlM (fun s hs a' done' ha' => heeds_activationStep ?_ ha') ?_
      · exact Registry.lt_length_of_method? (h.callee_method (Registry.mem_sitesOf.mp hs).1)
      · refine ⟨(Mask.size_insert _ _).trans hsize, fun x hx => ?_⟩
        refine (Mask.test_insert_iff (by rw [hsize]; exact haction)).mpr ?_
        rcases hx with rfl | hx
        · exact .inr rfl
        · exact .inl (hdone x hx)

theorem heeds_activationPhase (h : m.design.main.Elaborated plan) :
    m.expansions.Heeds m.expansions.after (m.activationPhase plan.order) ∅ := by
  refine Script.Checklist.heeds_foldlM ?_ ⟨Mask.size_none _, nofun⟩
  rintro t ht a done ⟨hsize, hdone⟩
  refine Script.Checklist.heeds_lift_bind fun requests _ => ?_
  cases requests with
  | true =>
    have hlt := Registry.lt_length_of_transaction? (h.mem_order.mp ht)
    exact Script.Checklist.heeds_call ⟨hsize, hlt, hdone⟩
  | false => exact ⟨hsize, hdone⟩

theorem heeds_grantStep {active : Mask} {g : Grants} {s : Nat × Site σ} {done : Set Nat}
    (hcallee : s.2.callee.id < m.design.main.actions.length) (hg : m.entries.after g done) :
    m.entries.Heeds m.entries.after (grantStep active g s) done := by
  obtain ⟨hsize, hdone⟩ := hg
  unfold grantStep
  split
  · simp only
    split
    · exact ⟨hsize, hdone⟩
    · rename_i hnew
      have htest : ∀ x, (g.actions.insert s.2.callee.id).test x = true ↔
          g.actions.test x = true ∨ x = s.2.callee.id :=
        fun x => Mask.test_insert_iff (by rw [hsize]; exact hcallee)
      exact Script.Checklist.heeds_call ⟨(Mask.size_insert _ _).trans hsize, (htest _).mpr (.inr rfl),
        fun _ hmem => hnew (hdone _ hmem), fun x hx => (htest x).mpr (.inl (hdone x hx))⟩
  · exact ⟨hsize, hdone⟩

theorem kept_entries (h : m.design.main.Elaborated plan) (active : Mask) :
    m.entries.Kept (m.grantBody active) where
  fresh := fun hbefore hdeals => hbefore.2.2.1 hdeals
  heeds := by
    rintro action g done ⟨hsize, hgranted, -, hdone⟩
    refine Script.Checklist.heeds_foldlM (fun s hs g' done' hg' => heeds_grantStep ?_ hg') ⟨hsize, fun x hx => ?_⟩
    · exact Registry.lt_length_of_method? (h.callee_method (Registry.mem_sitesOf.mp hs).1)
    · unfold Script.Checklist.entered at hx
      split at hx
      · rcases hx with rfl | hx
        · exact hgranted
        · exact hdone x hx
      · exact hdone x hx

theorem heeds_grantPhase (h : m.design.main.Elaborated plan) (winners : List Nat) :
    m.entries.Heeds m.entries.after (m.grantPhase plan.order winners) ∅ := by
  refine Script.Checklist.heeds_foldlM ?_ ⟨?_, nofun⟩
  · rintro t ht g done ⟨hsize, hdone⟩
    unfold grantRoot
    split
    · rename_i hgranted
      refine Script.Checklist.heeds_call ⟨hsize, hgranted, fun hmethod => ?_, hdone⟩
      -- a transaction is no method
      have hnone := Registry.transaction?_eq_none hmethod
      have hsome := h.mem_order.mp ht
      rw [hnone] at hsome
      cases hsome
    · exact ⟨hsize, hdone⟩
  · unfold winnersGranted
    rw [Mask.size_foldl_insert, Mask.size_none]

end Checklists

end Machine

end GuardedActions
